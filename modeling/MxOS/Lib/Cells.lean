import MxOS.Lib.BlockList

/-! # Allocation of equal blocks

When all requests are for the same length, the region stays cut at multiples of one cell,
the length of a header and a payload. Every block in use is one cell, every free block is
a number of cells, and the last block is free and holds the rest of the region that is too
short for a cell. Free neighbours that were never joined then lose nothing: any free cell
can serve the next request.
-/

namespace BlockList

/-- The blocks of a region of the given number of cells. -/
inductive Celled (header count rest : Nat) : Nat → List Block → Prop where
  | tail (cells : Nat) : Celled header count rest cells [⟨cells * (header + count) + rest, true⟩]
  | used {cells : Nat} {blocks : List Block} :
      Celled header count rest cells blocks →
      Celled header count rest (cells + 1) (⟨count, false⟩ :: blocks)
  | free (more : Nat) {cells : Nat} {blocks : List Block} :
      Celled header count rest cells blocks →
      Celled header count rest (cells + (more + 1))
        (⟨more * (header + count) + count, true⟩ :: blocks)

variable {header slack count rest cells base offset : Nat} {blocks after : List Block}

theorem Celled.tail_of_eq {size : Nat} (same : size = cells * (header + count) + rest) :
    Celled header count rest cells [⟨size, true⟩] := same ▸ .tail cells

theorem Celled.free_of_eq (celled : Celled header count rest cells blocks) (more : Nat)
    {size total : Nat} (same : size = more * (header + count) + count)
    (sum : total = cells + (more + 1)) :
    Celled header count rest total (⟨size, true⟩ :: blocks) := by
  subst same sum
  exact .free more celled

/-- Every payload in use is of the length requested. -/
theorem Celled.live_size (celled : Celled header count rest cells blocks) {entry : Nat × Nat}
    (member : entry ∈ live header base blocks) : entry.2 = count := by
  induction celled generalizing base with
  | tail _ => cases member
  | used _ ih =>
      rcases List.mem_cons.mp member with rfl | later
      · rfl
      · exact ih later
  | free _ _ ih => exact ih member

theorem Celled.live_le (celled : Celled header count rest cells blocks) (base : Nat) :
    (live header base blocks).length ≤ cells := by
  induction celled generalizing base with
  | tail cells => exact Nat.zero_le _
  | used _ ih => exact Nat.succ_le_succ (ih _)
  | free more _ ih => exact Nat.le_trans (ih _) (Nat.le_add_right ..)

/-- A request fails only when every cell is in use. -/
theorem Celled.live_of_allocate_none (celled : Celled header count rest cells blocks)
    (failed : BlockList.allocate header slack count blocks = none) :
    (live header base blocks).length = cells := by
  induction celled generalizing base with
  | tail cells =>
      cases cells with
      | zero => rfl
      | succ cells =>
          have fits : count ≤ (cells + 1) * (header + count) + rest := by
            rw [Nat.succ_mul]
            omega
          rw [BlockList.allocate, if_pos ⟨rfl, fits⟩] at failed
          cases failed
  | used _ ih =>
      rw [BlockList.allocate, if_neg (fun fits => Bool.false_ne_true fits.1),
        Option.map_eq_none_iff] at failed
      exact congrArg (· + 1) (ih failed)
  | free more celled _ =>
      rw [BlockList.allocate, if_pos ⟨rfl, Nat.le_add_left ..⟩] at failed
      cases failed

section Bounds

variable (room : slack < rest) (short : rest < count)
include room short

theorem Celled.allocate (celled : Celled header count rest cells blocks)
    (allocated : allocate header slack count blocks = some (offset, after)) :
    Celled header count rest cells after := by
  induction celled generalizing offset after with
  | tail cells =>
      rw [BlockList.allocate] at allocated
      cases cells with
      | zero =>
          rw [if_neg (by rintro ⟨_, fits⟩; simp only [Nat.zero_mul] at fits; omega)] at allocated
          cases allocated
      | succ cells =>
          have size : (cells + 1) * (header + count) + rest =
              cells * (header + count) + rest + (count + header) := by
            rw [Nat.succ_mul]
            omega
          rw [size, if_pos ⟨rfl, by simp only; omega⟩] at allocated
          obtain ⟨_, rfl⟩ := Prod.mk.inj (Option.some.inj allocated)
          rw [carve, if_pos (by simp only; omega)]
          refine .used (.tail_of_eq ?_)
          simp only
          omega
  | used _ ih =>
      rw [BlockList.allocate, if_neg (fun fits => Bool.false_ne_true fits.1)] at allocated
      obtain ⟨⟨inner, tail⟩, found, same⟩ := Option.map_eq_some_iff.mp allocated
      cases same
      exact .used (ih found)
  | free more celled _ =>
      rw [BlockList.allocate, if_pos ⟨rfl, Nat.le_add_left ..⟩] at allocated
      obtain ⟨_, rfl⟩ := Prod.mk.inj (Option.some.inj allocated)
      cases more with
      | zero =>
          rw [carve, if_neg (by simp only [Nat.zero_mul]; omega)]
          simp only [Nat.zero_mul, Nat.zero_add]
          exact .used celled
      | succ more =>
          have size : (more + 1) * (header + count) + count =
              more * (header + count) + count + (count + header) := by
            rw [Nat.succ_mul]
            omega
          rw [size, carve, if_pos (by simp only; omega)]
          refine .used (celled.free_of_eq more ?_ rfl)
          simp only
          omega

theorem Celled.allocate_eq_none_iff (celled : Celled header count rest cells blocks) (base : Nat) :
    BlockList.allocate header slack count blocks = none ↔
      (live header base blocks).length = cells := by
  refine ⟨fun failed => celled.live_of_allocate_none failed, fun full => ?_⟩
  cases allocated : BlockList.allocate header slack count blocks with
  | none => rfl
  | some found =>
      obtain ⟨size, _, perm⟩ := allocate_live base allocated
      have more := perm.length_eq
      have bound := (celled.allocate room short allocated).live_le base
      rw [List.length_cons, full] at more
      omega

end Bounds

theorem Celled.releaseHead (celled : Celled header count rest cells blocks) :
    Celled header count rest (cells + 1) (releaseHead header (⟨count, false⟩ :: blocks)) := by
  cases celled with
  | tail cells =>
      rw [BlockList.releaseHead, if_pos rfl]
      refine .tail_of_eq ?_
      simp only [Nat.succ_mul]
      omega
  | used celled =>
      rw [BlockList.releaseHead, if_neg Bool.false_ne_true]
      refine celled.used.free_of_eq 0 ?_ rfl
      simp only [Nat.zero_mul, Nat.zero_add]
  | free more celled =>
      rw [BlockList.releaseHead, if_pos rfl]
      refine celled.free_of_eq (more + 1) ?_ rfl
      simp only [Nat.succ_mul]
      omega

/-- Joining a freed cell with the free cells after it keeps the cuts. -/
theorem Celled.release {size : Nat} (celled : Celled header count rest cells blocks)
    (found : blockAt header offset blocks = some ⟨size, false⟩) :
    Celled header count rest cells (release header offset blocks) := by
  induction celled generalizing offset with
  | tail cells =>
      cases offset with
      | zero => cases found
      | succ offset =>
          rw [blockAt] at found
          split at found <;> cases found
  | used celled ih =>
      cases offset with
      | zero => exact celled.releaseHead
      | succ offset =>
          rw [blockAt] at found
          split at found
          · exact .used (ih found)
          · cases found
  | free more celled ih =>
      cases offset with
      | zero => cases found
      | succ offset =>
          rw [blockAt] at found
          split at found
          · exact .free more (ih found)
          · cases found

end BlockList
