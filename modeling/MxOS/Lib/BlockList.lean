import Mathlib.Data.List.Perm.Basic
import Mathlib.Algebra.BigOperators.Group.List.Basic
import Mathlib.Algebra.GroupWithZero.Nat
import Mathlib.Tactic.Common

/-! # First-fit allocation over a contiguous list of blocks

A region of storage is cut into consecutive blocks, each a header of fixed length
followed by a payload. Allocation takes the first free block that is large enough
and splits off the rest when it can hold a further block; release frees a block
and joins it with the following one when that is free. Positions are offsets from
the start of the region, so the block list alone determines where everything is.
-/

namespace BlockList

/-- A block of the region: the length of its payload and whether it is free. -/
structure Block where
  size : Nat
  free : Bool
  deriving DecidableEq, Repr

section Layout

variable (header : Nat)

/-- The total length of a list of blocks, headers included. -/
def extent : List Block → Nat
  | [] => 0
  | block :: rest => header + block.size + extent rest

/-- Position and length of each payload in use, in address order, for a region starting at
`base`. -/
def live (base : Nat) : List Block → List (Nat × Nat)
  | [] => []
  | block :: rest =>
      if block.free then live (base + header + block.size) rest
      else (base + header, block.size) :: live (base + header + block.size) rest

/-- The positions of the headers for a region starting at `base`. -/
def headers (base : Nat) : List Block → List Nat
  | [] => []
  | block :: rest => base :: headers (base + header + block.size) rest

/-- The block at a given offset from the start of the region. -/
def blockAt : Nat → List Block → Option Block
  | _, [] => none
  | 0, block :: _ => some block
  | offset + 1, block :: rest =>
      if header + block.size ≤ offset + 1 then
        blockAt (offset + 1 - (header + block.size)) rest
      else none

/-- The block in use that an allocation of `count` bytes makes out of a free block, and the
free block it splits off when more than a header and `slack` bytes remain. -/
def carve (slack count : Nat) (block : Block) : List Block :=
  if count + header + slack < block.size then
    [⟨count, false⟩, ⟨block.size - count - header, true⟩]
  else [⟨block.size, false⟩]

/-- First-fit allocation: the offset of the chosen block and the blocks afterwards. -/
def allocate (slack count : Nat) : List Block → Option (Nat × List Block)
  | [] => none
  | block :: rest =>
      if block.free = true ∧ count ≤ block.size then
        some (0, carve header slack count block ++ rest)
      else
        (allocate slack count rest).map fun found =>
          (header + block.size + found.1, block :: found.2)

/-- Free the first block and join it with the next one when that is free. -/
def releaseHead : List Block → List Block
  | [] => []
  | [block] => [⟨block.size, true⟩]
  | block :: next :: rest =>
      if next.free then ⟨block.size + (next.size + header), true⟩ :: rest
      else ⟨block.size, true⟩ :: next :: rest

/-- Free the block at the given offset. -/
def release : Nat → List Block → List Block
  | _, [] => []
  | 0, block :: rest => releaseHead header (block :: rest)
  | offset + 1, block :: rest =>
      block :: release (offset + 1 - (header + block.size)) rest

/-- The total payload length of the blocks with the given status. -/
def payload (free : Bool) : List Block → Nat
  | [] => 0
  | block :: rest => (if block.free = free then block.size else 0) + payload free rest

end Layout

variable {header slack count base offset : Nat} {blocks after : List Block}

@[simp] theorem extent_nil : extent header [] = 0 := rfl

@[simp] theorem extent_cons (block : Block) :
    extent header (block :: blocks) = header + block.size + extent header blocks := rfl

@[simp] theorem extent_append (first second : List Block) :
    extent header (first ++ second) = extent header first + extent header second := by
  induction first with
  | nil => simp
  | cons block rest ih => simp [ih]; omega

/-! ### Allocation -/

theorem extent_carve (block : Block) :
    extent header (carve header slack count block) = header + block.size := by
  unfold carve
  split
  · simp only [extent_cons, extent_nil]
    omega
  · simp

/-- The length of the payload that carving hands out. -/
def carvedSize (header slack count : Nat) (block : Block) : Nat :=
  if count + header + slack < block.size then count else block.size

theorem live_carve_append (block : Block) (rest : List Block) :
    live header base (carve header slack count block ++ rest) =
      (base + header, carvedSize header slack count block) ::
        live header (base + header + block.size) rest := by
  unfold carve carvedSize
  split
  · have joined : base + header + count + header + (block.size - count - header) =
        base + header + block.size := by omega
    simp [live, joined]
  · simp [live]

theorem allocate_extent (allocated : allocate header slack count blocks = some (offset, after)) :
    extent header after = extent header blocks := by
  induction blocks generalizing offset after with
  | nil => simp [allocate] at allocated
  | cons block rest ih =>
      by_cases fits : block.free = true ∧ count ≤ block.size
      · rw [allocate, if_pos fits, Option.some.injEq, Prod.mk.injEq] at allocated
        obtain ⟨rfl, rfl⟩ := allocated
        rw [extent_append, extent_carve, extent_cons]
      · rw [allocate, if_neg fits] at allocated
        obtain ⟨⟨inner, tail⟩, found, equal⟩ := Option.map_eq_some_iff.mp allocated
        cases equal
        simp only [extent_cons, ih found]

/-- Allocation adds exactly one payload in use and moves none of the others. -/
theorem allocate_live (base : Nat)
    (allocated : allocate header slack count blocks = some (offset, after)) :
    ∃ size, count ≤ size ∧
      (live header base after).Perm
        ((base + offset + header, size) :: live header base blocks) := by
  induction blocks generalizing base offset after with
  | nil => simp [allocate] at allocated
  | cons block rest ih =>
      by_cases fits : block.free = true ∧ count ≤ block.size
      · rw [allocate, if_pos fits, Option.some.injEq, Prod.mk.injEq] at allocated
        obtain ⟨rfl, rfl⟩ := allocated
        refine ⟨carvedSize header slack count block, ?_, ?_⟩
        · unfold carvedSize
          split
          · exact Nat.le_refl _
          · exact fits.2
        · rw [live_carve_append]
          simp only [live, fits.1, ↓reduceIte, Nat.add_zero]
          exact List.Perm.refl _
      · rw [allocate, if_neg fits] at allocated
        obtain ⟨⟨inner, tail⟩, found, equal⟩ := Option.map_eq_some_iff.mp allocated
        cases equal
        obtain ⟨size, large, perm⟩ := ih (base + header + block.size) found
        have position : base + (header + block.size + inner) + header =
            base + header + block.size + inner + header := by omega
        refine ⟨size, large, ?_⟩
        rw [position]
        by_cases free : block.free = true
        · simpa only [live, free, ↓reduceIte] using perm
        · simp only [live, free, Bool.false_eq_true, ↓reduceIte]
          exact (perm.cons _).trans (List.Perm.swap _ _ _)

theorem allocate_ne_nil (allocated : allocate header slack count blocks = some (offset, after)) :
    after ≠ [] := by
  cases blocks with
  | nil => simp [allocate] at allocated
  | cons block rest =>
      by_cases fits : block.free = true ∧ count ≤ block.size
      · rw [allocate, if_pos fits, Option.some.injEq, Prod.mk.injEq] at allocated
        obtain ⟨rfl, rfl⟩ := allocated
        unfold carve
        split <;> simp
      · rw [allocate, if_neg fits] at allocated
        obtain ⟨⟨inner, tail⟩, found, equal⟩ := Option.map_eq_some_iff.mp allocated
        cases equal
        simp

/-! ### Release -/

theorem extent_releaseHead (block : Block) (rest : List Block) :
    extent header (releaseHead header (block :: rest)) = extent header (block :: rest) := by
  cases rest with
  | nil => rfl
  | cons next rest =>
      rw [releaseHead]
      split
      · simp only [extent_cons]
        omega
      · rfl

theorem live_releaseHead (block : Block) (rest : List Block) :
    live header base (releaseHead header (block :: rest)) =
      live header (base + header + block.size) rest := by
  cases rest with
  | nil => rfl
  | cons next rest =>
      rw [releaseHead]
      split
      · rename_i free
        have joined : base + header + (block.size + (next.size + header)) =
            base + header + block.size + header + next.size := by omega
        simp only [live, free, ↓reduceIte, joined]
      · simp only [live, ↓reduceIte]

theorem blockAt_extent {block : Block} (found : blockAt header offset blocks = some block) :
    offset + header + block.size ≤ extent header blocks := by
  induction blocks generalizing offset with
  | nil => simp [blockAt] at found
  | cons first rest ih =>
      rw [extent_cons]
      cases offset with
      | zero =>
          simp only [blockAt, Option.some.injEq] at found
          subst found
          omega
      | succ offset =>
          simp only [blockAt] at found
          split at found
          · have bound := ih found
            omega
          · simp at found

theorem release_extent {block : Block} (found : blockAt header offset blocks = some block) :
    extent header (release header offset blocks) = extent header blocks := by
  induction blocks generalizing offset with
  | nil => rfl
  | cons first rest ih =>
      cases offset with
      | zero => exact extent_releaseHead first rest
      | succ offset =>
          simp only [blockAt] at found
          split at found
          · simp only [release, extent_cons, ih found]
          · simp at found

/-- Releasing a block in use removes exactly its payload and moves none of the others. -/
theorem release_live (base : Nat) {block : Block}
    (found : blockAt header offset blocks = some block)
    (used : block.free = false) :
    (live header base blocks).Perm
      ((base + offset + header, block.size) ::
        live header base (release header offset blocks)) := by
  induction blocks generalizing base offset with
  | nil => simp [blockAt] at found
  | cons first rest ih =>
      cases offset with
      | zero =>
          simp only [blockAt, Option.some.injEq] at found
          subst found
          rw [release, live_releaseHead]
          simp only [live, used, Bool.false_eq_true, ↓reduceIte, Nat.add_zero]
          exact List.Perm.refl _
      | succ offset =>
          simp only [blockAt] at found
          split at found
          · rename_i beyond
            have perm := ih (base + header + first.size) found
            have position : base + header + first.size + (offset + 1 - (header + first.size)) +
                header = base + (offset + 1) + header := by omega
            rw [position] at perm
            by_cases free : first.free = true
            · simpa only [live, release, free, ↓reduceIte] using perm
            · simp only [live, release, free, Bool.false_eq_true, ↓reduceIte]
              exact (perm.cons _).trans (List.Perm.swap _ _ _)
          · simp at found

/-! ### Blocks by offset -/

theorem blockAt_cons_of_le (positive : 0 < header) {first : Block} {rest : List Block}
    (beyond : header + first.size ≤ offset) :
    blockAt header offset (first :: rest) =
      blockAt header (offset - (header + first.size)) rest := by
  obtain ⟨before, rfl⟩ : ∃ before, offset = before + 1 := ⟨offset - 1, by omega⟩
  rw [blockAt, if_pos beyond]

theorem blockAt_append (positive : 0 < header) (before rest : List Block) (offset : Nat) :
    blockAt header (extent header before + offset) (before ++ rest) =
      blockAt header offset rest := by
  induction before with
  | nil => rw [extent_nil, Nat.zero_add, List.nil_append]
  | cons first before ih =>
      rw [List.cons_append, extent_cons, blockAt_cons_of_le positive (by omega), ← ih]
      congr 1
      omega

theorem blockAt_split {block : Block} (found : blockAt header offset blocks = some block) :
    ∃ before rest, blocks = before ++ block :: rest ∧ extent header before = offset := by
  induction blocks generalizing offset with
  | nil => simp [blockAt] at found
  | cons first rest ih =>
      cases offset with
      | zero =>
          simp only [blockAt, Option.some.injEq] at found
          exact ⟨[], rest, by rw [found, List.nil_append], rfl⟩
      | succ offset =>
          simp only [blockAt] at found
          split at found
          · obtain ⟨before, later, rfl, place⟩ := ih found
            refine ⟨first :: before, later, rfl, ?_⟩
            rw [extent_cons]
            omega
          · simp at found

/-- Blocks at different offsets do not overlap. -/
theorem blockAt_apart {second : Nat} {block other : Block}
    (found : blockAt header offset blocks = some block)
    (foundOther : blockAt header second blocks = some other) (below : offset < second) :
    offset + header + block.size ≤ second := by
  induction blocks generalizing offset second with
  | nil => simp [blockAt] at found
  | cons first rest ih =>
      obtain ⟨second, rfl⟩ : ∃ before, second = before + 1 := ⟨second - 1, by omega⟩
      simp only [blockAt] at foundOther
      split at foundOther
      · cases offset with
        | zero =>
            simp only [blockAt, Option.some.injEq] at found
            subst found
            omega
        | succ offset =>
            simp only [blockAt] at found
            split at found
            · have later := ih found foundOther (by omega)
              omega
            · simp at found
      · simp at foundOther

/-- Blocks that end at the same place are the same. -/
theorem blockAt_end_ne (positive : 0 < header) {second : Nat} {block other : Block}
    (found : blockAt header offset blocks = some block)
    (foundOther : blockAt header second blocks = some other) (differ : offset ≠ second) :
    offset + header + block.size ≠ second + header + other.size := by
  rcases Nat.lt_or_gt_of_ne differ with below | above
  · have order := blockAt_apart found foundOther below
    omega
  · have order := blockAt_apart foundOther found above
    omega

theorem releaseHead_ne_nil (block : Block) (rest : List Block) :
    releaseHead header (block :: rest) ≠ [] := by
  cases rest with
  | nil => exact List.cons_ne_nil _ _
  | cons next rest =>
      rw [releaseHead]
      split
      · exact List.cons_ne_nil _ _
      · exact List.cons_ne_nil _ _

theorem release_append (positive : 0 < header) (before : List Block) (block : Block)
    (rest : List Block) :
    release header (extent header before) (before ++ block :: rest) =
      before ++ releaseHead header (block :: rest) := by
  induction before with
  | nil => rfl
  | cons first before ih =>
      obtain ⟨place, shifted⟩ : ∃ place, header + first.size + extent header before = place + 1 :=
        ⟨header + first.size + extent header before - 1, by omega⟩
      rw [List.cons_append, extent_cons, shifted, release, ← shifted, Nat.add_sub_cancel_left, ih,
        List.cons_append]

theorem blockAt_releaseHead_of_ne (positive : 0 < header) {block : Block} {rest : List Block}
    (differ : offset ≠ 0) (notNext : offset ≠ header + block.size) :
    blockAt header offset (releaseHead header (block :: rest)) =
      blockAt header offset (block :: rest) := by
  obtain ⟨place, rfl⟩ : ∃ place, offset = place + 1 := ⟨offset - 1, by omega⟩
  cases rest with
  | nil => rfl
  | cons next rest =>
      rw [releaseHead]
      split
      · simp only [blockAt]
        by_cases first : header + block.size ≤ place + 1
        · obtain ⟨inner, shifted⟩ : ∃ inner, place + 1 - (header + block.size) = inner + 1 :=
            ⟨place - (header + block.size), by omega⟩
          rw [if_pos first, shifted, blockAt]
          by_cases second : header + next.size ≤ inner + 1
          · rw [if_pos second, if_pos (by omega)]
            congr 1
            omega
          · rw [if_neg second, if_neg (by omega)]
        · rw [if_neg first, if_neg (by omega)]
      · rfl

/-- Releasing a block leaves all blocks alone but itself and the next one. -/
theorem blockAt_release_of_ne (positive : 0 < header) {block : Block} {other : Nat}
    (found : blockAt header offset blocks = some block) (differ : other ≠ offset)
    (notNext : other ≠ offset + header + block.size) :
    blockAt header other (release header offset blocks) = blockAt header other blocks := by
  induction blocks generalizing offset other with
  | nil => rfl
  | cons first rest ih =>
      cases offset with
      | zero =>
          simp only [blockAt, Option.some.injEq] at found
          subst found
          exact blockAt_releaseHead_of_ne positive differ (by omega)
      | succ offset =>
          simp only [blockAt] at found
          split at found
          · cases other with
            | zero => rfl
            | succ other =>
                simp only [release, blockAt]
                split
                · exact ih found (by omega) (by omega)
                · rfl
          · simp at found

theorem blockAt_release_self (positive : 0 < header) {block : Block}
    (found : blockAt header offset blocks = some block) :
    ∃ size, blockAt header offset (release header offset blocks) = some ⟨size, true⟩ := by
  obtain ⟨before, rest, rfl, rfl⟩ := blockAt_split found
  rw [release_append positive]
  have place := blockAt_append positive before (releaseHead header (block :: rest)) 0
  rw [Nat.add_zero] at place
  rw [place]
  cases rest with
  | nil => exact ⟨_, rfl⟩
  | cons next rest =>
      rw [releaseHead]
      split
      · exact ⟨_, rfl⟩
      · exact ⟨_, rfl⟩

/-- Releasing a block joins it with the next one when that is free, and leaves it alone
otherwise. -/
theorem blockAt_release_next (positive : 0 < header) {block next : Block}
    (found : blockAt header offset blocks = some block)
    (foundNext : blockAt header (offset + header + block.size) blocks = some next) :
    (next.free = true ∧ blockAt header offset (release header offset blocks) =
        some ⟨block.size + (next.size + header), true⟩) ∨
      (next.free = false ∧
        blockAt header (offset + header + block.size) (release header offset blocks) =
          some next) := by
  obtain ⟨before, rest, rfl, rfl⟩ := blockAt_split found
  have here := blockAt_append positive before (releaseHead header (block :: rest)) 0
  have beyond := fun tail => blockAt_append positive before tail (header + block.size)
  simp only [Nat.add_zero, ← Nat.add_assoc] at here beyond
  rw [release_append positive, here, beyond]
  rw [beyond, blockAt_cons_of_le positive (Nat.le_refl _), Nat.sub_self] at foundNext
  cases rest with
  | nil => cases foundNext
  | cons following rest =>
      simp only [blockAt, Option.some.injEq] at foundNext
      subst foundNext
      cases free : following.free with
      | true =>
          left
          rw [releaseHead, if_pos free]
          exact ⟨rfl, rfl⟩
      | false =>
          right
          have second : blockAt header (header + block.size)
              (⟨block.size, true⟩ :: following :: rest) =
                blockAt header (header + block.size - (header + block.size)) (following :: rest) :=
            blockAt_cons_of_le positive (Nat.le_refl _)
          rw [releaseHead, if_neg (by simp [free]), second, Nat.sub_self]
          exact ⟨rfl, rfl⟩

/-! ### Taking the block at an offset -/

theorem live_append (base : Nat) (first second : List Block) :
    live header base (first ++ second) =
      live header base first ++ live header (base + extent header first) second := by
  induction first generalizing base with
  | nil => rfl
  | cons block rest ih =>
      have place : base + header + block.size + extent header rest =
          base + (header + block.size + extent header rest) := by omega
      simp only [List.cons_append, live, extent_cons, ih, place]
      split
      · rfl
      · rfl

/-- Carving a free block adds exactly one payload in use and moves none of the others. -/
theorem live_carve (base : Nat) (before : List Block) {block : Block} (rest : List Block)
    (free : block.free = true) :
    (live header base (before ++ (carve header slack count block ++ rest))).Perm
      ((base + extent header before + header, carvedSize header slack count block) ::
        live header base (before ++ block :: rest)) := by
  rw [live_append, live_carve_append, live_append, live, if_pos free]
  exact List.perm_middle

/-! ### Where the payloads are -/

/-- A payload in use is the payload of the block at its offset. -/
theorem blockAt_of_mem_live (positive : 0 < header) {position size : Nat}
    (member : (position, size) ∈ live header base blocks) :
    ∃ offset, position = base + offset + header ∧
      blockAt header offset blocks = some ⟨size, false⟩ := by
  induction blocks generalizing base with
  | nil => simp [live] at member
  | cons block rest ih =>
      have later (inside : (position, size) ∈ live header (base + header + block.size) rest) :
          ∃ offset, position = base + offset + header ∧
            blockAt header offset (block :: rest) = some ⟨size, false⟩ := by
        obtain ⟨offset, equal, found⟩ := ih inside
        have shifted : header + block.size + offset = header + block.size + offset - 1 + 1 := by
          omega
        refine ⟨header + block.size + offset, by omega, ?_⟩
        rw [shifted, blockAt, if_pos (by omega), ← shifted, Nat.add_sub_cancel_left, found]
      by_cases free : block.free = true
      · simp only [live, free, ↓reduceIte] at member
        exact later member
      · simp only [live, free, Bool.false_eq_true, ↓reduceIte, List.mem_cons,
          Prod.mk.injEq] at member
        rcases member with ⟨rfl, rfl⟩ | inside
        · have used : block.free = false := by simpa using free
          exact ⟨0, by omega, by rw [blockAt, ← used]⟩
        · exact later inside

theorem live_bounds {entry : Nat × Nat} (member : entry ∈ live header base blocks) :
    base + header ≤ entry.1 ∧ entry.1 + entry.2 ≤ base + extent header blocks := by
  induction blocks generalizing base with
  | nil => simp [live] at member
  | cons block rest ih =>
      have later (inside : entry ∈ live header (base + header + block.size) rest) :
          base + header ≤ entry.1 ∧
            entry.1 + entry.2 ≤ base + extent header (block :: rest) := by
        have bounds := ih inside
        rw [extent_cons]
        omega
      by_cases free : block.free = true
      · simp only [live, free, ↓reduceIte] at member
        exact later member
      · simp only [live, free, Bool.false_eq_true, ↓reduceIte, List.mem_cons] at member
        rcases member with rfl | inside
        · rw [extent_cons]
          omega
        · exact later inside

/-- Payloads in use are separated by at least a header. -/
theorem live_pairwise :
    (live header base blocks).Pairwise fun first second =>
      first.1 + first.2 + header ≤ second.1 := by
  induction blocks generalizing base with
  | nil => exact List.Pairwise.nil
  | cons block rest ih =>
      by_cases free : block.free = true
      · simpa only [live, free, ↓reduceIte] using ih
      · simp only [live, free, Bool.false_eq_true, ↓reduceIte]
        refine List.Pairwise.cons ?_ ih
        intro entry member
        have bounds := live_bounds member
        omega

theorem headers_bounds {position : Nat} (member : position ∈ headers header base blocks) :
    base ≤ position ∧ position + header ≤ base + extent header blocks := by
  induction blocks generalizing base with
  | nil => simp [headers] at member
  | cons block rest ih =>
      simp only [headers, List.mem_cons] at member
      rw [extent_cons]
      rcases member with rfl | later
      · omega
      · have bounds := ih later
        omega

theorem headers_nodup (positive : 0 < header) : (headers header base blocks).Nodup := by
  induction blocks generalizing base with
  | nil => exact List.nodup_nil
  | cons block rest ih =>
      refine List.nodup_cons.mpr ⟨fun again => ?_, ih⟩
      have bounds := headers_bounds again
      omega

/-- No header overlaps a payload in use. -/
theorem header_disjoint_live {position : Nat} {entry : Nat × Nat}
    (inside : position ∈ headers header base blocks) (member : entry ∈ live header base blocks) :
    position + header ≤ entry.1 ∨ entry.1 + entry.2 ≤ position := by
  induction blocks generalizing base with
  | nil => simp [live] at member
  | cons block rest ih =>
      simp only [headers, List.mem_cons] at inside
      have later (tail : entry ∈ live header (base + header + block.size) rest) :
          position + header ≤ entry.1 ∨ entry.1 + entry.2 ≤ position := by
        rcases inside with rfl | rest
        · have bounds := live_bounds tail
          omega
        · exact ih rest tail
      by_cases free : block.free = true
      · simp only [live, free, ↓reduceIte] at member
        exact later member
      · simp only [live, free, Bool.false_eq_true, ↓reduceIte, List.mem_cons] at member
        rcases member with rfl | tail
        · rcases inside with rfl | rest
          · exact Or.inl (Nat.le_refl _)
          · have bounds := headers_bounds rest
            exact Or.inr (by omega)
        · exact later tail

/-! ### Accounting and alignment -/

/-- Every byte of the region is a header byte, in use, or free. -/
theorem payload_add_payload (blocks : List Block) :
    payload false blocks + payload true blocks + header * blocks.length = extent header blocks := by
  induction blocks with
  | nil => rfl
  | cons block rest ih =>
      rw [List.length_cons, Nat.mul_succ, extent_cons, ← ih]
      simp only [payload]
      cases block.free <;> simp <;> omega

theorem sum_live : ((live header base blocks).map Prod.snd).sum = payload false blocks := by
  induction blocks generalizing base with
  | nil => rfl
  | cons block rest ih =>
      cases free : block.free <;> simp [live, payload, free, ih]

/-- Every payload length is a multiple of `unit`. -/
def Aligned (unit : Nat) (blocks : List Block) : Prop := ∀ block ∈ blocks, unit ∣ block.size

theorem aligned_carve {unit : Nat} (unitHeader : unit ∣ header) (unitCount : unit ∣ count)
    {block : Block} (aligned : unit ∣ block.size) :
    Aligned unit (carve header slack count block) := by
  intro other carved
  unfold carve at carved
  split at carved
  · simp only [List.mem_cons, List.not_mem_nil, or_false] at carved
    rcases carved with rfl | rfl
    · exact unitCount
    · exact Nat.dvd_sub (Nat.dvd_sub aligned unitCount) unitHeader
  · simp only [List.mem_cons, List.not_mem_nil, or_false] at carved
    subst carved
    exact aligned

theorem allocate_aligned {unit : Nat} (unitHeader : unit ∣ header) (unitCount : unit ∣ count)
    (allocated : allocate header slack count blocks = some (offset, after))
    (aligned : Aligned unit blocks) : Aligned unit after := by
  induction blocks generalizing offset after with
  | nil => simp [allocate] at allocated
  | cons block rest ih =>
      have head : unit ∣ block.size := aligned block (by simp)
      have tail : Aligned unit rest := fun other member => aligned other (by simp [member])
      by_cases fits : block.free = true ∧ count ≤ block.size
      · rw [allocate, if_pos fits, Option.some.injEq, Prod.mk.injEq] at allocated
        obtain ⟨rfl, rfl⟩ := allocated
        intro other member
        rcases List.mem_append.mp member with carved | later
        · exact aligned_carve unitHeader unitCount head other carved
        · exact tail other later
      · rw [allocate, if_neg fits] at allocated
        obtain ⟨⟨inner, remaining⟩, found, equal⟩ := Option.map_eq_some_iff.mp allocated
        cases equal
        intro other member
        rcases List.mem_cons.mp member with rfl | later
        · exact head
        · exact ih found tail other later

theorem releaseHead_aligned {unit : Nat} (unitHeader : unit ∣ header) (block : Block)
    (rest : List Block) (aligned : Aligned unit (block :: rest)) :
    Aligned unit (releaseHead header (block :: rest)) := by
  have head : unit ∣ block.size := aligned block (by simp)
  intro other member
  cases rest with
  | nil =>
      simp only [releaseHead, List.mem_cons, List.not_mem_nil, or_false] at member
      subst member
      exact head
  | cons next rest =>
      have second : unit ∣ next.size := aligned next (by simp)
      rw [releaseHead] at member
      split at member
      · rcases List.mem_cons.mp member with rfl | later
        · exact Nat.dvd_add head (Nat.dvd_add second unitHeader)
        · exact aligned other (by simp [later])
      · rcases List.mem_cons.mp member with rfl | later
        · exact head
        · exact aligned other (List.mem_cons_of_mem _ later)

theorem release_aligned {unit : Nat} (unitHeader : unit ∣ header) (offset : Nat)
    (aligned : Aligned unit blocks) : Aligned unit (release header offset blocks) := by
  induction blocks generalizing offset with
  | nil => exact aligned
  | cons block rest ih =>
      cases offset with
      | zero => exact releaseHead_aligned unitHeader block rest aligned
      | succ offset =>
          intro other member
          rcases List.mem_cons.mp member with rfl | later
          · exact aligned other (by simp)
          · exact ih _ (fun inner inside => aligned inner (by simp [inside])) other later

theorem live_aligned {unit : Nat} (unitHeader : unit ∣ header) (unitBase : unit ∣ base)
    (aligned : Aligned unit blocks) {entry : Nat × Nat}
    (member : entry ∈ live header base blocks) : unit ∣ entry.1 := by
  induction blocks generalizing base with
  | nil => simp [live] at member
  | cons block rest ih =>
      have next : unit ∣ base + header + block.size :=
        Nat.dvd_add (Nat.dvd_add unitBase unitHeader) (aligned block (by simp))
      have tail : Aligned unit rest := fun other inside => aligned other (by simp [inside])
      by_cases free : block.free = true
      · simp only [live, free, ↓reduceIte] at member
        exact ih next tail member
      · simp only [live, free, Bool.false_eq_true, ↓reduceIte, List.mem_cons] at member
        rcases member with rfl | later
        · exact Nat.dvd_add unitBase unitHeader
        · exact ih next tail later

end BlockList
