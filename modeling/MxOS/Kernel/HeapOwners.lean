import Mathlib.Data.Set.Insert
import MxOS.Kernel.HeapInvariant

/-! # Owners of heap blocks

For the heap's users what matters is which payloads are in use. An allocation adds a
payload that was not in use and may be written by its owner; freeing a payload in use
removes it.
-/

namespace MxOS.Mem

open ByteMemory BlockList

/-- The addresses of the payloads in use. -/
def inUse (blocks : List Block) : List Nat := (live headerSize heapBase blocks).map Prod.fst

/-- The payloads in use start at exactly the owned addresses. -/
def Owns (heap : Heap) (owned : Set Nat) : Prop :=
  ∃ blocks, Represents heap blocks ∧ ∀ position, position ∈ owned ↔ position ∈ inUse blocks

theorem inUse_nodup (blocks : List Block) : (inUse blocks).Nodup := by
  apply List.pairwise_map.mpr
  refine live_pairwise.imp fun {first second} below => ?_
  simp only [headerSize] at below
  omega

/-- What an allocation adds was not in use. -/
theorem mem_inUse_added {before after : List Block} {position length : Nat}
    (perm : (live headerSize heapBase after).Perm
      ((position, length) :: live headerSize heapBase before)) :
    position ∉ inUse before ∧
      ∀ query, query ∈ inUse after ↔ query = position ∨ query ∈ inUse before := by
  have positions : (inUse after).Perm (position :: inUse before) := perm.map Prod.fst
  refine ⟨(List.nodup_cons.mp (positions.nodup_iff.mp (inUse_nodup after))).1, fun query => ?_⟩
  rw [positions.mem_iff, List.mem_cons]

/-- Freeing a block gives up its payload and no other. -/
theorem mem_inUse_release {blocks : List Block} {offset size : Nat}
    (found : blockAt headerSize offset blocks = some ⟨size, false⟩) (query : Nat) :
    query ∈ inUse (release headerSize offset blocks) ↔
      query ∈ inUse blocks ∧ query ≠ heapBase + offset + headerSize := by
  obtain ⟨once, exactly⟩ := mem_inUse_added (release_live heapBase found rfl)
  rw [exactly]
  constructor
  · intro elsewhere
    exact ⟨Or.inr elsewhere, fun here => once (here ▸ elsewhere)⟩
  · rintro ⟨here | elsewhere, differ⟩
    · exact absurd here differ
    · exact elsewhere

theorem heapInit_owns (memory : Memory) : Owns (heapInit 0x100000 0x100000 memory) ∅ := by
  refine ⟨_, heapInit_represents memory, fun position => ?_⟩
  simp [inUse, live]

/-- Writing inside a payload in use leaves the block list alone. -/
theorem Represents.store {heap : Heap} {blocks : List Block} (represents : Represents heap blocks)
    {entry : Nat × Nat} (member : entry ∈ live headerSize heapBase blocks) {later : Memory}
    (same : Set.EqOn later heap.memory (region entry.1 (entry.1 + entry.2))ᶜ) :
    Represents { heap with memory := later } blocks where
  start := represents.start
  chain := by
    refine represents.chain.congr_headers fun position inside => same.mono ?_
    have apart := header_disjoint_live inside member
    obtain ⟨lower, upper⟩ := headers_bounds inside
    have bounded := represents.bounded
    intro query inHeader inPayload
    obtain ⟨after, before⟩ := inPayload
    rw [mem_span_iff (by bv_omega)] at inHeader
    bv_omega
  total := represents.total
  aligned := represents.aligned

/-- `kmalloc` returns. It fails and changes nothing, or it returns a payload that was not in
use, with room for the requested bytes: writing these bytes keeps the heap well formed. -/
theorem Owns.kmalloc {heap : Heap} {owned : Set Nat} (owns : Owns heap owned) (size : Word) :
    Mem.kmalloc size heap = some (0, heap) ∨
    ∃ ptr after, Mem.kmalloc size heap = some (ptr, after) ∧ ptr ≠ 0 ∧ ptr.toNat ∉ owned ∧
      ptr.toNat + (alignUp size).toNat ≤ heapBase + heapLength ∧
      ∀ later, Set.EqOn later after.memory
          (region ptr.toNat (ptr.toNat + (alignUp size).toNat))ᶜ →
        Owns { after with memory := later } (insert ptr.toNat owned) := by
  obtain ⟨blocks, represents, exactly⟩ := owns
  rcases kmalloc_represents represents size with ⟨_, failed⟩ |
    ⟨offset, carved, memory, allocated, returned, spelled, _⟩
  · exact Or.inl failed
  · right
    obtain ⟨length, enough, perm⟩ := allocate_live heapBase allocated
    have member : (heapBase + offset + headerSize, length) ∈ live headerSize heapBase carved :=
      perm.mem_iff.mpr (List.mem_cons_self ..)
    have bounds := live_bounds member
    rw [spelled.total] at bounds
    have pointer : (BitVec.ofNat 32 (heapBase + offset + headerSize)).toNat =
        heapBase + offset + headerSize := by
      simp only [heapBase, heapLength, headerSize] at bounds ⊢
      rw [BitVec.toNat_ofNat]
      omega
    obtain ⟨fresh, positions⟩ := mem_inUse_added perm
    refine ⟨_, _, returned, (kmalloc_position spelled allocated).1, ?_, ?_, fun later same => ?_⟩
    · rw [pointer, exactly]
      exact fresh
    · rw [pointer]
      omega
    · rw [pointer] at same ⊢
      refine ⟨carved, spelled.store member (same.mono ?_), fun position => ?_⟩
      · apply Set.compl_subset_compl.mpr
        rintro query ⟨after, before⟩
        exact ⟨after, by simp only at *; omega⟩
      · rw [Set.mem_insert_iff, exactly, positions]

theorem Owns.pos {heap : Heap} {owned : Set Nat} (owns : Owns heap owned) {position : Nat}
    (member : position ∈ owned) : 0 < position := by
  obtain ⟨blocks, _, exactly⟩ := owns
  obtain ⟨entry, inLive, rfl⟩ := List.mem_map.mp ((exactly _).mp member)
  have bounds := live_bounds inLive
  simp only [headerSize] at bounds
  omega

/-- Freeing a payload in use gives up exactly that payload. -/
theorem Owns.kfree {heap : Heap} {owned : Set Nat} (owns : Owns heap owned) {ptr : Word}
    (member : ptr.toNat ∈ owned) : Owns (Mem.kfree ptr heap) (owned \ {ptr.toNat}) := by
  obtain ⟨blocks, represents, exactly⟩ := owns
  obtain ⟨⟨position, size⟩, inLive, same⟩ := List.mem_map.mp ((exactly _).mp member)
  obtain ⟨offset, place, found⟩ := blockAt_of_mem_live (by decide) inLive
  have pointer : ptr = BitVec.ofNat 32 (heapBase + offset + headerSize) := by
    rw [← place, show position = ptr.toNat from same]
    simp only [BitVec.ofNat_toNat, BitVec.setWidth_eq]
  refine ⟨_, pointer ▸ kfree_represents represents found, fun query => ?_⟩
  rw [Set.mem_sdiff, Set.mem_singleton_iff, exactly, mem_inUse_release found, ← place,
    show position = ptr.toNat from same]

/-- The heap determines which payloads are in use. -/
theorem Represents.live_eq {heap : Heap} {first second : List Block}
    (one : Represents heap first) (two : Represents heap second) :
    live headerSize heapBase first = live headerSize heapBase second := by
  have bounded : heapBase + heapLength < 2 ^ 32 := by decide
  have visits := Option.some.inj ((walk_represents one).symm.trans (walk_represents two))
  rw [← visit_live (by rw [one.total]; exact bounded), visits,
    visit_live (by rw [two.total]; exact bounded)]

/-- Walking over the heap ends, and the headers in use are those of the owned payloads. -/
theorem Owns.walk {heap : Heap} {owned : Set Nat} (owns : Owns heap owned) :
    ∃ visited, Mem.walk heap = some visited ∧
      (visited.map (fun entry => entry.1.toNat)).Nodup ∧
      ∀ position, position ∈ owned ↔
        ∃ entry ∈ visited, entry.2.isFree = 0 ∧ entry.1.toNat + headerSize = position := by
  obtain ⟨blocks, represents, exactly⟩ := owns
  have bounded : heapBase + extent headerSize blocks < 2 ^ 32 := by
    rw [represents.total]
    decide
  refine ⟨_, walk_represents represents, ?_, fun position => ?_⟩
  · rw [visit_headers bounded]
    exact headers_nodup (by decide)
  · rw [exactly, inUse, ← visit_live bounded, List.map_map]
    simp only [List.mem_map, List.mem_filter, decide_eq_true_eq, Function.comp_apply, and_assoc]

end MxOS.Mem
