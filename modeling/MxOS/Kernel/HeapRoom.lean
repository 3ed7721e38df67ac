import MxOS.Kernel.HeapInvariant

/-! # The room behind a pointer

`kmalloc` rounds the size up to a multiple of four in 32-bit arithmetic. Up to the largest
multiple of four the block has the bytes asked for. Beyond it the rounded size is 0, and any
free block will do.
-/

namespace MxOS.Mem

open ByteMemory BlockList

/-- The pointer stands behind a header of the heap, and the given number of bytes follow
before the next header and before the end of the heap. -/
def HasRoom (heap : Heap) (ptr : Word) (count : Nat) : Prop :=
  ∃ visited, walk heap = some visited ∧
    (∃ entry ∈ visited, entry.1 + 12 = ptr) ∧
    (∀ entry ∈ visited, ptr.toNat ≤ entry.1.toNat → ptr.toNat + count ≤ entry.1.toNat) ∧
    ptr.toNat + count ≤ heapBase + heapLength

/-- No header of the heap is marked free. -/
def Exhausted (heap : Heap) : Prop :=
  ∃ visited, walk heap = some visited ∧ ∀ entry ∈ visited, entry.2.isFree = 0

/-! ### Rounding -/

theorem alignUp_toNat (size : Word) : (alignUp size).toNat = (size.toNat + 3) % 2 ^ 32 / 4 * 4 := by
  have shifted : alignUp size = ((size + 3) >>> 2) <<< 2 := by
    apply BitVec.eq_of_getLsbD_eq
    intro bit bound
    have mask : BitVec.getLsbD (3 : Word) bit = decide (bit < 2) :=
      (by decide : ∀ bit < 32, BitVec.getLsbD (3 : Word) bit = decide (bit < 2)) bit bound
    simp only [alignUp, BitVec.getLsbD_and, BitVec.getLsbD_not, BitVec.getLsbD_shiftLeft,
      BitVec.getLsbD_ushiftRight, mask]
    grind
  rw [shifted]
  simp only [BitVec.toNat_shiftLeft, BitVec.toNat_ushiftRight, BitVec.toNat_add,
    Nat.shiftRight_eq_div_pow, Nat.shiftLeft_eq]
  rw [show BitVec.toNat (3 : Word) = 3 from rfl]
  omega

theorem le_alignUp {size : Word} (small : size.toNat ≤ 2 ^ 32 - 4) :
    size.toNat ≤ (alignUp size).toNat := by
  rw [alignUp_toNat]
  omega

theorem alignUp_wraps {size : Word} (large : 2 ^ 32 - 4 < size.toNat) :
    (alignUp size).toNat = 0 := by
  have bounded := size.isLt
  rw [alignUp_toNat]
  omega

/-! ### The block handed out -/

theorem allocate_zero_eq_none_iff {header slack : Nat} {blocks : List Block} :
    allocate header slack 0 blocks = none ↔ ∀ block ∈ blocks, block.free = false := by
  induction blocks with
  | nil => simp [allocate]
  | cons block rest ih =>
      rw [allocate, List.forall_mem_cons, ← ih]
      cases block.free with
      | true => simp
      | false => simp

theorem visit_taken_iff (address : Nat) (blocks : List Block) :
    (∀ entry ∈ visit address blocks, entry.2.isFree = 0) ↔
      ∀ block ∈ blocks, block.free = false := by
  induction blocks generalizing address with
  | nil => simp [visit]
  | cons block rest ih =>
      rw [visit, List.forall_mem_cons, List.forall_mem_cons, ih]
      refine and_congr_left fun _ => ?_
      rw [← Bool.not_eq_true, ← flag_ne_zero, not_not]

theorem exhausted_iff {heap : Heap} {blocks : List Block} (represents : Represents heap blocks) :
    Exhausted heap ↔ ∀ block ∈ blocks, block.free = false := by
  have walked := walk_represents represents
  rw [← visit_taken_iff heapBase]
  constructor
  · rintro ⟨visited, same, taken⟩
    rw [walked] at same
    rwa [Option.some.inj same]
  · intro taken
    exact ⟨_, walked, taken⟩

/-- The block of a payload in use has its bytes before the next header. -/
theorem Represents.hasRoom {heap : Heap} {blocks : List Block} (represents : Represents heap blocks)
    {offset : Nat} {block : Block} (found : blockAt headerSize offset blocks = some block)
    {count : Nat} (fits : count ≤ block.size) :
    HasRoom heap (BitVec.ofNat 32 (heapBase + offset + headerSize)) count := by
  have pointer := (offset_toNat represents.total found).1
  have ends := (represents.toNat_place found).2
  refine ⟨_, walk_represents represents, ?_, ?_, ?_⟩
  · obtain ⟨entry, member, place, _⟩ := mem_visit_of_blockAt heapBase found
    refine ⟨entry, member, ?_⟩
    rw [place, show (12 : Word) = BitVec.ofNat 32 headerSize from rfl, ← BitVec.ofNat_add]
  · intro entry member behind
    obtain ⟨other, second, foundOther, place, _⟩ := blockAt_of_mem_visit member
    have located := (represents.toNat_place foundOther).1
    rw [pointer, place, located] at behind ⊢
    have order := blockAt_apart found foundOther (by simp only [headerSize] at behind; omega)
    omega
  · rw [pointer]
    omega

/-- What `kmalloc` returns on a reachable heap has the bytes asked for, unless the size is
above the largest multiple of four while some block is free. -/
theorem kmalloc_hasRoom_iff {heap : Heap} {held : List (Word × Word)} (run : HeapRun heap held)
    (size : Word) :
    ∃ ptr after, kmalloc size heap = some (ptr, after) ∧
      ((ptr ≠ 0 → HasRoom after ptr size.toNat) ↔
        size.toNat ≤ 2 ^ 32 - 4 ∨ Exhausted heap) := by
  obtain ⟨blocks, represents, _⟩ := run.represents
  rcases kmalloc_represents represents size with ⟨refused, returned⟩ |
    ⟨offset, carved, later, allocated, returned, spelled, _⟩
  · refine ⟨0, heap, returned, iff_of_true (fun present => absurd rfl present) ?_⟩
    by_cases small : size.toNat ≤ 2 ^ 32 - 4
    · exact Or.inl small
    · -- The rounded size is 0, so a free block would have been taken.
      rw [alignUp_wraps (Nat.lt_of_not_le small), allocate_zero_eq_none_iff] at refused
      exact Or.inr ((exhausted_iff represents).mpr refused)
  · refine ⟨_, _, returned, ?_⟩
    have present := (kmalloc_position spelled allocated).1
    obtain ⟨length, enough, perm⟩ := allocate_live heapBase allocated
    obtain ⟨place, equal, found⟩ :=
      blockAt_of_mem_live (by decide) (perm.mem_iff.mpr (List.mem_cons_self ..))
    obtain rfl : place = offset := by omega
    constructor
    · intro room
      obtain ⟨_, _, _, _, ends⟩ := room present
      simp only [heapBase, heapLength] at ends
      exact Or.inl (by omega)
    · rintro (small | exhausted) _
      · exact spelled.hasRoom found (Nat.le_trans (le_alignUp small) enough)
      · by_cases small : size.toNat ≤ 2 ^ 32 - 4
        · exact spelled.hasRoom found (Nat.le_trans (le_alignUp small) enough)
        · have taken := (exhausted_iff represents).mp exhausted
          rw [alignUp_wraps (Nat.lt_of_not_le small),
            allocate_zero_eq_none_iff.mpr taken] at allocated
          cases allocated

/-- The heap that `main_entry` sets up in cleared memory. -/
def freshHeap : Heap :=
  heapInit (BitVec.ofNat 32 heapBase) (BitVec.ofNat 32 heapLength) fun _ => 0

/-- An ordinary request on a fresh heap. -/
theorem kmalloc_hasRoom_ordinary :
    ∃ ptr after, kmalloc 100 freshHeap = some (ptr, after) ∧ ptr ≠ 0 ∧ HasRoom after ptr 100 := by
  have taken : kmalloc 100 freshHeap = some (0x10000C, _) := rfl
  obtain ⟨ptr, after, returned, room⟩ := kmalloc_hasRoom_iff (.init fun _ => 0) 100
  have present : ptr ≠ 0 := by
    have same : (0x10000C, _) = (ptr, after) := Option.some.inj (taken.symm.trans returned)
    rw [← (Prod.mk.inj same).1]
    decide
  exact ⟨ptr, after, returned, present, room.mpr (Or.inl (by decide)) present⟩

/-- The largest size is rounded to 0: the block handed out on a fresh heap is empty. -/
theorem kmalloc_hasRoom_wraps :
    ∃ heap held ptr after, HeapRun heap held ∧ kmalloc 0xFFFFFFFF heap = some (ptr, after) ∧
      ptr ≠ 0 ∧ (headerAt after.memory (ptr - 12)).size = 0 ∧
      ¬ HasRoom after ptr (0xFFFFFFFF : Word).toNat := by
  refine ⟨freshHeap, [], 0x10000C, _, .init _, rfl, by decide, rfl, ?_⟩
  rintro ⟨_, _, _, _, ends⟩
  exact absurd ends (by decide)

end MxOS.Mem
