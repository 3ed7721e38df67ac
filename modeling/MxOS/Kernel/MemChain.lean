import MxOS.Kernel.Mem
import MxOS.Lib.BlockList

/-! # Heap memories that spell a block list

`Chain` says that the headers from an address on spell a given list of blocks, one
right after the other. On such a memory `kmalloc`, `kfree`, `heap_stats` and a
plain walk over the `next` fields perform the list operations of
`BlockList`, and touch only the blocks they walk over.
-/

namespace MxOS.Mem

open ByteMemory BlockList

/-- A block is split when more than a header and this many bytes would remain. -/
abbrev splitSlack : Nat := 4

/-! ### Reading one header after writing another -/

section HeaderLaws

variable {memory : Memory} {header other : Word}

theorem headerAt_congr {later : Memory} (same : Set.EqOn later memory (span header headerSize)) :
    headerAt later header = headerAt memory header := by
  have inside (start : Word) (length : Nat) (bound : (start - header).toNat + length ≤ 12) :
      span start length ⊆ span header headerSize := by
    intro address member
    rw [mem_span] at member ⊢
    simp only [headerSize]
    bv_omega
  have size : later.read32 header = memory.read32 header :=
    Memory.read32_congr (same.mono (inside _ 4 (by bv_omega)))
  have next : later.read32 (header + 4) = memory.read32 (header + 4) :=
    Memory.read32_congr (same.mono (inside _ 4 (by bv_omega)))
  have flag : later (header + 8) = memory (header + 8) :=
    same (inside (header + 8) 1 (by bv_omega) (by rw [mem_span]; bv_omega))
  simp only [headerAt, size, next, flag]

theorem setSize_eqOn (value : Word) :
    Set.EqOn (setSize memory header value) memory (span header headerSize)ᶜ :=
  (Memory.write32_eqOn value).mono (Set.compl_subset_compl.mpr fun address member => by
    rw [mem_span] at member ⊢
    simp only [headerSize]
    omega)

theorem setNext_eqOn (value : Word) :
    Set.EqOn (setNext memory header value) memory (span header headerSize)ᶜ :=
  (Memory.write32_eqOn value).mono (Set.compl_subset_compl.mpr fun address member => by
    rw [mem_span] at member ⊢
    simp only [headerSize]
    bv_omega)

theorem setIsFree_eqOn (value : Byte) :
    Set.EqOn (setIsFree memory header value) memory (span header headerSize)ᶜ :=
  (Memory.write8_eqOn value).mono (Set.compl_subset_compl.mpr fun address member => by
    rw [Set.mem_singleton_iff] at member
    rw [mem_span, member]
    simp only [headerSize]
    bv_omega)

@[simp] theorem headerAt_setSize_self (value : Word) :
    headerAt (setSize memory header value) header =
      { headerAt memory header with size := value } := by
  have next : (setSize memory header value).read32 (header + 4) = memory.read32 (header + 4) :=
    Memory.read32_congr ((Memory.write32_eqOn value).mono fun address member => by
      simp only [Set.mem_compl_iff, mem_span] at member ⊢
      bv_omega)
  have flag : setSize memory header value (header + 8) = memory (header + 8) := by
    apply Memory.write32_eqOn
    simp only [Set.mem_compl_iff, mem_span]
    bv_omega
  simp only [headerAt, next, flag]
  simp only [setSize, Memory.read32_write32_self]

@[simp] theorem headerAt_setNext_self (value : Word) :
    headerAt (setNext memory header value) header =
      { headerAt memory header with next := value } := by
  have size : (setNext memory header value).read32 header = memory.read32 header :=
    Memory.read32_congr ((Memory.write32_eqOn value).mono fun address member => by
      simp only [Set.mem_compl_iff, mem_span] at member ⊢
      bv_omega)
  have flag : setNext memory header value (header + 8) = memory (header + 8) := by
    apply Memory.write32_eqOn
    simp only [Set.mem_compl_iff, mem_span]
    bv_omega
  simp only [headerAt, size, flag]
  simp only [setNext, Memory.read32_write32_self]

@[simp] theorem headerAt_setIsFree_self (value : Byte) :
    headerAt (setIsFree memory header value) header =
      { headerAt memory header with isFree := value } := by
  have size : (setIsFree memory header value).read32 header = memory.read32 header :=
    Memory.read32_congr ((Memory.write8_eqOn value).mono fun address member => by
      simp only [Set.mem_compl_iff, Set.mem_singleton_iff, mem_span] at member ⊢
      rintro rfl
      bv_omega)
  have next : (setIsFree memory header value).read32 (header + 4) = memory.read32 (header + 4) :=
    Memory.read32_congr ((Memory.write8_eqOn value).mono fun address member => by
      simp only [Set.mem_compl_iff, Set.mem_singleton_iff, mem_span] at member ⊢
      rintro rfl
      bv_omega)
  simp only [headerAt, size, next]
  simp only [setIsFree, Memory.write8_self]

/-- Two headers that do not overlap. -/
def Apart (header other : Word) : Prop := span header headerSize ⊆ (span other headerSize)ᶜ

theorem headerAt_setSize_of_apart (apart : Apart header other) (value : Word) :
    headerAt (setSize memory other value) header = headerAt memory header :=
  headerAt_congr ((setSize_eqOn value).mono apart)

theorem headerAt_setNext_of_apart (apart : Apart header other) (value : Word) :
    headerAt (setNext memory other value) header = headerAt memory header :=
  headerAt_congr ((setNext_eqOn value).mono apart)

theorem headerAt_setIsFree_of_apart (apart : Apart header other) (value : Byte) :
    headerAt (setIsFree memory other value) header = headerAt memory header :=
  headerAt_congr ((setIsFree_eqOn value).mono apart)

theorem Apart.symm (apart : Apart header other) : Apart other header :=
  Set.subset_compl_comm.mp apart

end HeaderLaws

/-! ### Memories that spell a block list -/

/-- The free flag as the code stores it. -/
def flag (free : Bool) : Byte := if free then 1 else 0

theorem flag_ne_zero {free : Bool} : flag free ≠ 0 ↔ free = true := by
  cases free <;> decide

/-- The `next` field of a block followed by `rest` at `address`. -/
def link (address : Nat) (rest : List Block) : Word :=
  if rest = [] then 0 else BitVec.ofNat 32 address

/-- The headers from `address` on spell the given blocks, one right after the other. -/
def Chain (memory : Memory) : Nat → List Block → Prop
  | _, [] => True
  | address, block :: rest =>
      headerAt memory (BitVec.ofNat 32 address) =
          ⟨BitVec.ofNat 32 block.size, link (address + headerSize + block.size) rest,
            flag block.free⟩ ∧
        Chain memory (address + headerSize + block.size) rest

/-- The addresses from `first` up to `last`, not included. -/
def region (first last : Nat) : Set Word :=
  {address | first ≤ address.toNat ∧ address.toNat < last}

theorem span_subset_region {address first last length : Nat} (lower : first ≤ address)
    (upper : address + length ≤ last) (bounded : last ≤ 2 ^ 32) :
    span (BitVec.ofNat 32 address) length ⊆ region first last := by
  intro query member
  rw [mem_span] at member
  constructor <;> bv_omega

/-- Only the bytes of the headers matter. -/
theorem Chain.congr_headers {memory later : Memory} {address : Nat} {blocks : List Block}
    (same : ∀ position ∈ headers headerSize address blocks,
      Set.EqOn later memory (span (BitVec.ofNat 32 position) headerSize))
    (chain : Chain memory address blocks) : Chain later address blocks := by
  induction blocks generalizing address with
  | nil => trivial
  | cons block rest ih =>
      refine ⟨?_, ih (fun position inside => same position (List.mem_cons_of_mem _ inside)) chain.2⟩
      rw [headerAt_congr (same address (List.mem_cons_self ..))]
      exact chain.1

theorem Chain.congr {memory later : Memory} {address : Nat} {blocks : List Block}
    (bounded : address + extent headerSize blocks ≤ 2 ^ 32)
    (same : Set.EqOn later memory (region address (address + extent headerSize blocks)))
    (chain : Chain memory address blocks) : Chain later address blocks := by
  refine chain.congr_headers fun position inside => same.mono ?_
  obtain ⟨lower, upper⟩ := headers_bounds inside
  exact span_subset_region lower upper bounded

theorem Chain.drop {memory : Memory} {address : Nat} {before tail : List Block}
    (chain : Chain memory address (before ++ tail)) :
    Chain memory (address + extent headerSize before) tail := by
  induction before generalizing address with
  | nil => exact chain
  | cons block before ih =>
      have position : address + headerSize + block.size + extent headerSize before =
          address + extent headerSize (block :: before) := by
        rw [extent_cons]
        omega
      have later := ih chain.2
      rwa [position] at later

/-- The end of a chain is replaced by another one at the same place. -/
theorem Chain.replace {memory later : Memory} {address : Nat} {before tail ending : List Block}
    (chain : Chain memory address (before ++ tail))
    (bounded : address + extent headerSize before ≤ 2 ^ 32) (tailNonempty : tail ≠ [])
    (endingNonempty : ending ≠ [])
    (spelled : Chain later (address + extent headerSize before) ending)
    (same : Set.EqOn later memory (region address (address + extent headerSize before))) :
    Chain later address (before ++ ending) := by
  induction before generalizing address with
  | nil => exact spelled
  | cons block before ih =>
      rw [extent_cons] at bounded same spelled
      rw [List.cons_append] at chain ⊢
      have position : address + headerSize + block.size + extent headerSize before =
          address + (headerSize + block.size + extent headerSize before) := by omega
      refine ⟨?_, ih chain.2 (by omega) (by rwa [position]) (same.mono ?_)⟩
      · have kept : headerAt later (BitVec.ofNat 32 address) =
            headerAt memory (BitVec.ofNat 32 address) :=
          headerAt_congr (same.mono (span_subset_region (Nat.le_refl _) (by omega) bounded))
        rw [kept, chain.1]
        simp only [link, List.append_eq_nil_iff, tailNonempty, endingNonempty, and_false,
          ↓reduceIte]
      · rintro query ⟨lower, upper⟩
        exact ⟨by omega, by omega⟩

theorem link_cons {address : Nat} (block : Block) (rest : List Block) :
    link address (block :: rest) = BitVec.ofNat 32 address := by
  simp [link]

theorem ofNat_ne_zero {address : Nat} (positive : 0 < address) (bounded : address < 2 ^ 32) :
    BitVec.ofNat 32 address ≠ 0 := by
  bv_omega

/-! ### Allocation -/

theorem splitBlock_curr {memory : Memory} {curr size : Word}
    (apart : Apart curr (curr + 12 + size)) :
    headerAt (splitBlock memory curr size) curr =
      ⟨size, curr + 12 + size, (headerAt memory curr).isFree⟩ := by
  simp only [splitBlock, headerAt_setNext_self, headerAt_setSize_self,
    headerAt_setIsFree_of_apart apart, headerAt_setNext_of_apart apart,
    headerAt_setSize_of_apart apart]

theorem splitBlock_next {memory : Memory} {curr size : Word}
    (apart : Apart curr (curr + 12 + size)) :
    headerAt (splitBlock memory curr size) (curr + 12 + size) =
      ⟨(headerAt memory curr).size - size - 12, (headerAt memory curr).next, 1⟩ := by
  simp only [splitBlock, headerAt_setNext_of_apart apart.symm, headerAt_setSize_of_apart apart.symm,
    headerAt_setSize_of_apart apart, headerAt_setIsFree_self, headerAt_setNext_self,
    headerAt_setSize_self]

theorem splitBlock_eqOn (memory : Memory) (curr size : Word) :
    Set.EqOn (splitBlock memory curr size) memory
      ((span curr headerSize)ᶜ ∩ (span (curr + 12 + size) headerSize)ᶜ) := by
  rintro query ⟨first, second⟩
  unfold splitBlock
  rw [setNext_eqOn _ first, setSize_eqOn _ first, setIsFree_eqOn _ second, setNext_eqOn _ second,
    setSize_eqOn _ second]

theorem apart_of_add_le {first second : Nat} (below : first + headerSize ≤ second)
    (bounded : second + headerSize ≤ 2 ^ 32) :
    Apart (BitVec.ofNat 32 first) (BitVec.ofNat 32 second) := by
  intro query member outside
  rw [mem_span] at member outside
  simp only [headerSize] at below bounded member outside
  bv_omega

/-- The conditions of the `kmalloc` walk at a block, in terms of natural numbers. -/
theorem fits_iff {block : Block} {size : Word} (small : block.size < 2 ^ 32) :
    (flag block.free ≠ 0 ∧ size ≤ BitVec.ofNat 32 block.size) ↔
      (block.free = true ∧ size.toNat ≤ block.size) := by
  rw [flag_ne_zero, BitVec.le_def, BitVec.toNat_ofNat, Nat.mod_eq_of_lt small]

theorem kmallocLoop_none {size : Word} {memory : Memory} {address fuel : Nat}
    {blocks : List Block} (chain : Chain memory address blocks) (positive : 0 < address)
    (bounded : address + extent headerSize blocks ≤ 2 ^ 32) (enough : blocks.length < fuel)
    (full : allocate headerSize splitSlack size.toNat blocks = none) :
    kmallocLoop size fuel (link address blocks) memory = some (0, memory) := by
  induction blocks generalizing address fuel with
  | nil =>
      obtain ⟨fuel, rfl⟩ : ∃ rest, fuel = rest + 1 := ⟨fuel - 1, by omega⟩
      simp [kmallocLoop, link]
  | cons block rest ih =>
      obtain ⟨fuel, rfl⟩ : ∃ rest, fuel = rest + 1 := ⟨fuel - 1, by omega⟩
      rw [extent_cons] at bounded
      rw [List.length_cons] at enough
      simp only [headerSize] at bounded
      have skipped : ¬ (block.free = true ∧ size.toNat ≤ block.size) := by
        intro fits
        simp [allocate, fits] at full
      rw [allocate, if_neg skipped, Option.map_eq_none_iff] at full
      rw [link_cons, kmallocLoop, if_neg (ofNat_ne_zero positive (by omega)), chain.1,
        if_neg ((fits_iff (by omega)).not.mpr skipped)]
      exact ih chain.2 (by omega) (by simp only [headerSize]; omega) (by omega) full

theorem Chain.tail_of_eqOn {memory later : Memory} {address : Nat} {block : Block}
    {rest : List Block} (chain : Chain memory address (block :: rest))
    (bounded : address + extent headerSize (block :: rest) ≤ 2 ^ 32)
    (framed : Set.EqOn later memory (region address (address + (headerSize + block.size)))ᶜ) :
    Chain later (address + headerSize + block.size) rest := by
  rw [extent_cons] at bounded
  refine chain.2.congr (by omega) (framed.mono ?_)
  rintro query ⟨lower, _⟩ ⟨_, upper⟩
  omega

/-- Splitting the first block of a chain: the front is in use, the rest becomes a free block of
its own. -/
theorem Chain.split_head {size : Word} {memory : Memory} {address : Nat} {block : Block}
    {rest : List Block} (chain : Chain memory address (block :: rest))
    (bounded : address + extent headerSize (block :: rest) ≤ 2 ^ 32)
    (room : size.toNat + headerSize ≤ block.size) :
    Chain (setIsFree (splitBlock memory (BitVec.ofNat 32 address) size)
        (BitVec.ofNat 32 address) 0) address
      (⟨size.toNat, false⟩ :: ⟨block.size - size.toNat - headerSize, true⟩ :: rest) ∧
    Set.EqOn (setIsFree (splitBlock memory (BitVec.ofNat 32 address) size)
        (BitVec.ofNat 32 address) 0) memory
      (region address (address + (headerSize + block.size)))ᶜ := by
  have total := bounded
  rw [extent_cons] at total
  simp only [headerSize] at total room
  have nextIs : BitVec.ofNat 32 address + 12 + size =
      BitVec.ofNat 32 (address + headerSize + size.toNat) := by
    simp only [headerSize]
    bv_omega
  have apart : Apart (BitVec.ofNat 32 address) (BitVec.ofNat 32 address + 12 + size) := by
    rw [nextIs]
    exact apart_of_add_le (by omega) (by simp only [headerSize]; omega)
  have framed : Set.EqOn (setIsFree (splitBlock memory (BitVec.ofNat 32 address) size)
      (BitVec.ofNat 32 address) 0) memory
      (region address (address + (headerSize + block.size)))ᶜ := by
    intro query outside
    have notCurr : query ∈ (span (BitVec.ofNat 32 address) headerSize)ᶜ := fun member =>
      outside (span_subset_region (Nat.le_refl _) (by omega)
        (by simp only [headerSize]; omega) member)
    have notNext : query ∈ (span (BitVec.ofNat 32 address + 12 + size) headerSize)ᶜ :=
      fun member => outside (span_subset_region (by omega) (by simp only [headerSize]; omega)
        (by simp only [headerSize]; omega) (nextIs ▸ member))
    rw [setIsFree_eqOn _ notCurr, splitBlock_eqOn _ _ _ ⟨notCurr, notNext⟩]
  have joined : address + headerSize + size.toNat + headerSize +
      (block.size - size.toNat - headerSize) = address + headerSize + block.size := by
    simp only [headerSize]
    omega
  refine ⟨⟨?_, ?_, ?_⟩, framed⟩
  · rw [headerAt_setIsFree_self, splitBlock_curr apart, nextIs, link_cons]
    simp only [BitVec.ofNat_toNat, BitVec.setWidth_eq]
    rfl
  · rw [← nextIs, headerAt_setIsFree_of_apart apart.symm, splitBlock_next apart, chain.1, joined]
    simp only [flag, ↓reduceIte, Header.mk.injEq, and_true]
    simp only [headerSize]
    bv_omega
  · rw [joined]
    exact chain.tail_of_eqOn bounded framed

/-- Taking the first block of a chain as a whole. -/
theorem Chain.take_whole {memory : Memory} {address : Nat} {block : Block}
    {rest : List Block} (chain : Chain memory address (block :: rest))
    (bounded : address + extent headerSize (block :: rest) ≤ 2 ^ 32) :
    Chain (setIsFree memory (BitVec.ofNat 32 address) 0) address (⟨block.size, false⟩ :: rest) ∧
    Set.EqOn (setIsFree memory (BitVec.ofNat 32 address) 0) memory
      (region address (address + (headerSize + block.size)))ᶜ := by
  have framed : Set.EqOn (setIsFree memory (BitVec.ofNat 32 address) 0) memory
      (region address (address + (headerSize + block.size)))ᶜ := by
    rw [extent_cons] at bounded
    intro query outside
    exact setIsFree_eqOn _ fun member => outside (span_subset_region (Nat.le_refl _) (by omega)
      (by omega) member)
  refine ⟨⟨?_, chain.tail_of_eqOn bounded framed⟩, framed⟩
  rw [headerAt_setIsFree_self, chain.1]
  rfl

/-- Taking the first block of a chain carves it as the block list says. -/
theorem Chain.take_head {size : Word} {memory : Memory} {address : Nat} {block : Block}
    {rest : List Block} (chain : Chain memory address (block :: rest)) (high : 16 ≤ address)
    (bounded : address + extent headerSize (block :: rest) ≤ 2 ^ 32)
    (fits : size.toNat ≤ block.size) :
    Chain (setIsFree (if size + 12 + 4 < BitVec.ofNat 32 block.size then
          splitBlock memory (BitVec.ofNat 32 address) size else memory)
        (BitVec.ofNat 32 address) 0) address
      (carve headerSize splitSlack size.toNat block ++ rest) ∧
    Set.EqOn (setIsFree (if size + 12 + 4 < BitVec.ofNat 32 block.size then
          splitBlock memory (BitVec.ofNat 32 address) size else memory)
        (BitVec.ofNat 32 address) 0) memory
      (region address (address + (headerSize + block.size)))ᶜ := by
  have total := bounded
  rw [extent_cons] at total
  simp only [headerSize] at total
  have wide : size + 12 + 4 < BitVec.ofNat 32 block.size ↔
      size.toNat + headerSize + splitSlack < block.size := by
    simp only [headerSize, splitSlack]
    bv_omega
  by_cases room : size.toNat + headerSize + splitSlack < block.size
  · rw [if_pos (wide.mpr room), carve, if_pos room]
    exact chain.split_head bounded (by omega)
  · rw [if_neg (wide.not.mpr room), carve, if_neg room]
    exact chain.take_whole bounded

/-- What a successful `kmalloc` walk does: it performs the allocation on the block list, touches
nothing outside the blocks it walks over, and returns the payload of the chosen block. -/
theorem kmallocLoop_some {size : Word} {memory : Memory} {address fuel offset : Nat}
    {blocks after : List Block} (chain : Chain memory address blocks) (high : 16 ≤ address)
    (bounded : address + extent headerSize blocks ≤ 2 ^ 32) (enough : blocks.length < fuel)
    (allocated : allocate headerSize splitSlack size.toNat blocks = some (offset, after)) :
    ∃ later, kmallocLoop size fuel (link address blocks) memory =
        some (BitVec.ofNat 32 (address + offset + headerSize), later) ∧
      Chain later address after ∧
      Set.EqOn later memory (region address (address + extent headerSize blocks))ᶜ := by
  induction blocks generalizing address fuel offset after with
  | nil => simp [allocate] at allocated
  | cons block rest ih =>
      obtain ⟨fuel, rfl⟩ : ∃ rest, fuel = rest + 1 := ⟨fuel - 1, by omega⟩
      rw [extent_cons] at bounded ⊢
      rw [List.length_cons] at enough
      simp only [headerSize] at bounded
      obtain ⟨header, tail⟩ := chain
      by_cases fits : block.free = true ∧ size.toNat ≤ block.size
      · rw [allocate, if_pos fits, Option.some.injEq, Prod.mk.injEq] at allocated
        obtain ⟨rfl, rfl⟩ := allocated
        rw [link_cons, kmallocLoop, if_neg (ofNat_ne_zero (by omega) (by omega)), header,
          if_pos ((fits_iff (by omega)).mpr fits)]
        have taken := Chain.take_head ⟨header, tail⟩ high
          (by simp only [extent_cons, headerSize]; omega) fits.2
        refine ⟨_, ?_, taken.1, taken.2.mono (Set.compl_subset_compl.mpr ?_)⟩
        · simp only [headerSize, Nat.add_zero, Option.some.injEq, Prod.mk.injEq, and_true]
          bv_omega
        · rintro query ⟨lower, upper⟩
          exact ⟨lower, by omega⟩
      · rw [allocate, if_neg fits] at allocated
        obtain ⟨⟨inner, remaining⟩, found, equal⟩ := Option.map_eq_some_iff.mp allocated
        cases equal
        obtain ⟨later, walked, spelled, framed⟩ := ih tail (by omega)
          (by simp only [headerSize]; omega) (Nat.lt_of_succ_lt_succ enough) found
        refine ⟨later, ?_, ⟨?_, spelled⟩, framed.mono ?_⟩
        · rw [link_cons, kmallocLoop, if_neg (ofNat_ne_zero (by omega) (by omega)), header,
            if_neg ((fits_iff (by omega)).not.mpr fits), walked]
          simp only [headerSize, Option.some.injEq, Prod.mk.injEq, and_true]
          congr 1
          omega
        · have before : rest ≠ [] := by
            rintro rfl
            simp [allocate] at found
          have same : headerAt later (BitVec.ofNat 32 address) =
              headerAt memory (BitVec.ofNat 32 address) := by
            apply headerAt_congr (framed.mono _)
            intro query member inside
            have lower := (span_subset_region (Nat.le_refl _) (Nat.le_refl _)
              (by simp only [headerSize]; omega) member).2
            have upper := inside.1
            omega
          rw [same, header]
          simp only [link, before, allocate_ne_nil found, ↓reduceIte]
        · rintro query outside ⟨lower, upper⟩
          exact outside ⟨by omega, by omega⟩

/-! ### Release -/

theorem freeBlock_eqOn (memory : Memory) (header : Word) :
    Set.EqOn (freeBlock memory header) memory (span header headerSize)ᶜ := by
  intro query outside
  unfold freeBlock
  simp only
  split
  · rw [setNext_eqOn _ outside, setSize_eqOn _ outside, setIsFree_eqOn _ outside]
  · rw [setIsFree_eqOn _ outside]

/-- Freeing the first block of a chain. -/
theorem Chain.free_head {memory : Memory} {address : Nat} {block : Block} {rest : List Block}
    (chain : Chain memory address (block :: rest)) (positive : 0 < address)
    (bounded : address + extent headerSize (block :: rest) ≤ 2 ^ 32) :
    Chain (freeBlock memory (BitVec.ofNat 32 address)) address
      (releaseHead headerSize (block :: rest)) := by
  have total := bounded
  rw [extent_cons] at total
  have framed : Set.EqOn (freeBlock memory (BitVec.ofNat 32 address)) memory
      (region address (address + (headerSize + block.size)))ᶜ := by
    refine (freeBlock_eqOn memory _).mono (Set.compl_subset_compl.mpr ?_)
    exact span_subset_region (Nat.le_refl _) (by omega) (by omega)
  have kept := chain.tail_of_eqOn bounded framed
  obtain ⟨header, tail⟩ := chain
  have self := @headerAt_setIsFree_self memory (BitVec.ofNat 32 address) 1
  cases rest with
  | nil =>
      refine ⟨?_, trivial⟩
      rw [freeBlock]
      simp only [self, header, link, ↓reduceIte, ne_eq, not_true_eq_false, false_and]
      rfl
  | cons next rest =>
      obtain ⟨nextHeader, nextTail⟩ := tail
      rw [extent_cons] at total
      simp only [headerSize] at total
      have apart : Apart (BitVec.ofNat 32 (address + headerSize + block.size))
          (BitVec.ofNat 32 address) :=
        (apart_of_add_le (by omega) (by simp only [headerSize]; omega)).symm
      have present : BitVec.ofNat 32 (address + headerSize + block.size) ≠ 0 :=
        ofNat_ne_zero (by omega) (by simp only [headerSize]; omega)
      by_cases free : next.free = true
      · rw [releaseHead, if_pos free]
        have joined : address + headerSize + (block.size + (next.size + headerSize)) =
            address + headerSize + block.size + headerSize + next.size := by omega
        refine ⟨?_, ?_⟩
        · rw [freeBlock]
          simp only [self, header, link_cons, headerAt_setIsFree_of_apart apart, nextHeader,
            present, ne_eq, not_false_eq_true, flag_ne_zero, free, and_self, ↓reduceIte,
            headerAt_setNext_self, headerAt_setSize_self, headerAt_setSize_of_apart apart]
          rw [joined]
          simp only [Header.mk.injEq]
          refine ⟨?_, True.intro, rfl⟩
          simp only [headerSize]
          bv_omega
        · rw [joined]
          exact kept.2
      · rw [releaseHead, if_neg free]
        refine ⟨?_, kept⟩
        rw [freeBlock]
        simp only [self, header, link_cons, headerAt_setIsFree_of_apart apart, nextHeader,
          ne_eq, free, flag, Bool.false_eq_true, ↓reduceIte, not_true_eq_false, and_false]

/-- Freeing the block at an offset performs the release on the block list and touches only the
header of that block. -/
theorem Chain.free {memory : Memory} {address offset : Nat} {blocks : List Block} {block : Block}
    (chain : Chain memory address blocks) (positive : 0 < address)
    (bounded : address + extent headerSize blocks ≤ 2 ^ 32)
    (found : blockAt headerSize offset blocks = some block) :
    Chain (freeBlock memory (BitVec.ofNat 32 (address + offset))) address
      (release headerSize offset blocks) := by
  obtain ⟨before, rest, rfl, rfl⟩ := blockAt_split found
  rw [extent_append] at bounded
  have total := bounded
  rw [extent_cons] at total
  have freed := chain.drop.free_head (by omega) (by omega)
  rw [release_append (by decide)]
  refine chain.replace (by omega) (List.cons_ne_nil _ _) ?_ freed fun query inside => ?_
  · exact fun empty => releaseHead_ne_nil _ _ empty
  · refine freeBlock_eqOn memory _ fun member => ?_
    have lower := (span_subset_region (Nat.le_refl _) (Nat.le_refl _) (by omega) member).1
    have upper := inside.2
    omega

/-! ### Walks that only read -/

theorem Chain.header_of_blockAt {memory : Memory} {address offset : Nat} {blocks : List Block}
    {block : Block} (chain : Chain memory address blocks)
    (found : blockAt headerSize offset blocks = some block) :
    (headerAt memory (BitVec.ofNat 32 (address + offset))).size = BitVec.ofNat 32 block.size ∧
      (headerAt memory (BitVec.ofNat 32 (address + offset))).isFree = flag block.free := by
  obtain ⟨before, rest, rfl, rfl⟩ := blockAt_split found
  rw [chain.drop.1]
  exact ⟨rfl, rfl⟩

/-- The `next` field that leads to the block at an offset, `0` where there is none. -/
def linkAt (address offset : Nat) (blocks : List Block) : Word :=
  if (blockAt headerSize offset blocks).isSome then BitVec.ofNat 32 (address + offset) else 0

theorem linkAt_eq {address offset : Nat} {blocks : List Block} {block : Block}
    (found : blockAt headerSize offset blocks = some block) :
    linkAt address offset blocks = BitVec.ofNat 32 (address + offset) := by
  rw [linkAt, found]
  rfl

theorem blockAt_of_linkAt_ne_zero {address offset : Nat} {blocks : List Block}
    (present : linkAt address offset blocks ≠ 0) :
    ∃ block, blockAt headerSize offset blocks = some block :=
  Option.isSome_iff_exists.mp (by_contra fun missing => present (if_neg missing))

/-- Freeing a block does not change where a link to another place leads. -/
theorem linkAt_release {address offset place : Nat} {blocks : List Block} {block : Block}
    (found : blockAt headerSize offset blocks = some block)
    (differ : place ≠ offset + headerSize + block.size) :
    linkAt address place (release headerSize offset blocks) = linkAt address place blocks := by
  by_cases here : place = offset
  · subst here
    obtain ⟨length, freed⟩ := blockAt_release_self (by decide) found
    rw [linkAt_eq freed, linkAt_eq found]
  · rw [linkAt, linkAt, blockAt_release_of_ne (by decide) found here differ]

/-- The block that is freed leads on as the block that was joined to it. -/
theorem linkAt_release_joined (address : Nat) {offset : Nat} {blocks : List Block} {block : Block}
    (found : blockAt headerSize offset blocks = some block) (length : Nat) :
    linkAt address (offset + headerSize + (block.size + (length + headerSize)))
        (release headerSize offset blocks) =
      linkAt address (offset + headerSize + block.size + headerSize + length) blocks := by
  have place : offset + headerSize + (block.size + (length + headerSize)) =
      offset + headerSize + block.size + headerSize + length := by omega
  rw [place, linkAt_release found]
  simp only [headerSize]
  omega

theorem Chain.next_of_blockAt {memory : Memory} {address offset : Nat} {blocks : List Block}
    {block : Block} (chain : Chain memory address blocks)
    (found : blockAt headerSize offset blocks = some block) :
    (headerAt memory (BitVec.ofNat 32 (address + offset))).next =
      linkAt address (offset + headerSize + block.size) blocks := by
  obtain ⟨before, rest, rfl, rfl⟩ := blockAt_split found
  have beyond : blockAt headerSize (headerSize + block.size) (block :: rest) =
      blockAt headerSize (headerSize + block.size - (headerSize + block.size)) rest :=
    blockAt_cons_of_le (by decide) (Nat.le_refl _)
  rw [chain.drop.1, linkAt, Nat.add_assoc (extent headerSize before),
    blockAt_append (by decide), beyond, Nat.sub_self]
  cases rest with
  | nil => rfl
  | cons next rest =>
      simp only [link, blockAt, Option.isSome_some, ↓reduceIte, List.cons_ne_nil, Nat.add_assoc]

/-- The headers of the given blocks placed from `address` on. -/
def visit : Nat → List Block → List (Word × Header)
  | _, [] => []
  | address, block :: rest =>
      (BitVec.ofNat 32 address,
          ⟨BitVec.ofNat 32 block.size, link (address + headerSize + block.size) rest,
            flag block.free⟩) ::
        visit (address + headerSize + block.size) rest

/-- A block is visited at its place. -/
theorem mem_visit_of_blockAt (address : Nat) {offset : Nat} {blocks : List Block} {block : Block}
    (found : blockAt headerSize offset blocks = some block) :
    ∃ entry ∈ visit address blocks, entry.1 = BitVec.ofNat 32 (address + offset) ∧
      entry.2.size = BitVec.ofNat 32 block.size ∧ entry.2.isFree = flag block.free := by
  induction blocks generalizing address offset with
  | nil => simp [blockAt] at found
  | cons first rest ih =>
      cases offset with
      | zero =>
          simp only [blockAt, Option.some.injEq] at found
          subst found
          exact ⟨_, List.mem_cons_self .., rfl, rfl, rfl⟩
      | succ offset =>
          simp only [blockAt] at found
          split at found
          · obtain ⟨entry, member, place, size, free⟩ :=
              ih (address + headerSize + first.size) found
            refine ⟨entry, List.mem_cons_of_mem _ member, place.trans ?_, size, free⟩
            congr 1
            omega
          · simp at found

theorem blockAt_of_mem_visit {address : Nat} {blocks : List Block} {entry : Word × Header}
    (member : entry ∈ visit address blocks) :
    ∃ offset block, blockAt headerSize offset blocks = some block ∧
      entry.1 = BitVec.ofNat 32 (address + offset) ∧
      entry.2.size = BitVec.ofNat 32 block.size ∧ entry.2.isFree = flag block.free := by
  induction blocks generalizing address with
  | nil => cases member
  | cons first rest ih =>
      rcases List.mem_cons.mp member with rfl | later
      · exact ⟨0, first, rfl, rfl, rfl, rfl⟩
      · obtain ⟨offset, block, found, place, size, free⟩ := ih later
        refine ⟨headerSize + first.size + offset, block, ?_, place.trans ?_, size, free⟩
        · rw [blockAt_cons_of_le (by decide) (by omega), Nat.add_sub_cancel_left, found]
        · congr 1
          omega

theorem walkLoop_chain {memory : Memory} {address fuel : Nat} {blocks : List Block}
    (chain : Chain memory address blocks) (positive : 0 < address)
    (bounded : address + extent headerSize blocks ≤ 2 ^ 32) (enough : blocks.length < fuel) :
    walkLoop fuel (link address blocks) memory = some (visit address blocks) := by
  induction blocks generalizing address fuel with
  | nil =>
      obtain ⟨fuel, rfl⟩ : ∃ rest, fuel = rest + 1 := ⟨fuel - 1, by omega⟩
      simp [walkLoop, link, visit]
  | cons block rest ih =>
      obtain ⟨fuel, rfl⟩ : ∃ rest, fuel = rest + 1 := ⟨fuel - 1, by omega⟩
      rw [extent_cons] at bounded
      rw [List.length_cons] at enough
      have later := ih chain.2 (by omega) (by omega) (Nat.lt_of_succ_lt_succ enough)
      simp only [headerSize] at bounded
      rw [link_cons, walkLoop, if_neg (ofNat_ne_zero positive (by omega)), chain.1, later]
      rfl

theorem heapStatsLoop_chain {memory : Memory} {address fuel : Nat} {used free : Word}
    {blocks : List Block} (chain : Chain memory address blocks) (positive : 0 < address)
    (bounded : address + extent headerSize blocks ≤ 2 ^ 32) (enough : blocks.length < fuel) :
    heapStatsLoop fuel (link address blocks) used free memory =
      some (used + BitVec.ofNat 32 (payload false blocks),
        free + BitVec.ofNat 32 (payload true blocks)) := by
  induction blocks generalizing address fuel used free with
  | nil =>
      obtain ⟨fuel, rfl⟩ : ∃ rest, fuel = rest + 1 := ⟨fuel - 1, by omega⟩
      simp [heapStatsLoop, link, payload]
  | cons block rest ih =>
      obtain ⟨fuel, rfl⟩ : ∃ rest, fuel = rest + 1 := ⟨fuel - 1, by omega⟩
      rw [extent_cons] at bounded
      rw [List.length_cons] at enough
      simp only [headerSize] at bounded
      have later (first second : Word) := @ih (address + headerSize + block.size) fuel first second
        chain.2 (by omega) (by simp only [headerSize]; omega) (Nat.lt_of_succ_lt_succ enough)
      rw [link_cons, heapStatsLoop, if_neg (ofNat_ne_zero positive (by omega)), chain.1]
      cases status : block.free with
      | true =>
          simp only [flag, ↓reduceIte, later, payload, status, Bool.true_eq_false, Nat.zero_add,
            BitVec.ofNat_add, BitVec.add_assoc]
          rfl
      | false =>
          simp only [flag, ↓reduceIte, later, payload, status, Bool.false_eq_true, Nat.zero_add,
            BitVec.ofNat_add, BitVec.add_assoc]
          rfl

end MxOS.Mem
