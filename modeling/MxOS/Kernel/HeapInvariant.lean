import MxOS.Kernel.MemChain

/-! # The heap over whole runs

`main_entry` hands the megabyte from `heapBase` on to `heap_init`. `Represents`
says that the heap spells a block list filling exactly that megabyte; every
operation keeps it, and the payloads handed out are the blocks in use.
-/

namespace MxOS.Mem

open ByteMemory BlockList

/-- The start address `main_entry` passes to `heap_init`. -/
abbrev heapBase : Nat := 0x100000

/-- The length `main_entry` passes to `heap_init`. -/
abbrev heapLength : Nat := 0x100000

theorem ne_zero_of_heapBase_le {address : Word} (above : heapBase ≤ address.toNat) :
    address ≠ 0 := by
  rintro rfl
  simp only [BitVec.ofNat_eq_ofNat, BitVec.toNat_ofNat, heapBase] at above
  omega

/-- The heap spells a list of word-aligned blocks that fills its region. -/
structure Represents (heap : Heap) (blocks : List Block) : Prop where
  start : heap.heapStart = BitVec.ofNat 32 heapBase
  chain : Chain heap.memory heapBase blocks
  total : extent headerSize blocks = heapLength
  aligned : Aligned 4 blocks

namespace Represents

variable {heap : Heap} {blocks : List Block}

theorem bounded (represents : Represents heap blocks) :
    heapBase + extent headerSize blocks ≤ 2 ^ 32 := by
  rw [represents.total]
  decide

theorem length_lt (represents : Represents heap blocks) : blocks.length < walkFuel := by
  have accounted := @payload_add_payload headerSize blocks
  rw [represents.total] at accounted
  simp only [headerSize, heapLength, walkFuel] at *
  omega

theorem link_start (represents : Represents heap blocks) :
    heap.heapStart = link heapBase blocks := by
  have nonempty : blocks ≠ [] := by
    rintro rfl
    have total := represents.total
    simp [heapLength] at total
  simp only [link, nonempty, ↓reduceIte, represents.start]

/-- A memory that agrees on the whole region still spells the blocks. -/
theorem congr (represents : Represents heap blocks) {later : Memory}
    (same : Set.EqOn later heap.memory (region heapBase (heapBase + heapLength))) :
    Represents { heap with memory := later } blocks where
  start := represents.start
  chain := represents.chain.congr represents.bounded (by rw [represents.total]; exact same)
  total := represents.total
  aligned := represents.aligned

theorem first (represents : Represents heap blocks) :
    ∃ block, blockAt headerSize 0 blocks = some block := by
  cases blocks with
  | nil =>
      have total := represents.total
      cases total
  | cons block rest => exact ⟨block, rfl⟩

theorem toNat_place (represents : Represents heap blocks) {offset : Nat} {block : Block}
    (found : blockAt headerSize offset blocks = some block) :
    (BitVec.ofNat 32 (heapBase + offset)).toNat = heapBase + offset ∧
      heapBase + offset + headerSize + block.size ≤ heapBase + heapLength := by
  have inside := blockAt_extent found
  rw [represents.total] at inside
  rw [BitVec.toNat_ofNat]
  simp only [headerSize, heapBase, heapLength] at inside ⊢
  omega

/-- The headers of different blocks do not overlap. -/
theorem apart (represents : Represents heap blocks) {offset other : Nat} {block second : Block}
    (found : blockAt headerSize offset blocks = some block)
    (foundOther : blockAt headerSize other blocks = some second) (differ : offset ≠ other) :
    Apart (BitVec.ofNat 32 (heapBase + offset)) (BitVec.ofNat 32 (heapBase + other)) := by
  have here := (represents.toNat_place found).2
  have there := (represents.toNat_place foundOther).2
  rcases Nat.lt_or_gt_of_ne differ with below | above
  · have order := blockAt_apart found foundOther below
    refine apart_of_add_le (by omega) ?_
    simp only [heapBase, heapLength] at there ⊢
    omega
  · have order := blockAt_apart foundOther found above
    refine (apart_of_add_le (by omega) ?_).symm
    simp only [heapBase, heapLength] at here ⊢
    omega

/-- A header inside the payload of a block does not overlap the header of another one. -/
theorem apart_inside (represents : Represents heap blocks) {offset other : Nat}
    {block second : Block} (found : blockAt headerSize offset blocks = some block)
    (foundOther : blockAt headerSize other blocks = some second) (differ : offset ≠ other)
    {address : Word} (lower : heapBase + offset + headerSize ≤ address.toNat)
    (upper : address.toNat ≤ heapBase + offset + block.size) :
    Apart address (BitVec.ofNat 32 (heapBase + other)) := by
  have here := (represents.toNat_place found).2
  have there := (represents.toNat_place foundOther).2
  have place : address = BitVec.ofNat 32 address.toNat := by
    rw [BitVec.ofNat_toNat, BitVec.setWidth_eq]
  rw [place]
  rcases Nat.lt_or_gt_of_ne differ with below | above
  · have order := blockAt_apart found foundOther below
    refine apart_of_add_le (by omega) ?_
    simp only [heapBase, heapLength] at there ⊢
    omega
  · have order := blockAt_apart foundOther found above
    refine (apart_of_add_le (by omega) ?_).symm
    simp only [headerSize, heapBase, heapLength] at here upper ⊢
    omega

end Represents

theorem heapInit_represents (memory : Memory) :
    Represents (heapInit (BitVec.ofNat 32 heapBase) (BitVec.ofNat 32 heapLength) memory)
      [⟨heapLength - headerSize, true⟩] where
  start := rfl
  chain := by
    refine ⟨?_, trivial⟩
    simp only [heapInit, headerAt_setIsFree_self, headerAt_setNext_self, headerAt_setSize_self]
    rfl
  total := rfl
  aligned := by
    intro block member
    simp only [List.mem_cons, List.not_mem_nil, or_false] at member
    subst member
    decide

theorem alignUp_aligned (size : Word) : 4 ∣ (alignUp size).toNat := by
  have low : alignUp size &&& 3 = 0 := by
    apply BitVec.eq_of_getLsbD_eq
    intro bit bound
    simp only [alignUp, BitVec.getLsbD_and, BitVec.getLsbD_not]
    grind
  have masked := congrArg BitVec.toNat low
  rw [BitVec.toNat_and] at masked
  have remainder := Nat.and_two_pow_sub_one_eq_mod (alignUp size).toNat 2
  exact Nat.dvd_of_mod_eq_zero (remainder.symm.trans masked)

/-- `kmalloc` always returns: either no block fits and nothing changes, or it performs the
first-fit allocation and returns the payload of the chosen block. -/
theorem kmalloc_represents {heap : Heap} {blocks : List Block}
    (represents : Represents heap blocks) (size : Word) :
    (allocate headerSize splitSlack (alignUp size).toNat blocks = none ∧
      kmalloc size heap = some (0, heap)) ∨
    ∃ offset after later,
      allocate headerSize splitSlack (alignUp size).toNat blocks = some (offset, after) ∧
      kmalloc size heap =
        some (BitVec.ofNat 32 (heapBase + offset + headerSize), { heap with memory := later }) ∧
      Represents { heap with memory := later } after ∧
      Set.EqOn later heap.memory (region heapBase (heapBase + heapLength))ᶜ := by
  have started : heap.heapStart ≠ 0 := by
    rw [represents.start]
    decide
  have unfolded : kmalloc size heap =
      (kmallocLoop (alignUp size) walkFuel (link heapBase blocks) heap.memory).map fun result =>
        (result.1, { heap with memory := result.2 }) := by
    rw [kmalloc, if_neg started, represents.link_start]
  cases allocated : allocate headerSize splitSlack (alignUp size).toNat blocks with
  | none =>
      refine Or.inl ⟨rfl, ?_⟩
      rw [unfolded, kmallocLoop_none represents.chain (by decide) represents.bounded
        represents.length_lt allocated]
      rfl
  | some found =>
      obtain ⟨offset, after⟩ := found
      obtain ⟨later, walked, chain, framed⟩ := kmallocLoop_some represents.chain (by decide)
        represents.bounded represents.length_lt allocated
      rw [represents.total] at framed
      refine Or.inr ⟨offset, after, later, rfl, ?_, ⟨represents.start, chain, ?_, ?_⟩, framed⟩
      · rw [unfolded, walked]
        rfl
      · exact (allocate_extent allocated).trans represents.total
      · exact allocate_aligned (by decide) (alignUp_aligned size) allocated represents.aligned

/-- Taking any free block that is large enough, as `kmalloc` does with the block it has found. -/
theorem Represents.take {heap : Heap} {blocks : List Block} {offset : Nat} {block : Block}
    {size : Word} (represents : Represents heap blocks)
    (found : blockAt headerSize offset blocks = some block) (free : block.free = true)
    (fits : size.toNat ≤ block.size) (unit : 4 ∣ size.toNat) :
    ∃ carved,
      Represents { heap with
        memory := setIsFree (if size + 12 + 4 < BitVec.ofNat 32 block.size then
            splitBlock heap.memory (BitVec.ofNat 32 (heapBase + offset)) size else heap.memory)
          (BitVec.ofNat 32 (heapBase + offset)) 0 } carved ∧
      (live headerSize heapBase carved).Perm
        ((heapBase + offset + headerSize, carvedSize headerSize splitSlack size.toNat block) ::
          live headerSize heapBase blocks) ∧
      blockAt headerSize offset carved =
        some ⟨carvedSize headerSize splitSlack size.toNat block, false⟩ ∧
      (size.toNat + headerSize + splitSlack < block.size →
        blockAt headerSize (offset + headerSize + size.toNat) carved =
          some ⟨block.size - size.toNat - headerSize, true⟩) := by
  have bounded := represents.bounded
  have total := represents.total
  have aligned := represents.aligned
  have chain := represents.chain
  have start := represents.start
  obtain ⟨before, rest, rfl, rfl⟩ := blockAt_split found
  rw [extent_append] at bounded total
  have taken := chain.drop.take_head (by simp only [heapBase]; omega) (by omega) fits
  have here := fun tail => blockAt_append (by decide : 0 < headerSize) before tail 0
  have beyond := fun tail =>
    blockAt_append (by decide : 0 < headerSize) before tail (headerSize + size.toNat)
  simp only [Nat.add_zero] at here
  refine ⟨before ++ (carve headerSize splitSlack size.toNat block ++ rest),
    ⟨start, ?_, ?_, ?_⟩, live_carve heapBase before rest free, ?_, ?_⟩
  · refine chain.replace (by omega) (List.cons_ne_nil _ _) ?_ taken.1 (taken.2.mono ?_)
    · unfold carve
      split
      · exact List.cons_ne_nil _ _
      · exact List.cons_ne_nil _ _
    · rintro query ⟨_, upper⟩ ⟨lower, _⟩
      omega
  · rw [extent_append, extent_append, extent_carve, ← extent_cons]
    exact total
  · intro other member
    rcases List.mem_append.mp member with earlier | member
    · exact aligned other (List.mem_append_left _ earlier)
    · rcases List.mem_append.mp member with carved | later
      · refine aligned_carve (by decide) unit (aligned block ?_) other carved
        exact List.mem_append_right _ (List.mem_cons_self ..)
      · exact aligned other (List.mem_append_right _ (List.mem_cons_of_mem _ later))
  · rw [here, carve, carvedSize]
    split
    · rfl
    · rfl
  · intro wide
    have second : blockAt headerSize (headerSize + size.toNat)
        (⟨size.toNat, false⟩ :: ⟨block.size - size.toNat - headerSize, true⟩ :: rest) =
          blockAt headerSize (headerSize + size.toNat - (headerSize + size.toNat))
            (⟨block.size - size.toNat - headerSize, true⟩ :: rest) :=
      blockAt_cons_of_le (by decide) (Nat.le_refl _)
    rw [Nat.add_assoc, beyond, carve, if_pos wide]
    simp only [List.cons_append, List.nil_append]
    rw [second, Nat.sub_self]
    rfl

/-- `kfree` of a payload performs the release on the block list. -/
theorem kfree_represents {heap : Heap} {blocks : List Block} {offset : Nat} {block : Block}
    (represents : Represents heap blocks)
    (found : blockAt headerSize offset blocks = some block) :
    Represents (kfree (BitVec.ofNat 32 (heapBase + offset + headerSize)) heap)
      (release headerSize offset blocks) := by
  have inside := blockAt_extent found
  rw [represents.total] at inside
  simp only [headerSize, heapLength] at inside
  have present : BitVec.ofNat 32 (heapBase + offset + headerSize) ≠ 0 :=
    ofNat_ne_zero (by simp only [headerSize]; omega) (by simp only [heapBase, headerSize]; omega)
  have shifted : BitVec.ofNat 32 (heapBase + offset + headerSize) - 12 =
      BitVec.ofNat 32 (heapBase + offset) := by
    simp only [heapBase, headerSize]
    bv_omega
  rw [kfree, if_neg present, shifted]
  exact ⟨represents.start, represents.chain.free (by decide) represents.bounded found,
    (release_extent found).trans represents.total,
    release_aligned (by decide) offset represents.aligned⟩

theorem walk_represents {heap : Heap} {blocks : List Block}
    (represents : Represents heap blocks) : walk heap = some (visit heapBase blocks) := by
  rw [walk, represents.link_start]
  exact walkLoop_chain represents.chain (by decide) represents.bounded represents.length_lt

theorem heapStats_represents {heap : Heap} {blocks : List Block}
    (represents : Represents heap blocks) :
    heapStats heap =
      some (BitVec.ofNat 32 (payload false blocks), BitVec.ofNat 32 (payload true blocks)) := by
  rw [heapStats, represents.link_start, heapStatsLoop_chain represents.chain (by decide)
    represents.bounded represents.length_lt, BitVec.ofNat_eq_ofNat, BitVec.zero_add,
    BitVec.zero_add]

/-! ### What a walk over the heap sees -/

/-- The visited headers tile the addresses from `first` to `last`: each one starts where the
previous block ends, its `next` field names the following one, and the last block ends at
`last`. -/
def Tiles : Nat → Nat → List (Word × Header) → Prop
  | first, last, [] => first = last
  | first, last, entry :: rest =>
      entry.1.toNat = first ∧
        entry.2.next = (match rest with | [] => 0 | following :: _ => following.1) ∧
        Tiles (first + headerSize + entry.2.size.toNat) last rest

theorem visit_tiles {address : Nat} {blocks : List Block}
    (bounded : address + extent headerSize blocks < 2 ^ 32) :
    Tiles address (address + extent headerSize blocks) (visit address blocks) := by
  induction blocks generalizing address with
  | nil => rfl
  | cons block rest ih =>
      rw [extent_cons] at bounded ⊢
      have later := ih (by omega : address + headerSize + block.size +
        extent headerSize rest < 2 ^ 32)
      simp only [headerSize] at bounded
      have size : (BitVec.ofNat 32 block.size).toNat = block.size := by
        rw [BitVec.toNat_ofNat, Nat.mod_eq_of_lt (by omega)]
      refine ⟨by rw [BitVec.toNat_ofNat, Nat.mod_eq_of_lt (by omega)], ?_, ?_⟩
      · cases rest with
        | nil => rfl
        | cons next rest => rw [link_cons]; rfl
      · rw [size, ← Nat.add_assoc, ← Nat.add_assoc]
        exact later

theorem visit_headers {address : Nat} {blocks : List Block}
    (bounded : address + extent headerSize blocks < 2 ^ 32) :
    (visit address blocks).map (fun entry => entry.1.toNat) =
      headers headerSize address blocks := by
  induction blocks generalizing address with
  | nil => rfl
  | cons block rest ih =>
      rw [extent_cons] at bounded
      simp only [visit, List.map_cons, headers, ih (by omega : address + headerSize + block.size +
        extent headerSize rest < 2 ^ 32), BitVec.toNat_ofNat]
      rw [Nat.mod_eq_of_lt (by omega)]

theorem visit_length (address : Nat) (blocks : List Block) :
    (visit address blocks).length = blocks.length := by
  induction blocks generalizing address with
  | nil => rfl
  | cons block rest ih => simp only [visit, List.length_cons, ih]

/-- The payloads in use are those behind the visited headers whose flag is clear. -/
theorem visit_live {address : Nat} {blocks : List Block}
    (bounded : address + extent headerSize blocks < 2 ^ 32) :
    ((visit address blocks).filter (fun entry => entry.2.isFree = 0)).map
        (fun entry => (entry.1.toNat + headerSize, entry.2.size.toNat)) =
      live headerSize address blocks := by
  induction blocks generalizing address with
  | nil => rfl
  | cons block rest ih =>
      rw [extent_cons] at bounded
      have later := ih (by omega : address + headerSize + block.size +
        extent headerSize rest < 2 ^ 32)
      simp only [headerSize] at bounded
      cases free : block.free with
      | true => simpa [visit, live, free, flag] using later
      | false =>
          simp only [visit, live, free, flag, Bool.false_eq_true, ↓reduceIte, decide_true,
            List.filter_cons_of_pos, List.map_cons, later, BitVec.toNat_ofNat]
          rw [Nat.mod_eq_of_lt (by omega), Nat.mod_eq_of_lt (by omega)]

/-! ### Runs -/

/-- The heaps reachable from `heap_init` by `kmalloc` of any size and `kfree` of `NULL` or of a
pointer handed out and not freed since. The list records each such pointer with the size its
block had when it was handed out, latest first. -/
inductive HeapRun : Heap → List (Word × Word) → Prop where
  | init (memory : Memory) :
      HeapRun (heapInit (BitVec.ofNat 32 heapBase) (BitVec.ofNat 32 heapLength) memory) []
  | kmalloc {heap after : Heap} {held : List (Word × Word)} {ptr : Word} (size : Word) :
      HeapRun heap held → kmalloc size heap = some (ptr, after) →
      HeapRun after
        (if ptr = 0 then held else (ptr, (headerAt after.memory (ptr - 12)).size) :: held)
  | kfreeNull {heap : Heap} {held : List (Word × Word)} :
      HeapRun heap held → HeapRun (kfree 0 heap) held
  | kfree {heap : Heap} {held : List (Word × Word)} {entry : Word × Word} :
      HeapRun heap held → entry ∈ held → HeapRun (kfree entry.1 heap) (held.erase entry)

/-- Pointer and size as natural numbers. -/
def position (entry : Word × Word) : Nat × Nat := (entry.1.toNat, entry.2.toNat)

theorem offset_toNat {blocks : List Block} {offset : Nat} {block : Block}
    (total : extent headerSize blocks = heapLength)
    (found : blockAt headerSize offset blocks = some block) :
    (BitVec.ofNat 32 (heapBase + offset + headerSize)).toNat = heapBase + offset + headerSize ∧
      (BitVec.ofNat 32 block.size).toNat = block.size := by
  have inside := blockAt_extent found
  rw [total] at inside
  simp only [headerSize, heapLength] at inside
  simp only [heapBase, headerSize, BitVec.toNat_ofNat]
  omega

/-- A fresh allocation is the one new payload, recorded with the size of its block. -/
theorem kmalloc_position {heap : Heap} {before after : List Block} {size : Word} {offset : Nat}
    (represents : Represents heap after)
    (allocated : allocate headerSize splitSlack (alignUp size).toNat before =
      some (offset, after)) :
    let ptr := BitVec.ofNat 32 (heapBase + offset + headerSize)
    ptr ≠ 0 ∧
      (live headerSize heapBase after).Perm
        (position (ptr, (headerAt heap.memory (ptr - 12)).size) ::
          live headerSize heapBase before) := by
  intro ptr
  obtain ⟨length, _, perm⟩ := allocate_live heapBase allocated
  have member : (heapBase + offset + headerSize, length) ∈ live headerSize heapBase after :=
    perm.mem_iff.mpr (List.mem_cons_self ..)
  obtain ⟨found, equal, block⟩ := blockAt_of_mem_live (by decide) member
  obtain rfl : found = offset := by omega
  obtain ⟨pointer, stored⟩ := offset_toNat represents.total block
  have shifted : ptr - 12 = BitVec.ofNat 32 (heapBase + found) := by
    simp only [ptr, headerSize]
    bv_omega
  refine ⟨?_, ?_⟩
  · intro null
    rw [show BitVec.ofNat 32 (heapBase + found + headerSize) = 0 from null] at pointer
    simp [heapBase] at pointer
  · rw [shifted, (represents.chain.header_of_blockAt block).1]
    simp only [position, ptr, pointer, stored]
    exact perm

/-- Along every run the heap represents some block list whose payloads in use are exactly the
pointers handed out and not freed since. -/
theorem HeapRun.represents {heap : Heap} {held : List (Word × Word)} (run : HeapRun heap held) :
    ∃ blocks, Represents heap blocks ∧
      (held.map position).Perm (live headerSize heapBase blocks) := by
  induction run with
  | init memory => exact ⟨_, heapInit_represents memory, List.Perm.refl _⟩
  | @kmalloc heap after held ptr size _ allocated ih =>
      obtain ⟨blocks, represents, perm⟩ := ih
      rcases kmalloc_represents represents size with ⟨_, failed⟩ |
        ⟨offset, carved, later, found, returned, spelled, _⟩
      · rw [failed, Option.some.injEq, Prod.mk.injEq] at allocated
        obtain ⟨rfl, rfl⟩ := allocated
        exact ⟨blocks, represents, by simpa using perm⟩
      · rw [returned, Option.some.injEq, Prod.mk.injEq] at allocated
        obtain ⟨rfl, rfl⟩ := allocated
        obtain ⟨present, added⟩ := kmalloc_position spelled found
        refine ⟨carved, spelled, ?_⟩
        rw [if_neg present, List.map_cons]
        exact (perm.cons _).trans added.symm
  | kfreeNull _ ih => exact ih
  | @kfree heap held entry _ member ih =>
      obtain ⟨blocks, represents, perm⟩ := ih
      have inUse : position entry ∈ live headerSize heapBase blocks :=
        perm.mem_iff.mp (List.mem_map.mpr ⟨entry, member, rfl⟩)
      obtain ⟨offset, pointer, found⟩ := blockAt_of_mem_live (by decide) inUse
      have entryIs : entry.1 = BitVec.ofNat 32 (heapBase + offset + headerSize) := by
        rw [← pointer]
        simp only [BitVec.ofNat_toNat, BitVec.setWidth_eq]
      refine ⟨_, entryIs ▸ kfree_represents represents found, ?_⟩
      have removed := release_live heapBase found rfl
      have erased := (List.perm_cons_erase member).map position
      rw [List.map_cons] at erased
      rw [← pointer] at removed
      exact (erased.symm.trans (perm.trans removed)).cons_inv

/-- Two payloads that share no byte. -/
def PayloadsDisjoint (first second : Word × Word) : Prop :=
  first.1.toNat + first.2.toNat ≤ second.1.toNat ∨ second.1.toNat + second.2.toNat ≤ first.1.toNat

/-- **The heap representation invariant.** After any run, walking the `next` fields ends and the
visited headers tile the heap region exactly; the payloads held are pairwise disjoint, disjoint
from every header and word-aligned, and sit behind a header in use that still has the size
recorded when they were handed out; `heap_stats` reports the sum of their sizes and accounts for
every byte of the region; and `kmalloc` returns for every size. -/
theorem heap_representation {heap : Heap} {held : List (Word × Word)} (run : HeapRun heap held) :
    ∃ visited, walk heap = some visited ∧
      Tiles heapBase (heapBase + heapLength) visited ∧
      held.Pairwise PayloadsDisjoint ∧
      (∀ entry ∈ held, ∀ header ∈ visited,
        header.1.toNat + headerSize ≤ entry.1.toNat ∨
          entry.1.toNat + entry.2.toNat ≤ header.1.toNat) ∧
      (∀ entry ∈ held, entry.1.toNat % 4 = 0) ∧
      (∀ entry ∈ held, ∃ header ∈ visited,
        entry.1.toNat = header.1.toNat + headerSize ∧ entry.2 = header.2.size ∧
          header.2.isFree = 0) ∧
      (∃ used free, heapStats heap = some (used, free) ∧
        used.toNat = (held.map fun entry => entry.2.toNat).sum ∧
        used.toNat + free.toNat + headerSize * visited.length = heapLength) ∧
      ∀ size, (kmalloc size heap).isSome := by
  obtain ⟨blocks, represents, perm⟩ := run.represents
  have bounded : heapBase + extent headerSize blocks < 2 ^ 32 := by
    rw [represents.total]
    decide
  have tiles := visit_tiles bounded
  rw [represents.total] at tiles
  have inUse {entry : Word × Word} (member : entry ∈ held) :
      position entry ∈ live headerSize heapBase blocks :=
    perm.mem_iff.mp (List.mem_map.mpr ⟨entry, member, rfl⟩)
  have visitedHeader {header : Word × Header} (member : header ∈ visit heapBase blocks) :
      header.1.toNat ∈ headers headerSize heapBase blocks := by
    rw [← visit_headers bounded]
    exact List.mem_map.mpr ⟨header, member, rfl⟩
  refine ⟨visit heapBase blocks, walk_represents represents, tiles, ?_, ?_, ?_, ?_, ?_, ?_⟩
  · have disjoint : (held.map position).Pairwise fun first second =>
        first.1 + first.2 ≤ second.1 ∨ second.1 + second.2 ≤ first.1 := by
      refine (perm.pairwise_iff fun either => either.symm).mpr ?_
      exact live_pairwise.imp fun {_ _} apart => Or.inl (by omega)
    exact (List.pairwise_map.mp disjoint).imp fun {_ _} apart => apart
  · intro entry member header visited
    exact header_disjoint_live (visitedHeader visited) (inUse member)
  · intro entry member
    exact Nat.mod_eq_zero_of_dvd
      (live_aligned (by decide) (by decide) represents.aligned (inUse member))
  · intro entry member
    have found := inUse member
    rw [← visit_live bounded] at found
    obtain ⟨header, kept, equal⟩ := List.mem_map.mp found
    obtain ⟨visited, used⟩ := List.mem_filter.mp kept
    rw [Prod.mk.injEq] at equal
    exact ⟨header, visited, equal.1.symm, BitVec.eq_of_toNat_eq equal.2.symm,
      of_decide_eq_true used⟩
  · have accounted := @payload_add_payload headerSize blocks
    rw [represents.total] at accounted
    have used : (BitVec.ofNat 32 (payload false blocks)).toNat = payload false blocks := by
      rw [BitVec.toNat_ofNat, Nat.mod_eq_of_lt]
      simp only [heapLength] at accounted
      omega
    have free : (BitVec.ofNat 32 (payload true blocks)).toNat = payload true blocks := by
      rw [BitVec.toNat_ofNat, Nat.mod_eq_of_lt]
      simp only [heapLength] at accounted
      omega
    refine ⟨_, _, heapStats_represents represents, ?_, ?_⟩
    · rw [used, ← @sum_live headerSize heapBase blocks, ← (perm.map Prod.snd).sum_eq, List.map_map]
      rfl
    · rw [used, free, visit_length, accounted]
  · intro size
    rcases kmalloc_represents represents size with ⟨_, returned⟩ |
      ⟨_, _, _, _, returned, _, _⟩ <;> rw [returned] <;> rfl

/-- Two allocations, a release and a request whose rounding wraps to zero. -/
theorem heap_representation_mixed_run :
    ∃ heap held visited, HeapRun heap held ∧ held.length = 2 ∧ walk heap = some visited ∧
      Tiles heapBase (heapBase + heapLength) visited := by
  have start : HeapRun _ _ := .init fun _ => 0
  have first : HeapRun _ _ := .kmalloc 100 start rfl
  have second : HeapRun _ _ := .kmalloc 4097 first rfl
  have third : HeapRun _ _ := .kfree second (List.mem_cons_of_mem _ (List.mem_cons_self ..))
  have last : HeapRun _ _ := .kmalloc 0xFFFFFFFF third rfl
  obtain ⟨visited, walked, tiles, _⟩ := heap_representation last
  exact ⟨_, _, visited, last, rfl, walked, tiles⟩

end MxOS.Mem
