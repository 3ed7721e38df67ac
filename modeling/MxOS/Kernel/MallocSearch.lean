import MxOS.Kernel.HeapInvariant
import MxOS.Kernel.MallocSteps

/-! # The search of `kmalloc` while blocks are freed

Between two statements of a call, blocks may be freed. A block that is joined to its
predecessor while the call passes it by still leads on to the rest of the list. A block
that has been chosen is lost only when it is joined to its predecessor.
-/

namespace MxOS.Mem

open ByteMemory BlockList

/-! ### Looking for a block -/

/-- Where the call is: at a block of the list, or at one that was joined to a free block since.
The latter still leads on to the block after it, and the call does not take it. -/
inductive Cursor (memory : Memory) (blocks : List Block) (call : MallocCall) : Prop where
  | listed {offset : Nat} {block : Block}
      (found : blockAt headerSize offset blocks = some block)
      (place : call.curr = BitVec.ofNat 32 (heapBase + offset))
  | absorbed {offset : Nat} {block : Block}
      (found : blockAt headerSize offset blocks = some block) (free : block.free = true)
      (lower : heapBase + offset + headerSize ≤ call.curr.toNat)
      (upper : call.curr.toNat ≤ heapBase + offset + block.size)
      (follows : (headerAt memory call.curr).next =
        linkAt heapBase (offset + headerSize + block.size) blocks)
      (passed : call.statement = .advance ∨ ¬ Fits memory call.size call.curr)

section Search

variable {heap : Heap} {blocks : List Block} {call : MallocCall} {offset size : Nat}

/-- The call stays in the list when a block is freed, unless the block it wants is joined to its
predecessor. -/
theorem Cursor.release (represents : Represents heap blocks)
    (found : blockAt headerSize offset blocks = some ⟨size, false⟩)
    (clear : (headerAt heap.memory (BitVec.ofNat 32 (heapBase + offset))).next = call.curr →
      call.statement = .advance ∨ ¬ Fits heap.memory call.size call.curr)
    (cursor : Cursor heap.memory blocks call) :
    Cursor (freeBlock heap.memory (BitVec.ofNat 32 (heapBase + offset)))
      (release headerSize offset blocks) call := by
  have kept : Apart call.curr (BitVec.ofNat 32 (heapBase + offset)) →
      headerAt (freeBlock heap.memory (BitVec.ofNat 32 (heapBase + offset))) call.curr =
        headerAt heap.memory call.curr :=
    fun apart => headerAt_congr ((freeBlock_eqOn _ _).mono apart)
  have still : Apart call.curr (BitVec.ofNat 32 (heapBase + offset)) →
      call.statement = .advance ∨ ¬ Fits heap.memory call.size call.curr →
      call.statement = .advance ∨
        ¬ Fits (freeBlock heap.memory (BitVec.ofNat 32 (heapBase + offset))) call.size
          call.curr := by
    intro apart passed
    rwa [Fits, kept apart]
  cases cursor with
  | @listed place block foundPlace address =>
      by_cases here : place = offset
      · subst here
        obtain ⟨length, freed⟩ := blockAt_release_self (by decide) found
        exact .listed freed address
      by_cases next : place = offset + headerSize + size
      · subst next
        rcases blockAt_release_next (by decide) found foundPlace with ⟨_, joined⟩ | ⟨_, second⟩
        · -- The block the call is at is joined to the one that is freed.
          have toNat := (represents.toNat_place foundPlace).1
          have apart := represents.apart foundPlace found here
          have reached := represents.chain.next_of_blockAt foundPlace
          rw [← address] at apart toNat reached
          have passed := clear ((represents.chain.next_of_blockAt found).trans
            ((linkAt_eq foundPlace).trans address.symm))
          refine .absorbed joined rfl (by omega) ?_ ?_ (still apart passed)
          · simp only [headerSize] at toNat ⊢
            omega
          · rw [kept apart, reached]
            exact (linkAt_release_joined heapBase found block.size).symm
        · exact .listed second address
      · exact .listed ((blockAt_release_of_ne (by decide) found here next).trans foundPlace)
          address
  | @absorbed place block foundPlace free lower upper follows passed =>
      have differ : place ≠ offset := by
        rintro rfl
        rw [found, Option.some.injEq] at foundPlace
        rw [← foundPlace] at free
        cases free
      have apart := represents.apart_inside foundPlace found differ lower upper
      by_cases next : place = offset + headerSize + size
      · subst next
        rcases blockAt_release_next (by decide) found foundPlace with ⟨_, joined⟩ | ⟨used, _⟩
        · refine .absorbed joined rfl (by omega) (by simp only at *; omega) ?_
            (still apart passed)
          rw [kept apart, follows]
          exact (linkAt_release_joined heapBase found block.size).symm
        · rw [free] at used
          cases used
      · refine .absorbed ((blockAt_release_of_ne (by decide) found differ next).trans foundPlace)
          free lower upper ?_ (still apart passed)
        rw [kept apart, follows,
          linkAt_release found (blockAt_end_ne (by decide) foundPlace found differ)]

theorem Cursor.proceed {memory : Memory} (cursor : Cursor memory blocks call)
    (waiting : call.statement ≠ .advance) (statement : MallocStatement) :
    Cursor memory blocks { call with statement } := by
  cases cursor with
  | listed found place => exact .listed found place
  | absorbed found free lower upper follows passed =>
      exact .absorbed found free lower upper follows (Or.inr (passed.resolve_left waiting))

theorem Cursor.ne_zero (represents : Represents heap blocks)
    (cursor : Cursor heap.memory blocks call) : call.curr ≠ 0 := by
  apply ne_zero_of_heapBase_le
  cases cursor with
  | listed found place =>
      rw [place, (represents.toNat_place found).1]
      omega
  | absorbed _ _ lower _ _ _ => omega

/-- The next block is further on in the list. -/
theorem Cursor.next (represents : Represents heap blocks)
    (cursor : Cursor heap.memory blocks call)
    (present : (headerAt heap.memory call.curr).next ≠ 0) :
    ∃ place block, blockAt headerSize place blocks = some block ∧
      (headerAt heap.memory call.curr).next = BitVec.ofNat 32 (heapBase + place) ∧
      call.curr.toNat < heapBase + place := by
  cases cursor with
  | @listed offset block found address =>
      have toNat := (represents.toNat_place found).1
      have reached := represents.chain.next_of_blockAt found
      rw [← address] at toNat reached
      rw [reached] at present ⊢
      obtain ⟨next, foundNext⟩ := blockAt_of_linkAt_ne_zero present
      refine ⟨_, next, foundNext, linkAt_eq foundNext, ?_⟩
      simp only [headerSize]
      omega
  | @absorbed offset block _ _ _ upper follows _ =>
      rw [follows] at present ⊢
      obtain ⟨next, foundNext⟩ := blockAt_of_linkAt_ne_zero present
      refine ⟨_, next, foundNext, linkAt_eq foundNext, ?_⟩
      simp only [headerSize]
      omega

end Search

/-! ### The chosen block -/

/-- The call takes the block at an offset: at its end this block is in use, and what it splits off
is free. -/
structure Chosen (memory : Memory) (call : MallocCall) (blocks : List Block)
    (offset length : Nat) : Prop where
  ending : call.Ending
  place : call.curr = BitVec.ofNat 32 (heapBase + offset)
  found : blockAt headerSize offset blocks = some ⟨length, false⟩
  split : call.Splits memory → length = call.size.toNat ∧
    ∃ rest, blockAt headerSize (offset + headerSize + length) blocks = some ⟨rest, true⟩

section Choice

variable {heap : Heap} {blocks : List Block} {call : MallocCall} {offset length : Nat}

/-- A free block of the list that is large enough is chosen. -/
theorem Represents.choose (represents : Represents heap blocks) {block : Block}
    (found : blockAt headerSize offset blocks = some block) {size : Word}
    (fits : Fits heap.memory size (BitVec.ofNat 32 (heapBase + offset))) (unit : 4 ∣ size.toNat)
    (next : Word) :
    ∃ carved length, size.toNat ≤ length ∧
      Represents { heap with
        memory := (MallocCall.finish heap.heapStart
          (⟨size, BitVec.ofNat 32 (heapBase + offset), next, .testSplit⟩, heap.memory)).2 }
        carved ∧
      (live headerSize heapBase carved).Perm
        ((heapBase + offset + headerSize, length) :: live headerSize heapBase blocks) ∧
      Chosen heap.memory ⟨size, BitVec.ofNat 32 (heapBase + offset), next, .testSplit⟩ carved
        offset length := by
  have inside := (represents.toNat_place found).2
  simp only [headerSize, heapBase, heapLength] at inside
  obtain ⟨stored, flagged⟩ := represents.chain.header_of_blockAt found
  rw [Fits, stored, flagged, fits_iff (by omega)] at fits
  obtain ⟨free, large⟩ := fits
  obtain ⟨carved, spelled, perm, here, beyond⟩ := represents.take found free large unit
  obtain ⟨last, taken⟩ := @MallocCall.step_take heap.heapStart size
    (BitVec.ofNat 32 (heapBase + offset)) next heap.memory
  refine ⟨carved, _, ?_, ?_, perm, ⟨rfl, trivial⟩, rfl, here, fun wide => ?_⟩
  · rw [carvedSize]
    split
    · exact Nat.le_refl _
    · exact large
  · rw [MallocCall.finish, taken, stored]
    exact spelled
  · simp only [MallocCall.Splits, stored] at wide
    have room : size.toNat + headerSize + splitSlack < block.size := by
      simp only [headerSize, splitSlack]
      bv_omega
    rw [carvedSize, if_pos room]
    exact ⟨rfl, _, beyond room⟩

/-- The rest of the call does not touch the headers of the other blocks. -/
theorem Chosen.off (chosen : Chosen heap.memory call blocks offset length) {later : Memory}
    (represents : Represents { heap with memory := later } blocks) {other : Nat} {block : Block}
    (found : blockAt headerSize other blocks = some block)
    (elsewhere : call.statement.choosing = true → other ≠ offset)
    (notSplit : call.Splits heap.memory → other ≠ offset + headerSize + length) :
    Off (BitVec.ofNat 32 (heapBase + other)) (call, heap.memory) := by
  refine ⟨fun choosing => ?_, fun splits => ?_⟩
  · simp only [chosen.place]
    exact represents.apart found chosen.found (elsewhere choosing)
  · obtain ⟨same, rest, foundRest⟩ := chosen.split splits
    have target : call.curr + 12 + call.size =
        BitVec.ofNat 32 (heapBase + (offset + headerSize + length)) := by
      rw [chosen.place, same]
      simp only [headerSize]
      bv_omega
    simp only [target]
    exact represents.apart found foundRest (notSplit splits)

theorem Chosen.step (chosen : Chosen heap.memory call blocks offset length) :
    Chosen (MallocCall.step heap.heapStart (call, heap.memory)).2
      (MallocCall.step heap.heapStart (call, heap.memory)).1 blocks offset length := by
  have ending := chosen.ending
  have later := @MallocCall.Ending.step heap.heapStart (call, heap.memory) ending
  refine ⟨later, ?_, chosen.found, ?_⟩
  · rw [← chosen.place]
    obtain ⟨size, curr, next, statement⟩ := call
    have late := ending.late
    cases statement with
    | testStart | roundSize | setCurr | testCurr | testFit | advance => cases late
    | _ => rfl
  · intro splits
    obtain ⟨size, curr, next, statement⟩ := call
    have late := ending.late
    cases statement with
    | testStart | roundSize | setCurr | testCurr | testFit | advance => cases late
    | testSplit =>
        simp only [MallocCall.step] at splits ⊢
        split at splits
        · rename_i wide
          exact chosen.split wide
        · exact splits.elim
    | placeNext | setNextSize | setNextNext | setNextFree | setCurrSize =>
        exact chosen.split trivial
    | setCurrNext | clearFree | returnPayload | returned => exact splits.elim

/-- Freeing another block commutes with the rest of the call, unless the chosen block is joined to
it. -/
theorem Chosen.release (chosen : Chosen heap.memory call blocks offset length)
    (represents : Represents { heap with
      memory := (MallocCall.finish heap.heapStart (call, heap.memory)).2 } blocks)
    {other size : Nat} (found : blockAt headerSize other blocks = some ⟨size, false⟩)
    (differ : other ≠ offset)
    (clear : (headerAt heap.memory (BitVec.ofNat 32 (heapBase + other))).next = call.curr →
      call.statement.choosing = false) :
    (MallocCall.finish heap.heapStart
        (call, freeBlock heap.memory (BitVec.ofNat 32 (heapBase + other)))).2 =
      freeBlock (MallocCall.finish heap.heapStart (call, heap.memory)).2
        (BitVec.ofNat 32 (heapBase + other)) ∧
    Chosen (freeBlock heap.memory (BitVec.ofNat 32 (heapBase + other))) call
      (BlockList.release headerSize other blocks) offset length := by
  have apartEnd := blockAt_end_ne (by decide) found chosen.found differ
  have used : ∀ rest, blockAt headerSize (offset + headerSize + length) blocks =
      some ⟨rest, true⟩ → offset + headerSize + length ≠ other := by
    rintro rest foundRest rfl
    rw [found] at foundRest
    cases foundRest
  have off : Off (BitVec.ofNat 32 (heapBase + other)) (call, heap.memory) :=
    chosen.off represents found (fun _ => differ) fun splits =>
      have ⟨_, rest, foundRest⟩ := chosen.split splits
      (used rest foundRest).symm
  -- The next block after the one that is freed is the same before and after the call.
  have next : (headerAt heap.memory (BitVec.ofNat 32 (heapBase + other))).next =
      linkAt heapBase (other + headerSize + size) blocks := by
    have same := @Off.iterate heap.heapStart _ _ chosen.ending off 9
    exact (congrArg Header.next same).symm.trans (represents.chain.next_of_blockAt found)
  have following : (headerAt heap.memory (BitVec.ofNat 32 (heapBase + other))).next ≠ 0 →
      ∃ block, blockAt headerSize (other + headerSize + size) blocks = some block := by
    intro present
    rw [next] at present
    exact blockAt_of_linkAt_ne_zero present
  have offNext : (headerAt heap.memory (BitVec.ofNat 32 (heapBase + other))).next ≠ 0 →
      Off (headerAt heap.memory (BitVec.ofNat 32 (heapBase + other))).next
        (call, heap.memory) := by
    intro present
    obtain ⟨block, foundNext⟩ := following present
    rw [next, linkAt_eq foundNext]
    refine chosen.off represents foundNext (fun choosing joined => ?_) fun _ => apartEnd
    have hit := clear (next.trans ((linkAt_eq foundNext).trans (by rw [joined, chosen.place])))
    rw [choosing] at hit
    cases hit
  have own : (headerAt heap.memory (BitVec.ofNat 32 (heapBase + other))).next ≠ 0 →
      Apart (headerAt heap.memory (BitVec.ofNat 32 (heapBase + other))).next
        (BitVec.ofNat 32 (heapBase + other)) := by
    intro present
    obtain ⟨block, foundNext⟩ := following present
    rw [next, linkAt_eq foundNext]
    exact represents.apart foundNext found (by simp only [headerSize]; omega)
  refine ⟨?_, chosen.ending, chosen.place, ?_, fun splits => ?_⟩
  · exact congrArg Prod.snd
      (@MallocCall.iterate_freeBlock heap.heapStart _ _ chosen.ending off offNext own 9)
  · by_cases here : offset = other + headerSize + size
    · rcases blockAt_release_next (by decide) found (here ▸ chosen.found) with
        ⟨free, _⟩ | ⟨_, kept⟩
      · cases free
      · exact here ▸ kept
    · exact (blockAt_release_of_ne (by decide) found differ.symm here).trans chosen.found
  · have before : call.Splits heap.memory := by
      obtain ⟨wanted, curr, following, statement⟩ := call
      cases statement with
      | testSplit =>
          have same : headerAt (freeBlock heap.memory (BitVec.ofNat 32 (heapBase + other))) curr =
              headerAt heap.memory curr :=
            headerAt_congr ((freeBlock_eqOn _ _).mono (off.curr rfl).symm)
          simpa only [MallocCall.Splits, same] using splits
      | _ => exact splits
    obtain ⟨same, rest, foundRest⟩ := chosen.split before
    exact ⟨same, rest, (blockAt_release_of_ne (by decide) found (used rest foundRest)
      apartEnd.symm).trans foundRest⟩

end Choice

/-! ### The length of a call -/

/-- The number of statements left at most. -/
def MallocCall.left (call : MallocCall) : Nat :=
  let behind := heapBase + heapLength - call.curr.toNat
  match call.statement with
  | .testStart => 3 * heapLength + 17
  | .roundSize => 3 * heapLength + 16
  | .setCurr => 3 * heapLength + 15
  | .testCurr => if call.curr = 0 then 1 else 3 * behind + 14
  | .testFit => 3 * behind + 13
  | .advance => 3 * behind + 12
  | .testSplit => 9
  | .placeNext => 8
  | .setNextSize => 7
  | .setNextNext => 6
  | .setNextFree => 5
  | .setCurrSize => 4
  | .setCurrNext => 3
  | .clearFree => 2
  | .returnPayload => 1
  | .returned _ => 0

theorem MallocCall.returned_of_left {call : MallocCall} (ended : call.left = 0) :
    ∃ ptr, call.statement = .returned ptr := by
  obtain ⟨size, curr, next, statement⟩ := call
  cases statement with
  | returned ptr => exact ⟨ptr, rfl⟩
  | testCurr =>
      simp only [MallocCall.left] at ended
      split at ended
      · cases ended
      · cases ended
  | _ => cases ended

theorem MallocCall.left_step {heapStart : Word} {state : MallocCall × Memory}
    (late : state.1.statement.late = true) :
    (MallocCall.step heapStart state).1.left ≤ state.1.left - 1 := by
  obtain ⟨⟨size, curr, next, statement⟩, memory⟩ := state
  cases statement with
  | testStart | roundSize | setCurr | testCurr | testFit | advance => cases late
  | testSplit =>
      simp only [MallocCall.step]
      split
      · exact Nat.le_refl 8
      · exact (by decide : 2 ≤ 8)
  | _ => exact Nat.le_refl _

/-- The call gets closer to the end of the heap. -/
theorem MallocCall.left_advance {size curr next later : Word} {place : Nat}
    (reached : later.toNat = place) (above : curr.toNat < place)
    (inside : place ≤ heapBase + heapLength) :
    MallocCall.left ⟨size, later, next, .testCurr⟩ ≤
      MallocCall.left ⟨size, curr, next, .advance⟩ - 1 := by
  simp only [MallocCall.left]
  split
  · omega
  · omega

end MxOS.Mem
