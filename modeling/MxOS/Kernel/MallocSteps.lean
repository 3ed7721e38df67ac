import Mathlib.Logic.Function.Iterate
import MxOS.Kernel.MemChain

/-! # `kmalloc` statement by statement

A call of `kmalloc` as a sequence of statements, with its local variables. Executed
without interruption the statements are the function that runs as a whole.

Once a block has been chosen, what remains of the call only writes to the header of that
block and to the one it splits off. Freeing a block whose header and whose successor's
header are elsewhere commutes with the rest of the call.
-/

namespace MxOS.Mem

open ByteMemory

/-- The statements of `kmalloc`. -/
inductive MallocStatement where
  | testStart
  | roundSize
  | setCurr
  | testCurr
  | testFit
  | testSplit
  | placeNext
  | setNextSize
  | setNextNext
  | setNextFree
  | setCurrSize
  | setCurrNext
  | clearFree
  | returnPayload
  | advance
  | returned (ptr : Word)
  deriving DecidableEq

/-- A call of `kmalloc`: its variables and the statement it executes next. -/
structure MallocCall where
  size : Word
  curr : Word
  next : Word
  statement : MallocStatement
  deriving DecidableEq

/-- `curr` and `next` are set before they are read. -/
def MallocCall.start (size : Word) : MallocCall := ⟨size, 0, 0, .testStart⟩

/-- The test for a block that is free and large enough. -/
def Fits (memory : Memory) (size curr : Word) : Prop :=
  (headerAt memory curr).isFree ≠ 0 ∧ size ≤ (headerAt memory curr).size

instance (memory : Memory) (size curr : Word) : Decidable (Fits memory size curr) :=
  inferInstanceAs (Decidable (_ ∧ _))

/-- One statement of the call. -/
def MallocCall.step (heapStart : Word) : MallocCall × Memory → MallocCall × Memory
  | (call, memory) =>
      let curr := headerAt memory call.curr
      match call.statement with
      | .testStart =>
          ({ call with statement := if heapStart = 0 then .returned 0 else .roundSize }, memory)
      | .roundSize => ({ call with size := alignUp call.size, statement := .setCurr }, memory)
      | .setCurr => ({ call with curr := heapStart, statement := .testCurr }, memory)
      | .testCurr =>
          ({ call with statement := if call.curr = 0 then .returned 0 else .testFit }, memory)
      | .testFit =>
          ({ call with
              statement := if Fits memory call.size call.curr then .testSplit else .advance },
            memory)
      | .testSplit =>
          ({ call with
              statement := if call.size + 12 + 4 < curr.size then .placeNext else .clearFree },
            memory)
      | .placeNext =>
          ({ call with next := call.curr + 12 + call.size, statement := .setNextSize }, memory)
      | .setNextSize =>
          ({ call with statement := .setNextNext },
            setSize memory call.next (curr.size - call.size - 12))
      | .setNextNext =>
          ({ call with statement := .setNextFree }, setNext memory call.next curr.next)
      | .setNextFree => ({ call with statement := .setCurrSize }, setIsFree memory call.next 1)
      | .setCurrSize => ({ call with statement := .setCurrNext }, setSize memory call.curr call.size)
      | .setCurrNext => ({ call with statement := .clearFree }, setNext memory call.curr call.next)
      | .clearFree => ({ call with statement := .returnPayload }, setIsFree memory call.curr 0)
      | .returnPayload => ({ call with statement := .returned (call.curr + 12) }, memory)
      | .advance => ({ call with curr := curr.next, statement := .testCurr }, memory)
      | .returned _ => (call, memory)

section Tests

variable {heapStart size curr next : Word} {memory : Memory}

theorem MallocCall.step_testStart (started : heapStart ≠ 0) :
    MallocCall.step heapStart (⟨size, curr, next, .testStart⟩, memory) =
      (⟨size, curr, next, .roundSize⟩, memory) := by
  simp only [MallocCall.step, if_neg started]

theorem MallocCall.step_testCurr (present : curr ≠ 0) :
    MallocCall.step heapStart (⟨size, curr, next, .testCurr⟩, memory) =
      (⟨size, curr, next, .testFit⟩, memory) := by
  simp only [MallocCall.step, if_neg present]

theorem MallocCall.step_testCurr_null (ended : curr = 0) :
    MallocCall.step heapStart (⟨size, curr, next, .testCurr⟩, memory) =
      (⟨size, curr, next, .returned 0⟩, memory) := by
  simp only [MallocCall.step, if_pos ended]

theorem MallocCall.step_testFit (fits : Fits memory size curr) :
    MallocCall.step heapStart (⟨size, curr, next, .testFit⟩, memory) =
      (⟨size, curr, next, .testSplit⟩, memory) := by
  simp only [MallocCall.step, if_pos fits]

theorem MallocCall.step_testFit_fails (refused : ¬ Fits memory size curr) :
    MallocCall.step heapStart (⟨size, curr, next, .testFit⟩, memory) =
      (⟨size, curr, next, .advance⟩, memory) := by
  simp only [MallocCall.step, if_neg refused]

end Tests

section Whole

variable {heapStart : Word}

/-- From the choice of a block on, the call takes it as `kmalloc` does. -/
theorem MallocCall.step_take (size curr next : Word) (memory : Memory) :
    ∃ later, (MallocCall.step heapStart)^[9] (⟨size, curr, next, .testSplit⟩, memory) =
      (⟨size, curr, later, .returned (curr + 12)⟩,
        setIsFree (if size + 12 + 4 < (headerAt memory curr).size then
          splitBlock memory curr size else memory) curr 0) := by
  rw [Function.iterate_succ_apply]
  by_cases split : size + 12 + 4 < (headerAt memory curr).size
  · have test : MallocCall.step heapStart (⟨size, curr, next, .testSplit⟩, memory) =
        (⟨size, curr, next, .placeNext⟩, memory) := by
      simp only [MallocCall.step, if_pos split]
    rw [test, if_pos split]
    exact ⟨_, rfl⟩
  · have test : MallocCall.step heapStart (⟨size, curr, next, .testSplit⟩, memory) =
        (⟨size, curr, next, .clearFree⟩, memory) := by
      simp only [MallocCall.step, if_neg split]
    rw [test, if_neg split]
    exact ⟨_, rfl⟩

theorem MallocCall.step_walk {size ptr : Word} {later : Memory} (fuel : Nat) (curr next : Word)
    (memory : Memory) (walked : kmallocLoop size fuel curr memory = some (ptr, later)) :
    ∃ count call, (MallocCall.step heapStart)^[count] (⟨size, curr, next, .testCurr⟩, memory) =
      (call, later) ∧ call.statement = .returned ptr := by
  induction fuel generalizing curr with
  | zero => cases walked
  | succ fuel ih =>
      rw [kmallocLoop] at walked
      by_cases ended : curr = 0
      · rw [if_pos ended] at walked
        cases walked
        refine ⟨1, ⟨size, curr, next, .returned 0⟩, ?_, rfl⟩
        rw [Function.iterate_one, MallocCall.step_testCurr_null ended]
      · rw [if_neg ended] at walked
        by_cases fits : (headerAt memory curr).isFree ≠ 0 ∧ size ≤ (headerAt memory curr).size
        · rw [if_pos fits] at walked
          cases walked
          obtain ⟨last, taken⟩ := @MallocCall.step_take heapStart size curr next memory
          have tests : (MallocCall.step heapStart)^[2] (⟨size, curr, next, .testCurr⟩, memory) =
              (⟨size, curr, next, .testSplit⟩, memory) := by
            rw [Function.iterate_succ_apply, Function.iterate_one, MallocCall.step_testCurr ended,
              MallocCall.step_testFit fits]
          refine ⟨9 + 2, ⟨size, curr, last, .returned (curr + 12)⟩, ?_, rfl⟩
          rw [Function.iterate_add_apply, tests, taken]
        · rw [if_neg fits] at walked
          obtain ⟨count, call, rest, returned⟩ := ih _ walked
          have skipped : (MallocCall.step heapStart)^[3] (⟨size, curr, next, .testCurr⟩, memory) =
              (⟨size, (headerAt memory curr).next, next, .testCurr⟩, memory) := by
            rw [Function.iterate_succ_apply, Function.iterate_succ_apply, Function.iterate_one,
              MallocCall.step_testCurr ended, MallocCall.step_testFit_fails fits]
            rfl
          exact ⟨count + 3, call, by rw [Function.iterate_add_apply, skipped, rest], returned⟩

/-- Without interruption the statements are the function that runs as a whole. -/
theorem MallocCall.step_kmalloc {size ptr : Word} {heap after : Heap}
    (allocated : kmalloc size heap = some (ptr, after)) :
    ∃ count call, (MallocCall.step heap.heapStart)^[count] (.start size, heap.memory) =
      (call, after.memory) ∧ call.statement = .returned ptr := by
  rw [kmalloc] at allocated
  by_cases missing : heap.heapStart = 0
  · rw [if_pos missing] at allocated
    cases allocated
    refine ⟨1, ⟨size, 0, 0, .returned 0⟩, ?_, rfl⟩
    simp only [Function.iterate_one, MallocCall.start, MallocCall.step, if_pos missing]
  · rw [if_neg missing] at allocated
    obtain ⟨⟨found, later⟩, walked, same⟩ := Option.map_eq_some_iff.mp allocated
    cases same
    obtain ⟨count, call, rest, returned⟩ :=
      @MallocCall.step_walk heap.heapStart _ _ _ _ _ 0 _ walked
    have begun : (MallocCall.step heap.heapStart)^[3] (.start size, heap.memory) =
        (⟨alignUp size, heap.heapStart, 0, .testCurr⟩, heap.memory) := by
      rw [Function.iterate_succ_apply, MallocCall.start, MallocCall.step_testStart missing]
      rfl
    exact ⟨count + 3, call, by rw [Function.iterate_add_apply, begun, rest], returned⟩

end Whole

/-! ### The rest of a call -/

/-- A block has been chosen and is not yet marked as used. -/
def MallocStatement.choosing : MallocStatement → Bool
  | .testSplit | .placeNext | .setNextSize | .setNextNext | .setNextFree | .setCurrSize
  | .setCurrNext | .clearFree => true
  | _ => false

/-- The call does not look for a block any more. -/
def MallocStatement.late : MallocStatement → Bool
  | .testStart | .roundSize | .setCurr | .testCurr | .testFit | .advance => false
  | _ => true

/-- The chosen block is going to be split, or is being split. -/
def MallocCall.Splits (call : MallocCall) (memory : Memory) : Prop :=
  match call.statement with
  | .testSplit => call.size + 12 + 4 < (headerAt memory call.curr).size
  | .placeNext | .setNextSize | .setNextNext | .setNextFree | .setCurrSize | .setCurrNext => True
  | _ => False

/-- Where the new header is. -/
def MallocCall.Placed (call : MallocCall) : Prop :=
  match call.statement with
  | .setNextSize | .setNextNext | .setNextFree | .setCurrSize | .setCurrNext =>
      call.next = call.curr + 12 + call.size
  | _ => True

structure MallocCall.Ending (call : MallocCall) : Prop where
  late : call.statement.late = true
  placed : call.Placed

/-- The rest of the call does not touch the header. -/
structure Off (header : Word) (state : MallocCall × Memory) : Prop where
  curr : state.1.statement.choosing = true → Apart header state.1.curr
  split : state.1.Splits state.2 → Apart header (state.1.curr + 12 + state.1.size)

section Rest

variable {heapStart header : Word} {state : MallocCall × Memory}

theorem MallocCall.Ending.step (ending : state.1.Ending) :
    (MallocCall.step heapStart state).1.Ending := by
  obtain ⟨⟨size, curr, next, statement⟩, memory⟩ := state
  obtain ⟨late, placed⟩ := ending
  cases statement with
  | testStart | roundSize | setCurr | testCurr | testFit | advance => cases late
  | testSplit =>
      simp only [MallocCall.step]
      split
      · exact ⟨rfl, trivial⟩
      · exact ⟨rfl, trivial⟩
  | placeNext => exact ⟨rfl, rfl⟩
  | setCurrNext | clearFree | returnPayload | returned => exact ⟨rfl, trivial⟩
  | setNextSize | setNextNext | setNextFree | setCurrSize => exact ⟨rfl, placed⟩

/-- A call that has chosen a block returns its payload. -/
theorem MallocCall.payload_step (late : state.1.statement.late = true)
    (payload : ∀ ptr, state.1.statement = .returned ptr → ptr = state.1.curr + 12) :
    ∀ ptr, (MallocCall.step heapStart state).1.statement = .returned ptr →
      ptr = (MallocCall.step heapStart state).1.curr + 12 := by
  obtain ⟨⟨size, curr, next, statement⟩, memory⟩ := state
  intro ptr returned
  cases statement with
  | testStart | roundSize | setCurr | testCurr | testFit | advance => cases late
  | testSplit =>
      simp only [MallocCall.step] at returned
      split at returned
      · cases returned
      · cases returned
  | returnPayload => exact (MallocStatement.returned.inj returned).symm
  | returned result => exact payload ptr returned
  | _ => cases returned

theorem Off.step (ending : state.1.Ending) (off : Off header state) :
    Off header (MallocCall.step heapStart state) ∧
      headerAt (MallocCall.step heapStart state).2 header = headerAt state.2 header := by
  obtain ⟨⟨size, curr, next, statement⟩, memory⟩ := state
  obtain ⟨late, placed⟩ := ending
  cases statement with
  | testStart | roundSize | setCurr | testCurr | testFit | advance => cases late
  | testSplit =>
      refine ⟨?_, rfl⟩
      simp only [MallocCall.step]
      split
      · rename_i wide
        exact ⟨fun _ => off.curr rfl, fun _ => off.split wide⟩
      · exact ⟨fun _ => off.curr rfl, False.elim⟩
  | placeNext => exact ⟨⟨fun _ => off.curr rfl, fun _ => off.split trivial⟩, rfl⟩
  | setNextSize =>
      obtain rfl : next = curr + 12 + size := placed
      exact ⟨⟨fun _ => off.curr rfl, fun _ => off.split trivial⟩,
        headerAt_setSize_of_apart (off.split trivial) _⟩
  | setNextNext =>
      obtain rfl : next = curr + 12 + size := placed
      exact ⟨⟨fun _ => off.curr rfl, fun _ => off.split trivial⟩,
        headerAt_setNext_of_apart (off.split trivial) _⟩
  | setNextFree =>
      obtain rfl : next = curr + 12 + size := placed
      exact ⟨⟨fun _ => off.curr rfl, fun _ => off.split trivial⟩,
        headerAt_setIsFree_of_apart (off.split trivial) _⟩
  | setCurrSize =>
      exact ⟨⟨fun _ => off.curr rfl, fun _ => off.split trivial⟩,
        headerAt_setSize_of_apart (off.curr rfl) _⟩
  | setCurrNext =>
      exact ⟨⟨fun _ => off.curr rfl, False.elim⟩, headerAt_setNext_of_apart (off.curr rfl) _⟩
  | clearFree =>
      exact ⟨⟨(fun choosing => nomatch choosing), False.elim⟩,
        headerAt_setIsFree_of_apart (off.curr rfl) _⟩
  | returnPayload | returned => exact ⟨⟨(fun choosing => nomatch choosing), False.elim⟩, rfl⟩

theorem Off.iterate (ending : state.1.Ending) (off : Off header state) (count : Nat) :
    headerAt ((MallocCall.step heapStart)^[count] state).2 header = headerAt state.2 header := by
  induction count generalizing state with
  | zero => rfl
  | succ count ih =>
      obtain ⟨later, same⟩ := off.step ending
      rw [Function.iterate_succ_apply, ih ending.step later, same]

/-- The state when the call has run to its end. -/
def MallocCall.finish (heapStart : Word) (state : MallocCall × Memory) : MallocCall × Memory :=
  (MallocCall.step heapStart)^[9] state

theorem MallocCall.finish_step (late : state.1.statement.late = true) :
    MallocCall.finish heapStart (MallocCall.step heapStart state) =
      MallocCall.finish heapStart state := by
  obtain ⟨⟨size, curr, next, statement⟩, memory⟩ := state
  cases statement with
  | testStart | roundSize | setCurr | testCurr | testFit | advance => cases late
  | testSplit =>
      rw [MallocCall.finish, MallocCall.finish, Function.iterate_succ_apply _ 8 (_, memory)]
      simp only [MallocCall.step]
      split
      · rfl
      · rfl
  | _ => rfl

end Rest

/-! ### Freeing a block in between -/

/-- A write to a header. -/
structure HeaderWrite (write : Memory → Memory) (target : Word) : Prop where
  pointwise : ∀ {first second : Memory} {query : Word}, first query = second query →
    write first query = write second query
  framed : ∀ memory, Set.EqOn (write memory) memory (span target headerSize)ᶜ

theorem write32_pointwise {first second : Memory} {address value query : Word}
    (same : first query = second query) :
    first.write32 address value query = second.write32 address value query := by
  simp only [Memory.write32, same]

theorem setSize_write (target value : Word) : HeaderWrite (setSize · target value) target :=
  ⟨write32_pointwise, fun _ => setSize_eqOn value⟩

theorem setNext_write (target value : Word) : HeaderWrite (setNext · target value) target :=
  ⟨write32_pointwise, fun _ => setNext_eqOn value⟩

theorem setIsFree_write (target : Word) (value : Byte) :
    HeaderWrite (setIsFree · target value) target := by
  refine ⟨fun {first second query} same => ?_, fun _ => setIsFree_eqOn value⟩
  simp only [setIsFree, Memory.write8, Function.update_apply, same]

/-- What `kfree` writes depends on the header of the block and on that of the next one. -/
theorem freeBlock_congr {memory later : Memory} {header : Word}
    (same : Set.EqOn later memory (span header headerSize))
    (sameNext : (headerAt memory header).next ≠ 0 →
      Apart (headerAt memory header).next header ∧
        headerAt later (headerAt memory header).next =
          headerAt memory (headerAt memory header).next) :
    Set.EqOn (freeBlock later header) (freeBlock memory header) (span header headerSize) := by
  intro query inside
  have here := same inside
  have head := headerAt_congr same
  have marked : ∀ start : Memory, headerAt (setIsFree start header 1) header =
      { headerAt start header with isFree := 1 } := fun start => headerAt_setIsFree_self 1
  simp only [freeBlock, marked, head]
  by_cases last : (headerAt memory header).next = 0
  · rw [if_neg (fun joined => joined.1 last), if_neg (fun joined => joined.1 last)]
    exact (setIsFree_write header 1).pointwise here
  · obtain ⟨apart, equal⟩ := sameNext last
    simp only [headerAt_setIsFree_of_apart apart, headerAt_setSize_of_apart apart,
      headerAt_setSize_self, marked, head, equal]
    split
    · refine (setNext_write header _).pointwise ((setSize_write header _).pointwise ?_)
      exact (setIsFree_write header 1).pointwise here
    · exact (setIsFree_write header 1).pointwise here

/-- A header that freeing the block at `header` neither reads nor writes. -/
structure Unread (memory : Memory) (header target : Word) : Prop where
  self : Apart header target
  next : (headerAt memory header).next ≠ 0 → Apart (headerAt memory header).next target

theorem HeaderWrite.freeBlock {write : Memory → Memory} {memory : Memory} {header target : Word}
    (writes : HeaderWrite write target) (unread : Unread memory header target)
    (own : (headerAt memory header).next ≠ 0 → Apart (headerAt memory header).next header) :
    write (freeBlock memory header) = Mem.freeBlock (write memory) header := by
  funext query
  by_cases inside : query ∈ span header headerSize
  · have same : Set.EqOn (write memory) memory (span header headerSize) :=
      (writes.framed memory).mono unread.self
    have freed := @freeBlock_congr memory (write memory) header same fun present =>
      ⟨own present, headerAt_congr ((writes.framed memory).mono (unread.next present))⟩
    rw [freed inside]
    exact writes.framed _ (unread.self inside)
  · rw [freeBlock_eqOn _ _ inside]
    exact writes.pointwise (freeBlock_eqOn memory header inside)

section Exchange

variable {heapStart header : Word} {state : MallocCall × Memory}

theorem Off.unread_curr (off : Off header state)
    (offNext : (headerAt state.2 header).next ≠ 0 → Off (headerAt state.2 header).next state)
    (choosing : state.1.statement.choosing = true) : Unread state.2 header state.1.curr :=
  ⟨off.curr choosing, fun present => (offNext present).curr choosing⟩

theorem Off.unread_split (off : Off header state)
    (offNext : (headerAt state.2 header).next ≠ 0 → Off (headerAt state.2 header).next state)
    (splits : state.1.Splits state.2) :
    Unread state.2 header (state.1.curr + 12 + state.1.size) :=
  ⟨off.split splits, fun present => (offNext present).split splits⟩

/-- One statement and the freeing of a block elsewhere may be exchanged. -/
theorem MallocCall.step_freeBlock (ending : state.1.Ending) (off : Off header state)
    (offNext : (headerAt state.2 header).next ≠ 0 → Off (headerAt state.2 header).next state)
    (own : (headerAt state.2 header).next ≠ 0 → Apart (headerAt state.2 header).next header) :
    MallocCall.step heapStart (state.1, freeBlock state.2 header) =
      ((MallocCall.step heapStart state).1,
        freeBlock (MallocCall.step heapStart state).2 header) := by
  have curr : state.1.statement.choosing = true →
      headerAt (freeBlock state.2 header) state.1.curr = headerAt state.2 state.1.curr :=
    fun choosing => headerAt_congr ((freeBlock_eqOn state.2 header).mono (off.curr choosing).symm)
  have unreadCurr := off.unread_curr offNext
  have unreadSplit := off.unread_split offNext
  obtain ⟨⟨size, chosen, next, statement⟩, memory⟩ := state
  obtain ⟨late, placed⟩ := ending
  cases statement with
  | testStart | roundSize | setCurr | testCurr | testFit | advance => cases late
  | testSplit => simp only [MallocCall.step, curr rfl]
  | setNextSize =>
      obtain rfl : next = chosen + 12 + size := placed
      simp only [MallocCall.step, curr rfl,
        (setSize_write _ _).freeBlock (unreadSplit trivial) own]
  | setNextNext =>
      obtain rfl : next = chosen + 12 + size := placed
      simp only [MallocCall.step, curr rfl,
        (setNext_write _ _).freeBlock (unreadSplit trivial) own]
  | setNextFree =>
      obtain rfl : next = chosen + 12 + size := placed
      simp only [MallocCall.step, (setIsFree_write _ _).freeBlock (unreadSplit trivial) own]
  | setCurrSize =>
      simp only [MallocCall.step, (setSize_write _ _).freeBlock (unreadCurr rfl) own]
  | setCurrNext =>
      simp only [MallocCall.step, (setNext_write _ _).freeBlock (unreadCurr rfl) own]
  | clearFree =>
      simp only [MallocCall.step, (setIsFree_write _ _).freeBlock (unreadCurr rfl) own]
  | placeNext | returnPayload | returned => rfl

/-- The rest of the call and the freeing of a block elsewhere may be exchanged. -/
theorem MallocCall.iterate_freeBlock (ending : state.1.Ending) (off : Off header state)
    (offNext : (headerAt state.2 header).next ≠ 0 → Off (headerAt state.2 header).next state)
    (own : (headerAt state.2 header).next ≠ 0 → Apart (headerAt state.2 header).next header)
    (count : Nat) :
    (MallocCall.step heapStart)^[count] (state.1, freeBlock state.2 header) =
      (((MallocCall.step heapStart)^[count] state).1,
        freeBlock ((MallocCall.step heapStart)^[count] state).2 header) := by
  induction count generalizing state with
  | zero => rfl
  | succ count ih =>
      obtain ⟨later, same⟩ := @Off.step heapStart header state ending off
      rw [Function.iterate_succ_apply, Function.iterate_succ_apply,
        MallocCall.step_freeBlock ending off offNext own]
      refine ih ending.step later (fun present => ?_) fun present => ?_
      · rw [same] at present ⊢
        exact ((offNext present).step ending).1
      · rw [same] at present ⊢
        exact own present

end Exchange

end MxOS.Mem
