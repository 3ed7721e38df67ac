import MxOS.Kernel.KillPreemption
import MxOS.Kernel.MallocSearch

/-! # Allocating while tasks exit

The Shell calls `kmalloc` with interrupts enabled, so that other tasks may run between
any two of its statements and end themselves by a system call, which frees their stacks.

The exit of a task joins its stack with the following block when that is free. If this
is the block the call has chosen, or is about to choose, the call goes on with a header
that is no longer in the list and hands out a piece of a free block. Every other exit is
harmless: a block that is joined to its predecessor while the call passes it by still
leads on to the rest of the list, and once a block has been chosen, freeing another one
commutes with the rest of the call.
-/

namespace MxOS.Sched

open ByteMemory BlockList Mem Paging

/-- The kernel while the Shell is in `kmalloc`, and its call. -/
structure Allocating where
  kernel : Kernel
  call : MallocCall

def Allocating.start (size : Word) (kernel : Kernel) : Allocating := ⟨kernel, .start size⟩

def Allocating.memory (allocating : Allocating) : Memory := allocating.kernel.heap.memory

/-- One statement of the Shell. -/
def Allocating.shell (allocating : Allocating) : Allocating :=
  let heap := allocating.kernel.heap
  let state := MallocCall.step heap.heapStart (allocating.call, heap.memory)
  ⟨{ allocating.kernel with heap := { heap with memory := state.2 } }, state.1⟩

/-- What happens next: a statement of the Shell, or the exit of another task. -/
inductive MallocEvent where
  | shell
  | exit (victim : Fin 16) (shellEsp victimEsp : Word)
  deriving DecidableEq

/-- A task exits only while it is active, and it is not the Shell. -/
def MallocEvent.step : MallocEvent → Allocating → Option Allocating
  | .shell, allocating => some allocating.shell
  | .exit victim shellEsp victimEsp, allocating =>
      if (allocating.kernel.tasks victim).active = true ∧ victim ≠ 0 then
        (victimExit victim shellEsp victimEsp allocating.kernel).map (⟨·, allocating.call⟩)
      else none

/-- The exit does not free the block right before one that the call has chosen and not yet marked
as used, nor right before one that it is about to find free and large enough. -/
def MallocEvent.Clear : MallocEvent → Allocating → Prop
  | .shell, _ => True
  | .exit victim _ _, ⟨kernel, call⟩ =>
      (headerAt kernel.heap.memory ((kernel.tasks victim).stackBase - 12)).next = call.curr →
        call.statement.choosing = false ∧
        (call.statement = .testCurr ∨ call.statement = .testFit →
          call.curr ≠ 0 → ¬ Fits kernel.heap.memory call.size call.curr)

instance (event : MallocEvent) (allocating : Allocating) : Decidable (event.Clear allocating) :=
  match event, allocating with
  | .shell, _ => isTrue trivial
  | .exit _ _ _, ⟨_, _⟩ => inferInstanceAs (Decidable (_ → _ ∧ (_ → _ → _)))

/-! ### The stacks of the tasks -/

/-- The memory spells blocks, of which the stacks of the active tasks and the ones taken are in
use. -/
structure Backed (kernel : Kernel) (memory : Memory) (taken : Set Nat) (blocks : List Block) :
    Prop where
  represents : Represents { kernel.heap with memory := memory } blocks
  exactly : ∀ position, position ∈ inUse blocks ↔
    position ∈ stackBlocks kernel.tasks ∨ position ∈ taken
  fresh : ∀ position ∈ taken, position ∉ stackBlocks kernel.tasks
  distinct : ∀ first second, first ≠ 0 → second ≠ 0 →
    (kernel.tasks first).active = true → (kernel.tasks second).active = true →
    (kernel.tasks first).stackBase = (kernel.tasks second).stackBase → first = second

theorem Owned.backed {kernel : Kernel} (owned : Owned kernel) :
    ∃ blocks, Backed kernel kernel.heap.memory ∅ blocks := by
  obtain ⟨blocks, represents, exactly⟩ := owned.blocks
  refine ⟨blocks, represents, fun position => ?_, fun position none => none.elim, owned.distinct⟩
  rw [← exactly]
  simp only [Set.mem_empty_iff_false, or_false]

section Exits

variable {kernel after : Kernel} {memory : Memory} {taken : Set Nat} {blocks : List Block}

/-- The stack of an active task is the payload of a block in use. -/
theorem Backed.stack (backed : Backed kernel memory taken blocks) {pid : Fin 16} (differ : pid ≠ 0)
    (active : (kernel.tasks pid).active = true) :
    ∃ offset size, blockAt headerSize offset blocks = some ⟨size, false⟩ ∧
      heapBase + offset + headerSize ∉ taken ∧
      (kernel.tasks pid).stackBase = BitVec.ofNat 32 (heapBase + offset + headerSize) ∧
      (kernel.tasks pid).stackBase.toNat = heapBase + offset + headerSize := by
  have stack : (kernel.tasks pid).stackBase.toNat ∈ stackBlocks kernel.tasks :=
    ⟨pid, differ, active, rfl⟩
  obtain ⟨⟨position, size⟩, member, same⟩ :=
    List.mem_map.mp ((backed.exactly _).mpr (Or.inl stack))
  obtain ⟨offset, place, found⟩ := blockAt_of_mem_live (by decide) member
  have address : (kernel.tasks pid).stackBase.toNat = heapBase + offset + headerSize :=
    same.symm.trans place
  refine ⟨offset, size, found, ?_, ?_, address⟩
  · rw [← address]
    exact fun both => backed.fresh _ both stack
  · rw [← address, BitVec.ofNat_toNat, BitVec.setWidth_eq]

/-- The exit of a task frees the block of its stack. -/
theorem Backed.exit (backed : Backed kernel memory taken blocks) {victim : Fin 16}
    {shellEsp victimEsp : Word} (differ : victim ≠ 0)
    (active : (kernel.tasks victim).active = true)
    (exited : victimExit victim shellEsp victimEsp kernel = some after) :
    ∃ offset size, blockAt headerSize offset blocks = some ⟨size, false⟩ ∧
      heapBase + offset + headerSize ∉ taken ∧
      (kernel.tasks victim).stackBase - 12 = BitVec.ofNat 32 (heapBase + offset) ∧
      after.heap = { kernel.heap with
        memory := freeBlock kernel.heap.memory (BitVec.ofNat 32 (heapBase + offset)) } ∧
      Backed after (freeBlock memory (BitVec.ofNat 32 (heapBase + offset))) taken
        (release headerSize offset blocks) := by
  obtain ⟨offset, size, found, apart, base, address⟩ := backed.stack differ active
  obtain ⟨steady, _⟩ := victimExit_steady active exited
  have present : (kernel.tasks victim).stackBase ≠ 0 := ne_zero_of_heapBase_le (by omega)
  have header : (kernel.tasks victim).stackBase - 12 = BitVec.ofNat 32 (heapBase + offset) := by
    rw [base]
    simp only [headerSize]
    bv_omega
  have heap : after.heap = { kernel.heap with
      memory := freeBlock kernel.heap.memory (BitVec.ofNat 32 (heapBase + offset)) } := by
    rw [steady.heap, releaseTask, if_pos present, kfree, if_neg present, header]
  have remaining : stackBlocks after.tasks =
      stackBlocks kernel.tasks \ {heapBase + offset + headerSize} := by
    have ended : ({ kernel.tasks victim with
        active := false, sleeping := false, stackBase := 0, addrSpace := none } : Task).active =
          false := rfl
    rw [← address, ← stackBlocks_update_false backed.distinct differ active ended]
    simp only [stackBlocks, steady.active, steady.stackBase]
    rfl
  refine ⟨offset, size, found, apart, header, heap, ?_, fun position => ?_, ?_, ?_⟩
  · have freed := kfree_represents backed.represents found
    rw [← base, kfree, if_neg present, header] at freed
    rw [heap]
    exact freed
  · rw [mem_inUse_release found, backed.exactly, remaining, Set.mem_sdiff, Set.mem_singleton_iff]
    by_cases here : position = heapBase + offset + headerSize
    · subst here
      simp only [ne_eq, not_true_eq_false, and_false, apart, or_self]
    · simp only [ne_eq, here, not_false_eq_true, and_true]
  · intro position member stack
    rw [remaining] at stack
    exact backed.fresh position member stack.1
  · intro first second firstTask secondTask firstActive secondActive same
    rw [steady.active] at firstActive secondActive
    rw [steady.stackBase, steady.stackBase] at same
    exact releaseTask_distinct victim backed.distinct first second firstTask secondTask
      firstActive secondActive same

end Exits

/-! ### Progress of the call -/

/-- How far the call has come. -/
inductive Progress (size : Word) (allocating : Allocating) : Prop where
  | starting {blocks : List Block}
      (backed : Backed allocating.kernel allocating.memory ∅ blocks)
      (wanted : allocating.call.size = size)
      (statement : allocating.call.statement = .testStart ∨
        allocating.call.statement = .roundSize)
  | rounded {blocks : List Block}
      (backed : Backed allocating.kernel allocating.memory ∅ blocks)
      (wanted : allocating.call.size = alignUp size)
      (statement : allocating.call.statement = .setCurr)
  | searching {blocks : List Block}
      (backed : Backed allocating.kernel allocating.memory ∅ blocks)
      (wanted : allocating.call.size = alignUp size)
      (statement : allocating.call.statement = .testCurr ∨
        allocating.call.statement = .testFit ∨ allocating.call.statement = .advance)
      (cursor : Cursor allocating.memory blocks allocating.call)
  | exhausted {blocks : List Block}
      (backed : Backed allocating.kernel allocating.memory ∅ blocks)
      (statement : allocating.call.statement = .testCurr) (curr : allocating.call.curr = 0)
  | failed {blocks : List Block}
      (backed : Backed allocating.kernel allocating.memory ∅ blocks)
      (statement : allocating.call.statement = .returned 0)
  | taking {blocks : List Block} {offset length : Nat}
      (backed : Backed allocating.kernel
        (MallocCall.finish allocating.kernel.heap.heapStart
          (allocating.call, allocating.memory)).2
        {heapBase + offset + headerSize} blocks)
      (enough : (alignUp size).toNat ≤ length)
      (chosen : Chosen allocating.memory allocating.call blocks offset length)
      (payload : ∀ ptr, allocating.call.statement = .returned ptr →
        ptr = allocating.call.curr + 12)

section Steps

variable {size : Word}

/-- A statement that leaves the memory alone. -/
theorem Allocating.shell_eq {kernel : Kernel} {call next : MallocCall}
    (step : MallocCall.step kernel.heap.heapStart (call, kernel.heap.memory) =
      (next, kernel.heap.memory)) : Allocating.shell ⟨kernel, call⟩ = ⟨kernel, next⟩ := by
  simp only [Allocating.shell, step]

theorem Progress.start {kernel : Kernel} (owned : Owned kernel) (size : Word) :
    Progress size (.start size kernel) := by
  obtain ⟨blocks, backed⟩ := owned.backed
  exact .starting backed rfl (Or.inl rfl)

/-- The block at which the test succeeds is taken. -/
theorem Progress.choose {kernel : Kernel} {curr next : Word} {blocks : List Block}
    (backed : Backed kernel kernel.heap.memory ∅ blocks)
    (cursor : Cursor kernel.heap.memory blocks ⟨alignUp size, curr, next, .testFit⟩)
    (fits : Fits kernel.heap.memory (alignUp size) curr) :
    Progress size ⟨kernel, ⟨alignUp size, curr, next, .testSplit⟩⟩ := by
  cases cursor with
  | @listed offset block found place =>
      obtain rfl : curr = BitVec.ofNat 32 (heapBase + offset) := place
      obtain ⟨carved, length, enough, represents, perm, chosen⟩ :=
        backed.represents.choose found fits (alignUp_aligned size) next
      obtain ⟨once, positions⟩ := mem_inUse_added perm
      refine .taking ⟨represents, fun position => ?_, ?_, backed.distinct⟩ enough chosen ?_
      · rw [positions, backed.exactly, Set.mem_singleton_iff]
        simp only [Set.mem_empty_iff_false, or_false]
        exact or_comm
      · rintro position rfl stack
        exact once ((backed.exactly _).mpr (Or.inl stack))
      · exact fun ptr returned => nomatch returned
  | absorbed _ _ _ _ _ passed =>
      rcases passed with passing | refused
      · cases passing
      · exact absurd fits refused

/-- Each statement brings the call further. -/
theorem Progress.shell {allocating : Allocating} (progress : Progress size allocating) :
    Progress size allocating.shell ∧
      allocating.shell.call.left ≤ allocating.call.left - 1 := by
  obtain ⟨kernel, ⟨wantedSize, curr, next, statement⟩⟩ := allocating
  cases progress with
  | starting backed wanted position =>
      obtain rfl : wantedSize = size := wanted
      rcases position with rfl | rfl
      · have started : kernel.heap.heapStart ≠ 0 := by
          rw [show kernel.heap.heapStart = _ from backed.represents.start]
          decide
        rw [Allocating.shell_eq (MallocCall.step_testStart started)]
        refine ⟨.starting backed rfl (Or.inr rfl), ?_⟩
        simp only [MallocCall.left]
        omega
      · rw [Allocating.shell_eq rfl]
        refine ⟨.rounded backed rfl rfl, ?_⟩
        simp only [MallocCall.left]
        omega
  | rounded backed wanted position =>
      obtain rfl : statement = .setCurr := position
      have start : kernel.heap.heapStart = BitVec.ofNat 32 heapBase := backed.represents.start
      obtain ⟨first, found⟩ := backed.represents.first
      rw [Allocating.shell_eq rfl]
      refine ⟨.searching backed wanted (Or.inl rfl) (.listed found start), ?_⟩
      simp only [MallocCall.left, start, BitVec.toNat_ofNat]
      split
      · omega
      · simp only [heapBase, heapLength]
        omega
  | @searching blocks backed wanted position cursor =>
      obtain rfl : wantedSize = alignUp size := wanted
      rcases position with rfl | rfl | rfl
      · have present : curr ≠ 0 := cursor.ne_zero backed.represents
        rw [Allocating.shell_eq (MallocCall.step_testCurr present)]
        refine ⟨.searching backed rfl (Or.inr (Or.inl rfl)) ?_, ?_⟩
        · exact cursor.proceed (fun same => by cases same) .testFit
        · simp only [MallocCall.left, if_neg present]
          omega
      · by_cases fits : Fits kernel.heap.memory (alignUp size) curr
        · rw [Allocating.shell_eq (MallocCall.step_testFit fits)]
          refine ⟨.choose backed cursor fits, ?_⟩
          simp only [MallocCall.left]
          omega
        · rw [Allocating.shell_eq (MallocCall.step_testFit_fails fits)]
          refine ⟨.searching backed rfl (Or.inr (Or.inr rfl)) ?_, ?_⟩
          · exact cursor.proceed (fun same => by cases same) .advance
          · simp only [MallocCall.left]
            omega
      · rw [Allocating.shell_eq rfl]
        by_cases ended : (headerAt kernel.heap.memory curr).next = 0
        · refine ⟨.exhausted backed rfl ended, ?_⟩
          simp only [MallocCall.left, ended, ↓reduceIte]
          omega
        · obtain ⟨place, block, found, reached, above⟩ := cursor.next backed.represents ended
          obtain ⟨toNat, inside⟩ := backed.represents.toNat_place found
          refine ⟨.searching backed rfl (Or.inl rfl) (.listed found reached), ?_⟩
          exact MallocCall.left_advance (reached ▸ toNat) above (by omega)
  | exhausted backed position ended =>
      obtain rfl : statement = .testCurr := position
      rw [Allocating.shell_eq (MallocCall.step_testCurr_null ended)]
      exact ⟨.failed backed rfl, Nat.zero_le _⟩
  | failed backed position =>
      obtain rfl : statement = .returned 0 := position
      exact ⟨.failed backed rfl, Nat.zero_le _⟩
  | taking backed enough chosen payload =>
      have late := chosen.ending.late
      have same := @MallocCall.finish_step kernel.heap.heapStart
        (⟨wantedSize, curr, next, statement⟩, kernel.heap.memory) late
      refine ⟨.taking ⟨?_, backed.exactly, backed.fresh, backed.distinct⟩ enough chosen.step
        (MallocCall.payload_step late payload), MallocCall.left_step late⟩
      have represents := backed.represents
      simp only [Allocating.memory] at represents
      rw [← same] at represents
      exact represents

theorem MallocEvent.exit_eq_some {victim : Fin 16} {shellEsp victimEsp : Word}
    {allocating after : Allocating}
    (stepped : MallocEvent.step (.exit victim shellEsp victimEsp) allocating = some after) :
    (allocating.kernel.tasks victim).active = true ∧ victim ≠ 0 ∧ ∃ exited,
      victimExit victim shellEsp victimEsp allocating.kernel = some exited ∧
        after = ⟨exited, allocating.call⟩ := by
  simp only [MallocEvent.step] at stepped
  by_cases runnable : (allocating.kernel.tasks victim).active = true ∧ victim ≠ 0
  · rw [if_pos runnable] at stepped
    obtain ⟨exited, exit, rfl⟩ := Option.map_eq_some_iff.mp stepped
    exact ⟨runnable.1, runnable.2, exited, exit, rfl⟩
  · rw [if_neg runnable] at stepped
    cases stepped

theorem Progress.exit {victim : Fin 16} {shellEsp victimEsp : Word} {allocating after : Allocating}
    (progress : Progress size allocating)
    (clear : MallocEvent.Clear (.exit victim shellEsp victimEsp) allocating)
    (stepped : MallocEvent.step (.exit victim shellEsp victimEsp) allocating = some after) :
    Progress size after := by
  obtain ⟨kernel, call⟩ := allocating
  obtain ⟨active, differ, exited, exit, rfl⟩ := MallocEvent.exit_eq_some stepped
  have untouched : ∀ {blocks}, Backed kernel kernel.heap.memory ∅ blocks →
      ∃ later, Backed exited exited.heap.memory ∅ later := by
    intro blocks backed
    obtain ⟨offset, length, _, _, _, heap, freed⟩ := backed.exit differ active exit
    exact ⟨_, by rw [heap]; exact freed⟩
  cases progress with
  | starting backed wanted position =>
      obtain ⟨later, freed⟩ := untouched backed
      exact .starting freed wanted position
  | rounded backed wanted position =>
      obtain ⟨later, freed⟩ := untouched backed
      exact .rounded freed wanted position
  | exhausted backed position ended =>
      obtain ⟨later, freed⟩ := untouched backed
      exact .exhausted freed position ended
  | failed backed position =>
      obtain ⟨later, freed⟩ := untouched backed
      exact .failed freed position
  | searching backed wanted position cursor =>
      obtain ⟨offset, length, found, _, header, heap, freed⟩ := backed.exit differ active exit
      have memory : exited.heap.memory = freeBlock kernel.heap.memory
          (BitVec.ofNat 32 (heapBase + offset)) := by rw [heap]
      refine .searching (memory ▸ freed) wanted position ?_
      have moved := cursor.release backed.represents found fun joined => ?_
      · simp only [Allocating.memory]
        rw [memory]
        exact moved
      · rw [← header] at joined
        have refused := (clear joined).2
        rcases position with testing | fitting | advancing
        · exact Or.inr (refused (Or.inl testing) (cursor.ne_zero backed.represents))
        · exact Or.inr (refused (Or.inr fitting) (cursor.ne_zero backed.represents))
        · exact Or.inl advancing
  | @taking blocks place taken backed enough chosen payload =>
      obtain ⟨offset, length, found, apart, header, heap, freed⟩ := backed.exit differ active exit
      have elsewhere : offset ≠ place := by
        rintro rfl
        exact apart rfl
      obtain ⟨commutes, later⟩ := chosen.release backed.represents found elsewhere
        fun joined => (clear (header ▸ joined)).1
      have memory : exited.heap.memory = freeBlock kernel.heap.memory
          (BitVec.ofNat 32 (heapBase + offset)) := by rw [heap]
      have start : exited.heap.heapStart = kernel.heap.heapStart := by rw [heap]
      refine .taking ?_ enough (memory ▸ later) payload
      simp only [Allocating.memory]
      rw [start, memory, commutes]
      exact freed

theorem Progress.step {event : MallocEvent} {allocating after : Allocating}
    (progress : Progress size allocating) (clear : event.Clear allocating)
    (stepped : event.step allocating = some after) : Progress size after := by
  cases event with
  | shell =>
      obtain rfl := Option.some.inj stepped
      exact progress.shell.1
  | exit victim shellEsp victimEsp => exact progress.exit clear stepped

theorem Progress.left {event : MallocEvent} {allocating after : Allocating}
    (progress : Progress size allocating) (stepped : event.step allocating = some after) :
    after.call.left ≤ allocating.call.left - (if event == .shell then 1 else 0) := by
  cases event with
  | shell =>
      obtain rfl := Option.some.inj stepped
      exact progress.shell.2
  | exit victim shellEsp victimEsp =>
      obtain ⟨_, _, exited, _, rfl⟩ := MallocEvent.exit_eq_some stepped
      exact Nat.le_refl _

end Steps

/-! ### The end of the call -/

/-- Two blocks that share no byte, headers included. -/
def BlocksDisjoint (first second : Word × Header) : Prop :=
  first.1.toNat + headerSize + first.2.size.toNat ≤ second.1.toNat ∨
    second.1.toNat + headerSize + second.2.size.toNat ≤ first.1.toNat

/-- The headers tile the heap. The pointer is `NULL`, or the payload of a block in use that is
large enough and shares no byte with any other block, in use or free. The stacks of the active
tasks are other blocks in use. -/
def SafelyAllocated (kernel : Kernel) (size ptr : Word) : Prop :=
  ∃ visited, walk kernel.heap = some visited ∧
    Tiles heapBase (heapBase + heapLength) visited ∧
    (ptr ≠ 0 → ∃ block ∈ visited, block.1 + 12 = ptr ∧ block.2.isFree = 0 ∧
      alignUp size ≤ block.2.size ∧
      ∀ other ∈ visited, other.1 ≠ block.1 → BlocksDisjoint other block) ∧
    ∀ pid, pid ≠ 0 → (kernel.tasks pid).active = true →
      (kernel.tasks pid).stackBase ≠ ptr ∧
      ∃ stack ∈ visited, stack.1 + 12 = (kernel.tasks pid).stackBase ∧ stack.2.isFree = 0

theorem Backed.safelyAllocated {kernel : Kernel} {taken : Set Nat} {blocks : List Block}
    {size ptr : Word} (backed : Backed kernel kernel.heap.memory taken blocks)
    (block : ptr ≠ 0 → ∃ offset length, ptr.toNat ∈ taken ∧ (alignUp size).toNat ≤ length ∧
      ptr = BitVec.ofNat 32 (heapBase + offset) + 12 ∧
      blockAt headerSize offset blocks = some ⟨length, false⟩) :
    SafelyAllocated kernel size ptr := by
  have represents : Represents kernel.heap blocks := backed.represents
  have bounded : heapBase + extent headerSize blocks < 2 ^ 32 := by
    rw [represents.total]
    decide
  have tiles := visit_tiles bounded
  rw [represents.total] at tiles
  refine ⟨_, walk_represents represents, tiles, fun present => ?_, fun pid differ active => ?_⟩
  · obtain ⟨offset, length, _, enough, rfl, found⟩ := block present
    obtain ⟨entry, member, place, sized, free⟩ := mem_visit_of_blockAt heapBase found
    obtain ⟨toNat, inside⟩ := represents.toNat_place found
    have sizeIs := (offset_toNat represents.total found).2
    refine ⟨entry, member, by rw [place], free, ?_, fun other visited elsewhere => ?_⟩
    · rw [sized, BitVec.le_def, sizeIs]
      exact enough
    · obtain ⟨second, next, foundNext, placeNext, sizedNext, _⟩ := blockAt_of_mem_visit visited
      have differ : second ≠ offset := by
        rintro rfl
        exact elsewhere (placeNext.trans place.symm)
      have sizeNext := (offset_toNat represents.total foundNext).2
      have toNatNext := (represents.toNat_place foundNext).1
      rw [BlocksDisjoint, place, sized, placeNext, sizedNext, toNat, toNatNext, sizeIs, sizeNext]
      rcases Nat.lt_or_gt_of_ne differ with below | above
      · have order := blockAt_apart foundNext found below
        omega
      · have order := blockAt_apart found foundNext above
        omega
  · obtain ⟨offset, length, found, apart, base, address⟩ := backed.stack differ active
    obtain ⟨entry, member, place, _, free⟩ := mem_visit_of_blockAt heapBase found
    refine ⟨?_, entry, member, ?_, free⟩
    · rintro rfl
      obtain ⟨_, _, inTaken, _⟩ := block (ne_zero_of_heapBase_le (by omega))
      exact apart (address ▸ inTaken)
    · rw [place, base]
      simp only [headerSize]
      bv_omega

/-- When the call returns, it has allocated safely. -/
theorem Progress.safelyAllocated {size ptr : Word} {allocating : Allocating}
    (progress : Progress size allocating)
    (returned : allocating.call.statement = .returned ptr) :
    SafelyAllocated allocating.kernel size ptr := by
  obtain ⟨kernel, ⟨wanted, curr, next, statement⟩⟩ := allocating
  obtain rfl : statement = .returned ptr := returned
  cases progress with
  | starting _ _ position =>
      rcases position with same | same
      · cases same
      · cases same
  | rounded _ _ position => cases position
  | searching _ _ position _ =>
      rcases position with same | same | same
      · cases same
      · cases same
      · cases same
  | exhausted _ position _ => cases position
  | failed backed position =>
      obtain rfl : ptr = 0 := MallocStatement.returned.inj position
      exact Backed.safelyAllocated backed fun present => absurd rfl present
  | @taking blocks offset length backed enough chosen payload =>
      have address : ptr = BitVec.ofNat 32 (heapBase + offset) + 12 := by
        rw [payload ptr rfl, chosen.place]
      have inside := (backed.represents.toNat_place chosen.found).2
      have spelled : Backed kernel kernel.heap.memory {heapBase + offset + headerSize} blocks :=
        backed
      refine spelled.safelyAllocated fun _ =>
        ⟨offset, length, ?_, enough, address, chosen.found⟩
      rw [address, Set.mem_singleton_iff]
      simp only [headerSize, heapBase, heapLength] at inside ⊢
      bv_omega

/-- From every reachable kernel, a call of `kmalloc` that is interleaved with the exits of other
tasks returns after finitely many statements of the Shell, and what it returns is safely
allocated, provided that no exit frees the block right before one that the call has chosen and
not yet marked as used, or is about to choose. -/
theorem kmalloc_preemption_safe (layout : Layout) (kernel : Kernel)
    (reachable : Reachable layout kernel) (size : Word) (events : List MallocEvent)
    (final : Allocating)
    (clear : EventRun.Along MallocEvent.step MallocEvent.Clear events (.start size kernel))
    (ran : EventRun.run MallocEvent.step events (.start size kernel) = some final) :
    (3 * heapLength + 17 ≤ events.count .shell →
      ∃ ptr, final.call.statement = .returned ptr) ∧
    ∀ ptr, final.call.statement = .returned ptr → SafelyAllocated final.kernel size ptr := by
  have start := Progress.start reachable.owned size
  constructor
  · intro long
    have left : final.call.left ≤ 3 * heapLength + 17 - events.count .shell :=
      clear.measure_le (fun progress clear stepped => progress.step clear stepped)
        (fun progress stepped => progress.left stepped) start ran
    exact MallocCall.returned_of_left (by omega)
  · intro ptr returned
    have progress : Progress size final :=
      clear.invariant (fun progress clear stepped => progress.step clear stepped) start ran
    exact progress.safelyAllocated returned

/-- A task whose stack is not next to the chosen block exits while the call splits that block. -/
theorem kmalloc_preemption_safe_elsewhere : ∃ kernel final, Reachable imageLayout kernel ∧
    EventRun.run MallocEvent.step
      (List.replicate 14 .shell ++ .exit 1 0x7000 0x101000 :: List.replicate 6 .shell)
      (.start 4096 kernel) = some final ∧
    final.call.statement = .returned 0x102024 ∧ SafelyAllocated final.kernel 4096 0x102024 := by
  have start : Reachable imageLayout _ := Reachable.start (fun _ => 0) 100
  have first := Reachable.step (.createTask 0x9100 0xF010) start rfl rfl
  have second := Reachable.step (.createTask 0x9100 0xF010) first rfl rfl
  refine ⟨_, _, second, rfl, by decide +kernel, ?_⟩
  exact (kmalloc_preemption_safe imageLayout _ second 4096
    (List.replicate 14 .shell ++ .exit 1 0x7000 0x101000 :: List.replicate 6 .shell) _
    (by decide +kernel) rfl).2 _ (by decide +kernel)

/-- The task whose stack is right before the chosen block exits after the choice: the heap is one
free block, and the call returns a piece of it. -/
theorem chosen_block_absorbed : ∃ kernel final, Reachable imageLayout kernel ∧
    EventRun.run MallocEvent.step
      (List.replicate 8 .shell ++ .exit 1 0x7000 0x101000 :: List.replicate 9 .shell)
      (.start 4096 kernel) = some final ∧
    final.call.statement = .returned 0x101018 ∧
    walk final.kernel.heap = some [(0x100000, ⟨0xFFFF4, 0, 1⟩)] ∧
    ¬ SafelyAllocated final.kernel 4096 0x101018 := by
  have start : Reachable imageLayout _ := Reachable.start (fun _ => 0) 100
  have created := Reachable.step (.createTask 0x9100 0xF010) start rfl rfl
  have unsafely : ∀ kernel : Kernel, walk kernel.heap = some [(0x100000, ⟨0xFFFF4, 0, 1⟩)] →
      ¬ SafelyAllocated kernel 4096 0x101018 := by
    rintro kernel whole ⟨visited, walked, _, block, _⟩
    rw [whole] at walked
    obtain rfl := Option.some.inj walked
    obtain ⟨entry, member, place, _⟩ := block (by decide)
    rw [List.mem_singleton] at member
    subst member
    exact absurd place (by decide)
  refine ⟨_, _, created, rfl, by decide +kernel, by decide +kernel, ?_⟩
  exact unsafely _ (by decide +kernel)

end MxOS.Sched
