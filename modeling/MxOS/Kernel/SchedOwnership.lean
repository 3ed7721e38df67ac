import Mathlib.Data.Finset.Card
import Mathlib.Data.Fintype.Basic
import MxOS.Kernel.HeapOwners
import MxOS.Kernel.SchedSteps

/-! # Ownership of stacks and address spaces

Four structures record the same fact in their own way: the task table, its counter, the
heap and the pool of page directories. `Owned` says that they agree. A task that is
created takes a fresh block and perhaps a free address space, a task that ends gives
both back, and nothing else moves them.
-/

namespace MxOS.Sched

open ByteMemory Mem Paging Ipc

def activePids (tasks : Fin 16 → Task) : Finset (Fin 16) :=
  Finset.univ.filter fun pid => (tasks pid).active = true

/-- The stacks of the active tasks. The Shell has the stack it was booted with. -/
def stackBlocks (tasks : Fin 16 → Task) : Set Nat :=
  {position | ∃ pid, pid ≠ 0 ∧ (tasks pid).active = true ∧ (tasks pid).stackBase.toNat = position}

structure Owned (kernel : Kernel) : Prop where
  enabled : kernel.multitaskingEnabled = true
  shell : (kernel.tasks 0).active = true
  count : kernel.taskCount = (activePids kernel.tasks).card
  idle : ∀ pid, (kernel.tasks pid).active = false →
    (kernel.tasks pid).stackBase = 0 ∧ (kernel.tasks pid).addrSpace = none
  blocks : Owns kernel.heap (stackBlocks kernel.tasks)
  distinct : ∀ first second, first ≠ 0 → second ≠ 0 →
    (kernel.tasks first).active = true → (kernel.tasks second).active = true →
    (kernel.tasks first).stackBase = (kernel.tasks second).stackBase → first = second
  used : ∀ space, kernel.pages.taskDirUsed space = true ↔
    ∃ pid, (kernel.tasks pid).addrSpace = some space
  apart : ∀ first second space, (kernel.tasks first).addrSpace = some space →
    (kernel.tasks second).addrSpace = some space → first = second

theorem Owned.steady {kernel after : Kernel} (owned : Owned kernel)
    (steady : Steady kernel after) : Owned after where
  enabled := steady.enabled.trans owned.enabled
  shell := (steady.active 0).trans owned.shell
  count := by
    simp only [activePids, steady.active, steady.taskCount]
    exact owned.count
  idle := by
    simp only [steady.active, steady.stackBase, steady.addrSpace]
    exact owned.idle
  blocks := by
    simp only [stackBlocks, steady.active, steady.stackBase, steady.heap]
    exact owned.blocks
  distinct := by
    simp only [steady.active, steady.stackBase]
    exact owned.distinct
  used := by
    simp only [steady.addrSpace, steady.pages]
    exact owned.used
  apart := by
    simp only [steady.addrSpace]
    exact owned.apart

theorem Owned.space_active {kernel : Kernel} (owned : Owned kernel) {pid : Fin 16}
    {space : Fin 6} (has : (kernel.tasks pid).addrSpace = some space) :
    (kernel.tasks pid).active = true := by
  by_contra inactive
  rw [(owned.idle pid (by simpa using inactive)).2] at has
  exact absurd has.symm (Option.some_ne_none _)

/-! ### The start -/

theorem initMultitasking_owned (layout : Layout) (memory : Memory) (frequency : Word) :
    Owned (initMultitasking layout (booted memory frequency)) := by
  have inactive : ∀ pid : Fin 16, pid ≠ 0 →
      ((initMultitasking layout (booted memory frequency)).tasks pid).active = false := by
    intro pid differ
    simp only [initMultitasking, Function.update_of_ne differ]
  have noSpace : ∀ pid,
      ((initMultitasking layout (booted memory frequency)).tasks pid).addrSpace = none := by
    intro pid
    by_cases shell : pid = 0
    · subst shell
      rfl
    · simp only [initMultitasking, Function.update_of_ne shell]
  have noStack : ∀ pid,
      ((initMultitasking layout (booted memory frequency)).tasks pid).stackBase = 0 := by
    intro pid
    by_cases shell : pid = 0
    · subst shell
      rfl
    · simp only [initMultitasking, Function.update_of_ne shell]
      rfl
  refine ⟨rfl, rfl, ?_, fun pid _ => ⟨noStack pid, noSpace pid⟩, ?_, ?_, ?_, ?_⟩
  · have only : activePids (initMultitasking layout (booted memory frequency)).tasks = {0} := by
      ext pid
      simp only [activePids, Finset.mem_filter, Finset.mem_univ, true_and, Finset.mem_singleton]
      constructor
      · intro active
        by_contra differ
        rw [inactive pid differ] at active
        exact Bool.false_ne_true active
      · rintro rfl
        rfl
    rw [only]
    rfl
  · have nothing : stackBlocks (initMultitasking layout (booted memory frequency)).tasks = ∅ := by
      apply Set.eq_empty_iff_forall_notMem.mpr
      rintro position ⟨pid, differ, active, _⟩
      rw [inactive pid differ] at active
      exact Bool.false_ne_true active
    rw [nothing]
    exact heapInit_owns memory
  · intro first second differ _ active
    rw [inactive first differ] at active
    exact absurd active Bool.false_ne_true
  · intro space
    constructor
    · intro used
      exact absurd used (by simp [initMultitasking, booted])
    · rintro ⟨pid, has⟩
      rw [noSpace pid] at has
      exact absurd has.symm (Option.some_ne_none _)
  · intro first second space has
    rw [noSpace first] at has
    exact absurd has.symm (Option.some_ne_none _)

/-! ### Termination -/

theorem activePids_update_false {tasks : Fin 16 → Task} {pid : Fin 16} {task : Task}
    (inactive : task.active = false) :
    activePids (Function.update tasks pid task) = (activePids tasks).erase pid := by
  ext other
  by_cases here : other = pid
  · subst here
    simp [activePids, inactive]
  · simp [activePids, here]

theorem activePids_update_true {tasks : Fin 16 → Task} {pid : Fin 16} {task : Task}
    (active : task.active = true) :
    activePids (Function.update tasks pid task) = insert pid (activePids tasks) := by
  ext other
  by_cases here : other = pid
  · subst here
    simp [activePids, active]
  · simp [activePids, here]

/-- Giving up a task gives up its stack. -/
theorem stackBlocks_update_false {tasks : Fin 16 → Task} {pid : Fin 16} {task : Task}
    (distinct : ∀ first second, first ≠ 0 → second ≠ 0 →
      (tasks first).active = true → (tasks second).active = true →
      (tasks first).stackBase = (tasks second).stackBase → first = second)
    (differ : pid ≠ 0) (active : (tasks pid).active = true) (inactive : task.active = false) :
    stackBlocks (Function.update tasks pid task) =
      stackBlocks tasks \ {(tasks pid).stackBase.toNat} := by
  ext position
  constructor
  · rintro ⟨other, notShell, otherActive, place⟩
    have elsewhere : other ≠ pid := by
      rintro rfl
      rw [Function.update_self, inactive] at otherActive
      exact Bool.false_ne_true otherActive
    rw [Function.update_of_ne elsewhere] at otherActive place
    refine ⟨⟨other, notShell, otherActive, place⟩, fun same => elsewhere ?_⟩
    exact distinct other pid notShell differ otherActive active
      (BitVec.eq_of_toNat_eq (place.trans same))
  · rintro ⟨⟨other, notShell, otherActive, place⟩, notThis⟩
    have elsewhere : other ≠ pid := by
      rintro rfl
      exact notThis place.symm
    refine ⟨other, notShell, ?_, ?_⟩
    · rw [Function.update_of_ne elsewhere]
      exact otherActive
    · rw [Function.update_of_ne elsewhere]
      exact place

theorem Owned.stackBase_ne_zero {kernel : Kernel} (owned : Owned kernel) {pid : Fin 16}
    (differ : pid ≠ 0) (active : (kernel.tasks pid).active = true) :
    (kernel.tasks pid).stackBase ≠ 0 := by
  intro zero
  have positive := owned.blocks.pos ⟨pid, differ, active, rfl⟩
  rw [zero] at positive
  exact absurd positive (by decide)

/-- The pool after a task has ended. -/
theorem releaseTask_used (pid : Fin 16) (kernel : Kernel) (space : Fin 6) :
    (releaseTask pid kernel).pages.taskDirUsed space = true ↔
      kernel.pages.taskDirUsed space = true ∧ (kernel.tasks pid).addrSpace ≠ some space := by
  unfold releaseTask
  cases held : (kernel.tasks pid).addrSpace with
  | none => simp [held]
  | some own =>
      by_cases here : space = own
      · subst here
        simp [held, pagingFreeTaskDirectory]
      · simp [held, pagingFreeTaskDirectory, here, Ne.symm here]

theorem ne_of_releaseTask_active {kernel : Kernel} {pid query : Fin 16}
    (alive : ((releaseTask pid kernel).tasks query).active = true) : query ≠ pid := by
  rintro rfl
  rw [releaseTask_self] at alive
  exact Bool.false_ne_true alive

theorem releaseTask_distinct {kernel : Kernel} (pid : Fin 16)
    (distinct : ∀ first second, first ≠ 0 → second ≠ 0 →
      (kernel.tasks first).active = true → (kernel.tasks second).active = true →
      (kernel.tasks first).stackBase = (kernel.tasks second).stackBase → first = second)
    (first second : Fin 16) (firstTask : first ≠ 0) (secondTask : second ≠ 0)
    (firstActive : ((releaseTask pid kernel).tasks first).active = true)
    (secondActive : ((releaseTask pid kernel).tasks second).active = true)
    (same : ((releaseTask pid kernel).tasks first).stackBase =
      ((releaseTask pid kernel).tasks second).stackBase) : first = second := by
  have firstElsewhere := ne_of_releaseTask_active firstActive
  have secondElsewhere := ne_of_releaseTask_active secondActive
  rw [releaseTask_of_ne firstElsewhere] at firstActive same
  rw [releaseTask_of_ne secondElsewhere] at secondActive same
  exact distinct first second firstTask secondTask firstActive secondActive same

theorem Owned.releaseTask {kernel : Kernel} (owned : Owned kernel) {pid : Fin 16}
    (differ : pid ≠ 0) (active : (kernel.tasks pid).active = true) :
    Owned (releaseTask pid kernel) := by
  have space : ∀ query held, ((Sched.releaseTask pid kernel).tasks query).addrSpace = some held ↔
      query ≠ pid ∧ (kernel.tasks query).addrSpace = some held := by
    intro query held
    by_cases here : query = pid
    · subst here
      simp [releaseTask_self]
    · simp [releaseTask_of_ne here, here]
  refine ⟨owned.enabled, ?_, ?_, ?_, ?_, ?_, ?_, ?_⟩
  · rw [releaseTask_of_ne differ.symm]
    exact owned.shell
  · have member : pid ∈ activePids kernel.tasks := by simp [activePids, active]
    change kernel.taskCount - 1 = (activePids (Function.update kernel.tasks pid _)).card
    rw [activePids_update_false rfl, Finset.card_erase_of_mem member, owned.count]
  · intro query inactive
    by_cases here : query = pid
    · subst here
      rw [releaseTask_self]
      exact ⟨rfl, rfl⟩
    · rw [releaseTask_of_ne here] at inactive ⊢
      exact owned.idle query inactive
  · change Owns (if (kernel.tasks pid).stackBase ≠ 0 then _ else _)
      (stackBlocks (Function.update kernel.tasks pid _))
    rw [if_pos (owned.stackBase_ne_zero differ active),
      stackBlocks_update_false owned.distinct differ active rfl]
    exact owned.blocks.kfree ⟨pid, differ, active, rfl⟩
  · exact releaseTask_distinct pid owned.distinct
  · intro query
    rw [releaseTask_used, owned.used]
    constructor
    · rintro ⟨⟨holder, has⟩, notThis⟩
      exact ⟨holder, (space holder query).mpr ⟨fun same => notThis (same ▸ has), has⟩⟩
    · rintro ⟨holder, has⟩
      obtain ⟨elsewhere, held⟩ := (space holder query).mp has
      exact ⟨⟨holder, held⟩, fun here => elsewhere (owned.apart holder pid query held here)⟩
  · intro first second query firstHas secondHas
    exact owned.apart first second query ((space first query).mp firstHas).2
      ((space second query).mp secondHas).2

/-! ### Creation -/

/-- The initial frame is written below the top of the stack. -/
theorem push_eqOn (frame : List Word) (top : Word) (memory : Memory) {low : Nat}
    (room : low + 4 * frame.length ≤ top.toNat) :
    Set.EqOn (frame.foldl push (top, memory)).2 memory (region low top.toNat)ᶜ := by
  induction frame generalizing top memory with
  | nil => exact Set.eqOn_refl _ _
  | cons value rest ih =>
      rw [List.length_cons] at room
      have below : (top - 4).toNat = top.toNat - 4 := by bv_omega
      have later := ih (top - 4) (memory.write32 (top - 4) value) (by omega)
      intro query outside
      have notLater : query ∉ region low (top - 4).toNat := fun ⟨above, under⟩ =>
        outside ⟨above, by omega⟩
      have notHere : query ∉ span (top - 4) 4 := by
        rw [mem_span_iff (by omega)]
        rintro ⟨above, under⟩
        exact outside ⟨by omega, by omega⟩
      exact (later notLater).trans (Memory.write32_eqOn value notHere)

theorem stackBlocks_update_true {tasks : Fin 16 → Task} {pid : Fin 16} {task : Task}
    (differ : pid ≠ 0) (inactive : (tasks pid).active = false) (active : task.active = true) :
    stackBlocks (Function.update tasks pid task) =
      insert task.stackBase.toNat (stackBlocks tasks) := by
  ext position
  constructor
  · rintro ⟨other, notShell, otherActive, place⟩
    by_cases here : other = pid
    · subst here
      rw [Function.update_self] at place
      exact Or.inl place.symm
    · rw [Function.update_of_ne here] at otherActive place
      exact Or.inr ⟨other, notShell, otherActive, place⟩
  · rintro (place | ⟨other, notShell, otherActive, place⟩)
    · refine ⟨pid, differ, ?_, ?_⟩
      · rw [Function.update_self]
        exact active
      · rw [Function.update_self]
        exact place.symm
    · have elsewhere : other ≠ pid := by
        rintro rfl
        exact Bool.false_ne_true (inactive.symm.trans otherActive)
      refine ⟨other, notShell, ?_, ?_⟩
      · rw [Function.update_of_ne elsewhere]
        exact otherActive
      · rw [Function.update_of_ne elsewhere]
        exact place

/-- An entry with a fresh stack keeps the stacks distinct. -/
theorem distinct_update {tasks : Fin 16 → Task} {pid : Fin 16} {task : Task}
    (distinct : ∀ first second, first ≠ 0 → second ≠ 0 →
      (tasks first).active = true → (tasks second).active = true →
      (tasks first).stackBase = (tasks second).stackBase → first = second)
    (fresh : task.stackBase.toNat ∉ stackBlocks tasks) (first second : Fin 16)
    (firstTask : first ≠ 0) (secondTask : second ≠ 0)
    (firstActive : (Function.update tasks pid task first).active = true)
    (secondActive : (Function.update tasks pid task second).active = true)
    (same : (Function.update tasks pid task first).stackBase =
      (Function.update tasks pid task second).stackBase) : first = second := by
  have newStack : ∀ query, query ≠ 0 → (tasks query).active = true →
      (tasks query).stackBase ≠ task.stackBase := by
    intro query notShell alive place
    exact fresh ⟨query, notShell, alive, congrArg BitVec.toNat place⟩
  by_cases firstNew : first = pid
  · by_contra different
    have elsewhere : second ≠ pid := fun here => different (firstNew.trans here.symm)
    rw [Function.update_of_ne elsewhere] at secondActive same
    rw [firstNew, Function.update_self] at same
    exact newStack second secondTask secondActive same.symm
  · rw [Function.update_of_ne firstNew] at firstActive same
    by_cases secondNew : second = pid
    · rw [secondNew, Function.update_self] at same
      exact absurd same (newStack first firstTask firstActive)
    · rw [Function.update_of_ne secondNew] at secondActive same
      exact distinct first second firstTask secondTask firstActive secondActive same

/-- Filling an entry writes to the new stack only. -/
theorem installTask_heap (pid : Fin 16) {ptr : Word}
    (room : ptr.toNat + taskStackSize.toNat ≤ heapBase + heapLength) {frame : List Word}
    (short : 4 * frame.length ≤ taskStackSize.toNat) (name : Word) (space : Option (Fin 6))
    (kernel : Kernel) :
    ∃ later, (installTask pid ptr frame name space kernel).heap =
        { kernel.heap with memory := later } ∧
      Set.EqOn later kernel.heap.memory
        (region ptr.toNat (ptr.toNat + taskStackSize.toNat))ᶜ := by
  have top : (ptr + taskStackSize).toNat = ptr.toNat + taskStackSize.toNat := by
    simp only [heapBase, heapLength, taskStackSize] at room ⊢
    bv_omega
  have written := push_eqOn frame (ptr + taskStackSize) kernel.heap.memory
    (show ptr.toNat + 4 * frame.length ≤ (ptr + taskStackSize).toNat by omega)
  rw [top] at written
  exact ⟨_, rfl, written⟩

/-- A free entry of the table is filled with a fresh stack and an address space that was not
in use, if any. -/
theorem Owned.installTask {kernel : Kernel} (owned : Owned kernel) {pid : Fin 16}
    (inactive : (kernel.tasks pid).active = false) {ptr : Word} {heap : Heap}
    (fresh : ptr.toNat ∉ stackBlocks kernel.tasks)
    (room : ptr.toNat + taskStackSize.toNat ≤ heapBase + heapLength)
    (writable : ∀ later, Set.EqOn later heap.memory
        (region ptr.toNat (ptr.toNat + taskStackSize.toNat))ᶜ →
      Owns { heap with memory := later } (insert ptr.toNat (stackBlocks kernel.tasks)))
    {frame : List Word} (short : 4 * frame.length ≤ taskStackSize.toNat) (name : Word)
    {space : Option (Fin 6)} {pages : Pages}
    (unused : ∀ own, space = some own → kernel.pages.taskDirUsed own = false)
    (taken : ∀ query, pages.taskDirUsed query = true ↔
      kernel.pages.taskDirUsed query = true ∨ space = some query) :
    Owned (installTask pid ptr frame name space { kernel with heap := heap, pages := pages }) := by
  have differ : pid ≠ 0 := by
    rintro rfl
    exact Bool.false_ne_true (inactive.symm.trans owned.shell)
  obtain ⟨later, stored, written⟩ := installTask_heap pid room short name space
    { kernel with heap := heap, pages := pages }
  generalize state : Sched.installTask pid ptr frame name space
    { kernel with heap := heap, pages := pages } = after
  have tasks : ∃ task, after.tasks = Function.update kernel.tasks pid task ∧
      task.active = true ∧ task.stackBase = ptr ∧ task.addrSpace = space := by
    rw [← state]
    exact ⟨_, rfl, rfl, BitVec.add_sub_cancel .., rfl⟩
  obtain ⟨task, table, active, base, held⟩ := tasks
  have other : ∀ query, query ≠ pid → after.tasks query = kernel.tasks query :=
    fun query elsewhere => table ▸ Function.update_of_ne elsewhere ..
  have self : after.tasks pid = task := table ▸ Function.update_self ..
  have holder : ∀ query own, (after.tasks query).addrSpace = some own ↔
      (query = pid ∧ space = some own) ∨ (kernel.tasks query).addrSpace = some own := by
    intro query own
    by_cases here : query = pid
    · subst here
      simp [self, held, (owned.idle query inactive).2]
    · simp [other query here, here]
  have conflict : ∀ query own, space = some own →
      (kernel.tasks query).addrSpace ≠ some own := by
    intro query own new has
    exact Bool.false_ne_true ((unused own new).symm.trans ((owned.used own).mpr ⟨query, has⟩))
  refine ⟨?_, ?_, ?_, ?_, ?_, ?_, ?_, ?_⟩
  · rw [← state]
    exact owned.enabled
  · rw [other 0 differ.symm]
    exact owned.shell
  · have absent : pid ∉ activePids kernel.tasks := by simp [activePids, inactive]
    rw [table, activePids_update_true active, Finset.card_insert_of_notMem absent, ← owned.count,
      ← state]
    rfl
  · intro query idle
    have elsewhere : query ≠ pid := by
      rintro rfl
      exact Bool.false_ne_true ((idle.symm.trans (self ▸ active)))
    rw [other query elsewhere] at idle ⊢
    exact owned.idle query idle
  · rw [table, stackBlocks_update_true differ inactive active, base, ← state, stored]
    exact writable later written
  · rw [table]
    exact distinct_update owned.distinct (base.symm ▸ fresh)
  · intro query
    have pool : after.pages = pages := by rw [← state, Sched.installTask]
    rw [pool, taken, owned.used]
    simp only [holder]
    constructor
    · rintro (⟨old, has⟩ | new)
      · exact ⟨old, Or.inr has⟩
      · exact ⟨pid, Or.inl ⟨rfl, new⟩⟩
    · rintro ⟨old, ⟨_, new⟩ | has⟩
      · exact Or.inr new
      · exact Or.inl ⟨old, has⟩
  · intro first second own firstHas secondHas
    rcases (holder first own).mp firstHas with ⟨firstNew, new⟩ | firstOld
    · rcases (holder second own).mp secondHas with ⟨secondNew, _⟩ | secondOld
      · exact firstNew.trans secondNew.symm
      · exact absurd secondOld (conflict second own new)
    · rcases (holder second own).mp secondHas with ⟨_, new⟩ | secondOld
      · exact absurd firstOld (conflict first own new)
      · exact owned.apart first second own firstOld secondOld

theorem Owned.createTask {kernel : Kernel} (owned : Owned kernel) (layout : Layout)
    (entry name : Word) :
    ∃ result after, createTask layout entry name kernel = some (result, after) ∧ Owned after := by
  unfold Sched.createTask
  split
  · exact ⟨_, _, rfl, owned⟩
  · cases free : kernel.freePid with
    | none => exact ⟨_, _, rfl, owned⟩
    | some pid =>
        rcases owned.blocks.kmalloc taskStackSize with failed |
          ⟨ptr, heap, allocated, valid, fresh, room, writable⟩
        · simp only [failed, ↓reduceIte]
          exact ⟨_, _, rfl, owned⟩
        · simp only [allocated, valid, ↓reduceIte]
          refine ⟨_, _, rfl, owned.installTask (freePid_inactive free) fresh room writable
            (by simp) name (fun own new => ?_) fun query => ?_⟩
          · exact absurd new.symm (Option.some_ne_none own)
          · simp

theorem Owned.createUserTaskArgv {kernel : Kernel} (owned : Owned kernel) (layout : Layout)
    (task : UserTask) :
    ∃ result after, createUserTaskArgv layout task kernel = some (result, after) ∧
      Owned after := by
  unfold Sched.createUserTaskArgv
  split
  · exact ⟨_, _, rfl, owned⟩
  · cases free : kernel.freePid with
    | none => exact ⟨_, _, rfl, owned⟩
    | some pid =>
        rcases owned.blocks.kmalloc taskStackSize with failed |
          ⟨ptr, heap, allocated, valid, fresh, room, writable⟩
        · simp only [failed, ↓reduceIte]
          exact ⟨_, _, rfl, owned⟩
        · simp only [allocated, valid, ↓reduceIte]
          rcases created : pagingCreateTaskDirectoryEx layout task.codeBase task.codeSize
            (task.userStackTop - task.userStackSize) task.userStackSize kernel.pages with
            ⟨_ | space, pages⟩
          · obtain rfl := pagingCreateTaskDirectoryEx_none created
            -- The address space is refused: the stack just taken goes back to the heap.
            have taken : Owns heap (insert ptr.toNat (stackBlocks kernel.tasks)) :=
              writable heap.memory (Set.eqOn_refl _ _)
            have returned := taken.kfree (Set.mem_insert ..)
            rw [Set.insert_sdiff_self_of_notMem fresh] at returned
            exact ⟨_, _, rfl, owned.enabled, owned.shell, owned.count, owned.idle, returned,
              owned.distinct, owned.used, owned.apart⟩
          · obtain ⟨unused, rfl⟩ := pagingCreateTaskDirectoryEx_some created
            refine ⟨_, _, rfl, owned.installTask (freePid_inactive free) fresh room writable
              (by simp) task.name (fun own new => ?_) ?_⟩
            · exact Option.some.inj new ▸ unused
            · exact taskDirUsed_update kernel.pages.taskDirUsed space

/-! ### Runs -/

theorem Owned.schedule {kernel : Kernel} (owned : Owned kernel) (lastEsp : Word) :
    ∃ esp after, schedule lastEsp kernel = some (esp, after) ∧ Owned after := by
  have spec := schedule_spec lastEsp owned.enabled
  rcases result : Sched.schedule lastEsp kernel with _ | ⟨esp, after⟩
  · simp only [result] at spec
    exact absurd ((spec 0).symm.trans owned.shell) Bool.false_ne_true
  · simp only [result] at spec
    exact ⟨esp, after, rfl, owned.steady spec.1.toSteady⟩

theorem Owned.taskSleepAndReschedule {kernel : Kernel} (owned : Owned kernel)
    (ms currentEsp : Word) :
    ∃ esp after, taskSleepAndReschedule ms currentEsp kernel = some (esp, after) ∧
      Owned after := by
  unfold Sched.taskSleepAndReschedule
  apply Owned.schedule
  exact owned.steady (Steady.setTask kernel _ rfl rfl rfl)

theorem Owned.taskExitCurrent {kernel : Kernel} (owned : Owned kernel)
    (notShell : kernel.currentTask ≠ 0) : Owned (taskExitCurrent kernel) := by
  unfold Sched.taskExitCurrent
  split
  · next active => exact owned.releaseTask notShell active
  · exact owned

theorem Owned.taskCount_ne_zero {kernel : Kernel} (owned : Owned kernel) :
    kernel.taskCount ≠ 0 := by
  have shell : (0 : Fin 16) ∈ activePids kernel.tasks := by simp [activePids, owned.shell]
  rw [owned.count]
  exact Finset.card_ne_zero_of_mem shell

theorem Owned.taskExitAndReschedule {kernel : Kernel} (owned : Owned kernel)
    (notShell : kernel.currentTask ≠ 0) (currentEsp : Word) :
    ∃ esp after, taskExitAndReschedule currentEsp kernel = some (esp, after) ∧ Owned after := by
  have ended := owned.taskExitCurrent notShell
  unfold Sched.taskExitAndReschedule
  simp only [ended.taskCount_ne_zero, ↓reduceIte]
  exact ended.schedule currentEsp

theorem Owned.taskKill {kernel : Kernel} (owned : Owned kernel)
    (shellCurrent : kernel.currentTask = 0) (target : Int) : Owned (taskKill target kernel).2 := by
  unfold Sched.taskKill
  cases found : kernel.activePid target with
  | none => exact owned
  | some pid =>
      simp only
      split
      · exact owned
      · next differ =>
          have active := (Kernel.activePid_eq_some.mp found).2
          exact (owned.releaseTask (shellCurrent ▸ differ) active).steady
            (Steady.setTask _ pid rfl rfl rfl)

theorem Owned.taskSetPriority {kernel : Kernel} (owned : Owned kernel) (target priority : Int) :
    Owned (taskSetPriority target priority kernel) := by
  unfold Sched.taskSetPriority
  cases kernel.activePid target with
  | none => exact owned
  | some pid => exact owned.steady (Steady.setTask kernel pid rfl rfl rfl)

theorem Owned.ipcSend {kernel : Kernel} (owned : Owned kernel) {Memory : Type}
    (load : Nat → Memory → Byte × Memory) (target : Int) (len : Word) (memory : Memory) :
    Owned (ipcSend load target len kernel memory).2.1 := by
  unfold Sched.ipcSend
  cases kernel.activePid target with
  | none => exact owned
  | some pid => exact owned.steady (Steady.setTask kernel pid rfl rfl rfl)

theorem Owned.ipcRecv {kernel : Kernel} (owned : Owned kernel) {Memory : Type}
    (store : Nat → Byte → Memory → Memory) (memory : Memory) :
    Owned (ipcRecv store kernel memory).2.1 :=
  owned.steady (Steady.setTask kernel _ rfl rfl rfl)

/-- When an operation can run. A task that has ended waits for the timer, the Shell does not
exit, and only the Shell kills. -/
def Op.Allowed (kernel : Kernel) : Op → Prop
  | .schedule _ => True
  | .kill _ => kernel.currentTask = 0
  | .exitCurrent | .exitAndReschedule _ =>
      (kernel.tasks kernel.currentTask).active = true ∧ kernel.currentTask ≠ 0
  | _ => (kernel.tasks kernel.currentTask).active = true

/-- An operation that can run ends and keeps the resources owned. -/
theorem Owned.perform {kernel : Kernel} (owned : Owned kernel) (layout : Layout) (op : Op)
    (allowed : op.Allowed kernel) :
    ∃ outcome after, op.perform layout kernel = some (outcome, after) ∧ Owned after := by
  cases op with
  | createTask entry name =>
      obtain ⟨pid, after, created, kept⟩ := owned.createTask layout entry name
      exact ⟨.created pid, after, congrArg (Option.map _) created, kept⟩
  | createUserTaskArgv task =>
      obtain ⟨pid, after, created, kept⟩ := owned.createUserTaskArgv layout task
      exact ⟨.created pid, after, congrArg (Option.map _) created, kept⟩
  | schedule lastEsp =>
      obtain ⟨esp, after, scheduled, kept⟩ := owned.schedule lastEsp
      exact ⟨.resumed esp, after, congrArg (Option.map _) scheduled, kept⟩
  | sleepAndReschedule ms currentEsp =>
      obtain ⟨esp, after, scheduled, kept⟩ := owned.taskSleepAndReschedule ms currentEsp
      exact ⟨.resumed esp, after, congrArg (Option.map _) scheduled, kept⟩
  | exitCurrent => exact ⟨_, _, rfl, owned.taskExitCurrent allowed.2⟩
  | exitAndReschedule currentEsp =>
      obtain ⟨esp, after, scheduled, kept⟩ := owned.taskExitAndReschedule allowed.2 currentEsp
      exact ⟨.resumed esp, after, congrArg (Option.map _) scheduled, kept⟩
  | kill target => exact ⟨_, _, rfl, owned.taskKill allowed target⟩
  | setPriority target priority => exact ⟨_, _, rfl, owned.taskSetPriority target priority⟩
  | send target payload len => exact ⟨_, _, rfl, owned.ipcSend _ target len ()⟩
  | recv => exact ⟨_, _, rfl, owned.ipcRecv _ _⟩

/-- The states of the kernel, from the start of the scheduler on. -/
inductive Reachable (layout : Layout) : Kernel → Prop where
  | start (memory : Memory) (frequency : Word) :
      Reachable layout (initMultitasking layout (booted memory frequency))
  | step {kernel after : Kernel} (op : Op) {outcome : Outcome} :
      Reachable layout kernel → op.Allowed kernel →
      op.perform layout kernel = some (outcome, after) → Reachable layout after

theorem Reachable.owned {layout : Layout} {kernel : Kernel} (reachable : Reachable layout kernel) :
    Owned kernel := by
  induction reachable with
  | start memory frequency => exact initMultitasking_owned layout memory frequency
  | @step kernel after op outcome _ allowed performed ih =>
      obtain ⟨outcome', after', result, owned⟩ := ih.perform layout op allowed
      obtain ⟨rfl, rfl⟩ := Prod.mk.inj (Option.some.inj (performed.symm.trans result))
      exact owned

/-- In every reachable state the task table, its counter, the heap and the pool of page
directories agree on who owns what, the Shell is active, and every operation that can run
does not halt the machine. -/
theorem resources_owned (layout : Layout) (kernel : Kernel)
    (reachable : Reachable layout kernel) :
    kernel.taskCount = (activePids kernel.tasks).card ∧
    (∃ visited, walk kernel.heap = some visited ∧
      (visited.map fun entry => entry.1.toNat).Nodup ∧
      ∀ position, (∃ entry ∈ visited, entry.2.isFree = 0 ∧
          entry.1.toNat + headerSize = position) ↔
        ∃ pid, pid ≠ 0 ∧ (kernel.tasks pid).active = true ∧
          (kernel.tasks pid).stackBase.toNat = position) ∧
    (∀ pid, pid ≠ 0 → (kernel.tasks pid).active = true → (kernel.tasks pid).stackBase ≠ 0) ∧
    (∀ first second, first ≠ 0 → second ≠ 0 → (kernel.tasks first).active = true →
      (kernel.tasks second).active = true → first ≠ second →
      (kernel.tasks first).stackBase ≠ (kernel.tasks second).stackBase) ∧
    (∀ space, kernel.pages.taskDirUsed space = true ↔
      ∃! pid, (kernel.tasks pid).active = true ∧ (kernel.tasks pid).addrSpace = some space) ∧
    (∀ pid, (kernel.tasks pid).active = false →
      (kernel.tasks pid).stackBase = 0 ∧ (kernel.tasks pid).addrSpace = none) ∧
    (kernel.tasks 0).active = true ∧ (findNextTask kernel).1 ≠ none ∧
    ∀ op : Op, op.Allowed kernel → op.perform layout kernel ≠ none := by
  have owned := reachable.owned
  refine ⟨owned.count, ?_, fun pid => owned.stackBase_ne_zero, ?_, ?_, owned.idle, owned.shell,
    ?_, ?_⟩
  · obtain ⟨visited, walked, nodup, exactly⟩ := owned.blocks.walk
    exact ⟨visited, walked, nodup, fun position => (exactly position).symm⟩
  · intro first second firstTask secondTask firstActive secondActive differ same
    exact differ (owned.distinct first second firstTask secondTask firstActive secondActive same)
  · intro space
    rw [owned.used]
    constructor
    · rintro ⟨pid, has⟩
      exact ⟨pid, ⟨owned.space_active has, has⟩, fun other held =>
        owned.apart other pid space held.2 has⟩
    · rintro ⟨pid, held, _⟩
      exact ⟨pid, held.2⟩
  · intro halted
    have spec := (findNextTask_spec kernel).2
    rw [halted] at spec
    exact Bool.false_ne_true ((spec 0).symm.trans owned.shell)
  · intro op allowed halted
    obtain ⟨outcome, after, performed, _⟩ := owned.perform layout op allowed
    exact Option.some_ne_none _ (performed.symm.trans halted)

/-- A kernel task and a user task are created; the first is scheduled and exits. -/
theorem resources_owned_after_exit : ∃ kernel, Reachable imageLayout kernel ∧
    (kernel.tasks 1).active = false ∧ (kernel.tasks 1).stackBase = 0 ∧
    (kernel.tasks 2).active = true ∧ (kernel.tasks 2).stackBase ≠ 0 ∧
    (∃! pid, (kernel.tasks pid).active = true ∧ (kernel.tasks pid).addrSpace = some 0) ∧
    2 = (activePids kernel.tasks).card := by
  have start : Reachable imageLayout _ := Reachable.start (fun _ => 0) 100
  have first := Reachable.step (.createTask 0x9100 0xF010) start rfl rfl
  have second := Reachable.step
    (.createUserTaskArgv ⟨0x9200, 0xF020, 0x30000, 0x1000, 0, 0, 0, 0⟩) first rfl rfl
  have scheduled := Reachable.step (.schedule 0x7000) second trivial rfl
  have ended := Reachable.step (.exitAndReschedule 0x101000) scheduled ⟨rfl, by decide⟩ rfl
  obtain ⟨count, _, stack, _, used, idle, _⟩ := resources_owned imageLayout _ ended
  exact ⟨_, ended, rfl, (idle 1 rfl).1, rfl, stack 2 (by decide) rfl, (used 0).mp rfl, count⟩

end MxOS.Sched
