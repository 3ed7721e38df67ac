import MxOS.Kernel.SchedOwnership

/-! # Where tasks resume

A history records when tasks were created and when they were interrupted, with the stack
pointers. The latest event of a process number says where its task is to resume, and this
is what `schedule` returns for the task it elects, with the task's own kernel stack and
address space.
-/

namespace MxOS.Sched

open ByteMemory Mem Paging Ipc

/-! ### Histories -/

/-- A task is created with an initial frame, or it is current when `schedule` is called. -/
inductive Event where
  | created (pid : Fin 16) (frame : Word)
  | interrupted (pid : Fin 16) (esp : Word)

def Event.pid : Event → Fin 16
  | .created pid _ => pid
  | .interrupted pid _ => pid

def Event.esp : Event → Word
  | .created _ frame => frame
  | .interrupted _ esp => esp

/-- Where the task of the process number is to resume. The latest event comes first. -/
def resumePoint (history : List Event) (pid : Fin 16) : Option Word :=
  (history.find? fun event => event.pid = pid).map Event.esp

theorem resumePoint_cons_self (event : Event) (history : List Event) :
    resumePoint (event :: history) event.pid = some event.esp := by
  simp [resumePoint]

theorem resumePoint_cons_of_ne {event : Event} {pid : Fin 16} (differ : event.pid ≠ pid)
    (history : List Event) : resumePoint (event :: history) pid = resumePoint history pid := by
  simp [resumePoint, differ]

/-- The stack pointer the operation passes to `schedule`, if it calls it. -/
def Op.passedEsp : Op → Option Word
  | .schedule lastEsp => some lastEsp
  | .sleepAndReschedule _ currentEsp => some currentEsp
  | .exitAndReschedule currentEsp => some currentEsp
  | _ => none

/-- The state in which the operation calls `schedule`. -/
def Op.entering (kernel : Kernel) : Op → Kernel
  | .sleepAndReschedule ms _ =>
      let ticksToWait := (ms * kernel.frequency) / 1000
      let ticksToWait := if ticksToWait = 0 then 1 else ticksToWait
      kernel.setTask kernel.currentTask
        { kernel.tasks kernel.currentTask with
          wakeTick := kernel.ticks + ticksToWait
          sleeping := true }
  | .exitAndReschedule _ => taskExitCurrent kernel
  | _ => kernel

theorem Op.reschedules {layout : Layout} {kernel after : Kernel} {op : Op} {lastEsp : Word}
    {outcome : Outcome} (passed : op.passedEsp = some lastEsp)
    (performed : op.perform layout kernel = some (outcome, after)) :
    ∃ esp, outcome = .resumed esp ∧
      Sched.schedule lastEsp (op.entering kernel) = some (esp, after) := by
  cases op with
  | schedule passedEsp =>
      obtain rfl := Option.some.inj passed
      obtain ⟨⟨esp, later⟩, scheduled, same⟩ := Option.map_eq_some_iff.mp performed
      obtain ⟨rfl, rfl⟩ := Prod.mk.inj same
      exact ⟨esp, rfl, scheduled⟩
  | sleepAndReschedule ms passedEsp =>
      obtain rfl := Option.some.inj passed
      obtain ⟨⟨esp, later⟩, scheduled, same⟩ := Option.map_eq_some_iff.mp performed
      obtain ⟨rfl, rfl⟩ := Prod.mk.inj same
      unfold taskSleepAndReschedule at scheduled
      exact ⟨esp, rfl, scheduled⟩
  | exitAndReschedule passedEsp =>
      obtain rfl := Option.some.inj passed
      obtain ⟨⟨esp, later⟩, scheduled, same⟩ := Option.map_eq_some_iff.mp performed
      obtain ⟨rfl, rfl⟩ := Prod.mk.inj same
      unfold taskExitAndReschedule at scheduled
      simp only at scheduled
      split at scheduled
      · cases scheduled
      · exact ⟨esp, rfl, scheduled⟩
  | _ => cases passed

/-- The words of the initial frame: the frame of a user task has a stack pointer and a stack
segment, that of a kernel task a return address. -/
def Op.frameWords : Op → Nat
  | .createTask .. => 12
  | .createUserTaskArgv _ => 13
  | _ => 0

/-- What an operation adds to the history. A new frame lies at the top of the new stack. -/
def Op.events (op : Op) (before : Kernel) : Outcome → Kernel → List Event
  | .created (some pid), after =>
      [.created pid ((after.tasks pid).stackBase + taskStackSize -
        BitVec.ofNat 32 (4 * op.frameWords))]
  | .resumed _, _ => (op.passedEsp.map (Event.interrupted before.currentTask)).toList
  | _, _ => []

/-- The states of the kernel from the start of the scheduler on, with their histories. -/
inductive Recorded (layout : Layout) : Kernel → List Event → Prop where
  | start (memory : Memory) (frequency : Word) :
      Recorded layout (initMultitasking layout (booted memory frequency)) []
  | step {kernel after : Kernel} {history : List Event} (op : Op) {outcome : Outcome} :
      Recorded layout kernel history → op.Allowed kernel →
      op.perform layout kernel = some (outcome, after) →
      Recorded layout after (op.events kernel outcome after ++ history)

theorem Recorded.reachable {layout : Layout} {kernel : Kernel} {history : List Event}
    (recorded : Recorded layout kernel history) : Reachable layout kernel := by
  induction recorded with
  | start memory frequency => exact .start memory frequency
  | step op _ allowed performed ih => exact .step op ih allowed performed

/-! ### Switching -/

/-- The registers set for the current task. -/
structure Loaded (kernel : Kernel) : Prop where
  esp0 : kernel.esp0 = (kernel.tasks kernel.currentTask).stackBase + taskStackSize
  cr3 : kernel.cr3 =
    match (kernel.tasks kernel.currentTask).addrSpace with
    | some space => .task space
    | none => .kernel

theorem schedule_loaded {lastEsp esp : Word} {kernel after : Kernel}
    (enabled : kernel.multitaskingEnabled = true)
    (scheduled : schedule lastEsp kernel = some (esp, after)) :
    Loaded after ∧ esp = (after.tasks after.currentTask).esp ∧
      ∀ pid, (after.tasks pid).esp =
        if pid = kernel.currentTask then lastEsp else (kernel.tasks pid).esp := by
  have saved : ∀ pid, ((kernel.timerTick.saveEsp lastEsp).tasks pid).esp =
      if pid = kernel.currentTask then lastEsp else (kernel.tasks pid).esp := by
    intro pid
    by_cases here : pid = kernel.currentTask
    · rw [if_pos here, here]
      exact congrArg Task.esp (Kernel.setTask_self kernel.timerTick kernel.currentTask _)
    · rw [if_neg here]
      exact congrArg Task.esp (Kernel.setTask_of_ne kernel.timerTick _ here)
  obtain ⟨woken, _⟩ := findNextTask_spec (kernel.timerTick.saveEsp lastEsp)
  unfold schedule at scheduled
  rw [if_neg (show ¬(!kernel.timerTick.multitaskingEnabled) = true by
    simp only [Kernel.timerTick, enabled, Bool.not_true, Bool.false_eq_true, not_false_eq_true])]
    at scheduled
  generalize kernel.timerTick.saveEsp lastEsp = interrupted at saved woken scheduled
  rcases election : findNextTask interrupted with ⟨_ | next, tasks⟩
  · simp only [election, reduceCtorEq] at scheduled
  · simp only [election] at woken scheduled
    obtain ⟨rfl, rfl⟩ := Prod.mk.inj (Option.some.inj scheduled)
    refine ⟨⟨rfl, rfl⟩, rfl, fun pid => ?_⟩
    exact (woken.part (·.esp) (fun _ _ => rfl) pid).trans (saved pid)

/-! ### Creation -/

theorem push_esp (frame : List Word) (top : Word) (memory : Memory) :
    (frame.foldl push (top, memory)).1 = top - BitVec.ofNat 32 (4 * frame.length) := by
  induction frame generalizing top memory with
  | nil => rw [List.foldl_nil, List.length_nil, Nat.mul_zero, BitVec.sub_zero]
  | cons value rest ih =>
      rw [List.foldl_cons, push, ih, List.length_cons]
      bv_omega

/-- The new task is to resume from its initial frame, below the top of its stack. -/
theorem installTask_esp (pid : Fin 16) (stackAddress : Word) (frame : List Word) (name : Word)
    (space : Option (Fin 6)) (kernel : Kernel) :
    let task := (installTask pid stackAddress frame name space kernel).tasks pid
    task.esp = task.stackBase + taskStackSize - BitVec.ofNat 32 (4 * frame.length) := by
  intro task
  simp only [task, installTask_self, push_esp]
  bv_omega

/-! ### Runs -/

/-- The history says where the active tasks are to resume. The current one is running. -/
def Contexts (kernel : Kernel) (history : List Event) : Prop :=
  ∀ pid, (kernel.tasks pid).active = true → pid ≠ kernel.currentTask →
    resumePoint history pid = some (kernel.tasks pid).esp

theorem initMultitasking_contexts (layout : Layout) (kernel : Kernel) (history : List Event) :
    Contexts (initMultitasking layout kernel) history := by
  intro pid active differ
  have other : pid ≠ 0 := differ
  simp only [initMultitasking, Function.update_of_ne other] at active
  exact absurd active Bool.false_ne_true

/-- Who is active afterwards was active before, with the same stack pointer. -/
theorem Contexts.frame {kernel after : Kernel} {history : List Event}
    (contexts : Contexts kernel history) (current : after.currentTask = kernel.currentTask)
    (kept : ∀ pid, (after.tasks pid).active = true → (kernel.tasks pid).active = true ∧
      (after.tasks pid).esp = (kernel.tasks pid).esp) : Contexts after history := by
  intro pid active differ
  obtain ⟨before, same⟩ := kept pid active
  rw [same]
  exact contexts pid before (current ▸ differ)

theorem Contexts.setTask {kernel : Kernel} {history : List Event}
    (contexts : Contexts kernel history) (pid : Fin 16) {task : Task}
    (active : task.active = (kernel.tasks pid).active) (esp : task.esp = (kernel.tasks pid).esp) :
    Contexts (kernel.setTask pid task) history := by
  refine contexts.frame rfl fun other alive => ?_
  rw [kernel.setTask_part (·.active) pid active other] at alive
  exact ⟨alive, kernel.setTask_part (·.esp) pid esp other⟩

theorem Contexts.releaseTask {kernel : Kernel} {history : List Event}
    (contexts : Contexts kernel history) (pid : Fin 16) :
    Contexts (releaseTask pid kernel) history := by
  refine contexts.frame rfl fun other alive => ?_
  by_cases here : other = pid
  · rw [here, releaseTask_self] at alive
    exact absurd alive Bool.false_ne_true
  · rw [releaseTask_of_ne here] at alive ⊢
    exact ⟨alive, rfl⟩

theorem Contexts.taskExitCurrent {kernel : Kernel} {history : List Event}
    (contexts : Contexts kernel history) : Contexts (taskExitCurrent kernel) history := by
  unfold Sched.taskExitCurrent
  split
  · exact contexts.releaseTask _
  · exact contexts

theorem Contexts.schedule {kernel after : Kernel} {history : List Event} {lastEsp esp : Word}
    (contexts : Contexts kernel history) (enabled : kernel.multitaskingEnabled = true)
    (scheduled : schedule lastEsp kernel = some (esp, after)) :
    Contexts after (.interrupted kernel.currentTask lastEsp :: history) ∧
      resumePoint (.interrupted kernel.currentTask lastEsp :: history) after.currentTask =
        some esp := by
  obtain ⟨_, resumed, esps⟩ := schedule_loaded enabled scheduled
  have spec := schedule_spec lastEsp enabled
  rw [scheduled] at spec
  obtain ⟨switched, elected⟩ := spec
  have known : ∀ pid, (kernel.tasks pid).active = true →
      resumePoint (.interrupted kernel.currentTask lastEsp :: history) pid =
        some (after.tasks pid).esp := by
    intro pid active
    rw [esps]
    by_cases here : pid = kernel.currentTask
    · rw [if_pos here, here]
      exact resumePoint_cons_self (.interrupted kernel.currentTask lastEsp) history
    · rw [if_neg here, resumePoint_cons_of_ne (Ne.symm here)]
      exact contexts pid active here
  refine ⟨fun pid active _ => known pid (switched.active pid ▸ active), ?_⟩
  rw [resumed]
  exact known _ elected

theorem Contexts.entering {kernel : Kernel} {history : List Event}
    (contexts : Contexts kernel history) (op : Op) : Contexts (op.entering kernel) history := by
  cases op with
  | sleepAndReschedule ms currentEsp => exact contexts.setTask _ rfl rfl
  | exitAndReschedule currentEsp => exact contexts.taskExitCurrent
  | _ => exact contexts

theorem Op.entering_currentTask (kernel : Kernel) (op : Op) :
    (op.entering kernel).currentTask = kernel.currentTask := by
  cases op with
  | exitAndReschedule currentEsp =>
      simp only [Op.entering, taskExitCurrent]
      split <;> rfl
  | _ => rfl

theorem Op.entering_enabled (kernel : Kernel) (op : Op) :
    (op.entering kernel).multitaskingEnabled = kernel.multitaskingEnabled := by
  cases op with
  | exitAndReschedule currentEsp =>
      simp only [Op.entering, taskExitCurrent]
      split <;> rfl
  | _ => rfl

theorem Contexts.reschedule {layout : Layout} {kernel after : Kernel} {history : List Event}
    (contexts : Contexts kernel history) (enabled : kernel.multitaskingEnabled = true) {op : Op}
    {lastEsp : Word} (passed : op.passedEsp = some lastEsp) {outcome : Outcome}
    (performed : op.perform layout kernel = some (outcome, after)) :
    Contexts after (op.events kernel outcome after ++ history) ∧
      ∃ esp, outcome = .resumed esp ∧ Loaded after ∧
        resumePoint (op.events kernel outcome after ++ history) after.currentTask = some esp := by
  obtain ⟨esp, rfl, scheduled⟩ := op.reschedules passed performed
  have entered : (op.entering kernel).multitaskingEnabled = true :=
    (op.entering_enabled kernel).trans enabled
  obtain ⟨later, resumes⟩ := (contexts.entering op).schedule entered scheduled
  have events : op.events kernel (.resumed esp) after =
      [.interrupted kernel.currentTask lastEsp] := by
    simp only [Op.events, passed, Option.map_some, Option.toList_some]
  rw [op.entering_currentTask] at later resumes
  rw [events]
  exact ⟨later, esp, rfl, (schedule_loaded entered scheduled).1, resumes⟩

theorem Contexts.created {kernel : Kernel} {history : List Event}
    (contexts : Contexts kernel history) (pid : Fin 16) (stackAddress : Word) (frame : List Word)
    (name : Word) (space : Option (Fin 6)) (heap : Heap) (pages : Pages) :
    let after := installTask pid stackAddress frame name space
      { kernel with heap := heap, pages := pages }
    Contexts after (.created pid ((after.tasks pid).stackBase + taskStackSize -
      BitVec.ofNat 32 (4 * frame.length)) :: history) := by
  intro after other active differ
  rw [← installTask_esp]
  by_cases here : other = pid
  · rw [here]
    exact resumePoint_cons_self (.created pid _) history
  · rw [resumePoint_cons_of_ne (Ne.symm here)]
    rw [installTask_of_ne here] at active ⊢
    exact contexts other active differ

theorem Contexts.notCreated {kernel after : Kernel} {history : List Event}
    (contexts : Contexts kernel history) (created : Created kernel none after) :
    Contexts after history := by
  have tasks : after.tasks = kernel.tasks := created.tasks
  exact contexts.frame created.currentTask fun pid active => by
    rw [tasks] at active ⊢
    exact ⟨active, rfl⟩

theorem Contexts.perform {layout : Layout} {kernel after : Kernel} {history : List Event}
    (contexts : Contexts kernel history) (enabled : kernel.multitaskingEnabled = true) (op : Op)
    {outcome : Outcome} (performed : op.perform layout kernel = some (outcome, after)) :
    Contexts after (op.events kernel outcome after ++ history) := by
  cases op with
  | createTask entry name =>
      obtain ⟨⟨result, later⟩, created, same⟩ := Option.map_eq_some_iff.mp performed
      obtain ⟨rfl, rfl⟩ := Prod.mk.inj same
      cases result with
      | none => exact contexts.notCreated (createTask_created created)
      | some pid =>
          obtain ⟨_, stackAddress, heap, rfl⟩ := createTask_eq_some created
          exact contexts.created pid stackAddress (kernelFrame layout entry) name none heap
            kernel.pages
  | createUserTaskArgv task =>
      obtain ⟨⟨result, later⟩, created, same⟩ := Option.map_eq_some_iff.mp performed
      obtain ⟨rfl, rfl⟩ := Prod.mk.inj same
      cases result with
      | none => exact contexts.notCreated (createUserTaskArgv_created created)
      | some pid =>
          obtain ⟨_, stackAddress, heap, space, pages, _, rfl⟩ :=
            createUserTaskArgv_eq_some created
          exact contexts.created pid stackAddress task.frame task.name (some space) heap pages
  | schedule lastEsp => exact (contexts.reschedule enabled rfl performed).1
  | sleepAndReschedule ms currentEsp => exact (contexts.reschedule enabled rfl performed).1
  | exitCurrent =>
      obtain ⟨rfl, rfl⟩ := Prod.mk.inj (Option.some.inj performed)
      exact contexts.taskExitCurrent
  | exitAndReschedule currentEsp => exact (contexts.reschedule enabled rfl performed).1
  | kill target =>
      obtain ⟨rfl, rfl⟩ := Prod.mk.inj (Option.some.inj performed)
      change Contexts (taskKill target kernel).2 history
      unfold taskKill
      cases kernel.activePid target with
      | none => exact contexts
      | some pid =>
          simp only
          split
          · exact contexts
          · exact (contexts.releaseTask pid).setTask pid rfl rfl
  | setPriority target priority =>
      obtain ⟨rfl, rfl⟩ := Prod.mk.inj (Option.some.inj performed)
      change Contexts (taskSetPriority target priority kernel) history
      unfold taskSetPriority
      cases kernel.activePid target with
      | none => exact contexts
      | some pid => exact contexts.setTask pid rfl rfl
  | send target payload len =>
      obtain ⟨rfl, rfl⟩ := Prod.mk.inj (Option.some.inj performed)
      change Contexts (ipcSend (supply payload) target len kernel ()).2.1 history
      unfold ipcSend
      cases kernel.activePid target with
      | none => exact contexts
      | some pid => exact contexts.setTask pid rfl rfl
  | recv =>
      obtain ⟨rfl, rfl⟩ := Prod.mk.inj (Option.some.inj performed)
      exact contexts.setTask kernel.currentTask rfl rfl

theorem Recorded.contexts {layout : Layout} {kernel : Kernel} {history : List Event}
    (recorded : Recorded layout kernel history) : Contexts kernel history := by
  induction recorded with
  | start memory frequency => exact initMultitasking_contexts layout _ []
  | step op earlier _ performed ih => exact ih.perform earlier.reachable.owned.enabled op performed

/-- In every run, an operation that calls `schedule` elects an active task and returns the stack
pointer with which this task was last interrupted, or its initial frame if it never was. Its
kernel stack and its address space, which is in use, are set. -/
theorem context_integrity (layout : Layout) (kernel : Kernel) (history : List Event)
    (recorded : Recorded layout kernel history) (op : Op) (allowed : op.Allowed kernel)
    (lastEsp : Word) (passed : op.passedEsp = some lastEsp) :
    ∃ esp after, op.perform layout kernel = some (.resumed esp, after) ∧
      (after.tasks after.currentTask).active = true ∧
      resumePoint (.interrupted kernel.currentTask lastEsp :: history) after.currentTask =
        some esp ∧
      after.esp0 = (after.tasks after.currentTask).stackBase + taskStackSize ∧
      match (after.tasks after.currentTask).addrSpace with
      | some space => after.cr3 = .task space ∧ after.pages.taskDirUsed space = true
      | none => after.cr3 = .kernel := by
  have owned := recorded.reachable.owned
  obtain ⟨outcome, after, performed, kept⟩ := owned.perform layout op allowed
  obtain ⟨_, esp, rfl, loaded, resumes⟩ :=
    recorded.contexts.reschedule owned.enabled passed performed
  obtain ⟨_, same, scheduled⟩ := op.reschedules passed performed
  have spec := schedule_spec lastEsp ((op.entering_enabled kernel).trans owned.enabled)
  rw [scheduled] at spec
  simp only [Op.events, passed, Option.map_some, Option.toList_some, List.singleton_append]
    at resumes
  refine ⟨esp, after, performed, ?_, resumes, loaded.esp0, ?_⟩
  · rw [spec.1.active]
    exact spec.2
  · have register := loaded.cr3
    cases held : (after.tasks after.currentTask).addrSpace with
    | none =>
        rw [held] at register
        exact register
    | some space =>
        rw [held] at register
        exact ⟨register, (kept.used space).mpr ⟨_, held⟩⟩

/-- A kernel task is created, runs from its initial frame, is interrupted and resumes. -/
theorem context_integrity_two_tasks : ∃ kernel history, Recorded imageLayout kernel history ∧
    ∃ esp after, (Op.schedule 0x7000).perform imageLayout kernel = some (.resumed esp, after) ∧
      after.currentTask = 1 ∧ esp = 0x100FC0 ∧
      resumePoint (.interrupted 0 0x7000 :: history) 1 = some esp ∧
      after.esp0 = (after.tasks 1).stackBase + taskStackSize := by
  have start : Recorded imageLayout _ _ := Recorded.start (fun _ => 0) 100
  have created := Recorded.step (.createTask 0x9100 0xF010) start rfl rfl
  have scheduled := Recorded.step (.schedule 0x7010) created trivial rfl
  have interrupted := Recorded.step (.schedule 0x100FC0) scheduled trivial rfl
  obtain ⟨esp, after, performed, _, resumes, esp0, _⟩ := context_integrity imageLayout _ _
    interrupted (.schedule 0x7000) trivial 0x7000 rfl
  refine ⟨_, _, interrupted, esp, after, performed, ?_⟩
  have same := Prod.mk.inj (Option.some.inj performed)
  have current : after.currentTask = 1 := same.2 ▸ rfl
  rw [current] at resumes esp0
  exact ⟨current, Outcome.resumed.inj (same.1.symm.trans rfl), resumes, esp0⟩

end MxOS.Sched
