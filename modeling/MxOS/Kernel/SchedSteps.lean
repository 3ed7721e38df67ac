import MxOS.Kernel.Sched

/-! # What the scheduler's operations change

Election wakes tasks and chooses an active one; switching to it saves the interrupted
stack pointer. Everything else about a task stays as it is, and likewise for the other
operations: the lemmas here say once which parts of the kernel each of them touches.
-/

namespace MxOS.Sched

open ByteMemory Mem Paging Ipc

/-- The tasks are the same but for being woken. -/
def Woken (before after : Fin 16 → Task) : Prop :=
  ∀ pid, ∃ sleeping, after pid = { before pid with sleeping := sleeping }

theorem Woken.refl (tasks : Fin 16 → Task) : Woken tasks tasks := fun pid =>
  ⟨(tasks pid).sleeping, rfl⟩

theorem Woken.part {before after : Fin 16 → Task} (woken : Woken before after) {Value : Type}
    (part : Task → Value)
    (same : ∀ (task : Task) sleeping, part { task with sleeping := sleeping } = part task)
    (pid : Fin 16) : part (after pid) = part (before pid) := by
  obtain ⟨sleeping, woke⟩ := woken pid
  rw [woke, same]

theorem Woken.active {before after : Fin 16 → Task} (woken : Woken before after) (pid : Fin 16) :
    (after pid).active = (before pid).active := woken.part (·.active) (fun _ _ => rfl) pid

/-- What the first loop of the election maintains. -/
structure Elected (start : Fin 16 → Task) (election : Election) : Prop where
  woken : Woken start election.tasks
  active : ∀ pid, election.next = some pid → (start pid).active = true

theorem Elected.elect {start : Fin 16 → Task} {election : Election}
    (elected : Elected start election) (ticks : Word) (candidate : Fin 16) :
    Elected start (elect ticks election candidate) := by
  obtain ⟨sleeping, same⟩ := elected.woken candidate
  have active : (election.tasks candidate).active = (start candidate).active := by rw [same]
  unfold Sched.elect
  by_cases inactive : (!(election.tasks candidate).active) = true
  · simp only [inactive, ↓reduceIte]
    exact elected
  · have isActive : (start candidate).active = true := by
      rw [← active]
      simpa using inactive
    have woken : Woken start (Function.update election.tasks candidate
        { election.tasks candidate with sleeping := false }) := by
      intro pid
      by_cases here : pid = candidate
      · subst here
        rw [Function.update_self, same]
        exact ⟨false, rfl⟩
      · rw [Function.update_of_ne here]
        exact elected.woken pid
    simp only [inactive, Bool.false_eq_true, ↓reduceIte]
    split
    · exact elected
    · split
      · refine ⟨woken, fun pid chosen => ?_⟩
        obtain rfl := Option.some.inj chosen
        exact isActive
      · exact ⟨woken, elected.active⟩

theorem Elected.foldl {start : Fin 16 → Task} {election : Election}
    (elected : Elected start election) (ticks : Word) (candidates : List (Fin 16)) :
    Elected start (candidates.foldl (Sched.elect ticks) election) := by
  induction candidates generalizing election with
  | nil => exact elected
  | cons candidate rest ih => exact ih (elected.elect ticks candidate)

/-- The election only wakes tasks. It finds an active task if there is one. -/
theorem findNextTask_spec (kernel : Kernel) :
    Woken kernel.tasks (findNextTask kernel).2 ∧
      match (findNextTask kernel).1 with
      | some next => (kernel.tasks next).active = true
      | none => ∀ pid, (kernel.tasks pid).active = false := by
  have start : Elected kernel.tasks ⟨none, -1, kernel.tasks⟩ :=
    ⟨Woken.refl kernel.tasks, fun _ chosen => absurd chosen.symm (Option.some_ne_none _)⟩
  have elected := start.foldl kernel.ticks
    ((List.range maxTasks).map fun index => Fin.ofNat 16 (kernel.currentTask.val + (index + 1)))
  unfold findNextTask
  simp only
  generalize ((List.range maxTasks).map fun index =>
    Fin.ofNat 16 (kernel.currentTask.val + (index + 1))).foldl (Sched.elect kernel.ticks)
      ⟨none, -1, kernel.tasks⟩ = election at elected ⊢
  cases chosen : election.next with
  | some next => exact ⟨elected.woken, elected.active next chosen⟩
  | none =>
      refine ⟨elected.woken, ?_⟩
      simp only
      cases found : (List.finRange maxTasks).find? fun pid => (election.tasks pid).active with
      | some next =>
          have active := List.find?_some found
          rw [elected.woken.active] at active
          exact active
      | none =>
          intro pid
          have inactive := List.find?_eq_none.mp found pid (List.mem_finRange pid)
          rw [elected.woken.active] at inactive
          simpa using inactive

@[simp] theorem Kernel.setTask_self (kernel : Kernel) (pid : Fin 16) (task : Task) :
    (kernel.setTask pid task).tasks pid = task := Function.update_self ..

theorem Kernel.setTask_of_ne (kernel : Kernel) {pid other : Fin 16} (task : Task)
    (differ : other ≠ pid) : (kernel.setTask pid task).tasks other = kernel.tasks other :=
  Function.update_of_ne differ ..

/-- The tasks hold what they held before: stacks, address spaces and their places in the
table. -/
structure Steady (before after : Kernel) : Prop where
  heap : after.heap = before.heap
  pages : after.pages = before.pages
  taskCount : after.taskCount = before.taskCount
  enabled : after.multitaskingEnabled = before.multitaskingEnabled
  active : ∀ pid, (after.tasks pid).active = (before.tasks pid).active
  stackBase : ∀ pid, (after.tasks pid).stackBase = (before.tasks pid).stackBase
  addrSpace : ∀ pid, (after.tasks pid).addrSpace = (before.tasks pid).addrSpace

/-- The kernels differ at most in what switching tasks changes. -/
structure Switched (before after : Kernel) : Prop extends Steady before after where
  mailbox : ∀ pid, (after.tasks pid).mailbox = (before.tasks pid).mailbox

theorem Steady.trans {first second third : Kernel} (one : Steady first second)
    (two : Steady second third) : Steady first third where
  heap := two.heap.trans one.heap
  pages := two.pages.trans one.pages
  taskCount := two.taskCount.trans one.taskCount
  enabled := two.enabled.trans one.enabled
  active := fun pid => (two.active pid).trans (one.active pid)
  stackBase := fun pid => (two.stackBase pid).trans (one.stackBase pid)
  addrSpace := fun pid => (two.addrSpace pid).trans (one.addrSpace pid)

theorem Switched.trans {first second third : Kernel} (one : Switched first second)
    (two : Switched second third) : Switched first third where
  toSteady := one.toSteady.trans two.toSteady
  mailbox := fun pid => (two.mailbox pid).trans (one.mailbox pid)

/-- A part of the tasks that a replacement of one of them leaves alone. -/
theorem Kernel.setTask_eq_self {kernel : Kernel} {pid : Fin 16} {task : Task}
    (same : task = kernel.tasks pid) : kernel.setTask pid task = kernel := by
  rw [Kernel.setTask, same, Function.update_eq_self]

theorem Kernel.setTask_part {Value : Type} (part : Task → Value) (kernel : Kernel) (pid : Fin 16)
    {task : Task} (same : part task = part (kernel.tasks pid)) (other : Fin 16) :
    part ((kernel.setTask pid task).tasks other) = part (kernel.tasks other) := by
  by_cases here : other = pid
  · subst here
    rw [Kernel.setTask_self, same]
  · rw [Kernel.setTask_of_ne _ _ here]

theorem Steady.setTask (kernel : Kernel) (pid : Fin 16) {task : Task}
    (active : task.active = (kernel.tasks pid).active)
    (stackBase : task.stackBase = (kernel.tasks pid).stackBase)
    (addrSpace : task.addrSpace = (kernel.tasks pid).addrSpace) :
    Steady kernel (kernel.setTask pid task) where
  heap := rfl
  pages := rfl
  taskCount := rfl
  enabled := rfl
  active := kernel.setTask_part (·.active) pid active
  stackBase := kernel.setTask_part (·.stackBase) pid stackBase
  addrSpace := kernel.setTask_part (·.addrSpace) pid addrSpace

theorem Woken.switched {kernel : Kernel} {tasks : Fin 16 → Task}
    (woken : Woken kernel.tasks tasks) (next : Fin 16) :
    Switched kernel ({ kernel with tasks := tasks }.switchTo next) where
  heap := rfl
  pages := rfl
  taskCount := rfl
  enabled := rfl
  active := woken.active
  stackBase := woken.part (·.stackBase) fun _ _ => rfl
  addrSpace := woken.part (·.addrSpace) fun _ _ => rfl
  mailbox := woken.part (·.mailbox) fun _ _ => rfl

theorem Switched.timerTick (kernel : Kernel) : Switched kernel kernel.timerTick :=
  ⟨⟨rfl, rfl, rfl, rfl, fun _ => rfl, fun _ => rfl, fun _ => rfl⟩, fun _ => rfl⟩

theorem Switched.saveEsp (kernel : Kernel) (lastEsp : Word) :
    Switched kernel (kernel.saveEsp lastEsp) where
  toSteady := Steady.setTask kernel _ rfl rfl rfl
  mailbox := kernel.setTask_part (·.mailbox) _ rfl

/-- `schedule` switches to an active task, or halts when there is none. -/
theorem schedule_spec (lastEsp : Word) {kernel : Kernel}
    (enabled : kernel.multitaskingEnabled = true) :
    match schedule lastEsp kernel with
    | some (_, after) =>
        Switched kernel after ∧ (kernel.tasks after.currentTask).active = true
    | none => ∀ pid, (kernel.tasks pid).active = false := by
  have saved : Switched kernel (kernel.timerTick.saveEsp lastEsp) :=
    (Switched.timerTick kernel).trans (Switched.saveEsp kernel.timerTick lastEsp)
  obtain ⟨woken, elected⟩ := findNextTask_spec (kernel.timerTick.saveEsp lastEsp)
  unfold schedule
  rw [if_neg (show ¬(!kernel.timerTick.multitaskingEnabled) = true by
    simp only [Kernel.timerTick, enabled, Bool.not_true, Bool.false_eq_true, not_false_eq_true])]
  generalize kernel.timerTick.saveEsp lastEsp = interrupted at saved woken elected
  rcases election : findNextTask interrupted with ⟨_ | next, tasks⟩
  · simp only [election] at elected ⊢
    exact fun pid => (saved.active pid).symm.trans (elected pid)
  · simp only [election] at woken elected ⊢
    exact ⟨saved.trans (woken.switched next), (saved.active next).symm.trans elected⟩

theorem releaseTask_self (pid : Fin 16) (kernel : Kernel) :
    (releaseTask pid kernel).tasks pid =
      { kernel.tasks pid with
        active := false, sleeping := false, stackBase := 0, addrSpace := none } :=
  Function.update_self ..

theorem releaseTask_of_ne {pid other : Fin 16} (differ : other ≠ pid) (kernel : Kernel) :
    (releaseTask pid kernel).tasks other = kernel.tasks other :=
  Function.update_of_ne differ ..

/-- What creating a task does to the table: the entry it fills gets an empty mailbox. -/
structure Created (kernel : Kernel) (result : Option (Fin 16)) (after : Kernel) : Prop where
  enabled : after.multitaskingEnabled = kernel.multitaskingEnabled
  currentTask : after.currentTask = kernel.currentTask
  tasks : match result with
    | none => after.tasks = kernel.tasks
    | some pid => ∃ task, after.tasks = Function.update kernel.tasks pid task ∧
        task.mailbox = mailboxReset (kernel.tasks pid).mailbox

/-- The initial frame `create_task` pushes. -/
def kernelFrame (layout : Layout) (entry : Word) : List Word :=
  [layout.taskExit, 0x202, 0x08, entry, 0, 0, 0, 0, 0, 0, 0, 0]

/-- The initial frame `create_user_task_argv` pushes. -/
def UserTask.frame (task : UserTask) : List Word :=
  [0x23, task.userStackTop, 0x202, 0x1B, task.entry, 0, task.initEcx, 0, task.initEbx, 0, 0, 0, 0]

/-- A task was created: the lowest free entry of the table is filled, with a new stack. -/
theorem createTask_eq_some {layout : Layout} {entry name : Word} {kernel after : Kernel}
    {pid : Fin 16} (created : createTask layout entry name kernel = some (some pid, after)) :
    kernel.freePid = some pid ∧ ∃ stackAddress heap, after =
      installTask pid stackAddress (kernelFrame layout entry) name none
        { kernel with heap := heap } := by
  unfold createTask at created
  split at created
  · cases created
  · split at created
    · cases created
    · next free =>
        split at created
        · cases created
        · simp only at created
          split at created <;> cases created
          exact ⟨free, _, _, rfl⟩

/-- A user task was created: it has a new address space besides. -/
theorem createUserTaskArgv_eq_some {layout : Layout} {task : UserTask} {kernel after : Kernel}
    {pid : Fin 16} (created : createUserTaskArgv layout task kernel = some (some pid, after)) :
    kernel.freePid = some pid ∧ ∃ stackAddress heap space pages,
      pagingCreateTaskDirectoryEx layout task.codeBase task.codeSize
        (task.userStackTop - task.userStackSize) task.userStackSize kernel.pages =
          (some space, pages) ∧
      after = installTask pid stackAddress task.frame task.name (some space)
        { kernel with heap := heap, pages := pages } := by
  unfold createUserTaskArgv at created
  split at created
  · cases created
  · split at created
    · cases created
    · next free =>
        split at created
        · cases created
        · simp only at created
          split at created
          · cases created
          · split at created <;> cases created
            next directory => exact ⟨free, _, _, _, _, directory, rfl⟩

/-- A task was refused; at most the heap has changed. -/
theorem createTask_refused {layout : Layout} {entry name : Word} {kernel after : Kernel}
    (refused : createTask layout entry name kernel = some (none, after)) :
    ∃ heap, after = { kernel with heap := heap } := by
  unfold createTask at refused
  split at refused
  · cases refused
    exact ⟨_, rfl⟩
  · split at refused
    · cases refused
      exact ⟨_, rfl⟩
    · split at refused
      · cases refused
      · simp only at refused
        split at refused <;> cases refused
        exact ⟨_, rfl⟩

theorem createUserTaskArgv_refused {layout : Layout} {task : UserTask} {kernel after : Kernel}
    (refused : createUserTaskArgv layout task kernel = some (none, after)) :
    ∃ heap, after = { kernel with heap := heap } := by
  unfold createUserTaskArgv at refused
  split at refused
  · cases refused
    exact ⟨_, rfl⟩
  · split at refused
    · cases refused
      exact ⟨_, rfl⟩
    · split at refused
      · cases refused
      · simp only at refused
        split at refused
        · cases refused
          exact ⟨_, rfl⟩
        · split at refused <;> cases refused
          next directory =>
            obtain rfl := pagingCreateTaskDirectoryEx_none directory
            exact ⟨_, rfl⟩

theorem createTask_created {layout : Layout} {entry name : Word} {kernel after : Kernel}
    {result : Option (Fin 16)}
    (created : createTask layout entry name kernel = some (result, after)) :
    Created kernel result after := by
  cases result with
  | none =>
      obtain ⟨heap, rfl⟩ := createTask_refused created
      exact ⟨rfl, rfl, rfl⟩
  | some pid =>
      obtain ⟨_, stackAddress, heap, rfl⟩ := createTask_eq_some created
      exact ⟨rfl, rfl, _, rfl, rfl⟩

theorem createUserTaskArgv_created {layout : Layout} {task : UserTask} {kernel after : Kernel}
    {result : Option (Fin 16)}
    (created : createUserTaskArgv layout task kernel = some (result, after)) :
    Created kernel result after := by
  cases result with
  | none =>
      obtain ⟨heap, rfl⟩ := createUserTaskArgv_refused created
      exact ⟨rfl, rfl, rfl⟩
  | some pid =>
      obtain ⟨_, stackAddress, heap, space, pages, _, rfl⟩ := createUserTaskArgv_eq_some created
      exact ⟨rfl, rfl, _, rfl, rfl⟩

theorem installTask_self (pid : Fin 16) (stackAddress : Word) (frame : List Word) (name : Word)
    (space : Option (Fin 6)) (kernel : Kernel) :
    (installTask pid stackAddress frame name space kernel).tasks pid =
      { esp := (frame.foldl push (stackAddress + taskStackSize, kernel.heap.memory)).1
        stackBase := stackAddress + taskStackSize - taskStackSize
        active := true
        name := name
        sleeping := false
        wakeTick := 0
        addrSpace := space
        mailbox := mailboxReset (kernel.tasks pid).mailbox
        priority := 0 } :=
  Function.update_self ..

theorem installTask_of_ne {pid other : Fin 16} (differ : other ≠ pid) (stackAddress : Word)
    (frame : List Word) (name : Word) (space : Option (Fin 6)) (kernel : Kernel) :
    (installTask pid stackAddress frame name space kernel).tasks other = kernel.tasks other :=
  Function.update_of_ne differ ..

theorem freePid_inactive {kernel : Kernel} {pid : Fin 16} (free : kernel.freePid = some pid) :
    (kernel.tasks pid).active = false := by
  simpa using List.find?_some free

theorem Kernel.activePid_eq_some {kernel : Kernel} {target : Int} {pid : Fin 16} :
    kernel.activePid target = some pid ↔
      target = pid.val ∧ (kernel.tasks pid).active = true := by
  unfold Kernel.activePid
  constructor
  · intro found
    split at found
    · next valid =>
        obtain ⟨positive, small, active⟩ := valid
        obtain rfl := Option.some.inj found
        refine ⟨?_, active⟩
        simp only [maxTasks] at small
        rw [Fin.val_ofNat, Nat.mod_eq_of_lt (by omega), Int.toNat_of_nonneg positive]
    · exact absurd found.symm (Option.some_ne_none pid)
  · rintro ⟨rfl, active⟩
    have same : Fin.ofNat 16 (pid.val : Int).toNat = pid := by
      rw [Int.toNat_natCast, Fin.ofNat_eq_cast, Fin.cast_val_eq_self]
    have small := pid.isLt
    rw [same, if_pos ⟨by omega, by simp only [maxTasks]; omega, active⟩]

/-! ### One operation

Whatever the operation, one of three things happens to the table of tasks: it stays as it is,
one of its tasks ends, or a free entry is filled. -/

theorem schedule_switched {lastEsp esp : Word} {kernel after : Kernel}
    (scheduled : schedule lastEsp kernel = some (esp, after)) : Switched kernel after := by
  by_cases enabled : kernel.multitaskingEnabled = true
  · have spec := schedule_spec lastEsp enabled
    rw [scheduled] at spec
    exact spec.1
  · unfold schedule at scheduled
    rw [if_pos (show (!kernel.timerTick.multitaskingEnabled) = true by
      simpa [Kernel.timerTick] using enabled)] at scheduled
    cases scheduled
    exact Switched.timerTick kernel

/-- The same tasks are active, in the same address spaces. -/
structure Unmoved (before after : Kernel) : Prop where
  pages : after.pages = before.pages
  active : ∀ pid, (after.tasks pid).active = (before.tasks pid).active
  addrSpace : ∀ pid, (after.tasks pid).addrSpace = (before.tasks pid).addrSpace

theorem Steady.unmoved {before after : Kernel} (steady : Steady before after) :
    Unmoved before after := ⟨steady.pages, steady.active, steady.addrSpace⟩

/-- A free entry of the table was filled, with an address space that was not in use if any. -/
structure Entered (kernel : Kernel) (pid : Fin 16) (space : Option (Fin 6)) (after : Kernel) :
    Prop where
  free : kernel.freePid = some pid
  active : (after.tasks pid).active = true
  addrSpace : (after.tasks pid).addrSpace = space
  others : ∀ other, other ≠ pid → after.tasks other = kernel.tasks other
  unused : ∀ fresh, space = some fresh → kernel.pages.taskDirUsed fresh = false
  used : ∀ other, after.pages.taskDirUsed other = true ↔
    kernel.pages.taskDirUsed other = true ∨ space = some other
  tables : ∀ other, space ≠ some other →
    after.pages.taskTables other = kernel.pages.taskTables other
  directories : ∀ other, space ≠ some other →
    after.pages.taskDirectories other = kernel.pages.taskDirectories other

theorem createTask_entered {layout : Layout} {entry name : Word} {kernel after : Kernel}
    {pid : Fin 16} (created : createTask layout entry name kernel = some (some pid, after)) :
    Entered kernel pid none after := by
  obtain ⟨free, stackAddress, heap, rfl⟩ := createTask_eq_some created
  exact
    { free := free
      active := congrArg Task.active (installTask_self ..)
      addrSpace := congrArg Task.addrSpace (installTask_self ..)
      others := fun _ differ => installTask_of_ne differ ..
      unused := fun _ same => (nomatch same)
      used := fun _ => ⟨Or.inl, fun used => used.resolve_right fun same => (nomatch same)⟩
      tables := fun _ _ => rfl
      directories := fun _ _ => rfl }

/-- The new address space has the table for the windows given. -/
theorem createUserTaskArgv_entered {layout : Layout} {task : UserTask} {kernel after : Kernel}
    {pid : Fin 16} (created : createUserTaskArgv layout task kernel = some (some pid, after)) :
    ∃ space, Entered kernel pid (some space) after ∧
      after.pages.taskTables space = fillIdentityTable layout
        (task.userStackTop - task.userStackSize)
        (task.userStackTop - task.userStackSize + task.userStackSize)
        task.codeBase (task.codeBase + task.codeSize) ∧
      after.pages.taskDirectories space = taskDirectory layout space := by
  obtain ⟨free, stackAddress, heap, space, pages, directory, rfl⟩ :=
    createUserTaskArgv_eq_some created
  obtain ⟨unused, rfl⟩ := pagingCreateTaskDirectoryEx_some directory
  refine ⟨space, ?_, Function.update_self .., Function.update_self ..⟩
  exact
    { free := free
      active := congrArg Task.active (installTask_self ..)
      addrSpace := congrArg Task.addrSpace (installTask_self ..)
      others := fun _ differ => installTask_of_ne differ ..
      unused := fun fresh same => Option.some.inj same ▸ unused
      used := taskDirUsed_update kernel.pages.taskDirUsed space
      tables := fun other differ =>
        Function.update_of_ne (fun same => differ (congrArg some same.symm)) ..
      directories := fun other differ =>
        Function.update_of_ne (fun same => differ (congrArg some same.symm)) .. }

theorem Entered.ofHeap {kernel after : Kernel} {heap : Heap} {pid : Fin 16}
    {space : Option (Fin 6)} (entered : Entered { kernel with heap := heap } pid space after) :
    Entered kernel pid space after :=
  ⟨entered.free, entered.active, entered.addrSpace, entered.others, entered.unused, entered.used,
    entered.tables, entered.directories⟩

theorem Unmoved.withHeap (kernel : Kernel) (heap : Heap) :
    Unmoved kernel { kernel with heap := heap } := ⟨rfl, fun _ => rfl, fun _ => rfl⟩

/-- The number of the task that an operation created. -/
def Outcome.createdPid : Outcome → Option (Fin 16)
  | .created pid => pid
  | _ => none

/-- What an operation does to the table of tasks. -/
inductive Change (kernel : Kernel) : Outcome → Kernel → Prop where
  | unmoved {outcome : Outcome} {after : Kernel} :
      outcome.createdPid = none → Unmoved kernel after → Change kernel outcome after
  | released {outcome : Outcome} {after : Kernel} (pid : Fin 16) :
      outcome.createdPid = none → (kernel.tasks pid).active = true →
      Unmoved (releaseTask pid kernel) after → Change kernel outcome after
  | entered {after : Kernel} (pid : Fin 16) (space : Option (Fin 6)) :
      Entered kernel pid space after → Change kernel (.created (some pid)) after

theorem taskExitCurrent_change {kernel : Kernel} {outcome : Outcome} {after : Kernel}
    (nothing : outcome.createdPid = none)
    (unmoved : Unmoved (taskExitCurrent kernel) after) : Change kernel outcome after := by
  unfold taskExitCurrent at unmoved
  split at unmoved
  · next active => exact .released kernel.currentTask nothing active unmoved
  · exact .unmoved nothing unmoved

theorem Op.change {layout : Layout} {op : Op} {kernel after : Kernel} {outcome : Outcome}
    (performed : op.perform layout kernel = some (outcome, after)) :
    Change kernel outcome after := by
  cases op with
  | createTask entry name =>
      obtain ⟨⟨_ | pid, created⟩, result, same⟩ := Option.map_eq_some_iff.mp performed
      · obtain ⟨rfl, rfl⟩ := Prod.mk.inj same
        obtain ⟨heap, rfl⟩ := createTask_refused result
        exact .unmoved rfl (.withHeap kernel heap)
      · obtain ⟨rfl, rfl⟩ := Prod.mk.inj same
        exact .entered pid none (createTask_entered result)
  | createUserTaskArgv task =>
      obtain ⟨⟨_ | pid, created⟩, result, same⟩ := Option.map_eq_some_iff.mp performed
      · obtain ⟨rfl, rfl⟩ := Prod.mk.inj same
        obtain ⟨heap, rfl⟩ := createUserTaskArgv_refused result
        exact .unmoved rfl (.withHeap kernel heap)
      · obtain ⟨rfl, rfl⟩ := Prod.mk.inj same
        obtain ⟨space, entered, _⟩ := createUserTaskArgv_entered result
        exact .entered pid (some space) entered
  | schedule lastEsp =>
      obtain ⟨⟨esp, scheduled⟩, result, same⟩ := Option.map_eq_some_iff.mp performed
      obtain ⟨rfl, rfl⟩ := Prod.mk.inj same
      exact .unmoved rfl (schedule_switched result).unmoved
  | sleepAndReschedule ms currentEsp =>
      obtain ⟨⟨esp, scheduled⟩, result, same⟩ := Option.map_eq_some_iff.mp performed
      obtain ⟨rfl, rfl⟩ := Prod.mk.inj same
      unfold taskSleepAndReschedule at result
      refine .unmoved rfl (Steady.unmoved ?_)
      exact Steady.trans (by exact Steady.setTask kernel _ rfl rfl rfl)
        (schedule_switched result).toSteady
  | exitCurrent =>
      obtain ⟨rfl, rfl⟩ := Prod.mk.inj (Option.some.inj performed)
      exact taskExitCurrent_change rfl
        ⟨rfl, fun _ => rfl, fun _ => rfl⟩
  | exitAndReschedule currentEsp =>
      obtain ⟨⟨esp, scheduled⟩, result, same⟩ := Option.map_eq_some_iff.mp performed
      obtain ⟨rfl, rfl⟩ := Prod.mk.inj same
      unfold taskExitAndReschedule at result
      simp only at result
      split at result
      · cases result
      · exact taskExitCurrent_change rfl
          (schedule_switched result).unmoved
  | kill target =>
      obtain ⟨rfl, rfl⟩ := Prod.mk.inj (Option.some.inj performed)
      split
      · exact .unmoved rfl ⟨rfl, fun _ => rfl, fun _ => rfl⟩
      · next pid found =>
          split
          · exact .unmoved rfl ⟨rfl, fun _ => rfl, fun _ => rfl⟩
          · exact .released pid rfl
              (Kernel.activePid_eq_some.mp found).2
              (Steady.unmoved (Steady.setTask _ pid rfl rfl rfl))
  | setPriority target priority =>
      obtain ⟨rfl, rfl⟩ := Prod.mk.inj (Option.some.inj performed)
      refine .unmoved rfl ?_
      unfold taskSetPriority
      split
      · exact ⟨rfl, fun _ => rfl, fun _ => rfl⟩
      · exact Steady.unmoved (Steady.setTask kernel _ rfl rfl rfl)
  | send target payload len =>
      obtain ⟨rfl, rfl⟩ := Prod.mk.inj (Option.some.inj performed)
      refine .unmoved rfl ?_
      split
      · exact ⟨rfl, fun _ => rfl, fun _ => rfl⟩
      · exact Steady.unmoved (Steady.setTask kernel _ rfl rfl rfl)
  | recv =>
      obtain ⟨rfl, rfl⟩ := Prod.mk.inj (Option.some.inj performed)
      exact .unmoved rfl
        (Steady.unmoved (Steady.setTask kernel _ rfl rfl rfl))

end MxOS.Sched
