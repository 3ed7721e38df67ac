import MxOS.Kernel.Mailbox
import MxOS.Kernel.Mem
import MxOS.Kernel.Paging

/-! # Tasks

`kernel/sched.c`: the task table, creation and termination of tasks, election and the
two mailbox operations. A task's address space is `none` for the code's -1, and a
function that may halt the machine returns an `Option`.
-/

namespace MxOS.Sched

open ByteMemory Mem Paging Ipc

abbrev maxTasks : Nat := 16

instance maxTasksNeZero : NeZero 16 := ⟨by decide⟩

abbrev taskStackSize : Word := 4096

structure Task where
  esp : Word
  stackBase : Word
  active : Bool
  name : Word
  sleeping : Bool
  wakeTick : Word
  addrSpace : Option (Fin 6)
  mailbox : Mailbox
  priority : Int

/-- The static variables of the scheduler with the heap, the page tables, the timer and the
two processor registers it sets. -/
structure Kernel where
  heap : Heap
  pages : Pages
  cr3 : PageDirectory
  esp0 : Word
  ticks : Word
  frequency : Word
  tasks : Fin 16 → Task
  currentTask : Fin 16
  multitaskingEnabled : Bool
  taskCount : Nat

def Kernel.setTask (kernel : Kernel) (pid : Fin 16) (task : Task) : Kernel :=
  { kernel with tasks := Function.update kernel.tasks pid task }

/-! ### Election -/

/-- The variables of the first loop of `find_next_task`. -/
structure Election where
  next : Option (Fin 16)
  bestPriority : Int
  tasks : Fin 16 → Task

/-- One iteration: an inactive task and one that sleeps on are skipped, one whose time has come
is woken. -/
def elect (ticks : Word) (election : Election) (candidate : Fin 16) : Election :=
  let task := election.tasks candidate
  if !task.active then election
  else if task.sleeping ∧ ticks < task.wakeTick then election
  else
    let election :=
      { election with
        tasks := Function.update election.tasks candidate { task with sleeping := false } }
    if task.priority > election.bestPriority then
      { election with next := some candidate, bestPriority := task.priority }
    else election

def findNextTask (kernel : Kernel) : Option (Fin 16) × (Fin 16 → Task) :=
  let candidates := (List.range maxTasks).map fun index =>
    Fin.ofNat 16 (kernel.currentTask.val + (index + 1))
  let election := candidates.foldl (elect kernel.ticks) ⟨none, -1, kernel.tasks⟩
  match election.next with
  | some next => (some next, election.tasks)
  | none => ((List.finRange maxTasks).find? fun pid => (election.tasks pid).active, election.tasks)

def Kernel.timerTick (kernel : Kernel) : Kernel := { kernel with ticks := kernel.ticks + 1 }

/-- The interrupted task is to resume from the stack pointer given. -/
def Kernel.saveEsp (lastEsp : Word) (kernel : Kernel) : Kernel :=
  kernel.setTask kernel.currentTask { kernel.tasks kernel.currentTask with esp := lastEsp }

/-- The elected task becomes the current one, with its kernel stack and address space. -/
def Kernel.switchTo (next : Fin 16) (kernel : Kernel) : Kernel :=
  { kernel with
    currentTask := next
    esp0 := (kernel.tasks next).stackBase + taskStackSize
    cr3 :=
      match (kernel.tasks next).addrSpace with
      | some space => .task space
      | none => .kernel }

/-- The stack pointer to resume with; `none` when the machine is halted. -/
def schedule (lastEsp : Word) (kernel : Kernel) : Option (Word × Kernel) :=
  let kernel := kernel.timerTick
  if !kernel.multitaskingEnabled then some (lastEsp, kernel)
  else
    let kernel := kernel.saveEsp lastEsp
    match findNextTask kernel with
    | (none, _) => none
    | (some next, tasks) => some ((tasks next).esp, { kernel with tasks := tasks }.switchTo next)

/-! ### Termination -/

/-- The block of code that ends a task, the same in its three places. -/
def releaseTask (pid : Fin 16) (kernel : Kernel) : Kernel :=
  let task := kernel.tasks pid
  { kernel with
    tasks := Function.update kernel.tasks pid
      { task with active := false, sleeping := false, stackBase := 0, addrSpace := none }
    taskCount := kernel.taskCount - 1
    heap := if task.stackBase ≠ 0 then kfree task.stackBase kernel.heap else kernel.heap
    pages :=
      match task.addrSpace with
      | some space => pagingFreeTaskDirectory space kernel.pages
      | none => kernel.pages }

/-- The task then waits for an interrupt that does not come back to it. -/
def taskExitCurrent (kernel : Kernel) : Kernel :=
  if (kernel.tasks kernel.currentTask).active then releaseTask kernel.currentTask kernel
  else kernel

def taskExitAndReschedule (currentEsp : Word) (kernel : Kernel) : Option (Word × Kernel) :=
  let kernel := taskExitCurrent kernel
  if kernel.taskCount = 0 then none else schedule currentEsp kernel

def taskSleepAndReschedule (ms currentEsp : Word) (kernel : Kernel) : Option (Word × Kernel) :=
  let ticksToWait := (ms * kernel.frequency) / 1000
  let ticksToWait := if ticksToWait = 0 then 1 else ticksToWait
  schedule currentEsp
    (kernel.setTask kernel.currentTask
      { kernel.tasks kernel.currentTask with
        wakeTick := kernel.ticks + ticksToWait
        sleeping := true })

/-- The task then waits for interrupts until it is no longer sleeping. -/
def taskSleep (ms : Word) (kernel : Kernel) : Kernel :=
  let ticksToWait := (ms * kernel.frequency) / 1000
  let ticksToWait := if ticksToWait = 0 then 1 else ticksToWait
  kernel.setTask kernel.currentTask
    { kernel.tasks kernel.currentTask with
      wakeTick := kernel.ticks + ticksToWait
      sleeping := true }

/-- The task a process number names, if it is in range and active. -/
def Kernel.activePid (kernel : Kernel) (pid : Int) : Option (Fin 16) :=
  if 0 ≤ pid ∧ pid < maxTasks ∧ (kernel.tasks (Fin.ofNat 16 pid.toNat)).active then
    some (Fin.ofNat 16 pid.toNat)
  else none

def Kernel.resetMailbox (kernel : Kernel) (pid : Fin 16) : Kernel :=
  kernel.setTask pid
    { kernel.tasks pid with mailbox := mailboxReset (kernel.tasks pid).mailbox }

def taskKill (pid : Int) (kernel : Kernel) : Bool × Kernel :=
  match kernel.activePid pid with
  | none => (false, kernel)
  | some pid =>
      if pid = kernel.currentTask then (false, kernel)
      else (true, (releaseTask pid kernel).resetMailbox pid)

def taskSetPriority (pid priority : Int) (kernel : Kernel) : Kernel :=
  match kernel.activePid pid with
  | none => kernel
  | some pid => kernel.setTask pid { kernel.tasks pid with priority := priority }

/-! ### Creation -/

/-- The assignment `*(--stack) = value`. -/
def push (stack : Word × Memory) (value : Word) : Word × Memory :=
  (stack.1 - 4, stack.2.write32 (stack.1 - 4) value)

/-- The common end of the creating functions: the initial frame is pushed on the new stack and
the table entry filled. -/
def installTask (pid : Fin 16) (stackAddress : Word) (frame : List Word) (name : Word)
    (space : Option (Fin 6)) (kernel : Kernel) : Kernel :=
  let stack := frame.foldl push (stackAddress + taskStackSize, kernel.heap.memory)
  { kernel with
    heap := { kernel.heap with memory := stack.2 }
    tasks := Function.update kernel.tasks pid
      { esp := stack.1
        stackBase := stackAddress + taskStackSize - taskStackSize
        active := true
        name := name
        sleeping := false
        wakeTick := 0
        addrSpace := space
        mailbox := mailboxReset (kernel.tasks pid).mailbox
        priority := 0 }
    taskCount := kernel.taskCount + 1 }

def Kernel.freePid (kernel : Kernel) : Option (Fin 16) :=
  (List.finRange maxTasks).find? fun pid => !(kernel.tasks pid).active

/-- The new process number, or `none` inside for the result -1. The outer `none` stands for an
endless walk over a heap that is not well formed. -/
def createTask (layout : Layout) (entry name : Word) (kernel : Kernel) :
    Option (Option (Fin 16) × Kernel) :=
  if kernel.taskCount ≥ maxTasks then some (none, kernel)
  else
    match kernel.freePid with
    | none => some (none, kernel)
    | some pid =>
        match kmalloc taskStackSize kernel.heap with
        | none => none
        | some (stackAddress, heap) =>
            let kernel := { kernel with heap := heap }
            if stackAddress = 0 then some (none, kernel)
            else
              let frame := [layout.taskExit, 0x202, 0x08, entry, 0, 0, 0, 0, 0, 0, 0, 0]
              some (some pid, installTask pid stackAddress frame name none kernel)

/-- The arguments of `create_user_task_argv`. -/
structure UserTask where
  entry : Word
  name : Word
  userStackTop : Word
  userStackSize : Word
  codeBase : Word
  codeSize : Word
  initEbx : Word
  initEcx : Word

def createUserTaskArgv (layout : Layout) (task : UserTask) (kernel : Kernel) :
    Option (Option (Fin 16) × Kernel) :=
  if kernel.taskCount ≥ maxTasks then some (none, kernel)
  else
    match kernel.freePid with
    | none => some (none, kernel)
    | some pid =>
        match kmalloc taskStackSize kernel.heap with
        | none => none
        | some (stackAddress, heap) =>
            let kernel := { kernel with heap := heap }
            if stackAddress = 0 then some (none, kernel)
            else
              match pagingCreateTaskDirectoryEx layout task.codeBase task.codeSize
                (task.userStackTop - task.userStackSize) task.userStackSize kernel.pages with
              | (none, pages) =>
                  some (none,
                    { kernel with heap := kfree stackAddress kernel.heap, pages := pages })
              | (some space, pages) =>
                  let frame := [0x23, task.userStackTop, 0x202, 0x1B, task.entry,
                    0, task.initEcx, 0, task.initEbx, 0, 0, 0, 0]
                  some (some pid, installTask pid stackAddress frame task.name (some space)
                    { kernel with pages := pages })

def createUserTaskEx (layout : Layout)
    (entry name userStackTop userStackSize codeBase codeSize : Word) (kernel : Kernel) :
    Option (Option (Fin 16) × Kernel) :=
  createUserTaskArgv layout
    ⟨entry, name, userStackTop, userStackSize, codeBase, codeSize, 0, 0⟩ kernel

def createUserTask (layout : Layout) (entry name userStackTop userStackSize : Word)
    (kernel : Kernel) : Option (Option (Fin 16) × Kernel) :=
  createUserTaskEx layout entry name userStackTop userStackSize 0 0 kernel

/-! ### Messages -/

section Messages

variable {Memory : Type}

def ipcSend (load : Nat → Memory → Byte × Memory) (targetPid : Int) (len : Word)
    (kernel : Kernel) (memory : Memory) : Int × Kernel × Memory :=
  match kernel.activePid targetPid with
  | none => (-1, kernel, memory)
  | some pid =>
      let (result, mailbox, memory) :=
        (kernel.tasks pid).mailbox.deposit load len kernel.currentTask.val memory
      (result, kernel.setTask pid { kernel.tasks pid with mailbox := mailbox }, memory)

def ipcRecv (store : Nat → Byte → Memory → Memory) (kernel : Kernel) (memory : Memory) :
    Option (Word × Int) × Kernel × Memory :=
  let self := kernel.tasks kernel.currentTask
  let (result, mailbox, memory) := self.mailbox.withdraw store memory
  (result, kernel.setTask kernel.currentTask { self with mailbox := mailbox }, memory)

end Messages

/-! ### Start -/

/-- A table entry before the scheduler is started: static memory is zero. -/
def Task.zero : Task where
  esp := 0
  stackBase := 0
  active := false
  name := 0
  sleeping := false
  wakeTick := 0
  addrSpace := some 0
  mailbox := ⟨fun _ _ => 0, fun _ => 0, fun _ => 0, 0, 0⟩
  priority := 0

def initMultitasking (layout : Layout) (kernel : Kernel) : Kernel :=
  let cleared := fun pid =>
    { kernel.tasks pid with
      active := false
      sleeping := false
      wakeTick := 0
      addrSpace := none
      priority := 0
      mailbox := mailboxReset (kernel.tasks pid).mailbox }
  { kernel with
    tasks := Function.update cleared 0
      { cleared 0 with name := layout.shellName, active := true, priority := 0 }
    taskCount := 1
    currentTask := 0
    multitaskingEnabled := true }

/-- The machine when the heap has just been set up. Memory holds anything, static variables
are zero and no address space is used. -/
def booted (memory : Memory) (frequency : Word) : Kernel where
  heap := heapInit 0x100000 0x100000 memory
  pages := ⟨fun _ _ => 0, fun _ _ => 0, fun _ => false⟩
  cr3 := .kernel
  esp0 := 0
  ticks := 0
  frequency := frequency
  tasks := fun _ => Task.zero
  currentTask := 0
  multitaskingEnabled := false
  taskCount := 0

/-! ### Operations -/

/-- The operations on the task table, each executed as a whole. A sender passes the bytes of
its message. -/
inductive Op where
  | createTask (entry name : Word)
  | createUserTaskArgv (task : UserTask)
  | schedule (lastEsp : Word)
  | sleepAndReschedule (ms currentEsp : Word)
  | exitCurrent
  | exitAndReschedule (currentEsp : Word)
  | kill (pid : Int)
  | setPriority (pid priority : Int)
  | send (targetPid : Int) (payload : Nat → Byte) (len : Word)
  | recv

/-- What an operation returns. -/
inductive Outcome where
  | nothing
  | resumed (esp : Word)
  | created (pid : Option (Fin 16))
  | killed (ok : Bool)
  | sent (result : Int)
  | received (message : Option Message)

/-- The operation's outcome and the state afterwards; `none` when the machine is halted. -/
def Op.perform (layout : Layout) : Op → Kernel → Option (Outcome × Kernel)
  | .createTask entry name, kernel =>
      (Sched.createTask layout entry name kernel).map fun (pid, after) => (.created pid, after)
  | .createUserTaskArgv task, kernel =>
      (Sched.createUserTaskArgv layout task kernel).map fun (pid, after) => (.created pid, after)
  | .schedule lastEsp, kernel =>
      (Sched.schedule lastEsp kernel).map fun (esp, after) => (.resumed esp, after)
  | .sleepAndReschedule ms currentEsp, kernel =>
      (taskSleepAndReschedule ms currentEsp kernel).map fun (esp, after) => (.resumed esp, after)
  | .exitCurrent, kernel => some (.nothing, taskExitCurrent kernel)
  | .exitAndReschedule currentEsp, kernel =>
      (taskExitAndReschedule currentEsp kernel).map fun (esp, after) => (.resumed esp, after)
  | .kill pid, kernel =>
      let (ok, after) := taskKill pid kernel
      some (.killed ok, after)
  | .setPriority pid priority, kernel => some (.nothing, taskSetPriority pid priority kernel)
  | .send targetPid payload len, kernel =>
      let (result, after, _) := ipcSend (supply payload) targetPid len kernel ()
      some (.sent result, after)
  | .recv, kernel =>
      let (result, after, buffer) := ipcRecv fill kernel fun _ => 0
      some (.received (result.map fun (len, sender) => Message.ofBuffer buffer len sender), after)

end MxOS.Sched
