import MxOS.Kernel.ExecArguments
import MxOS.Kernel.ExecIsolation
import MxOS.Kernel.StackFrames
import MxOS.Kernel.Syscall

/-! # Interrupts and the registers of a task

When an interrupt arrives the processor pushes where the task was, the stubs of
`timer_handler` and `syscall_handler` push the other registers with `pushal`, and the
stack pointer then stands for the whole context. The handler returns the stack pointer of
a task, which `popal` and `iret` turn into registers again.

From ring 3 the processor changes to the kernel stack that the TSS names. Within ring 0 it
pushes on the stack in use, and `iret` leaves the stack pointer behind the frame. The
segment registers of data are not saved by the stubs and are left out here.
-/

namespace MxOS.Processor

open ByteMemory Mem Paging Sched Syscall
open Exec (UserContext popalIret read_pushed PageMeets)

/-- The registers of a task, in either ring. -/
abbrev Context := UserContext

/-- The code segment selects the ring. -/
def ring3 (context : Context) : Bool := context.cs &&& 3 = 3

/-- `SEL_KERNEL_DATA` of `kernel/gdt.c`, the stack segment of ring 0. -/
def kernelData : Word := 0x10

/-! ### Saving and loading -/

/-- What the processor pushes, first to last. -/
def interruptFrame (context : Context) : List Word :=
  if ring3 context then [context.ss, context.esp, context.eflags, context.cs, context.eip]
  else [context.eflags, context.cs, context.eip]

/-- The stack that the frame is pushed on. -/
def interruptStack (esp0 : Word) (context : Context) : Word :=
  if ring3 context then esp0 else context.esp

/-- What `pushal` pushes when the stack pointer is the given one. -/
def pushal (esp : Word) (context : Context) : List Word :=
  [context.eax, context.ecx, context.edx, context.ebx, esp, context.ebp, context.esi, context.edi]

/-- The interrupt and the `pushal` of the handler: the stack pointer passed on, and memory. -/
def saveContext (esp0 : Word) (context : Context) (memory : Memory) : Word × Memory :=
  let entered := (interruptFrame context).foldl push (interruptStack esp0 context, memory)
  (pushal entered.1 context).foldl push entered

/-- The `popal` and the `iret` of the handler. -/
def loadContext (esp : Word) (memory : Memory) : Context :=
  let context := popalIret esp memory
  if ring3 context then context else { context with esp := esp + 44, ss := kernelData }

/-- The words of a saved context. -/
def frameWords (context : Context) : Nat := if ring3 context then 13 else 11

/-- The saved words, first to last. -/
def savedFrame (esp0 : Word) (context : Context) : List Word :=
  interruptFrame context ++
    pushal (interruptStack esp0 context - BitVec.ofNat 32 (4 * (interruptFrame context).length))
      context

theorem saveContext_eq (esp0 : Word) (context : Context) (memory : Memory) :
    saveContext esp0 context memory =
      (savedFrame esp0 context).foldl push (interruptStack esp0 context, memory) := by
  rw [saveContext, savedFrame, List.foldl_append, push_esp]

theorem savedFrame_length (esp0 : Word) (context : Context) :
    (savedFrame esp0 context).length = frameWords context := by
  unfold savedFrame interruptFrame frameWords
  split
  · rfl
  · rfl

/-- The context goes to the top of the interrupt stack. -/
theorem saveContext_esp (esp0 : Word) (context : Context) (memory : Memory) :
    (saveContext esp0 context memory).1 =
      interruptStack esp0 context - BitVec.ofNat 32 (4 * frameWords context) := by
  rw [saveContext_eq, push_esp, savedFrame_length]

theorem saveContext_eqOn {esp0 : Word} {context : Context} {low : Nat}
    (room : low + 4 * frameWords context ≤ (interruptStack esp0 context).toNat) (memory : Memory) :
    Set.EqOn (saveContext esp0 context memory).2 memory
      (region low (interruptStack esp0 context).toNat)ᶜ := by
  rw [saveContext_eq]
  exact push_eqOn _ _ _ (by rw [savedFrame_length]; exact room)

/-- Loading reads the words of the context and nothing else. -/
theorem loadContext_congr {esp : Word} {memory later : Memory} {context : Context}
    (loaded : loadContext esp memory = context)
    (same : Set.EqOn later memory (span esp (4 * frameWords context))) :
    loadContext esp later = context := by
  have word : ∀ index < frameWords context,
      later.read32 (esp + BitVec.ofNat 32 (4 * index)) =
        memory.read32 (esp + BitVec.ofNat 32 (4 * index)) := by
    intro index inside
    refine Memory.read32_congr (same.mono fun address member => ?_)
    have few : frameWords context ≤ 13 := by
      unfold frameWords
      split
      · exact Nat.le_refl _
      · exact Nat.le_of_lt_succ (by decide)
    rw [mem_span] at member ⊢
    bv_omega
  subst loaded
  have few : 11 ≤ frameWords (loadContext esp memory) := by
    unfold frameWords
    split
    · decide
    · exact Nat.le_refl _
  have ring : ring3 (popalIret esp later) = ring3 (popalIret esp memory) :=
    congrArg (fun cs : Word => decide (cs &&& 3 = 3)) (word 9 (by omega))
  unfold loadContext
  simp only [ring]
  split
  · next outer =>
      have more : frameWords (loadContext esp memory) = 13 := by
        simp only [loadContext, outer, ↓reduceIte, frameWords]
      rw [more] at word
      simp only [popalIret, word 0 (by decide), word 1 (by decide), word 2 (by decide),
        word 4 (by decide), word 5 (by decide), word 6 (by decide), word 7 (by decide),
        word 8 (by decide), word 9 (by decide), word 10 (by decide), word 11 (by decide),
        word 12 (by decide)]
  · simp only [popalIret, word 0 (by omega), word 1 (by omega), word 2 (by omega),
      word 4 (by omega), word 5 (by omega), word 6 (by omega), word 7 (by omega),
      word 8 (by omega), word 9 (by omega), word 10 (by omega)]

/-- A saved context is loaded again. -/
theorem loadContext_saveContext (esp0 : Word) {context : Context}
    (segment : ring3 context = false → context.ss = kernelData) (memory : Memory) :
    loadContext (saveContext esp0 context memory).1 (saveContext esp0 context memory).2 =
      context := by
  have short : (savedFrame esp0 context).length ≤ 2 ^ 29 := by
    rw [savedFrame_length, frameWords]
    split
    · decide
    · decide
  have word : ∀ index value, (savedFrame esp0 context).reverse[index]? = some value →
      (saveContext esp0 context memory).2.read32
        ((saveContext esp0 context memory).1 + BitVec.ofNat 32 (4 * index)) = value := by
    intro index value found
    rw [saveContext_eq]
    exact read_pushed short _ _ found
  have place := saveContext_esp esp0 context memory
  generalize saveContext esp0 context memory = saved at word place
  by_cases outer : ring3 context = true
  · have frame : savedFrame esp0 context = [context.ss, context.esp, context.eflags, context.cs,
        context.eip] ++ pushal (esp0 - 20) context := by
      simp only [savedFrame, interruptFrame, interruptStack, outer, ↓reduceIte]
      rfl
    rw [frame] at word
    have popped : popalIret saved.1 saved.2 = context := by
      simp only [popalIret, word 0 _ rfl, word 1 _ rfl, word 2 _ rfl, word 4 _ rfl, word 5 _ rfl,
        word 6 _ rfl, word 7 _ rfl, word 8 _ rfl, word 9 _ rfl, word 10 _ rfl, word 11 _ rfl,
        word 12 _ rfl]
    rw [loadContext, popped]
    exact if_pos outer
  · rw [Bool.not_eq_true] at outer
    have frame : savedFrame esp0 context = [context.eflags, context.cs, context.eip] ++
        pushal (context.esp - 12) context := by
      simp only [savedFrame, interruptFrame, interruptStack, outer, Bool.false_eq_true, ↓reduceIte]
      rfl
    have top : saved.1 + 44 = context.esp := by
      rw [place, interruptStack, frameWords, outer]
      simp only [Bool.false_eq_true, ↓reduceIte]
      bv_omega
    rw [frame] at word
    have inner : ring3 (popalIret saved.1 saved.2) = false :=
      (congrArg (fun cs : Word => decide (cs &&& 3 = 3)) (word 9 _ rfl)).trans outer
    rw [loadContext, inner, if_neg Bool.false_ne_true, top, ← segment outer]
    simp only [popalIret, word 0 _ rfl, word 1 _ rfl, word 2 _ rfl, word 4 _ rfl, word 5 _ rfl,
      word 6 _ rfl, word 7 _ rfl, word 8 _ rfl, word 9 _ rfl, word 10 _ rfl]

/-! ### The machine -/

/-- The Shell keeps the stack of `boot.asm`, which ends here. -/
def bootStackTop : Nat := 0x90000

/-- The layout with the lowest page that the stack of the Shell may grow to, behind the image. -/
structure MachineLayout extends Layout where
  bootStackLow : Nat
  pages : bootStackLow % 4096 = 0
  behind : roEnd.toNat ≤ bootStackLow
  room : bootStackLow + 44 ≤ bootStackTop

/-- The heap, with the stacks of the other tasks in it, and the stack of the Shell. -/
def protectedArea (layout : MachineLayout) : Set Word :=
  region heapBase (heapBase + heapLength) ∪ region layout.bootStackLow bootStackTop

/-- Where the kernel stack of a process number starts. -/
def stackLow (layout : MachineLayout) (pid : Fin 16) (task : Task) : Nat :=
  if pid = 0 then layout.bootStackLow else task.stackBase.toNat

/-- Where the kernel stack of a process number ends. -/
def stackTop (pid : Fin 16) (task : Task) : Nat :=
  if pid = 0 then bootStackTop else task.stackBase.toNat + taskStackSize.toNat

/-- The registers that a task may have: a ring-3 task is in ring 3 and a kernel task in ring 0,
with its stack pointer in its stack and room for an interrupt. -/
structure Fits (layout : MachineLayout) (pid : Fin 16) (task : Task) (context : Context) : Prop where
  ring : ring3 context = task.addrSpace.isSome
  segment : ring3 context = false → context.ss = kernelData
  room : ring3 context = false →
    stackLow layout pid task + 44 ≤ context.esp.toNat ∧ context.esp.toNat ≤ stackTop pid task

/-- The kernel and the registers of the processor. -/
structure Machine where
  kernel : Kernel
  context : Context

namespace Machine

variable (machine : Machine)

/-- The task that is running. -/
def running : Task := machine.kernel.tasks machine.kernel.currentTask

/-- The interrupt of the running task. -/
def interrupted : Word × Memory :=
  saveContext machine.kernel.esp0 machine.context machine.kernel.heap.memory

/-- Where the running task may write: ring 3 to the user pages, apart from the image it shares
with the kernel, ring 0 to its own stack and to memory that holds no stack. -/
def mayWrite (layout : MachineLayout) : Set Word :=
  match machine.kernel.cr3 with
  | .task space => {address | machine.kernel.pages.UserAccessible space address = true ∧
      ¬ PageMeets address layout.textStart.toNat layout.roEnd.toNat}
  | .kernel => region (stackLow layout machine.kernel.currentTask machine.running)
      (stackTop machine.kernel.currentTask machine.running) ∪ (protectedArea layout)ᶜ

end Machine

/-- What `struct registers` shows of a saved context. -/
def registersAt (esp : Word) (memory : Memory) : Registers where
  edi := memory.read32 esp
  esi := memory.read32 (esp + 4)
  ebp := memory.read32 (esp + 8)
  espDummy := memory.read32 (esp + 12)
  ebx := memory.read32 (esp + 16)
  edx := memory.read32 (esp + 20)
  ecx := memory.read32 (esp + 24)
  eax := memory.read32 (esp + 28)

/-- The running task executes instructions, it is interrupted by the keyboard, the timer or a
system call of its own, it goes to sleep, or it calls a function of the kernel. The C code of an
interrupt leaves what it will on the stack. The compiler makes `keyboard_handler` save the
registers it uses. -/
inductive Event where
  | execute (context : Context) (memory : Memory)
  | keyboard (scratch : Memory)
  | timer (scratch : Memory)
  | syscall (scratch : Memory)
  | sleep (ms : Word)
  | call (op : Op)

namespace Event

variable (layout : MachineLayout)

/-- The system call that the running task makes. -/
def dispatch (scratch : Memory) (machine : Machine) : Effect :=
  syscallDispatch machine.interrupted.1 (registersAt machine.interrupted.1 scratch)
    (setMemory scratch machine.kernel)

/-- The machine afterwards, unless it is halted. -/
def step : Event → Machine → Option Machine
  | .execute context memory, machine => some ⟨setMemory memory machine.kernel, context⟩
  | .keyboard scratch, machine => some ⟨setMemory scratch machine.kernel, machine.context⟩
  | .timer scratch, machine =>
      (schedule machine.interrupted.1 (setMemory scratch machine.kernel)).map fun (esp, after) =>
        ⟨after, loadContext esp after.heap.memory⟩
  | .syscall scratch, machine =>
      (dispatch scratch machine).resumed.map fun (esp, regs, after) =>
        let memory := after.heap.memory.write32 (machine.interrupted.1 + 28) regs.eax
        ⟨setMemory memory after, loadContext esp memory⟩
  | .sleep ms, machine => some ⟨taskSleep ms machine.kernel, machine.context⟩
  | .call op, machine =>
      (op.perform layout.toLayout machine.kernel).map fun (_, after) => ⟨after, machine.context⟩

/-- A window of a new task has no byte of a stack. -/
def Clear (base size : Word) : Prop :=
  base.toNat + size.toNat ≤ layout.bootStackLow ∨
    heapBase + heapLength ≤ base.toNat ∧ base.toNat + size.toNat < 2 ^ 32

/-- The functions that the Shell calls. -/
def Callable : Op → Prop
  | .createUserTaskArgv task => Clear layout task.codeBase task.codeSize ∧
      Clear layout (task.userStackTop - task.userStackSize) task.userStackSize
  | .schedule _ | .sleepAndReschedule .. | .exitCurrent | .exitAndReschedule _ => False
  | _ => True

/-- The C code of an interrupt works on the stack below what is saved there. -/
def Below (top : Word) (scratch memory : Memory) (machine : Machine) : Prop :=
  Set.EqOn scratch memory
    (region (stackLow layout machine.kernel.currentTask machine.running) top.toNat)ᶜ

/-- When an event can happen. Ring-0 code calls the kernel without system calls, and what a system
call stores goes where the task may write. -/
def Allowed : Event → Machine → Prop
  | .execute context memory, machine =>
      Fits layout machine.kernel.currentTask machine.running context ∧
        Set.EqOn memory machine.kernel.heap.memory (machine.mayWrite layout)ᶜ
  | .keyboard scratch, machine =>
      Below layout (interruptStack machine.kernel.esp0 machine.context) scratch
        machine.kernel.heap.memory machine
  | .timer scratch, machine =>
      Below layout machine.interrupted.1 scratch machine.interrupted.2 machine
  | .syscall scratch, machine =>
      Below layout machine.interrupted.1 scratch machine.interrupted.2 machine ∧
        ring3 machine.context = true ∧
        (machine.context.eax = sysRecv →
          ∀ address ∈ (dispatch scratch machine).accesses, address ∈ machine.mayWrite layout)
  | .sleep _, _ => True
  | .call op, machine => machine.kernel.currentTask = 0 ∧ Callable layout op

end Event

/-! ### Registers of tasks -/

/-- The registers a ring-3 task starts with. -/
def userContext (task : UserTask) : Context where
  edi := 0
  esi := 0
  ebp := 0
  ebx := task.initEbx
  edx := 0
  ecx := task.initEcx
  eax := 0
  eip := task.entry
  cs := 0x1B
  eflags := 0x202
  esp := task.userStackTop
  ss := 0x23

/-- The registers a kernel task starts with. Its stack holds the address of `task_exit`. -/
def kernelContext (entry stackBase : Word) : Context where
  edi := 0
  esi := 0
  ebp := 0
  ebx := 0
  edx := 0
  ecx := 0
  eax := 0
  eip := entry
  cs := 0x08
  eflags := 0x202
  esp := stackBase + taskStackSize - 4
  ss := kernelData

/-- Every task has registers of its own: its instructions change them, a system call may leave
its result in one, and a new task starts with fresh ones. Nothing else happens to them. -/
def Event.registers (event : Event) (layout : MachineLayout) (machine : Machine)
    (registers : Fin 16 → Context) : Fin 16 → Context :=
  let current := machine.kernel.currentTask
  match event with
  | .execute context _ => Function.update registers current context
  | .syscall scratch =>
      match (dispatch scratch machine).resumed with
      | some (_, regs, _) =>
          Function.update registers current { registers current with eax := regs.eax }
      | none => registers
  | .call op =>
      match op, op.perform layout.toLayout machine.kernel with
      | .createTask entry _, some (.created (some pid), after) =>
          Function.update registers pid (kernelContext entry (after.tasks pid).stackBase)
      | .createUserTaskArgv task, some (.created (some pid), _) =>
          Function.update registers pid (userContext task)
      | _, _ => registers
  | _ => registers

/-- The machine from the start of the scheduler on, with the registers that each task has. -/
inductive Traced (layout : MachineLayout) : Machine → (Fin 16 → Context) → Prop where
  | start (memory : Memory) (frequency : Word) (context : Context) :
      Fits layout 0 ((initMultitasking layout.toLayout (booted memory frequency)).tasks 0) context →
      Traced layout ⟨initMultitasking layout.toLayout (booted memory frequency), context⟩
        fun _ => context
  | step {machine after : Machine} {registers : Fin 16 → Context} (event : Event) :
      Traced layout machine registers → event.Allowed layout machine →
      event.step layout machine = some after →
      Traced layout after (event.registers layout machine registers)

end MxOS.Processor
