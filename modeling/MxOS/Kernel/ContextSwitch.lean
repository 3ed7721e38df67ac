import MxOS.Kernel.Processor

/-! # Tasks keep their registers

The kernel has one processor and one memory for all tasks. `Traced` gives every task
registers of its own, which only its own instructions and system calls change. The two
agree: the processor holds the registers of the running task, and the registers of every
other task are the context saved on its kernel stack.

Between interrupts this is `Sound`. Inside an interrupt the running task is saved like the
others, which is `Paused`, and `schedule` leads from there to `Sound` again.
-/

namespace MxOS.Processor

open ByteMemory Mem Paging Sched Syscall
open Exec (UserContext popalIret read_pushed PageMeets)

/-! ### Stacks -/

/-- The bytes of the kernel stack of a process number. -/
def stackOf (layout : MachineLayout) (pid : Fin 16) (task : Task) : Set Word :=
  region (stackLow layout pid task) (stackTop pid task)

section Stacks

variable {layout : MachineLayout} {kernel : Kernel} {pid : Fin 16}

theorem stackLow_congr {task other : Task} (same : other.stackBase = task.stackBase) :
    stackLow layout pid other = stackLow layout pid task := by
  rw [stackLow, stackLow, same]

theorem stackTop_congr {task other : Task} (same : other.stackBase = task.stackBase) :
    stackTop pid other = stackTop pid task := by
  rw [stackTop, stackTop, same]

theorem stackOf_shell (layout : MachineLayout) (task : Task) :
    stackOf layout 0 task = region layout.bootStackLow bootStackTop := rfl

theorem stackOf_task (layout : MachineLayout) (notShell : pid ≠ 0) (task : Task) :
    stackOf layout pid task = kernelStack task := by
  rw [stackOf, stackLow, stackTop, if_neg notShell, if_neg notShell, kernelStack]

theorem boot_disjoint_heap (layout : MachineLayout) :
    Disjoint (region layout.bootStackLow bootStackTop)
      (region heapBase (heapBase + heapLength)) := by
  refine Set.disjoint_left.mpr ?_
  rintro address ⟨_, upper⟩ ⟨lower, _⟩
  simp only [bootStackTop, heapBase] at upper lower
  omega

theorem stackTop_le (owned : Owned kernel) (cellular : Cellular kernel.heap)
    (active : (kernel.tasks pid).active = true) :
    stackTop pid (kernel.tasks pid) ≤ heapBase + heapLength := by
  obtain ⟨live, blocks, stacked⟩ := cellular
  unfold stackTop
  split
  · decide
  · next notShell =>
      have bounds := (BlockList.live_bounds (owned.stack_live stacked notShell active)).2
      rwa [stacked.represents.total] at bounds

theorem stackOf_protected (owned : Owned kernel) (cellular : Cellular kernel.heap)
    (active : (kernel.tasks pid).active = true) :
    stackOf layout pid (kernel.tasks pid) ⊆ protectedArea layout := by
  obtain ⟨live, blocks, stacked⟩ := cellular
  by_cases shell : pid = 0
  · subst shell
    exact Set.subset_union_right
  · rw [stackOf_task layout shell]
    exact (owned.kernelStack_heap stacked shell active).trans Set.subset_union_left

theorem stackOf_disjoint (owned : Owned kernel) (cellular : Cellular kernel.heap)
    {first second : Fin 16} (firstActive : (kernel.tasks first).active = true)
    (secondActive : (kernel.tasks second).active = true) (differ : first ≠ second) :
    Disjoint (stackOf layout first (kernel.tasks first))
      (stackOf layout second (kernel.tasks second)) := by
  obtain ⟨live, blocks, stacked⟩ := cellular
  by_cases one : first = 0
  · subst one
    rw [stackOf_shell, stackOf_task layout (Ne.symm differ)]
    exact (boot_disjoint_heap layout).mono_right
      (owned.kernelStack_heap stacked (Ne.symm differ) secondActive)
  · by_cases two : second = 0
    · subst two
      rw [stackOf_shell, stackOf_task layout one]
      exact ((boot_disjoint_heap layout).mono_right
        (owned.kernelStack_heap stacked one firstActive)).symm
    · rw [stackOf_task layout one, stackOf_task layout two]
      exact owned.kernelStack_disjoint stacked one two firstActive secondActive differ

/-- What holds no stack of the task is not in the rest of the heap either. -/
theorem heapRest_disjoint_stackOf (active : (kernel.tasks pid).active = true) :
    Disjoint (heapRest kernel) (stackOf layout pid (kernel.tasks pid)) := by
  by_cases shell : pid = 0
  · subst shell
    exact ((boot_disjoint_heap layout).mono_right fun _ member => member.1).symm
  · rw [stackOf_task layout shell]
    exact Set.disjoint_left.mpr fun _ member => member.2 pid shell active

theorem heapRest_protected (kernel : Kernel) : heapRest kernel ⊆ protectedArea layout :=
  fun _ member => Or.inl member.1

end Stacks

/-! ### Saved contexts -/

/-- The context is saved on the stack of the task, where the stack pointer says. -/
structure Saved (layout : MachineLayout) (pid : Fin 16) (task : Task) (esp : Word)
    (memory : Memory) (context : Context) : Prop where
  loads : loadContext esp memory = context
  low : stackLow layout pid task ≤ esp.toNat
  top : esp.toNat + 4 * frameWords context ≤ stackTop pid task

theorem Saved.congr {layout : MachineLayout} {pid : Fin 16} {task other : Task} {esp : Word}
    {memory later : Memory} {context : Context} (saved : Saved layout pid task esp memory context)
    (stackBase : other.stackBase = task.stackBase) (bounded : stackTop pid task ≤ 2 ^ 32)
    (same : Set.EqOn later memory (region esp.toNat (stackTop pid task))) :
    Saved layout pid other esp later context where
  loads := by
    refine loadContext_congr saved.loads (same.mono fun address member => ?_)
    have top := saved.top
    rw [mem_span_iff (by omega)] at member
    exact ⟨member.1, by omega⟩
  low := by
    rw [stackLow_congr stackBase]
    exact saved.low
  top := by
    rw [stackTop_congr stackBase]
    exact saved.top

theorem Saved.frame {layout : MachineLayout} {pid : Fin 16} {task other : Task} {esp : Word}
    {memory later : Memory} {context : Context} (saved : Saved layout pid task esp memory context)
    (stackBase : other.stackBase = task.stackBase) (bounded : stackTop pid task ≤ 2 ^ 32)
    (same : Set.EqOn later memory (stackOf layout pid task)) :
    Saved layout pid other esp later context := by
  refine saved.congr stackBase bounded (same.mono ?_)
  rintro address ⟨lower, upper⟩
  exact ⟨saved.low.trans lower, upper⟩

theorem Fits.congr {layout : MachineLayout} {pid : Fin 16} {task other : Task} {context : Context}
    (fits : Fits layout pid task context) (stackBase : other.stackBase = task.stackBase)
    (addrSpace : other.addrSpace = task.addrSpace) : Fits layout pid other context where
  ring := fits.ring.trans (congrArg Option.isSome addrSpace.symm)
  segment := fits.segment
  room := by
    rw [stackLow_congr stackBase, stackTop_congr stackBase]
    exact fits.room

/-- The result of a system call changes one word of the saved context. -/
theorem Saved.answer {layout : MachineLayout} {pid : Fin 16} {task : Task} {esp : Word}
    {memory : Memory} {context : Context} (saved : Saved layout pid task esp memory context)
    (value : Word) :
    Saved layout pid task esp (memory.write32 (esp + 28) value) { context with eax := value } where
  loads := by
    have word : ∀ index < 13, index ≠ 7 →
        (memory.write32 (esp + 28) value).read32 (esp + BitVec.ofNat 32 (4 * index)) =
          memory.read32 (esp + BitVec.ofNat 32 (4 * index)) := by
      intro index inside differ
      refine Memory.read32_congr ((Memory.write32_eqOn value).mono ?_)
      intro address member
      rw [mem_span] at member
      rw [Set.mem_compl_iff, mem_span]
      bv_omega
    have result : (memory.write32 (esp + 28) value).read32 (esp + BitVec.ofNat 32 (4 * 7)) = value :=
      Memory.read32_write32_self value
    have popped : popalIret esp (memory.write32 (esp + 28) value) =
        { popalIret esp memory with eax := value } := by
      simp only [popalIret, result, word 0 (by decide) (by decide), word 1 (by decide) (by decide),
        word 2 (by decide) (by decide), word 4 (by decide) (by decide),
        word 5 (by decide) (by decide), word 6 (by decide) (by decide),
        word 8 (by decide) (by decide), word 9 (by decide) (by decide),
        word 10 (by decide) (by decide), word 11 (by decide) (by decide),
        word 12 (by decide) (by decide)]
    rw [← saved.loads, loadContext, loadContext, popped]
    change (if ring3 (popalIret esp memory) then _ else _) = _
    split
    · rfl
    · rfl
  low := saved.low
  top := saved.top

/-! ### The two views -/

/-- What holds of the kernel at all times: the stacks are in order, and no ring-3 task may write
to one of them. -/
structure Guarded (layout : MachineLayout) (kernel : Kernel) (registers : Fin 16 → Context) :
    Prop where
  owned : Owned kernel
  cellular : Cellular kernel.heap
  shell : (kernel.tasks 0).addrSpace = none
  fits : ∀ pid, (kernel.tasks pid).active = true →
    Fits layout pid (kernel.tasks pid) (registers pid)
  pages : ∀ pid space, (kernel.tasks pid).addrSpace = some space →
    ∀ address ∈ protectedArea layout, kernel.pages.UserAccessible space address = false

/-- Between interrupts: the other tasks are saved. -/
structure Sound (layout : MachineLayout) (machine : Machine) (registers : Fin 16 → Context) :
    Prop extends Guarded layout machine.kernel registers where
  alive : machine.running.active = true
  esp0 : machine.kernel.currentTask ≠ 0 →
    machine.kernel.esp0 = machine.running.stackBase + taskStackSize
  cr3 : machine.kernel.cr3 =
    match machine.running.addrSpace with
    | some space => .task space
    | none => .kernel
  context : machine.context = registers machine.kernel.currentTask
  saved : ∀ pid, (machine.kernel.tasks pid).active = true → pid ≠ machine.kernel.currentTask →
    Saved layout pid (machine.kernel.tasks pid) (machine.kernel.tasks pid).esp
      machine.kernel.heap.memory (registers pid)

/-- Inside an interrupt: all tasks are saved, the one that was running where `lastEsp` says. -/
structure Paused (layout : MachineLayout) (kernel : Kernel) (lastEsp : Word)
    (registers : Fin 16 → Context) : Prop extends Guarded layout kernel registers where
  saved : ∀ pid, (kernel.tasks pid).active = true →
    Saved layout pid (kernel.tasks pid)
      (if pid = kernel.currentTask then lastEsp else (kernel.tasks pid).esp)
      kernel.heap.memory (registers pid)

section Guarded

variable {layout : MachineLayout} {kernel after : Kernel} {registers : Fin 16 → Context}

theorem Guarded.stackTop_bounded (guarded : Guarded layout kernel registers) {pid : Fin 16}
    (active : (kernel.tasks pid).active = true) : stackTop pid (kernel.tasks pid) ≤ 2 ^ 32 :=
  (stackTop_le guarded.owned guarded.cellular active).trans (by decide)

/-- The kernel changes what it knows of the tasks, not what they hold. -/
theorem Guarded.steady (guarded : Guarded layout kernel registers) (steady : Steady kernel after) :
    Guarded layout after registers where
  owned := guarded.owned.steady steady
  cellular := steady.heap ▸ guarded.cellular
  shell := (steady.addrSpace 0).trans guarded.shell
  fits := by
    intro pid active
    rw [steady.active] at active
    exact (guarded.fits pid active).congr (steady.stackBase pid) (steady.addrSpace pid)
  pages := by
    intro pid space held
    rw [steady.addrSpace] at held
    rw [steady.pages]
    exact guarded.pages pid space held

/-- Stores to stacks, and to memory that holds none. -/
theorem Guarded.write (guarded : Guarded layout kernel registers) {later : Memory}
    (same : Set.EqOn later kernel.heap.memory (heapRest kernel)) :
    Guarded layout (setMemory later kernel) registers :=
  ⟨guarded.owned.write guarded.cellular same, guarded.cellular.write guarded.owned same,
    guarded.shell, guarded.fits, guarded.pages⟩

/-- New registers for a task. -/
theorem Guarded.update (guarded : Guarded layout kernel registers) (pid : Fin 16) {context : Context}
    (fits : (kernel.tasks pid).active = true → Fits layout pid (kernel.tasks pid) context) :
    Guarded layout kernel (Function.update registers pid context) where
  owned := guarded.owned
  cellular := guarded.cellular
  shell := guarded.shell
  fits := by
    intro other active
    by_cases here : other = pid
    · subst here
      rw [Function.update_self]
      exact fits active
    · rw [Function.update_of_ne here]
      exact guarded.fits other active
  pages := guarded.pages

end Guarded

section Paused

variable {layout : MachineLayout} {kernel after : Kernel} {lastEsp : Word}
  {registers : Fin 16 → Context}

theorem Paused.steady (paused : Paused layout kernel lastEsp registers)
    (steady : Steady kernel after) (current : after.currentTask = kernel.currentTask)
    (esp : ∀ pid, (after.tasks pid).esp = (kernel.tasks pid).esp) :
    Paused layout after lastEsp registers where
  toGuarded := paused.toGuarded.steady steady
  saved := by
    intro pid active
    rw [steady.active] at active
    rw [current, esp, steady.heap]
    exact (paused.saved pid active).frame (steady.stackBase pid)
      (paused.stackTop_bounded active) (Set.eqOn_refl ..)

theorem Paused.setTask (paused : Paused layout kernel lastEsp registers) (pid : Fin 16)
    {task : Task} (active : task.active = (kernel.tasks pid).active)
    (stackBase : task.stackBase = (kernel.tasks pid).stackBase)
    (addrSpace : task.addrSpace = (kernel.tasks pid).addrSpace)
    (esp : task.esp = (kernel.tasks pid).esp) :
    Paused layout (kernel.setTask pid task) lastEsp registers :=
  paused.steady (.setTask kernel pid active stackBase addrSpace) rfl
    (kernel.setTask_part (·.esp) pid esp)

/-- `schedule` elects a task and its context is loaded. -/
theorem Paused.schedule (paused : Paused layout kernel lastEsp registers) :
    ∃ esp later, schedule lastEsp kernel = some (esp, later) ∧ later.heap = kernel.heap ∧
      Sound layout ⟨later, loadContext esp later.heap.memory⟩ registers := by
  obtain ⟨esp, later, scheduled, _⟩ := paused.owned.schedule lastEsp
  have spec := schedule_spec lastEsp paused.owned.enabled
  rw [scheduled] at spec
  obtain ⟨switched, elected⟩ := spec
  obtain ⟨loaded, resumed, esps⟩ := schedule_loaded paused.owned.enabled scheduled
  have saved : ∀ pid, (kernel.tasks pid).active = true →
      Saved layout pid (later.tasks pid) (later.tasks pid).esp later.heap.memory
        (registers pid) := by
    intro pid active
    rw [esps, switched.heap]
    exact (paused.saved pid active).frame (switched.stackBase pid)
      (paused.stackTop_bounded active) (Set.eqOn_refl ..)
  refine ⟨esp, later, scheduled, switched.heap, ?_⟩
  exact
    { toGuarded := paused.toGuarded.steady switched.toSteady
      alive := (switched.active _).trans elected
      esp0 := fun _ => loaded.esp0
      cr3 := loaded.cr3
      context := by
        rw [resumed]
        exact (saved _ elected).loads
      saved := fun pid active _ => saved pid ((switched.active pid).symm.trans active) }

/-- The context of the task itself is loaded again. -/
theorem Paused.resume (paused : Paused layout kernel lastEsp registers)
    (alive : (kernel.tasks kernel.currentTask).active = true)
    (esp0 : kernel.currentTask ≠ 0 →
      kernel.esp0 = (kernel.tasks kernel.currentTask).stackBase + taskStackSize)
    (cr3 : kernel.cr3 =
      match (kernel.tasks kernel.currentTask).addrSpace with
      | some space => .task space
      | none => .kernel) :
    Sound layout ⟨kernel, loadContext lastEsp kernel.heap.memory⟩ registers where
  toGuarded := paused.toGuarded
  alive := alive
  esp0 := esp0
  cr3 := cr3
  context := by
    have saved := paused.saved _ alive
    rw [if_pos rfl] at saved
    exact saved.loads
  saved := by
    intro pid active differ
    have saved := paused.saved pid active
    rwa [if_neg differ] at saved

/-- The word for a result is part of the saved context. -/
theorem Paused.result_inside (paused : Paused layout kernel lastEsp registers)
    (alive : (kernel.tasks kernel.currentTask).active = true) :
    span (lastEsp + 28) 4 ⊆
      stackOf layout kernel.currentTask (kernel.tasks kernel.currentTask) := by
  have own := paused.saved _ alive
  rw [if_pos rfl] at own
  have bounded := paused.stackTop_bounded alive
  have low := own.low
  have top := own.top
  have words : 11 ≤ frameWords (registers kernel.currentTask) := by
    unfold frameWords
    split
    · decide
    · exact Nat.le_refl _
  intro address member
  rw [mem_span] at member
  constructor
  · bv_omega
  · bv_omega

/-- The dispatcher stores a result in the saved context. -/
theorem Paused.answer (paused : Paused layout kernel lastEsp registers)
    (alive : (kernel.tasks kernel.currentTask).active = true) (value : Word) :
    Paused layout (setMemory (kernel.heap.memory.write32 (lastEsp + 28) value) kernel) lastEsp
      (Function.update registers kernel.currentTask
        { registers kernel.currentTask with eax := value }) := by
  have own := paused.saved _ alive
  rw [if_pos rfl] at own
  have elsewhere : ∀ {area : Set Word},
      Disjoint area (stackOf layout kernel.currentTask (kernel.tasks kernel.currentTask)) →
      Set.EqOn (kernel.heap.memory.write32 (lastEsp + 28) value) kernel.heap.memory area := by
    intro area apart
    refine (Memory.write32_eqOn value).mono ?_
    exact (apart.mono_right (paused.result_inside alive)).subset_compl_right
  refine ⟨(paused.toGuarded.write (elsewhere (heapRest_disjoint_stackOf alive))).update _
    fun _ => ?_, fun pid active => ?_⟩
  · have fits := paused.fits _ alive
    exact ⟨fits.ring, fits.segment, fits.room⟩
  · by_cases here : pid = kernel.currentTask
    · subst here
      rw [Function.update_self]
      exact (if_pos rfl).symm ▸ own.answer value
    · have others := paused.saved pid active
      rw [Function.update_of_ne here]
      exact others.frame rfl (paused.stackTop_bounded active)
        (elsewhere (stackOf_disjoint paused.owned paused.cellular active alive here))

end Paused

/-! ### Interrupts -/

section Sound

variable {layout : MachineLayout} {machine : Machine} {registers : Fin 16 → Context}

theorem Sound.fits_running (sound : Sound layout machine registers) :
    Fits layout machine.kernel.currentTask machine.running machine.context := by
  rw [sound.context]
  exact sound.fits _ sound.alive

/-- A ring-3 task is not the Shell. -/
theorem Sound.ne_shell (sound : Sound layout machine registers)
    (outer : ring3 machine.context = true) : machine.kernel.currentTask ≠ 0 := by
  intro shell
  have held := sound.fits_running.ring
  rw [outer, Machine.running, shell, sound.shell] at held
  exact absurd held (by decide)

/-- An interrupt finds room on the stack of the running task. -/
theorem Sound.room (sound : Sound layout machine registers) :
    stackLow layout machine.kernel.currentTask machine.running +
        4 * frameWords machine.context ≤
        (interruptStack machine.kernel.esp0 machine.context).toNat ∧
      (interruptStack machine.kernel.esp0 machine.context).toNat ≤
        stackTop machine.kernel.currentTask machine.running := by
  by_cases outer : ring3 machine.context = true
  · have notShell := sound.ne_shell outer
    have bounded := stackTop_le sound.owned sound.cellular sound.alive
    have size : taskStackSize.toNat = 4096 := rfl
    rw [stackTop, if_neg notShell, size] at bounded
    simp only [heapBase, heapLength] at bounded
    rw [interruptStack, if_pos outer, sound.esp0 notShell, stackLow, stackTop, if_neg notShell,
      if_neg notShell, frameWords, if_pos outer, size]
    unfold Machine.running
    constructor
    · bv_omega
    · bv_omega
  · rw [Bool.not_eq_true] at outer
    rw [interruptStack, frameWords, outer, if_neg Bool.false_ne_true, if_neg Bool.false_ne_true]
    exact sound.fits_running.room outer

theorem Sound.interrupted_toNat (sound : Sound layout machine registers) :
    machine.interrupted.1.toNat + 4 * frameWords machine.context =
      (interruptStack machine.kernel.esp0 machine.context).toNat := by
  have room := sound.room.1
  have top := (interruptStack machine.kernel.esp0 machine.context).isLt
  rw [Machine.interrupted, saveContext_esp]
  bv_omega

/-- The stack of the running task is written to, and nothing else. -/
theorem Sound.writeStack (sound : Sound layout machine registers) {later : Memory}
    (same : Set.EqOn later machine.kernel.heap.memory
      (stackOf layout machine.kernel.currentTask machine.running)ᶜ) :
    Guarded layout (setMemory later machine.kernel) registers ∧
      ∀ pid, (machine.kernel.tasks pid).active = true → pid ≠ machine.kernel.currentTask →
        Saved layout pid (machine.kernel.tasks pid) (machine.kernel.tasks pid).esp later
          (registers pid) := by
  constructor
  · refine sound.toGuarded.write (same.mono ?_)
    exact (heapRest_disjoint_stackOf sound.alive).subset_compl_right
  · intro pid active differ
    refine (sound.saved pid active differ).frame rfl (sound.stackTop_bounded active)
      (same.mono ?_)
    exact (stackOf_disjoint sound.owned sound.cellular active sound.alive
      differ).subset_compl_right

/-- The interrupted task is saved, and the C code leaves what is saved. -/
theorem Sound.interrupt (sound : Sound layout machine registers) {scratch : Memory}
    (below : Event.Below layout machine.interrupted.1 scratch machine.interrupted.2 machine) :
    Paused layout (setMemory scratch machine.kernel) machine.interrupted.1 registers := by
  obtain ⟨room, top⟩ := sound.room
  have place := sound.interrupted_toNat
  have pushed : Set.EqOn machine.interrupted.2 machine.kernel.heap.memory
      (region (stackLow layout machine.kernel.currentTask machine.running)
        (interruptStack machine.kernel.esp0 machine.context).toNat)ᶜ := saveContext_eqOn room _
  have outside : Set.EqOn scratch machine.kernel.heap.memory
      (stackOf layout machine.kernel.currentTask machine.running)ᶜ := by
    refine Set.EqOn.trans (below.mono ?_) (pushed.mono ?_)
    · apply Set.compl_subset_compl.mpr
      rintro address ⟨lower, upper⟩
      exact ⟨lower, by omega⟩
    · apply Set.compl_subset_compl.mpr
      rintro address ⟨lower, upper⟩
      exact ⟨lower, by omega⟩
  obtain ⟨guarded, others⟩ := sound.writeStack outside
  refine ⟨guarded, fun pid active => ?_⟩
  by_cases here : pid = machine.kernel.currentTask
  · subst here
    rw [if_pos (show machine.kernel.currentTask =
      (setMemory scratch machine.kernel).currentTask from rfl), ← sound.context]
    have own : Saved layout machine.kernel.currentTask machine.running machine.interrupted.1
        machine.interrupted.2 machine.context :=
      ⟨loadContext_saveContext _ sound.fits_running.segment _, by omega, by omega⟩
    refine own.congr rfl (sound.stackTop_bounded active) (below.mono ?_)
    rintro address ⟨lower, _⟩ ⟨_, upper⟩
    omega
  · rw [if_neg (show ¬ pid = (setMemory scratch machine.kernel).currentTask from here)]
    exact others pid active here

/-- The running task writes to no other stack and to no header of the heap. -/
theorem Sound.mayWrite_disjoint (sound : Sound layout machine registers) {area : Set Word}
    (inside : area ⊆ protectedArea layout)
    (apart : Disjoint area (stackOf layout machine.kernel.currentTask machine.running)) :
    Disjoint area (machine.mayWrite layout) := by
  have register := sound.cr3
  refine Set.disjoint_left.mpr fun address member writable => ?_
  unfold Machine.mayWrite at writable
  cases held : machine.running.addrSpace with
  | some space =>
      rw [held] at register
      simp only [register] at writable
      have denied := sound.pages _ space held address (inside member)
      exact Bool.false_ne_true (denied.symm.trans writable.1)
  | none =>
      rw [held] at register
      simp only [register] at writable
      rcases writable with own | unprotected
      · exact Set.disjoint_left.mp apart member own
      · exact unprotected (inside member)

/-- What the running task writes changes nothing for the others. -/
theorem Sound.written (sound : Sound layout machine registers) {later : Memory}
    (same : Set.EqOn later machine.kernel.heap.memory (machine.mayWrite layout)ᶜ) :
    Guarded layout (setMemory later machine.kernel) registers ∧
      ∀ pid, (machine.kernel.tasks pid).active = true → pid ≠ machine.kernel.currentTask →
        Saved layout pid (machine.kernel.tasks pid) (machine.kernel.tasks pid).esp later
          (registers pid) := by
  constructor
  · refine sound.toGuarded.write (same.mono ?_)
    exact (sound.mayWrite_disjoint (heapRest_protected _)
      (heapRest_disjoint_stackOf sound.alive)).subset_compl_right
  · intro pid active differ
    refine (sound.saved pid active differ).frame rfl (sound.stackTop_bounded active)
      (same.mono ?_)
    exact (sound.mayWrite_disjoint (stackOf_protected sound.owned sound.cellular active)
      (stackOf_disjoint sound.owned sound.cellular active sound.alive differ)).subset_compl_right

/-! ### Events -/

theorem Sound.execute (sound : Sound layout machine registers) {context : Context}
    {memory : Memory}
    (allowed : (Event.execute context memory).Allowed layout machine) :
    Sound layout ⟨setMemory memory machine.kernel, context⟩
      (Function.update registers machine.kernel.currentTask context) := by
  obtain ⟨fits, same⟩ := allowed
  obtain ⟨guarded, others⟩ := sound.written same
  have own : Function.update registers machine.kernel.currentTask context
      machine.kernel.currentTask = context := Function.update_self ..
  refine ⟨guarded.update _ fun _ => fits, sound.alive, sound.esp0, sound.cr3, own.symm, ?_⟩
  intro pid active differ
  have other : Function.update registers machine.kernel.currentTask context pid = registers pid :=
    Function.update_of_ne differ ..
  rw [other]
  exact others pid active differ

theorem Sound.keyboard (sound : Sound layout machine registers) {scratch : Memory}
    (allowed : (Event.keyboard scratch).Allowed layout machine) :
    Sound layout ⟨setMemory scratch machine.kernel, machine.context⟩ registers := by
  have top := sound.room.2
  have outside : Set.EqOn scratch machine.kernel.heap.memory
      (stackOf layout machine.kernel.currentTask machine.running)ᶜ := by
    refine Set.EqOn.mono (Set.compl_subset_compl.mpr ?_) allowed
    rintro address ⟨lower, upper⟩
    exact ⟨lower, by omega⟩
  obtain ⟨guarded, others⟩ := sound.writeStack outside
  exact ⟨guarded, sound.alive, sound.esp0, sound.cr3, sound.context, others⟩

theorem Sound.timer (sound : Sound layout machine registers) {scratch : Memory}
    (allowed : (Event.timer scratch).Allowed layout machine) :
    ∃ after, (Event.timer scratch).step layout machine = some after ∧
      Sound layout after registers := by
  obtain ⟨esp, later, scheduled, _, resumed⟩ := (sound.interrupt allowed).schedule
  exact ⟨_, congrArg (Option.map _) scheduled, resumed⟩

/-- The kernel changes what it knows of the tasks, not what they hold. -/
theorem Sound.setTask (sound : Sound layout machine registers) (pid : Fin 16) {task : Task}
    (active : task.active = (machine.kernel.tasks pid).active)
    (stackBase : task.stackBase = (machine.kernel.tasks pid).stackBase)
    (addrSpace : task.addrSpace = (machine.kernel.tasks pid).addrSpace)
    (esp : task.esp = (machine.kernel.tasks pid).esp) :
    Sound layout ⟨machine.kernel.setTask pid task, machine.context⟩ registers := by
  have steady : Steady machine.kernel (machine.kernel.setTask pid task) :=
    .setTask machine.kernel pid active stackBase addrSpace
  refine ⟨sound.toGuarded.steady steady, (steady.active _).trans sound.alive, fun notShell => ?_,
    ?_, sound.context, fun other alive differ => ?_⟩
  · exact (sound.esp0 notShell).trans (congrArg (· + taskStackSize) (steady.stackBase _).symm)
  · have held : (Machine.running ⟨machine.kernel.setTask pid task, machine.context⟩).addrSpace =
        machine.running.addrSpace := steady.addrSpace _
    rw [held]
    exact sound.cr3
  · have same := machine.kernel.setTask_part (·.esp) pid esp other
    rw [steady.active] at alive
    simp only at same ⊢
    rw [same]
    exact (sound.saved other alive differ).frame (steady.stackBase other)
      (sound.stackTop_bounded alive) (Set.eqOn_refl ..)

end Sound

end MxOS.Processor
