import MxOS.Kernel.ContextSwitch

/-! # Registers over whole runs

A system call changes at most one word of the saved context, and a function that the Shell
calls leaves the stacks of the tasks that live on alone. So every event keeps the registers
of every task, and every run does.
-/

namespace MxOS.Processor

open ByteMemory Mem Paging Sched Syscall
open Exec (UserContext popalIret read_pushed PageMeets)

/-! ### System calls -/

theorem copyOut_eqOn (base : Word) (mailbox : Ipc.Mailbox) (slot : Fin 4) (remaining index : Nat)
    (bus : Bus) :
    Set.EqOn (Ipc.copyOut (fun index byte (bus : Bus) =>
        bus.store (base + BitVec.ofNat 32 index) byte) mailbox slot remaining index bus).memory
      bus.memory {address | address ∉ block (base + BitVec.ofNat 32 index) remaining} := by
  induction remaining generalizing index bus with
  | zero => exact Set.eqOn_refl ..
  | succ remaining ih =>
      intro address outside
      simp only [block_succ, List.mem_cons, not_or, Set.mem_ofPred_eq] at outside
      exact (ih (index + 1) _ outside.2).trans (Memory.write8_eqOn _ outside.1)

theorem store32_eqOn (bus : Bus) (pointer value : Word) :
    Set.EqOn (if pointer ≠ 0 then bus.store32 pointer value else bus).memory bus.memory
      {address | address ∉ if pointer ≠ 0 then block pointer 4 else []} := by
  split
  · intro address outside
    refine Memory.write32_eqOn value fun member => outside ?_
    rw [mem_span] at member
    exact mem_block.mpr ⟨(address - pointer).toNat, member, by bv_omega⟩
  · exact Set.eqOn_refl ..

/-- Receiving takes a message from the mailbox of the task and stores where it says. -/
theorem dispatchRecv_spec (currentEsp : Word) (regs : Registers) (kernel : Kernel) :
    let effect := dispatchRecv currentEsp regs kernel ⟨kernel.heap.memory, []⟩
    ∃ later memory mailbox, effect.resumed =
        some (currentEsp, later, setMemory memory (kernel.setTask kernel.currentTask
          { kernel.tasks kernel.currentTask with mailbox := mailbox })) ∧
      Set.EqOn memory kernel.heap.memory {address | address ∉ effect.accesses} := by
  intro effect
  have accesses : effect.accesses = _ :=
    dispatchRecv_accesses currentEsp regs kernel kernel.heap.memory
  by_cases nothing : (kernel.tasks kernel.currentTask).mailbox.count.val = 0
  · refine ⟨{ regs with eax := 0 }, kernel.heap.memory,
      (kernel.tasks kernel.currentTask).mailbox, ?_, Set.eqOn_refl ..⟩
    simp only [effect, dispatchRecv, ipcRecv, Ipc.Mailbox.withdraw, nothing, ↓reduceIte]
    rfl
  · let mailbox := (kernel.tasks kernel.currentTask).mailbox
    let copied := Ipc.copyOut (fun index byte (bus : Bus) =>
      bus.store (regs.ebx + BitVec.ofNat 32 index) byte) mailbox mailbox.head
        (mailbox.len mailbox.head).val 0 ⟨kernel.heap.memory, []⟩
    let measured := if regs.ecx ≠ 0 then
      copied.store32 regs.ecx (BitVec.ofNat 32 (mailbox.len mailbox.head).val) else copied
    let signed := if regs.edx ≠ 0 then
      measured.store32 regs.edx (BitVec.ofInt 32 (mailbox.sender mailbox.head)) else measured
    refine ⟨{ regs with eax := 1 }, signed.memory, mailbox.advanceHead.decrementCount, ?_, ?_⟩
    · simp only [effect, dispatchRecv, ipcRecv, Ipc.Mailbox.withdraw, nothing, ↓reduceIte]
      rfl
    · intro address outside
      simp only [accesses, nothing, ↓reduceIte, List.mem_append, not_or, Set.mem_ofPred_eq]
        at outside
      refine (store32_eqOn measured _ _ outside.2.2).trans
        ((store32_eqOn copied _ _ outside.2.1).trans ?_)
      exact copyOut_eqOn regs.ebx mailbox _ _ 0 _ (by simpa using outside.1)

/-- What a system call does: it ends the task, puts it to sleep, or returns to it, having changed
a mailbox and, for `SYS_RECV`, stored what it reports. -/
theorem syscallDispatch_cases (currentEsp : Word) (regs : Registers) (kernel : Kernel) :
    let effect := syscallDispatch currentEsp regs kernel
    (effect.resumed = (taskExitAndReschedule currentEsp kernel).map fun (esp, after) =>
      (esp, regs, after)) ∨
    (effect.resumed = (taskSleepAndReschedule regs.ebx currentEsp kernel).map fun (esp, after) =>
      (esp, regs, after)) ∨
    ∃ later memory pid mailbox, effect.resumed = some (currentEsp, later,
        setMemory memory (kernel.setTask pid { kernel.tasks pid with mailbox := mailbox })) ∧
      (memory = kernel.heap.memory ∨ regs.eax = sysRecv ∧
        Set.EqOn memory kernel.heap.memory {address | address ∉ effect.accesses}) := by
  have unchanged : some (currentEsp, regs, kernel) = some (currentEsp, regs,
      setMemory kernel.heap.memory (kernel.setTask 0
        { kernel.tasks 0 with mailbox := (kernel.tasks 0).mailbox })) := by
    rw [Kernel.setTask_eq_self rfl]
    rfl
  intro effect
  have dispatched : effect = syscallDispatch currentEsp regs kernel := rfl
  simp only [syscallDispatch] at dispatched
  by_cases print : regs.eax = sysPrint
  · rw [if_pos print] at dispatched
    refine Or.inr (Or.inr ⟨regs, _, 0, (kernel.tasks 0).mailbox, ?_, Or.inl rfl⟩)
    rw [← unchanged, dispatched]
  rw [if_neg print] at dispatched
  by_cases exit : regs.eax = sysExit
  · rw [if_pos exit] at dispatched
    exact Or.inl (congrArg Effect.resumed dispatched)
  rw [if_neg exit] at dispatched
  by_cases sleep : regs.eax = sysSleep
  · rw [if_pos sleep] at dispatched
    exact Or.inr (Or.inl (congrArg Effect.resumed dispatched))
  rw [if_neg sleep] at dispatched
  refine Or.inr (Or.inr ?_)
  by_cases send : regs.eax = sysSend
  · rw [if_pos send] at dispatched
    unfold ipcSend at dispatched
    cases found : kernel.activePid regs.ebx.toInt with
    | none =>
        simp only [found] at dispatched
        refine ⟨{ regs with eax := BitVec.ofInt 32 (-1) }, _, 0, (kernel.tasks 0).mailbox, ?_,
          Or.inl rfl⟩
        rw [dispatched, Kernel.setTask_eq_self rfl]
        rfl
    | some pid =>
        simp only [found] at dispatched
        exact ⟨_, _, pid, _, congrArg Effect.resumed dispatched, Or.inl rfl⟩
  rw [if_neg send] at dispatched
  by_cases recv : regs.eax = sysRecv
  · rw [if_pos recv] at dispatched
    obtain ⟨later, memory, mailbox, resumed, stored⟩ := dispatchRecv_spec currentEsp regs kernel
    rw [dispatched]
    exact ⟨later, memory, _, mailbox, resumed, Or.inr ⟨recv, stored⟩⟩
  · rw [if_neg recv] at dispatched
    refine ⟨regs, _, 0, (kernel.tasks 0).mailbox, ?_, Or.inl rfl⟩
    rw [← unchanged, dispatched]

section Dispatch

variable {layout : MachineLayout} {kernel after : Kernel} {lastEsp : Word}
  {registers : Fin 16 → Context}

/-- Stores that leave all stacks alone. -/
theorem Paused.write (paused : Paused layout kernel lastEsp registers) {later : Memory}
    (same : Set.EqOn later kernel.heap.memory (protectedArea layout)) :
    Paused layout (setMemory later kernel) lastEsp registers where
  toGuarded := paused.toGuarded.write (same.mono (heapRest_protected kernel))
  saved := fun pid active => (paused.saved pid active).frame rfl (paused.stackTop_bounded active)
    (same.mono (stackOf_protected paused.owned paused.cellular active))

theorem Guarded.releaseTask (guarded : Guarded layout kernel registers) {pid : Fin 16}
    (notShell : pid ≠ 0) (active : (kernel.tasks pid).active = true) :
    Guarded layout (releaseTask pid kernel) registers where
  owned := guarded.owned.releaseTask notShell active
  cellular := guarded.cellular.releaseTask guarded.owned notShell active
  shell := by
    rw [releaseTask_of_ne (Ne.symm notShell)]
    exact guarded.shell
  fits := by
    intro other alive
    have differ := ne_of_releaseTask_active alive
    rw [releaseTask_of_ne differ] at alive ⊢
    exact guarded.fits other alive
  pages := by
    intro other space held address inside
    obtain ⟨tables, directories⟩ := Exec.releaseTask_tables pid kernel
    have denied := guarded.pages other space (Exec.releaseTask_addrSpace held).2 address inside
    rwa [Pages.UserAccessible, ← tables, ← directories] at denied

/-- The task is put to sleep and another one resumes. -/
theorem Paused.taskSleepAndReschedule (paused : Paused layout kernel lastEsp registers) (ms : Word) :
    ∃ esp later, taskSleepAndReschedule ms lastEsp kernel = some (esp, later) ∧
      later.heap = kernel.heap ∧
      Sound layout ⟨later, loadContext esp later.heap.memory⟩ registers := by
  unfold Sched.taskSleepAndReschedule
  exact Paused.schedule (paused.setTask kernel.currentTask rfl rfl rfl rfl)

/-- The task ends. Its stack is given back with its bytes as they are. -/
theorem Paused.taskExitCurrent (paused : Paused layout kernel lastEsp registers)
    (notShell : kernel.currentTask ≠ 0)
    (alive : (kernel.tasks kernel.currentTask).active = true) :
    Paused layout (Sched.taskExitCurrent kernel) lastEsp registers ∧
      Set.EqOn (Sched.taskExitCurrent kernel).heap.memory kernel.heap.memory
        (kernelStack (kernel.tasks kernel.currentTask)) := by
  have ended : Sched.taskExitCurrent kernel = releaseTask kernel.currentTask kernel :=
    if_pos alive
  have kept := releaseTask_keeps paused.owned paused.cellular notShell alive
  rw [ended]
  refine ⟨⟨paused.toGuarded.releaseTask notShell alive, fun pid active => ?_⟩, ?_⟩
  · have differ := ne_of_releaseTask_active active
    have before : (kernel.tasks pid).active = true := by
      rwa [releaseTask_of_ne differ] at active
    have saved := paused.saved pid before
    rw [if_neg differ] at saved
    rw [if_neg (show ¬ pid = (releaseTask kernel.currentTask kernel).currentTask from differ),
      releaseTask_of_ne differ]
    refine saved.frame rfl (paused.stackTop_bounded before) ?_
    by_cases shell : pid = 0
    · subst shell
      exact kept.outside.mono (boot_disjoint_heap layout).subset_compl_right
    · rw [stackOf_task layout shell]
      exact kept.stack pid shell before active
  · obtain ⟨live, blocks, stacked⟩ := paused.cellular
    have member := paused.owned.stack_live stacked notShell alive
    have freed : (releaseTask kernel.currentTask kernel).heap =
        kfree (kernel.tasks kernel.currentTask).stackBase kernel.heap :=
      if_pos (paused.owned.stackBase_ne_zero notShell alive)
    rw [freed]
    exact kfree_eqOn kernel.heap (List.mem_map.mpr ⟨_, member, rfl⟩) member

theorem Paused.taskExitAndReschedule (paused : Paused layout kernel lastEsp registers)
    (notShell : kernel.currentTask ≠ 0)
    (alive : (kernel.tasks kernel.currentTask).active = true) :
    ∃ esp later, taskExitAndReschedule lastEsp kernel = some (esp, later) ∧
      Set.EqOn later.heap.memory kernel.heap.memory
        (kernelStack (kernel.tasks kernel.currentTask)) ∧
      Sound layout ⟨later, loadContext esp later.heap.memory⟩ registers := by
  obtain ⟨ended, bytes⟩ := paused.taskExitCurrent notShell alive
  obtain ⟨esp, later, scheduled, heap, resumed⟩ := ended.schedule
  refine ⟨esp, later, ?_, heap ▸ bytes, resumed⟩
  unfold Sched.taskExitAndReschedule
  simp only [ended.owned.taskCount_ne_zero, ↓reduceIte]
  exact scheduled

end Dispatch

section Calls

variable {layout : MachineLayout} {machine : Machine} {registers : Fin 16 → Context}
  {scratch : Memory}

/-- The call returns to the task, with a result. -/
theorem Sound.returns (sound : Sound layout machine registers) {memory : Memory} {later : Registers}
    {pid : Fin 16} {mailbox : Ipc.Mailbox}
    (resumed : (Event.dispatch scratch machine).resumed =
      some (machine.interrupted.1, later, setMemory memory (machine.kernel.setTask pid
        { machine.kernel.tasks pid with mailbox := mailbox })))
    (paused : Paused layout (setMemory memory machine.kernel) machine.interrupted.1 registers) :
    ∃ after, (Event.syscall scratch).step layout machine = some after ∧
      Sound layout after ((Event.syscall scratch).registers layout machine registers) := by
  have delivered : Sound layout ⟨machine.kernel.setTask pid
      { machine.kernel.tasks pid with mailbox := mailbox }, machine.context⟩ registers :=
    sound.setTask pid rfl rfl rfl rfl
  have received : Paused layout ((setMemory memory machine.kernel).setTask pid
      { machine.kernel.tasks pid with mailbox := mailbox }) machine.interrupted.1 registers :=
    paused.setTask pid rfl rfl rfl rfl
  have answered := received.answer delivered.alive later.eax
  refine ⟨_, congrArg (Option.map _) resumed, ?_⟩
  simp only [Event.registers, resumed]
  exact answered.resume delivered.alive delivered.esp0 delivered.cr3

/-- The call does not return for now. The word of the result is stored as it was. -/
theorem Sound.switches {esp : Word} {later : Registers} {kernel : Kernel}
    (resumed : (Event.dispatch scratch machine).resumed = some (esp, later, kernel))
    (word : kernel.heap.memory.read32 (machine.interrupted.1 + 28) = later.eax)
    (same : later.eax = (registers machine.kernel.currentTask).eax)
    (sound : Sound layout ⟨kernel, loadContext esp kernel.heap.memory⟩ registers) :
    ∃ after, (Event.syscall scratch).step layout machine = some after ∧
      Sound layout after ((Event.syscall scratch).registers layout machine registers) := by
  refine ⟨_, congrArg (Option.map _) resumed, ?_⟩
  simp only [Event.registers, resumed, same, Function.update_eq_self]
  rw [← same, ← word, Memory.write32_read32_self]
  exact sound

/-- What a ring-3 task may write to holds no stack. -/
theorem Sound.mayWrite_unprotected (sound : Sound layout machine registers)
    (outer : ring3 machine.context = true) :
    Disjoint (protectedArea layout) (machine.mayWrite layout) := by
  have held := sound.fits_running.ring
  rw [outer] at held
  obtain ⟨space, held⟩ := Option.isSome_iff_exists.mp held.symm
  have register := sound.cr3
  rw [held] at register
  refine Set.disjoint_left.mpr fun address inside writable => ?_
  simp only [Machine.mayWrite, register] at writable
  exact Bool.false_ne_true ((sound.pages _ space held address inside).symm.trans writable.1)

/-- The dispatcher finds the registers of the task. -/
theorem Sound.registersAt_eax (sound : Sound layout machine registers)
    (below : Event.Below layout machine.interrupted.1 scratch machine.interrupted.2 machine) :
    (registersAt machine.interrupted.1 scratch).eax = machine.context.eax := by
  have saved := (sound.interrupt below).saved _ sound.alive
  rw [if_pos (show machine.kernel.currentTask =
    (setMemory scratch machine.kernel).currentTask from rfl), ← sound.context] at saved
  rw [← saved.loads]
  unfold loadContext
  simp only
  split
  · rfl
  · rfl

theorem Sound.syscall (sound : Sound layout machine registers)
    (allowed : (Event.syscall scratch).Allowed layout machine) :
    ∃ after, (Event.syscall scratch).step layout machine = some after ∧
      Sound layout after ((Event.syscall scratch).registers layout machine registers) := by
  obtain ⟨below, outer, stores⟩ := allowed
  have paused := sound.interrupt below
  have eax := sound.registersAt_eax below
  have same : (registersAt machine.interrupted.1 scratch).eax =
      (registers machine.kernel.currentTask).eax := by rw [eax, sound.context]
  rcases syscallDispatch_cases machine.interrupted.1 (registersAt machine.interrupted.1 scratch)
    (setMemory scratch machine.kernel) with exit | sleep |
      ⟨later, memory, pid, mailbox, resumed, stored⟩
  · obtain ⟨esp, later, left, bytes, resumed⟩ :=
      paused.taskExitAndReschedule (sound.ne_shell outer) sound.alive
    rw [left] at exit
    refine Sound.switches exit (Memory.read32_congr (bytes.mono ?_)) same resumed
    exact paused.result_inside sound.alive |>.trans (stackOf_task layout (sound.ne_shell outer) _).subset
  · obtain ⟨esp, later, left, heap, resumed⟩ := paused.taskSleepAndReschedule
      (registersAt machine.interrupted.1 scratch).ebx
    rw [left] at sleep
    refine Sound.switches sleep ?_ same resumed
    rw [heap]
    rfl
  · refine sound.returns resumed ?_
    rcases stored with rfl | ⟨recv, stored⟩
    · exact paused
    · have outside : protectedArea layout ⊆
          {address | address ∉ (Event.dispatch scratch machine).accesses} := by
        intro address inside access
        exact Set.disjoint_left.mp (sound.mayWrite_unprotected outer) inside
          (stores (eax.symm.trans recv) address access)
      exact paused.write (stored.mono outside)

end Calls

/-! ### Functions of the kernel -/

section Functions

variable {layout : MachineLayout} {kernel after : Kernel} {registers : Fin 16 → Context}

/-- The page table of a new task denies the stacks to it. -/
theorem identityEntry_denied {codeBase codeSize stackBase stackSize : Word}
    (code : Event.Clear layout codeBase codeSize) (stack : Event.Clear layout stackBase stackSize)
    {address : Word} (inside : address ∈ protectedArea layout) :
    userEntry (identityEntry layout.toLayout stackBase (stackBase + stackSize) codeBase
      (codeBase + codeSize) (Fin.ofNat 1024 (address >>> 12).toNat)) = false := by
  have aligned := layout.pages
  have behind := layout.behind
  have room := layout.room
  simp only [bootStackTop] at room
  have place : layout.bootStackLow ≤ address.toNat / 4096 * 4096 ∧
      address.toNat / 4096 * 4096 + 4096 ≤ 0x200000 := by
    rcases inside with ⟨lower, upper⟩ | ⟨lower, upper⟩
    · simp only [heapBase, heapLength] at lower upper
      omega
    · simp only [bootStackTop] at upper
      omega
  have page : (Fin.ofNat 1024 (address >>> 12).toNat).val = address.toNat / 4096 := by
    rw [Fin.val_ofNat, BitVec.toNat_ushiftRight, Nat.shiftRight_eq_div_pow]
    omega
  have start : (BitVec.ofNat 32 ((Fin.ofNat 1024 (address >>> 12).toNat).val * 4096) : Word).toNat =
      address.toNat / 4096 * 4096 := by
    rw [page, BitVec.toNat_ofNat]
    omega
  have misses : ∀ base size : Word, Event.Clear layout base size →
      ¬ (BitVec.ofNat 32 ((Fin.ofNat 1024 (address >>> 12).toNat).val * 4096) + 4096 > base ∧
        BitVec.ofNat 32 ((Fin.ofNat 1024 (address >>> 12).toNat).val * 4096) < base + size) := by
    intro base size clear
    simp only [Event.Clear, heapBase, heapLength] at clear
    bv_omega
  have image : ¬ (BitVec.ofNat 32 ((Fin.ofNat 1024 (address >>> 12).toNat).val * 4096) + 4096 >
      layout.textStart ∧
        BitVec.ofNat 32 ((Fin.ofNat 1024 (address >>> 12).toNat).val * 4096) < layout.roEnd) := by
    bv_omega
  rw [identityEntry]
  simp only [image, misses codeBase codeSize code, misses stackBase stackSize stack, and_false,
    ↓reduceIte]
  exact (Exec.userEntry_flags _).1

/-- New spaces apart, no task gets access to a stack. -/
theorem Guarded.change_pages (guarded : Guarded layout kernel registers) {outcome : Outcome}
    (change : Change kernel outcome after)
    (fresh : ∀ pid space, outcome.createdPid = some pid →
      (after.tasks pid).addrSpace = some space →
      ∀ address ∈ protectedArea layout, after.pages.UserAccessible space address = false)
    (pid : Fin 16) (space : Fin 6) (held : (after.tasks pid).addrSpace = some space)
    (address : Word) (inside : address ∈ protectedArea layout) :
    after.pages.UserAccessible space address = false := by
  cases change with
  | unmoved _ unmoved =>
      rw [unmoved.addrSpace] at held
      rw [unmoved.pages]
      exact guarded.pages pid space held address inside
  | released ended _ _ unmoved =>
      rw [unmoved.addrSpace] at held
      rw [unmoved.pages]
      obtain ⟨tables, directories⟩ := Exec.releaseTask_tables ended kernel
      have denied := guarded.pages pid space (Exec.releaseTask_addrSpace held).2 address inside
      rwa [Pages.UserAccessible, ← tables, ← directories] at denied
  | entered new own entered =>
      by_cases here : pid = new
      · exact fresh new space rfl (here ▸ held) address inside
      · rw [entered.others pid here] at held
        have differ : own ≠ some space := by
          intro same
          have unused := entered.unused space same
          exact Bool.false_ne_true
            (unused.symm.trans ((guarded.owned.used space).mpr ⟨pid, held⟩))
        have denied := guarded.pages pid space held address inside
        rwa [Pages.UserAccessible, ← entered.tables space differ,
          ← entered.directories space differ] at denied

theorem active_before_change {outcome : Outcome} (change : Change kernel outcome after)
    {pid : Fin 16} (active : (after.tasks pid).active = true)
    (old : outcome.createdPid ≠ some pid) : (kernel.tasks pid).active = true := by
  cases change with
  | unmoved _ unmoved => rwa [unmoved.active] at active
  | released ended _ _ unmoved =>
      rw [unmoved.active] at active
      rwa [releaseTask_of_ne (ne_of_releaseTask_active active)] at active
  | entered new own entered =>
      have differ : pid ≠ new := fun same => old (congrArg some same.symm)
      rwa [entered.others pid differ] at active

/-- What the functions that the Shell calls leave as it is. -/
theorem Callable.keeps {op : Op} {outcome : Outcome} (owned : Owned kernel)
    (cellular : Cellular kernel.heap) (shell : kernel.currentTask = 0)
    (callable : Event.Callable layout op)
    (performed : op.perform layout.toLayout kernel = some (outcome, after)) :
    Keeps kernel after ∧ after.currentTask = kernel.currentTask ∧ after.cr3 = kernel.cr3 := by
  cases op with
  | createTask entry name =>
      obtain ⟨⟨result, later⟩, created, same⟩ := Option.map_eq_some_iff.mp performed
      obtain ⟨rfl, rfl⟩ := Prod.mk.inj same
      refine ⟨createTask_keeps owned cellular created, ?_⟩
      cases result with
      | none =>
          obtain ⟨heap, rfl⟩ := createTask_refused created
          exact ⟨rfl, rfl⟩
      | some pid =>
          obtain ⟨_, stackAddress, heap, rfl⟩ := createTask_eq_some created
          exact ⟨rfl, rfl⟩
  | createUserTaskArgv task =>
      obtain ⟨⟨result, later⟩, created, same⟩ := Option.map_eq_some_iff.mp performed
      obtain ⟨rfl, rfl⟩ := Prod.mk.inj same
      refine ⟨createUserTaskArgv_keeps owned cellular created, ?_⟩
      cases result with
      | none =>
          obtain ⟨heap, rfl⟩ := createUserTaskArgv_refused created
          exact ⟨rfl, rfl⟩
      | some pid =>
          obtain ⟨_, stackAddress, heap, space, pages, _, rfl⟩ :=
            createUserTaskArgv_eq_some created
          exact ⟨rfl, rfl⟩
  | kill target =>
      obtain ⟨rfl, rfl⟩ := Prod.mk.inj (Option.some.inj performed)
      refine ⟨taskKill_keeps owned cellular shell target, ?_⟩
      cases kernel.activePid target with
      | none => exact ⟨rfl, rfl⟩
      | some pid =>
          simp only
          split
          · exact ⟨rfl, rfl⟩
          · exact ⟨rfl, rfl⟩
  | setPriority target priority =>
      obtain ⟨rfl, rfl⟩ := Prod.mk.inj (Option.some.inj performed)
      unfold taskSetPriority
      cases kernel.activePid target with
      | none => exact ⟨.refl kernel, rfl, rfl⟩
      | some pid => exact ⟨.setTask kernel pid rfl rfl rfl, rfl, rfl⟩
  | send target payload len =>
      obtain ⟨rfl, rfl⟩ := Prod.mk.inj (Option.some.inj performed)
      cases kernel.activePid target with
      | none => exact ⟨.refl kernel, rfl, rfl⟩
      | some pid => exact ⟨.setTask kernel pid rfl rfl rfl, rfl, rfl⟩
  | recv =>
      obtain ⟨rfl, rfl⟩ := Prod.mk.inj (Option.some.inj performed)
      exact ⟨.setTask kernel _ rfl rfl rfl, rfl, rfl⟩
  | _ => exact callable.elim

/-- The context of a new kernel task is its initial frame. -/
theorem createTask_context {entry name : Word} {pid : Fin 16}
    (created : createTask layout.toLayout entry name kernel = some (some pid, after)) :
    loadContext (after.tasks pid).esp after.heap.memory =
      kernelContext entry (after.tasks pid).stackBase := by
  obtain ⟨_, stackAddress, heap, rfl⟩ := createTask_eq_some created
  have place := installTask_esp pid stackAddress (kernelFrame layout.toLayout entry) name none
    { kernel with heap := heap }
  have short : (kernelFrame layout.toLayout entry).length ≤ 2 ^ 29 := (by decide : 12 ≤ 2 ^ 29)
  have word : ∀ index value, (kernelFrame layout.toLayout entry).reverse[index]? = some value →
      (installTask pid stackAddress (kernelFrame layout.toLayout entry) name none
        { kernel with heap := heap }).heap.memory.read32
          (((installTask pid stackAddress (kernelFrame layout.toLayout entry) name none
            { kernel with heap := heap }).tasks pid).esp + BitVec.ofNat 32 (4 * index)) = value := by
    intro index value found
    rw [installTask_self]
    exact read_pushed short _ heap.memory found
  simp only at place
  generalize installTask pid stackAddress (kernelFrame layout.toLayout entry) name none
    { kernel with heap := heap } = installed at word place
  have length : (kernelFrame layout.toLayout entry).length = 12 := rfl
  have inner : ring3 (popalIret (installed.tasks pid).esp installed.heap.memory) = false :=
    (congrArg (fun cs : Word => decide (cs &&& 3 = 3)) (word 9 _ rfl)).trans rfl
  have top : (installed.tasks pid).esp + 44 =
      (installed.tasks pid).stackBase + taskStackSize - 4 := by
    rw [place, length]
    bv_omega
  rw [loadContext, inner, if_neg Bool.false_ne_true, top, kernelContext]
  simp only [popalIret, word 0 _ rfl, word 1 _ rfl, word 2 _ rfl, word 4 _ rfl, word 5 _ rfl,
    word 6 _ rfl, word 7 _ rfl, word 8 _ rfl, word 9 _ rfl, word 10 _ rfl]

/-- A new task is saved on its stack, at the top of it. -/
theorem Saved.created (owned : Owned after) (cellular : Cellular after.heap) {pid : Fin 16}
    (notShell : pid ≠ 0) (active : (after.tasks pid).active = true) {context : Context}
    {words : Nat} (few : frameWords context ≤ words) (short : words ≤ 13)
    (place : (after.tasks pid).esp =
      (after.tasks pid).stackBase + taskStackSize - BitVec.ofNat 32 (4 * words))
    (loads : loadContext (after.tasks pid).esp after.heap.memory = context) :
    Saved layout pid (after.tasks pid) (after.tasks pid).esp after.heap.memory context := by
  have bounded := stackTop_le owned cellular active
  have size : taskStackSize.toNat = 4096 := rfl
  rw [stackTop, if_neg notShell, size] at bounded
  simp only [heapBase, heapLength] at bounded
  refine ⟨loads, ?_, ?_⟩
  · rw [stackLow, if_neg notShell, place]
    bv_omega
  · rw [stackTop, if_neg notShell, size, place]
    bv_omega

/-- The Shell has called a function of the kernel. -/
theorem Sound.called {machine : Machine} (sound : Sound layout machine registers)
    (shell : machine.kernel.currentTask = 0) {later : Fin 16 → Context} (owned : Owned after)
    (cellular : Cellular after.heap) (kept : Keeps machine.kernel after)
    (current : after.currentTask = machine.kernel.currentTask)
    (cr3 : after.cr3 = machine.kernel.cr3)
    (pages : ∀ pid space, (after.tasks pid).addrSpace = some space →
      ∀ address ∈ protectedArea layout, after.pages.UserAccessible space address = false)
    (tasks : ∀ pid, (after.tasks pid).active = true →
      (machine.kernel.tasks pid).active = true ∧ later pid = registers pid ∨
        pid ≠ 0 ∧ Fits layout pid (after.tasks pid) (later pid) ∧
          Saved layout pid (after.tasks pid) (after.tasks pid).esp after.heap.memory (later pid)) :
    Sound layout ⟨after, machine.context⟩ later := by
  have shellTask := kept.task 0 sound.owned.shell owned.shell
  have shellSpace : (after.tasks 0).addrSpace = none := shellTask.2.2.trans sound.shell
  rw [shell] at current
  have unchanged : later 0 = registers 0 :=
    ((tasks 0 owned.shell).resolve_right fun new => new.1 rfl).2
  exact
    { owned := owned
      cellular := cellular
      shell := shellSpace
      fits := by
        intro pid active
        rcases tasks pid active with ⟨before, same⟩ | ⟨_, fits, _⟩
        · obtain ⟨_, stackBase, addrSpace⟩ := kept.task pid before active
          rw [same]
          exact (sound.fits pid before).congr stackBase addrSpace
        · exact fits
      pages := pages
      alive := by
        simp only [Machine.running, current]
        exact owned.shell
      esp0 := fun notShell => absurd current notShell
      cr3 := by
        have register := sound.cr3
        simp only [Machine.running, shell, sound.shell] at register
        simp only [Machine.running, current, shellSpace]
        exact cr3.trans register
      context := by
        have context := sound.context
        rw [shell] at context
        simp only [current, unchanged]
        exact context
      saved := by
        intro pid active differ
        simp only [current] at differ
        rcases tasks pid active with ⟨before, same⟩ | ⟨_, _, saved⟩
        · obtain ⟨esp, stackBase, _⟩ := kept.task pid before active
          have saved := sound.saved pid before (shell ▸ differ)
          simp only at esp ⊢
          rw [same, esp]
          refine saved.frame stackBase (sound.stackTop_bounded before) ?_
          rw [stackOf_task layout differ]
          exact kept.stack pid differ before active
        · exact saved }

theorem ring3_kernelContext (entry stackBase : Word) :
    ring3 (kernelContext entry stackBase) = false := (by decide : decide ((8 : Word) &&& 3 = 3) = false)

theorem ring3_userContext (task : UserTask) : ring3 (userContext task) = true :=
  (by decide : decide ((0x1B : Word) &&& 3 = 3) = true)

/-- The registers a kernel task starts with fit its stack. -/
theorem fits_kernelContext (owned : Owned kernel) (cellular : Cellular kernel.heap) {pid : Fin 16}
    (notShell : pid ≠ 0) (active : (kernel.tasks pid).active = true)
    (addrSpace : (kernel.tasks pid).addrSpace = none) (entry : Word) :
    Fits layout pid (kernel.tasks pid) (kernelContext entry (kernel.tasks pid).stackBase) where
  ring := by
    rw [addrSpace]
    exact ring3_kernelContext ..
  segment := fun _ => rfl
  room := by
    intro _
    have bounded := stackTop_le owned cellular active
    have size : taskStackSize.toNat = 4096 := rfl
    rw [stackTop, if_neg notShell, size] at bounded
    simp only [heapBase, heapLength] at bounded
    rw [stackLow, stackTop, if_neg notShell, if_neg notShell, size, kernelContext]
    constructor
    · bv_omega
    · bv_omega

theorem fits_userContext {pid : Fin 16} {task : Task} {space : Fin 6}
    (addrSpace : task.addrSpace = some space) (user : UserTask) :
    Fits layout pid task (userContext user) where
  ring := by
    rw [addrSpace]
    exact ring3_userContext user
  segment := fun inner => absurd ((ring3_userContext user).symm.trans inner) (by decide)
  room := fun inner => absurd ((ring3_userContext user).symm.trans inner) (by decide)

end Functions

/-! ### Runs -/

section Runs

variable {layout : MachineLayout} {machine : Machine} {registers : Fin 16 → Context}

theorem Sound.createTask (sound : Sound layout machine registers)
    (shell : machine.kernel.currentTask = 0) {entry name : Word} {result : Option (Fin 16)}
    {after : Kernel} (owned : Owned after) (cellular : Cellular after.heap)
    (kept : Keeps machine.kernel after)
    (current : after.currentTask = machine.kernel.currentTask)
    (cr3 : after.cr3 = machine.kernel.cr3)
    (change : Change machine.kernel (.created result) after)
    (created : createTask layout.toLayout entry name machine.kernel = some (result, after)) :
    Sound layout ⟨after, machine.context⟩
      (match result with
      | some pid => Function.update registers pid (kernelContext entry (after.tasks pid).stackBase)
      | none => registers) := by
  cases result with
  | none =>
      exact sound.called shell owned cellular kept current cr3
        (sound.change_pages change fun _ _ none => nomatch none)
        fun pid active => Or.inl ⟨active_before_change change active fun none => (nomatch none), rfl⟩
  | some pid =>
      have entered := createTask_entered created
      have notShell : pid ≠ 0 := by
        rintro rfl
        exact Bool.false_ne_true ((freePid_inactive entered.free).symm.trans sound.owned.shell)
      obtain ⟨_, stackAddress, heap, same⟩ := createTask_eq_some created
      have place := installTask_esp pid stackAddress (kernelFrame layout.toLayout entry) name none
        { machine.kernel with heap := heap }
      rw [← same] at place
      refine sound.called shell owned cellular kept current cr3
        (sound.change_pages change fun _ space new held => ?_) fun other active => ?_
      · obtain rfl := Option.some.inj new
        exact absurd (entered.addrSpace.symm.trans held) (Option.some_ne_none space ·.symm)
      · by_cases here : other = pid
        · subst here
          simp only [Function.update_self]
          refine Or.inr ⟨notShell, fits_kernelContext owned cellular notShell active
            entered.addrSpace entry, ?_⟩
          have words : frameWords (kernelContext entry (after.tasks other).stackBase) = 11 := by
            rw [frameWords, ring3_kernelContext, if_neg Bool.false_ne_true]
          exact Saved.created owned cellular notShell active (words.trans_le (by decide : 11 ≤ 12))
            (by decide) place (createTask_context created)
        · simp only [Function.update_of_ne here]
          refine Or.inl ⟨active_before_change change active fun same => here ?_, trivial⟩
          exact (Option.some.inj same).symm

theorem Sound.createUserTaskArgv (sound : Sound layout machine registers)
    (shell : machine.kernel.currentTask = 0) {task : UserTask} {result : Option (Fin 16)}
    {after : Kernel} (owned : Owned after) (cellular : Cellular after.heap)
    (kept : Keeps machine.kernel after)
    (current : after.currentTask = machine.kernel.currentTask)
    (cr3 : after.cr3 = machine.kernel.cr3)
    (change : Change machine.kernel (.created result) after)
    (code : Event.Clear layout task.codeBase task.codeSize)
    (stack : Event.Clear layout (task.userStackTop - task.userStackSize) task.userStackSize)
    (created : createUserTaskArgv layout.toLayout task machine.kernel = some (result, after)) :
    Sound layout ⟨after, machine.context⟩
      (match result with
      | some pid => Function.update registers pid (userContext task)
      | none => registers) := by
  cases result with
  | none =>
      exact sound.called shell owned cellular kept current cr3
        (sound.change_pages change fun _ _ none => nomatch none)
        fun pid active => Or.inl ⟨active_before_change change active fun none => (nomatch none), rfl⟩
  | some pid =>
      obtain ⟨space, entered, table, directory⟩ := createUserTaskArgv_entered created
      have notShell : pid ≠ 0 := by
        rintro rfl
        exact Bool.false_ne_true ((freePid_inactive entered.free).symm.trans sound.owned.shell)
      obtain ⟨_, stackAddress, heap, own, pages, _, same⟩ := createUserTaskArgv_eq_some created
      have place := installTask_esp pid stackAddress task.frame task.name (some own)
        { machine.kernel with heap := heap, pages := pages }
      rw [← same] at place
      refine sound.called shell owned cellular kept current cr3
        (sound.change_pages change fun _ found new held address inside => ?_)
        fun other active => ?_
      · obtain rfl := Option.some.inj new
        obtain rfl := Option.some.inj (entered.addrSpace.symm.trans held)
        rw [Pages.UserAccessible, table, fillIdentityTable, identityEntry_denied code stack inside,
          Bool.and_false]
      · by_cases here : other = pid
        · subst here
          simp only [Function.update_self]
          refine Or.inr ⟨notShell, fits_userContext entered.addrSpace task, ?_⟩
          have words : frameWords (userContext task) = 13 := by
            rw [frameWords, ring3_userContext, if_pos rfl]
          have loads : loadContext (after.tasks other).esp after.heap.memory = userContext task := by
            rw [loadContext, Exec.createUserTaskArgv_context created]
            exact if_pos (ring3_userContext task)
          exact Saved.created owned cellular notShell active (words.trans_le (Nat.le_refl _))
            (by decide : 13 ≤ 13) place loads
        · simp only [Function.update_of_ne here]
          refine Or.inl ⟨active_before_change change active fun same => here ?_, trivial⟩
          exact (Option.some.inj same).symm

/-- A function that creates no task. -/
theorem Sound.callOld (sound : Sound layout machine registers)
    (shell : machine.kernel.currentTask = 0) {outcome : Outcome} {after : Kernel}
    (owned : Owned after) (cellular : Cellular after.heap) (kept : Keeps machine.kernel after)
    (current : after.currentTask = machine.kernel.currentTask)
    (cr3 : after.cr3 = machine.kernel.cr3) (change : Change machine.kernel outcome after)
    (old : outcome.createdPid = none) : Sound layout ⟨after, machine.context⟩ registers := by
  refine sound.called shell owned cellular kept current cr3
    (sound.change_pages change fun _ _ new => ?_) fun pid active => Or.inl ⟨?_, rfl⟩
  · exact absurd (old.symm.trans new) (Option.some_ne_none _ ·.symm)
  · exact active_before_change change active fun new =>
      absurd (old.symm.trans new) (Option.some_ne_none _ ·.symm)

theorem Callable.allowed {op : Op} {kernel : Kernel} (owned : Owned kernel)
    (shell : kernel.currentTask = 0) (callable : Event.Callable layout op) : op.Allowed kernel := by
  have active : (kernel.tasks kernel.currentTask).active = true := shell ▸ owned.shell
  cases op with
  | kill target => exact shell
  | createTask | createUserTaskArgv | setPriority | send | recv => exact active
  | schedule | sleepAndReschedule | exitCurrent | exitAndReschedule => exact callable.elim

theorem Sound.call (sound : Sound layout machine registers) {op : Op}
    (allowed : (Event.call op).Allowed layout machine) :
    ∃ after, (Event.call op).step layout machine = some after ∧
      Sound layout after ((Event.call op).registers layout machine registers) := by
  obtain ⟨shell, callable⟩ := allowed
  have permitted := Callable.allowed sound.owned shell callable
  obtain ⟨outcome, after, performed, owned⟩ := sound.owned.perform layout.toLayout op permitted
  have cellular := sound.cellular.perform sound.owned permitted performed
  obtain ⟨kept, current, cr3⟩ :=
    Callable.keeps sound.owned sound.cellular shell callable performed
  have change := Op.change performed
  refine ⟨_, congrArg (Option.map _) performed, ?_⟩
  unfold Event.registers
  simp only [performed]
  cases op with
  | createTask entry name =>
      obtain ⟨⟨result, later⟩, created, same⟩ := Option.map_eq_some_iff.mp performed
      obtain ⟨rfl, rfl⟩ := Prod.mk.inj same
      have sound := sound.createTask shell owned cellular kept current cr3 change created
      cases result with
      | none => exact sound
      | some pid => exact sound
  | createUserTaskArgv task =>
      obtain ⟨⟨result, later⟩, created, same⟩ := Option.map_eq_some_iff.mp performed
      obtain ⟨rfl, rfl⟩ := Prod.mk.inj same
      have sound := sound.createUserTaskArgv shell owned cellular kept current cr3 change
        callable.1 callable.2 created
      cases result with
      | none => exact sound
      | some pid => exact sound
  | kill target =>
      obtain ⟨rfl, rfl⟩ := Prod.mk.inj (Option.some.inj performed)
      exact sound.callOld shell owned cellular kept current cr3 change rfl
  | setPriority target priority =>
      obtain ⟨rfl, rfl⟩ := Prod.mk.inj (Option.some.inj performed)
      exact sound.callOld shell owned cellular kept current cr3 change rfl
  | send target payload len =>
      obtain ⟨rfl, rfl⟩ := Prod.mk.inj (Option.some.inj performed)
      exact sound.callOld shell owned cellular kept current cr3 change rfl
  | recv =>
      obtain ⟨rfl, rfl⟩ := Prod.mk.inj (Option.some.inj performed)
      exact sound.callOld shell owned cellular kept current cr3 change rfl
  | _ => exact callable.elim

/-- Every event leads from one sound state to the next. -/
theorem Sound.step (sound : Sound layout machine registers) (event : Event)
    (allowed : event.Allowed layout machine) :
    ∃ after, event.step layout machine = some after ∧
      Sound layout after (event.registers layout machine registers) := by
  cases event with
  | execute context memory => exact ⟨_, rfl, sound.execute allowed⟩
  | keyboard scratch => exact ⟨_, rfl, sound.keyboard allowed⟩
  | timer scratch => exact sound.timer allowed
  | syscall scratch => exact sound.syscall allowed
  | sleep ms => exact ⟨_, rfl, sound.setTask _ rfl rfl rfl rfl⟩
  | call op => exact sound.call allowed

theorem initMultitasking_sound (memory : Memory) (frequency : Word) {context : Context}
    (fits : Fits layout 0
      ((initMultitasking layout.toLayout (booted memory frequency)).tasks 0) context) :
    Sound layout ⟨initMultitasking layout.toLayout (booted memory frequency), context⟩
      fun _ => context := by
  have noSpace : ∀ pid,
      ((initMultitasking layout.toLayout (booted memory frequency)).tasks pid).addrSpace =
        none := by
    intro pid
    by_cases shell : pid = 0
    · subst shell
      rfl
    · simp only [initMultitasking, Function.update_of_ne shell]
  have only : ∀ pid,
      ((initMultitasking layout.toLayout (booted memory frequency)).tasks pid).active = true →
        pid = 0 := by
    intro pid active
    by_contra other
    simp only [initMultitasking, Function.update_of_ne other] at active
    exact Bool.false_ne_true active
  exact
    { owned := initMultitasking_owned layout.toLayout memory frequency
      cellular := heapInit_cellular memory
      shell := noSpace 0
      fits := fun pid active => (only pid active) ▸ fits
      pages := fun pid space held => absurd ((noSpace pid).symm.trans held) (by simp)
      alive := rfl
      esp0 := fun notShell => absurd rfl notShell
      cr3 := rfl
      context := rfl
      saved := fun pid active differ => absurd (only pid active) differ }

theorem Traced.sound (traced : Traced layout machine registers) :
    Sound layout machine registers := by
  induction traced with
  | start memory frequency context fits => exact initMultitasking_sound memory frequency fits
  | step event _ allowed stepped ih =>
      obtain ⟨after, same, sound⟩ := ih.step event allowed
      obtain rfl := Option.some.inj (stepped.symm.trans same)
      exact sound

end Runs

end MxOS.Processor
