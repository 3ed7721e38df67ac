import MxOS.Lib.Bus
import MxOS.Kernel.SchedOwnership

/-! # System calls

`kernel/syscall.c`: the dispatcher of `int 0x80`. The kernel runs it with all rights, so
page protection does not apply to the pointers a task passes; every access the dispatcher
makes through one of them is recorded.

The saved registers, the task table and the screen are values of their own here and not
part of the memory that the pointers go to. A pointer to one of these is recorded as an
access like any other.
-/

namespace MxOS.Syscall

open ByteMemory Paging Ipc Sched

/-- The registers `pushal` saves. -/
structure Registers where
  edi : Word
  esi : Word
  ebp : Word
  espDummy : Word
  ebx : Word
  edx : Word
  ecx : Word
  eax : Word

abbrev sysPrint : Word := 1
abbrev sysExit : Word := 2
abbrev sysSleep : Word := 3
abbrev sysSend : Word := 4
abbrev sysRecv : Word := 5

/-- The loop of `kprint`, from character `index` on: the characters it prints and the memory it
read. Without an end of the string among 2^32 bytes all addresses have been read, and the loop
goes round. -/
def kprintFrom (str : Word) : Nat → Nat → Bus → List Byte × Bus
  | 0, _, bus => ([], bus)
  | fuel + 1, index, bus =>
      let (char, bus) := bus.load (str + BitVec.ofNat 32 index)
      if char = 0 then ([], bus)
      else
        let (printed, bus) := kprintFrom str fuel (index + 1) bus
        (char :: printed, bus)

def kprint (str : Word) (bus : Bus) : List Byte × Bus := kprintFrom str (2 ^ 32) 0 bus

/-- What a system call leads to: the accesses made for the task, the characters printed, and the
stack pointer to load, the saved registers and the kernel afterwards, unless the machine is
halted. -/
structure Effect where
  accesses : List Word
  printed : List Byte
  resumed : Option (Word × Registers × Kernel)

def setMemory (memory : Memory) (kernel : Kernel) : Kernel :=
  { kernel with heap := { kernel.heap with memory := memory } }

/-- The case of `SYS_RECV`. -/
def dispatchRecv (currentEsp : Word) (regs : Registers) (kernel : Kernel) (bus : Bus) : Effect :=
  let store := fun index byte (bus : Bus) => bus.store (regs.ebx + BitVec.ofNat 32 index) byte
  match ipcRecv store kernel bus with
  | (none, kernel, bus) =>
      ⟨bus.accesses, [], some (currentEsp, { regs with eax := 0 }, kernel)⟩
  | (some (len, sender), kernel, bus) =>
      let bus := if regs.ecx ≠ 0 then bus.store32 regs.ecx len else bus
      let bus := if regs.edx ≠ 0 then bus.store32 regs.edx (BitVec.ofInt 32 sender) else bus
      ⟨bus.accesses, [],
        some (currentEsp, { regs with eax := 1 }, setMemory bus.memory kernel)⟩

def syscallDispatch (currentEsp : Word) (regs : Registers) (kernel : Kernel) : Effect :=
  let bus : Bus := ⟨kernel.heap.memory, []⟩
  if regs.eax = sysPrint then
    let (printed, bus) := kprint regs.ebx bus
    ⟨bus.accesses, printed, some (currentEsp, regs, kernel)⟩
  else if regs.eax = sysExit then
    ⟨[], [], (taskExitAndReschedule currentEsp kernel).map fun (esp, after) => (esp, regs, after)⟩
  else if regs.eax = sysSleep then
    ⟨[], [], (taskSleepAndReschedule regs.ebx currentEsp kernel).map fun (esp, after) =>
      (esp, regs, after)⟩
  else if regs.eax = sysSend then
    let load := fun index (bus : Bus) => bus.load (regs.ecx + BitVec.ofNat 32 index)
    let (result, kernel, bus) := ipcSend load regs.ebx.toInt regs.edx kernel bus
    ⟨bus.accesses, [], some (currentEsp, { regs with eax := BitVec.ofInt 32 result }, kernel)⟩
  else if regs.eax = sysRecv then dispatchRecv currentEsp regs kernel bus
  else ⟨[], [], some (currentEsp, regs, kernel)⟩

/-! ### Accesses -/

/-- The loop reads up to and including the first zero byte. -/
theorem kprintFrom_accesses (str : Word) (fuel index : Nat) (bus : Bus) (address : Word) :
    address ∈ (kprintFrom str fuel index bus).2.accesses ↔
      address ∈ bus.accesses ∨
        ∃ offset < fuel, address = str + BitVec.ofNat 32 (index + offset) ∧
          ∀ earlier < offset, bus.memory (str + BitVec.ofNat 32 (index + earlier)) ≠ 0 := by
  induction fuel generalizing index bus with
  | zero => simp [kprintFrom]
  | succ fuel ih =>
      by_cases ended : bus.memory (str + BitVec.ofNat 32 index) = 0
      · simp only [kprintFrom, Bus.load, ended, ↓reduceIte, List.mem_append, List.mem_singleton]
        apply or_congr_right
        constructor
        · intro first
          exact ⟨0, Nat.succ_pos fuel, first, fun earlier below => absurd below (by omega)⟩
        · rintro ⟨offset, _, same, nonzero⟩
          by_cases first : offset = 0
          · rw [same, first, Nat.add_zero]
          · exact absurd ended (nonzero 0 (by omega))
      · simp only [kprintFrom, Bus.load, ended, ↓reduceIte, ih, List.mem_append,
          List.mem_singleton, or_assoc]
        apply or_congr_right
        constructor
        · rintro (first | ⟨offset, inside, same, nonzero⟩)
          · exact ⟨0, Nat.succ_pos fuel, first, fun earlier below => absurd below (by omega)⟩
          · refine ⟨offset + 1, by omega, ?_, fun earlier below => ?_⟩
            · rw [same, show index + 1 + offset = index + (offset + 1) by omega]
            · cases earlier with
              | zero => exact ended
              | succ earlier =>
                  rw [show index + (earlier + 1) = index + 1 + earlier by omega]
                  exact nonzero earlier (by omega)
        · rintro ⟨offset, inside, same, nonzero⟩
          cases offset with
          | zero => exact Or.inl same
          | succ offset =>
              refine Or.inr ⟨offset, by omega, ?_, fun earlier below => ?_⟩
              · rw [same, show index + 1 + offset = index + (offset + 1) by omega]
              · rw [show index + 1 + earlier = index + (earlier + 1) by omega]
                exact nonzero (earlier + 1) (by omega)

/-- A string is read up to its end, or everything is read if it has none. -/
theorem kprint_accesses (str : Word) (memory : Memory) (address : Word) :
    address ∈ (kprint str ⟨memory, []⟩).2.accesses ↔
      ∃ offset, address = str + BitVec.ofNat 32 offset ∧
        ∀ earlier < offset, memory (str + BitVec.ofNat 32 earlier) ≠ 0 := by
  rw [kprint, kprintFrom_accesses]
  simp only [List.not_mem_nil, false_or, Nat.zero_add]
  constructor
  · rintro ⟨offset, _, same, nonzero⟩
    exact ⟨offset, same, nonzero⟩
  · rintro ⟨offset, same, nonzero⟩
    refine ⟨offset % 2 ^ 32, Nat.mod_lt _ (by decide), ?_, fun earlier below => ?_⟩
    · rw [same]
      bv_omega
    · exact nonzero earlier (Nat.lt_of_lt_of_le below (Nat.mod_le _ _))

theorem copyIn_accesses (base : Word) (slot : Fin 4) (remaining index : Nat) (mailbox : Mailbox)
    (bus : Bus) :
    (copyIn (fun index (bus : Bus) => bus.load (base + BitVec.ofNat 32 index)) slot remaining
      index mailbox bus).2.accesses =
      bus.accesses ++ block (base + BitVec.ofNat 32 index) remaining := by
  induction remaining generalizing index mailbox bus with
  | zero => simp [copyIn]
  | succ remaining ih =>
      rw [copyIn, ih, Bus.load, block_succ, List.append_assoc, List.singleton_append]

theorem copyOut_accesses (base : Word) (mailbox : Mailbox) (slot : Fin 4) (remaining index : Nat)
    (bus : Bus) :
    (copyOut (fun index byte (bus : Bus) => bus.store (base + BitVec.ofNat 32 index) byte) mailbox
      slot remaining index bus).accesses =
      bus.accesses ++ block (base + BitVec.ofNat 32 index) remaining := by
  induction remaining generalizing index bus with
  | zero => simp [copyOut]
  | succ remaining ih =>
      rw [copyOut, ih, Bus.store, block_succ, List.append_assoc, List.singleton_append]

/-- The bytes that the arguments of a system call refer to have a property: the string to print
up to its end, the bytes of a message that is accepted, and, if there is a message to receive,
its place and the places for its length and sender. -/
def Registers.Refer (regs : Registers) (kernel : Kernel) (own : Word → Prop) : Prop :=
  let mailbox := (kernel.tasks kernel.currentTask).mailbox
  if regs.eax = sysPrint then
    ∀ offset, (∀ earlier < offset,
      kernel.heap.memory (regs.ebx + BitVec.ofNat 32 earlier) ≠ 0) →
    own (regs.ebx + BitVec.ofNat 32 offset)
  else if regs.eax = sysSend then
    ∀ pid, kernel.activePid regs.ebx.toInt = some pid →
      (kernel.tasks pid).mailbox.count.val < 4 →
      ∀ address ∈ block regs.ecx (min regs.edx.toNat 128), own address
  else if regs.eax = sysRecv then
    mailbox.count.val ≠ 0 →
      (∀ address ∈ block regs.ebx (mailbox.len mailbox.head).val, own address) ∧
      (regs.ecx ≠ 0 → ∀ address ∈ block regs.ecx 4, own address) ∧
      (regs.edx ≠ 0 → ∀ address ∈ block regs.edx 4, own address)
  else True

theorem ipcSend_accesses (base : Word) (target : Int) (len : Word) (kernel : Kernel)
    (memory : Memory) (own : Word → Prop) :
    (∀ address ∈ (ipcSend (fun index (bus : Bus) => bus.load (base + BitVec.ofNat 32 index))
        target len kernel ⟨memory, []⟩).2.2.accesses, own address) ↔
      ∀ pid, kernel.activePid target = some pid → (kernel.tasks pid).mailbox.count.val < 4 →
        ∀ address ∈ block base (min len.toNat 128), own address := by
  unfold ipcSend
  cases found : kernel.activePid target with
  | none => simp
  | some pid =>
      by_cases room : (kernel.tasks pid).mailbox.count.val < 4
      · have notFull : ¬ (kernel.tasks pid).mailbox.count.val ≥ mailboxQueueSize :=
          Nat.not_le.mpr room
        simp only [Mailbox.deposit, notFull, ↓reduceIte, copyIn_accesses, List.nil_append,
          clampLen_toNat, Option.some.injEq, forall_eq', room, forall_const, BitVec.add_zero]
      · have full : (kernel.tasks pid).mailbox.count.val ≥ mailboxQueueSize := Nat.not_lt.mp room
        simp [Mailbox.deposit, full, room]

theorem store32_accesses (bus : Bus) (pointer value : Word) :
    (if pointer ≠ 0 then bus.store32 pointer value else bus).accesses =
      bus.accesses ++ if pointer ≠ 0 then block pointer 4 else [] := by
  split
  · rfl
  · exact (List.append_nil _).symm

theorem forall_optional_block (pointer : Word) (own : Word → Prop) :
    (∀ address ∈ if pointer ≠ 0 then block pointer 4 else [], own address) ↔
      (pointer ≠ 0 → ∀ address ∈ block pointer 4, own address) := by
  split
  · next given => exact ⟨fun all _ => all, fun all => all given⟩
  · next null => exact ⟨fun _ given => absurd given null, fun _ _ member => nomatch member⟩

theorem dispatchRecv_accesses (currentEsp : Word) (regs : Registers) (kernel : Kernel)
    (memory : Memory) :
    (dispatchRecv currentEsp regs kernel ⟨memory, []⟩).accesses =
      let mailbox := (kernel.tasks kernel.currentTask).mailbox
      if mailbox.count.val = 0 then []
      else block regs.ebx (mailbox.len mailbox.head).val ++
        ((if regs.ecx ≠ 0 then block regs.ecx 4 else []) ++
          if regs.edx ≠ 0 then block regs.edx 4 else []) := by
  unfold dispatchRecv ipcRecv
  by_cases nothing : (kernel.tasks kernel.currentTask).mailbox.count.val = 0
  · simp only [Mailbox.withdraw, nothing, ↓reduceIte]
  · simp only [Mailbox.withdraw, nothing, ↓reduceIte, store32_accesses, copyOut_accesses,
      List.nil_append, BitVec.add_zero, List.append_assoc]

theorem syscallDispatch_accesses (currentEsp : Word) (regs : Registers) (kernel : Kernel)
    (own : Word → Prop) :
    (∀ address ∈ (syscallDispatch currentEsp regs kernel).accesses, own address) ↔
      regs.Refer kernel own := by
  unfold syscallDispatch Registers.Refer
  by_cases print : regs.eax = sysPrint
  · rw [if_pos print, if_pos print]
    simp only [kprint_accesses]
    constructor
    · exact fun all offset inside => all _ ⟨offset, rfl, inside⟩
    · rintro all address ⟨offset, rfl, inside⟩
      exact all offset inside
  · rw [if_neg print, if_neg print]
    by_cases send : regs.eax = sysSend
    · have others : regs.eax ≠ sysExit ∧ regs.eax ≠ sysSleep := by
        rw [send]
        decide
      rw [if_neg others.1, if_neg others.2, if_pos send, if_pos send]
      exact ipcSend_accesses ..
    · rw [if_neg send, if_neg send]
      by_cases recv : regs.eax = sysRecv
      · have others : regs.eax ≠ sysExit ∧ regs.eax ≠ sysSleep := by
          rw [recv]
          decide
        rw [if_neg others.1, if_neg others.2, if_pos recv, if_pos recv, dispatchRecv_accesses]
        by_cases nothing : (kernel.tasks kernel.currentTask).mailbox.count.val = 0
        · simp [nothing]
        · simp only [nothing, ↓reduceIte, List.forall_mem_append, forall_optional_block, ne_eq,
            not_false_eq_true, forall_const]
      · rw [if_neg recv, if_neg recv]
        by_cases exit : regs.eax = sysExit
        · rw [if_pos exit]
          simp
        · by_cases sleep : regs.eax = sysSleep
          · rw [if_neg exit, if_pos sleep]
            simp
          · rw [if_neg exit, if_neg sleep]
            simp

/-- A system call of a task with its own address space stays in the user pages of that space if
and only if its arguments refer to user pages only. The dispatcher does not check that. -/
theorem syscall_confined_iff (currentEsp : Word) (regs : Registers) (kernel : Kernel)
    (space : Fin 6) :
    (kernel.tasks kernel.currentTask).addrSpace = some space →
    ((∀ address ∈ (syscallDispatch currentEsp regs kernel).accesses,
      kernel.pages.UserAccessible space address = true) ↔
      regs.Refer kernel fun address => kernel.pages.UserAccessible space address = true) :=
  fun _ => syscallDispatch_accesses ..

/-- A state in which a task with its own address space runs, its user stack the page from
`0x2F000` on. The first block of the heap is not a user page. -/
theorem userTask_reachable : ∃ kernel, Reachable imageLayout kernel ∧
    (kernel.tasks kernel.currentTask).addrSpace = some 0 ∧
    kernel.heap.memory 0x2F000 = 0 ∧ kernel.pages.UserAccessible 0 0x2F000 = true ∧
    kernel.pages.UserAccessible 0 0x100000 = false := by
  have start : Reachable imageLayout _ := Reachable.start (fun _ => 0) 100
  have created := Reachable.step
    (.createUserTaskArgv ⟨0x9200, 0xF020, 0x30000, 0x1000, 0, 0, 0, 0⟩) start rfl rfl
  have scheduled := Reachable.step (.schedule 0x7000) created trivial rfl
  exact ⟨_, scheduled, rfl, rfl, rfl, rfl⟩

/-- The registers of a task that prints the string at the given address. -/
def printing (str : Word) : Registers where
  edi := 0
  esi := 0
  ebp := 0
  espDummy := 0
  ebx := str
  edx := 0
  ecx := 0
  eax := sysPrint

/-- Printing an empty string on the task's own stack. -/
theorem syscall_confined_own_stack : ∃ kernel, Reachable imageLayout kernel ∧
    (kernel.tasks kernel.currentTask).addrSpace = some 0 ∧
    ∀ address ∈ (syscallDispatch 0x100FE0 (printing 0x2F000) kernel).accesses,
      kernel.pages.UserAccessible 0 address = true := by
  obtain ⟨kernel, reachable, own, ended, stack, _⟩ := userTask_reachable
  refine ⟨kernel, reachable, own, (syscall_confined_iff _ _ kernel 0 own).mpr ?_⟩
  intro offset inside
  cases offset with
  | zero => exact stack
  | succ offset => exact absurd ended (inside 0 (Nat.succ_pos offset))

/-- A task prints from the heap: the kernel reads supervisor memory for it. -/
theorem print_reads_supervisor : ∃ kernel, Reachable imageLayout kernel ∧
    (kernel.tasks kernel.currentTask).addrSpace = some 0 ∧
    ¬ ∀ address ∈ (syscallDispatch 0x100FE0 (printing 0x100000) kernel).accesses,
      kernel.pages.UserAccessible 0 address = true := by
  obtain ⟨kernel, reachable, own, _, _, supervisor⟩ := userTask_reachable
  refine ⟨kernel, reachable, own, fun confined => ?_⟩
  have refer : ∀ offset, (∀ earlier < offset,
      kernel.heap.memory (0x100000 + BitVec.ofNat 32 earlier) ≠ 0) →
      kernel.pages.UserAccessible 0 (0x100000 + BitVec.ofNat 32 offset) = true :=
    (syscallDispatch_accesses ..).mp confined
  have first := refer 0 fun earlier below => absurd below (Nat.not_lt_zero earlier)
  exact Bool.false_ne_true (supervisor.symm.trans first)

end MxOS.Syscall
