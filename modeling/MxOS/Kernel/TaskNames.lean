import MxOS.Kernel.ShellArguments

/-! # The names of tasks

A task's entry in the table holds a pointer to its name. For a program started from the
shell that pointer leads into the input buffer, where the name stays until a key that is
typed later, a line brought back from the history or the terminator of another line takes
its place.
-/

namespace MxOS.Sched

open ByteMemory Mem Paging Ipc

/-! ### The pointer -/

theorem schedule_name {lastEsp esp : Word} {kernel after : Kernel}
    (scheduled : schedule lastEsp kernel = some (esp, after)) (pid : Fin 16) :
    (after.tasks pid).name = (kernel.tasks pid).name := by
  unfold schedule at scheduled
  simp only at scheduled
  split at scheduled
  · cases scheduled
    rfl
  · have woken := (findNextTask_spec (kernel.timerTick.saveEsp lastEsp)).1
    split at scheduled
    · cases scheduled
    · next next tasks elected =>
        rw [elected] at woken
        cases scheduled
        calc (tasks pid).name
            _ = ((kernel.timerTick.saveEsp lastEsp).tasks pid).name :=
              woken.part (·.name) (fun _ _ => rfl) pid
            _ = (kernel.tasks pid).name := kernel.timerTick.setTask_part (·.name) _ (by rfl) pid

theorem releaseTask_name (ended : Fin 16) (kernel : Kernel) (pid : Fin 16) :
    ((releaseTask ended kernel).tasks pid).name = (kernel.tasks pid).name := by
  by_cases here : pid = ended
  · subst here
    rw [releaseTask_self]
  · rw [releaseTask_of_ne here]

theorem taskExitCurrent_name (kernel : Kernel) (pid : Fin 16) :
    ((taskExitCurrent kernel).tasks pid).name = (kernel.tasks pid).name := by
  unfold taskExitCurrent
  split
  · exact releaseTask_name _ kernel pid
  · rfl

theorem taskKill_name (target : Int) (kernel : Kernel) (pid : Fin 16) :
    ((taskKill target kernel).2.tasks pid).name = (kernel.tasks pid).name := by
  unfold taskKill
  split
  · rfl
  · next ended _ =>
      split
      · rfl
      · exact ((releaseTask ended kernel).setTask_part (·.name) ended (by rfl) pid).trans
          (releaseTask_name ended kernel pid)

theorem taskSetPriority_name (target priority : Int) (kernel : Kernel) (pid : Fin 16) :
    ((taskSetPriority target priority kernel).tasks pid).name = (kernel.tasks pid).name := by
  unfold taskSetPriority
  split
  · rfl
  · exact kernel.setTask_part (·.name) _ (by rfl) pid

/-- A free entry is filled, so that the entries of active tasks stay. -/
theorem Entered.name {kernel after : Kernel} {created : Fin 16} {space : Option (Fin 6)}
    (entered : Entered kernel created space after) {pid : Fin 16}
    (active : (kernel.tasks pid).active = true) :
    (after.tasks pid).name = (kernel.tasks pid).name := by
  have differ : pid ≠ created := by
    intro same
    rw [same, freePid_inactive entered.free] at active
    exact Bool.false_ne_true active
  rw [entered.others pid differ]

/-- No operation changes the pointer of a task that is active. -/
theorem Op.perform_name {layout : Layout} {op : Op} {kernel after : Kernel} {outcome : Outcome}
    {pid : Fin 16} (active : (kernel.tasks pid).active = true)
    (performed : op.perform layout kernel = some (outcome, after)) :
    (after.tasks pid).name = (kernel.tasks pid).name := by
  cases op with
  | createTask entry name =>
      obtain ⟨⟨_ | created, filled⟩, result, same⟩ := Option.map_eq_some_iff.mp performed
      · obtain ⟨rfl, rfl⟩ := Prod.mk.inj same
        obtain ⟨heap, rfl⟩ := createTask_refused result
        rfl
      · obtain ⟨rfl, rfl⟩ := Prod.mk.inj same
        exact (createTask_entered result).name active
  | createUserTaskArgv task =>
      obtain ⟨⟨_ | created, filled⟩, result, same⟩ := Option.map_eq_some_iff.mp performed
      · obtain ⟨rfl, rfl⟩ := Prod.mk.inj same
        obtain ⟨heap, rfl⟩ := createUserTaskArgv_refused result
        rfl
      · obtain ⟨rfl, rfl⟩ := Prod.mk.inj same
        obtain ⟨space, entered, _⟩ := createUserTaskArgv_entered result
        exact entered.name active
  | schedule lastEsp =>
      obtain ⟨⟨esp, scheduled⟩, result, same⟩ := Option.map_eq_some_iff.mp performed
      obtain ⟨rfl, rfl⟩ := Prod.mk.inj same
      exact schedule_name result pid
  | sleepAndReschedule ms currentEsp =>
      obtain ⟨⟨esp, scheduled⟩, result, same⟩ := Option.map_eq_some_iff.mp performed
      obtain ⟨rfl, rfl⟩ := Prod.mk.inj same
      unfold taskSleepAndReschedule at result
      exact (schedule_name result pid).trans (kernel.setTask_part (·.name) _ (by rfl) pid)
  | exitCurrent =>
      obtain ⟨rfl, rfl⟩ := Prod.mk.inj (Option.some.inj performed)
      exact taskExitCurrent_name kernel pid
  | exitAndReschedule currentEsp =>
      obtain ⟨⟨esp, scheduled⟩, result, same⟩ := Option.map_eq_some_iff.mp performed
      obtain ⟨rfl, rfl⟩ := Prod.mk.inj same
      unfold taskExitAndReschedule at result
      simp only at result
      split at result
      · cases result
      · exact (schedule_name result pid).trans (taskExitCurrent_name kernel pid)
  | kill target =>
      obtain ⟨rfl, rfl⟩ := Prod.mk.inj (Option.some.inj performed)
      exact taskKill_name target kernel pid
  | setPriority target priority =>
      obtain ⟨rfl, rfl⟩ := Prod.mk.inj (Option.some.inj performed)
      exact taskSetPriority_name target priority kernel pid
  | send target payload len =>
      obtain ⟨rfl, rfl⟩ := Prod.mk.inj (Option.some.inj performed)
      change ((ipcSend (supply payload) target len kernel ()).2.1.tasks pid).name = _
      unfold ipcSend
      split
      · rfl
      · exact kernel.setTask_part (·.name) _ (by rfl) pid
  | recv =>
      obtain ⟨rfl, rfl⟩ := Prod.mk.inj (Option.some.inj performed)
      exact kernel.setTask_part (·.name) _ (by rfl) pid

theorem Act.step_name {layout : Layout} {act : Act} {kernel after : Kernel} {pid : Fin 16}
    (active : (kernel.tasks pid).active = true) (stepped : act.step layout kernel = some after) :
    (after.tasks pid).name = (kernel.tasks pid).name := by
  cases act with
  | sleep ms =>
      obtain rfl := Option.some.inj stepped
      unfold taskSleep
      exact kernel.setTask_part (·.name) _ (by rfl) pid
  | perform op =>
      obtain ⟨⟨outcome, performedKernel⟩, performed, rfl⟩ := Option.map_eq_some_iff.mp stepped
      exact op.perform_name active performed

end MxOS.Sched

namespace MxOS.Exec

open Sched

/-- What `exec_run` does to the pointers of the tasks. -/
theorem execRun_name {layout : ExecLayout} {drive : Ata.Drive} {command : Command}
    {machine after : Machine} {result : Option (Fin 16)}
    (ran : execRun layout drive command machine = some (result, after)) :
    (∀ pid, result = some pid →
      (after.kernel.tasks pid).name = command.nameAddress) ∧
    ∀ pid, (machine.kernel.tasks pid).active = true →
      (after.kernel.tasks pid).name = (machine.kernel.tasks pid).name := by
  unfold execRun at ran
  split at ran
  · cases ran
    exact ⟨fun _ none => (nomatch none), fun _ _ => rfl⟩
  · next slot _ =>
      cases launch_launch ran with
      | failed aside =>
          obtain ⟨heap, same⟩ := aside.kernel
          rw [same]
          exact ⟨fun _ none => (nomatch none), fun _ _ => rfl⟩
      | started created entry heap filled _ =>
          constructor
          · intro pid same
            obtain rfl := Option.some.inj same
            obtain ⟨_, stackAddress, _, space, pages, _, installed⟩ :=
              createUserTaskArgv_eq_some filled
            rw [installed, installTask_self]
            rfl
          · intro pid active
            obtain ⟨space, entered, _⟩ := createUserTaskArgv_entered filled
            exact entered.ofHeap.name active

end MxOS.Exec

namespace MxOS.Shell

open ByteMemory Ata Fs Lines Input Sched Exec

section Commands

variable {layout : ShellLayout} {drive : Drive} {system after : System} {pid : Fin 16}

theorem runKill_name (system : System) (pid : Fin 16) :
    ((runKill system).machine.kernel.tasks pid).name =
      (system.machine.kernel.tasks pid).name := by
  unfold runKill
  simp only
  split
  · rfl
  · generalize (readNumber _ _).1.toInt = target
    have kept := taskKill_name target system.machine.kernel pid
    split
    · next killed =>
        rw [killed] at kept
        exact kept
    · next refused =>
        rw [refused] at kept
        exact kept

theorem runPriority_name (system : System) (pid : Fin 16) :
    ((runPriority system).machine.kernel.tasks pid).name =
      (system.machine.kernel.tasks pid).name := by
  unfold runPriority
  simp only
  split
  · rfl
  · split
    · split
      · rfl
      · simp only [System.print]
        exact taskSetPriority_name _ _ system.machine.kernel pid
    · split
      · rfl
      · simp only [System.print]
        exact taskSetPriority_name _ _ system.machine.kernel pid

/-- A command changes no pointer of an active task. -/
theorem Carried.name (carried : Carried layout drive system after)
    (active : (system.machine.kernel.tasks pid).active = true) :
    (after.machine.kernel.tasks pid).name = (system.machine.kernel.tasks pid).name := by
  cases carried with
  | other _ kernel => rw [kernel]
  | exec ran =>
      unfold runExec at ran
      simp only at ran
      split at ran
      · obtain rfl := Option.some.inj ran
        rfl
      · obtain ⟨⟨result, machine⟩, executed, rfl⟩ := Option.map_eq_some_iff.mp ran
        exact (execRun_name executed).2 pid active
  | kill => exact runKill_name system pid
  | priority => exact runPriority_name system pid
  | write =>
      unfold runWrite
      simp only
      split
      · rfl
      · rfl

theorem Event.step_name {event : Event} (active : (system.machine.kernel.tasks pid).active = true)
    (stepped : event.step layout drive system = some after) :
    (after.machine.kernel.tasks pid).name = (system.machine.kernel.tasks pid).name := by
  cases event with
  | act action =>
      obtain ⟨kernel, acted, rfl⟩ := Option.map_eq_some_iff.mp stepped
      exact Act.step_name active acted
  | elsewhere memory fs =>
      obtain rfl := Option.some.inj stepped
      rfl
  | key c =>
      change shellUpdate layout drive c system = some after at stepped
      unfold shellUpdate at stepped
      split at stepped
      · obtain ⟨carried, ran, rfl⟩ := Option.map_eq_some_iff.mp stepped
        exact (runCommand_carried ran).name active
      · obtain rfl := Option.some.inj stepped
        rfl

/-! ### Where bytes of the buffer change -/

theorem runExec_inputBuffer (ran : runExec layout drive system = some after) :
    after.editor.inputBuffer = (execArguments system.editor.inputBuffer).2 := by
  unfold runExec at ran
  generalize execArguments system.editor.inputBuffer = arguments at ran ⊢
  simp only at ran
  split at ran
  · obtain rfl := Option.some.inj ran
    rfl
  · obtain ⟨answer, _, rfl⟩ := Option.map_eq_some_iff.mp ran
    rfl

theorem runWrite_bytes (drive : Drive) (system : System) {place : Nat}
    (kept : byteAt system.editor.inputBuffer place ≠ space) :
    byteAt (runWrite drive system).editor.inputBuffer place =
      byteAt system.editor.inputBuffer place := by
  unfold runWrite
  simp only
  generalize scanWhile (fun c => decide (c ≠ 0 ∧ c ≠ space)) _ _ = stop
  split
  · next ends =>
      refine Function.update_of_ne (fun here => kept ?_) ..
      rw [← ends]
      exact congrArg system.editor.inputBuffer here
  · rfl

/-- A command writes over spaces only. -/
theorem Carried.bytes (carried : Carried layout drive system after) {place : Nat}
    (kept : byteAt system.editor.inputBuffer place ≠ space) :
    byteAt after.editor.inputBuffer place = byteAt system.editor.inputBuffer place := by
  cases carried with
  | other editor _ => rw [editor]
  | exec ran =>
      rw [runExec_inputBuffer ran]
      exact execArguments_bytes _ kept
  | kill => rw [runKill_editor]
  | priority => rw [runPriority_editor]
  | write => exact runWrite_bytes drive system kept

end Commands

/-- The line that the key for older lines brings back. -/
def Editor.olderLine (editor : Editor) : List Byte :=
  if editor.historyCount = 0 then []
  else
    let steps :=
      if editor.historyNav = -1 then 0
      else if editor.historyNav + 1 < maxSteps editor.toSession then editor.historyNav + 1
      else editor.historyNav
    editor.line (slotBack editor.toSession steps.toNat)

/-- The line that the key for newer lines brings back. -/
def Editor.newerLine (editor : Editor) : List Byte :=
  if editor.historyNav = -1 then []
  else if editor.historyNav = 0 then editor.saved
  else editor.line (slotBack editor.toSession (editor.historyNav - 1).toNat)

/-- What a key stores at a place of the input buffer. -/
def Editor.stores (c : Byte) (editor : Editor) (place : Nat) : Option Byte :=
  if c = newline then if place = editor.bufferIdx then some 0 else none
  else if c = backspace then none
  else if c = keyArrowUp then editor.olderLine[place]?
  else if c = keyArrowDown then editor.newerLine[place]?
  else if place = editor.bufferIdx ∧ editor.bufferIdx < 255 then some c
  else none

theorem byteAt_copied (source target : Buffer) (length : Nat) {place : Nat}
    (inside : place < 256) :
    byteAt (fun index => if index.val < length then source index else target index) place =
      ((slice (fun index => source (Fin.ofNat 256 index)) 0 length)[place]?).getD
        (byteAt target place) := by
  have value : (Fin.ofNat 256 place).val = place := Nat.mod_eq_of_lt inside
  unfold byteAt
  simp only [value]
  by_cases copied : place < length
  · rw [if_pos copied, getElem?_slice _ copied, Nat.zero_add, Option.getD_some]
  · rw [if_neg copied, List.getElem?_eq_none (by rw [length_slice]; omega), Option.getD_none]

theorem historyUp_bytes (editor : Editor) (fs : State) {place : Nat} (inside : place < 256) :
    byteAt (historyUp editor fs).1.inputBuffer place =
      editor.olderLine[place]?.getD (byteAt editor.inputBuffer place) := by
  unfold historyUp Editor.olderLine
  by_cases empty : editor.historyCount = 0
  · rw [if_pos empty, if_pos empty]
    rfl
  · rw [if_neg empty, if_neg empty]
    simp only
    by_cases fresh : editor.historyNav = -1
    · rw [if_pos fresh, if_pos fresh]
      exact byteAt_copied _ _ _ inside
    · rw [if_neg fresh, if_neg fresh]
      by_cases further : editor.historyNav + 1 < maxSteps editor.toSession
      · rw [if_pos further, if_pos further]
        exact byteAt_copied _ _ _ inside
      · rw [if_neg further, if_neg further]
        exact byteAt_copied _ _ _ inside

theorem historyDown_bytes (editor : Editor) (fs : State) {place : Nat} (inside : place < 256) :
    byteAt (historyDown editor fs).1.inputBuffer place =
      editor.newerLine[place]?.getD (byteAt editor.inputBuffer place) := by
  unfold historyDown Editor.newerLine
  by_cases fresh : editor.historyNav = -1
  · rw [if_pos fresh, if_pos fresh]
    rfl
  · rw [if_neg fresh, if_neg fresh]
    by_cases newest : editor.historyNav = 0
    · rw [if_pos newest, if_pos newest]
      exact byteAt_copied _ _ _ inside
    · rw [if_neg newest, if_neg newest]
      exact byteAt_copied _ _ _ inside

theorem byteAt_stored (buffer : Buffer) {idx place : Nat} (room : idx ≤ 255)
    (inside : place < 256) (c : Byte) :
    byteAt (Function.update buffer (Fin.ofNat 256 idx) c) place =
      (if place = idx then some c else none).getD (byteAt buffer place) := by
  rw [byteAt_update (by omega) inside]
  by_cases here : place = idx
  · rw [if_pos here, if_pos here]
    rfl
  · rw [if_neg here, if_neg here]
    rfl

/-- A key other than Enter stores nothing else. -/
theorem edit_bytes {c : Byte} (key : c ≠ newline) {editor : Editor}
    (idx : editor.bufferIdx ≤ 255) (fs : State) {place : Nat} (inside : place < 256) :
    byteAt (edit c editor fs).1.inputBuffer place =
      (editor.stores c place).getD (byteAt editor.inputBuffer place) := by
  unfold edit Editor.stores
  rw [if_neg key]
  by_cases erases : c = backspace
  · rw [if_pos erases, if_pos erases]
    split
    · rfl
    · rfl
  · rw [if_neg erases, if_neg erases]
    by_cases older : c = keyArrowUp
    · rw [if_pos older, if_pos older]
      exact historyUp_bytes editor fs inside
    · rw [if_neg older, if_neg older]
      by_cases newer : c = keyArrowDown
      · rw [if_pos newer, if_pos newer]
        exact historyDown_bytes editor fs inside
      · rw [if_neg newer, if_neg newer]
        by_cases room : editor.bufferIdx < 255
        · rw [if_pos room]
          simp only [room, and_true]
          exact byteAt_stored _ idx inside c
        · rw [if_neg room, if_neg fun both => room both.2]
          rfl

/-- What an event stores at a place of the input buffer. A command writes zeros over spaces
besides. -/
def Event.stores (system : System) (place : Nat) : Event → Option Byte
  | .key c => system.editor.stores c place
  | _ => none

section Steps

variable {layout : ShellLayout} {drive : Drive} {event : Event} {system after : System}
  {place : Nat}

theorem enter_bytes (idx : system.editor.bufferIdx ≤ 255) (inside : place < 256) :
    byteAt (system.enter drive).editor.inputBuffer place =
      (system.editor.stores newline place).getD (byteAt system.editor.inputBuffer place) := by
  have buffer : (system.enter drive).editor.inputBuffer =
      Function.update system.editor.inputBuffer (Fin.ofNat 256 system.editor.bufferIdx) 0 :=
    enterLine_inputBuffer drive system.editor _
  rw [buffer, byteAt_stored _ idx inside, Editor.stores, if_pos rfl]

theorem Event.step_bytes (idx : system.editor.bufferIdx ≤ 255) (inside : place < 256)
    (stepped : event.step layout drive system = some after) :
    (∀ c, event.stores system place = some c → byteAt after.editor.inputBuffer place = c) ∧
      (event.stores system place = none → byteAt system.editor.inputBuffer place ≠ space →
        byteAt after.editor.inputBuffer place = byteAt system.editor.inputBuffer place) := by
  cases event with
  | act action =>
      obtain ⟨kernel, _, rfl⟩ := Option.map_eq_some_iff.mp stepped
      exact ⟨fun _ none => (nomatch none), fun _ _ => rfl⟩
  | elsewhere memory fs =>
      obtain rfl := Option.some.inj stepped
      exact ⟨fun _ none => (nomatch none), fun _ _ => rfl⟩
  | key c =>
      change (∀ byte, system.editor.stores c place = some byte → _) ∧
        (system.editor.stores c place = none → _)
      change shellUpdate layout drive c system = some after at stepped
      unfold shellUpdate at stepped
      by_cases enter : c = newline
      · rw [if_pos enter] at stepped
        obtain ⟨carried, ran, rfl⟩ := Option.map_eq_some_iff.mp stepped
        have kept : byteAt (system.enter drive).editor.inputBuffer place ≠ space →
            byteAt carried.editor.inputBuffer place =
              byteAt (system.enter drive).editor.inputBuffer place :=
          (runCommand_carried ran).bytes
        rw [enter_bytes idx inside] at kept
        subst enter
        constructor
        · intro byte stored
          rw [stored] at kept
          refine kept fun blank => ?_
          rw [Editor.stores, if_pos rfl] at stored
          split at stored
          · obtain rfl := Option.some.inj stored
            exact absurd (show (0 : Byte) = space from blank) (by decide)
          · cases stored
        · intro nothing visible
          rw [nothing] at kept
          exact kept visible
      · rw [if_neg enter] at stepped
        obtain rfl := Option.some.inj stepped
        have bytes := edit_bytes enter idx system.machine.fs inside
        constructor
        · intro byte stored
          rw [stored] at bytes
          exact bytes
        · intro nothing _
          rw [nothing] at bytes
          exact bytes

end Steps

/-! ### The name in the buffer -/

/-- Whatever the event stores among the bytes of the name and its terminator is there already. -/
def Event.Spares (name : Nat) (text : List Byte) (event : Event) (system : System) : Prop :=
  ∀ index < text.length + 1, ∀ c ∈ event.stores system (name + index),
    (text ++ [0])[index]? = some c

instance (name : Nat) (text : List Byte) (event : Event) (system : System) :
    Decidable (event.Spares name text system) :=
  inferInstanceAs (Decidable (∀ index < text.length + 1,
    ∀ c ∈ event.stores system (name + index), (text ++ [0])[index]? = some c))

/-- Exactly the events that spare a name leave it in the buffer. -/
theorem HoldsAt.step_iff {layout : ShellLayout} {drive : Drive} {event : Event}
    {system after : System} {name : Nat} {text : List Byte} (spaceFree : space ∉ text)
    (idx : system.editor.bufferIdx ≤ 255)
    (holds : HoldsAt system.editor.inputBuffer name (text ++ [0]))
    (stepped : event.step layout drive system = some after) :
    HoldsAt after.editor.inputBuffer name (text ++ [0]) ↔ event.Spares name text system := by
  have fits := holds.fits
  rw [List.length_append, List.length_singleton] at fits
  constructor
  · intro later index inside c stored
    have byte := (event.step_bytes idx (by omega) stepped).1 c stored
    have found := List.getElem?_eq_getElem (show index < (text ++ [0]).length by simpa using inside)
    rw [found, ← byte, later.bytes index _ found]
  · intro spares
    refine ⟨holds.fits, fun index c found => ?_⟩
    have inside := (List.getElem?_eq_some_iff.mp found).1
    rw [List.length_append, List.length_singleton] at inside
    have place : name + index < 256 := by omega
    obtain ⟨stores, keeps⟩ := event.step_bytes idx place stepped
    cases stored : event.stores system (name + index) with
    | none =>
        have byte := holds.bytes index c found
        have visible : c ≠ space := by
          rintro rfl
          rcases List.mem_append.mp (List.mem_of_getElem? found) with member | last
          · exact spaceFree member
          · exact absurd (List.mem_singleton.mp last) (by decide)
        rw [keeps stored (byte ▸ visible), byte]
    | some d =>
        have same := spares index inside d stored
        rw [stores d stored]
        exact Option.some.inj (same.symm.trans found)

/-- A pointer into the input buffer is the name found there. -/
theorem nameText_place (layout : ShellLayout) (buffer : Buffer) {place : Nat}
    (inside : place < 256) :
    nameText layout buffer (layout.inputBuffer + BitVec.ofNat 32 place) =
      (textAt buffer place).bytes := by
  have noWrap := layout.bufferNoWrap
  have notNull : layout.inputBuffer.toNat ≠ 0 := fun zero =>
    layout.bufferNotNull (BitVec.eq_of_toNat_eq zero)
  have address : (layout.inputBuffer + BitVec.ofNat 32 place).toNat =
      layout.inputBuffer.toNat + place := by
    rw [BitVec.toNat_add, BitVec.toNat_ofNat]
    omega
  have offset : (layout.inputBuffer + BitVec.ofNat 32 place - layout.inputBuffer).toNat =
      place := by
    rw [BitVec.toNat_sub, address]
    omega
  rw [nameText, if_neg, if_pos (by rw [offset]; exact inside), offset]
  intro zero
  rw [zero] at address
  change 0 = _ at address
  omega

/-- What `sched_dump_tasks` prints as the name of a task. -/
def System.shownName (layout : ShellLayout) (pid : Fin 16) (system : System) : List Byte :=
  nameText layout system.editor.inputBuffer (system.machine.kernel.tasks pid).name

/-- Enter started a program: `exec_run` was called with the string at a place of the buffer as
the name, and returned the number of the task. -/
structure Launched (layout : ShellLayout) (drive : Drive) (system : System) (name : Nat)
    (text : List Byte) (pid : Fin 16) (after : System) : Prop where
  command : literal "exec " <+: (textAt (system.enter drive).editor.inputBuffer 0).bytes
  executed : shellUpdate layout drive newline system = some after
  started : ∃ others buffer machine,
    execArguments (system.enter drive).editor.inputBuffer = (name :: others, buffer) ∧
    (textAt buffer name).bytes = text ∧
    execRun layout.toExecLayout drive (execCommand layout name (name :: others) buffer)
      (system.enter drive).machine = some (some pid, machine)

/-- The terminated line in the buffer when the commands are compared with it. -/
theorem enter_holds_text {system : System} (idx : system.editor.bufferIdx ≤ 255) (drive : Drive) :
    HoldsAt (system.enter drive).editor.inputBuffer 0
      ((textAt (system.enter drive).editor.inputBuffer 0).bytes ++ [0]) := by
  have zero : byteAt (system.enter drive).editor.inputBuffer system.editor.bufferIdx = 0 := by
    rw [enter_bytes idx (by omega), Editor.stores, if_pos rfl, if_pos rfl]
    rfl
  have short := length_textAt_le (Nat.zero_le _) (by omega) zero
  exact (holdsAt_iff_textAt (by omega) (textAt _ 0).nulFree).mpr rfl

section Launch

variable {layout : ShellLayout} {drive : Drive} {system after : System} {name : Nat}
  {text : List Byte} {pid : Fin 16}

theorem Launched.outcome (launched : Launched layout drive system name text pid after) :
    ∃ others machine,
      execArguments (system.enter drive).editor.inputBuffer =
        (name :: others, after.editor.inputBuffer) ∧
      (textAt after.editor.inputBuffer name).bytes = text ∧
      execRun layout.toExecLayout drive
        (execCommand layout name (name :: others) after.editor.inputBuffer)
        (system.enter drive).machine = some (some pid, machine) ∧
      after.machine.kernel = machine.kernel := by
  obtain ⟨⟨rest, spelled⟩, executed, others, buffer, machine, split, named, ran⟩ := launched
  rw [shellUpdate, if_pos rfl, shellExecute, runCommand_exec spelled.symm, runExec] at executed
  rw [split] at executed
  change ((execRun _ _ _ (system.enter drive).machine).map _).map _ = _ at executed
  rw [ran] at executed
  obtain rfl := Option.some.inj executed
  exact ⟨others, machine, split, named, ran, rfl⟩

/-- The name stands in the buffer where the pointer of the task leads. -/
theorem Launched.holds (launched : Launched layout drive system name text pid after)
    (idx : system.editor.bufferIdx ≤ 255) :
    HoldsAt after.editor.inputBuffer name (text ++ [0]) ∧ space ∉ text ∧ 0 ∉ text ∧
      (after.machine.kernel.tasks pid).name = layout.inputBuffer + BitVec.ofNat 32 name := by
  obtain ⟨others, machine, split, named, ran, kernel⟩ := launched.outcome
  have held := enter_holds_text idx drive
  have nulFree := (textAt (system.enter drive).editor.inputBuffer 0).nulFree
  have words := execArguments_spec held nulFree launched.command
  obtain ⟨rest, spelled⟩ := launched.command
  have textNulFree : 0 ∉ text := named ▸ (textAt after.editor.inputBuffer name).nulFree
  have room : name + text.length < 256 := by
    have behind : HoldsAt (system.enter drive).editor.inputBuffer 5 (rest ++ [0]) := by
      rw [← spelled, List.append_assoc] at held
      exact held.right
    obtain ⟨spaces, skipped, _, argument, _⟩ := behind.skipSpaces
    have start : name = 5 + spaces := by
      rw [← skipped]
      exact splitArguments_first (congrArg Prod.fst split)
    have zero := argument.right.head
    have kept := execArguments_bytes (system.enter drive).editor.inputBuffer
      (by rw [zero]; decide)
    rw [split, zero, ← start] at kept
    have fits := argument.fits
    rw [List.length_append, List.length_singleton] at fits
    have short := length_textAt_le (Nat.le_add_right ..) (by omega) kept
    rw [named] at short
    omega
  refine ⟨(holdsAt_iff_textAt room textNulFree).mpr named, ?_, textNulFree, ?_⟩
  · have member : text ∈ (execWords
        (textAt (system.enter drive).editor.inputBuffer 0).bytes).take execMaxArgs := by
      rw [← words, split, List.map_cons]
      exact named ▸ List.mem_cons_self ..
    exact (isLine_of_mem_pieces space List.not_mem_nil (List.mem_of_mem_take member)).2
  · rw [kernel]
    exact (execRun_name ran).1 pid rfl

end Launch

/-- The shell is in step with some reference editor. -/
def System.Tracked (system : System) : Prop := ∃ reference, Tracks system.editor reference

theorem System.Tracked.step {layout : ShellLayout} {drive : Drive} {event : Event}
    {system after : System} (tracked : system.Tracked)
    (stepped : event.step layout drive system = some after) : after.Tracked := by
  obtain ⟨reference, tracks⟩ := tracked
  exact ⟨_, tracks.step stepped⟩

theorem System.Tracked.idx {system : System} (tracked : system.Tracked) :
    system.editor.bufferIdx ≤ 255 := by
  obtain ⟨reference, tracks⟩ := tracked
  exact tracks.idx

/-- The pointer of an active task leads to a place of the buffer. -/
structure Points (layout : ShellLayout) (pid : Fin 16) (name : Nat) (system : System) : Prop where
  tracked : system.Tracked
  active : (system.machine.kernel.tasks pid).active = true
  pointer : (system.machine.kernel.tasks pid).name = layout.inputBuffer + BitVec.ofNat 32 name

/-- From the launch of a program on, while its task is active, the name shown for it is the name
it was started with if and only if no key stores another byte among those of the name in the
input buffer. -/
theorem task_names_stable_iff (layout : ShellLayout) (drive : Drive) (fs : State)
    (start : System) (initially : start.editor = (shellInit drive fs).1) (before : List Event)
    (system : System) (reached : EventRun.run (Event.step layout drive) before start = some system)
    (name : Nat) (text : List Byte) (pid : Fin 16) (after : System)
    (launched : Launched layout drive system name text pid after) (events : List Event)
    (last : System) (ran : EventRun.run (Event.step layout drive) events after = some last)
    (active : EventRun.Throughout (Event.step layout drive)
      (fun state => (state.machine.kernel.tasks pid).active = true) events after) :
    EventRun.Throughout (Event.step layout drive)
        (fun state => state.shownName layout pid = text) events after ↔
      EventRun.Along (Event.step layout drive) (Event.Spares name text) events after := by
  obtain ⟨earlier, _, _, initial⟩ := shellInit_tracks drive fs
  rw [← initially] at initial
  have tracked : system.Tracked :=
    EventRun.run_invariant (fun tracked stepped => System.Tracked.step tracked stepped)
      ⟨_, initial⟩ reached
  have trackedAfter : after.Tracked :=
    tracked.step (show Event.step layout drive (.key newline) system = some after from
      launched.executed)
  obtain ⟨holds, spaceFree, nulFree, pointer⟩ := launched.holds tracked.idx
  have fits := holds.fits
  rw [List.length_append, List.length_singleton] at fits
  -- While the task is active its pointer stays, and what is shown is the text it leads to.
  have shown : ∀ {state : System}, (state.machine.kernel.tasks pid).name =
      layout.inputBuffer + BitVec.ofNat 32 name →
      (state.shownName layout pid = text ↔
        HoldsAt state.editor.inputBuffer name (text ++ [0])) := by
    intro state same
    rw [System.shownName, same, nameText_place layout _ (by omega),
      holdsAt_iff_textAt (by omega) nulFree]
  have invariant : EventRun.Throughout (Event.step layout drive) (fun state => state.Tracked ∧
      (state.machine.kernel.tasks pid).name = layout.inputBuffer + BitVec.ofNat 32 name)
      events after :=
    active.invariant (fun ⟨tracked, same⟩ running stepped =>
      ⟨tracked.step stepped, (Event.step_name running stepped).trans same⟩)
      ⟨trackedAfter, pointer⟩
  have points : EventRun.Throughout (Event.step layout drive) (Points layout pid name) events
      after := by
    intro earlier later same state ran
    obtain ⟨tracked, pointer⟩ := invariant earlier later same state ran
    exact ⟨tracked, active earlier later same state ran, pointer⟩
  refine EventRun.throughout_iff_along (fun points good stepped => ?_) points
    ((shown pointer).mpr holds) ran
  rw [shown ((Event.step_name points.active stepped).trans points.pointer)]
  exact HoldsAt.step_iff spaceFree points.tracked.idx ((shown points.pointer).mp good) stepped

/-- A shell that has just started, on a machine with one program on its disk. -/
def greeted : System :=
  { typing [] with editor := (shellInit readyDrive (typing []).machine.fs).1 }

def typed (text : String) : List Event := (literal text).map .key

/-- The line `exec hello` starts a task, in a state that can be tested. -/
theorem hello_launched {test : System → Bool}
    (passed : (EventRun.run (Event.step imageShell readyDrive) (typed "exec hello\n")
      greeted).any test = true) : ∃ system after,
    EventRun.run (Event.step imageShell readyDrive) (typed "exec hello") greeted = some system ∧
    Launched imageShell readyDrive system 5 (literal "hello") 1 after ∧ test after = true := by
  have started : ((EventRun.run (Event.step imageShell readyDrive) (typed "exec hello")
      greeted).any fun system =>
        let entered := system.enter readyDrive
        let arguments := execArguments entered.editor.inputBuffer
        decide (literal "exec " <+: (textAt entered.editor.inputBuffer 0).bytes) &&
          decide (arguments.1 = [5]) && decide ((textAt arguments.2 5).bytes = literal "hello") &&
          (execRun imageShell.toExecLayout readyDrive (execCommand imageShell 5 [5] arguments.2)
            entered.machine).any fun answer => answer.1 = some 1) = true := by
    decide +kernel
  obtain ⟨system, reached, facts⟩ := (Option.any_eq_true ..).mp started
  simp only [Bool.and_eq_true, decide_eq_true_eq] at facts
  obtain ⟨⟨⟨command, split⟩, named⟩, launched⟩ := facts
  obtain ⟨⟨result, machine⟩, ran, number⟩ := (Option.any_eq_true ..).mp launched
  obtain rfl : result = some 1 := of_decide_eq_true number
  obtain ⟨after, ended, passed⟩ := (Option.any_eq_true ..).mp passed
  obtain ⟨middle, typedLine, executed⟩ := (EventRun.run_snoc_eq_some _).mp
    (show EventRun.run _ (typed "exec hello" ++ [.key newline]) greeted = some after from ended)
  obtain rfl := Option.some.inj (reached.symm.trans typedLine)
  exact ⟨system, after, reached,
    ⟨command, executed, [], _, machine, Prod.ext split rfl, named, ran⟩, passed⟩

/-- The table is asked for, and the line of the launch is brought back. -/
theorem recalled_launch_keeps_name : ∃ system after last,
    EventRun.run (Event.step imageShell readyDrive) (typed "exec hello") greeted = some system ∧
    Launched imageShell readyDrive system 5 (literal "hello") 1 after ∧
    EventRun.run (Event.step imageShell readyDrive)
      (typed "ps\n" ++ [.key keyArrowUp, .key keyArrowUp]) after = some last ∧
    last.editor.inputLine = literal "exec hello" ∧
    last.shownName imageShell 1 = literal "hello" := by
  let events : List Event := typed "ps\n" ++ [.key keyArrowUp, .key keyArrowUp]
  obtain ⟨system, after, reached, launched, passed⟩ := @hello_launched
    (fun after =>
      decide (EventRun.Throughout (Event.step imageShell readyDrive)
        (fun state => (state.machine.kernel.tasks 1).active = true) events after) &&
      decide (EventRun.Along (Event.step imageShell readyDrive)
        (Event.Spares 5 (literal "hello")) events after) &&
      (EventRun.run (Event.step imageShell readyDrive) events after).any fun last =>
        last.editor.inputLine = literal "exec hello") (by decide +kernel)
  simp only [Bool.and_eq_true, decide_eq_true_eq] at passed
  obtain ⟨⟨active, spared⟩, recalled⟩ := passed
  obtain ⟨last, ran, line⟩ := (Option.any_eq_true ..).mp recalled
  refine ⟨system, after, last, reached, launched, ran, of_decide_eq_true line, ?_⟩
  exact (task_names_stable_iff imageShell readyDrive _ greeted rfl _ system reached 5 _ 1 after
    launched events last ran active).mpr spared events [] (List.append_nil _).symm last ran

/-- After the command `uptime`, `ps` shows a task by another name. -/
theorem typed_command_changes_name : ∃ system after last,
    EventRun.run (Event.step imageShell readyDrive) (typed "exec hello") greeted = some system ∧
    Launched imageShell readyDrive system 5 (literal "hello") 1 after ∧
    EventRun.run (Event.step imageShell readyDrive) (typed "uptime\nps\n") after = some last ∧
    EventRun.Throughout (Event.step imageShell readyDrive)
      (fun state => (state.machine.kernel.tasks 1).active = true) (typed "uptime\nps\n") after ∧
    ¬ EventRun.Throughout (Event.step imageShell readyDrive)
      (fun state => state.shownName imageShell 1 = literal "hello") (typed "uptime\nps\n") after ∧
    last.shownName imageShell 1 = literal "e" ∧
    taskLine last.machine.kernel (literal "e") 1 ++ literal "\n> " <:+
      last.machine.fs.console := by
  obtain ⟨system, after, reached, launched, passed⟩ := @hello_launched
    (fun after =>
      decide (EventRun.Throughout (Event.step imageShell readyDrive)
        (fun state => (state.machine.kernel.tasks 1).active = true) (typed "uptime\nps\n") after) &&
      (EventRun.run (Event.step imageShell readyDrive) (typed "uptime\nps\n") after).any fun last =>
        last.shownName imageShell 1 = literal "e" ∧
          taskLine last.machine.kernel (literal "e") 1 ++ literal "\n> " <:+
            last.machine.fs.console) (by decide +kernel)
  rw [Bool.and_eq_true, decide_eq_true_eq] at passed
  obtain ⟨active, changed⟩ := passed
  obtain ⟨last, ran, shown⟩ := (Option.any_eq_true ..).mp changed
  obtain ⟨name, line⟩ := of_decide_eq_true shown
  refine ⟨system, after, last, reached, launched, ran, active, fun stable => ?_, name, line⟩
  have kept := stable _ [] (List.append_nil _).symm last ran
  exact absurd (name.symm.trans kept) (by decide)

end MxOS.Shell
