import MxOS.Kernel.TaskNames

/-! # The numbers of `kill` and `priority`

Both commands read the number of a task digit by digit into a 32-bit variable. The number
they act on is the value of the digits modulo 2 ^ 32, so a string with a larger value may
name a task all the same.
-/

namespace MxOS.Shell

open ByteMemory Ata Fs Lines Input Sched Exec

/-! ### Values of digits -/

/-- The value of a string of decimal digits. -/
def decimal (digits : List Byte) : Nat :=
  digits.foldl (fun value digit => value * 10 + (digit.toNat - 0x30)) 0

/-- The accumulation of the shell is that of the value, modulo 2 ^ 32. -/
theorem accumulate_eq {digits : List Byte} (all : ∀ c ∈ digits, isDigit c = true) (value : Nat) :
    digits.foldl (fun value digit => value * 10 + (digit - 0x30).setWidth 32)
        (BitVec.ofNat 32 value) =
      BitVec.ofNat 32
        (digits.foldl (fun value digit => value * 10 + (digit.toNat - 0x30)) value) := by
  induction digits generalizing value with
  | nil => rfl
  | cons digit rest ih =>
      have low : 0x30 ≤ digit := (of_decide_eq_true (all digit (List.mem_cons_self ..))).1
      have added : (digit - 0x30).setWidth 32 = BitVec.ofNat 32 (digit.toNat - 0x30) := by
        apply BitVec.eq_of_toNat_eq
        rw [BitVec.toNat_setWidth, BitVec.toNat_sub_of_le low, BitVec.toNat_ofNat]
        rfl
      rw [List.foldl_cons, List.foldl_cons,
        ← ih (fun other member => all other (List.mem_cons_of_mem _ member)), added,
        BitVec.ofNat_add, BitVec.ofNat_mul]
      rfl

section Scans

variable {buffer : Buffer} {p : Nat} {text : List Byte}

/-- The byte at a place is the first of the text, or its terminator. -/
theorem HoldsAt.byteAt_eq (holds : HoldsAt buffer p (text ++ [0])) :
    byteAt buffer p = text.head?.getD 0 := by
  cases text with
  | nil => exact holds.head
  | cons c rest => exact holds.head

theorem HoldsAt.readNumber_eq (holds : HoldsAt buffer p (text ++ [0])) :
    (readNumber buffer p).1 = BitVec.ofNat 32 (decimal (text.takeWhile isDigit)) ∧
      HoldsAt buffer (readNumber buffer p).2 (text.dropWhile isDigit ++ [0]) := by
  obtain ⟨passed, behind⟩ := holds.scan (show isDigit 0 = false from rfl)
  refine ⟨?_, behind⟩
  rw [readNumber, passed]
  exact accumulate_eq (fun c member => List.mem_takeWhile_imp member) 0

theorem HoldsAt.isDigit_iff (holds : HoldsAt buffer p (text ++ [0])) :
    isDigit (byteAt buffer p) = true ↔ text.takeWhile isDigit ≠ [] := by
  rw [holds.byteAt_eq]
  cases text with
  | nil => exact iff_of_false (by decide) fun nonempty => nonempty rfl
  | cons c rest =>
      rw [List.head?_cons, Option.getD_some, List.takeWhile_cons]
      cases isDigit c with
      | true => exact iff_of_true rfl (List.cons_ne_nil _ _)
      | false => exact iff_of_false Bool.false_ne_true fun nonempty => nonempty rfl

end Scans

/-! ### The two commands -/

/-- The level that `priority` reads behind the number of the task, if there is one. -/
def levelOf (text : List Byte) : Option Int :=
  let text := text.dropWhile (· = space)
  let neg := text.head? = some 0x2D
  let digits := (if neg then text.tail else text).takeWhile isDigit
  if digits = [] then none
  else
    let level := BitVec.ofNat 32 (decimal digits)
    some (if neg then -level else level).toInt

section Commands

variable {buffer : Buffer} {p : Nat} {digits rest : List Byte}

/-- Where digits stand, no space is skipped and the number is read. -/
theorem HoldsAt.number (nonempty : digits ≠ []) (all : ∀ c ∈ digits, isDigit c = true)
    (ends : rest.takeWhile isDigit = []) (holds : HoldsAt buffer p ((digits ++ rest) ++ [0])) :
    Shell.scanWhile (· = space) buffer p = p ∧ isDigit (byteAt buffer p) = true ∧
      (readNumber buffer p).1 = BitVec.ofNat 32 (decimal digits) ∧
      HoldsAt buffer (readNumber buffer p).2 (rest ++ [0]) := by
  have taken : (digits ++ rest).takeWhile isDigit = digits := by
    rw [List.takeWhile_append_of_pos all, ends, List.append_nil]
  have dropped : (digits ++ rest).dropWhile isDigit = rest := by
    have parts := @List.takeWhile_append_dropWhile _ isDigit (digits ++ rest)
    rw [taken] at parts
    exact List.append_cancel_left parts
  obtain ⟨value, behind⟩ := holds.readNumber_eq
  rw [taken] at value
  rw [dropped] at behind
  refine ⟨?_, holds.isDigit_iff.mpr (by rw [taken]; exact nonempty), value, behind⟩
  obtain ⟨c, others, rfl⟩ := List.exists_cons_of_ne_nil nonempty
  have digit := all c (List.mem_cons_self ..)
  have differ : c ≠ space := by
    rintro rfl
    exact absurd digit (by decide)
  rw [Shell.scanWhile, (holds.scan (by decide)).1]
  simp only [List.cons_append, List.takeWhile_cons, decide_eq_false differ]
  rfl

/-- The sign is skipped. -/
theorem HoldsAt.sign {text : List Byte} (holds : HoldsAt buffer p (text ++ [0])) :
    (byteAt buffer p = 0x2D ↔ text.head? = some 0x2D) ∧
      HoldsAt buffer (if byteAt buffer p = 0x2D then p + 1 else p)
        ((if text.head? = some 0x2D then text.tail else text) ++ [0]) := by
  have minus : byteAt buffer p = 0x2D ↔ text.head? = some 0x2D := by
    rw [holds.byteAt_eq]
    cases text with
    | nil => exact iff_of_false (by decide) (by simp)
    | cons c rest => simp
  refine ⟨minus, ?_⟩
  by_cases sign : text.head? = some 0x2D
  · obtain ⟨rest, rfl⟩ := List.head?_eq_some_iff.mp sign
    rw [if_pos (minus.mpr sign), if_pos sign]
    rw [List.cons_append, ← List.singleton_append] at holds
    exact holds.right
  · rw [if_neg (mt minus.mp sign), if_neg sign]
    exact holds

variable {system : System} (nonempty : digits ≠ []) (all : ∀ c ∈ digits, isDigit c = true)

include nonempty all

theorem runKill_number (holds : HoldsAt system.editor.inputBuffer 5 (digits ++ [0])) :
    (runKill system).machine.kernel =
      (taskKill (BitVec.ofNat 32 (decimal digits)).toInt system.machine.kernel).2 := by
  rw [← List.append_nil digits] at holds
  obtain ⟨start, digit, value, _⟩ := holds.number nonempty all rfl
  unfold runKill
  simp only [start, digit, Bool.not_true, Bool.false_eq_true, ↓reduceIte, value]
  split
  · next killed =>
      rw [killed]
      rfl
  · next refused =>
      rw [refused]
      rfl

theorem runPriority_number {level : List Byte}
    (holds : HoldsAt system.editor.inputBuffer 9 ((digits ++ space :: level) ++ [0])) :
    (runPriority system).machine.kernel =
      match levelOf level with
      | none => system.machine.kernel
      | some level =>
          taskSetPriority (BitVec.ofNat 32 (decimal digits)).toInt level system.machine.kernel := by
  have ends : (space :: level).takeWhile isDigit = [] :=
    List.takeWhile_cons_of_neg (by decide)
  obtain ⟨start, digit, value, behind⟩ := holds.number nonempty all ends
  have skipped := (@HoldsAt.scan _ _ _ (fun c => decide (c = space)) behind rfl).2
  rw [List.dropWhile_cons_of_pos (by decide)] at skipped
  obtain ⟨minus, signed⟩ := skipped.sign
  unfold runPriority levelOf
  simp only [start, digit, Bool.not_true, Bool.false_eq_true, ↓reduceIte, value]
  generalize Shell.scanWhile (fun c => decide (c = space)) system.editor.inputBuffer
    (readNumber system.editor.inputBuffer 9).2 = place at *
  simp only [← minus] at signed ⊢
  have present := signed.isDigit_iff
  rw [signed.readNumber_eq.1]
  clear ends
  generalize List.takeWhile isDigit _ = found at *
  by_cases none : found = []
  · have missing := Bool.eq_false_of_not_eq_true (mt present.mp (not_not.mpr none))
    rw [missing, if_pos none, Bool.not_false, if_pos rfl]
    rfl
  · rw [present.mpr none, if_neg none, Bool.not_true, if_neg Bool.false_ne_true]
    rfl

end Commands

/-! ### The tasks that are changed -/

section Tasks

variable {pid : Int} {kernel : Kernel} {task : Fin 16}

/-- `task_kill` changes the entry of the task it ends, and no other. -/
theorem taskKill_ne_iff :
    (taskKill pid kernel).2.tasks task ≠ kernel.tasks task ↔
      pid = task.val ∧ (kernel.tasks task).active = true ∧ task ≠ kernel.currentTask := by
  rw [← and_assoc, ← Kernel.activePid_eq_some]
  unfold taskKill
  split
  · next missing =>
      refine iff_of_false (fun differ => differ rfl) ?_
      rintro ⟨found, _⟩
      exact nomatch missing.symm.trans found
  · next ended found =>
      have active := (Kernel.activePid_eq_some.mp found).2
      rw [found, Option.some.injEq]
      by_cases current : ended = kernel.currentTask
      · rw [if_pos current]
        refine iff_of_false (fun differ => differ rfl) ?_
        rintro ⟨rfl, other⟩
        exact other current
      · rw [if_neg current]
        by_cases here : task = ended
        · subst here
          refine iff_of_true (fun same => ?_) ⟨rfl, current⟩
          rw [Kernel.resetMailbox, Kernel.setTask_self, releaseTask_self] at same
          have kept : false = (kernel.tasks task).active := congrArg Task.active same
          exact absurd (kept.trans active) Bool.false_ne_true
        · refine iff_of_false (fun differ => differ ?_) fun both => here both.1.symm
          exact (Kernel.setTask_of_ne _ _ here).trans (releaseTask_of_ne here kernel)

theorem taskSetPriority_ne_iff {priority : Int} :
    (taskSetPriority pid priority kernel).tasks task ≠ kernel.tasks task ↔
      pid = task.val ∧ (kernel.tasks task).active = true ∧
        priority ≠ (kernel.tasks task).priority := by
  rw [← and_assoc, ← Kernel.activePid_eq_some]
  unfold taskSetPriority
  split
  · next missing =>
      refine iff_of_false (fun differ => differ rfl) ?_
      rintro ⟨found, _⟩
      exact nomatch missing.symm.trans found
  · next changed found =>
      rw [found, Option.some.injEq]
      by_cases here : task = changed
      · subst here
        rw [Kernel.setTask_self]
        simp only [true_and]
        refine not_congr ⟨fun same => ?_, fun same => ?_⟩
        · exact congrArg Task.priority same
        · rw [same]
      · refine iff_of_false (fun differ => differ ?_) fun both => here both.1.symm
        exact kernel.setTask_of_ne _ here

end Tasks

/-! ### Lines with a number -/

/-- The commands that take the number of a task; the second has a text behind it. -/
inductive NumberCommand where
  | kill
  | priority (level : List Byte)

namespace NumberCommand

def line (digits : List Byte) : NumberCommand → List Byte
  | kill => literal "kill " ++ digits
  | priority level => literal "priority " ++ (digits ++ space :: level)

/-- The command changes the task, if the number is that of the task. -/
def Acts (kernel : Kernel) (task : Fin 16) : NumberCommand → Prop
  | kill => (kernel.tasks task).active = true ∧ task ≠ kernel.currentTask
  | priority level =>
      (kernel.tasks task).active = true ∧
        ∃ value, levelOf level = some value ∧ value ≠ (kernel.tasks task).priority

end NumberCommand

section Dispatch

variable {layout : ShellLayout} {drive : Drive} {system : System} {rest : List Byte}

theorem runCommand_kill
    (text : (textAt system.editor.inputBuffer 0).bytes = literal "kill " ++ rest) :
    runCommand layout drive system = some (runKill system) := by
  have spelled : (textAt system.editor.inputBuffer 0).bytes = 0x6B :: (literal "ill " ++ rest) :=
    text
  obtain ⟨dump, others, run⟩ := @runCommand_tasks _ _ layout drive system spelled (by decide)
  rw [run, startsCommand_of_ne spelled "exec " (by decide), if_neg Bool.false_ne_true,
    isCommand_of_ne spelled "ps" (by decide), if_neg Bool.false_ne_true,
    startsCommand_self "kill " text, if_pos rfl]

theorem runCommand_priority
    (text : (textAt system.editor.inputBuffer 0).bytes = literal "priority " ++ rest) :
    runCommand layout drive system = some (runPriority system) := by
  have spelled : (textAt system.editor.inputBuffer 0).bytes =
      0x70 :: (literal "riority " ++ rest) := text
  -- `ps` has the same first letter.
  have other : isCommand system.editor.inputBuffer "ps" = false := by
    rw [isCommand, text]
    rfl
  obtain ⟨dump, others, run⟩ := @runCommand_tasks _ _ layout drive system spelled (by decide)
  rw [run, startsCommand_of_ne spelled "exec " (by decide), if_neg Bool.false_ne_true, other,
    if_neg Bool.false_ne_true, startsCommand_of_ne spelled "kill " (by decide),
    if_neg Bool.false_ne_true, startsCommand_self "priority " text, if_pos rfl]

end Dispatch

/-- A small number read into a 32-bit variable. -/
theorem ofNat_toInt_eq_iff (value : Nat) (task : Fin 16) :
    (BitVec.ofNat 32 value).toInt = task.val ↔ value % 2 ^ 32 = task.val := by
  have bound := task.isLt
  rw [BitVec.toInt_eq_toNat_cond, BitVec.toNat_ofNat]
  split
  · omega
  · omega

section Lines

variable (layout : ShellLayout) (drive : Drive) {system : System} {digits : List Byte}
  (nonempty : digits ≠ []) (all : ∀ c ∈ digits, isDigit c = true)

include nonempty all

/-- The tasks that Enter changes, for a line with a number. -/
theorem shellUpdate_changes (command : NumberCommand)
    (short : (command.line digits).length ≤ 255) (nulFree : 0 ∉ command.line digits)
    (typed : system.editor.inputLine = command.line digits) :
    ∃ after, shellUpdate layout drive newline system = some after ∧
      ∀ task, after.machine.kernel.tasks task ≠ system.machine.kernel.tasks task ↔
        decimal digits % 2 ^ 32 = task.val ∧ command.Acts system.machine.kernel task := by
  have held := enter_holds short typed drive
  have text := held.textAt nulFree
  rw [shellUpdate, if_pos rfl, shellExecute]
  cases command with
  | kill =>
      rw [NumberCommand.line, List.append_assoc] at held
      have run := runKill_number nonempty all held.right
      rw [runCommand_kill text]
      refine ⟨_, rfl, fun task => ?_⟩
      have kernel : (System.prompt (runKill (system.enter drive))).machine.kernel = _ := run
      rw [kernel]
      refine taskKill_ne_iff.trans ?_
      rw [ofNat_toInt_eq_iff]
      rfl
  | priority level =>
      rw [NumberCommand.line, List.append_assoc] at held
      have run := runPriority_number nonempty all held.right
      rw [runCommand_priority text]
      refine ⟨_, rfl, fun task => ?_⟩
      have kernel : (System.prompt (runPriority (system.enter drive))).machine.kernel = _ := run
      rw [kernel, NumberCommand.Acts]
      cases levelOf level with
      | none =>
          refine iff_of_false (fun differ => differ rfl) ?_
          rintro ⟨_, _, _, none, _⟩
          cases none
      | some value =>
          refine taskSetPriority_ne_iff.trans ?_
          rw [ofNat_toInt_eq_iff]
          simp only [Option.some.injEq, exists_eq_left']
          rfl

/-- Enter changes no task but the one whose number was typed, if and only if the value of the
digits is below 2 ^ 32, or what it wraps to is not the number of a task the command changes. -/
theorem number_denotes_iff (command : NumberCommand)
    (short : (command.line digits).length ≤ 255) (nulFree : 0 ∉ command.line digits)
    (typed : system.editor.inputLine = command.line digits) :
    ∃ after, shellUpdate layout drive newline system = some after ∧
      ((∀ task : Fin 16, after.machine.kernel.tasks task ≠ system.machine.kernel.tasks task →
          decimal digits = task.val) ↔
        decimal digits < 2 ^ 32 ∨ ∀ task : Fin 16, decimal digits % 2 ^ 32 = task.val →
          ¬ command.Acts system.machine.kernel task) := by
  obtain ⟨after, ran, changes⟩ := shellUpdate_changes layout drive nonempty all command short
    nulFree typed
  refine ⟨after, ran, ?_⟩
  simp only [changes]
  constructor
  · intro denotes
    by_cases small : decimal digits < 2 ^ 32
    · exact Or.inl small
    · refine Or.inr fun task wraps acts => small ?_
      have bound := task.isLt
      have same := denotes task ⟨wraps, acts⟩
      omega
  · rintro (small | spared) task ⟨wraps, acts⟩
    · rwa [Nat.mod_eq_of_lt small] at wraps
    · exact absurd acts (spared task wraps)

end Lines

/-- The line `kill 1` ends task 1. -/
theorem number_denotes_one : ∃ system after,
    EventRun.run (Event.step imageShell readyDrive) (typed "exec hello\nkill 1") greeted =
      some system ∧
    shellUpdate imageShell readyDrive newline system = some after ∧
    (∀ task : Fin 16, after.machine.kernel.tasks task ≠ system.machine.kernel.tasks task →
      task = 1) := by
  have reached : (EventRun.run (Event.step imageShell readyDrive) (typed "exec hello\nkill 1")
      greeted).any (fun system => system.editor.inputLine = NumberCommand.kill.line [0x31]) =
        true := by decide +kernel
  obtain ⟨system, ran, line⟩ := (Option.any_eq_true ..).mp reached
  obtain ⟨after, entered, denotes⟩ := @number_denotes_iff imageShell readyDrive system [0x31]
    (by decide) (by decide) .kill (by decide) (by decide) (of_decide_eq_true line)
  refine ⟨system, after, ran, entered, fun task changed => ?_⟩
  have number : 1 = task.val := denotes.mpr (Or.inl (by decide)) task changed
  exact Fin.ext number.symm

/-- The line `kill 4294967297` ends task 1 too. -/
theorem number_denotes_wraps : ∃ system after,
    EventRun.run (Event.step imageShell readyDrive) (typed "exec hello\nkill 4294967297") greeted =
      some system ∧
    system.editor.inputLine = NumberCommand.kill.line (literal "4294967297") ∧
    shellUpdate imageShell readyDrive newline system = some after ∧
    (system.machine.kernel.tasks 1).active = true ∧ (after.machine.kernel.tasks 1).active = false ∧
    decimal (literal "4294967297") ≠ 1 := by
  have reached : (EventRun.run (Event.step imageShell readyDrive)
      (typed "exec hello\nkill 4294967297") greeted).any (fun system =>
        system.editor.inputLine = NumberCommand.kill.line (literal "4294967297") ∧
        (system.machine.kernel.tasks 1).active = true ∧
        (shellUpdate imageShell readyDrive newline system).any fun after =>
          (after.machine.kernel.tasks 1).active = false) = true := by decide +kernel
  obtain ⟨system, ran, facts⟩ := (Option.any_eq_true ..).mp reached
  obtain ⟨line, active, entered⟩ := of_decide_eq_true facts
  obtain ⟨after, updated, ended⟩ := (Option.any_eq_true ..).mp entered
  exact ⟨system, after, ran, line, updated, active, of_decide_eq_true ended, by decide⟩

end MxOS.Shell
