import MxOS.Kernel.SchedOwnership
import MxOS.Lib.EventRun

/-! # Killing a task that exits

The Shell calls `task_kill` with interrupts enabled, so that the victim may run between
any two of its statements and end itself by a system call. A task that is no longer
active is not elected again.

The test that the victim is active and the statement that makes it inactive are two
statements. A victim that exits between the two is ended twice: the second time it has
neither stack nor address space left to release, but the number of tasks is decremented
again. At every other point the outcome is that of one of the two serial orders.
-/

namespace MxOS.Sched

open ByteMemory Mem Paging Ipc

/-- The statements of `task_kill`. -/
inductive KillStatement where
  | testActive
  | testCurrent
  | clearActive
  | clearSleeping
  | decrementCount
  | testStack
  | freeStack
  | clearStack
  | testSpace
  | freeSpace
  | clearSpace
  | resetMailbox
  | returned (result : Bool)
  deriving DecidableEq

/-- The kernel while the Shell is in `task_kill`, and the next statement. -/
structure Killing where
  kernel : Kernel
  next : KillStatement

def Killing.start (kernel : Kernel) : Killing := ⟨kernel, .testActive⟩

section Steps

variable (victim : Fin 16)

/-- One statement of the Shell. -/
def Killing.shell (killing : Killing) : Killing :=
  let kernel := killing.kernel
  let task := kernel.tasks victim
  match killing.next with
  | .testActive => ⟨kernel, if task.active then .testCurrent else .returned false⟩
  | .testCurrent => ⟨kernel, if victim = kernel.currentTask then .returned false else .clearActive⟩
  | .clearActive => ⟨kernel.setTask victim { task with active := false }, .clearSleeping⟩
  | .clearSleeping => ⟨kernel.setTask victim { task with sleeping := false }, .decrementCount⟩
  | .decrementCount => ⟨{ kernel with taskCount := kernel.taskCount - 1 }, .testStack⟩
  | .testStack => ⟨kernel, if task.stackBase ≠ 0 then .freeStack else .testSpace⟩
  | .freeStack => ⟨{ kernel with heap := kfree task.stackBase kernel.heap }, .clearStack⟩
  | .clearStack => ⟨kernel.setTask victim { task with stackBase := 0 }, .testSpace⟩
  | .testSpace => ⟨kernel, if task.addrSpace.isSome then .freeSpace else .resetMailbox⟩
  | .freeSpace =>
      ⟨{ kernel with
          pages :=
            match task.addrSpace with
            | some space => pagingFreeTaskDirectory space kernel.pages
            | none => kernel.pages },
        .clearSpace⟩
  | .clearSpace => ⟨kernel.setTask victim { task with addrSpace := none }, .resetMailbox⟩
  | .resetMailbox => ⟨kernel.resetMailbox victim, .returned true⟩
  | .returned result => ⟨kernel, .returned result⟩

/-- The Shell is interrupted, the victim runs until it calls `SYS_EXIT`, and the Shell is elected
again. -/
def victimExit (shellEsp victimEsp : Word) (kernel : Kernel) : Option Kernel :=
  (taskExitAndReschedule victimEsp ((kernel.saveEsp shellEsp).switchTo victim)).map
    fun (_, after) => after.switchTo 0

/-- What happens next: a statement of the Shell, or the exit of the victim. -/
inductive KillEvent where
  | shell
  | exit
  deriving DecidableEq

/-- The victim runs only while it is active, and it is not the Shell. -/
def KillEvent.step (shellEsp victimEsp : Word) : KillEvent → Killing → Option Killing
  | .shell, killing => some (killing.shell victim)
  | .exit, killing =>
      if (killing.kernel.tasks victim).active = true ∧ victim ≠ 0 then
        (victimExit victim shellEsp victimEsp killing.kernel).map (⟨·, killing.next⟩)
      else none

/-- The victim does not exit between the test that it is active and the statement that makes it
inactive. -/
def KillEvent.Timely (event : KillEvent) (killing : Killing) : Prop :=
  event = .exit → killing.next ≠ .testCurrent ∧ killing.next ≠ .clearActive

end Steps

/-! ### Without interruption -/

/-- The number of statements left at most. -/
def KillStatement.left : KillStatement → Nat
  | .testActive => 12
  | .testCurrent => 11
  | .clearActive => 10
  | .clearSleeping => 9
  | .decrementCount => 8
  | .testStack => 7
  | .freeStack => 6
  | .clearStack => 5
  | .testSpace => 4
  | .freeSpace => 3
  | .clearSpace => 2
  | .resetMailbox => 1
  | .returned _ => 0

section Finish

variable (victim : Fin 16)

theorem Killing.shell_left (killing : Killing) :
    (killing.shell victim).next.left ≤ killing.next.left - 1 := by
  obtain ⟨kernel, next⟩ := killing
  cases next with
  | testActive =>
      simp only [Killing.shell]
      split <;> decide
  | testCurrent =>
      simp only [Killing.shell]
      split <;> decide
  | testStack =>
      simp only [Killing.shell]
      split <;> decide
  | testSpace =>
      simp only [Killing.shell]
      split <;> decide
  | returned result => exact Nat.le_refl _
  | _ => exact Nat.le_refl _

/-- The end of the call when the Shell is not interrupted any more. -/
def Killing.finish (killing : Killing) : Killing := (Killing.shell victim)^[12] killing

theorem Killing.iterate_left (count : Nat) (killing : Killing) :
    ((Killing.shell victim)^[count] killing).next.left ≤ killing.next.left - count := by
  induction count generalizing killing with
  | zero => exact Nat.le_refl _
  | succ count ih =>
      have step := killing.shell_left victim
      have rest := ih (killing.shell victim)
      rw [Function.iterate_succ_apply]
      omega

theorem Killing.shell_eq_self {killing : Killing} (ended : killing.next.left = 0) :
    killing.shell victim = killing := by
  obtain ⟨kernel, next⟩ := killing
  cases next with
  | returned result => rfl
  | _ => cases ended

theorem KillStatement.left_le (statement : KillStatement) : statement.left ≤ 12 := by
  cases statement with
  | returned result => exact Nat.zero_le _
  | _ => decide

theorem Killing.finish_shell (killing : Killing) :
    (killing.shell victim).finish victim = killing.finish victim := by
  have ended : (killing.finish victim).next.left = 0 := by
    have left := killing.iterate_left victim 12
    have bound := killing.next.left_le
    rw [Killing.finish]
    omega
  rw [Killing.finish, ← Function.iterate_succ_apply, Function.iterate_succ_apply',
    ← Killing.finish, Killing.shell_eq_self victim ended]

theorem Killing.finish_returned {killing : Killing} (ended : killing.next.left = 0) :
    killing.finish victim = killing :=
  Function.iterate_fixed (Killing.shell_eq_self victim ended) 12

theorem Killing.finish_step {killing next : Killing} (step : killing.shell victim = next) :
    killing.finish victim = next.finish victim := by
  rw [← step, Killing.finish_shell]

/-- The stack is freed if there is one. -/
theorem Killing.finish_testStack (kernel : Kernel) :
    Killing.finish victim ⟨kernel, .testStack⟩ = Killing.finish victim
      ⟨{ kernel with
          heap :=
            if (kernel.tasks victim).stackBase ≠ 0 then
              kfree (kernel.tasks victim).stackBase kernel.heap
            else kernel.heap }.setTask victim { kernel.tasks victim with stackBase := 0 },
        .testSpace⟩ := by
  by_cases none : (kernel.tasks victim).stackBase = 0
  · have same : kernel.setTask victim { kernel.tasks victim with stackBase := 0 } = kernel :=
      Kernel.setTask_eq_self (by rw [← none])
    rw [if_neg (not_not.mpr none), same]
    refine Killing.finish_step victim ?_
    simp only [Killing.shell, none, ne_eq, not_true_eq_false, ↓reduceIte]
  · rw [if_pos none]
    have test : Killing.shell victim ⟨kernel, .testStack⟩ = ⟨kernel, .freeStack⟩ := by
      simp only [Killing.shell, none, ne_eq, not_false_eq_true, ↓reduceIte]
    rw [Killing.finish_step victim test, ← Killing.finish_shell, ← Killing.finish_shell]
    rfl

/-- The address space is given back if there is one. -/
theorem Killing.finish_testSpace (kernel : Kernel) :
    Killing.finish victim ⟨kernel, .testSpace⟩ = Killing.finish victim
      ⟨{ kernel with
          pages :=
            match (kernel.tasks victim).addrSpace with
            | some space => pagingFreeTaskDirectory space kernel.pages
            | none => kernel.pages }.setTask victim { kernel.tasks victim with addrSpace := none },
        .resetMailbox⟩ := by
  cases held : (kernel.tasks victim).addrSpace with
  | none =>
      have same : kernel.setTask victim { kernel.tasks victim with addrSpace := none } = kernel :=
        Kernel.setTask_eq_self (by rw [← held])
      rw [same]
      refine Killing.finish_step victim ?_
      simp only [Killing.shell, held, Option.isSome_none, Bool.false_eq_true, ↓reduceIte]
  | some space =>
      have test : Killing.shell victim ⟨kernel, .testSpace⟩ = ⟨kernel, .freeSpace⟩ := by
        simp only [Killing.shell, held, Option.isSome_some, ↓reduceIte]
      rw [Killing.finish_step victim test, ← Killing.finish_shell, ← Killing.finish_shell]
      simp only [Killing.shell, held]

/-- The statements after the tests end the task. -/
theorem Killing.finish_clearActive (kernel : Kernel) :
    Killing.finish victim ⟨kernel, .clearActive⟩ =
      ⟨(releaseTask victim kernel).resetMailbox victim, .returned true⟩ := by
  rw [← Killing.finish_shell, ← Killing.finish_shell, ← Killing.finish_shell]
  simp only [Killing.shell]
  rw [Killing.finish_testStack, Killing.finish_testSpace, ← Killing.finish_shell,
    Killing.finish_returned victim rfl]
  cases held : (kernel.tasks victim).addrSpace with
  | none =>
      simp only [Killing.shell, Kernel.setTask, Kernel.resetMailbox, releaseTask, held,
        Function.update_self, Function.update_idem]
  | some space =>
      simp only [Killing.shell, Kernel.setTask, Kernel.resetMailbox, releaseTask, held,
        Function.update_self, Function.update_idem]

/-- Without interruption the statements are the function that runs as a whole. -/
theorem Killing.finish_start (kernel : Kernel) :
    (Killing.start kernel).finish victim =
      ⟨(taskKill victim.val kernel).2, .returned (taskKill victim.val kernel).1⟩ := by
  by_cases active : (kernel.tasks victim).active = true
  · have found : kernel.activePid victim.val = some victim :=
      Kernel.activePid_eq_some.mpr ⟨rfl, active⟩
    have test : Killing.shell victim ⟨kernel, .testActive⟩ = ⟨kernel, .testCurrent⟩ := by
      simp only [Killing.shell, active, ↓reduceIte]
    rw [Killing.start, Killing.finish_step victim test]
    by_cases current : victim = kernel.currentTask
    · have refused : Killing.shell victim ⟨kernel, .testCurrent⟩ = ⟨kernel, .returned false⟩ := by
        simp only [Killing.shell, current, ↓reduceIte]
      rw [Killing.finish_step victim refused, Killing.finish_returned victim rfl]
      simp only [taskKill, found, if_pos current]
    · have passed : Killing.shell victim ⟨kernel, .testCurrent⟩ = ⟨kernel, .clearActive⟩ := by
        simp only [Killing.shell, current, ↓reduceIte]
      rw [Killing.finish_step victim passed, Killing.finish_clearActive]
      simp only [taskKill, found, if_neg current]
  · have missing : kernel.activePid victim.val = none := by
      refine Option.eq_none_iff_forall_ne_some.mpr fun pid found => ?_
      obtain ⟨same, isActive⟩ := Kernel.activePid_eq_some.mp found
      obtain rfl : victim = pid := Fin.ext (Int.ofNat.inj same)
      exact active isActive
    have refused : Killing.shell victim ⟨kernel, .testActive⟩ = ⟨kernel, .returned false⟩ := by
      simp only [Killing.shell, active, Bool.false_eq_true, ↓reduceIte]
    rw [Killing.start, Killing.finish_step victim refused, Killing.finish_returned victim rfl]
    simp only [taskKill, missing]

end Finish

/-! ### The exit -/

theorem Steady.switchTo (kernel : Kernel) (next : Fin 16) : Steady kernel (kernel.switchTo next) :=
  ⟨rfl, rfl, rfl, rfl, fun _ => rfl, fun _ => rfl, fun _ => rfl⟩

theorem Steady.releaseTask {before after : Kernel} (steady : Steady before after) (pid : Fin 16) :
    Steady (releaseTask pid before) (releaseTask pid after) := by
  have same : ∀ {Value : Type} (part : Task → Value),
      (∀ other, part (after.tasks other) = part (before.tasks other)) →
      (∀ task : Task, part { task with
        active := false, sleeping := false, stackBase := 0, addrSpace := none } =
          part { before.tasks pid with
            active := false, sleeping := false, stackBase := 0, addrSpace := none }) →
      ∀ other, part ((Sched.releaseTask pid after).tasks other) =
        part ((Sched.releaseTask pid before).tasks other) := by
    intro Value part kept ended other
    by_cases here : other = pid
    · subst here
      rw [releaseTask_self, releaseTask_self, ended]
    · rw [releaseTask_of_ne here, releaseTask_of_ne here, kept]
  exact
    { heap := by simp only [Sched.releaseTask, steady.heap, steady.stackBase]
      pages := by simp only [Sched.releaseTask, steady.pages, steady.addrSpace]
      taskCount := congrArg (· - 1) steady.taskCount
      enabled := steady.enabled
      active := same (·.active) steady.active fun _ => rfl
      stackBase := same (·.stackBase) steady.stackBase fun _ => rfl
      addrSpace := same (·.addrSpace) steady.addrSpace fun _ => rfl }

/-- The victim's exit releases it, whatever is scheduled then. -/
theorem victimExit_steady {victim : Fin 16} {shellEsp victimEsp : Word} {kernel after : Kernel}
    (active : (kernel.tasks victim).active = true)
    (exited : victimExit victim shellEsp victimEsp kernel = some after) :
    Steady (releaseTask victim kernel) after ∧ after.currentTask = 0 := by
  obtain ⟨⟨esp, scheduled⟩, result, rfl⟩ := Option.map_eq_some_iff.mp exited
  have entered : Steady kernel ((kernel.saveEsp shellEsp).switchTo victim) :=
    (Switched.saveEsp kernel shellEsp).toSteady.trans (Steady.switchTo _ victim)
  have current : ((kernel.saveEsp shellEsp).switchTo victim).currentTask = victim := rfl
  generalize (kernel.saveEsp shellEsp).switchTo victim = running at result entered current
  unfold taskExitAndReschedule taskExitCurrent at result
  rw [current, if_pos ((entered.active victim).trans active)] at result
  simp only at result
  split at result
  · cases result
  · refine ⟨?_, rfl⟩
    exact ((entered.releaseTask victim).trans (schedule_switched result).toSteady).trans
      (Steady.switchTo scheduled 0)

/-! ### Interleavings -/

/-- The victim can run. -/
def Runnable (victim : Fin 16) (kernel : Kernel) : Prop :=
  (kernel.tasks victim).active = true ∧ victim ≠ 0

theorem Killing.runnable_of_shell {victim : Fin 16} {killing : Killing}
    (runnable : Runnable victim (killing.shell victim).kernel) :
    Runnable victim killing.kernel := by
  refine ⟨?_, runnable.2⟩
  have active := runnable.1
  obtain ⟨kernel, next⟩ := killing
  cases next with
  | clearActive =>
      simp only [Killing.shell, Kernel.setTask_self] at active
      cases active
  | clearSleeping | clearStack | clearSpace =>
      simpa only [Killing.shell, Kernel.setTask_self] using active
  | resetMailbox =>
      simpa only [Killing.shell, Kernel.resetMailbox, Kernel.setTask_self] using active
  | _ => exact active

section Interleavings

variable (victim : Fin 16) (shellEsp victimEsp : Word) (kernel : Kernel)

/-- The call so far agrees with one of the serial orders: nothing has happened, only the tests
have been made, the victim can no longer run, or it exited before the call. -/
inductive Serializing : Killing → Prop where
  | fresh : Serializing (.start kernel)
  | tested {next : KillStatement} : next = .testCurrent ∨ next = .clearActive →
      Killing.finish victim ⟨kernel, next⟩ = (Killing.start kernel).finish victim →
      Serializing ⟨kernel, next⟩
  | killed {killing : Killing} : ¬ Runnable victim killing.kernel →
      killing.finish victim = (Killing.start kernel).finish victim → Serializing killing
  | exited {killing : Killing} {after : Kernel} : ¬ Runnable victim killing.kernel →
      Runnable victim kernel → victimExit victim shellEsp victimEsp kernel = some after →
      killing.finish victim = (Killing.start after).finish victim → Serializing killing

/-- The victim has exited after the tests. -/
structure Spoiled (killing : Killing) : Prop where
  stopped : ¬ Runnable victim killing.kernel
  runnable : Runnable victim kernel
  exit : ∃ after, victimExit victim shellEsp victimEsp kernel = some after ∧
    killing.finish victim = Killing.finish victim ⟨after, .clearActive⟩

variable {victim shellEsp victimEsp kernel}

theorem Serializing.shell {killing : Killing} (shellCurrent : kernel.currentTask = 0)
    (serializing : Serializing victim shellEsp victimEsp kernel killing) :
    Serializing victim shellEsp victimEsp kernel (killing.shell victim) := by
  cases serializing with
  | fresh =>
      have same := (Killing.start kernel).finish_shell victim
      by_cases active : (kernel.tasks victim).active = true
      · have step : (Killing.start kernel).shell victim = ⟨kernel, .testCurrent⟩ := by
          simp only [Killing.start, Killing.shell, active, ↓reduceIte]
        rw [step] at same ⊢
        exact .tested (Or.inl rfl) same
      · have step : (Killing.start kernel).shell victim = ⟨kernel, .returned false⟩ := by
          simp only [Killing.start, Killing.shell, active, Bool.false_eq_true, ↓reduceIte]
        rw [step] at same ⊢
        exact .killed (fun runnable => active runnable.1) same
  | @tested next window finish =>
      have same := (Killing.finish_shell victim ⟨kernel, next⟩).trans finish
      obtain rfl | rfl := window
      · by_cases current : victim = kernel.currentTask
        · have step : Killing.shell victim ⟨kernel, .testCurrent⟩ = ⟨kernel, .returned false⟩ := by
            simp only [Killing.shell, current, ↓reduceIte]
          rw [step] at same ⊢
          exact .killed (fun runnable => runnable.2 (current.trans shellCurrent)) same
        · have step : Killing.shell victim ⟨kernel, .testCurrent⟩ = ⟨kernel, .clearActive⟩ := by
            simp only [Killing.shell, current, ↓reduceIte]
          rw [step] at same ⊢
          exact .tested (Or.inr rfl) same
      · refine .killed (fun runnable => ?_) same
        have active := runnable.1
        simp only [Killing.shell, Kernel.setTask_self] at active
        cases active
  | killed stopped finish =>
      exact .killed (fun runnable => stopped (Killing.runnable_of_shell runnable))
        ((Killing.finish_shell victim _).trans finish)
  | exited stopped runnable exit finish =>
      exact .exited (fun runnable => stopped (Killing.runnable_of_shell runnable)) runnable exit
        ((Killing.finish_shell victim _).trans finish)

theorem not_runnable_of_exit {after : Kernel} (runnable : Runnable victim kernel)
    (exit : victimExit victim shellEsp victimEsp kernel = some after) :
    ¬ Runnable victim after := by
  intro again
  have active := again.1
  rw [(victimExit_steady runnable.1 exit).1.active, releaseTask_self] at active
  cases active

theorem KillEvent.exit_eq_some {killing after : Killing}
    (stepped : KillEvent.step victim shellEsp victimEsp .exit killing = some after) :
    Runnable victim killing.kernel ∧ ∃ exited,
      victimExit victim shellEsp victimEsp killing.kernel = some exited ∧
        after = ⟨exited, killing.next⟩ := by
  simp only [KillEvent.step] at stepped
  by_cases runnable : (killing.kernel.tasks victim).active = true ∧ victim ≠ 0
  · rw [if_pos runnable] at stepped
    obtain ⟨exited, exit, rfl⟩ := Option.map_eq_some_iff.mp stepped
    exact ⟨runnable, exited, exit, rfl⟩
  · rw [if_neg runnable] at stepped
    cases stepped

/-- An exit is harmless before the call and spoils it between the tests. -/
theorem Serializing.exit {killing after : Killing}
    (serializing : Serializing victim shellEsp victimEsp kernel killing)
    (stepped : KillEvent.step victim shellEsp victimEsp .exit killing = some after) :
    (KillEvent.Timely .exit killing ∧ Serializing victim shellEsp victimEsp kernel after) ∨
      (¬ KillEvent.Timely .exit killing ∧ Spoiled victim shellEsp victimEsp kernel after) := by
  obtain ⟨runnable, exited, exit, rfl⟩ := KillEvent.exit_eq_some stepped
  cases serializing with
  | fresh =>
      refine Or.inl ⟨fun _ => ⟨(fun same => nomatch same), fun same => nomatch same⟩, ?_⟩
      exact .exited (not_runnable_of_exit runnable exit) runnable exit rfl
  | @tested next window finish =>
      refine Or.inr ⟨fun timely => ?_, not_runnable_of_exit runnable exit, runnable,
        exited, exit, ?_⟩
      · obtain rfl | rfl := window
        · exact (timely rfl).1 rfl
        · exact (timely rfl).2 rfl
      · obtain rfl | rfl := window
        · -- The Shell is the current task, so the second test passes.
          have current := (victimExit_steady runnable.1 exit).2
          refine Killing.finish_step victim ?_
          simp only [Killing.shell, current, runnable.2, ↓reduceIte]
        · rfl
  | killed stopped _ => exact absurd runnable stopped
  | exited stopped _ _ _ => exact absurd runnable stopped

theorem Spoiled.step {event : KillEvent} {killing after : Killing}
    (spoiled : Spoiled victim shellEsp victimEsp kernel killing)
    (stepped : event.step victim shellEsp victimEsp killing = some after) :
    Spoiled victim shellEsp victimEsp kernel after := by
  cases event with
  | shell =>
      obtain rfl := Option.some.inj stepped
      obtain ⟨exited, exit, finish⟩ := spoiled.exit
      exact ⟨fun runnable => spoiled.stopped (Killing.runnable_of_shell runnable),
        spoiled.runnable, exited, exit, (Killing.finish_shell victim _).trans finish⟩
  | exit => exact absurd (KillEvent.exit_eq_some stepped).1 spoiled.stopped

end Interleavings

/-! ### Serial orders -/

/-- The kernels have the same task table, number of tasks, heap and address spaces. -/
structure SameTasks (first second : Kernel) : Prop where
  tasks : first.tasks = second.tasks
  taskCount : first.taskCount = second.taskCount
  heap : first.heap = second.heap
  pages : first.pages = second.pages

/-- The outcome is that of the call alone, or of the call after the exit of a victim that can
run. -/
def Serial (victim : Fin 16) (shellEsp victimEsp : Word) (kernel final : Kernel) : Prop :=
  SameTasks final (taskKill victim.val kernel).2 ∨
    ((kernel.tasks victim).active = true ∧ victim ≠ 0 ∧
      ∃ exited, victimExit victim shellEsp victimEsp kernel = some exited ∧
        SameTasks final (taskKill victim.val exited).2)

section Runs

variable {victim : Fin 16} {shellEsp victimEsp : Word} {kernel : Kernel}

theorem Serializing.serial {killing : Killing} {result : Bool}
    (serializing : Serializing victim shellEsp victimEsp kernel killing)
    (ended : killing.next = .returned result) :
    Serial victim shellEsp victimEsp kernel killing.kernel := by
  have left : killing.next.left = 0 := by
    rw [ended]
    rfl
  have whole := Killing.finish_returned victim left
  cases serializing with
  | fresh => cases ended
  | tested window _ =>
      obtain rfl | rfl := window
      · cases ended
      · cases ended
  | killed _ finish =>
      rw [whole, Killing.finish_start] at finish
      rw [finish]
      exact Or.inl ⟨rfl, rfl, rfl, rfl⟩
  | exited _ runnable exit finish =>
      rw [whole, Killing.finish_start] at finish
      rw [finish]
      exact Or.inr ⟨runnable.1, runnable.2, _, exit, rfl, rfl, rfl, rfl⟩

/-- The number of tasks is right after each of the serial orders. -/
theorem Serial.count {final : Kernel} (owned : Owned kernel)
    (shellCurrent : kernel.currentTask = 0)
    (serial : Serial victim shellEsp victimEsp kernel final) :
    final.taskCount = (activePids final.tasks).card := by
  obtain same | ⟨active, differ, exited, exit, same⟩ := serial
  · rw [same.tasks, same.taskCount]
    exact (owned.taskKill shellCurrent victim.val).count
  · obtain ⟨steady, current⟩ := victimExit_steady active exit
    rw [same.tasks, same.taskCount]
    exact (((owned.releaseTask differ active).steady steady).taskKill current victim.val).count

/-- A spoiled call decrements the number of tasks once too often. -/
theorem Spoiled.count {killing : Killing} {result : Bool} (owned : Owned kernel)
    (spoiled : Spoiled victim shellEsp victimEsp kernel killing)
    (ended : killing.next = .returned result) :
    killing.kernel.taskCount + 1 = (activePids killing.kernel.tasks).card := by
  obtain ⟨exited, exit, finish⟩ := spoiled.exit
  have left : killing.next.left = 0 := by
    rw [ended]
    rfl
  rw [Killing.finish_returned victim left, Killing.finish_clearActive] at finish
  obtain ⟨active, differ⟩ := spoiled.runnable
  obtain ⟨steady, _⟩ := victimExit_steady active exit
  have count := ((owned.releaseTask differ active).steady steady).count
  have positive := ((owned.releaseTask differ active).steady steady).taskCount_ne_zero
  have same : ∀ pid, (killing.kernel.tasks pid).active = (exited.tasks pid).active := by
    intro pid
    rw [finish]
    refine (Kernel.setTask_part (·.active) _ victim ?_ pid).trans ?_
    · rfl
    · by_cases here : pid = victim
      · subst here
        rw [releaseTask_self, steady.active, releaseTask_self]
      · rw [releaseTask_of_ne here]
  have pids : activePids killing.kernel.tasks = activePids exited.tasks := by
    simp only [activePids, same]
  have decremented : killing.kernel.taskCount = exited.taskCount - 1 := by
    rw [finish]
    rfl
  rw [pids, ← count, decremented]
  omega

theorem run_serializing {events : List KillEvent} {final : Killing}
    (shellCurrent : kernel.currentTask = 0)
    (timely : EventRun.Along (KillEvent.step victim shellEsp victimEsp) KillEvent.Timely events
      (.start kernel))
    (ran : EventRun.run (KillEvent.step victim shellEsp victimEsp) events (.start kernel) =
      some final) : Serializing victim shellEsp victimEsp kernel final := by
  refine timely.invariant (fun {event _ _} serializing timely stepped => ?_) .fresh ran
  cases event with
  | shell =>
      obtain rfl := Option.some.inj stepped
      exact serializing.shell shellCurrent
  | exit =>
      obtain ⟨_, later⟩ | ⟨late, _⟩ := serializing.exit stepped
      · exact later
      · exact absurd timely late

theorem run_spoiled {events : List KillEvent} {final : Killing}
    (shellCurrent : kernel.currentTask = 0)
    (late : ¬ EventRun.Along (KillEvent.step victim shellEsp victimEsp) KillEvent.Timely events
      (.start kernel))
    (ran : EventRun.run (KillEvent.step victim shellEsp victimEsp) events (.start kernel) =
      some final) : Spoiled victim shellEsp victimEsp kernel final := by
  have reached : ∀ {earlier state},
      EventRun.run (KillEvent.step victim shellEsp victimEsp) earlier (.start kernel) =
        some state →
      Serializing victim shellEsp victimEsp kernel state ∨
        Spoiled victim shellEsp victimEsp kernel state := by
    intro earlier state ran
    have invariant := @EventRun.run_invariant _ _ (KillEvent.step victim shellEsp victimEsp)
      fun killing => Serializing victim shellEsp victimEsp kernel killing ∨
        Spoiled victim shellEsp victimEsp kernel killing
    refine invariant (fun {event _ _} either stepped => ?_) (Or.inl .fresh) ran
    obtain serializing | spoiled := either
    · cases event with
      | shell =>
          obtain rfl := Option.some.inj stepped
          exact Or.inl (serializing.shell shellCurrent)
      | exit => exact (serializing.exit stepped).imp And.right And.right
    · exact Or.inr (spoiled.step stepped)
  -- The exit that comes too late was executed, so that the victim could still run.
  simp only [EventRun.Along, not_forall] at late
  obtain ⟨earlier, event, later, rfl, state, before, untimely⟩ := late
  rw [EventRun.run_append, before, Option.bind_some, EventRun.run_cons,
    Option.bind_eq_some_iff] at ran
  obtain ⟨next, stepped, rest⟩ := ran
  cases event with
  | shell => exact absurd (fun same => nomatch same) untimely
  | exit =>
      have spoiled : Spoiled victim shellEsp victimEsp kernel next := by
        obtain serializing | spoiled := reached before
        · obtain ⟨timely, _⟩ | ⟨_, spoiled⟩ := serializing.exit stepped
          · exact absurd timely untimely
          · exact spoiled
        · exact spoiled.step stepped
      exact EventRun.run_invariant (fun spoiled stepped => spoiled.step stepped) spoiled rest

end Runs

/-- From every reachable kernel, a call of `task_kill` that is interleaved with the victim's exit
ends as one of the two serial orders does, with the right number of tasks, if and only if the
victim does not exit between the test that it is active and the statement that makes it
inactive. -/
theorem kill_serializable_iff (layout : Layout) (kernel : Kernel)
    (reachable : Reachable layout kernel) (shellCurrent : kernel.currentTask = 0)
    (victim : Fin 16) (shellEsp victimEsp : Word) (events : List KillEvent) (final : Killing)
    (ran : EventRun.run (KillEvent.step victim shellEsp victimEsp) events (.start kernel) =
      some final)
    (result : Bool) (ended : final.next = .returned result) :
    (Serial victim shellEsp victimEsp kernel final.kernel ∧
      final.kernel.taskCount = (activePids final.kernel.tasks).card) ↔
    EventRun.Along (KillEvent.step victim shellEsp victimEsp) KillEvent.Timely events
      (.start kernel) := by
  constructor
  · rintro ⟨_, count⟩
    by_contra late
    have wrong := (run_spoiled shellCurrent late ran).count reachable.owned ended
    omega
  · intro timely
    have serial := (run_serializing shellCurrent timely ran).serial ended
    exact ⟨serial, serial.count reachable.owned shellCurrent⟩

/-- The victim exits before the first test, and the call is refused. -/
theorem kill_serializable_exit_first : ∃ kernel final, Reachable imageLayout kernel ∧
    EventRun.run (KillEvent.step 1 0x7000 0x101000) [.exit, .shell] (.start kernel) =
      some final ∧ final.next = .returned false ∧
    Serial 1 0x7000 0x101000 kernel final.kernel ∧
    final.kernel.taskCount = (activePids final.kernel.tasks).card := by
  have start : Reachable imageLayout _ := Reachable.start (fun _ => 0) 100
  have created := Reachable.step (.createTask 0x9100 0xF010) start rfl rfl
  have timely : ∀ kernel, EventRun.Along (KillEvent.step 1 0x7000 0x101000) KillEvent.Timely
      [.exit, .shell] (.start kernel) := by
    intro kernel
    refine EventRun.along_cons.mpr ⟨fun _ => ⟨?_, ?_⟩, fun next _ => ?_⟩
    · exact fun same => nomatch same
    · exact fun same => nomatch same
    · exact EventRun.along_cons.mpr ⟨(fun same => nomatch same), fun _ _ =>
        EventRun.along_nil _ _⟩
  refine ⟨_, _, created, rfl, rfl, ?_⟩
  exact (kill_serializable_iff imageLayout _ created rfl 1 0x7000 0x101000 _ _ rfl _ rfl).mpr
    (timely _)

/-- The victim exits after the first test: the number of tasks drops to 0 while the Shell is
active. -/
theorem late_exit_counted_twice : ∃ kernel final, Reachable imageLayout kernel ∧
    kernel.currentTask = 0 ∧
    EventRun.run (KillEvent.step 1 0x7000 0x101000)
      [.shell, .exit, .shell, .shell, .shell, .shell, .shell, .shell, .shell] (.start kernel) =
      some final ∧ final.next = .returned true ∧
    final.kernel.taskCount = 0 ∧ (final.kernel.tasks 0).active = true ∧
    ¬ (Serial 1 0x7000 0x101000 kernel final.kernel ∧
      final.kernel.taskCount = (activePids final.kernel.tasks).card) := by
  have start : Reachable imageLayout _ := Reachable.start (fun _ => 0) 100
  have created := Reachable.step (.createTask 0x9100 0xF010) start rfl rfl
  have wrong : ∀ tasks : Fin 16 → Task, (tasks 0).active = true → 0 ≠ (activePids tasks).card := by
    intro tasks active none
    have shell : (0 : Fin 16) ∈ activePids tasks :=
      Finset.mem_filter.mpr ⟨Finset.mem_univ 0, active⟩
    rw [Finset.card_eq_zero.mp none.symm] at shell
    cases shell
  exact ⟨_, _, created, rfl, rfl, rfl, rfl, rfl, fun ⟨_, count⟩ => wrong _ rfl count⟩

end MxOS.Sched
