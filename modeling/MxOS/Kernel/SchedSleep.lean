import MxOS.Kernel.SchedContext
import MxOS.Kernel.SchedElection
import MxOS.Lib.EventRun

/-! # Sleeping tasks

A task that sleeps is passed over until its time has come. The fallback of the election
takes the first active task without asking; this is the Shell, which never sleeps, so that
no task runs before it is to wake.

How long a task sleeps is computed with 32-bit words: the product of the milliseconds and
the frequency, and the tick to wake at, may both wrap.
-/

namespace MxOS.Sched

open ByteMemory Mem Paging Ipc RoundRobin

/-! ### Tasks that are left alone -/

/-- The operation neither ends the task nor puts it to sleep. The current task is not killed. -/
def Op.Spares (pid : Fin 16) (kernel : Kernel) : Op → Prop
  | .kill target => target ≠ pid.val ∨ kernel.currentTask = pid
  | .exitCurrent | .exitAndReschedule _ | .sleepAndReschedule _ _ => kernel.currentTask ≠ pid
  | _ => True

/-- The clock and what the task is waiting for are the same. -/
structure Undisturbed (pid : Fin 16) (before after : Kernel) : Prop where
  enabled : after.multitaskingEnabled = before.multitaskingEnabled
  ticks : after.ticks = before.ticks
  active : (after.tasks pid).active = (before.tasks pid).active
  wakeTick : (after.tasks pid).wakeTick = (before.tasks pid).wakeTick
  sleeping : (after.tasks pid).sleeping = (before.tasks pid).sleeping

theorem Undisturbed.refl (pid : Fin 16) (kernel : Kernel) : Undisturbed pid kernel kernel :=
  ⟨rfl, rfl, rfl, rfl, rfl⟩

theorem Undisturbed.setTask (pid : Fin 16) (kernel : Kernel) {other : Fin 16} {task : Task}
    (active : task.active = (kernel.tasks other).active)
    (wakeTick : task.wakeTick = (kernel.tasks other).wakeTick)
    (sleeping : task.sleeping = (kernel.tasks other).sleeping) :
    Undisturbed pid kernel (kernel.setTask other task) :=
  ⟨rfl, rfl, kernel.setTask_part (·.active) other active pid,
    kernel.setTask_part (·.wakeTick) other wakeTick pid,
    kernel.setTask_part (·.sleeping) other sleeping pid⟩

theorem Undisturbed.setOther {pid other : Fin 16} (differ : pid ≠ other) (kernel : Kernel)
    (task : Task) : Undisturbed pid kernel (kernel.setTask other task) := by
  have same := Kernel.setTask_of_ne kernel task differ
  exact ⟨rfl, rfl, congrArg Task.active same, congrArg Task.wakeTick same,
    congrArg Task.sleeping same⟩

theorem Undisturbed.trans {pid : Fin 16} {first second third : Kernel}
    (one : Undisturbed pid first second) (two : Undisturbed pid second third) :
    Undisturbed pid first third :=
  ⟨two.enabled.trans one.enabled, two.ticks.trans one.ticks, two.active.trans one.active,
    two.wakeTick.trans one.wakeTick, two.sleeping.trans one.sleeping⟩

theorem Undisturbed.releaseTask {pid other : Fin 16} (differ : pid ≠ other) (kernel : Kernel) :
    Undisturbed pid kernel (releaseTask other kernel) := by
  have same := releaseTask_of_ne differ kernel
  exact ⟨rfl, rfl, congrArg Task.active same, congrArg Task.wakeTick same,
    congrArg Task.sleeping same⟩

theorem Undisturbed.taskExitCurrent {pid : Fin 16} {kernel : Kernel}
    (differ : kernel.currentTask ≠ pid) : Undisturbed pid kernel (taskExitCurrent kernel) := by
  unfold Sched.taskExitCurrent
  split
  · exact .releaseTask (Ne.symm differ) kernel
  · exact .refl pid kernel

theorem Undisturbed.installTask {pid other : Fin 16} {kernel : Kernel}
    (active : (kernel.tasks pid).active = true) (free : kernel.freePid = some other)
    (stackAddress : Word) (frame : List Word) (name : Word) (space : Option (Fin 6)) (heap : Heap)
    (pages : Pages) :
    Undisturbed pid kernel (installTask other stackAddress frame name space
      { kernel with heap := heap, pages := pages }) := by
  have differ : pid ≠ other := by
    rintro rfl
    exact Bool.false_ne_true ((freePid_inactive free).symm.trans active)
  have same := installTask_of_ne differ stackAddress frame name space
    { kernel with heap := heap, pages := pages }
  exact ⟨rfl, rfl, congrArg Task.active same, congrArg Task.wakeTick same,
    congrArg Task.sleeping same⟩

section Spared

variable {layout : Layout} {op : Op} {kernel after : Kernel} {outcome : Outcome} {pid : Fin 16}

theorem Op.Spares.entering (spares : op.Spares pid kernel) :
    Undisturbed pid kernel (op.entering kernel) := by
  cases op with
  | sleepAndReschedule ms currentEsp => exact .setOther (Ne.symm spares) kernel _
  | exitAndReschedule currentEsp => exact .taskExitCurrent spares
  | _ => exact .refl pid kernel

/-- An operation that does not reschedule leaves the clock as it is. -/
theorem Op.Spares.undisturbed (spares : op.Spares pid kernel)
    (active : (kernel.tasks pid).active = true) (passed : op.passedEsp = none)
    (performed : op.perform layout kernel = some (outcome, after)) :
    Undisturbed pid kernel after := by
  cases op with
  | createTask entry name =>
      obtain ⟨⟨_ | other, created⟩, result, same⟩ := Option.map_eq_some_iff.mp performed
      · obtain ⟨rfl, rfl⟩ := Prod.mk.inj same
        obtain ⟨heap, rfl⟩ := createTask_refused result
        exact ⟨rfl, rfl, rfl, rfl, rfl⟩
      · obtain ⟨rfl, rfl⟩ := Prod.mk.inj same
        obtain ⟨free, stackAddress, heap, rfl⟩ := createTask_eq_some result
        exact .installTask active free ..
  | createUserTaskArgv task =>
      obtain ⟨⟨_ | other, created⟩, result, same⟩ := Option.map_eq_some_iff.mp performed
      · obtain ⟨rfl, rfl⟩ := Prod.mk.inj same
        obtain ⟨heap, rfl⟩ := createUserTaskArgv_refused result
        exact ⟨rfl, rfl, rfl, rfl, rfl⟩
      · obtain ⟨rfl, rfl⟩ := Prod.mk.inj same
        obtain ⟨free, stackAddress, heap, space, pages, _, rfl⟩ := createUserTaskArgv_eq_some result
        exact .installTask active free ..
  | exitCurrent =>
      obtain ⟨rfl, rfl⟩ := Prod.mk.inj (Option.some.inj performed)
      exact .taskExitCurrent spares
  | kill target =>
      obtain ⟨rfl, rfl⟩ := Prod.mk.inj (Option.some.inj performed)
      change Undisturbed pid kernel (taskKill target kernel).2
      unfold taskKill
      cases found : kernel.activePid target with
      | none => exact .refl pid kernel
      | some other =>
          simp only
          split
          · exact .refl pid kernel
          · next notCurrent =>
              have differ : pid ≠ other := by
                rintro rfl
                obtain ⟨rfl, _⟩ := Kernel.activePid_eq_some.mp found
                exact spares.elim (fun other => other rfl) fun current => notCurrent current.symm
              exact (Undisturbed.releaseTask differ kernel).trans (.setOther differ _ _)
  | setPriority target priority =>
      obtain ⟨rfl, rfl⟩ := Prod.mk.inj (Option.some.inj performed)
      unfold taskSetPriority
      split
      · exact .refl pid kernel
      · exact .setTask pid kernel rfl rfl rfl
  | send target payload len =>
      obtain ⟨rfl, rfl⟩ := Prod.mk.inj (Option.some.inj performed)
      change Undisturbed pid kernel (ipcSend (supply payload) target len kernel ()).2.1
      unfold ipcSend
      split
      · exact .refl pid kernel
      · exact .setTask pid kernel rfl rfl rfl
  | recv =>
      obtain ⟨rfl, rfl⟩ := Prod.mk.inj (Option.some.inj performed)
      exact .setTask pid kernel rfl rfl rfl
  | _ => cases passed

/-- The operation advances the clock. -/
def Op.reschedule (op : Op) : Bool := op.passedEsp.isSome

/-- What happens to an active task that is left alone: it is woken when the clock is advanced to
its time. -/
structure Spared (advances : Bool) (pid : Fin 16) (before after : Kernel) : Prop where
  enabled : after.multitaskingEnabled = true
  ticks : after.ticks = before.ticks + if advances then 1 else 0
  active : (after.tasks pid).active = true
  wakeTick : (after.tasks pid).wakeTick = (before.tasks pid).wakeTick
  sleeping : (after.tasks pid).sleeping =
    ((before.tasks pid).sleeping && (!advances || after.ticks < (before.tasks pid).wakeTick))

theorem Undisturbed.spared (kept : Undisturbed pid kernel after)
    (enabled : kernel.multitaskingEnabled = true) (active : (kernel.tasks pid).active = true) :
    Spared false pid kernel after := by
  refine ⟨kept.enabled.trans enabled, ?_, kept.active.trans active, kept.wakeTick, ?_⟩
  · rw [kept.ticks]
    exact (BitVec.add_zero _).symm
  · rw [kept.sleeping, Bool.not_false, Bool.true_or, Bool.and_true]

theorem Task.wake_sleeping {ticks : Word} {task : Task} (active : task.active = true) :
    (task.wake ticks).sleeping = (task.sleeping && ticks < task.wakeTick) := by
  unfold Task.wake Task.ready
  cases task.sleeping with
  | true => simp [active]
  | false => rfl

theorem Rescheduled.sleeping (rescheduled : Rescheduled kernel after)
    (active : (kernel.tasks pid).active = true) :
    (after.tasks pid).sleeping =
      ((kernel.tasks pid).sleeping && kernel.ticks + 1 < (kernel.tasks pid).wakeTick) := by
  rw [rescheduled.part (·.sleeping) (fun _ _ => rfl), Task.wake_sleeping active]

theorem Op.Spares.spared (spares : op.Spares pid kernel)
    (enabled : kernel.multitaskingEnabled = true) (active : (kernel.tasks pid).active = true)
    (performed : op.perform layout kernel = some (outcome, after)) :
    Spared op.reschedule pid kernel after := by
  cases passed : op.passedEsp with
  | none =>
      have still : op.reschedule = false := by rw [Op.reschedule, passed, Option.isSome_none]
      rw [still]
      exact (spares.undisturbed active passed performed).spared enabled active
  | some lastEsp =>
      obtain ⟨esp, rfl, scheduled⟩ := op.reschedules passed performed
      have kept := spares.entering
      have rescheduled := schedule_rescheduled (kept.enabled.trans enabled) scheduled
      have advances : op.reschedule = true := by rw [Op.reschedule, passed, Option.isSome_some]
      have clock : after.ticks = kernel.ticks + 1 := by rw [rescheduled.ticks, kept.ticks]
      rw [advances]
      refine ⟨rescheduled.enabled, clock, ?_, ?_, ?_⟩
      · exact (rescheduled.part (·.active) (fun _ _ => rfl) pid).trans (kept.active.trans active)
      · exact (rescheduled.part (·.wakeTick) (fun _ _ => rfl) pid).trans kept.wakeTick
      · rw [rescheduled.sleeping (kept.active.trans active), kept.sleeping, kept.wakeTick,
          kept.ticks, clock, Bool.not_true, Bool.false_or]

end Spared

/-! ### Runs with sleeping tasks -/

/-- What a task can do: the operations on the task table, and going to sleep by waiting for
interrupts, during which `schedule` is called. -/
inductive Act where
  | perform (op : Op)
  | sleep (ms : Word)

def Act.step (layout : Layout) : Act → Kernel → Option Kernel
  | .perform op, kernel => (op.perform layout kernel).map Prod.snd
  | .sleep ms, kernel => some (taskSleep ms kernel)

def Act.Spares (pid : Fin 16) (act : Act) (kernel : Kernel) : Prop :=
  match act with
  | .perform op => op.Spares pid kernel
  | .sleep _ => kernel.currentTask ≠ pid

def Act.reschedule : Act → Bool
  | .perform op => op.reschedule
  | .sleep _ => false

theorem Act.Spares.spared {layout : Layout} {act : Act} {kernel after : Kernel} {pid : Fin 16}
    (spares : act.Spares pid kernel) (enabled : kernel.multitaskingEnabled = true)
    (active : (kernel.tasks pid).active = true) (stepped : act.step layout kernel = some after) :
    Spared act.reschedule pid kernel after := by
  cases act with
  | perform op =>
      obtain ⟨⟨outcome, after'⟩, performed, rfl⟩ := Option.map_eq_some_iff.mp stepped
      exact Op.Spares.spared spares enabled active performed
  | sleep ms =>
      obtain rfl := Option.some.inj stepped
      exact (Undisturbed.setOther (Ne.symm spares) kernel _).spared enabled active

def Op.sleeps : Op → Bool
  | .sleepAndReschedule .. => true
  | _ => false

/-- When a task can act. The Shell neither sleeps nor exits, and only the Shell kills. -/
def Act.Allowed (act : Act) (kernel : Kernel) : Prop :=
  match act with
  | .perform op => op.Allowed kernel ∧ (op.sleeps = true → kernel.currentTask ≠ 0)
  | .sleep _ => (kernel.tasks kernel.currentTask).active = true ∧ kernel.currentTask ≠ 0

instance Op.Allowed.decidable (kernel : Kernel) : (op : Op) → Decidable (op.Allowed kernel)
  | .schedule _ => isTrue trivial
  | .kill _ => inferInstanceAs (Decidable (_ = _))
  | .exitCurrent | .exitAndReschedule _ => inferInstanceAs (Decidable (_ ∧ _))
  | .createTask .. | .createUserTaskArgv _ | .sleepAndReschedule .. | .setPriority .. | .send ..
  | .recv => inferInstanceAs (Decidable (_ = _))

instance Act.Allowed.decidable (act : Act) (kernel : Kernel) : Decidable (act.Allowed kernel) :=
  match act with
  | .perform _ => inferInstanceAs (Decidable (_ ∧ _))
  | .sleep _ => inferInstanceAs (Decidable (_ ∧ _))

/-- The Shell is active and awake. -/
structure ShellAwake (kernel : Kernel) : Prop where
  owned : Owned kernel
  awake : (kernel.tasks 0).sleeping = false

theorem initMultitasking_shellAwake (layout : Layout) (memory : Memory) (frequency : Word) :
    ShellAwake (initMultitasking layout (booted memory frequency)) :=
  ⟨initMultitasking_owned layout memory frequency, rfl⟩

section Shell

variable {layout : Layout} {op : Op} {act : Act} {kernel after : Kernel}

theorem Act.Allowed.spares_shell (allowed : act.Allowed kernel) : act.Spares 0 kernel := by
  cases act with
  | sleep ms => exact allowed.2
  | perform op =>
      cases op with
      | kill target => exact Or.inr allowed.1
      | exitCurrent => exact allowed.1.2
      | exitAndReschedule currentEsp => exact allowed.1.2
      | sleepAndReschedule ms currentEsp => exact allowed.2 rfl
      | _ => trivial

theorem ShellAwake.step (shell : ShellAwake kernel) (allowed : act.Allowed kernel)
    (stepped : act.step layout kernel = some after) : ShellAwake after := by
  have spared := allowed.spares_shell.spared shell.owned.enabled shell.owned.shell stepped
  have awake : (after.tasks 0).sleeping = false := by
    rw [spared.sleeping, shell.awake, Bool.false_and]
  cases act with
  | sleep ms =>
      obtain rfl := Option.some.inj stepped
      exact ⟨shell.owned.steady (Steady.setTask kernel _ rfl rfl rfl), awake⟩
  | perform op =>
      obtain ⟨outcome, after', performed, owned⟩ := shell.owned.perform layout op allowed.1
      rw [Act.step, performed] at stepped
      obtain rfl := Option.some.inj stepped
      exact ⟨owned, awake⟩

theorem ShellAwake.run {acts : List Act} {memory : Memory} {frequency : Word}
    (along : EventRun.Along (Act.step layout) Act.Allowed acts
      (initMultitasking layout (booted memory frequency)))
    (ran : EventRun.run (Act.step layout) acts
      (initMultitasking layout (booted memory frequency)) = some kernel) : ShellAwake kernel :=
  along.invariant ShellAwake.step (initMultitasking_shellAwake layout memory frequency) ran

/-- The Shell is awake when `schedule` is called, so that the election takes a ready task even
where it falls back. -/
theorem ShellAwake.elected (shell : ShellAwake kernel) (allowed : (Act.perform op).Allowed kernel)
    (rescheduled : Rescheduled (op.entering kernel) after) :
    ((op.entering kernel).tasks after.currentTask).ready ((op.entering kernel).ticks + 1) =
      true := by
  have kept := Op.Spares.entering (Act.Allowed.spares_shell allowed)
  have active : ((op.entering kernel).tasks 0).active = true := kept.active.trans shell.owned.shell
  have fallback : (op.entering kernel).firstActive = some 0 := List.find?_cons_of_pos active
  have elected := rescheduled.elected
  rcases (op.entering kernel).timerTick.candidate_cases with
    ⟨next, found, elects, _⟩ | ⟨missing, _⟩
  · rw [found, Option.some_or] at elected
    exact Option.some.inj elected ▸ elects.ready
  · rw [missing, Option.none_or, fallback] at elected
    rw [← Option.some.inj elected, Task.ready, active, kept.sleeping, shell.awake]
    rfl

end Shell

/-- In every run in which the Shell neither sleeps nor exits and only the Shell kills, whatever
the priorities, every call of `schedule` elects a task that is not asleep or whose time has come,
and clears the flags of those tasks exactly whose time has come. -/
theorem sleepers_not_elected (layout : Layout) (memory : Memory) (frequency : Word)
    (acts : List Act) (kernel : Kernel)
    (along : EventRun.Along (Act.step layout) Act.Allowed acts
      (initMultitasking layout (booted memory frequency)))
    (ran : EventRun.run (Act.step layout) acts
      (initMultitasking layout (booted memory frequency)) = some kernel)
    (op : Op) (lastEsp : Word) (passed : op.passedEsp = some lastEsp)
    (allowed : (Act.perform op).Allowed kernel) :
    ∃ esp after, op.perform layout kernel = some (.resumed esp, after) ∧
      let called := (op.entering kernel).timerTick
      (called.tasks after.currentTask).active = true ∧
      ¬((called.tasks after.currentTask).sleeping = true ∧
        called.ticks < (called.tasks after.currentTask).wakeTick) ∧
      ∀ pid, (called.tasks pid).active = true →
        ((after.tasks pid).sleeping = true ↔
          (called.tasks pid).sleeping = true ∧ called.ticks < (called.tasks pid).wakeTick) := by
  have shell := ShellAwake.run along ran
  obtain ⟨outcome, after, performed, _⟩ := shell.owned.perform layout op allowed.1
  obtain ⟨esp, rfl, scheduled⟩ := op.reschedules passed performed
  have kept := Op.Spares.entering (Act.Allowed.spares_shell allowed)
  have rescheduled := schedule_rescheduled (kept.enabled.trans shell.owned.enabled) scheduled
  have ready := shell.elected allowed rescheduled
  rw [Task.ready, Bool.and_eq_true, Bool.not_eq_true', ← Bool.not_eq_true, Bool.and_eq_true,
    decide_eq_true_iff] at ready
  refine ⟨esp, after, performed, ready.1, ready.2, fun pid active => ?_⟩
  rw [rescheduled.sleeping active, Bool.and_eq_true, decide_eq_true_iff]
  rfl

/-- A task sleeps for 30 ms. The Shell is elected in the meantime, even though no task has a
priority of at least 0. -/
theorem sleeper_not_elected_early : ∃ kernel,
    EventRun.run (Act.step imageLayout)
      [.perform (.createTask 0x9100 0xF010), .perform (.schedule 0x7000),
        .perform (.setPriority 0 (-1)), .perform (.setPriority 1 (-1)), .sleep 30]
      (initMultitasking imageLayout (booted (fun _ => 0) 100)) = some kernel ∧
    ∃ esp after, (Op.schedule 0x101000).perform imageLayout kernel = some (.resumed esp, after) ∧
      after.currentTask ≠ 1 ∧ (after.tasks 1).sleeping = true := by
  refine ⟨_, rfl, ?_⟩
  obtain ⟨esp, after, performed, _, due, flags⟩ := sleepers_not_elected imageLayout (fun _ => 0) 100
    [.perform (.createTask 0x9100 0xF010), .perform (.schedule 0x7000),
      .perform (.setPriority 0 (-1)), .perform (.setPriority 1 (-1)), .sleep 30]
    _ (by decide +kernel) rfl (.schedule 0x101000) 0x101000 rfl ⟨trivial, by decide⟩
  refine ⟨esp, after, performed, fun early => ?_, (flags 1 (by decide +kernel)).mpr
    (by decide +kernel)⟩
  rw [early] at due
  exact due (by decide +kernel)

/-! ### How long a task sleeps -/

/-- The ticks a task is to sleep at 100 ticks per second, without any overflow. -/
def exactTicks (ms : Word) : Nat := max 1 (ms.toNat * 100 / 1000)

/-- The task is asleep until `schedule` has been called the given number of times, whatever the
others do. -/
def SleepsFor (layout : Layout) (pid : Fin 16) (calls : Nat) (kernel : Kernel) : Prop :=
  ∀ acts after, EventRun.Along (Act.step layout) (Act.Spares pid) acts kernel →
    EventRun.run (Act.step layout) acts kernel = some after →
    acts.countP Act.reschedule < calls → (after.tasks pid).sleeping = true

/-- The task has waited for some calls of `schedule`; it is asleep as long as the clock has never
reached the tick to wake at. -/
structure Dozing (pid : Fin 16) (start wakeTick : Word) (calls : Nat) (kernel : Kernel) :
    Prop where
  enabled : kernel.multitaskingEnabled = true
  active : (kernel.tasks pid).active = true
  wakes : (kernel.tasks pid).wakeTick = wakeTick
  ticks : kernel.ticks = start + BitVec.ofNat 32 calls
  sleeping : (kernel.tasks pid).sleeping = true ↔
    ∀ call, 1 ≤ call → call ≤ calls → start + BitVec.ofNat 32 call < wakeTick

section Dozing

variable {layout : Layout} {pid : Fin 16} {start wakeTick : Word} {calls : Nat}
  {kernel after : Kernel}

/-- One more tick is one more chance to wake. -/
theorem Dozing.spared {advances : Bool} (dozing : Dozing pid start wakeTick calls kernel)
    (spared : Spared advances pid kernel after) :
    Dozing pid start wakeTick (calls + if advances then 1 else 0) after := by
  have clock : after.ticks = start + BitVec.ofNat 32 (calls + if advances then 1 else 0) := by
    rw [spared.ticks, dozing.ticks, BitVec.ofNat_add]
    cases advances with
    | true => exact BitVec.add_assoc ..
    | false => exact BitVec.add_assoc ..
  refine ⟨spared.enabled, spared.active, spared.wakeTick.trans dozing.wakes, clock, ?_⟩
  rw [spared.sleeping, Bool.and_eq_true, dozing.sleeping, clock, dozing.wakes]
  cases advances with
  | false => simp only [Bool.not_false, Bool.true_or, and_true, Bool.false_eq_true, ↓reduceIte,
      Nat.add_zero]
  | true =>
      simp only [Bool.not_true, Bool.false_or, decide_eq_true_iff, ↓reduceIte]
      constructor
      · rintro ⟨earlier, last⟩ call positive inside
        rcases Nat.lt_or_eq_of_le inside with before | rfl
        · exact earlier call positive (Nat.le_of_lt_succ before)
        · exact last
      · intro all
        exact ⟨fun call positive inside => all call positive (Nat.le_succ_of_le inside),
          all (calls + 1) (Nat.le_add_left ..) le_rfl⟩

theorem Dozing.run {acts : List Act} (dozing : Dozing pid start wakeTick calls kernel)
    (along : EventRun.Along (Act.step layout) (Act.Spares pid) acts kernel)
    (ran : EventRun.run (Act.step layout) acts kernel = some after) :
    Dozing pid start wakeTick (calls + acts.countP Act.reschedule) after :=
  along.counting (fun dozing spares stepped =>
    dozing.spared (Act.Spares.spared spares dozing.enabled dozing.active stepped)) dozing ran

theorem spares_schedules (layout : Layout) (pid : Fin 16) (count : Nat) (kernel : Kernel) :
    EventRun.Along (Act.step layout) (Act.Spares pid)
      (List.replicate count (.perform (.schedule 0))) kernel := by
  intro earlier act later same state _
  have timer : act = .perform (.schedule 0) := by
    have member : act ∈ List.replicate count (Act.perform (.schedule 0)) := by
      rw [same]
      exact List.mem_append_right _ (List.mem_cons_self ..)
    exact List.eq_of_mem_replicate member
  rw [timer]
  trivial

/-- The timer can be called any number of times. -/
theorem Dozing.schedules (dozing : Dozing pid start wakeTick calls kernel) (layout : Layout)
    (count : Nat) :
    ∃ after, EventRun.run (Act.step layout) (List.replicate count (.perform (.schedule 0))) kernel =
      some after := by
  induction count generalizing calls kernel with
  | zero => exact ⟨kernel, rfl⟩
  | succ count ih =>
      obtain ⟨esp, next, scheduled, _⟩ := schedule_ends 0 dozing.enabled dozing.active
      have stepped : Act.step layout (.perform (.schedule 0)) kernel = some next := by
        simp only [Act.step, Op.perform, scheduled, Option.map_some]
      have spares : Act.Spares pid (.perform (.schedule 0)) kernel := trivial
      obtain ⟨after, ran⟩ := ih (dozing.spared (spares.spared dozing.enabled dozing.active stepped))
      refine ⟨after, ?_⟩
      rw [List.replicate_succ, EventRun.run_cons, stepped]
      exact ran

theorem Dozing.sleepsFor_iff (dozing : Dozing pid start wakeTick 1 kernel) (exact : Nat) :
    SleepsFor layout pid (exact - 1) kernel ↔
      ∀ call, 1 ≤ call → call < exact → start + BitVec.ofNat 32 call < wakeTick := by
  constructor
  · intro sleeps call positive inside
    obtain ⟨after, ran⟩ := dozing.schedules layout (call - 1)
    have along := spares_schedules layout pid (call - 1) kernel
    have counted : (List.replicate (call - 1) (Act.perform (.schedule 0))).countP Act.reschedule =
        call - 1 := List.countP_replicate.trans (if_pos rfl)
    have asleep := sleeps _ after along ran (by rw [counted]; omega)
    have waited := (dozing.run along ran).sleeping.mp asleep
    rw [counted] at waited
    exact waited call positive (by omega)
  · intro waits acts after along ran few
    refine (dozing.run along ran).sleeping.mpr fun call positive inside => ?_
    exact waits call positive (by omega)

end Dozing

/-- The words of the code against the exact numbers: the tick to wake at lies ahead all the time
if and only if neither the product nor the sum overflows, or the clock itself is about to wrap. -/
theorem ahead_iff {ticks wait ms : Nat} (clock : ticks < 2 ^ 32) (argument : ms < 2 ^ 32)
    (waits : wait = max 1 (ms * 100 % 2 ^ 32 / 1000)) :
    (∀ call, 1 ≤ call → call < max 1 (ms * 100 / 1000) →
      (ticks + call) % 2 ^ 32 < (ticks + wait) % 2 ^ 32) ↔
    ms * 100 < 2 ^ 32 ∧ (ticks + max 1 (ms * 100 / 1000) < 2 ^ 32 ∨ ticks = 2 ^ 32 - 1) := by
  by_cases small : ms * 100 < 2 ^ 32
  · rw [Nat.mod_eq_of_lt small] at waits
    rw [← waits]
    have bounded : wait ≤ 2 ^ 32 / 1000 := by omega
    refine Iff.trans ⟨fun ahead => ?_, fun fits call positive inside => ?_⟩
      (and_iff_right small).symm
    · have first := ahead 1 le_rfl
      omega
    · omega
  · -- The time is over when the tick to wake at is reached, which is too early.
    refine iff_of_false (fun ahead => ?_) fun fits => small fits.1
    have wrapped : ms * 100 % 2 ^ 32 ≤ ms * 100 - 2 ^ 32 := by
      rw [Nat.mod_eq_sub_mod (Nat.not_lt.mp small)]
      exact Nat.mod_le ..
    exact Nat.lt_irrefl _ (ahead wait (by omega) (by omega))

theorem taskSleepAndReschedule_dozing (ms currentEsp : Word) {kernel : Kernel}
    (enabled : kernel.multitaskingEnabled = true)
    (active : (kernel.tasks kernel.currentTask).active = true) :
    ∃ esp asleep, taskSleepAndReschedule ms currentEsp kernel = some (esp, asleep) ∧
      Dozing kernel.currentTask kernel.ticks
        (kernel.ticks + if ms * kernel.frequency / 1000 = 0 then 1
          else ms * kernel.frequency / 1000) 1 asleep := by
  let called := (Op.sleepAndReschedule ms currentEsp).entering kernel
  have task : called.tasks kernel.currentTask =
      { kernel.tasks kernel.currentTask with
        wakeTick := kernel.ticks + if ms * kernel.frequency / 1000 = 0 then 1
          else ms * kernel.frequency / 1000
        sleeping := true } := Kernel.setTask_self ..
  have still : (called.tasks kernel.currentTask).active = true := by rw [task]; exact active
  obtain ⟨esp, asleep, scheduled, rescheduled⟩ :=
    @schedule_ends currentEsp called enabled kernel.currentTask still
  refine ⟨esp, asleep, scheduled, rescheduled.enabled, ?_, ?_, rescheduled.ticks, ?_⟩
  · exact (rescheduled.part (·.active) (fun _ _ => rfl) _).trans still
  · rw [rescheduled.part (·.wakeTick) fun _ _ => rfl]
    exact congrArg Task.wakeTick task
  · rw [rescheduled.sleeping still, task, Bool.true_and, decide_eq_true_iff]
    constructor
    · intro later call positive inside
      obtain rfl := Nat.le_antisymm inside positive
      exact later
    · exact fun all => all 1 le_rfl le_rfl

/-- At 100 ticks per second, a task that calls `task_sleep_and_reschedule` is asleep for as many
ticks as it should, the one counted by the call included, if and only if the product of the
milliseconds and the frequency fits into a word and the tick to wake at does too, or the clock is
about to wrap. -/
theorem sleep_duration_iff (layout : Layout) (ms currentEsp : Word) (kernel : Kernel)
    (enabled : kernel.multitaskingEnabled = true) (frequency : kernel.frequency = 100)
    (active : (kernel.tasks kernel.currentTask).active = true) :
    (∃ esp asleep, taskSleepAndReschedule ms currentEsp kernel = some (esp, asleep) ∧
      SleepsFor layout kernel.currentTask (exactTicks ms - 1) asleep) ↔
    ms.toNat * 100 < 2 ^ 32 ∧
      (kernel.ticks.toNat + exactTicks ms < 2 ^ 32 ∨ kernel.ticks.toNat = 2 ^ 32 - 1) := by
  obtain ⟨esp, asleep, slept, dozing⟩ := taskSleepAndReschedule_dozing ms currentEsp enabled active
  have unique : (∃ esp asleep, taskSleepAndReschedule ms currentEsp kernel = some (esp, asleep) ∧
      SleepsFor layout kernel.currentTask (exactTicks ms - 1) asleep) ↔
      SleepsFor layout kernel.currentTask (exactTicks ms - 1) asleep := by
    constructor
    · rintro ⟨esp', asleep', same, sleeps⟩
      obtain ⟨rfl, rfl⟩ := Prod.mk.inj (Option.some.inj (slept.symm.trans same))
      exact sleeps
    · exact fun sleeps => ⟨esp, asleep, slept, sleeps⟩
  rw [frequency] at dozing
  have waits : (if ms * 100 / 1000 = 0 then 1 else ms * 100 / 1000 : Word).toNat =
      max 1 (ms.toNat * 100 % 2 ^ 32 / 1000) := by
    have quotient : (ms * 100 / 1000 : Word).toNat = ms.toNat * 100 % 2 ^ 32 / 1000 := rfl
    split
    · next none =>
        rw [none] at quotient
        exact (max_eq_left (quotient ▸ Nat.zero_le 1)).symm
    · next some =>
        rw [quotient]
        have positive : (ms * 100 / 1000 : Word).toNat ≠ 0 := fun zero =>
          some (BitVec.eq_of_toNat_eq zero)
        omega
  rw [unique, dozing.sleepsFor_iff, exactTicks,
    ← ahead_iff kernel.ticks.isLt ms.isLt waits]
  refine forall_congr' fun call => forall_congr' fun _ => forall_congr' fun inside => ?_
  rw [BitVec.lt_def, BitVec.toNat_add, BitVec.toNat_add, BitVec.toNat_ofNat, Nat.add_mod_mod]

/-- The task is elected and then sleeps for 50 ms. -/
theorem sleep_duration_fifty_ms : ∃ kernel esp asleep,
    EventRun.run (Act.step imageLayout)
      [.perform (.createTask 0x9100 0xF010), .perform (.schedule 0x7000)]
      (initMultitasking imageLayout (booted (fun _ => 0) 100)) = some kernel ∧
    kernel.currentTask = 1 ∧ taskSleepAndReschedule 50 0x101000 kernel = some (esp, asleep) ∧
    SleepsFor imageLayout 1 4 asleep := by
  have start : ((EventRun.run (Act.step imageLayout)
      [.perform (.createTask 0x9100 0xF010), .perform (.schedule 0x7000)]
      (initMultitasking imageLayout (booted (fun _ => 0) 100))).any fun kernel =>
        kernel.multitaskingEnabled = true ∧ kernel.frequency = 100 ∧ kernel.currentTask = 1 ∧
        (kernel.tasks 1).active = true ∧ kernel.ticks = 1) = true := by decide +kernel
  obtain ⟨kernel, ran, found⟩ := (Option.any_eq_true ..).mp start
  obtain ⟨enabled, frequency, current, active, ticks⟩ := of_decide_eq_true found
  have fits : exactTicks 50 = 5 := by decide
  obtain ⟨esp, asleep, slept, sleeps⟩ := (sleep_duration_iff imageLayout 50 0x101000 kernel enabled
    frequency (current ▸ active)).mpr (by rw [fits, ticks]; decide)
  exact ⟨kernel, esp, asleep, ran, current, slept, current ▸ sleeps⟩

/-- A task that sleeps for about twelve hours is awake again when the call returns: the product
has wrapped to 4. -/
theorem long_sleep_ends_at_once : ∃ kernel esp asleep,
    EventRun.run (Act.step imageLayout)
      [.perform (.createTask 0x9100 0xF010), .perform (.schedule 0x7000)]
      (initMultitasking imageLayout (booted (fun _ => 0) 100)) = some kernel ∧
    kernel.frequency = 100 ∧ kernel.currentTask = 1 ∧
    taskSleepAndReschedule 42949673 0x101000 kernel = some (esp, asleep) ∧
    asleep.ticks = kernel.ticks + 1 ∧ exactTicks 42949673 = 4294967 ∧
    ¬SleepsFor imageLayout 1 (exactTicks 42949673 - 1) asleep := by
  have start : ((EventRun.run (Act.step imageLayout)
      [.perform (.createTask 0x9100 0xF010), .perform (.schedule 0x7000)]
      (initMultitasking imageLayout (booted (fun _ => 0) 100))).any fun kernel =>
        kernel.frequency = 100 ∧ kernel.currentTask = 1 ∧
        (taskSleepAndReschedule 42949673 0x101000 kernel).any fun result =>
          result.2.ticks = kernel.ticks + 1 ∧ (result.2.tasks 1).sleeping = false) = true := by
    decide +kernel
  obtain ⟨kernel, ran, found⟩ := (Option.any_eq_true ..).mp start
  obtain ⟨frequency, current, slept⟩ := of_decide_eq_true found
  obtain ⟨⟨esp, asleep⟩, slept, found⟩ := (Option.any_eq_true ..).mp slept
  obtain ⟨ticks, awake⟩ := of_decide_eq_true found
  have long : exactTicks 42949673 = 4294967 := by decide +kernel
  refine ⟨kernel, esp, asleep, ran, frequency, current, slept, ticks, long, fun sleeps => ?_⟩
  have still := sleeps [] asleep (EventRun.along_nil _ asleep) rfl (by rw [long]; decide)
  exact Bool.false_ne_true (awake.symm.trans still)

end MxOS.Sched
