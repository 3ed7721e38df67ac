import MxOS.Kernel.SchedSleep

/-! # The tick counter

`kernel/pit.c` programs the timer and keeps the counter behind `uptime` and the sleeping
times. The counter is advanced by `schedule`, which the timer interrupt calls, but so do
the system calls that put a task to sleep or end it: each of them adds a tick of its own.
-/

namespace MxOS.Sched

open ByteMemory Mem Paging Ipc

/-- The values written to the timer's ports, and the kernel with the counter at zero. -/
def pitInit (frequencyHz : Word) (kernel : Kernel) : List (Word × Byte) × Kernel :=
  let frequencyHz := if frequencyHz = 0 then 100 else frequencyHz
  let divisor := (1193182 : Word) / frequencyHz
  let divisor := if divisor = 0 then 1 else divisor
  let divisor := if divisor > 0xFFFF then 0xFFFF else divisor
  ([(0x43, 0x36), (0x40, (divisor &&& 0xFF).setWidth 8),
      (0x40, ((divisor >>> 8) &&& 0xFF).setWidth 8)],
    { kernel with frequency := frequencyHz, ticks := 0 })

def getTicks (kernel : Kernel) : Word := kernel.ticks

/-! ### Steps -/

/-- The timer interrupt: its handler does nothing but call `schedule`. -/
def Act.interrupt : Act → Bool
  | .perform (.schedule _) => true
  | _ => false

/-- A `SYS_SLEEP` or `SYS_EXIT` system call. -/
def Act.yields : Act → Bool
  | .perform (.sleepAndReschedule ..) => true
  | .perform (.exitAndReschedule _) => true
  | _ => false

theorem Act.reschedule_eq (act : Act) : act.reschedule = (act.interrupt || act.yields) := by
  rcases act with op | ms
  · cases op <;> rfl
  · rfl

theorem Act.not_interrupt_of_yields {act : Act} (yields : act.yields = true) :
    act.interrupt = false := by
  rcases act with op | ms
  · cases op <;> first | rfl | exact absurd yields Bool.false_ne_true
  · exact absurd yields Bool.false_ne_true

theorem schedule_ticks {lastEsp esp : Word} {kernel after : Kernel}
    (scheduled : schedule lastEsp kernel = some (esp, after)) :
    after.ticks = kernel.ticks + 1 := by
  simp only [schedule] at scheduled
  split at scheduled
  · cases scheduled
    rfl
  · split at scheduled
    · cases scheduled
    · cases scheduled
      rfl

theorem taskExitCurrent_ticks (kernel : Kernel) :
    (taskExitCurrent kernel).ticks = kernel.ticks := by
  unfold taskExitCurrent
  split
  · rfl
  · rfl

theorem Op.entering_ticks (op : Op) (kernel : Kernel) :
    (op.entering kernel).ticks = kernel.ticks := by
  cases op with
  | exitAndReschedule currentEsp => exact taskExitCurrent_ticks kernel
  | _ => rfl

/-- Operations that do not call `schedule` leave the counter alone. -/
theorem Op.perform_ticks {layout : Layout} {op : Op} {kernel after : Kernel} {outcome : Outcome}
    (passed : op.passedEsp = none) (performed : op.perform layout kernel = some (outcome, after)) :
    after.ticks = kernel.ticks := by
  cases op with
  | createTask entry name =>
      obtain ⟨⟨_ | other, created⟩, result, same⟩ := Option.map_eq_some_iff.mp performed
      · obtain ⟨rfl, rfl⟩ := Prod.mk.inj same
        obtain ⟨heap, rfl⟩ := createTask_refused result
        rfl
      · obtain ⟨rfl, rfl⟩ := Prod.mk.inj same
        obtain ⟨_, stackAddress, heap, rfl⟩ := createTask_eq_some result
        rfl
  | createUserTaskArgv task =>
      obtain ⟨⟨_ | other, created⟩, result, same⟩ := Option.map_eq_some_iff.mp performed
      · obtain ⟨rfl, rfl⟩ := Prod.mk.inj same
        obtain ⟨heap, rfl⟩ := createUserTaskArgv_refused result
        rfl
      · obtain ⟨rfl, rfl⟩ := Prod.mk.inj same
        obtain ⟨_, stackAddress, heap, space, pages, _, rfl⟩ := createUserTaskArgv_eq_some result
        rfl
  | exitCurrent =>
      obtain ⟨rfl, rfl⟩ := Prod.mk.inj (Option.some.inj performed)
      exact taskExitCurrent_ticks kernel
  | kill target =>
      obtain ⟨rfl, rfl⟩ := Prod.mk.inj (Option.some.inj performed)
      change (taskKill target kernel).2.ticks = kernel.ticks
      unfold taskKill
      split
      · rfl
      · split
        · rfl
        · rfl
  | setPriority target priority =>
      obtain ⟨rfl, rfl⟩ := Prod.mk.inj (Option.some.inj performed)
      unfold taskSetPriority
      split
      · rfl
      · rfl
  | send target payload len =>
      obtain ⟨rfl, rfl⟩ := Prod.mk.inj (Option.some.inj performed)
      change (ipcSend (supply payload) target len kernel ()).2.1.ticks = kernel.ticks
      unfold ipcSend
      split
      · rfl
      · rfl
  | recv =>
      obtain ⟨rfl, rfl⟩ := Prod.mk.inj (Option.some.inj performed)
      rfl
  | _ => cases passed

theorem Act.step_ticks {layout : Layout} {act : Act} {kernel after : Kernel}
    (stepped : act.step layout kernel = some after) :
    after.ticks = kernel.ticks + BitVec.ofNat 32 (if act.reschedule then 1 else 0) := by
  cases act with
  | sleep ms =>
      obtain rfl := Option.some.inj stepped
      exact (BitVec.add_zero _).symm
  | perform op =>
      obtain ⟨⟨outcome, after'⟩, performed, rfl⟩ := Option.map_eq_some_iff.mp stepped
      cases passed : op.passedEsp with
      | none =>
          rw [Act.reschedule, Op.reschedule, passed, op.perform_ticks passed performed]
          exact (BitVec.add_zero _).symm
      | some lastEsp =>
          obtain ⟨esp, _, scheduled⟩ := op.reschedules passed performed
          rw [Act.reschedule, Op.reschedule, passed, schedule_ticks scheduled, op.entering_ticks]
          rfl

/-! ### Runs -/

/-- Over a run the counter advances by the number of calls of `schedule`. -/
theorem ticks_run {layout : Layout} {start last : Kernel} {acts : List Act}
    (ran : EventRun.run (Act.step layout) acts start = some last) :
    last.ticks = start.ticks + BitVec.ofNat 32 (acts.countP Act.reschedule) := by
  induction acts generalizing start with
  | nil =>
      obtain rfl := Option.some.inj ran
      exact (BitVec.add_zero _).symm
  | cons act rest ih =>
      obtain ⟨next, stepped, ran⟩ := Option.bind_eq_some_iff.mp ran
      rw [ih ran, Act.step_ticks stepped, List.countP_cons, Nat.add_comm (rest.countP _),
        BitVec.ofNat_add, BitVec.add_assoc]

/-- In every state of the run, the counter is the number of timer interrupts since `pit_init`. -/
def CountsInterrupts (layout : Layout) (start : Kernel) (acts : List Act) : Prop :=
  ∀ done later state, acts = done ++ later →
    EventRun.run (Act.step layout) done start = some state →
    getTicks state = BitVec.ofNat 32 (done.countP Act.interrupt)

/-- In a run after `pit_init` the counter is the number of timer interrupts, in every state, if
and only if no task makes a `SYS_SLEEP` or `SYS_EXIT` call. -/
theorem ticks_count_interrupts_iff (layout : Layout) (frequencyHz : Word) (start : Kernel)
    (acts : List Act) (last : Kernel)
    (ran : EventRun.run (Act.step layout) acts (pitInit frequencyHz start).2 = some last) :
    CountsInterrupts layout (pitInit frequencyHz start).2 acts ↔
      ∀ act ∈ acts, act.yields = false := by
  have zero : (pitInit frequencyHz start).2.ticks = 0 := rfl
  generalize (pitInit frequencyHz start).2 = kernel at ran zero
  constructor
  · intro counts act member
    obtain ⟨earlier, later, rfl⟩ := List.append_of_mem member
    by_contra yields
    rw [Bool.not_eq_false] at yields
    rw [EventRun.run_append] at ran
    obtain ⟨state, reached, continued⟩ := Option.bind_eq_some_iff.mp ran
    obtain ⟨next, stepped, _⟩ := Option.bind_eq_some_iff.mp continued
    have before := counts earlier (act :: later) state rfl reached
    have after := counts (earlier ++ [act]) later next (List.append_cons earlier act later)
      ((EventRun.run_snoc_eq_some _).mpr ⟨state, reached, stepped⟩)
    rw [List.countP_append, List.countP_singleton, Act.not_interrupt_of_yields yields] at after
    have clock := Act.step_ticks stepped
    rw [Act.reschedule_eq, yields, Bool.or_true] at clock
    have still : state.ticks = state.ticks + 1 :=
      calc state.ticks = next.ticks := before.trans after.symm
        _ = state.ticks + 1 := clock
    bv_omega
  · rintro quiet done later state rfl reached
    have counted : done.countP Act.reschedule = done.countP Act.interrupt :=
      List.countP_congr fun act member => by
        rw [Act.reschedule_eq, quiet act (List.mem_append_left _ member), Bool.or_false]
    rw [getTicks, ticks_run reached, zero, counted]
    exact BitVec.zero_add _

theorem interrupts_counted : ∃ kernel,
    EventRun.run (Act.step imageLayout)
      [.perform (.createTask 0x9100 0xF010), .perform (.schedule 0x7000), .sleep 10,
        .perform (.schedule 0x101000)]
      (pitInit 100 (initMultitasking imageLayout (booted (fun _ => 0) 100))).2 = some kernel ∧
    getTicks kernel = 2 := by
  have reached : (EventRun.run (Act.step imageLayout)
      [.perform (.createTask 0x9100 0xF010), .perform (.schedule 0x7000), .sleep 10,
        .perform (.schedule 0x101000)]
      (pitInit 100 (initMultitasking imageLayout (booted (fun _ => 0) 100))).2).isSome = true := by
    decide +kernel
  obtain ⟨kernel, ran⟩ := Option.isSome_iff_exists.mp reached
  refine ⟨kernel, ran, ?_⟩
  exact (ticks_count_interrupts_iff imageLayout 100 _ _ kernel ran).mpr (by decide) _ [] kernel
    (List.append_nil _).symm ran

/-- One timer interrupt and one `SYS_SLEEP` call count as two ticks. -/
theorem sleep_call_counts_as_tick : ∃ kernel,
    EventRun.run (Act.step imageLayout)
      [.perform (.createTask 0x9100 0xF010), .perform (.schedule 0x7000),
        .perform (.sleepAndReschedule 10 0x101000)]
      (pitInit 100 (initMultitasking imageLayout (booted (fun _ => 0) 100))).2 = some kernel ∧
    getTicks kernel = 2 ∧
    ¬ CountsInterrupts imageLayout
      (pitInit 100 (initMultitasking imageLayout (booted (fun _ => 0) 100))).2
      [.perform (.createTask 0x9100 0xF010), .perform (.schedule 0x7000),
        .perform (.sleepAndReschedule 10 0x101000)] := by
  have reached : ((EventRun.run (Act.step imageLayout)
      [.perform (.createTask 0x9100 0xF010), .perform (.schedule 0x7000),
        .perform (.sleepAndReschedule 10 0x101000)]
      (pitInit 100 (initMultitasking imageLayout (booted (fun _ => 0) 100))).2).any
        fun kernel => getTicks kernel = 2) = true := by
    decide +kernel
  obtain ⟨kernel, ran, two⟩ := (Option.any_eq_true ..).mp reached
  rw [decide_eq_true_eq] at two
  refine ⟨kernel, ran, two, fun counts => ?_⟩
  have one := counts _ [] kernel (List.append_nil _).symm ran
  rw [two] at one
  exact absurd one (by decide)

end MxOS.Sched
