import MxOS.Kernel.SchedSleep

/-! # Waiting for a turn

Round robin needs no quiet phase to be fair. Whatever the tasks do between the calls of
`schedule`, every call that elects somebody else brings the turn closer to a task that is
ready and of the highest priority.
-/

namespace MxOS.Sched

open ByteMemory Mem Paging Ipc RoundRobin

section Calls

variable {layout : Layout} {kernel after : Kernel} {pid : Fin 16}

/-- The state in which an act calls `schedule`, the clock being advanced. -/
def Act.called (kernel : Kernel) : Act → Kernel
  | .perform op => (op.entering kernel).timerTick
  | .sleep _ => kernel

/-- The task could be elected: whenever `schedule` is called, it is ready, no ready task has a
higher priority, and its priority is not negative. -/
def Act.Eligible (pid : Fin 16) (act : Act) (kernel : Kernel) : Prop :=
  act.reschedule = true → (act.called kernel).Foremost pid ∧
    0 ≤ ((act.called kernel).tasks pid).priority

instance Act.Eligible.decidable (pid : Fin 16) (act : Act) (kernel : Kernel) :
    Decidable (act.Eligible pid kernel) := inferInstanceAs (Decidable (_ → _ ∧ _))

/-- Only calls of `schedule` change the current task. -/
theorem Op.currentTask_of_not_reschedule {op : Op} {outcome : Outcome}
    (passed : op.passedEsp = none) (performed : op.perform layout kernel = some (outcome, after)) :
    after.currentTask = kernel.currentTask ∧
      after.multitaskingEnabled = kernel.multitaskingEnabled := by
  cases op with
  | createTask entry name =>
      obtain ⟨⟨result, created⟩, returned, same⟩ := Option.map_eq_some_iff.mp performed
      obtain ⟨rfl, rfl⟩ := Prod.mk.inj same
      have entry := createTask_created returned
      exact ⟨entry.currentTask, entry.enabled⟩
  | createUserTaskArgv task =>
      obtain ⟨⟨result, created⟩, returned, same⟩ := Option.map_eq_some_iff.mp performed
      obtain ⟨rfl, rfl⟩ := Prod.mk.inj same
      have entry := createUserTaskArgv_created returned
      exact ⟨entry.currentTask, entry.enabled⟩
  | exitCurrent =>
      obtain ⟨rfl, rfl⟩ := Prod.mk.inj (Option.some.inj performed)
      unfold taskExitCurrent
      split
      · exact ⟨rfl, rfl⟩
      · exact ⟨rfl, rfl⟩
  | kill target =>
      obtain ⟨rfl, rfl⟩ := Prod.mk.inj (Option.some.inj performed)
      cases kernel.activePid target with
      | none => exact ⟨rfl, rfl⟩
      | some other =>
          simp only
          split
          · exact ⟨rfl, rfl⟩
          · exact ⟨rfl, rfl⟩
  | setPriority target priority =>
      obtain ⟨rfl, rfl⟩ := Prod.mk.inj (Option.some.inj performed)
      unfold taskSetPriority
      cases kernel.activePid target with
      | none => exact ⟨rfl, rfl⟩
      | some other => exact ⟨rfl, rfl⟩
  | send target payload len =>
      obtain ⟨rfl, rfl⟩ := Prod.mk.inj (Option.some.inj performed)
      cases kernel.activePid target with
      | none => exact ⟨rfl, rfl⟩
      | some other => exact ⟨rfl, rfl⟩
  | recv =>
      obtain ⟨rfl, rfl⟩ := Prod.mk.inj (Option.some.inj performed)
      exact ⟨rfl, rfl⟩
  | _ => cases passed

/-- A call elects the task, or somebody before it in cyclic order. -/
theorem Rescheduled.closer (rescheduled : Rescheduled kernel after)
    (foremost : kernel.timerTick.Foremost pid)
    (positive : 0 ≤ (kernel.timerTick.tasks pid).priority) :
    after.currentTask = pid ∨
      between after.currentTask pid < between kernel.currentTask pid := by
  rcases kernel.timerTick.candidate_cases with ⟨next, found, elects, _⟩ | ⟨_, negative⟩
  · have elected := rescheduled.elected
    rw [found, Option.some_or] at elected
    obtain rfl : next = after.currentTask := Option.some.inj elected
    have same : (kernel.timerTick.tasks pid).priority =
        (kernel.timerTick.tasks after.currentTask).priority :=
      le_antisymm (elects.highest pid foremost.1) (foremost.2 _ elects.ready)
    have before : between kernel.currentTask after.currentTask ≤
        between kernel.currentTask pid := elects.first pid foremost.1 same
    rcases Nat.lt_or_eq_of_le before with earlier | here
    · exact Or.inr (between_lt_of_between_lt earlier)
    · exact Or.inl (between_injective _ here)
  · exact absurd (negative pid foremost.1) (not_lt.mpr positive)

/-- What an act does to the turns. -/
theorem Act.Eligible.turn {act : Act} (eligible : act.Eligible pid kernel)
    (enabled : kernel.multitaskingEnabled = true) (stepped : act.step layout kernel = some after) :
    after.multitaskingEnabled = true ∧
      (act.reschedule = true ∧ after.currentTask = pid ∨
        between after.currentTask pid + (if act.reschedule then 1 else 0) ≤
          between kernel.currentTask pid) := by
  cases act with
  | sleep ms =>
      obtain rfl := Option.some.inj stepped
      exact ⟨enabled, Or.inr (Nat.le_refl _)⟩
  | perform op =>
      obtain ⟨⟨outcome, later⟩, performed, rfl⟩ := Option.map_eq_some_iff.mp stepped
      cases passed : op.passedEsp with
      | none =>
          obtain ⟨current, same⟩ := op.currentTask_of_not_reschedule passed performed
          have quiet : (Act.perform op).reschedule = false := by
            rw [Act.reschedule, Op.reschedule, passed, Option.isSome_none]
          rw [quiet, if_neg Bool.false_ne_true]
          exact ⟨same.trans enabled, Or.inr (congrArg (between · pid) current).le⟩
      | some lastEsp =>
          obtain ⟨esp, rfl, scheduled⟩ := op.reschedules passed performed
          have calls : (Act.perform op).reschedule = true := by
            rw [Act.reschedule, Op.reschedule, passed, Option.isSome_some]
          have rescheduled := schedule_rescheduled
            ((op.entering_enabled kernel).trans enabled) scheduled
          obtain ⟨foremost, positive⟩ := eligible calls
          refine ⟨rescheduled.enabled, ?_⟩
          rw [calls, if_pos rfl]
          rcases rescheduled.closer foremost positive with elected | closer
          · exact Or.inl ⟨rfl, elected⟩
          · rw [op.entering_currentTask] at closer
            exact Or.inr closer

end Calls

/-- No task starves behind its equals. In every run, whatever the tasks do, a task that is ready
and of the highest priority, at least 0, whenever `schedule` is called, is elected by one of the
next calls: there are at most as many calls before as there are places between the current task
and it in cyclic order, which is fifteen at most. -/
theorem bounded_waiting (layout : Layout) (kernel : Kernel)
    (enabled : kernel.multitaskingEnabled = true) (pid : Fin 16) (acts : List Act) (last : Kernel)
    (ran : EventRun.run (Act.step layout) acts kernel = some last)
    (eligible : EventRun.Along (Act.step layout) (Act.Eligible pid) acts kernel)
    (calls : between kernel.currentTask pid < acts.countP Act.reschedule) :
    between kernel.currentTask pid ≤ 15 ∧
    ∃ earlier act later state, acts = earlier ++ act :: later ∧ act.reschedule = true ∧
      EventRun.run (Act.step layout) (earlier ++ [act]) kernel = some state ∧
      state.currentTask = pid := by
  refine ⟨Nat.le_of_lt_succ (between_lt _ _), ?_⟩
  let waits : Kernel → Nat := fun kernel => between kernel.currentTask pid
  let Enabled : Kernel → Prop := fun kernel => kernel.multitaskingEnabled = true
  refine eligible.reaches ?_ ?_ (show Enabled kernel from enabled) ran
    (show waits kernel < _ from calls)
  · intro act state after enabled eligible stepped
    exact (eligible.turn enabled stepped).1
  · intro act state after enabled eligible stepped
    exact (eligible.turn enabled stepped).2

/-- The first of two tasks creates another one. -/
def creatingActs : List Act :=
  [.perform (.schedule 0x7000), .perform (.createTask 0x9300 0xF030),
    .perform (.schedule 0x100FC0)]

/-- The second task has its turn although the first one creates another task. -/
theorem bounded_waiting_second : ∃ kernel, Reachable imageLayout kernel ∧
    ∃ earlier act later state, creatingActs = earlier ++ act :: later ∧ act.reschedule = true ∧
      EventRun.run (Act.step imageLayout) (earlier ++ [act]) kernel = some state ∧
      state.currentTask = 2 := by
  have start : Reachable imageLayout _ := Reachable.start (fun _ => 0) 100
  have first := Reachable.step (.createTask 0x9100 0xF010) start rfl rfl
  have second := Reachable.step (.createTask 0x9200 0xF020) first rfl rfl
  have elected : ∀ kernel, Reachable imageLayout kernel → kernel.multitaskingEnabled = true →
      (EventRun.run (Act.step imageLayout) creatingActs kernel).isSome = true →
      EventRun.Along (Act.step imageLayout) (Act.Eligible 2) creatingActs kernel →
      between kernel.currentTask 2 < 2 →
      ∃ earlier act later state, creatingActs = earlier ++ act :: later ∧ act.reschedule = true ∧
        EventRun.run (Act.step imageLayout) (earlier ++ [act]) kernel = some state ∧
        state.currentTask = 2 := by
    intro kernel _ enabled ends eligible near
    obtain ⟨last, ran⟩ := Option.isSome_iff_exists.mp ends
    exact (bounded_waiting imageLayout kernel enabled 2 creatingActs last ran eligible near).2
  exact ⟨_, second, elected _ second (by decide +kernel) (by decide +kernel) (by decide +kernel)
    (by decide +kernel)⟩

end MxOS.Sched
