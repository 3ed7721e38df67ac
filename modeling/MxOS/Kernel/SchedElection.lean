import Mathlib.Data.Fintype.Basic
import MxOS.Kernel.SchedOwnership
import MxOS.Lib.RoundRobin

/-! # Which task is elected

The first loop of `find_next_task` passes the tasks in cyclic order and keeps the first
one of the highest priority among those that are ready. It compares with -1 at first, so
that tasks of negative priority are never kept: when no other task is ready, the loop
finds nobody and the first active task of the table is taken instead.
-/

namespace MxOS.Sched

open ByteMemory Mem Paging Ipc RoundRobin

/-! ### Ready tasks -/

/-- The task is active, and not asleep or due to wake. -/
def Task.ready (ticks : Word) (task : Task) : Bool :=
  task.active && !(task.sleeping && ticks < task.wakeTick)

/-- Ready tasks are woken. -/
def Task.wake (ticks : Word) (task : Task) : Task :=
  { task with sleeping := task.sleeping && !task.ready ticks }

theorem Task.wake_of_ready {ticks : Word} {task : Task} (ready : task.ready ticks = true) :
    task.wake ticks = { task with sleeping := false } := by
  simp only [Task.wake, ready, Bool.not_true, Bool.and_false]

theorem Task.wake_of_not_ready {ticks : Word} {task : Task} (waits : task.ready ticks = false) :
    task.wake ticks = task := by
  simp only [Task.wake, waits, Bool.not_false, Bool.and_true]

/-- Waking does not change who is ready. -/
theorem Task.ready_wake (ticks : Word) (task : Task) :
    (task.wake ticks).ready ticks = task.ready ticks := by
  cases ready : task.ready ticks with
  | true =>
      rw [Task.wake_of_ready ready]
      unfold Task.ready at ready ⊢
      rw [Bool.and_eq_true] at ready
      simp only [ready.1, Bool.false_and, Bool.not_false, Bool.and_self]
  | false => rw [Task.wake_of_not_ready ready, ready]

theorem Task.wake_wake (ticks : Word) (task : Task) :
    (task.wake ticks).wake ticks = task.wake ticks := by
  cases ready : task.ready ticks with
  | true =>
      rw [Task.wake_of_ready ((Task.ready_wake ticks task).trans ready), Task.wake_of_ready ready]
  | false => rw [Task.wake_of_not_ready ready, Task.wake_of_not_ready ready]

/-- One iteration of the election: a ready candidate is woken and compared with the best one so
far. -/
theorem elect_eq (ticks : Word) (election : Election) (candidate : Fin 16) :
    elect ticks election candidate =
      let task := election.tasks candidate
      let best :=
        if task.ready ticks then
          challenge (fun pid => (election.tasks pid).priority)
            (election.next, election.bestPriority) candidate
        else (election.next, election.bestPriority)
      ⟨best.1, best.2, Function.update election.tasks candidate (task.wake ticks)⟩ := by
  unfold elect challenge
  by_cases active : (election.tasks candidate).active = true
  · by_cases waits : (election.tasks candidate).sleeping = true ∧
        ticks < (election.tasks candidate).wakeTick
    · have notReady : (election.tasks candidate).ready ticks = false := by
        simp [Task.ready, active, waits.1, waits.2]
      simp only [active, Bool.not_true, Bool.false_eq_true, ↓reduceIte, waits, and_self, notReady,
        Task.wake_of_not_ready notReady, Function.update_eq_self]
    · have ready : (election.tasks candidate).ready ticks = true := by
        simpa [Task.ready, active, Classical.or_iff_not_imp_left] using waits
      simp only [active, Bool.not_true, Bool.false_eq_true, ↓reduceIte, waits, ready,
        Task.wake_of_ready ready, gt_iff_lt]
      split <;> rfl
  · have notReady : (election.tasks candidate).ready ticks = false := by
      simp [Task.ready, active]
    simp only [active, Bool.not_false, ↓reduceIte, notReady, Bool.false_eq_true,
      Task.wake_of_not_ready notReady, Function.update_eq_self]

theorem wake_update (ticks : Word) (tasks : Fin 16 → Task) (candidate pid : Fin 16) :
    ∀ {Value : Type} (part : Task → Value), (∀ task, part (task.wake ticks) = part task) →
      part (Function.update tasks candidate ((tasks candidate).wake ticks) pid) =
        part (tasks pid) := by
  intro Value part same
  by_cases here : pid = candidate
  · rw [here, Function.update_self, same]
  · rw [Function.update_of_ne here]

/-- The loop compares the ready candidates, and wakes them. -/
theorem foldl_elect (ticks : Word) (candidates : List (Fin 16)) (election : Election) :
    candidates.foldl (elect ticks) election =
      let best := (candidates.filter fun pid => (election.tasks pid).ready ticks).foldl
        (challenge fun pid => (election.tasks pid).priority)
        (election.next, election.bestPriority)
      ⟨best.1, best.2, fun pid =>
        if pid ∈ candidates then (election.tasks pid).wake ticks else election.tasks pid⟩ := by
  induction candidates generalizing election with
  | nil => rfl
  | cons candidate rest ih =>
      have ready : ∀ pid, (Function.update election.tasks candidate
          ((election.tasks candidate).wake ticks) pid).ready ticks =
            (election.tasks pid).ready ticks := fun pid =>
        wake_update ticks election.tasks candidate pid (·.ready ticks) (Task.ready_wake ticks)
      have priority : ∀ pid, (Function.update election.tasks candidate
          ((election.tasks candidate).wake ticks) pid).priority =
            (election.tasks pid).priority := fun pid =>
        wake_update ticks election.tasks candidate pid (·.priority) fun _ => rfl
      have woken : ∀ pid, (Function.update election.tasks candidate
          ((election.tasks candidate).wake ticks) pid).wake ticks =
            (election.tasks pid).wake ticks := fun pid =>
        wake_update ticks election.tasks candidate pid (·.wake ticks) (Task.wake_wake ticks)
      have tasks : ∀ pid, (if pid ∈ rest then (election.tasks pid).wake ticks
          else Function.update election.tasks candidate
            ((election.tasks candidate).wake ticks) pid) =
          if pid ∈ candidate :: rest then (election.tasks pid).wake ticks
          else election.tasks pid := by
        intro pid
        by_cases later : pid ∈ rest
        · rw [if_pos later, if_pos (List.mem_cons_of_mem _ later)]
        · by_cases here : pid = candidate
          · rw [here] at later ⊢
            rw [if_neg later, Function.update_self, if_pos (List.mem_cons_self ..)]
          · rw [if_neg later, Function.update_of_ne here,
              if_neg fun member => (List.mem_cons.mp member).elim here later]
      rw [List.foldl_cons, ih, elect_eq]
      simp only [ready, priority, woken, tasks]
      cases first : (election.tasks candidate).ready ticks with
      | true => simp only [List.filter_cons, first, ↓reduceIte, List.foldl_cons]
      | false => simp only [List.filter_cons, first, Bool.false_eq_true, ↓reduceIte]

/-- Everybody who is ready, in cyclic order behind the current task. -/
def Kernel.readyAfter (kernel : Kernel) : List (Fin 16) :=
  turns (fun pid => (kernel.tasks pid).ready kernel.ticks) kernel.currentTask

/-- The task the first loop of the election finds. -/
def Kernel.candidate (kernel : Kernel) : Option (Fin 16) :=
  (kernel.readyAfter.foldl (challenge fun pid => (kernel.tasks pid).priority) (none, -1)).1

/-- The first active task of the table. -/
def Kernel.firstActive (kernel : Kernel) : Option (Fin 16) :=
  (List.finRange maxTasks).find? fun pid => (kernel.tasks pid).active

theorem findNextTask_eq (kernel : Kernel) :
    findNextTask kernel =
      (kernel.candidate.or kernel.firstActive,
        fun pid => (kernel.tasks pid).wake kernel.ticks) := by
  have candidates : ((List.range maxTasks).map fun index =>
    Fin.ofNat 16 (kernel.currentTask.val + (index + 1))) = after kernel.currentTask := rfl
  have election := foldl_elect kernel.ticks (after kernel.currentTask) ⟨none, -1, kernel.tasks⟩
  simp only [mem_after, ↓reduceIte] at election
  unfold findNextTask Kernel.firstActive
  simp only [candidates, election]
  rw [← turns, ← Kernel.readyAfter, ← Kernel.candidate]
  cases kernel.candidate with
  | none => rfl
  | some next => rfl

/-! ### The rule -/

/-- The task is ready, none that is ready has a higher priority, and none of the same priority
comes earlier in cyclic order. -/
structure Kernel.Elects (kernel : Kernel) (pid : Fin 16) : Prop where
  ready : (kernel.tasks pid).ready kernel.ticks = true
  highest : ∀ other, (kernel.tasks other).ready kernel.ticks = true →
    (kernel.tasks other).priority ≤ (kernel.tasks pid).priority
  first : ∀ other, (kernel.tasks other).ready kernel.ticks = true →
    (kernel.tasks other).priority = (kernel.tasks pid).priority →
    between kernel.currentTask pid ≤ between kernel.currentTask other

theorem Kernel.Elects.unique {kernel : Kernel} {first second : Fin 16}
    (one : kernel.Elects first) (two : kernel.Elects second) : first = second := by
  have same : (kernel.tasks first).priority = (kernel.tasks second).priority :=
    le_antisymm (two.highest first one.ready) (one.highest second two.ready)
  apply between_injective kernel.currentTask
  exact le_antisymm (one.first second two.ready same.symm) (two.first first one.ready same)

theorem Kernel.mem_readyAfter {kernel : Kernel} {pid : Fin 16} :
    pid ∈ kernel.readyAfter ↔ (kernel.tasks pid).ready kernel.ticks = true := mem_turns

theorem Kernel.elects_of_wins {kernel : Kernel} {pid : Fin 16}
    (wins : Wins (fun pid => (kernel.tasks pid).priority) kernel.readyAfter pid) :
    kernel.Elects pid := by
  refine ⟨mem_readyAfter.mp wins.mem, fun other ready => wins.le (mem_readyAfter.mpr ready),
    fun other ready same => ?_⟩
  obtain ⟨earlier, later, split, below, _⟩ := wins
  have order : kernel.readyAfter.Pairwise fun first second =>
      between kernel.currentTask first < between kernel.currentTask second := turns_pairwise ..
  have member : other ∈ kernel.readyAfter := mem_readyAfter.mpr ready
  rw [split] at member order
  rcases List.mem_append.mp member with before | behind
  · exact absurd same (below other before).ne
  · rcases List.mem_cons.mp behind with rfl | behind
    · exact le_rfl
    · exact (List.rel_of_pairwise_cons (List.pairwise_append.mp order).2.1 behind).le

/-- The first loop finds the task of the rule, unless all ready tasks have negative priorities. -/
theorem Kernel.candidate_cases (kernel : Kernel) :
    (∃ next, kernel.candidate = some next ∧ kernel.Elects next ∧
      0 ≤ (kernel.tasks next).priority) ∨
    (kernel.candidate = none ∧ ∀ pid, (kernel.tasks pid).ready kernel.ticks = true →
      (kernel.tasks pid).priority < 0) := by
  have found := foldl_challenge (fun pid => (kernel.tasks pid).priority) kernel.readyAfter (-1)
  unfold Kernel.candidate
  generalize kernel.readyAfter.foldl (challenge fun pid => (kernel.tasks pid).priority)
    (none, -1) = best at found ⊢
  rcases best with ⟨_ | next, best⟩
  · obtain ⟨_, negative⟩ := found
    exact Or.inr ⟨rfl, fun pid ready => by
      have low := negative pid (mem_readyAfter.mpr ready)
      omega⟩
  · obtain ⟨wins, rfl, above⟩ := found
    exact Or.inl ⟨next, rfl, elects_of_wins wins, by omega⟩

/-- Saving a stack pointer has no influence on the election. -/
theorem candidate_saveEsp (lastEsp : Word) (kernel : Kernel) :
    (kernel.saveEsp lastEsp).candidate = kernel.candidate := by
  have ready : ∀ pid, ((kernel.saveEsp lastEsp).tasks pid).ready kernel.ticks =
      (kernel.tasks pid).ready kernel.ticks :=
    kernel.setTask_part (·.ready kernel.ticks) kernel.currentTask rfl
  have priority : ∀ pid, ((kernel.saveEsp lastEsp).tasks pid).priority =
      (kernel.tasks pid).priority := kernel.setTask_part (·.priority) kernel.currentTask rfl
  have same : (kernel.saveEsp lastEsp).readyAfter = kernel.readyAfter :=
    congrArg (turns · kernel.currentTask) (funext ready)
  unfold Kernel.candidate
  simp only [same, priority]

theorem firstActive_saveEsp (lastEsp : Word) (kernel : Kernel) :
    (kernel.saveEsp lastEsp).firstActive = kernel.firstActive := by
  have active : ∀ pid, ((kernel.saveEsp lastEsp).tasks pid).active = (kernel.tasks pid).active :=
    kernel.setTask_part (·.active) kernel.currentTask rfl
  unfold Kernel.firstActive
  simp only [active]

/-- What a call of `schedule` does: it counts a tick, elects and wakes. -/
structure Rescheduled (before after : Kernel) : Prop where
  enabled : after.multitaskingEnabled = true
  ticks : after.ticks = before.ticks + 1
  elected : before.timerTick.candidate.or before.firstActive = some after.currentTask
  tasks : ∀ pid, ∃ esp, after.tasks pid =
    { (before.tasks pid).wake (before.ticks + 1) with esp := esp }

theorem Rescheduled.part {before after : Kernel} (rescheduled : Rescheduled before after)
    {Value : Type} (part : Task → Value)
    (same : ∀ (task : Task) esp, part { task with esp := esp } = part task) (pid : Fin 16) :
    part (after.tasks pid) = part ((before.tasks pid).wake (before.ticks + 1)) := by
  obtain ⟨esp, saved⟩ := rescheduled.tasks pid
  rw [saved, same]

theorem schedule_rescheduled {lastEsp esp : Word} {kernel after : Kernel}
    (enabled : kernel.multitaskingEnabled = true)
    (scheduled : schedule lastEsp kernel = some (esp, after)) : Rescheduled kernel after := by
  unfold schedule at scheduled
  rw [if_neg (show ¬(!kernel.timerTick.multitaskingEnabled) = true by
    simp only [Kernel.timerTick, enabled, Bool.not_true, Bool.false_eq_true, not_false_eq_true])]
    at scheduled
  simp only [findNextTask_eq, candidate_saveEsp, firstActive_saveEsp] at scheduled
  cases elected : kernel.timerTick.candidate.or kernel.firstActive with
  | none =>
      have nobody : kernel.timerTick.candidate.or kernel.timerTick.firstActive = none := elected
      simp only [nobody, reduceCtorEq] at scheduled
  | some next =>
      have found : kernel.timerTick.candidate.or kernel.timerTick.firstActive = some next := elected
      simp only [found] at scheduled
      obtain ⟨_, rfl⟩ := Prod.mk.inj (Option.some.inj scheduled)
      refine ⟨enabled, rfl, elected, fun pid => ?_⟩
      by_cases here : pid = kernel.currentTask
      · refine ⟨lastEsp, ?_⟩
        have saved : (kernel.timerTick.saveEsp lastEsp).tasks pid =
            { kernel.tasks pid with esp := lastEsp } := by
          rw [here]
          exact Kernel.setTask_self kernel.timerTick kernel.currentTask _
        exact congrArg (Task.wake (kernel.ticks + 1)) saved
      · refine ⟨(kernel.tasks pid).esp, ?_⟩
        have other : (kernel.timerTick.saveEsp lastEsp).tasks pid = kernel.tasks pid :=
          Kernel.setTask_of_ne kernel.timerTick _ here
        exact congrArg (Task.wake (kernel.ticks + 1)) other

/-- A call ends if there is an active task. -/
theorem schedule_ends (lastEsp : Word) {kernel : Kernel}
    (enabled : kernel.multitaskingEnabled = true) {pid : Fin 16}
    (active : (kernel.tasks pid).active = true) :
    ∃ esp after, schedule lastEsp kernel = some (esp, after) ∧ Rescheduled kernel after := by
  have spec := schedule_spec lastEsp enabled
  cases scheduled : schedule lastEsp kernel with
  | none =>
      rw [scheduled] at spec
      exact absurd active (by rw [spec pid]; exact Bool.false_ne_true)
  | some result =>
      obtain ⟨esp, after⟩ := result
      exact ⟨esp, after, rfl, schedule_rescheduled enabled scheduled⟩

/-! ### Turns -/

/-- The task is one of the ready tasks of the highest priority. -/
def Kernel.Foremost (kernel : Kernel) (pid : Fin 16) : Prop :=
  (kernel.tasks pid).ready kernel.ticks = true ∧
    ∀ other, (kernel.tasks other).ready kernel.ticks = true →
      (kernel.tasks other).priority ≤ (kernel.tasks pid).priority

instance (kernel : Kernel) (pid : Fin 16) : Decidable (kernel.Foremost pid) :=
  inferInstanceAs (Decidable (_ ∧ ∀ _ : Fin 16, _ → _))

/-- The foremost tasks in cyclic order behind the current task. -/
def Kernel.rotation (kernel : Kernel) : List (Fin 16) :=
  turns (fun pid => kernel.Foremost pid) kernel.currentTask

theorem Kernel.mem_rotation {kernel : Kernel} {pid : Fin 16} :
    pid ∈ kernel.rotation ↔ kernel.Foremost pid := by
  rw [Kernel.rotation, mem_turns, decide_eq_true_iff]

/-- The rule names the first task of the rotation. -/
theorem Kernel.Elects.head_rotation {kernel : Kernel} {pid : Fin 16} (elects : kernel.Elects pid) :
    ∃ others, kernel.rotation = pid :: others := by
  have foremost : kernel.Foremost pid := ⟨elects.ready, elects.highest⟩
  have member : pid ∈ kernel.rotation := mem_rotation.mpr foremost
  have order : kernel.rotation.Pairwise fun first second =>
      between kernel.currentTask first < between kernel.currentTask second := turns_pairwise ..
  cases turn : kernel.rotation with
  | nil =>
      rw [turn] at member
      exact absurd member List.not_mem_nil
  | cons first others =>
      rw [turn] at member order
      rcases List.mem_cons.mp member with rfl | later
      · exact ⟨others, rfl⟩
      · -- The first of the rotation would come earlier and have the same priority.
        have leads : kernel.Foremost first :=
          mem_rotation.mp (turn ▸ List.mem_cons_self ..)
        have same := le_antisymm (elects.highest first leads.1) (leads.2 pid elects.ready)
        have early := List.rel_of_pairwise_cons order later
        exact absurd (elects.first first leads.1 same) (Nat.not_le.mpr early)

/-- The tasks elected by consecutive calls of `schedule`, with the stack pointers passed. -/
def elections : List Word → Kernel → Option (List (Fin 16))
  | [], _ => some []
  | lastEsp :: rest, kernel =>
      (schedule lastEsp kernel).bind fun (_, after) =>
        (elections rest after).map (after.currentTask :: ·)

/-- No task becomes ready or ceases to be during the given number of ticks. -/
def Kernel.Quiet (kernel : Kernel) (calls : Nat) : Prop :=
  ∀ call ≤ calls, ∀ pid, (kernel.tasks pid).ready (kernel.ticks + BitVec.ofNat 32 call) =
    (kernel.tasks pid).ready kernel.ticks

theorem Task.ready_of_wake {ticks later : Word} {task : Task} :
    (task.wake ticks).ready later = if task.ready ticks then true else task.ready later := by
  cases ready : task.ready ticks with
  | true =>
      rw [Task.wake_of_ready ready]
      unfold Task.ready at ready ⊢
      rw [Bool.and_eq_true] at ready
      simp only [ready.1, Bool.false_and, Bool.not_false, Bool.and_self, ↓reduceIte]
  | false => simp only [Task.wake_of_not_ready ready, Bool.false_eq_true, ↓reduceIte]

/-- The rotation depends on who is ready, on the priorities and on the current task. -/
theorem Kernel.foremost_congr {kernel other : Kernel}
    (ready : ∀ pid, (other.tasks pid).ready other.ticks = (kernel.tasks pid).ready kernel.ticks)
    (priority : ∀ pid, (other.tasks pid).priority = (kernel.tasks pid).priority) (pid : Fin 16) :
    other.Foremost pid ↔ kernel.Foremost pid := by
  unfold Kernel.Foremost
  simp only [ready, priority]

theorem Kernel.rotation_congr {kernel other : Kernel}
    (ready : ∀ pid, (other.tasks pid).ready other.ticks = (kernel.tasks pid).ready kernel.ticks)
    (priority : ∀ pid, (other.tasks pid).priority = (kernel.tasks pid).priority) :
    other.rotation = turns (fun pid => kernel.Foremost pid) other.currentTask := by
  unfold Kernel.rotation
  simp only [Kernel.foremost_congr ready priority]

section Turn

variable {kernel after : Kernel} {calls : Nat}

theorem Kernel.Quiet.next (quiet : kernel.Quiet (calls + 1)) (pid : Fin 16) :
    (kernel.tasks pid).ready (kernel.ticks + 1) = (kernel.tasks pid).ready kernel.ticks :=
  quiet 1 (Nat.le_add_left ..) pid

theorem Rescheduled.ready (rescheduled : Rescheduled kernel after)
    (quiet : kernel.Quiet (calls + 1)) (pid : Fin 16) :
    (after.tasks pid).ready after.ticks = (kernel.tasks pid).ready kernel.ticks := by
  rw [rescheduled.part (·.ready after.ticks) (fun _ _ => rfl), rescheduled.ticks, Task.ready_wake,
    quiet.next]

theorem Rescheduled.priority (rescheduled : Rescheduled kernel after) (pid : Fin 16) :
    (after.tasks pid).priority = (kernel.tasks pid).priority :=
  rescheduled.part (·.priority) (fun _ _ => rfl) pid

theorem Rescheduled.quiet (rescheduled : Rescheduled kernel after)
    (quiet : kernel.Quiet (calls + 1)) : after.Quiet calls := by
  intro call inside pid
  rw [rescheduled.ready quiet, rescheduled.part (·.ready _) (fun _ _ => rfl), rescheduled.ticks,
    Task.ready_of_wake, quiet.next]
  have later := quiet (call + 1) (Nat.succ_le_succ inside) pid
  rw [show kernel.ticks + 1 + BitVec.ofNat 32 call =
    kernel.ticks + BitVec.ofNat 32 (call + 1) by bv_omega, later]
  cases (kernel.tasks pid).ready kernel.ticks with
  | true => rfl
  | false => rfl

/-- A call elects the first task of the rotation, which then becomes the last one. -/
theorem Rescheduled.turn (rescheduled : Rescheduled kernel after)
    (quiet : kernel.Quiet (calls + 1)) {pid : Fin 16} (foremost : kernel.Foremost pid)
    (positive : 0 ≤ (kernel.tasks pid).priority) :
    kernel.rotation.head? = some after.currentTask ∧
      after.rotation = kernel.rotation.rotate 1 := by
  have elected := rescheduled.elected
  have early : kernel.timerTick.rotation = kernel.rotation :=
    @Kernel.rotation_congr kernel kernel.timerTick quiet.next fun _ => rfl
  have ready : (kernel.timerTick.tasks pid).ready kernel.timerTick.ticks = true :=
    (quiet.next pid).trans foremost.1
  rcases kernel.timerTick.candidate_cases with ⟨next, found, elects, _⟩ | ⟨_, negative⟩
  · rw [found, Option.some_or] at elected
    obtain rfl := Option.some.inj elected
    obtain ⟨others, order⟩ := elects.head_rotation
    rw [early] at order
    refine ⟨by rw [order, List.head?_cons], ?_⟩
    rw [Kernel.rotation_congr (rescheduled.ready quiet) rescheduled.priority]
    exact turns_rotate order
  · exact absurd (negative pid ready) (not_lt.mpr positive)

end Turn

/-- Consecutive calls give the turns to the foremost tasks in cyclic order, and go round. -/
theorem elections_spec (esps : List Word) {kernel : Kernel}
    (enabled : kernel.multitaskingEnabled = true) {pid : Fin 16} (foremost : kernel.Foremost pid)
    (positive : 0 ≤ (kernel.tasks pid).priority) (quiet : kernel.Quiet esps.length) :
    ∃ elected, elections esps kernel = some elected ∧ elected.length = esps.length ∧
      ∀ call < esps.length, elected[call]? = kernel.rotation[call % kernel.rotation.length]? := by
  induction esps generalizing kernel with
  | nil => exact ⟨[], rfl, rfl, fun call inside => absurd inside (Nat.not_lt_zero call)⟩
  | cons lastEsp rest ih =>
      have active : (kernel.tasks pid).active = true := by
        have ready := foremost.1
        rw [Task.ready, Bool.and_eq_true] at ready
        exact ready.1
      obtain ⟨esp, after, scheduled, rescheduled⟩ := schedule_ends lastEsp enabled active
      obtain ⟨head, turned⟩ := rescheduled.turn quiet foremost positive
      have still : after.Foremost pid :=
        (Kernel.foremost_congr (rescheduled.ready quiet) rescheduled.priority pid).mpr foremost
      obtain ⟨elected, later, length, order⟩ := ih rescheduled.enabled still
        (by rwa [rescheduled.priority]) (rescheduled.quiet quiet)
      refine ⟨after.currentTask :: elected, ?_, by rw [List.length_cons, List.length_cons, length],
        fun call inside => ?_⟩
      · simp only [elections, scheduled, Option.bind_some, later, Option.map_some]
      · have some_turn : 0 < kernel.rotation.length :=
          List.length_pos_of_mem (Kernel.mem_rotation.mpr foremost)
        cases call with
        | zero =>
            rw [List.getElem?_cons_zero, Nat.zero_mod, ← List.head?_eq_getElem?, head]
        | succ call =>
            rw [List.getElem?_cons_succ, order call (Nat.lt_of_succ_lt_succ inside), turned,
              List.length_rotate, List.getElem?_rotate (Nat.mod_lt _ some_turn), Nat.mod_add_mod]

/-- While no task is created, ended, woken, put to sleep or given another priority, consecutive
calls of `schedule` elect the ready tasks of the highest priority, if this is at least 0, each
once in cyclic order behind the current task, and further calls repeat the cycle. -/
theorem round_robin (kernel : Kernel) (enabled : kernel.multitaskingEnabled = true)
    (eligible : ∃ pid, kernel.Foremost pid ∧ 0 ≤ (kernel.tasks pid).priority) (esps : List Word)
    (quiet : kernel.Quiet esps.length) :
    (∀ pid, pid ∈ kernel.rotation ↔ kernel.Foremost pid) ∧ kernel.rotation.Nodup ∧
    (kernel.rotation.Pairwise fun first second =>
      between kernel.currentTask first < between kernel.currentTask second) ∧
    ∃ elected, elections esps kernel = some elected ∧ elected.length = esps.length ∧
      (∀ call < esps.length,
        elected[call]? = kernel.rotation[call % kernel.rotation.length]?) ∧
      (esps.length = kernel.rotation.length → elected = kernel.rotation) := by
  obtain ⟨pid, foremost, positive⟩ := eligible
  obtain ⟨elected, run, length, order⟩ := elections_spec esps enabled foremost positive quiet
  refine ⟨fun pid => Kernel.mem_rotation, nodup_turns .., turns_pairwise .., elected, run, length,
    order, fun once => ?_⟩
  apply List.ext_getElem?
  intro call
  by_cases inside : call < esps.length
  · rw [order call inside, Nat.mod_eq_of_lt (once ▸ inside)]
  · rw [List.getElem?_eq_none (by omega), List.getElem?_eq_none (by omega)]

/-- Two tasks and the Shell have the same priority and take turns. -/
theorem round_robin_three_tasks : ∃ kernel, Reachable imageLayout kernel ∧
    kernel.rotation = [1, 2, 0] ∧
    elections [0x7000, 0x101000, 0x102000, 0x7000] kernel = some [1, 2, 0, 1] := by
  have start : Reachable imageLayout _ := Reachable.start (fun _ => 0) 100
  have first := Reachable.step (.createTask 0x9100 0xF010) start rfl rfl
  have second := Reachable.step (.createTask 0x9200 0xF020) first rfl rfl
  have run : ∀ kernel, Reachable imageLayout kernel → kernel.multitaskingEnabled = true →
      kernel.Foremost 0 ∧ 0 ≤ (kernel.tasks 0).priority → kernel.Quiet 4 →
      kernel.rotation = [1, 2, 0] →
      elections [0x7000, 0x101000, 0x102000, 0x7000] kernel = some [1, 2, 0, 1] := by
    intro kernel _ enabled eligible quiet rotation
    obtain ⟨_, _, _, elected, run, length, order, _⟩ := round_robin kernel enabled ⟨0, eligible⟩
      [0x7000, 0x101000, 0x102000, 0x7000] quiet
    rw [rotation] at order
    rw [run]
    congr 1
    apply List.ext_getElem?
    intro call
    by_cases inside : call < 4
    · rw [order call inside]
      have calls : call = 0 ∨ call = 1 ∨ call = 2 ∨ call = 3 := by omega
      rcases calls with rfl | rfl | rfl | rfl <;> rfl
    · rw [List.getElem?_eq_none (by rw [length]; exact Nat.not_lt.mp inside),
        List.getElem?_eq_none (Nat.not_lt.mp inside)]
  exact ⟨_, second, by decide +kernel, run _ second (by decide +kernel) (by decide +kernel)
    (by unfold Kernel.Quiet; decide +kernel) (by decide +kernel)⟩

end MxOS.Sched
