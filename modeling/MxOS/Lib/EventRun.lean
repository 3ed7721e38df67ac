import Mathlib.Data.List.Induction
import Mathlib.Tactic.Common

/-! # Runs of a system that may halt

A step takes an event and a state to the next state, or to nothing where the system
halts. A run executes a list of events. What one step preserves, a run preserves; a
step that preserves an invariant only under a condition preserves it along the runs
that meet the condition at each of their steps.
-/

namespace EventRun

variable {State Event : Type} (step : Event → State → Option State)

/-- The state after the given events, oldest first. -/
def run : List Event → State → Option State
  | [], state => some state
  | event :: rest, state => (step event state).bind (run rest)

@[simp] theorem run_nil (state : State) : run step [] state = some state := rfl

@[simp] theorem run_cons (event : Event) (rest : List Event) (state : State) :
    run step (event :: rest) state = (step event state).bind (run step rest) := rfl

theorem run_append (first second : List Event) (state : State) :
    run step (first ++ second) state = (run step first state).bind (run step second) := by
  induction first generalizing state with
  | nil => rfl
  | cons event rest ih =>
      rw [List.cons_append, run_cons, run_cons]
      cases step event state with
      | none => rfl
      | some next => exact ih next

theorem run_snoc_eq_some {events : List Event} {event : Event} {start last : State} :
    run step (events ++ [event]) start = some last ↔
      ∃ middle, run step events start = some middle ∧ step event middle = some last := by
  simp [run_append, Option.bind_eq_some_iff]

variable {step}

/-- Every step of the run is taken in a state where the guard allows it. -/
def Along (step : Event → State → Option State) (guard : Event → State → Prop)
    (events : List Event) (start : State) : Prop :=
  ∀ earlier event later, events = earlier ++ event :: later →
    ∀ state, run step earlier start = some state → guard event state

theorem along_nil (guard : Event → State → Prop) (start : State) : Along step guard [] start := by
  intro earlier event later empty
  exact absurd empty.symm (List.append_ne_nil_of_right_ne_nil _ (List.cons_ne_nil _ _))

theorem along_cons {guard : Event → State → Prop} {event : Event} {rest : List Event}
    {start : State} :
    Along step guard (event :: rest) start ↔
      guard event start ∧ ∀ next, step event start = some next → Along step guard rest next := by
  constructor
  · intro along
    refine ⟨along [] event rest rfl start rfl, fun next stepped => ?_⟩
    rintro earlier first later rfl state ran
    refine along (event :: earlier) first later rfl state ?_
    rw [run_cons, stepped]
    exact ran
  · rintro ⟨first, along⟩ earlier other later same state ran
    cases earlier with
    | nil =>
        obtain ⟨rfl, _⟩ := List.cons.inj same
        exact Option.some.inj ran ▸ first
    | cons head earlier =>
        obtain ⟨rfl, rfl⟩ := List.cons.inj same
        obtain ⟨next, stepped, ran⟩ := Option.bind_eq_some_iff.mp ran
        exact along next stepped earlier other later rfl state ran

instance Along.decidable (step : Event → State → Option State) (guard : Event → State → Prop)
    [allowed : ∀ event state, Decidable (guard event state)] :
    (events : List Event) → (start : State) → Decidable (Along step guard events start)
  | [], start => isTrue (along_nil guard start)
  | event :: rest, start =>
      match stepped : step event start with
      | none =>
          decidable_of_iff (guard event start) (by
            rw [along_cons, stepped]
            simp only [reduceCtorEq, false_implies, implies_true, and_true])
      | some next =>
          have := Along.decidable step guard rest next
          decidable_of_iff (guard event start ∧ Along step guard rest next) (by
            rw [along_cons, stepped]
            simp only [Option.some.injEq, forall_eq'])

theorem Along.within {guard : Event → State → Prop} {first second : List Event} {start : State}
    (along : Along step guard (first ++ second) start) : Along step guard first start := by
  rintro earlier event later rfl state ran
  exact along earlier event (later ++ second) (by simp) state ran

/-- An invariant that allowed steps preserve holds after every run of allowed steps. -/
theorem Along.invariant {guard : Event → State → Prop} {Inv : State → Prop}
    (preserved : ∀ {event state after}, Inv state → guard event state →
      step event state = some after → Inv after)
    {start last : State} (initially : Inv start) {events : List Event}
    (along : Along step guard events start) (ran : run step events start = some last) :
    Inv last := by
  induction events using List.reverseRecOn generalizing last with
  | nil => exact Option.some.inj ran ▸ initially
  | append_singleton events event ih =>
      obtain ⟨middle, before, stepped⟩ := (run_snoc_eq_some step).mp ran
      exact preserved (ih along.within before) (along events event [] rfl middle before) stepped

/-- An invariant that refers to the number of certain events so far. -/
theorem Along.counting {guard : Event → State → Prop} {Inv : Nat → State → Prop}
    {counted : Event → Bool}
    (preserved : ∀ {count event state after}, Inv count state → guard event state →
      step event state = some after → Inv (count + if counted event then 1 else 0) after)
    {count : Nat} {start last : State} (initially : Inv count start) {events : List Event}
    (along : Along step guard events start) (ran : run step events start = some last) :
    Inv (count + events.countP counted) last := by
  induction events using List.reverseRecOn generalizing last with
  | nil => exact Option.some.inj ran ▸ initially
  | append_singleton events event ih =>
      obtain ⟨middle, before, stepped⟩ := (run_snoc_eq_some step).mp ran
      rw [List.countP_append, List.countP_singleton, ← Nat.add_assoc]
      exact preserved (ih along.within before) (along events event [] rfl middle before) stepped

/-- A measure that some of the events decrease, and none increases. -/
theorem Along.measure_le {guard : Event → State → Prop} {Inv : State → Prop}
    {measure : State → Nat} {counted : Event → Bool}
    (preserved : ∀ {event state after}, Inv state → guard event state →
      step event state = some after → Inv after)
    (decreases : ∀ {event state after}, Inv state → step event state = some after →
      measure after ≤ measure state - (if counted event then 1 else 0))
    {start last : State} (initially : Inv start) {events : List Event}
    (along : Along step guard events start) (ran : run step events start = some last) :
    measure last ≤ measure start - events.countP counted := by
  let Bounded (count : Nat) (state : State) : Prop :=
    Inv state ∧ measure state ≤ measure start - count
  have step_bounded : ∀ {count event state after}, Bounded count state → guard event state →
      step event state = some after → Bounded (count + if counted event then 1 else 0) after := by
    intro count event state after ⟨held, below⟩ allowed stepped
    have once := decreases held stepped
    exact ⟨preserved held allowed stepped, by omega⟩
  have bounded : Bounded (0 + events.countP counted) last :=
    along.counting step_bounded ⟨initially, Nat.le_refl _⟩ ran
  rw [Nat.zero_add] at bounded
  exact bounded.2

/-- A goal that is reached: every counted event reaches it or decreases the measure, no event
increases the measure, and there are more counted events than the measure says. -/
theorem Along.reaches {guard : Event → State → Prop} {Inv goal : State → Prop}
    {measure : State → Nat} {counted : Event → Bool}
    (preserved : ∀ {event state after}, Inv state → guard event state →
      step event state = some after → Inv after)
    (decreases : ∀ {event state after}, Inv state → guard event state →
      step event state = some after → counted event = true ∧ goal after ∨
        measure after + (if counted event then 1 else 0) ≤ measure state)
    {start last : State} (initially : Inv start) {events : List Event}
    (along : Along step guard events start) (ran : run step events start = some last)
    (enough : measure start < events.countP counted) :
    ∃ earlier event later state, events = earlier ++ event :: later ∧ counted event = true ∧
      run step (earlier ++ [event]) start = some state ∧ goal state := by
  induction events generalizing start with
  | nil => exact absurd enough (Nat.not_lt_zero _)
  | cons event rest ih =>
      obtain ⟨next, stepped, onward⟩ := Option.bind_eq_some_iff.mp ran
      obtain ⟨allowed, later⟩ := along_cons.mp along
      rcases decreases initially allowed stepped with ⟨counts, reached⟩ | lower
      · exact ⟨[], event, rest, next, rfl, counts, by simp [stepped], reached⟩
      · rw [List.countP_cons] at enough
        obtain ⟨earlier, other, rest, state, rfl, counts, reaches, reached⟩ :=
          ih (preserved initially allowed stepped) (later next stepped) onward (by omega)
        refine ⟨event :: earlier, other, rest, state, rfl, counts, ?_, reached⟩
        rw [List.cons_append, run_cons, stepped]
        exact reaches

theorem run_invariant {Inv : State → Prop}
    (preserved : ∀ {event state after}, Inv state → step event state = some after → Inv after)
    {start last : State} (initially : Inv start) {events : List Event}
    (ran : run step events start = some last) : Inv last := by
  have unguarded : Along step (fun _ _ => True) events start := fun _ _ _ _ _ _ => trivial
  exact unguarded.invariant (fun holds _ => preserved holds) initially ran

/-- Every state of the run, the first and the last among them, has the property. -/
def Throughout (step : Event → State → Option State) (holds : State → Prop)
    (events : List Event) (start : State) : Prop :=
  ∀ earlier later, events = earlier ++ later →
    ∀ state, run step earlier start = some state → holds state

theorem Throughout.first {holds : State → Prop} {events : List Event} {start : State}
    (throughout : Throughout step holds events start) : holds start :=
  throughout [] events rfl start rfl

theorem throughout_nil {holds : State → Prop} {start : State} (initially : holds start) :
    Throughout step holds [] start := by
  intro earlier later empty state ran
  obtain ⟨rfl, rfl⟩ := List.append_eq_nil_iff.mp empty.symm
  exact Option.some.inj ran ▸ initially

theorem throughout_cons {holds : State → Prop} {event : Event} {rest : List Event}
    {start : State} :
    Throughout step holds (event :: rest) start ↔
      holds start ∧ ∀ next, step event start = some next → Throughout step holds rest next := by
  constructor
  · intro throughout
    refine ⟨throughout.first, fun next stepped => ?_⟩
    rintro earlier later rfl state ran
    refine throughout (event :: earlier) later rfl state ?_
    rw [run_cons, stepped]
    exact ran
  · rintro ⟨first, throughout⟩ earlier later same state ran
    cases earlier with
    | nil => exact Option.some.inj ran ▸ first
    | cons head earlier =>
        obtain ⟨rfl, rfl⟩ := List.cons.inj same
        obtain ⟨next, stepped, ran⟩ := Option.bind_eq_some_iff.mp ran
        exact throughout next stepped earlier later rfl state ran

instance Throughout.decidable (step : Event → State → Option State) (holds : State → Prop)
    [allowed : ∀ state, Decidable (holds state)] :
    (events : List Event) → (start : State) → Decidable (Throughout step holds events start)
  | [], start => decidable_of_iff (holds start) ⟨throughout_nil, Throughout.first⟩
  | event :: rest, start =>
      match stepped : step event start with
      | none =>
          decidable_of_iff (holds start) (by
            rw [throughout_cons, stepped]
            simp only [reduceCtorEq, false_implies, implies_true, and_true])
      | some next =>
          have := Throughout.decidable step holds rest next
          decidable_of_iff (holds start ∧ Throughout step holds rest next) (by
            rw [throughout_cons, stepped]
            simp only [Option.some.injEq, forall_eq'])

/-- An invariant that is preserved from states with a property holds in every state of a run
whose states all have it. -/
theorem Throughout.invariant {holds Inv : State → Prop}
    (preserved : ∀ {event state after}, Inv state → holds state →
      step event state = some after → Inv after)
    {start : State} (initially : Inv start) {events : List Event}
    (throughout : Throughout step holds events start) : Throughout step Inv events start := by
  induction events generalizing start with
  | nil => exact throughout_nil initially
  | cons event rest ih =>
      refine throughout_cons.mpr ⟨initially, fun next stepped => ?_⟩
      exact ih (preserved initially throughout.first stepped)
        ((throughout_cons.mp throughout).2 next stepped)

/-- A property that a step keeps exactly when its guard allows the step holds throughout a run if
and only if the guard allows every step of it. -/
theorem throughout_iff_along {Inv holds : State → Prop} {guard : Event → State → Prop}
    (kept : ∀ {event state after}, Inv state → holds state → step event state = some after →
      (holds after ↔ guard event state))
    {start last : State} {events : List Event} (invariant : Throughout step Inv events start)
    (initially : holds start) (ran : run step events start = some last) :
    Throughout step holds events start ↔ Along step guard events start := by
  induction events generalizing start with
  | nil => exact iff_of_true (throughout_nil initially) (along_nil guard start)
  | cons event rest ih =>
      obtain ⟨next, stepped, continued⟩ := Option.bind_eq_some_iff.mp ran
      obtain ⟨here, ahead⟩ := throughout_cons.mp invariant
      have once := kept here initially stepped
      have only : ∀ {other}, step event start = some other → other = next := fun same =>
        Option.some.inj (same.symm.trans stepped)
      rw [throughout_cons, along_cons]
      constructor
      · rintro ⟨_, later⟩
        have good := (later next stepped).first
        refine ⟨once.mp good, fun other same => ?_⟩
        obtain rfl := only same
        exact (ih (ahead other same) good continued).mp (later other same)
      · rintro ⟨allowed, later⟩
        refine ⟨initially, fun other same => ?_⟩
        obtain rfl := only same
        exact (ih (ahead other same) (once.mpr allowed) continued).mpr (later other same)

/-- A system that stays in step with another one at every event stays so along a run. -/
theorem run_simulates {Abstract : Type} {Rel : State → Abstract → Prop}
    {move : Abstract → Event → Abstract}
    (preserved : ∀ {event state abstract after}, Rel state abstract →
      step event state = some after → Rel after (move abstract event))
    {start last : State} {abstract : Abstract} (initially : Rel start abstract)
    {events : List Event} (ran : run step events start = some last) :
    Rel last (events.foldl move abstract) := by
  induction events generalizing start abstract with
  | nil => exact Option.some.inj ran ▸ initially
  | cons event rest ih =>
      obtain ⟨next, stepped, later⟩ := Option.bind_eq_some_iff.mp ran
      exact ih (preserved initially stepped) later

end EventRun
