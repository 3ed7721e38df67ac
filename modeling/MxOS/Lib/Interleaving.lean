import MxOS.Lib.WriteLog
import Mathlib.Data.Set.Function

/-! # Stores of another party

A program moves contents between the addresses of a store, one access at a time, and may
be interrupted between any two of them by a party that writes to addresses of its own. If
the program never reads these, everything else is as if it had run alone.
-/

namespace Interleaving

variable {Address Content : Type} [DecidableEq Address]

/-- An access of the program: what it loads is held in a register until it is saved. -/
inductive Operation (Address Content : Type) where
  | load (source : Address)
  | save (target : Address)
  | put (target : Address) (content : Content)

/-- The store and the register of the program. -/
structure State (Address Content : Type) where
  store : Address → Content
  register : Content

namespace Operation

def step (state : State Address Content) : Operation Address Content → State Address Content
  | .load source => { state with register := state.store source }
  | .save target => { state with store := Function.update state.store target state.register }
  | .put target content => { state with store := Function.update state.store target content }

/-- The program runs alone. -/
def run (operations : List (Operation Address Content)) (state : State Address Content) :
    State Address Content :=
  operations.foldl step state

theorem run_append (first second : List (Operation Address Content))
    (state : State Address Content) : run (first ++ second) state = run second (run first state) :=
  List.foldl_append

end Operation

/-- An access of the program, or a write of the other party. -/
abbrev Event (Address Content : Type) := Operation Address Content ⊕ Address × Content

namespace Event

def step (state : State Address Content) : Event Address Content → State Address Content
  | .inl operation => operation.step state
  | .inr entry => { state with store := Function.update state.store entry.1 entry.2 }

def run (events : List (Event Address Content)) (state : State Address Content) :
    State Address Content :=
  events.foldl step state

/-- What the program does in the events. -/
def own (events : List (Event Address Content)) : List (Operation Address Content) :=
  events.filterMap Sum.getLeft?

/-- What the other party does. -/
def others (events : List (Event Address Content)) : List (Address × Content) :=
  events.filterMap Sum.getRight?

end Event

/-- The two states agree outside the addresses of the other party. -/
structure Agree (foreign : Set Address) (mixed alone : State Address Content) : Prop where
  store : Set.EqOn mixed.store alone.store foreignᶜ
  register : mixed.register = alone.register

variable {foreign : Set Address} {mixed alone : State Address Content}

theorem Agree.update (agree : Agree foreign mixed alone) (target : Address) (content : Content) :
    Agree foreign { mixed with store := Function.update mixed.store target content }
      { alone with store := Function.update alone.store target content } := by
  refine ⟨fun address outside => ?_, agree.register⟩
  by_cases here : address = target
  · simp only [here, Function.update_self]
  · simp only [Function.update_of_ne here]
    exact agree.store outside

theorem Agree.operation (agree : Agree foreign mixed alone) (operation : Operation Address Content)
    (reads : ∀ source, operation = .load source → source ∉ foreign) :
    Agree foreign (operation.step mixed) (operation.step alone) := by
  cases operation with
  | load source => exact ⟨agree.store, agree.store (reads source rfl)⟩
  | save target =>
      have updated := agree.update target mixed.register
      simp only [Operation.step, agree.register] at updated ⊢
      exact updated
  | put target content => exact agree.update target content

theorem Agree.other (agree : Agree foreign mixed alone) {entry : Address × Content}
    (inside : entry.1 ∈ foreign) :
    Agree foreign { mixed with store := Function.update mixed.store entry.1 entry.2 } alone := by
  refine ⟨fun address outside => ?_, agree.register⟩
  have differ : address ≠ entry.1 := fun same => outside (same ▸ inside)
  exact (Function.update_of_ne differ ..).trans (agree.store outside)

/-- After any interleaving the program has left what it leaves alone. -/
theorem Agree.run {events : List (Event Address Content)} (agree : Agree foreign mixed alone)
    (reads : ∀ source, Operation.load source ∈ Event.own events → source ∉ foreign)
    (writes : ∀ entry ∈ Event.others events, entry.1 ∈ foreign) :
    Agree foreign (Event.run events mixed) (Operation.run (Event.own events) alone) := by
  induction events generalizing mixed alone with
  | nil => exact agree
  | cons event rest ih =>
      cases event with
      | inl operation =>
          have own : Event.own (Sum.inl operation :: rest) = operation :: Event.own rest := rfl
          rw [own] at reads ⊢
          refine ih (agree.operation operation fun source same => ?_)
            (fun source later => ?_) writes
          · exact reads source (same ▸ List.mem_cons_self ..)
          · exact reads source (List.mem_cons_of_mem _ later)
      | inr entry =>
          have others : Event.others (Sum.inr entry :: rest) = entry :: Event.others rest := rfl
          rw [others] at writes
          refine ih (agree.other (writes entry (List.mem_cons_self ..))) reads
            fun later member => ?_
          exact writes later (List.mem_cons_of_mem _ member)

end Interleaving
