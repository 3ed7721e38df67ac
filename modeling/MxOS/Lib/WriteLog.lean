import Mathlib.Logic.Function.Basic
import Mathlib.Data.List.Basic
import Mathlib.Tactic.Common

/-! # Replaying a log of writes

A store maps addresses to contents. A log is a list of writes, oldest first;
replaying it gives the store the writes leave behind. A prefix of the log is what
an interrupted writer has done so far.
-/

namespace WriteLog

variable {Address Content : Type} [DecidableEq Address]

/-- The store after the given writes, oldest first. -/
def replay : List (Address × Content) → (Address → Content) → Address → Content
  | [], store => store
  | entry :: rest, store => replay rest (Function.update store entry.1 entry.2)

@[simp] theorem replay_nil (store : Address → Content) : replay [] store = store := rfl

@[simp] theorem replay_cons (entry : Address × Content) (rest : List (Address × Content))
    (store : Address → Content) :
    replay (entry :: rest) store = replay rest (Function.update store entry.1 entry.2) := rfl

theorem replay_append (first second : List (Address × Content)) (store : Address → Content) :
    replay (first ++ second) store = replay second (replay first store) := by
  induction first generalizing store with
  | nil => rfl
  | cons entry rest ih => exact ih _

/-- An address no write names keeps its content. -/
theorem replay_of_forall_ne {log : List (Address × Content)} {address : Address}
    (other : ∀ entry ∈ log, entry.1 ≠ address) (store : Address → Content) :
    replay log store address = store address := by
  induction log generalizing store with
  | nil => rfl
  | cons entry rest ih =>
      rw [replay_cons, ih (fun later member => other later (List.mem_cons_of_mem _ member)),
        Function.update_of_ne (Ne.symm (other entry (List.mem_cons_self ..)))]

/-- The content of an address after a write to it, when later writes go elsewhere. -/
theorem replay_cons_self {entry : Address × Content} {rest : List (Address × Content)}
    (other : ∀ later ∈ rest, later.1 ≠ entry.1) (store : Address → Content) :
    replay (entry :: rest) store entry.1 = entry.2 := by
  rw [replay_cons, replay_of_forall_ne other, Function.update_self]

/-- When no address is written twice, every write is still there at the end. -/
theorem replay_of_mem {log : List (Address × Content)} (nodup : (log.map Prod.fst).Nodup)
    {entry : Address × Content} (member : entry ∈ log) (store : Address → Content) :
    replay log store entry.1 = entry.2 := by
  induction log generalizing store with
  | nil => exact absurd member List.not_mem_nil
  | cons head rest ih =>
      rw [List.map_cons, List.nodup_cons] at nodup
      rcases List.mem_cons.mp member with rfl | later
      · apply replay_cons_self
        intro other inRest same
        exact nodup.1 (same ▸ List.mem_map_of_mem inRest)
      · exact ih nodup.2 later _

end WriteLog
