import Mathlib.Data.List.Rotate
import Mathlib.Order.Basic
import MxOS.Lib.Ring

/-! # Taking turns

The participants stand in a circle, and a turn goes to the first suitable one behind the
participant who had the last turn. As long as the same ones are suitable, they take
their turns in a fixed cycle.

Among participants of different rank the first one of the highest rank is found in one
pass, by keeping the best one so far.
-/

namespace RoundRobin

open Ring

/-! ### The circle -/

section Circle

variable {size : Nat} [NeZero size]

/-- All positions in cyclic order, from the one behind `start` on. -/
def after (start : Fin size) : List (Fin size) :=
  (List.range size).map fun index => slotAt start (index + 1)

/-- The number of positions that are passed on the way from `start` to the given one. -/
def between (start position : Fin size) : Nat := (position.val + (size - 1 - start.val)) % size

theorem between_lt (start position : Fin size) : between start position < size :=
  Nat.mod_lt _ (Nat.pos_of_neZero size)

theorem between_slotAt (start : Fin size) {index : Nat} (inside : index < size) :
    between start (slotAt start (index + 1)) = index := by
  have bound := start.isLt
  rw [between, slotAt, Fin.val_ofNat, Nat.mod_add_mod,
    show start.val + (index + 1) + (size - 1 - start.val) = index + size by omega,
    Nat.add_mod_right, Nat.mod_eq_of_lt inside]

theorem slotAt_between (start position : Fin size) :
    slotAt start (between start position + 1) = position := by
  have bound := start.isLt
  apply Fin.ext
  rw [between, slotAt, Fin.val_ofNat, ← Nat.add_assoc, Nat.add_right_comm, Nat.add_mod_mod,
    show start.val + 1 + (position.val + (size - 1 - start.val)) = position.val + size by omega,
    Nat.add_mod_right, Nat.mod_eq_of_lt position.isLt]

theorem between_injective (start : Fin size) {first second : Fin size}
    (same : between start first = between start second) : first = second := by
  rw [← slotAt_between start first, same, slotAt_between]

/-- Whoever starts closer to the position passes less on the way. -/
theorem between_lt_of_between_lt {start middle position : Fin size}
    (closer : between start middle < between start position) :
    between middle position < between start position := by
  have far := between_lt start position
  have onward : position =
      slotAt middle (between start position - between start middle - 1 + 1) := by
    conv_lhs => rw [← slotAt_between start position]
    rw [← slotAt_between start middle, slotAt_slotAt, between_slotAt start (by omega)]
    congr 1
    omega
  rw [onward, between_slotAt middle (by omega), ← onward]
  omega

theorem mem_after (start position : Fin size) : position ∈ after start :=
  List.mem_map.mpr ⟨between start position, List.mem_range.mpr (between_lt start position),
    slotAt_between start position⟩

@[simp] theorem length_after (start : Fin size) : (after start).length = size := by
  rw [after, List.length_map, List.length_range]

theorem after_pairwise (start : Fin size) :
    (after start).Pairwise fun first second => between start first < between start second := by
  rw [after, List.pairwise_map]
  refine List.pairwise_lt_range.imp_of_mem fun member₁ member₂ less => ?_
  rwa [between_slotAt start (List.mem_range.mp member₁),
    between_slotAt start (List.mem_range.mp member₂)]

/-- The circle from another position on is the same circle, turned. -/
theorem after_of_append {start next : Fin size} {passed rest : List (Fin size)}
    (split : after start = passed ++ next :: rest) : after next = rest ++ (passed ++ [next]) := by
  have lengths := congrArg List.length split
  rw [length_after, List.length_append, List.length_cons] at lengths
  have place : next = slotAt start (passed.length + 1) := by
    have entry := congrArg (fun list => list[passed.length]?) split
    simpa [after, show passed.length < size by omega] using entry.symm
  have turned : (after start).rotate (passed.length + 1) = rest ++ (passed ++ [next]) := by
    have whole : after start = (passed ++ [next]) ++ rest := by
      rw [split, List.append_assoc, List.singleton_append]
    have count : passed.length + 1 = (passed ++ [next]).length := by
      rw [List.length_append, List.length_singleton]
    rw [whole, count, List.rotate_append_length_eq]
  rw [← turned]
  apply List.ext_getElem
  · rw [List.length_rotate, length_after, length_after]
  · intro index inside _
    rw [List.getElem_rotate]
    simp only [after, List.getElem_map, List.getElem_range, List.length_map, List.length_range]
    rw [place, slotAt_slotAt]
    apply Fin.ext
    simp only [slotAt, Fin.val_ofNat]
    rw [← Nat.add_assoc start.val _ 1, Nat.add_right_comm start.val _ 1, Nat.add_mod_mod]
    congr 1
    omega

/-- Those who take part, in the order of their turns. -/
def turns (joins : Fin size → Bool) (start : Fin size) : List (Fin size) :=
  (after start).filter joins

variable {joins : Fin size → Bool} {start next : Fin size}

theorem mem_turns {position : Fin size} :
    position ∈ turns joins start ↔ joins position = true := by
  rw [turns, List.mem_filter]
  exact and_iff_right (mem_after start position)

theorem turns_pairwise (joins : Fin size → Bool) (start : Fin size) :
    (turns joins start).Pairwise fun first second => between start first < between start second :=
  (after_pairwise start).filter _

theorem nodup_turns (joins : Fin size → Bool) (start : Fin size) : (turns joins start).Nodup :=
  (turns_pairwise joins start).imp fun less same =>
    absurd (congrArg (between start) same) (Nat.ne_of_lt less)

/-- Who has had a turn waits until all others have had theirs. -/
theorem turns_next {others : List (Fin size)} (order : turns joins start = next :: others) :
    turns joins next = others ++ [next] := by
  obtain ⟨passed, rest, split, skipped, chosen, remaining⟩ := List.filter_eq_cons_iff.mp order
  have none : passed.filter joins = [] := List.filter_eq_nil_iff.mpr skipped
  rw [turns, after_of_append split, List.filter_append, List.filter_append, none, remaining,
    List.nil_append, List.filter_cons_of_pos chosen, List.filter_nil]

/-- One turn turns the cycle by one place. -/
theorem turns_rotate {others : List (Fin size)} (order : turns joins start = next :: others) :
    turns joins next = (turns joins start).rotate 1 := by
  rw [turns_next order, order, List.rotate_cons_succ, List.rotate_zero]

end Circle

/-! ### The first of the highest rank -/

section Champion

variable {Candidate Rank : Type} [LinearOrder Rank] (rank : Candidate → Rank)

/-- A candidate replaces the best one so far if it ranks higher than anything seen. -/
def challenge (best : Option Candidate × Rank) (candidate : Candidate) :
    Option Candidate × Rank :=
  if best.2 < rank candidate then (some candidate, rank candidate) else best

/-- Nobody in the list ranks higher, and nobody before the winner as high. -/
def Wins (candidates : List Candidate) (winner : Candidate) : Prop :=
  ∃ earlier later, candidates = earlier ++ winner :: later ∧
    (∀ other ∈ earlier, rank other < rank winner) ∧ ∀ other ∈ later, rank other ≤ rank winner

variable {rank} {candidates : List Candidate} {winner : Candidate}

theorem Wins.mem (wins : Wins rank candidates winner) : winner ∈ candidates := by
  obtain ⟨earlier, later, rfl, _⟩ := wins
  exact List.mem_append_right _ (List.mem_cons_self ..)

theorem Wins.le (wins : Wins rank candidates winner) {other : Candidate}
    (member : other ∈ candidates) : rank other ≤ rank winner := by
  obtain ⟨earlier, later, rfl, below, notAbove⟩ := wins
  rcases List.mem_append.mp member with before | here
  · exact (below other before).le
  · rcases List.mem_cons.mp here with rfl | behind
    · exact le_rfl
    · exact notAbove other behind

/-- The winner is the first of those of the highest rank. -/
theorem Wins.filter (wins : Wins rank candidates winner) {top : Candidate → Bool}
    (highest : ∀ candidate ∈ candidates, top candidate = true ↔ rank winner ≤ rank candidate) :
    ∃ others, candidates.filter top = winner :: others := by
  obtain ⟨earlier, later, rfl, below, _⟩ := wins
  have none : earlier.filter top = [] := by
    refine List.filter_eq_nil_iff.mpr fun other member chosen => ?_
    have high := (highest other (List.mem_append_left _ member)).mp chosen
    exact absurd (below other member) (not_lt.mpr high)
  have self := (highest winner (List.mem_append_right _ (List.mem_cons_self ..))).mpr le_rfl
  exact ⟨later.filter top, by rw [List.filter_append, none, List.nil_append,
    List.filter_cons_of_pos self]⟩

theorem Wins.append_singleton (wins : Wins rank candidates winner) {other : Candidate}
    (notAbove : rank other ≤ rank winner) : Wins rank (candidates ++ [other]) winner := by
  obtain ⟨earlier, later, rfl, below, rest⟩ := wins
  refine ⟨earlier, later ++ [other], by simp, below, fun candidate member => ?_⟩
  rcases List.mem_append.mp member with here | here
  · exact rest candidate here
  · rwa [List.mem_singleton.mp here]

/-- The pass finds the winner, if anybody ranks higher than the floor. -/
theorem foldl_challenge (rank : Candidate → Rank) (candidates : List Candidate) (floor : Rank) :
    match candidates.foldl (challenge rank) (none, floor) with
    | (some winner, best) => Wins rank candidates winner ∧ best = rank winner ∧ floor < best
    | (none, best) => best = floor ∧ ∀ candidate ∈ candidates, rank candidate ≤ floor := by
  induction candidates using List.reverseRecOn with
  | nil => exact ⟨rfl, fun candidate member => absurd member List.not_mem_nil⟩
  | append_singleton earlier candidate ih =>
      rw [List.foldl_append, List.foldl_cons, List.foldl_nil]
      generalize earlier.foldl (challenge rank) (none, floor) = best at ih ⊢
      by_cases higher : best.2 < rank candidate
      · rw [challenge, if_pos higher]
        rcases best with ⟨_ | winner, best⟩
        · obtain ⟨rfl, none⟩ := ih
          exact ⟨⟨earlier, [], rfl, fun other member => (none other member).trans_lt higher,
            fun other member => absurd member List.not_mem_nil⟩, rfl, higher⟩
        · obtain ⟨wins, rfl, above⟩ := ih
          exact ⟨⟨earlier, [], rfl, fun other member => (wins.le member).trans_lt higher,
            fun other member => absurd member List.not_mem_nil⟩, rfl, above.trans higher⟩
      · rw [challenge, if_neg higher]
        rcases best with ⟨_ | winner, best⟩
        · obtain ⟨rfl, none⟩ := ih
          refine ⟨rfl, fun other member => ?_⟩
          rcases List.mem_append.mp member with before | here
          · exact none other before
          · rw [List.mem_singleton.mp here]
            exact not_lt.mp higher
        · obtain ⟨wins, rfl, above⟩ := ih
          exact ⟨wins.append_singleton (not_lt.mp higher), rfl, above⟩

end Champion

end RoundRobin
