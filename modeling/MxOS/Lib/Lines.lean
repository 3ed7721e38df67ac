import Mathlib.Algebra.BigOperators.Group.List.Basic
import Mathlib.Algebra.GroupWithZero.Nat
import Mathlib.Tactic.Common

/-! # Lines in a buffer

Lines are written one after the other, each followed by a separator, to a buffer that may
be one symbol too short for the last separator. A scan over the positions of the buffer
finds the pieces between separators; the lines are found again if they are not empty and
do not contain the separator.
-/

namespace Lines

variable {Symbol : Type}

/-- The given number of symbols of a buffer, from a position on. -/
def slice (text : Nat → Symbol) (start length : Nat) : List Symbol :=
  (List.range length).map fun offset => text (start + offset)

@[simp] theorem length_slice (text : Nat → Symbol) (start length : Nat) :
    (slice text start length).length = length := by
  rw [slice, List.length_map, List.length_range]

theorem getElem?_slice (text : Nat → Symbol) {start length offset : Nat}
    (inside : offset < length) :
    (slice text start length)[offset]? = some (text (start + offset)) := by
  rw [slice, List.getElem?_map, List.getElem?_range inside, Option.map_some]

theorem slice_succ (text : Nat → Symbol) (start length : Nat) :
    slice text start (length + 1) = slice text start length ++ [text (start + length)] := by
  rw [slice, List.range_succ, List.map_append]
  rfl

theorem slice_cons (text : Nat → Symbol) (start length : Nat) :
    slice text start (length + 1) = text start :: slice text (start + 1) length := by
  rw [slice, slice, List.range_succ_eq_map, List.map_cons, List.map_map]
  refine congrArg₂ _ rfl (List.map_congr_left fun offset _ => ?_)
  rw [Function.comp_apply]
  congr 1
  omega

theorem slice_add (text : Nat → Symbol) (start first second : Nat) :
    slice text start (first + second) =
      slice text start first ++ slice text (start + first) second := by
  induction second with
  | zero => exact (List.append_nil _).symm
  | succ second ih =>
      rw [← Nat.add_assoc, slice_succ, ih, slice_succ, List.append_assoc, Nat.add_assoc]

/-- What is read from a buffer that starts with the symbols. -/
theorem slice_eq {text : Nat → Symbol} {symbols : List Symbol}
    (same : ∀ index, (inside : index < symbols.length) → text index = symbols[index]) :
    slice text 0 symbols.length = symbols := by
  apply List.ext_getElem (length_slice ..)
  intro index inside inside'
  simp only [slice, List.getElem_map, List.getElem_range, Nat.zero_add]
  exact same index inside'

/-! ### Writing -/

/-- Append a symbol unless the buffer is full. -/
def appendCapped (cap : Nat) (buffer : List Symbol) (symbol : Symbol) : List Symbol :=
  if buffer.length < cap then buffer ++ [symbol] else buffer

theorem foldl_appendCapped {cap : Nat} {buffer : List Symbol} (fits : buffer.length ≤ cap)
    (symbols : List Symbol) :
    symbols.foldl (appendCapped cap) buffer = (buffer ++ symbols).take cap := by
  induction symbols generalizing buffer with
  | nil => rw [List.foldl_nil, List.append_nil, List.take_of_length_le fits]
  | cons symbol rest ih =>
      rw [List.foldl_cons, appendCapped]
      split
      · next room =>
          rw [ih (by rw [List.length_append, List.length_singleton]; omega), List.append_assoc]
          rfl
      · next full =>
          have length : buffer.length = cap := by omega
          rw [ih fits, ← length, List.take_left, List.take_left]

variable (separator : Symbol)

/-- Every line, each followed by the separator. -/
def joined (lines : List (List Symbol)) : List Symbol := lines.flatMap (· ++ [separator])

theorem joined_append (first second : List (List Symbol)) :
    joined separator (first ++ second) = joined separator first ++ joined separator second :=
  List.flatMap_append

theorem joined_singleton (line : List Symbol) : joined separator [line] = line ++ [separator] := by
  rw [joined, List.flatMap_singleton]

theorem length_joined_le {bound : Nat} {lines : List (List Symbol)}
    (short : ∀ line ∈ lines, line.length ≤ bound) :
    (joined separator lines).length ≤ lines.length * (bound + 1) := by
  induction lines with
  | nil => exact Nat.zero_le _
  | cons line rest ih =>
      have head := short line (List.mem_cons_self ..)
      have tail := ih fun later member => short later (List.mem_cons_of_mem _ member)
      rw [← List.singleton_append, joined_append, joined_singleton]
      simp only [List.length_append, List.length_singleton, Nat.add_mul, Nat.one_mul]
      omega

/-! ### Reading -/

section Pieces

variable [DecidableEq Symbol]

/-- The pieces between separators that are not empty, after `current` has been read of the first
one. -/
def pieces : List Symbol → List Symbol → List (List Symbol)
  | [], current => if current = [] then [] else [current]
  | symbol :: rest, current =>
      if symbol = separator then (if current = [] then [] else [current]) ++ pieces rest []
      else pieces rest (current ++ [symbol])

theorem pieces_append {line : List Symbol} (free : separator ∉ line) (rest current : List Symbol) :
    pieces separator (line ++ rest) current = pieces separator rest (current ++ line) := by
  induction line generalizing current with
  | nil => rw [List.nil_append, List.append_nil]
  | cons symbol line ih =>
      have differ : symbol ≠ separator := fun same => free (same ▸ List.mem_cons_self ..)
      rw [List.cons_append, pieces, if_neg differ, ih (fun member => free (List.mem_cons_of_mem _
        member)), List.append_assoc]
      rfl

/-- Separators in front make no piece. -/
theorem pieces_dropWhile (text : List Symbol) :
    pieces separator (text.dropWhile (· = separator)) [] = pieces separator text [] := by
  induction text with
  | nil => rfl
  | cons symbol rest ih =>
      by_cases here : symbol = separator
      · rw [List.dropWhile_cons_of_pos (by simpa using here), ih, pieces, if_pos here, if_pos rfl,
          List.nil_append]
      · rw [List.dropWhile_cons_of_neg (by simpa using here)]

/-- A line that can be found again. -/
def IsLine (line : List Symbol) : Prop := line ≠ [] ∧ separator ∉ line

theorem isLine_of_mem_pieces {text current : List Symbol} (free : separator ∉ current)
    {line : List Symbol} (member : line ∈ pieces separator text current) :
    IsLine separator line := by
  induction text generalizing current with
  | nil =>
      rw [pieces] at member
      split at member
      · exact absurd member List.not_mem_nil
      · next nonempty => exact List.mem_singleton.mp member ▸ ⟨nonempty, free⟩
  | cons symbol rest ih =>
      rw [pieces] at member
      split at member
      · rcases List.mem_append.mp member with first | later
        · split at first
          · exact absurd first List.not_mem_nil
          · next nonempty => exact List.mem_singleton.mp first ▸ ⟨nonempty, free⟩
        · exact ih List.not_mem_nil later
      · next differ =>
          refine ih (fun inside => ?_) member
          rcases List.mem_append.mp inside with before | here
          · exact free before
          · exact differ (List.mem_singleton.mp here).symm

variable {separator} {lines : List (List Symbol)} (valid : ∀ line ∈ lines, IsLine separator line)
include valid

theorem pieces_joined_append (rest : List Symbol) :
    pieces separator (joined separator lines ++ rest) [] =
      lines ++ pieces separator rest [] := by
  induction lines with
  | nil => rfl
  | cons line remaining ih =>
      obtain ⟨nonempty, free⟩ := valid line (List.mem_cons_self ..)
      rw [← List.singleton_append, joined_append, joined_singleton, List.append_assoc,
        List.append_assoc, pieces_append separator free, List.singleton_append, pieces,
        if_pos rfl, List.nil_append, if_neg nonempty,
        ih fun later member => valid later (List.mem_cons_of_mem _ member), List.append_assoc]

/-- The lines are found again in a buffer that may lack the last separator. -/
theorem pieces_joined_take {cap : Nat} (enough : (joined separator lines).length ≤ cap + 1) :
    pieces separator ((joined separator lines).take cap) [] = lines := by
  by_cases whole : (joined separator lines).length ≤ cap
  · have found := pieces_joined_append valid []
    rw [List.append_nil] at found
    rw [List.take_of_length_le whole, found]
    exact List.append_nil lines
  · have length : cap = (joined separator lines).length - 1 := by omega
    rw [length, ← List.dropLast_eq_take]
    rcases List.eq_nil_or_concat lines with rfl | ⟨earlier, last, rfl⟩
    · exact absurd (Nat.zero_le _) whole
    · rw [List.concat_eq_append] at valid ⊢
      obtain ⟨nonempty, free⟩ := valid last (List.mem_append_right _ (List.mem_singleton_self _))
      rw [joined_append, joined_singleton, ← List.append_assoc, List.dropLast_concat,
        pieces_joined_append fun line member => valid line (List.mem_append_left _ member)]
      have found := pieces_append separator free [] []
      rw [List.append_nil, List.nil_append, pieces, if_neg nonempty] at found
      rw [found]

end Pieces

/-! ### Scanning -/

section Scan

variable [DecidableEq Symbol] {State : Type} (text : Nat → Symbol) (size : Nat)
  (emit : State → Nat → Nat → State)

/-- Scan `remaining` positions from `index` on, the end of the text being the last one. The piece
that is being read began at `start`. -/
def scan : Nat → Nat → Nat → State → State
  | 0, _, _, state => state
  | remaining + 1, index, start, state =>
      if index = size ∨ text index = separator then
        scan remaining (index + 1) (index + 1)
          (if start < index then emit state start (index - start) else state)
      else scan remaining (index + 1) start state

variable {separator text size emit} {take : State → List Symbol → State}
  (takes : ∀ state start length, emit state start length = take state (slice text start length))
include takes

omit [DecidableEq Symbol] in
/-- The piece that ends at `index` is taken unless it is empty. -/
theorem emit_eq {index start : Nat} (before : start ≤ index) (state : State) :
    (if start < index then emit state start (index - start) else state) =
      (if slice text start (index - start) = [] then []
        else [slice text start (index - start)]).foldl take state := by
  have length := length_slice text start (index - start)
  by_cases some : start < index
  · have nonempty : slice text start (index - start) ≠ [] :=
      List.ne_nil_of_length_pos (by omega)
    rw [if_pos some, if_neg nonempty, takes]
    rfl
  · have empty : slice text start (index - start) = [] := List.eq_nil_of_length_eq_zero (by omega)
    rw [if_neg some, if_pos empty]
    rfl

theorem scan_eq_foldl {remaining index start : Nat} (before : start ≤ index)
    (positions : index + remaining = size) (state : State) :
    scan separator text size emit (remaining + 1) index start state =
      (pieces separator (slice text index remaining)
        (slice text start (index - start))).foldl take state := by
  induction remaining generalizing index start state with
  | zero =>
      have last : index = size := positions
      rw [scan, if_pos (Or.inl last), scan, emit_eq takes before]
      rfl
  | succ remaining ih =>
      have inside : index ≠ size := by omega
      rw [scan, slice_cons, pieces]
      by_cases ends : text index = separator
      · rw [if_pos (Or.inr ends), if_pos ends, List.foldl_append, ← emit_eq takes before,
          ih (Nat.le_refl _) (by omega), Nat.sub_self]
        rfl
      · have longer : index + 1 - start = index - start + 1 := by omega
        have here : start + (index - start) = index := by omega
        rw [if_neg (not_or.mpr ⟨inside, ends⟩), if_neg ends, ih (Nat.le_succ_of_le before)
          (by omega), longer, slice_succ, here]

/-- The scan takes the pieces of the whole text in order. -/
theorem scan_eq (state : State) :
    scan separator text size emit (size + 1) 0 0 state =
      (pieces separator (slice text 0 size) []).foldl take state :=
  scan_eq_foldl takes (Nat.le_refl 0) (Nat.zero_add size) state

end Scan

end Lines
