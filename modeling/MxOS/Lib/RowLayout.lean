import Mathlib.Data.List.DropRight
import Mathlib.Tactic.Common

/-! # Text laid out in rows

Symbols are placed one after the other. A new row starts behind a separator, which has no
place of its own, and behind a row that has become as long as the page is wide. A page
shows the last rows.
-/

namespace RowLayout

variable {Symbol : Type}

/-- The rows that are complete, and the one the next symbol is placed in. -/
structure Rows (Symbol : Type) where
  earlier : List (List Symbol)
  last : List Symbol

namespace Rows

def empty : Rows Symbol := ⟨[], []⟩

def all (rows : Rows Symbol) : List (List Symbol) := rows.earlier ++ [rows.last]

/-- The row becomes complete, with what was placed in it. -/
def close (rows : Rows Symbol) : Rows Symbol := ⟨rows.earlier ++ [rows.last], []⟩

def place (rows : Rows Symbol) (symbol : Symbol) : Rows Symbol :=
  { rows with last := rows.last ++ [symbol] }

/-- The symbol at a row and a column, if there is one. -/
def symbolAt (rows : Rows Symbol) (row column : Nat) : Option Symbol :=
  rows.all[row]?.bind (·[column]?)

variable (rows : Rows Symbol)

@[simp] theorem length_all : rows.all.length = rows.earlier.length + 1 := by
  rw [all, List.length_append, List.length_singleton]

theorem symbolAt_last (column : Nat) :
    rows.symbolAt rows.earlier.length column = rows.last[column]? := by
  rw [symbolAt, all, List.getElem?_concat_length]
  rfl

theorem symbolAt_of_lt {row : Nat} (before : row < rows.earlier.length) (column : Nat) :
    rows.symbolAt row column = rows.earlier[row]?.bind (·[column]?) := by
  rw [symbolAt, all, List.getElem?_append_left before]

theorem symbolAt_of_gt {row : Nat} (beyond : rows.earlier.length < row) (column : Nat) :
    rows.symbolAt row column = none := by
  rw [symbolAt, List.getElem?_eq_none (by rw [length_all]; exact beyond)]
  rfl

/-- A row that is complete shows what it did before. -/
theorem close_symbolAt (row column : Nat) :
    rows.close.symbolAt row column = rows.symbolAt row column := by
  have longer : rows.close.earlier.length = rows.earlier.length + 1 := rows.length_all
  rcases Nat.lt_trichotomy row rows.close.earlier.length with before | here | beyond
  · rw [symbolAt_of_lt _ before]
    rfl
  · rw [here, symbolAt_last, symbolAt_of_gt rows (by rw [longer]; exact Nat.lt_succ_self _)]
    rfl
  · rw [symbolAt_of_gt _ beyond, symbolAt_of_gt rows (by rw [longer] at beyond; omega)]

theorem place_symbolAt (symbol : Symbol) (row column : Nat) :
    (rows.place symbol).symbolAt row column =
      if row = rows.earlier.length ∧ column = rows.last.length then some symbol
      else rows.symbolAt row column := by
  rcases Nat.lt_trichotomy row rows.earlier.length with before | here | beyond
  · rw [if_neg (by omega), symbolAt_of_lt _ before, symbolAt_of_lt (rows.place symbol) before]
    rfl
  · subst here
    rw [symbolAt_last]
    refine (symbolAt_last (rows.place symbol) column).trans ?_
    simp only [place, true_and]
    split
    · next atEnd => rw [atEnd, List.getElem?_concat_length]
    · next elsewhere =>
        rcases Nat.lt_or_gt_of_ne elsewhere with before | beyond
        · exact List.getElem?_append_left before
        · rw [List.getElem?_eq_none (Nat.le_of_lt beyond), List.getElem?_eq_none]
          rw [List.length_append]
          exact beyond
  · rw [if_neg (by omega), symbolAt_of_gt _ beyond, symbolAt_of_gt (rows.place symbol) beyond]

variable [DecidableEq Symbol] (separator : Symbol) (width : Nat)

/-- The rows after one more symbol. -/
def put (rows : Rows Symbol) (symbol : Symbol) : Rows Symbol :=
  if symbol = separator then rows.close
  else
    let placed := rows.place symbol
    if placed.last.length = width then placed.close else placed

end Rows

/-- The rows of a text. -/
def layout [DecidableEq Symbol] (separator : Symbol) (width : Nat) (text : List Symbol) :
    Rows Symbol :=
  text.foldl (Rows.put separator width) Rows.empty

/-- The last rows of a text, as many as the page has. -/
def lastRows (height : Nat) (rows : Rows Symbol) : List (List Symbol) := rows.all.rtake height

theorem length_lastRows (height : Nat) (rows : Rows Symbol) :
    (lastRows height rows).length = min height (rows.earlier.length + 1) := by
  rw [lastRows, List.rtake, List.length_drop, Rows.length_all]
  omega

/-- The symbol at a row of the page. -/
theorem lastRows_symbolAt (height : Nat) (rows : Rows Symbol) (row column : Nat) :
    (lastRows height rows)[row]?.bind (·[column]?) =
      rows.symbolAt (rows.earlier.length + 1 - height + row) column := by
  rw [lastRows, List.rtake, List.getElem?_drop, Rows.length_all]
  rfl

end RowLayout
