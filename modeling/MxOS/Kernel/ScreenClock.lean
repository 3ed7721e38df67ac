import MxOS.Lib.Interleaving
import MxOS.Kernel.ScreenTail

/-! # The clock in the corner

The task of `kernel.c` draws in the upper right corner of the screen and may run between
any two accesses of `kernel/screen.c` to video memory. Scrolling overwrites the corner but
never reads it, so the rest of the screen is as if there were no clock.
-/

namespace MxOS.Screen

open ByteMemory RowLayout Interleaving

abbrev Access := Operation Nat Byte

/-! ### Accesses of the console -/

/-- The loop that copies every row to the one above, from offset `i` on. -/
def copyAccesses : Nat → Nat → List Access
  | 0, _ => []
  | count + 1, i => .load (i + maxCols * 2) :: .save i :: copyAccesses count (i + 1)

/-- A loop that blanks cells, from offset `i` on. -/
def blankAccesses (color : Byte) (count i : Nat) : List Access :=
  (blankStores color count i).map fun store => .put store.1 store.2

def scrollAccesses (screen : Display) : List Access :=
  copyAccesses ((maxRows - 1) * maxCols * 2) 0 ++
    blankAccesses screen.currentColor maxCols ((maxRows - 1) * maxCols * 2)

def kprintCharAtAccesses (c : Byte) (x y : Nat) (screen : Display) : List Access :=
  (kprintCharAtStores c x y screen).map fun store => .put store.1 store.2

def kprintCharAccesses (c : Byte) (screen : Display) : List Access :=
  if c = 0x0A then
    if (advance c screen).cursorY ≥ maxRows then scrollAccesses (advance c screen) else []
  else if c = 0x08 then
    let erased := eraseChar screen
    kprintCharAtAccesses 0x20 erased.cursorX erased.cursorY screen
  else
    kprintCharAtAccesses c screen.cursorX screen.cursorY screen ++
      if (advance c screen).cursorY ≥ maxRows then scrollAccesses (advance c screen) else []

/-- The accesses to video memory while the characters are printed. -/
def printAccesses : List Byte → Display → List Access
  | [], _ => []
  | c :: rest, screen => kprintCharAccesses c screen ++ printAccesses rest (kprintChar screen c)

/-- The accesses leave what the stores of the log do. -/
def Leaves (accesses : List Access) (log : List Store) (vidmem : Nat → Byte) : Prop :=
  ∀ register, (Operation.run accesses ⟨vidmem, register⟩).store = WriteLog.replay log vidmem

theorem Leaves.append {first second : List Access} {one two : List Store} {vidmem : Nat → Byte}
    (before : Leaves first one vidmem) (after : Leaves second two (WriteLog.replay one vidmem)) :
    Leaves (first ++ second) (one ++ two) vidmem := by
  intro register
  rw [Operation.run_append, WriteLog.replay_append, ← after, ← before register]

theorem leaves_puts (log : List Store) (vidmem : Nat → Byte) :
    Leaves (log.map fun store => .put store.1 store.2) log vidmem := by
  intro register
  induction log generalizing vidmem with
  | nil => rfl
  | cons store rest ih => exact ih _

theorem leaves_copyAccesses (count i : Nat) (vidmem : Nat → Byte) :
    Leaves (copyAccesses count i) (copyStores count i vidmem) vidmem := by
  intro register
  induction count generalizing i vidmem register with
  | zero => rfl
  | succ count ih => exact ih (i + 1) _ _

theorem leaves_scrollAccesses (screen : Display) :
    Leaves (scrollAccesses screen) (scrollStores screen) screen.vidmem :=
  Leaves.append (leaves_copyAccesses _ _ _) (leaves_puts _ _)

/-- The end of `kprint_char`. -/
theorem leaves_settle (screen : Display) :
    Leaves (if screen.cursorY ≥ maxRows then scrollAccesses screen else [])
      (if screen.cursorY ≥ maxRows then scrollStores screen else []) screen.vidmem := by
  split
  · exact leaves_scrollAccesses screen
  · exact fun _ => rfl

theorem leaves_kprintCharAccesses (c : Byte) (screen : Display) :
    Leaves (kprintCharAccesses c screen) (kprintCharStores c screen) screen.vidmem := by
  unfold kprintCharAccesses kprintCharStores
  by_cases newline : c = 0x0A
  · have kept : (advance c screen).vidmem = screen.vidmem := by
      rw [newline, advance_newline]
    rw [if_pos newline, if_pos newline, ← kept]
    exact leaves_settle (advance c screen)
  · rw [if_neg newline, if_neg newline]
    split
    · exact leaves_puts _ _
    · refine Leaves.append (leaves_puts _ _) ?_
      rw [replay_kprintCharAtStores, ← advance_vidmem newline]
      exact leaves_settle (advance c screen)

theorem leaves_printAccesses (text : List Byte) (screen : Display) :
    Leaves (printAccesses text screen) (printStores text screen) screen.vidmem := by
  induction text generalizing screen with
  | nil => exact fun _ => rfl
  | cons c rest ih =>
      refine (leaves_kprintCharAccesses c screen).append ?_
      rw [replay_kprintCharStores]
      exact ih (kprintChar screen c)

/-- What is printed without interruption is on the screen of the model. -/
theorem run_printAccesses (text : List Byte) (screen : Display) (register : Byte) :
    (Operation.run (printAccesses text screen) ⟨screen.vidmem, register⟩).store =
      (print text screen).vidmem :=
  (leaves_printAccesses text screen register).trans (replay_printStores text screen)

/-! ### What is read -/

/-- Only scrolling reads, and never from the first row. -/
theorem load_mem_copyAccesses {count i source : Nat}
    (member : Operation.load source ∈ copyAccesses count i) : i + maxCols * 2 ≤ source := by
  induction count generalizing i with
  | zero => exact absurd member List.not_mem_nil
  | succ count ih =>
      rw [copyAccesses, List.mem_cons, List.mem_cons] at member
      obtain first | second | later := member
      · exact (Operation.load.inj first).ge
      · cases second
      · exact (Nat.add_le_add_right (Nat.le_succ i) _).trans (ih later)

theorem load_not_mem_puts {log : List Store} {source : Nat} :
    Operation.load source ∉ log.map fun store => (Operation.put store.1 store.2 : Access) := by
  intro member
  obtain ⟨store, _, same⟩ := List.mem_map.mp member
  cases same

theorem load_mem_settle {screen : Display} {source : Nat}
    (member : Operation.load source ∈
      if screen.cursorY ≥ maxRows then scrollAccesses screen else []) : maxCols * 2 ≤ source := by
  split at member
  · rcases List.mem_append.mp member with copied | blanked
    · exact (Nat.le_add_left ..).trans (load_mem_copyAccesses copied)
    · exact absurd blanked load_not_mem_puts
  · exact absurd member List.not_mem_nil

theorem load_mem_kprintCharAccesses {c : Byte} {screen : Display} {source : Nat}
    (member : Operation.load source ∈ kprintCharAccesses c screen) : maxCols * 2 ≤ source := by
  unfold kprintCharAccesses at member
  split at member
  · exact load_mem_settle member
  · split at member
    · exact absurd member load_not_mem_puts
    · rcases List.mem_append.mp member with placed | settled
      · exact absurd placed load_not_mem_puts
      · exact load_mem_settle settled

theorem load_mem_printAccesses {text : List Byte} {screen : Display} {source : Nat}
    (member : Operation.load source ∈ printAccesses text screen) : maxCols * 2 ≤ source := by
  induction text generalizing screen with
  | nil => exact absurd member List.not_mem_nil
  | cons c rest ih =>
      rcases List.mem_append.mp member with first | later
      · exact load_mem_kprintCharAccesses first
      · exact ih later

/-! ### The clock -/

/-- `symbols[t % 4]` -/
def clockSymbol (t : Word) : Byte := [0x2D, 0x5C, 0x7C, 0x2F].getD (t % 4).toNat 0

/-- `offset`, of column 79 in row 0. -/
def clockOffset : Nat := 79 * 2

/-- The stores of that many rounds of `task_clock`. -/
def taskClock : Nat → Word → List Store
  | 0, _ => []
  | rounds + 1, t =>
      (clockOffset, clockSymbol t) :: (clockOffset + 1, 0x0E) :: taskClock rounds (t + 1)

/-- The two bytes of the corner. -/
def corner : Set Nat := {clockOffset, clockOffset + 1}

theorem taskClock_corner {rounds : Nat} {t : Word} {store : Store}
    (member : store ∈ taskClock rounds t) : store.1 ∈ corner := by
  induction rounds generalizing t with
  | zero => exact absurd member List.not_mem_nil
  | succ rounds ih =>
      rw [taskClock, List.mem_cons, List.mem_cons] at member
      obtain rfl | rfl | later := member
      · exact Or.inl rfl
      · exact Or.inr rfl
      · exact ih later

/-- A cell of the screen after a text without backspaces. -/
theorem print_cell_lastRows (screen : Display) {text : List Byte} (plain : ∀ c ∈ text, c ≠ 0x08)
    {row column : Nat} (inRows : row < maxRows) (inColumns : column < maxCols) :
    (print text (clearScreen screen)).cell (row * maxCols + column) =
      (padded (lastRows maxRows (layout 0x0A maxCols text)) row column, screen.currentColor) := by
  have clean := clearScreen_clean screen
  have onPage := (clean.print text).row
  obtain ⟨base, shows, full⟩ := (clearScreen_showsTail screen).print clean plain
  have atRow : base + _ = (layout 0x0A maxCols text).earlier.length := shows.row
  have first : (layout 0x0A maxCols text).earlier.length + 1 - maxRows = base := by
    simp only [maxRows] at *
    omega
  rw [padded, lastRows_symbolAt, first]
  exact shows.cells row column inRows inColumns

/-- Whenever the clock runs while a text is printed, at every moment the screen outside the corner
is as it would be without the clock. After a text without backspaces on a cleared screen, it shows
the last rows of the text. -/
theorem clock_confined (screen : Display) (text : List Byte) (events : List (Event Nat Byte))
    (rounds : Nat) (t : Word) (printing : Event.own events <+: printAccesses text screen)
    (clock : Event.others events <+: taskClock rounds t) (register : Byte) :
    let mixed := Event.run events ⟨screen.vidmem, register⟩
    let alone := Operation.run (Event.own events) ⟨screen.vidmem, register⟩
    Set.EqOn mixed.store alone.store cornerᶜ ∧
    (Event.own events = printAccesses text screen →
      Set.EqOn mixed.store (print text screen).vidmem cornerᶜ ∧
      ∀ before, screen = clearScreen before → (∀ c ∈ text, c ≠ 0x08) →
        ∀ row column, row < maxRows → column < maxCols → (row ≠ 0 ∨ column ≠ 79) →
          (mixed.store ((row * maxCols + column) * 2),
            mixed.store ((row * maxCols + column) * 2 + 1)) =
              (padded (lastRows maxRows (layout 0x0A maxCols text)) row column,
                before.currentColor)) := by
  intro mixed alone
  have start :
      Agree corner (⟨screen.vidmem, register⟩ : State Nat Byte) ⟨screen.vidmem, register⟩ :=
    ⟨Set.eqOn_refl .., rfl⟩
  have reads : ∀ source, Operation.load source ∈ Event.own events → source ∉ corner := by
    intro source member inCorner
    have below := load_mem_printAccesses (printing.subset member)
    simp only [corner, clockOffset, Set.mem_insert_iff, Set.mem_singleton_iff, maxCols] at *
    omega
  have agree := start.run reads fun entry member => taskClock_corner (clock.subset member)
  refine ⟨agree.store, fun whole => ?_⟩
  have final : Set.EqOn mixed.store (print text screen).vidmem cornerᶜ := by
    have same := agree.store
    rw [whole, run_printAccesses] at same
    exact same
  refine ⟨final, ?_⟩
  rintro before rfl plain row column inRows inColumns elsewhere
  have cell := print_cell_lastRows before plain inRows inColumns
  have away : ∀ byte < 2, (row * maxCols + column) * 2 + byte ∉ corner := by
    intro byte few inCorner
    simp only [corner, clockOffset, Set.mem_insert_iff, Set.mem_singleton_iff, maxCols] at *
    omega
  rw [← cell]
  exact Prod.ext (final (away 0 (by decide))) (final (away 1 (by decide)))

/-- A letter, with the clock between its character and its colour. -/
theorem clock_confined_letter :
    let events : List (Event Nat Byte) :=
      [.inl (.put 0 0x68), .inr (158, 0x2D), .inr (159, 0x0E), .inl (.put 1 0x1F)]
    let mixed := Event.run events ⟨(clearScreen bootDisplay).vidmem, 0⟩
    (mixed.store 0, mixed.store 1) = (0x68, 0x1F) ∧ (mixed.store 158, mixed.store 159) =
      (0x2D, 0x0E) :=
  have ⟨_, after⟩ := clock_confined (clearScreen bootDisplay) [0x68]
    [.inl (.put 0 0x68), .inr (158, 0x2D), .inr (159, 0x0E), .inl (.put 1 0x1F)] 1 0
    ⟨[], rfl⟩ ⟨[], rfl⟩ 0
  ⟨(after rfl).2 bootDisplay rfl (by decide) 0 0 (by decide) (by decide)
    (Or.inr (by decide)), rfl⟩

end MxOS.Screen
