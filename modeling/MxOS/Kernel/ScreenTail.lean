import MxOS.Lib.RowLayout
import MxOS.Lib.WriteLog
import MxOS.Kernel.Screen

/-! # The rows the console shows

`kernel/screen.c` stores to video memory byte by byte. The stores of each function are
listed as the source makes them, in order: a loop reads what its earlier iterations have
left behind. Replaying them gives the video memory of the model.

After `clear_screen`, whatever is printed, the screen holds the last 25 rows of the text,
and no store is outside the screen.
-/

namespace MxOS.Screen

open ByteMemory RowLayout

/-! ### Stores -/

/-- A store to video memory: an offset and the byte. -/
abbrev Store := Nat × Byte

/-- The stores of the loop that copies every row to the one above, from offset `i` on. -/
def copyStores : Nat → Nat → (Nat → Byte) → List Store
  | 0, _, _ => []
  | count + 1, i, vidmem =>
      let store := (i, vidmem (i + maxCols * 2))
      store :: copyStores count (i + 1) (Function.update vidmem store.1 store.2)

/-- The stores of a loop that blanks cells, from offset `i` on. -/
def blankStores (color : Byte) : Nat → Nat → List Store
  | 0, _ => []
  | count + 1, i => (i, 0x20) :: (i + 1, color) :: blankStores color count (i + 2)

def scrollStores (screen : Display) : List Store :=
  copyStores ((maxRows - 1) * maxCols * 2) 0 screen.vidmem ++
    blankStores screen.currentColor maxCols ((maxRows - 1) * maxCols * 2)

def clearScreenStores (screen : Display) : List Store :=
  blankStores screen.currentColor (maxRows * maxCols) 0

def kprintCharAtStores (c : Byte) (x y : Nat) (screen : Display) : List Store :=
  let offset := (y * maxCols + x) * 2
  [(offset, c), (offset + 1, screen.currentColor)]

def kprintCharStores (c : Byte) (screen : Display) : List Store :=
  if c = 0x0A then
    if (advance c screen).cursorY ≥ maxRows then scrollStores (advance c screen) else []
  else if c = 0x08 then
    let erased := eraseChar screen
    kprintCharAtStores 0x20 erased.cursorX erased.cursorY screen
  else
    kprintCharAtStores c screen.cursorX screen.cursorY screen ++
      if (advance c screen).cursorY ≥ maxRows then scrollStores (advance c screen) else []

/-- The stores while the characters are printed. -/
def printStores : List Byte → Display → List Store
  | [], _ => []
  | c :: rest, screen => kprintCharStores c screen ++ printStores rest (kprintChar screen c)

/-- Every store of the loop is to one of its offsets. -/
theorem copyStores_bounds {count i : Nat} {vidmem : Nat → Byte} {store : Store}
    (member : store ∈ copyStores count i vidmem) : i ≤ store.1 ∧ store.1 < i + count := by
  induction count generalizing i vidmem with
  | zero => exact absurd member List.not_mem_nil
  | succ count ih =>
      rcases List.mem_cons.mp member with rfl | later
      · exact ⟨Nat.le_refl _, Nat.lt_add_of_pos_right (Nat.succ_pos _)⟩
      · have bounds := ih later
        omega

theorem blankStores_bounds {color : Byte} {count i : Nat} {store : Store}
    (member : store ∈ blankStores color count i) : i ≤ store.1 ∧ store.1 < i + 2 * count := by
  induction count generalizing i with
  | zero => exact absurd member List.not_mem_nil
  | succ count ih =>
      rw [blankStores, List.mem_cons, List.mem_cons] at member
      obtain rfl | rfl | later := member
      · exact ⟨Nat.le_refl _, Nat.lt_add_of_pos_right (by omega)⟩
      · exact ⟨Nat.le_succ _, by simp only; omega⟩
      · have bounds := ih later
        omega

/-- The source of a copied byte is above its destination, so it is read before it is
overwritten. -/
theorem replay_copyStores (count i : Nat) (vidmem : Nat → Byte) (offset : Nat) :
    WriteLog.replay (copyStores count i vidmem) vidmem offset =
      if i ≤ offset ∧ offset < i + count then vidmem (offset + maxCols * 2)
      else vidmem offset := by
  induction count generalizing i vidmem with
  | zero => exact (if_neg (by omega)).symm
  | succ count ih =>
      rw [copyStores]
      refine (ih ..).trans ?_
      rcases Nat.lt_trichotomy offset i with before | here | beyond
      · rw [if_neg (by omega), if_neg (by omega), Function.update_of_ne (by simp only; omega)]
      · subst here
        rw [if_neg (by omega), if_pos (by omega), Function.update_self]
      · rw [Function.update_of_ne (by simp only; omega),
          Function.update_of_ne (by simp only; omega)]
        exact if_congr (by omega) rfl rfl

theorem replay_blankStores (color : Byte) (count : Nat) {i : Nat} (even : i % 2 = 0)
    (vidmem : Nat → Byte) (offset : Nat) :
    WriteLog.replay (blankStores color count i) vidmem offset =
      if i ≤ offset ∧ offset < i + 2 * count then blankByte color offset
      else vidmem offset := by
  induction count generalizing i vidmem with
  | zero => exact (if_neg (by omega)).symm
  | succ count ih =>
      rw [blankStores]
      refine (ih (by omega) _).trans ?_
      by_cases first : offset = i
      · subst first
        rw [if_neg (by omega), if_pos (by omega), Function.update_of_ne (by simp only; omega),
          Function.update_self, blankByte, if_pos even]
      · by_cases second : offset = i + 1
        · subst second
          rw [if_neg (by omega), if_pos (by omega), Function.update_self, blankByte,
            if_neg (by omega)]
        · rw [Function.update_of_ne second, Function.update_of_ne first]
          exact if_congr (by omega) rfl rfl

theorem replay_scrollStores (screen : Display) :
    WriteLog.replay (scrollStores screen) screen.vidmem = (scroll screen).vidmem := by
  funext offset
  rw [scrollStores, WriteLog.replay_append, replay_blankStores _ _ (by decide)]
  simp only [replay_copyStores, scroll, maxRows, maxCols]
  by_cases upper : offset < 3840
  · rw [if_neg (by omega), if_pos (by omega), if_pos upper]
  · rw [if_neg upper, if_neg (c := 0 ≤ offset ∧ _) (by omega)]
    exact if_congr (by omega) rfl rfl

theorem replay_clearScreenStores (screen : Display) :
    WriteLog.replay (clearScreenStores screen) screen.vidmem = (clearScreen screen).vidmem := by
  funext offset
  rw [clearScreenStores, replay_blankStores _ _ rfl]
  simp only [clearScreen, updateCursor, maxRows, maxCols]
  exact if_congr (by omega) rfl rfl

theorem replay_kprintCharAtStores (c : Byte) (x y : Nat) (screen : Display) :
    WriteLog.replay (kprintCharAtStores c x y screen) screen.vidmem =
      (kprintCharAt c x y screen).vidmem := rfl

/-- The stores of the end of `kprint_char`. -/
theorem replay_settle (screen : Display) :
    WriteLog.replay (if screen.cursorY ≥ maxRows then scrollStores screen else []) screen.vidmem =
      (updateCursor (if screen.cursorY ≥ maxRows then scroll screen else screen)).vidmem := by
  split
  · exact replay_scrollStores screen
  · rfl

theorem advance_vidmem {c : Byte} (char : c ≠ 0x0A) (screen : Display) :
    (advance c screen).vidmem =
      (kprintCharAt c screen.cursorX screen.cursorY screen).vidmem := by
  simp only [advance, if_neg char]
  split <;> rfl

theorem eraseChar_vidmem (screen : Display) :
    (eraseChar screen).vidmem =
      (kprintCharAt 0x20 (eraseChar screen).cursorX (eraseChar screen).cursorY screen).vidmem := by
  unfold eraseChar
  split
  · rfl
  · split <;> rfl

/-- The stores of `kprint_char` leave the video memory of the model behind. -/
theorem replay_kprintCharStores (c : Byte) (screen : Display) :
    WriteLog.replay (kprintCharStores c screen) screen.vidmem = (kprintChar screen c).vidmem := by
  unfold kprintCharStores kprintChar
  by_cases newline : c = 0x0A
  · subst newline
    rw [if_pos rfl, if_neg (c := (0x0A : Byte) = 0x08) (by decide), advance_newline]
    exact replay_settle { screen with cursorX := 0, cursorY := screen.cursorY + 1 }
  · rw [if_neg newline]
    split
    · exact (replay_kprintCharAtStores ..).trans (eraseChar_vidmem screen).symm
    · rw [WriteLog.replay_append, replay_kprintCharAtStores, ← advance_vidmem newline]
      exact replay_settle (advance c screen)

theorem replay_printStores (text : List Byte) (screen : Display) :
    WriteLog.replay (printStores text screen) screen.vidmem = (print text screen).vidmem := by
  induction text generalizing screen with
  | nil => rfl
  | cons c rest ih =>
      rw [printStores, WriteLog.replay_append, replay_kprintCharStores]
      exact ih _

/-! ### Stores inside the screen -/

/-- The store is to one of the bytes of the screen. -/
def Inside (store : Store) : Prop := store.1 < maxRows * maxCols * 2

theorem clearScreenStores_inside {screen : Display} {store : Store}
    (member : store ∈ clearScreenStores screen) : Inside store := by
  have bounds := (blankStores_bounds member).2
  simp only [Inside, maxRows, maxCols] at *
  omega

theorem scrollStores_inside {screen : Display} {store : Store}
    (member : store ∈ scrollStores screen) : Inside store := by
  rcases List.mem_append.mp member with copied | blanked
  · have bounds := (copyStores_bounds copied).2
    simp only [Inside, maxRows, maxCols] at *
    omega
  · have bounds := (blankStores_bounds blanked).2
    simp only [Inside, maxRows, maxCols] at *
    omega

theorem kprintCharAtStores_inside {c : Byte} {screen moved : Display} (onScreen : moved.OnScreen)
    {store : Store} (member : store ∈ kprintCharAtStores c moved.cursorX moved.cursorY screen) :
    Inside store := by
  have inside := onScreen.position
  simp only [kprintCharAtStores, List.mem_cons, List.not_mem_nil, or_false] at member
  simp only [Display.position, cells, Inside, maxRows, maxCols] at *
  obtain rfl | rfl := member
  · simp only
    omega
  · simp only
    omega

theorem kprintCharStores_inside {c : Byte} {screen : Display} (onScreen : screen.OnScreen)
    {store : Store} (member : store ∈ kprintCharStores c screen) : Inside store := by
  have settle : ∀ moved : Display,
      store ∈ (if moved.cursorY ≥ maxRows then scrollStores moved else []) → Inside store := by
    intro moved scrolling
    split at scrolling
    · exact scrollStores_inside scrolling
    · exact absurd scrolling List.not_mem_nil
  unfold kprintCharStores at member
  split at member
  · exact settle _ member
  · split at member
    · exact kprintCharAtStores_inside (eraseChar_spec onScreen).1 member
    · rcases List.mem_append.mp member with written | scrolling
      · exact kprintCharAtStores_inside onScreen written
      · exact settle _ scrolling

theorem printStores_inside {text : List Byte} {screen : Display} (clean : screen.Clean)
    {store : Store} (member : store ∈ printStores text screen) : Inside store := by
  induction text generalizing screen with
  | nil => exact absurd member List.not_mem_nil
  | cons c rest ih =>
      rcases List.mem_append.mp member with now | later
      · exact kprintCharStores_inside clean.toOnScreen now
      · exact ih (clean.kprintChar c) later

/-! ### Rows on the screen -/

/-- The screen shows the rows from number `base` on, and the cursor is behind the last. -/
structure Display.ShowsRows (screen : Display) (color : Byte) (base : Nat) (rows : Rows Byte) :
    Prop where
  column : screen.cursorX = rows.last.length
  row : base + screen.cursorY = rows.earlier.length
  currentColor : screen.currentColor = color
  cells : ∀ row column, row < maxRows → column < maxCols →
    screen.cell (row * maxCols + column) =
      ((rows.symbolAt (base + row) column).getD 0x20, color)

section ShowsRows

variable {screen : Display} {color : Byte} {base : Nat} {rows : Rows Byte}

/-- The cursor goes to the start of the next row. -/
theorem Display.ShowsRows.close (shows : screen.ShowsRows color base rows) :
    { screen with cursorX := 0, cursorY := screen.cursorY + 1 }.ShowsRows color base
      rows.close where
  column := rfl
  row := (congrArg Nat.succ shows.row).trans rows.length_all.symm
  currentColor := shows.currentColor
  cells := fun row column inRows inColumns => by
    rw [Rows.close_symbolAt]
    exact shows.cells row column inRows inColumns

theorem Display.ShowsRows.place (shows : screen.ShowsRows color base rows)
    (onScreen : screen.OnScreen) (c : Byte) :
    { kprintCharAt c screen.cursorX screen.cursorY screen with
      cursorX := screen.cursorX + 1 }.ShowsRows color base (rows.place c) where
  column := by
    rw [Rows.place, List.length_append, List.length_singleton, ← shows.column]
  row := shows.row
  currentColor := shows.currentColor
  cells := fun row column inRows inColumns => by
    have inside := onScreen.column
    have atRow := shows.row
    have atColumn := shows.column
    refine (kprintCharAt_cell ..).trans ?_
    rw [Rows.place_symbolAt]
    simp only [maxCols] at inside inColumns ⊢
    by_cases here : row = screen.cursorY ∧ column = screen.cursorX
    · rw [if_pos (by omega), if_pos (by omega), shows.currentColor]
      rfl
    · rw [if_neg (by omega), if_neg (by omega)]
      exact shows.cells row column inRows inColumns

theorem Display.ShowsRows.advance (shows : screen.ShowsRows color base rows)
    (onScreen : screen.OnScreen) (c : Byte) :
    (advance c screen).ShowsRows color base (rows.put 0x0A maxCols c) := by
  by_cases newline : c = 0x0A
  · subst newline
    rw [advance_newline, Rows.put, if_pos rfl]
    exact shows.close
  · have placed := shows.place onScreen c
    have column := onScreen.column
    have atColumn := placed.column
    simp only [Screen.advance, Rows.put, if_neg newline]
    -- The column is below 80 before, so the row is full when the cursor reaches column 80.
    by_cases full : screen.cursorX + 1 = maxCols
    · rw [if_pos full.ge, if_pos (atColumn.symm.trans full)]
      exact placed.close
    · have differ : (rows.place c).last.length ≠ maxCols := by
        rw [← atColumn]
        exact full
      rw [if_neg (by omega), if_neg differ]
      exact placed

/-- The cursor is below the screen only at the start of a row. -/
theorem advance_below (onScreen : screen.OnScreen) {c : Byte}
    (below : (advance c screen).cursorY ≥ maxRows) :
    (advance c screen).cursorY = maxRows ∧ (advance c screen).cursorX = 0 := by
  have row := onScreen.row
  by_cases newline : c = 0x0A
  · subst newline
    rw [advance_newline] at below ⊢
    exact ⟨Nat.le_antisymm row below, rfl⟩
  · simp only [advance, if_neg newline] at below ⊢
    split at below
    · next full =>
        rw [if_pos full]
        exact ⟨Nat.le_antisymm row below, rfl⟩
    · exact absurd row (Nat.not_lt.mpr below)

theorem cursorY_le_advance (screen : Display) (c : Byte) :
    screen.cursorY ≤ (advance c screen).cursorY := by
  by_cases newline : c = 0x0A
  · rw [newline, advance_newline]
    exact Nat.le_succ _
  · simp only [advance, if_neg newline]
    split
    · exact Nat.le_succ _
    · exact Nat.le_refl _

/-- The first row leaves the screen, and the row of the cursor is the last. -/
theorem Display.ShowsRows.scroll (shows : screen.ShowsRows color base rows)
    (below : screen.cursorY = maxRows) (start : screen.cursorX = 0) :
    (scroll screen).ShowsRows color (base + 1) rows where
  column := shows.column
  row := by
    have atRow := shows.row
    simp only [Screen.scroll, maxRows] at *
    omega
  currentColor := shows.currentColor
  cells := fun row column inRows inColumns => by
    have atRow := shows.row
    rw [scroll_cell screen (by simp only [Screen.cells, maxRows, maxCols] at *; omega)]
    by_cases upper : row < maxRows - 1
    · rw [if_pos (by simp only [Screen.cells, maxRows, maxCols] at *; omega),
        show row * maxCols + column + maxCols = (row + 1) * maxCols + column by
          rw [Nat.add_mul, Nat.one_mul, Nat.add_right_comm],
        shows.cells (row + 1) column (by simp only [maxRows] at *; omega) inColumns,
        show base + (row + 1) = base + 1 + row by omega]
    · have last : base + 1 + row = rows.earlier.length := by
        simp only [maxRows] at *
        omega
      have empty : rows.last = [] := List.length_eq_zero_iff.mp (shows.column.symm.trans start)
      rw [if_neg (by simp only [Screen.cells, maxRows, maxCols] at *; omega), last,
        Rows.symbolAt_last, empty, Display.blank, shows.currentColor]
      rfl

end ShowsRows

/-- The screen shows the last rows: no row has left it before it was full. -/
def Display.ShowsTail (screen : Display) (color : Byte) (rows : Rows Byte) : Prop :=
  ∃ base, screen.ShowsRows color base rows ∧ (base = 0 ∨ screen.cursorY = maxRows - 1)

theorem clearScreen_showsTail (screen : Display) :
    (clearScreen screen).ShowsTail screen.currentColor Rows.empty := by
  refine ⟨0, ⟨rfl, rfl, rfl, fun row column inRows inColumns => ?_⟩, Or.inl rfl⟩
  have blank : (Rows.empty : Rows Byte).symbolAt (0 + row) column = none := by
    cases row <;> rfl
  rw [blank]
  exact (clearScreen_clean screen).behind _ (Nat.zero_le _)
    (by simp only [cells, maxRows, maxCols] at *; omega)

/-- One character more, on the screen and in the rows. -/
theorem Display.ShowsTail.kprintChar {screen : Display} {color : Byte} {rows : Rows Byte}
    (shows : screen.ShowsTail color rows) (onScreen : screen.OnScreen) {c : Byte}
    (plain : c ≠ 0x08) :
    (kprintChar screen c).ShowsTail color (rows.put 0x0A maxCols c) := by
  obtain ⟨base, shown, full⟩ := shows
  have advanced := shown.advance onScreen c
  rw [Screen.kprintChar, if_neg plain]
  simp only
  split
  · next below =>
      obtain ⟨atRow, start⟩ := advance_below onScreen below
      obtain ⟨column, row, same, cells⟩ := advanced.scroll atRow start
      exact ⟨base + 1, ⟨column, row, same, cells⟩, Or.inr rfl⟩
  · next within =>
      obtain ⟨column, row, same, cells⟩ := advanced
      refine ⟨base, ⟨column, row, same, cells⟩, full.imp_right fun last => ?_⟩
      have forward := cursorY_le_advance screen c
      simp only [maxRows, updateCursor] at *
      omega

theorem Display.ShowsTail.print {screen : Display} {color : Byte} {rows : Rows Byte}
    (shows : screen.ShowsTail color rows) (clean : screen.Clean) {text : List Byte}
    (plain : ∀ c ∈ text, c ≠ 0x08) :
    (print text screen).ShowsTail color (text.foldl (Rows.put 0x0A maxCols) rows) := by
  induction text generalizing screen rows with
  | nil => exact shows
  | cons c rest ih =>
      apply ih (shows.kprintChar clean.toOnScreen (plain c (List.mem_cons_self ..)))
        (clean.kprintChar c)
      intro other member
      exact plain other (List.mem_cons_of_mem _ member)

/-- What a page of blank-padded rows shows at a row and a column. -/
def padded (page : List (List Byte)) (row column : Nat) : Byte :=
  (page[row]?.bind (·[column]?)).getD 0x20

/-- After `clear_screen` and any text without a backspace the screen holds the last 25 rows
of the text, with the cursor behind the last of them. All stores are inside the screen. -/
theorem print_shows_lastRows (screen : Display) (text : List Byte)
    (plain : ∀ c ∈ text, c ≠ 0x08) :
    let shown := print text (clearScreen screen)
    let rows := layout 0x0A maxCols text
    let stores := clearScreenStores screen ++ printStores text (clearScreen screen)
    (∀ row column, row < maxRows → column < maxCols →
      shown.cell (row * maxCols + column) =
        (padded (lastRows maxRows rows) row column, screen.currentColor)) ∧
    shown.cursorX = rows.last.length ∧
    shown.cursorY + 1 = (lastRows maxRows rows).length ∧
    shown.hardwareCursor = shown.cursorY * maxCols + shown.cursorX ∧
    shown.vidmem = WriteLog.replay stores screen.vidmem ∧
    ∀ store ∈ stores, store.1 < 4000 := by
  have clean := clearScreen_clean screen
  have cleanAfter := clean.print text
  obtain ⟨base, shows, full⟩ := (clearScreen_showsTail screen).print clean plain
  have atRow : base + _ = (layout 0x0A maxCols text).earlier.length := shows.row
  have onPage := cleanAfter.row
  refine ⟨fun row column inRows inColumns => ?_, shows.column, ?_, cleanAfter.hardware, ?_, ?_⟩
  · have first : (layout 0x0A maxCols text).earlier.length + 1 - maxRows = base := by
      simp only [maxRows] at *
      omega
    rw [padded, lastRows_symbolAt, first]
    exact shows.cells row column inRows inColumns
  · rw [length_lastRows]
    simp only [maxRows] at *
    omega
  · rw [WriteLog.replay_append, replay_clearScreenStores, replay_printStores]
  · intro store member
    rcases List.mem_append.mp member with cleared | printed
    · exact clearScreenStores_inside cleared
    · exact printStores_inside clean printed

/-- The console before anything is printed. -/
def bootDisplay : Display := ⟨fun _ => 0, 0, 0, 0x1F, ⟨0, fun _ => 0⟩⟩

/-- The last of three rows, of which the second is empty. -/
theorem print_shows_lastRows_third :
    let shown := print [0x68, 0x69, 0x0A, 0x0A, 0x21] (clearScreen bootDisplay)
    shown.cell (2 * maxCols) = (0x21, 0x1F) ∧ shown.cursorX = 1 ∧ shown.cursorY = 2 :=
  have ⟨cells, column, row, _⟩ := print_shows_lastRows bootDisplay
    [0x68, 0x69, 0x0A, 0x0A, 0x21] (by decide)
  ⟨cells 2 0 (by decide) (by decide), column, Nat.succ.inj row⟩

end MxOS.Screen
