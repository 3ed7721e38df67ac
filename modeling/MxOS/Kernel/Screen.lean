import Mathlib.Data.List.Induction
import MxOS.Lib.Memory

/-! # The text console

`kernel/screen.c`: 25 rows of 80 cells in video memory, each cell a character and its
colour. Characters are written at the cursor, and the screen is scrolled when the cursor
leaves the last row. The video controller shows a cursor of its own, whose position is
set through two of its registers.

The mirror on the serial port is left out; it receives what is printed and nothing else.
-/

namespace MxOS.Screen

open ByteMemory

abbrev maxRows : Nat := 25

abbrev maxCols : Nat := 80

/-- The registers of the video controller, and the one selected. -/
structure Controller where
  index : Byte
  registers : Byte → Byte

/-- The bytes from `VIDEO_ADDRESS` on, and the static variables of the module. -/
structure Display where
  vidmem : Nat → Byte
  cursorX : Nat
  cursorY : Nat
  currentColor : Byte
  controller : Controller

/-- Port `0x3D4` selects a register, port `0x3D5` sets it. -/
def outb (port : BitVec 16) (data : Byte) (controller : Controller) : Controller :=
  if port = 0x3D4 then { controller with index := data }
  else if port = 0x3D5 then
    { controller with registers := Function.update controller.registers controller.index data }
  else controller

def updateCursor (screen : Display) : Display :=
  let pos : BitVec 16 := BitVec.ofNat 16 (screen.cursorY * maxCols + screen.cursorX)
  { screen with
    controller :=
      outb 0x3D5 (((pos >>> 8) &&& 0xFF).setWidth 8) (outb 0x3D4 0x0E
        (outb 0x3D5 ((pos &&& 0xFF).setWidth 8) (outb 0x3D4 0x0F screen.controller))) }

/-- The byte of a blank cell at an offset of video memory. -/
def blankByte (color : Byte) (offset : Nat) : Byte := if offset % 2 = 0 then 0x20 else color

def scroll (screen : Display) : Display :=
  { screen with
    vidmem := fun offset =>
      if offset < (maxRows - 1) * maxCols * 2 then screen.vidmem (offset + maxCols * 2)
      else if offset < maxRows * maxCols * 2 then blankByte screen.currentColor offset
      else screen.vidmem offset
    cursorY := maxRows - 1 }

def clearScreen (screen : Display) : Display :=
  updateCursor
    { screen with
      vidmem := fun offset =>
        if offset < maxRows * maxCols * 2 then blankByte screen.currentColor offset
        else screen.vidmem offset
      cursorX := 0
      cursorY := 0 }

def kprintCharAt (c : Byte) (x y : Nat) (screen : Display) : Display :=
  let offset := (y * maxCols + x) * 2
  { screen with
    vidmem := Function.update (Function.update screen.vidmem offset c) (offset + 1)
      screen.currentColor }

/-- The branch of `kprint_char` for a backspace. -/
def eraseChar (screen : Display) : Display :=
  let screen :=
    if screen.cursorX > 0 then { screen with cursorX := screen.cursorX - 1 }
    else if screen.cursorY > 0 then
      { screen with cursorX := maxCols - 1, cursorY := screen.cursorY - 1 }
    else screen
  kprintCharAt 0x20 screen.cursorX screen.cursorY screen

/-- The other branches, up to the test whether to scroll. -/
def advance (c : Byte) (screen : Display) : Display :=
  let screen :=
    if c = 0x0A then { screen with cursorX := 0, cursorY := screen.cursorY + 1 }
    else
      let written := kprintCharAt c screen.cursorX screen.cursorY screen
      { written with cursorX := screen.cursorX + 1 }
  if screen.cursorX ≥ maxCols then { screen with cursorX := 0, cursorY := screen.cursorY + 1 }
  else screen

def kprintChar (screen : Display) (c : Byte) : Display :=
  if c = 0x08 then updateCursor (eraseChar screen)
  else
    let screen := advance c screen
    updateCursor (if screen.cursorY ≥ maxRows then scroll screen else screen)

/-- The screen after the characters were printed. -/
def print (text : List Byte) (screen : Display) : Display := text.foldl kprintChar screen

/-- Printing the character scrolls the screen. -/
def scrolls (c : Byte) (screen : Display) : Bool := c ≠ 0x08 ∧ (advance c screen).cursorY ≥ maxRows

/-- How often the screen is scrolled while the characters are printed. -/
def scrolled : List Byte → Display → Nat
  | [], _ => 0
  | c :: rest, screen => (scrolls c screen).toNat + scrolled rest (kprintChar screen c)

/-! ### Cells -/

/-- Character and colour of a cell, in row-major order. -/
def Display.cell (screen : Display) (index : Nat) : Byte × Byte :=
  (screen.vidmem (index * 2), screen.vidmem (index * 2 + 1))

def Display.blank (screen : Display) : Byte × Byte := (0x20, screen.currentColor)

/-- The number of cells. -/
abbrev cells : Nat := maxRows * maxCols

/-- The cell the cursor is at. -/
def Display.position (screen : Display) : Nat := screen.cursorY * maxCols + screen.cursorX

/-- The cell where the controller shows the cursor. -/
def Display.hardwareCursor (screen : Display) : Nat :=
  (screen.controller.registers 0x0E).toNat * 256 + (screen.controller.registers 0x0F).toNat

@[simp] theorem updateCursor_cell (screen : Display) (index : Nat) :
    (updateCursor screen).cell index = screen.cell index := rfl

@[simp] theorem updateCursor_position (screen : Display) :
    (updateCursor screen).position = screen.position := rfl

theorem updateCursor_hardwareCursor {screen : Display} (inside : screen.position < 2 ^ 16) :
    (updateCursor screen).hardwareCursor = screen.position := by
  have high : (updateCursor screen).controller.registers 0x0E =
      ((BitVec.ofNat 16 screen.position >>> 8) &&& 0xFF).setWidth 8 := rfl
  have low : (updateCursor screen).controller.registers 0x0F =
      (BitVec.ofNat 16 screen.position &&& 0xFF).setWidth 8 := rfl
  have mask : (0xFF : BitVec 16).toNat = 2 ^ 8 - 1 := rfl
  rw [Display.hardwareCursor, high, low]
  simp only [BitVec.toNat_setWidth, BitVec.toNat_and, BitVec.toNat_ushiftRight, BitVec.toNat_ofNat,
    Nat.mod_eq_of_lt inside, Nat.shiftRight_eq_div_pow, mask, Nat.and_two_pow_sub_one_eq_mod]
  omega

theorem kprintCharAt_cell (c : Byte) (x y : Nat) (screen : Display) (index : Nat) :
    (kprintCharAt c x y screen).cell index =
      if index = y * maxCols + x then (c, screen.currentColor) else screen.cell index := by
  simp only [Display.cell, kprintCharAt]
  split
  · next here =>
      subst here
      rw [Function.update_of_ne (by omega), Function.update_self, Function.update_self]
  · next elsewhere =>
      rw [Function.update_of_ne (by omega), Function.update_of_ne (by omega),
        Function.update_of_ne (by omega), Function.update_of_ne (by omega)]

theorem blankByte_cell (color : Byte) (index : Nat) :
    (blankByte color (index * 2), blankByte color (index * 2 + 1)) = (0x20, color) := by
  rw [blankByte, blankByte, if_pos (by omega), if_neg (by omega)]

theorem scroll_cell (screen : Display) {index : Nat} (inside : index < cells) :
    (scroll screen).cell index =
      if index < cells - maxCols then screen.cell (index + maxCols) else screen.blank := by
  simp only [Display.cell, scroll, cells, maxRows, maxCols] at inside ⊢
  by_cases upper : index < 1920
  · rw [if_pos (by omega), if_pos (by omega), if_pos (by omega),
      show (index + 80) * 2 = index * 2 + 80 * 2 by omega,
      show index * 2 + 80 * 2 + 1 = index * 2 + 1 + 80 * 2 by omega]
  · rw [if_neg (by omega), if_pos (by omega), if_neg (by omega), if_pos (by omega),
      if_neg (by omega)]
    exact blankByte_cell ..

/-! ### The cursor -/

/-- The cursor is on the screen. -/
structure Display.OnScreen (screen : Display) : Prop where
  column : screen.cursorX < maxCols
  row : screen.cursorY < maxRows

theorem Display.OnScreen.position {screen : Display} (onScreen : screen.OnScreen) :
    screen.position < cells := by
  have column := onScreen.column
  have row := onScreen.row
  simp only [Display.position, cells, maxRows, maxCols] at *
  omega

section Printing

variable {screen : Display} (onScreen : screen.OnScreen) {c : Byte}

include onScreen in
/-- A character is written at the cursor, and the cursor is advanced by one cell. -/
theorem advance_char (char : c ≠ 0x0A) :
    (advance c screen).cursorX < maxCols ∧ (advance c screen).position = screen.position + 1 ∧
      (∀ index, (advance c screen).cell index =
        if index = screen.position then (c, screen.currentColor) else screen.cell index) ∧
      (advance c screen).currentColor = screen.currentColor := by
  have column := onScreen.column
  have written := kprintCharAt_cell c screen.cursorX screen.cursorY screen
  simp only [advance, if_neg char]
  split
  · next wraps =>
      refine ⟨(by decide : 0 < maxCols), ?_, written, rfl⟩
      simp only [Display.position, kprintCharAt, maxCols] at *
      omega
  · next stays =>
      refine ⟨Nat.lt_of_not_ge stays, ?_, written, rfl⟩
      simp only [Display.position, kprintCharAt]
      omega

theorem advance_newline (screen : Display) :
    advance 0x0A screen = { screen with cursorX := 0, cursorY := screen.cursorY + 1 } := by
  simp only [advance, ↓reduceIte]
  exact if_neg (by decide)

include onScreen in
/-- A backspace goes back one cell, if there is one, and blanks it. -/
theorem eraseChar_spec :
    (eraseChar screen).OnScreen ∧ (eraseChar screen).position = screen.position - 1 ∧
      (∀ index, (eraseChar screen).cell index =
        if index = screen.position - 1 then screen.blank else screen.cell index) ∧
      (eraseChar screen).currentColor = screen.currentColor := by
  obtain ⟨column, row⟩ := onScreen
  unfold eraseChar
  simp only [maxCols, maxRows] at column row
  have spec : ∀ moved : Display, moved.OnScreen → moved.position = screen.position - 1 →
      moved.vidmem = screen.vidmem → moved.currentColor = screen.currentColor →
      (kprintCharAt 0x20 moved.cursorX moved.cursorY moved).OnScreen ∧
      (kprintCharAt 0x20 moved.cursorX moved.cursorY moved).position = screen.position - 1 ∧
      (∀ index, (kprintCharAt 0x20 moved.cursorX moved.cursorY moved).cell index =
        if index = screen.position - 1 then screen.blank else screen.cell index) ∧
      (kprintCharAt 0x20 moved.cursorX moved.cursorY moved).currentColor =
        screen.currentColor := by
    intro moved bounds position memory color
    refine ⟨⟨bounds.column, bounds.row⟩, position, fun index => ?_, color⟩
    have place : moved.cursorY * maxCols + moved.cursorX = screen.position - 1 := position
    rw [kprintCharAt_cell, place, color, Display.cell, memory]
    rfl
  split
  · exact spec _ ⟨by simp only [maxCols]; omega, row⟩
      (by simp only [Display.position]; omega) rfl rfl
  · split
    · exact spec _ ⟨(by decide : maxCols - 1 < maxCols), by simp only [maxRows]; omega⟩
        (by simp only [Display.position, maxCols]; omega) rfl rfl
    · exact spec _ ⟨column, row⟩ (by simp only [Display.position, maxCols]; omega) rfl rfl

end Printing

/-! ### The cells behind the cursor -/

/-- The controller shows the cursor where it is, and nothing is behind it. -/
structure Display.Clean (screen : Display) : Prop extends screen.OnScreen where
  hardware : screen.hardwareCursor = screen.position
  behind : ∀ index, screen.position ≤ index → index < cells → screen.cell index = screen.blank

theorem Display.Clean.update {screen : Display} (onScreen : screen.OnScreen)
    (behind : ∀ index, screen.position ≤ index → index < cells →
      screen.cell index = screen.blank) : (updateCursor screen).Clean where
  column := onScreen.column
  row := onScreen.row
  hardware := updateCursor_hardwareCursor (Nat.lt_trans onScreen.position (by decide))
  behind := behind

theorem clearScreen_clean (screen : Display) : (clearScreen screen).Clean := by
  refine Display.Clean.update ⟨(by decide : 0 < maxCols), (by decide : 0 < maxRows)⟩
    fun index _ inside => ?_
  simp only [cells, maxRows, maxCols] at inside
  simp only [Display.cell, maxRows, maxCols]
  rw [if_pos (by omega), if_pos (by omega)]
  exact blankByte_cell ..

/-- The end of `kprint_char`: the screen is scrolled if the cursor is one row below it. -/
theorem settle_clean {screen : Display} (column : screen.cursorX < maxCols)
    (behind : ∀ index, screen.position ≤ index → index < cells →
      screen.cell index = screen.blank) :
    (updateCursor (if screen.cursorY ≥ maxRows then scroll screen else screen)).Clean := by
  split
  · refine Display.Clean.update ⟨column, (by decide : maxRows - 1 < maxRows)⟩
      fun index inRange inside => ?_
    rw [scroll_cell screen inside]
    refine if_neg ?_
    simp only [Display.position, scroll, cells, maxRows, maxCols] at *
    omega
  · next within => exact Display.Clean.update ⟨column, Nat.lt_of_not_ge within⟩ behind

theorem Display.Clean.kprintChar {screen : Display} (clean : screen.Clean) (c : Byte) :
    (kprintChar screen c).Clean := by
  unfold Screen.kprintChar
  split
  · obtain ⟨onScreen, position, cells, color⟩ := eraseChar_spec clean.toOnScreen
    refine Display.Clean.update onScreen fun index inRange inside => ?_
    have blank : (eraseChar screen).blank = screen.blank := congrArg (Prod.mk _) color
    rw [position] at inRange
    rw [cells, blank]
    split
    · rfl
    · next differ => exact clean.behind index (by omega) inside
  · by_cases newline : c = 0x0A
    · subst newline
      rw [advance_newline]
      have column := clean.column
      refine settle_clean (by decide : 0 < maxCols) fun index inRange inside => ?_
      refine clean.behind index (Nat.le_trans ?_ inRange) inside
      simp only [Display.position, maxCols] at *
      omega
    · obtain ⟨column, position, cells, color⟩ := advance_char clean.toOnScreen newline
      have blank : (advance c screen).blank = screen.blank := congrArg (Prod.mk _) color
      refine settle_clean column fun index inRange inside => ?_
      rw [position] at inRange
      rw [cells, blank, if_neg (by omega)]
      exact clean.behind index (by omega) inside

theorem Display.Clean.print {screen : Display} (clean : screen.Clean) (text : List Byte) :
    (print text screen).Clean := by
  induction text generalizing screen with
  | nil => exact clean
  | cons c rest ih => exact ih (clean.kprintChar c)

/-! ### Text before the cursor -/

/-- The text stands in the cells from `base` on, and the cursor right behind it. -/
structure Display.Shows (screen : Display) (base : Nat) (text : List Byte) : Prop where
  cursor : base + text.length = screen.position
  letters : ∀ index c, text[index]? = some c →
    screen.cell (base + index) = (c, screen.currentColor)

theorem Display.Shows.nil {screen : Display} : screen.Shows screen.position [] :=
  ⟨rfl, fun _ _ none => absurd none (by simp)⟩

section Shows

variable {screen : Display} {base : Nat} {text : List Byte}

/-- A character is added; if the screen is scrolled, the text is one row further up. -/
theorem Display.Shows.kprintChar (clean : screen.Clean) (shows : screen.Shows base text)
    (short : text.length + maxCols < cells) {c : Byte} (plain : c ≠ 0x0A ∧ c ≠ 0x08) :
    maxCols * (scrolls c screen).toNat ≤ base ∧
      (kprintChar screen c).Shows (base - maxCols * (scrolls c screen).toNat) (text ++ [c]) := by
  obtain ⟨column, position, written, color⟩ := advance_char clean.toOnScreen plain.1
  have inside := clean.toOnScreen.position
  have cursor := shows.cursor
  have added : ∀ index d, (text ++ [c])[index]? = some d →
      (advance c screen).cell (base + index) = (d, screen.currentColor) ∧
        index ≤ text.length := by
    intro index d found
    rw [written]
    rcases Nat.lt_trichotomy index text.length with before | here | beyond
    · rw [List.getElem?_append_left before] at found
      rw [if_neg (by omega)]
      exact ⟨shows.letters index d found, Nat.le_of_lt before⟩
    · subst here
      rw [List.getElem?_concat_length] at found
      rw [if_pos cursor, Option.some.inj found]
      exact ⟨rfl, Nat.le_refl _⟩
    · rw [List.getElem?_eq_none (by rw [List.length_append, List.length_singleton]; omega)] at found
      cases found
  have scrolls_eq : scrolls c screen = decide ((advance c screen).cursorY ≥ maxRows) := by
    simp only [scrolls, plain.2, ne_eq, not_false_eq_true, true_and]
  rw [Screen.kprintChar, if_neg plain.2, scrolls_eq]
  simp only
  split
  · next beyond =>
      rw [decide_eq_true beyond, Bool.toNat_true, Nat.mul_one]
      simp only [Display.position, Screen.cells, maxRows, maxCols] at *
      refine ⟨by omega, ?_, fun index d found => ?_⟩
      · rw [updateCursor_position, List.length_append, List.length_singleton]
        simp only [Display.position, scroll, maxRows, maxCols]
        omega
      · obtain ⟨same, bound⟩ := added index d found
        rw [updateCursor_cell, scroll_cell _ (by simp only [Screen.cells, maxRows, maxCols]; omega),
          if_pos (by simp only [Screen.cells, maxRows, maxCols]; omega),
          show base - 80 + index + 80 = base + index by omega, same]
        exact congrArg (Prod.mk d) color.symm
  · next within =>
      rw [decide_eq_false within, Bool.toNat_false, Nat.mul_zero, Nat.sub_zero]
      refine ⟨Nat.zero_le _, ?_, fun index d found => ?_⟩
      · rw [updateCursor_position, position, List.length_append, List.length_singleton]
        omega
      · rw [updateCursor_cell, (added index d found).1]
        exact congrArg (Prod.mk d) color.symm

theorem Display.Shows.print (clean : screen.Clean) (shows : screen.Shows base text)
    {more : List Byte} (short : text.length + more.length + maxCols ≤ cells)
    (plain : ∀ c ∈ more, c ≠ 0x0A ∧ c ≠ 0x08) :
    maxCols * scrolled more screen ≤ base ∧
      (print more screen).Shows (base - maxCols * scrolled more screen) (text ++ more) := by
  induction more generalizing screen base text with
  | nil => exact ⟨Nat.zero_le _, by rwa [List.append_nil]⟩
  | cons c rest ih =>
      rw [List.length_cons] at short
      obtain ⟨room, one⟩ := shows.kprintChar clean (by omega) (plain c (List.mem_cons_self ..))
      obtain ⟨more, others⟩ := ih (clean.kprintChar c) one
        (by rw [List.length_append, List.length_singleton]; omega)
        fun other member => plain other (List.mem_cons_of_mem _ member)
      rw [Nat.sub_sub, ← Nat.mul_add, ← List.append_cons] at others
      refine ⟨?_, others⟩
      rw [scrolled, Nat.mul_add]
      omega

/-- A backspace removes the last character. -/
theorem Display.Shows.erase {c : Byte} (clean : screen.Clean)
    (shows : screen.Shows base (text ++ [c])) :
    (Screen.kprintChar screen 0x08).Shows base text := by
  obtain ⟨_, position, cells, color⟩ := eraseChar_spec clean.toOnScreen
  have cursor := shows.cursor
  rw [List.length_append, List.length_singleton] at cursor
  refine ⟨?_, fun index d found => ?_⟩
  · rw [Screen.kprintChar, if_pos rfl, updateCursor_position, position]
    omega
  · have inside := (List.getElem?_eq_some_iff.mp found).1
    rw [Screen.kprintChar, if_pos rfl, updateCursor_cell, cells, if_neg (by omega),
      shows.letters index d (by rw [List.getElem?_append_left inside, found])]
    exact congrArg (Prod.mk d) color.symm

theorem print_append (first second : List Byte) (screen : Display) :
    Screen.print (first ++ second) screen = Screen.print second (Screen.print first screen) :=
  List.foldl_append

theorem scrolled_append (first second : List Byte) (screen : Display) :
    scrolled (first ++ second) screen =
      scrolled first screen + scrolled second (Screen.print first screen) := by
  induction first generalizing screen with
  | nil => exact (Nat.zero_add _).symm
  | cons c rest ih => rw [List.cons_append, scrolled, scrolled, ih, Nat.add_assoc]; rfl

theorem scrolled_backspaces (count : Nat) (screen : Display) :
    scrolled (List.replicate count 0x08) screen = 0 := by
  induction count generalizing screen with
  | zero => rfl
  | succ count ih => rw [List.replicate_succ, scrolled, ih]; rfl

/-- As many backspaces as the end of the text has characters remove it. -/
theorem Display.Shows.eraseAll {ending : List Byte} (clean : screen.Clean)
    (shows : screen.Shows base (text ++ ending)) :
    (Screen.print (List.replicate ending.length 0x08) screen).Shows base text := by
  induction ending using List.reverseRecOn generalizing screen with
  | nil => rwa [List.append_nil] at shows
  | append_singleton rest c ih =>
      rw [← List.append_assoc] at shows
      rw [List.length_append, List.length_singleton, List.replicate_succ]
      exact ih (clean.kprintChar 0x08) (shows.erase clean)

end Shows

end MxOS.Screen
