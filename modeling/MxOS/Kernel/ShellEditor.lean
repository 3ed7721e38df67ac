import MxOS.Kernel.Keyboard
import MxOS.Kernel.ShellHistory

/-! # The line editor of the shell

The keys of `shell_update` other than Enter edit the input line or move through the
history. The source keeps the line in a fixed buffer, the history in a ring and the line
to return to in another buffer. A reference editor does the same on lists, and every key
keeps the two in step.
-/

namespace MxOS.Shell

open ByteMemory Ata Fs Lines Input

/-- The static variables of `kernel/shell.c`. -/
structure Editor extends Session where
  historyNav : Int
  savedLine : Fin 256 → Byte
  savedLineLen : Nat

def Editor.initial : Editor :=
  { Session.initial with historyNav := -1, savedLine := fun _ => 0, savedLineLen := 0 }

/-- The call `history_load(history_nav)`. -/
def recallLine (editor : Editor) (fs : State) : Editor × State :=
  let loaded := historyLoad editor.historyNav.toNat editor.toSession fs
  ({ editor with toSession := loaded.1 }, loaded.2)

def historyUp (editor : Editor) (fs : State) : Editor × State :=
  if editor.historyCount = 0 then (editor, fs)
  else
    let moved :=
      if editor.historyNav = -1 then
        { editor with
          savedLineLen := editor.bufferIdx
          savedLine := fun index =>
            if index.val < editor.bufferIdx then editor.inputBuffer index
            else editor.savedLine index
          historyNav := 0 }
      else if editor.historyNav + 1 < maxSteps editor.toSession then
        { editor with historyNav := editor.historyNav + 1 }
      else editor
    recallLine moved fs

def historyDown (editor : Editor) (fs : State) : Editor × State :=
  if editor.historyNav = -1 then (editor, fs)
  else if editor.historyNav = 0 then
    let restored :=
      { editor.toSession with
        inputBuffer := fun index =>
          if index.val < editor.savedLineLen then editor.savedLine index
          else editor.inputBuffer index }
    let drawn := redrawInputLine editor.savedLineLen restored fs
    ({ editor with toSession := drawn.1, historyNav := -1 }, drawn.2)
  else recallLine { editor with historyNav := editor.historyNav - 1 } fs

/-- The branches of `shell_update` for every key but Enter. -/
def edit (c : Byte) (editor : Editor) (fs : State) : Editor × State :=
  if c = backspace then
    if editor.bufferIdx > 0 then
      ({ editor with bufferIdx := editor.bufferIdx - 1 }, kprint [c] fs)
    else (editor, fs)
  else if c = keyArrowUp then historyUp editor fs
  else if c = keyArrowDown then historyDown editor fs
  else if editor.bufferIdx < 255 then
    ({ editor with
        inputBuffer := Function.update editor.inputBuffer (Fin.ofNat 256 editor.bufferIdx) c
        bufferIdx := editor.bufferIdx + 1 },
      kprint [c] fs)
  else (editor, fs)

/-- The beginning of `shell_execute`: the line is terminated and put in the history, and
navigation ends. -/
def enterLine (drive : Drive) (editor : Editor) (fs : State) : Editor × State :=
  let ended :=
    { editor with
      inputBuffer := Function.update editor.inputBuffer (Fin.ofNat 256 editor.bufferIdx) 0 }
  if ended.bufferIdx > 0 then
    let pushed := historyPush (fun index => ended.inputBuffer (Fin.ofNat 256 index))
      ended.bufferIdx ended.toSession
    ({ ended with toSession := pushed, historyNav := -1 }, (historySave drive pushed fs).2)
  else ({ ended with historyNav := -1 }, fs)

/-! ### The reference editor -/

/-- The line being typed, all lines entered before, oldest first, and during navigation how far
back it is and the line to return to. -/
structure Reference where
  line : List Byte
  entered : List (List Byte)
  navigation : Option (Nat × List Byte)

namespace Reference

/-- The last eight lines entered, newest first. -/
def recallable (reference : Reference) : List (List Byte) := reference.entered.reverse.take 8

/-- Navigate to a line of the past. -/
def navigate (steps : Nat) (saved : List Byte) (reference : Reference) : Reference :=
  { reference with
    line := reference.recallable[steps]?.getD []
    navigation := some (steps, saved) }

def up (reference : Reference) : Reference :=
  if reference.entered = [] then reference
  else
    match reference.navigation with
    | none => reference.navigate 0 reference.line
    | some (steps, saved) =>
        if steps + 1 < reference.recallable.length then reference.navigate (steps + 1) saved
        else reference.navigate steps saved

def down (reference : Reference) : Reference :=
  match reference.navigation with
  | none => reference
  | some (0, saved) => { reference with line := saved, navigation := none }
  | some (steps + 1, saved) => reference.navigate steps saved

def type (c : Byte) (reference : Reference) : Reference :=
  if reference.line.length < 255 then { reference with line := reference.line ++ [c] }
  else reference

def enter (reference : Reference) : Reference where
  line := []
  entered :=
    if reference.line = [] then reference.entered else reference.entered ++ [reference.line]
  navigation := none

/-- One key. -/
def press (c : Byte) (reference : Reference) : Reference :=
  if c = newline then reference.enter
  else if c = backspace then { reference with line := reference.line.dropLast }
  else if c = keyArrowUp then reference.up
  else if c = keyArrowDown then reference.down
  else reference.type c

end Reference

/-! ### The editors in step -/

/-- The first bytes of a buffer. -/
def Session.inputLine (shell : Session) : List Byte :=
  slice (fun index => shell.inputBuffer (Fin.ofNat 256 index)) 0 shell.bufferIdx

def Editor.saved (editor : Editor) : List Byte :=
  slice (fun index => editor.savedLine (Fin.ofNat 256 index)) 0 editor.savedLineLen

/-- Both are navigating, as far back and with the same line to return to, or neither is. -/
def Navigates (editor : Editor) (entered : List (List Byte)) : Option (Nat × List Byte) → Prop
  | none => editor.historyNav = -1
  | some (steps, saved) =>
      editor.historyNav = steps ∧ steps < min entered.length 8 ∧ editor.saved = saved

structure Tracks (editor : Editor) (reference : Reference) : Prop where
  idx : editor.bufferIdx ≤ 255
  lengths : ∀ slot, editor.historyLen slot ≤ 255
  savedLength : editor.savedLineLen ≤ 255
  line : editor.inputLine = reference.line
  remembers : Remembers editor.toSession reference.entered
  navigates : Navigates editor reference.entered reference.navigation

theorem Reference.length_recallable (reference : Reference) :
    reference.recallable.length = min reference.entered.length 8 := by
  rw [recallable, List.length_take, List.length_reverse, Nat.min_comm]

section Tracks

variable {editor : Editor} {reference : Reference}

theorem Tracks.length (tracks : Tracks editor reference) :
    reference.line.length = editor.bufferIdx := by
  rw [← tracks.line, Session.inputLine, length_slice]

/-- What the ring holds is what the reference recalls. -/
theorem Tracks.recallable (tracks : Tracks editor reference) {steps : Nat}
    (inside : steps < min reference.entered.length 8) :
    reference.recallable[steps]? =
      some (editor.line (slotBack editor.toSession steps)) := by
  have found := tracks.remembers.line_slotBack inside
  rw [Reference.recallable, List.getElem?_take_of_lt (by omega),
    List.getElem?_reverse (by omega), found]

/-- Bytes copied to the start of a buffer are read back from it. -/
theorem slice_copied (source target : Fin 256 → Byte) (length : Nat) :
    slice (fun index => (fun place : Fin 256 => if place.val < length then source place
      else target place) (Fin.ofNat 256 index)) 0 length =
      slice (fun index => source (Fin.ofNat 256 index)) 0 length := by
  refine List.map_congr_left fun index inRange => ?_
  have below := List.mem_range.mp inRange
  have small := Nat.mod_le (0 + index) 256
  exact if_pos (by rw [Fin.val_ofNat]; omega)

/-- Recalling a line that the ring still holds. -/
theorem Tracks.navigate (tracks : Tracks editor reference) {moved : Editor} {steps : Nat}
    {saved : List Byte} (same : moved.toSession = editor.toSession)
    (savedLength : moved.savedLineLen ≤ 255)
    (navigates : Navigates moved reference.entered (some (steps, saved))) (fs : State) :
    Tracks (recallLine moved fs).1 (reference.navigate steps saved) := by
  obtain ⟨position, inside, kept⟩ := navigates
  have number : moved.historyNav.toNat = steps := by omega
  have recalled := tracks.recallable inside
  refine ⟨?_, ?_, savedLength, ?_, ?_, position, inside, kept⟩
  · change moved.historyLen _ ≤ 255
    rw [same]
    exact tracks.lengths _
  · change ∀ slot, moved.historyLen slot ≤ 255
    rw [same]
    exact tracks.lengths
  · rw [Reference.navigate, recalled, Option.getD_some, ← same, ← number]
    exact recalled_eq moved.historyNav.toNat moved.toSession fs
  · have remembers := tracks.remembers
    rw [← same] at remembers
    exact ⟨remembers.count, remembers.lines⟩

theorem Tracks.up (tracks : Tracks editor reference) (fs : State) :
    Tracks (historyUp editor fs).1 reference.up := by
  have count := tracks.remembers.count
  unfold historyUp Reference.up
  by_cases empty : reference.entered = []
  · rw [if_pos empty, if_pos (by rw [count, empty]; rfl)]
    exact tracks
  · have positive := List.length_pos_iff.mpr empty
    rw [if_neg empty, if_neg (by omega)]
    have navigates := tracks.navigates
    simp only
    cases navigating : reference.navigation with
    | none =>
        rw [navigating] at navigates
        rw [if_pos (show editor.historyNav = -1 from navigates)]
        refine tracks.navigate (by rfl) tracks.idx ⟨rfl, by omega, ?_⟩ fs
        rw [← tracks.line]
        exact slice_copied editor.inputBuffer editor.savedLine editor.bufferIdx
    | some past =>
        obtain ⟨steps, saved⟩ := past
        rw [navigating] at navigates
        obtain ⟨position, inside, kept⟩ := navigates
        have length := reference.length_recallable
        have steps_eq := maxSteps_eq editor.toSession
        rw [count] at steps_eq
        rw [if_neg (by omega)]
        simp only
        by_cases further : steps + 1 < reference.recallable.length
        · rw [if_pos further, if_pos (by omega)]
          apply tracks.navigate (by rfl)
          · exact tracks.savedLength
          · refine ⟨?_, by omega, kept⟩
            simp only
            omega
        · rw [if_neg further, if_neg (by omega)]
          exact tracks.navigate (by rfl) tracks.savedLength ⟨position, inside, kept⟩ fs

theorem Tracks.down (tracks : Tracks editor reference) (fs : State) :
    Tracks (historyDown editor fs).1 reference.down := by
  have navigates := tracks.navigates
  unfold historyDown Reference.down
  cases navigating : reference.navigation with
  | none =>
      rw [navigating] at navigates
      rw [if_pos (show editor.historyNav = -1 from navigates)]
      exact tracks
  | some past =>
      obtain ⟨steps, saved⟩ := past
      rw [navigating] at navigates
      obtain ⟨position, inside, kept⟩ := navigates
      rw [if_neg (by omega)]
      cases steps with
      | zero =>
          rw [if_pos (show editor.historyNav = 0 from position)]
          refine ⟨tracks.savedLength, tracks.lengths, tracks.savedLength, ?_,
            ⟨tracks.remembers.count, tracks.remembers.lines⟩, rfl⟩
          rw [← kept]
          exact slice_copied editor.savedLine editor.inputBuffer editor.savedLineLen
      | succ steps =>
          rw [if_neg (by omega)]
          apply tracks.navigate (by rfl)
          · exact tracks.savedLength
          · refine ⟨?_, by omega, kept⟩
            simp only
            omega

theorem Tracks.backspace (tracks : Tracks editor reference) (fs : State) :
    Tracks (edit backspace editor fs).1 { reference with line := reference.line.dropLast } := by
  rw [edit, if_pos rfl, ← tracks.line]
  split
  · next positive =>
      refine ⟨Nat.le_trans (Nat.sub_le _ _) tracks.idx, tracks.lengths, tracks.savedLength, ?_,
        ⟨tracks.remembers.count, tracks.remembers.lines⟩, tracks.navigates⟩
      obtain ⟨rest, length⟩ : ∃ rest, editor.bufferIdx = rest + 1 :=
        ⟨editor.bufferIdx - 1, by omega⟩
      simp only [Session.inputLine]
      rw [length, slice_succ, List.dropLast_concat]
      rfl
  · next zero =>
      have empty : editor.inputLine = [] := by
        rw [Session.inputLine, Nat.eq_zero_of_not_pos zero]
        rfl
      rw [empty]
      exact ⟨tracks.idx, tracks.lengths, tracks.savedLength, empty, tracks.remembers,
        tracks.navigates⟩

/-- A byte stored behind the input line does not change it. -/
theorem slice_update_behind (buffer : Fin 256 → Byte) {length place : Nat} (inside : place < 256)
    (behind : length ≤ place) (c : Byte) :
    slice (fun index => Function.update buffer (Fin.ofNat 256 place) c (Fin.ofNat 256 index)) 0
      length = slice (fun index => buffer (Fin.ofNat 256 index)) 0 length := by
  refine List.map_congr_left fun index inRange => ?_
  have below := List.mem_range.mp inRange
  refine Function.update_of_ne (fun same => ?_) ..
  have values := congrArg Fin.val same
  simp only [Fin.val_ofNat] at values
  omega

theorem Tracks.type (tracks : Tracks editor reference) {c : Byte} (fs : State)
    (plain : c ≠ Shell.backspace ∧ c ≠ keyArrowUp ∧ c ≠ keyArrowDown) :
    Tracks (edit c editor fs).1 (reference.type c) := by
  rw [edit, if_neg plain.1, if_neg plain.2.1, if_neg plain.2.2, Reference.type, tracks.length]
  split
  · next room =>
      refine ⟨Nat.succ_le_of_lt room, tracks.lengths, tracks.savedLength, ?_,
        ⟨tracks.remembers.count, tracks.remembers.lines⟩, tracks.navigates⟩
      simp only [Session.inputLine]
      rw [slice_succ, slice_update_behind _ (by omega) (Nat.le_refl _), Nat.zero_add,
        Function.update_self, ← tracks.line]
      rfl
  · exact tracks

theorem Tracks.edit (tracks : Tracks editor reference) {c : Byte} (key : c ≠ newline)
    (fs : State) : Tracks (edit c editor fs).1 (reference.press c) := by
  rw [Reference.press, if_neg key]
  by_cases erases : c = Shell.backspace
  · subst erases
    exact tracks.backspace fs
  · rw [if_neg erases]
    by_cases older : c = keyArrowUp
    · rw [if_pos older, Shell.edit, if_neg erases, if_pos older]
      exact tracks.up fs
    · rw [if_neg older]
      by_cases newer : c = keyArrowDown
      · rw [if_pos newer, Shell.edit, if_neg erases, if_neg older, if_pos newer]
        exact tracks.down fs
      · rw [if_neg newer]
        exact tracks.type fs ⟨erases, older, newer⟩

theorem enterLine_inputBuffer (drive : Drive) (editor : Editor) (fs : State) :
    (enterLine drive editor fs).1.inputBuffer =
      Function.update editor.inputBuffer (Fin.ofNat 256 editor.bufferIdx) 0 := by
  unfold enterLine
  by_cases positive : editor.bufferIdx > 0
  · rw [if_pos positive]
    rfl
  · rw [if_neg positive]

theorem historyLen_historyPush (cmd : Nat → Byte) (len : Nat) (shell : Session)
    (lengths : ∀ slot, shell.historyLen slot ≤ 255) (slot : Fin 8) :
    (historyPush cmd len shell).historyLen slot ≤ 255 := by
  simp only [historyPush]
  by_cases here : slot = Fin.ofNat 8 shell.historyCount
  · rw [here, Function.update_self]
    split <;> omega
  · rw [Function.update_of_ne here]
    exact lengths slot

/-- A line that is entered is handed on with its terminator, and joins the history unless it is
empty. -/
theorem Tracks.enterLine (tracks : Tracks editor reference) (drive : Drive) (fs : State) :
    Tracks (enterLine drive editor fs).1 { reference.enter with line := reference.line } ∧
      (enterLine drive editor fs).1.bufferIdx = editor.bufferIdx ∧
      (enterLine drive editor fs).1.inputBuffer (Fin.ofNat 256 editor.bufferIdx) = 0 := by
  have idx := tracks.idx
  have length := tracks.length
  have kept : slice (fun index => Function.update editor.inputBuffer
      (Fin.ofNat 256 editor.bufferIdx) 0 (Fin.ofNat 256 index)) 0 editor.bufferIdx =
      reference.line := by
    rw [slice_update_behind _ (by omega) (Nat.le_refl _)]
    exact tracks.line
  unfold Shell.enterLine Reference.enter
  simp only
  split
  · next positive =>
      have nonempty : reference.line ≠ [] := List.ne_nil_of_length_pos (by omega)
      have same : historyPush (fun index => Function.update editor.inputBuffer
          (Fin.ofNat 256 editor.bufferIdx) 0 (Fin.ofNat 256 index)) editor.bufferIdx
          editor.toSession = push editor.toSession reference.line := by
        rw [push, length]
        apply historyPush_congr
        intro index inside
        rw [← kept, List.getD_eq_getElem?_getD, getElem?_slice _ inside, Nat.zero_add,
          Option.getD_some]
      have pushed := tracks.remembers.push (length ▸ idx)
      rw [← same] at pushed
      refine ⟨⟨idx, ?_, tracks.savedLength, kept, ?_, rfl⟩, rfl, Function.update_self ..⟩
      · exact historyLen_historyPush (fun _ => 0) editor.bufferIdx editor.toSession tracks.lengths
      · rw [if_neg nonempty]
        exact ⟨pushed.count, pushed.lines⟩
  · next zero =>
      have empty : reference.line = [] := List.eq_nil_of_length_eq_zero (by omega)
      refine ⟨⟨idx, tracks.lengths, tracks.savedLength, kept, ?_, rfl⟩, rfl,
        Function.update_self ..⟩
      rw [if_pos empty]
      exact ⟨tracks.remembers.count, tracks.remembers.lines⟩

/-- The end of `shell_execute`: the line is empty again, whatever the command left in the
buffer. -/
theorem Tracks.clear (tracks : Tracks editor reference) (buffer : Fin 256 → Byte) :
    Tracks { editor with inputBuffer := buffer, bufferIdx := 0 } { reference with line := [] } :=
  ⟨Nat.zero_le _, tracks.lengths, tracks.savedLength, rfl,
    ⟨tracks.remembers.count, tracks.remembers.lines⟩, tracks.navigates⟩

end Tracks

end MxOS.Shell
