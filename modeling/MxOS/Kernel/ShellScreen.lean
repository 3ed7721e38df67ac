import MxOS.Kernel.ShellRefinement

/-! # The command line on the screen

A key other than Enter prints what it changes of the input line: a character, a
backspace, or as many backspaces as the line has characters and a new line. None of the
characters of a line that was typed moves the cursor otherwise, and so the line stands
behind the prompt on the screen, even if that has been scrolled meanwhile.
-/

namespace MxOS.Shell

open ByteMemory Ata Fs Lines Input Screen

/-! ### Characters that the screen shows -/

/-- No character of the text moves the cursor otherwise than by one cell. -/
def Plain (text : List Byte) : Prop := ∀ c ∈ text, c ≠ newline ∧ c ≠ backspace

structure Reference.Typed (reference : Reference) : Prop where
  line : Plain reference.line
  entered : ∀ line ∈ reference.entered, Plain line
  saved : ∀ steps saved, reference.navigation = some (steps, saved) → Plain saved

section Typed

variable {reference : Reference}

theorem Reference.Typed.navigate (typed : reference.Typed) (steps : Nat) {saved : List Byte}
    (plain : Plain saved) : (reference.navigate steps saved).Typed where
  line := by
    unfold Reference.navigate
    cases found : reference.recallable[steps]? with
    | none =>
        rw [Option.getD_none]
        exact fun c member => absurd member List.not_mem_nil
    | some line =>
        rw [Option.getD_some]
        have member := List.mem_of_mem_take (List.mem_of_getElem? found)
        exact typed.entered line (List.mem_reverse.mp member)
  entered := typed.entered
  saved := fun _ _ same => (Prod.mk.inj (Option.some.inj same)).2 ▸ plain

/-- The editor holds plain text only, whatever is pressed. -/
theorem Reference.Typed.press (typed : reference.Typed) (c : Byte) :
    (reference.press c).Typed := by
  unfold Reference.press
  split
  · refine ⟨fun c member => absurd member List.not_mem_nil, fun line member => ?_,
      fun _ _ same => absurd same.symm (Option.some_ne_none _)⟩
    rw [Reference.enter] at member
    split at member
    · exact typed.entered line member
    · rcases List.mem_append.mp member with before | last
      · exact typed.entered line before
      · exact List.mem_singleton.mp last ▸ typed.line
  · next notEnter =>
      split
      · exact ⟨fun c member => typed.line c (List.mem_of_mem_dropLast member), typed.entered,
          typed.saved⟩
      · next notBackspace =>
          split
          · unfold Reference.up
            split
            · exact typed
            · split
              · exact typed.navigate 0 typed.line
              · next steps saved navigation =>
                  split
                  · exact typed.navigate _ (typed.saved steps saved navigation)
                  · exact typed.navigate _ (typed.saved steps saved navigation)
          · split
            · unfold Reference.down
              split
              · exact typed
              · next saved navigation =>
                  exact ⟨typed.saved 0 saved navigation, typed.entered,
                    fun _ _ same => absurd same.symm (Option.some_ne_none _)⟩
              · next steps saved navigation =>
                  exact typed.navigate steps (typed.saved _ saved navigation)
            · unfold Reference.type
              split
              · refine ⟨fun d member => ?_, typed.entered, typed.saved⟩
                rcases List.mem_append.mp member with before | last
                · exact typed.line d before
                · rw [List.mem_singleton.mp last]
                  exact ⟨notEnter, notBackspace⟩
              · exact typed

theorem Reference.Typed.follow (typed : reference.Typed) (event : Event) :
    (reference.follow event).Typed := by
  cases event with
  | key c => exact typed.press c
  | act action => exact typed
  | elsewhere memory fs => exact typed

end Typed

/-! ### What a key prints -/

/-- What is printed to change the line on the screen. -/
inductive Redraw (line : List Byte) : List Byte → List Byte → Prop where
  | nothing : Redraw line [] line
  | erase {rest : List Byte} {c : Byte} : line = rest ++ [c] → Redraw line [backspace] rest
  | type (c : Byte) : Redraw line [c] (line ++ [c])
  | whole (next : List Byte) :
      Redraw line (List.replicate line.length backspace ++ next) next

/-- A key prints the change of the line. -/
def Prints (editor : Editor) (fs : State) (answer : Editor × State) : Prop :=
  ∃ out, answer.2 = kprint out fs ∧ Redraw editor.inputLine out answer.1.inputLine

theorem Session.length_inputLine (shell : Session) : shell.inputLine.length = shell.bufferIdx :=
  length_slice ..

/-- `redraw_input_line` erases the old line, of which only the length matters, and prints the new
one. -/
theorem redrawInputLine_prints (editor : Editor) {changed : Session}
    (length : changed.bufferIdx = editor.bufferIdx) (newLen : Nat) (fs : State) :
    ∃ out, (redrawInputLine newLen changed fs).2 = kprint out fs ∧
      Redraw editor.inputLine out (redrawInputLine newLen changed fs).1.inputLine := by
  have shown : (redrawInputLine newLen changed fs).1.inputLine =
      (List.range newLen).map fun index => changed.inputBuffer (Fin.ofNat 256 index) := by
    simp only [redrawInputLine, Session.inputLine, slice, Nat.zero_add]
  refine ⟨_, kprint_kprint .., ?_⟩
  rw [shown, length, ← editor.length_inputLine]
  exact .whole _

theorem recallLine_prints {editor moved : Editor} (same : moved.toSession = editor.toSession)
    (fs : State) : Prints editor fs (recallLine moved fs) := by
  have length : moved.bufferIdx = editor.bufferIdx := congrArg Session.bufferIdx same
  exact redrawInputLine_prints editor (by exact length) _ fs

theorem edit_prints (c : Byte) (editor : Editor) (short : editor.bufferIdx ≤ 255) (fs : State) :
    Prints editor fs (edit c editor fs) := by
  have unchanged : Prints editor fs (editor, fs) :=
    ⟨[], by rw [kprint, List.append_nil], .nothing⟩
  unfold edit
  split
  · next erases =>
      split
      · refine ⟨[c], rfl, ?_⟩
        obtain ⟨rest, length⟩ : ∃ rest, editor.bufferIdx = rest + 1 :=
          ⟨editor.bufferIdx - 1, by omega⟩
        subst erases
        refine .erase (c := editor.inputBuffer (Fin.ofNat 256 (0 + rest))) ?_
        simp only [Session.inputLine]
        rw [length, slice_succ]
        rfl
      · exact unchanged
  · split
    · unfold historyUp
      split
      · exact unchanged
      · simp only
        split
        · exact recallLine_prints (by rfl) fs
        · split
          · exact recallLine_prints (by rfl) fs
          · exact recallLine_prints rfl fs
    · split
      · unfold historyDown
        split
        · exact unchanged
        · split
          · exact redrawInputLine_prints editor (by rfl) _ fs
          · exact recallLine_prints (by rfl) fs
      · split
        · next room =>
            refine ⟨[c], rfl, ?_⟩
            have line : slice (fun index => Function.update editor.inputBuffer
                (Fin.ofNat 256 editor.bufferIdx) c (Fin.ofNat 256 index)) 0
                (editor.bufferIdx + 1) = editor.inputLine ++ [c] := by
              rw [slice_succ, slice_update_behind _ (by omega) (Nat.le_refl _), Nat.zero_add,
                Function.update_self]
              rfl
            simp only [Session.inputLine] at line ⊢
            rw [line]
            exact .type c
        · exact unchanged

/-! ### What the screen shows -/

/-- What is printed behind a text changes the line on the screen. -/
theorem Redraw.shows {line out next kept : List Byte} (redraw : Redraw line out next)
    {display : Display} (clean : display.Clean) {base : Nat}
    (shows : display.Shows base (kept ++ line)) (plain : Plain next)
    (short : kept.length + next.length + maxCols ≤ cells) :
    maxCols * scrolled out display ≤ base ∧
      (Screen.print out display).Shows (base - maxCols * scrolled out display) (kept ++ next) := by
  cases redraw with
  | nothing => exact ⟨Nat.zero_le _, shows⟩
  | erase last =>
      rw [last, ← List.append_assoc] at shows
      exact ⟨Nat.zero_le _, shows.erase clean⟩
  | type c =>
      rw [List.length_append] at short
      rw [← List.append_assoc]
      refine shows.print clean (by rw [List.length_append]; omega) fun other member => ?_
      exact plain other (List.mem_append_right _ member)
  | whole =>
      have erased := shows.eraseAll clean
      have written := erased.print (clean.print _) short plain
      have still : scrolled (List.replicate line.length backspace) display = 0 :=
        scrolled_backspaces line.length display
      rw [scrolled_append, still, Nat.zero_add, print_append]
      exact written

/-- A line that was typed in an earlier session. -/
structure TypedLine extends Command where
  noBackspace : backspace ∉ bytes

/-- The shell with the lines of earlier sessions in its history. -/
def restored (lines : List TypedLine) : Editor :=
  { Editor.initial with toSession := entered (lines.map TypedLine.toCommand) }

/-- The shell is in step with a reference editor that holds plain text only. -/
def Showable (editor : Editor) (reference : Reference) : Prop :=
  Tracks editor reference ∧ reference.Typed

theorem restored_showable (lines : List TypedLine) :
    Showable (restored lines) ⟨[], lines.map fun line => line.bytes, none⟩ := by
  have same : entered (lines.map TypedLine.toCommand) =
      (lines.map fun line => line.bytes).foldl push .initial := by
    rw [entered, List.map_map]
    rfl
  rw [restored, same]
  refine ⟨Tracks.lines fun line member => ?_, fun c member => absurd member List.not_mem_nil,
    fun line member => ?_, fun _ _ same => absurd same.symm (Option.some_ne_none _)⟩
  · obtain ⟨typed, _, rfl⟩ := List.mem_map.mp member
    exact typed.short
  · obtain ⟨typed, _, rfl⟩ := List.mem_map.mp member
    exact fun c inside => ⟨fun here => typed.oneLine (here ▸ inside),
      fun here => typed.noBackspace (here ▸ inside)⟩

theorem Showable.step {layout : ShellLayout} {drive : Drive} {event : Event}
    {system after : System} {reference : Reference} (showable : Showable system.editor reference)
    (stepped : event.step layout drive system = some after) :
    Showable after.editor (reference.follow event) :=
  ⟨showable.1.step stepped, showable.2.follow event⟩

/-- Along the keys other than Enter, the screen shows the text that stood before the line, and
the line. -/
theorem keys_shown {layout : ShellLayout} {drive : Drive} {keys : List Byte}
    (noEnter : newline ∉ keys) {system after : System} {reference : Reference}
    (showable : Showable system.editor reference)
    (ran : EventRun.run (Event.step layout drive) (keys.map .key) system = some after)
    {display : Display} (clean : display.Clean) {base : Nat} {kept : List Byte}
    (few : kept.length ≤ 100) (shows : display.Shows base (kept ++ system.editor.inputLine)) :
    ∃ out, after.machine.fs.console = system.machine.fs.console ++ out ∧
      after.cleared = system.cleared ∧ maxCols * scrolled out display ≤ base ∧
      (Screen.print out display).Shows (base - maxCols * scrolled out display)
        (kept ++ after.editor.inputLine) := by
  induction keys generalizing system reference display base with
  | nil =>
      obtain rfl := Option.some.inj ran
      exact ⟨[], (List.append_nil _).symm, rfl, Nat.zero_le _, shows⟩
  | cons c rest ih =>
      obtain ⟨next, stepped, later⟩ := Option.bind_eq_some_iff.mp ran
      have showable' := showable.step stepped
      have notEnter : c ≠ newline := fun same => noEnter (same ▸ List.mem_cons_self ..)
      obtain rfl : system.edit c = next := by
        change shellUpdate layout drive c system = some next at stepped
        rw [shellUpdate, if_neg notEnter] at stepped
        exact Option.some.inj stepped
      obtain ⟨out, printed, redraw⟩ :=
        edit_prints c system.editor showable.1.idx system.machine.fs
      have plain : Plain (system.edit c).editor.inputLine := showable'.1.line ▸ showable'.2.line
      have short : (system.edit c).editor.inputLine.length ≤ 255 := by
        rw [Session.length_inputLine]
        exact showable'.1.idx
      obtain ⟨room, shown⟩ := redraw.shows clean shows plain (by
        simp only [cells, maxRows, maxCols]
        change kept.length + (system.edit c).editor.inputLine.length + _ ≤ _
        omega)
      obtain ⟨more, console, cleared, further, last⟩ :=
        ih (fun member => noEnter (List.mem_cons_of_mem _ member)) showable' later
          (clean.print out) shown
      refine ⟨out ++ more, ?_, cleared, ?_, ?_⟩
      · rw [console, ← List.append_assoc]
        exact congrArg (fun fs : State => fs.console ++ more) printed
      · rw [scrolled_append, Nat.mul_add]
        omega
      · rw [scrolled_append, Nat.mul_add, ← Nat.sub_sub, print_append]
        exact last

def promptText : List Byte := literal "> "

/-- The prompt is the last that was printed since the screen was cleared, nothing is typed yet, and
any keys other than Enter are pressed. Then the cells behind the prompt, as many rows further up as
the screen has been scrolled, hold the input line; the hardware cursor is behind it, and all later
cells are blank. -/
theorem displayed_line_matches (layout : ShellLayout) (drive : Drive) (lines : List TypedLine)
    (start : System) (atStart : start.editor = restored lines) (events : List Event)
    (system : System)
    (reached : EventRun.run (Event.step layout drive) events start = some system)
    (empty : system.editor.bufferIdx = 0) (keys : List Byte) (noEnter : newline ∉ keys)
    (after : System)
    (ran : EventRun.run (Event.step layout drive) (keys.map .key) system = some after)
    (before : List Byte)
    (prompt : system.machine.fs.console.drop system.cleared = before ++ promptText)
    (boot : Display) :
    let prompted := system.screen boot
    let output := after.machine.fs.console.drop system.machine.fs.console.length
    let display := after.screen boot
    let base := prompted.position - maxCols * scrolled output prompted
    let stop := base + after.editor.bufferIdx
    2 ≤ base ∧ display.cell (base - 2) = (0x3E, display.currentColor) ∧
      display.cell (base - 1) = (0x20, display.currentColor) ∧
      (∀ index < after.editor.bufferIdx, display.cell (base + index) =
        (byteAt after.editor.inputBuffer index, display.currentColor)) ∧
      stop < cells ∧ display.hardwareCursor = stop ∧
      ∀ index, stop ≤ index → index < cells → display.cell index = display.blank := by
  intro prompted output display base stop
  have showable : Showable system.editor _ :=
    @EventRun.run_simulates _ _ (Event.step layout drive) _
      (fun system reference => Showable system.editor reference) Reference.follow
      (fun showable stepped => showable.step stepped) _ _ _
      (by rw [atStart]; exact restored_showable lines) _ reached
  have cleared := clearScreen_clean boot
  have line : system.editor.inputLine = [] := by
    rw [Session.inputLine, empty]
    rfl
  -- The prompt itself may be scrolled or wrapped when it is printed.
  obtain ⟨_, shows⟩ := Display.Shows.nil.print (cleared.print before) (by decide)
    (show ∀ c ∈ promptText, c ≠ 0x0A ∧ c ≠ 0x08 by decide)
  rw [List.nil_append] at shows
  have clean : prompted.Clean := cleared.print _
  have same : prompted = Screen.print promptText
      (Screen.print before (Screen.clearScreen boot)) := by
    simp only [prompted, System.screen]
    rw [prompt, print_append]
  rw [← same] at shows
  have cursor := shows.cursor
  generalize (Screen.print before (Screen.clearScreen boot)).position -
    maxCols * scrolled promptText (Screen.print before (Screen.clearScreen boot)) = place
    at shows cursor
  obtain ⟨out, console, unchanged, room, shown⟩ := keys_shown noEnter showable ran clean
    (show promptText.length ≤ 100 by decide) (by rw [line, List.append_nil]; exact shows)
  obtain rfl : output = out := by
    simp only [output]
    rw [console, List.drop_left]
  have length : promptText.length = 2 := rfl
  have printed : display = Screen.print output prompted := by
    have lengths := congrArg List.length prompt
    rw [List.length_drop, List.length_append, length] at lengths
    simp only [display, prompted, System.screen]
    rw [unchanged, console, List.drop_append_of_le_length (by omega), print_append]
  rw [← printed] at shown
  have base_eq : base = place - maxCols * scrolled output prompted + 2 := by
    simp only [base]
    omega
  have final : display.Clean := printed ▸ clean.print _
  have position : stop = display.position := by
    have ends := shown.cursor
    rw [List.length_append, Session.length_inputLine] at ends
    simp only [stop]
    omega
  refine ⟨by omega, ?_, ?_, fun index inside => ?_, ?_, ?_, ?_⟩
  · rw [show base - 2 = place - maxCols * scrolled output prompted + 0 by omega]
    exact shown.letters 0 _ rfl
  · rw [show base - 1 = place - maxCols * scrolled output prompted + 1 by omega]
    exact shown.letters 1 _ rfl
  · rw [base_eq, Nat.add_assoc]
    refine shown.letters (2 + index) _ ?_
    rw [List.getElem?_append_right (by omega), length, Nat.add_sub_cancel_left,
      Session.inputLine, getElem?_slice _ inside, Nat.zero_add]
    rfl
  · rw [position]
    exact final.toOnScreen.position
  · rw [position]
    exact final.hardware
  · rw [position]
    exact final.behind

/-- A letter is typed, the line of an earlier session recalled and continued. -/
theorem recalled_line_displayed :
    let ls : TypedLine := ⟨⟨literal "ls", by decide, by decide, by decide, by decide⟩, by decide⟩
    let machine : Exec.Machine :=
      ⟨Sched.booted (fun _ => 0) 100, { blankBoot with console := promptText }, fun _ => 0,
        fun _ => -1⟩
    let system : System := ⟨machine, restored [ls], 0⟩
    let boot : Display := ⟨fun _ => 0, 0, 0, 0x1F, ⟨0, fun _ => 0⟩⟩
    ∃ after, EventRun.run (Event.step imageShell readyDrive) ([0x61, keyArrowUp, 0x78].map .key)
        system = some after ∧
      after.editor.bufferIdx = 3 ∧ byteAt after.editor.inputBuffer 2 = 0x78 ∧
      (after.screen boot).hardwareCursor = (system.screen boot).position -
        maxCols * scrolled (after.machine.fs.console.drop 2) (system.screen boot) + 3 := by
  intro ls machine system boot
  have evaluated : (EventRun.run (Event.step imageShell readyDrive)
      ([0x61, keyArrowUp, 0x78].map .key) system).any (fun after =>
        after.editor.bufferIdx = 3 ∧ byteAt after.editor.inputBuffer 2 = 0x78) = true := by
    decide +kernel
  obtain ⟨after, ran, facts⟩ := (Option.any_eq_true ..).mp evaluated
  obtain ⟨three, last⟩ := of_decide_eq_true facts
  obtain ⟨_, _, _, _, _, cursor, _⟩ := displayed_line_matches imageShell readyDrive [ls]
    system rfl [] _ rfl rfl [0x61, keyArrowUp, 0x78] (by decide) after ran [] rfl boot
  rw [three] at cursor
  exact ⟨after, ran, three, last, cursor⟩

end MxOS.Shell
