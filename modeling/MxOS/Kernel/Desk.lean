import MxOS.Drivers.FsReplies
import MxOS.Kernel.ShellArguments

/-! # The machine at its console

What somebody at the keyboard has of the machine: a line editor that remembers the lines
entered, a set of named files, and the text printed so far. Every key moves this desk in
one way only, but for the room on the disk, about which the answer to a `write` tells, and
for the commands that are not about files.

The kernel's machine stays in step with the desk along every run: what a key does to the
directory, the bitmap, the sectors of the disk and the buffers of the shell is what the
desk shows.
-/

namespace MxOS.Shell

open ByteMemory Ata Fs Lines Input Sched Exec

/-! ### The desk -/

structure Desk where
  reference : Reference
  files : Files
  console : List Byte

/-- What a line asks for, as far as files are concerned. -/
inductive FileCommand where
  | list
  | display (name : List Byte)
  | remove (name : List Byte)
  | store (name content : List Byte)
  | other
  deriving DecidableEq

/-- The arguments of `write`: a name and the rest of the line behind a space. -/
def storeCommand (args : List Byte) : FileCommand :=
  match args.dropWhile (· ≠ space) with
  | [] => .other
  | _ :: content => .store (args.takeWhile (· ≠ space)) content

def fileCommand (line : List Byte) : FileCommand :=
  let text := line.takeWhile (· ≠ 0)
  if text = literal "ls" then .list
  else if literal "cat " <+: text then .display (text.drop 4)
  else if literal "rm " <+: text then .remove (text.drop 3)
  else if literal "write " <+: text then storeCommand ((text.drop 6).dropWhile (· = space))
  else .other

/-- The name of a file to be written fits into a directory entry. -/
def FileCommand.Short : FileCommand → Prop
  | .store name _ => name.length ≤ 23
  | _ => True

instance FileCommand.Short.decidable : (command : FileCommand) → Decidable command.Short
  | .store name _ => inferInstanceAs (Decidable (name.length ≤ 23))
  | .list | .display _ | .remove _ | .other => isTrue trivial

def listing (names : List (List Byte)) : List Byte :=
  literal "Fichiers sur MxOS :\n" ++
    names.flatMap fun name => literal "- " ++ name ++ literal "\n"

/-- What a command prints and what it does to the files. -/
inductive FileCommand.Does (files : Files) : FileCommand → List Byte → Files → Prop where
  | list {names : List (List Byte)} : names.Nodup →
      (∀ name, name ∈ names ↔ (files name).isSome) →
      FileCommand.Does files .list (listing names) files
  | display (name : List Byte) :
      FileCommand.Does files (.display name) (files.readReply name) files
  | remove (name : List Byte) : FileCommand.Does files (.remove name) (files.deleteReply name)
      (Function.update files name none)
  | storeNothing (name : List Byte) :
      FileCommand.Does files (.store name []) (literal "Parametres invalides.\n") files
  | store {name content reply : List Byte} {after : Files} : content ≠ [] →
      Files.Write true name content files reply after →
      FileCommand.Does files (.store name content) reply after
  | other (text : List Byte) : FileCommand.Does files .other text files

/-- The content of the history file when the given lines have been entered. -/
def historyContent (entered : List (List Byte)) : List Byte :=
  (joined newline (recent entered)).take saveCap

/-- Entering a line writes the history file, unless the line is empty. -/
def Desk.Saves (desk : Desk) (note : List Byte) (saved : Files) : Prop :=
  if desk.reference.line = [] then note = [] ∧ saved = desk.files
  else Files.Write false historyFile.bytes (historyContent desk.reference.enter.entered)
    desk.files note saved

/-- The text a key prints that is not Enter. -/
def Reference.echo (c : Byte) (reference : Reference) : List Byte :=
  let redrawn := List.replicate reference.line.length backspace ++ (reference.press c).line
  if c = backspace then if reference.line = [] then [] else [c]
  else if c = keyArrowUp then if reference.entered = [] then [] else redrawn
  else if c = keyArrowDown then if reference.navigation = none then [] else redrawn
  else if reference.line.length < 255 then [c]
  else []

/-- One key at the desk. -/
inductive Desk.Press (desk : Desk) : Byte → Desk → Prop where
  | edit {c : Byte} : c ≠ newline →
      Desk.Press desk c
        ⟨desk.reference.press c, desk.files, desk.console ++ desk.reference.echo c⟩
  | enter {note reply : List Byte} {saved after : Files} : desk.Saves note saved →
      (fileCommand desk.reference.line).Does saved reply after →
      Desk.Press desk newline
        ⟨desk.reference.enter, after,
          desk.console ++ literal "\n" ++ note ++ reply ++ literal "\n> "⟩

/-- What the desk shows of an event: a key does what it does, and other tasks may print. -/
inductive Desk.Move (desk : Desk) : Event → Desk → Prop where
  | key {c : Byte} {after : Desk} : desk.Press c after → Desk.Move desk (.key c) after
  | act (action : Act) : Desk.Move desk (.act action) desk
  | elsewhere (memory : Memory) (fs : State) (text : List Byte) :
      Desk.Move desk (.elsewhere memory fs) { desk with console := desk.console ++ text }

/-- The machine shows the desk. -/
structure Shown (system : System) (desk : Desk) : Prop where
  tracks : Tracks system.editor desk.reference
  filed : Filed system.machine.fs desk.files
  console : system.machine.fs.console = desk.console

/-- The names of files to be written fit into the directory, and other tasks print but do not
touch the disk. -/
def Event.Proper : Event → System → Prop
  | .key c, system => c = newline → (fileCommand system.editor.inputLine).Short
  | .act _, _ => True
  | .elsewhere _ fs, system => ∃ text, Reads system.machine.fs text fs

/-! ### Editing -/

theorem redrawInputLine_reads {shell : Session} {idx : Nat} (same : shell.bufferIdx = idx)
    (newLen : Nat) (fs : State) :
    Reads fs (List.replicate idx backspace ++ (redrawInputLine newLen shell fs).1.inputLine)
      (redrawInputLine newLen shell fs).2 := by
  have shown : (redrawInputLine newLen shell fs).1.inputLine =
      (List.range newLen).map fun index => shell.inputBuffer (Fin.ofNat 256 index) := by
    simp only [redrawInputLine, Session.inputLine, slice, Nat.zero_add]
  rw [shown, ← same]
  exact (reads_kprint _ fs).trans (reads_kprint _ _)

section Edit

variable {editor : Editor} {reference : Reference}

theorem historyUp_reads (remembered : editor.historyCount ≠ 0) (fs : State) :
    Reads fs (List.replicate editor.bufferIdx backspace ++ (historyUp editor fs).1.inputLine)
      (historyUp editor fs).2 := by
  unfold historyUp
  rw [if_neg remembered]
  refine redrawInputLine_reads ?_ _ fs
  simp only
  split
  · rfl
  · split <;> rfl

theorem historyDown_reads (navigating : editor.historyNav ≠ -1) (fs : State) :
    Reads fs (List.replicate editor.bufferIdx backspace ++ (historyDown editor fs).1.inputLine)
      (historyDown editor fs).2 := by
  unfold historyDown
  rw [if_neg navigating]
  split
  · apply redrawInputLine_reads
    rfl
  · apply redrawInputLine_reads
    rfl

/-- A key prints what it changes of the line. -/
theorem Tracks.edit_reads (tracks : Tracks editor reference) {c : Byte} (key : c ≠ newline)
    (fs : State) : Reads fs (reference.echo c) (Shell.edit c editor fs).2 := by
  have pressed := (tracks.edit key fs).line
  have length := tracks.length
  have count := tracks.remembers.count
  have navigates := tracks.navigates
  unfold Reference.echo
  rw [← pressed, length]
  unfold Shell.edit
  by_cases erases : c = Shell.backspace
  · simp only [erases, ↓reduceIte]
    by_cases empty : reference.line = []
    · rw [if_pos empty, if_neg (by rw [← length, empty]; exact Nat.lt_irrefl 0)]
      exact .refl fs
    · rw [if_neg empty, if_pos (length ▸ List.length_pos_iff.mpr empty)]
      exact reads_kprint _ fs
  · simp only [erases, ↓reduceIte]
    by_cases older : c = keyArrowUp
    · simp only [older, ↓reduceIte]
      by_cases empty : reference.entered = []
      · rw [if_pos empty, historyUp, if_pos (by rw [count, empty]; rfl)]
        exact .refl fs
      · have positive := List.length_pos_iff.mpr empty
        rw [if_neg empty]
        exact historyUp_reads (by omega) fs
    · simp only [older, ↓reduceIte]
      by_cases newer : c = keyArrowDown
      · simp only [newer, ↓reduceIte]
        cases navigating : reference.navigation with
        | none =>
            rw [navigating] at navigates
            rw [if_pos rfl, historyDown, if_pos (show editor.historyNav = -1 from navigates)]
            exact .refl fs
        | some past =>
            rw [navigating] at navigates
            obtain ⟨position, _⟩ := navigates
            rw [if_neg (Option.some_ne_none past)]
            exact historyDown_reads (by omega) fs
      · simp only [newer, ↓reduceIte]
        split
        · exact reads_kprint _ fs
        · exact .refl fs

end Edit

/-! ### Recognising the commands -/

section Recognise

variable {buffer : Buffer} {line rest : List Byte}

theorem isCommand_iff {command : String} (nulFree : 0 ∉ literal command) :
    isCommand buffer command = true ↔ (textAt buffer 0).bytes = literal command := by
  rw [isCommand, decide_eq_true_eq]
  exact mStrcmp_eq_zero_iff (textAt buffer 0).nulFree nulFree

theorem mStrncmp_eq_zero_iff {text word : List Byte} (nulFree : 0 ∉ word) :
    mStrncmp text word word.length = 0 ↔ word <+: text := by
  induction word generalizing text with
  | nil =>
      refine iff_of_true ?_ (List.nil_prefix)
      cases text <;> rfl
  | cons c word ih =>
      obtain ⟨nonzero, free⟩ := not_or.mp fun either => nulFree (List.mem_cons.mpr either)
      cases text with
      | nil =>
          refine iff_of_false ?_ (by simp)
          have value : c.toNat ≠ 0 := fun zero => nonzero (BitVec.eq_of_toNat_eq zero.symm)
          rw [List.length_cons, mStrncmp]
          omega
      | cons d text =>
          rw [List.length_cons, mStrncmp, List.cons_prefix_cons]
          by_cases same : d = c
          · rw [if_pos same, ih free]
            simp [same]
          · have values : d.toNat ≠ c.toNat := fun equal => same (BitVec.eq_of_toNat_eq equal)
            rw [if_neg same]
            refine iff_of_false (by omega) fun both => same both.1.symm

theorem startsCommand_iff {command : String} (nulFree : 0 ∉ literal command) :
    startsCommand buffer command = true ↔ literal command <+: (textAt buffer 0).bytes := by
  have length : command.length = (literal command).length := by
    rw [literal, List.length_map, String.length_toList]
  rw [startsCommand, decide_eq_true_eq, length]
  exact mStrncmp_eq_zero_iff nulFree

/-- The line up to its first zero is the string that the commands are compared with. -/
theorem holdsAt_text (holds : HoldsAt buffer 0 (line ++ [0])) :
    HoldsAt buffer 0 (line.takeWhile (· ≠ 0) ++ [0]) ∧
      (textAt buffer 0).bytes = line.takeWhile (· ≠ 0) := by
  have start : HoldsAt buffer 0 (line.takeWhile (· ≠ 0) ++ [0]) := by
    cases rest : line.dropWhile (· ≠ 0) with
    | nil =>
        have whole := @List.takeWhile_append_dropWhile _ (fun c : Byte => decide (c ≠ 0)) line
        rw [rest, List.append_nil] at whole
        rwa [whole]
    | cons c more =>
        have stops := List.head_dropWhile_not (fun c : Byte => decide (c ≠ 0))
          (l := line) (by rw [rest]; exact List.cons_ne_nil c more)
        simp only [rest, List.head_cons] at stops
        obtain rfl : c = 0 := by simpa using stops
        have parts := @List.takeWhile_append_dropWhile _ (fun c : Byte => decide (c ≠ 0)) line
        rw [rest, ← List.singleton_append, ← List.append_assoc] at parts
        rw [← parts] at holds
        exact holds.left.left
  refine ⟨start, start.textAt fun zero => ?_⟩
  exact absurd (List.mem_takeWhile_imp zero) (by decide)

end Recognise

/-! ### The commands about files -/

section Commands

variable {layout : ShellLayout} {drive : Drive} {system after : System} {files : Files}
  {line rest : List Byte}

theorem fsList_does {fs : State} (filed : Filed fs files) :
    ∃ reply, FileCommand.Does files .list reply files ∧ Reads fs reply (fsList fs) := by
  let slots := (List.finRange 32).filter fun slot => validName (fs.root.files slot).name
  let names := slots.map fun slot => storedBytes (fs.root.files slot).name
  have live : ∀ slot, slot ∈ slots ↔ fs.root.Live slot := by
    intro slot
    rw [List.mem_filter]
    exact and_iff_right (List.mem_finRange slot)
  have distinct : names.Nodup := by
    apply List.Nodup.map_on _ ((List.nodup_finRange 32).filter _)
    intro first here second there same
    exact filed.represents.distinct first second ((live first).mp here) ((live second).mp there)
      same
  have all : ∀ name, name ∈ names ↔ (files name).isSome := by
    intro name
    rw [List.mem_map, Option.isSome_iff_exists]
    constructor
    · rintro ⟨slot, member, rfl⟩
      obtain ⟨content, present, _⟩ := filed.represents.stored slot ((live slot).mp member)
      exact ⟨content, present⟩
    · rintro ⟨content, present⟩
      obtain ⟨slot, alive, same⟩ := filed.represents.listed name content present
      exact ⟨slot, (live slot).mpr alive, same⟩
  refine ⟨listing names, .list distinct all, ?_⟩
  rw [listing, List.flatMap_map]
  exact reads_kprint _ fs

theorem runCommand_list (text : (textAt system.editor.inputBuffer 0).bytes = literal "ls") :
    runCommand layout drive system =
      some { system with machine.fs := fsList system.machine.fs } := by
  have spelled : (textAt system.editor.inputBuffer 0).bytes = 0x6C :: [0x73] := text
  unfold runCommand
  simp only
  rw [isCommand_of_ne spelled "help" (by decide), if_neg Bool.false_ne_true,
    isCommand_of_ne spelled "clear" (by decide), if_neg Bool.false_ne_true,
    isCommand_of_ne spelled "ver" (by decide), if_neg Bool.false_ne_true,
    (isCommand_iff (by decide)).mpr text, if_pos rfl]

theorem runCommand_display
    (text : (textAt system.editor.inputBuffer 0).bytes = literal "cat " ++ rest) :
    runCommand layout drive system = some { system with
      machine.fs := fsReadFile drive (some (textAt system.editor.inputBuffer 4))
        system.machine.fs } := by
  have spelled : (textAt system.editor.inputBuffer 0).bytes =
      0x63 :: 0x61 :: (literal "t " ++ rest) := text
  have notClear : isCommand system.editor.inputBuffer "clear" = false := by
    rw [← Bool.not_eq_true, isCommand_iff (by decide), spelled]
    intro same
    exact absurd (List.cons.inj (List.cons.inj same).2).1 (by decide)
  unfold runCommand
  simp only
  rw [isCommand_of_ne spelled "help" (by decide), if_neg Bool.false_ne_true,
    notClear, if_neg Bool.false_ne_true,
    isCommand_of_ne spelled "ver" (by decide), if_neg Bool.false_ne_true,
    isCommand_of_ne spelled "ls" (by decide), if_neg Bool.false_ne_true,
    startsCommand_self "cat " text, if_pos rfl]

theorem runCommand_remove
    (text : (textAt system.editor.inputBuffer 0).bytes = literal "rm " ++ rest) :
    runCommand layout drive system = some { system with
      machine.fs := (fsDeleteFile drive (some (textAt system.editor.inputBuffer 3))
        system.machine.fs).2 } := by
  have spelled : (textAt system.editor.inputBuffer 0).bytes =
      0x72 :: (literal "m " ++ rest) := text
  unfold runCommand
  simp only
  rw [isCommand_of_ne spelled "help" (by decide), if_neg Bool.false_ne_true,
    isCommand_of_ne spelled "clear" (by decide), if_neg Bool.false_ne_true,
    isCommand_of_ne spelled "ver" (by decide), if_neg Bool.false_ne_true,
    isCommand_of_ne spelled "ls" (by decide), if_neg Bool.false_ne_true,
    startsCommand_of_ne spelled "cat " (by decide), if_neg Bool.false_ne_true,
    startsCommand_self "rm " text, if_pos rfl]

theorem runCommand_store
    (text : (textAt system.editor.inputBuffer 0).bytes = literal "write " ++ rest) :
    runCommand layout drive system = some (runWrite drive system) := by
  have spelled : (textAt system.editor.inputBuffer 0).bytes =
      0x77 :: (literal "rite " ++ rest) := text
  unfold runCommand
  simp only
  rw [isCommand_of_ne spelled "help" (by decide), if_neg Bool.false_ne_true,
    isCommand_of_ne spelled "clear" (by decide), if_neg Bool.false_ne_true,
    isCommand_of_ne spelled "ver" (by decide), if_neg Bool.false_ne_true,
    isCommand_of_ne spelled "ls" (by decide), if_neg Bool.false_ne_true,
    startsCommand_of_ne spelled "cat " (by decide), if_neg Bool.false_ne_true,
    startsCommand_of_ne spelled "rm " (by decide), if_neg Bool.false_ne_true,
    startsCommand_of_ne spelled "exec " (by decide), if_neg Bool.false_ne_true,
    isCommand_of_ne spelled "ps" (by decide), if_neg Bool.false_ne_true,
    startsCommand_of_ne spelled "kill " (by decide), if_neg Bool.false_ne_true,
    startsCommand_of_ne spelled "priority " (by decide), if_neg Bool.false_ne_true,
    startsCommand_self "write " text, if_pos rfl]

/-- The loop that looks for the end of the name stops at a space or at the end of the text. -/
theorem scanWhile_name {buffer : Buffer} {p : Nat} {word : List Byte} {c : Byte}
    (holds : HoldsAt buffer p (word ++ [c])) (nulFree : 0 ∉ word) (oneWord : space ∉ word)
    (ends : c = 0 ∨ c = space) :
    scanWhile (fun c => c ≠ 0 ∧ c ≠ space) buffer p = p + word.length := by
  apply holds.scanWhile
  · intro d member
    exact decide_eq_true ⟨fun zero => nulFree (zero ▸ member),
      fun blank => oneWord (blank ▸ member)⟩
  · rcases ends with rfl | rfl
    · decide
    · decide

/-- `write` carries out what its line says. -/
theorem runWrite_does (reliable : drive.Reliable) (filed : Filed system.machine.fs files)
    (holds : HoldsAt system.editor.inputBuffer 6 (rest ++ [0])) (nulFree : 0 ∉ rest)
    (short : (storeCommand (rest.dropWhile (· = space))).Short) :
    ∃ reply next, (storeCommand (rest.dropWhile (· = space))).Does files reply next ∧
      Filed (runWrite drive system).machine.fs next ∧
      (runWrite drive system).machine.fs.console = system.machine.fs.console ++ reply := by
  obtain ⟨spaces, skipped, _, held, start⟩ := holds.skipSpaces
  have argsFree : 0 ∉ rest.dropWhile (· = space) := fun zero =>
    nulFree ((List.dropWhile_sublist _).subset zero)
  generalize rest.dropWhile (· = space) = args at held start argsFree short ⊢
  have word : space ∉ args.takeWhile (· ≠ space) := fun member => by
    have passes := List.mem_takeWhile_imp member
    simp at passes
  have parts := @List.takeWhile_append_dropWhile _ (fun c : Byte => decide (c ≠ space)) args
  unfold runWrite storeCommand
  unfold storeCommand at short
  simp only [skipped]
  cases behind : args.dropWhile (· ≠ space) with
  | nil =>
      rw [behind, List.append_nil] at parts
      rw [parts] at word
      have stop := scanWhile_name held argsFree word (Or.inl rfl)
      have ends : byteAt system.editor.inputBuffer (6 + spaces + args.length) ≠ space := by
        rw [held.right.head]
        decide
      rw [stop, if_neg ends]
      exact ⟨_, files, .other _, filed.reads (reads_kprint _ _), rfl⟩
  | cons c content =>
      have stops := List.head_dropWhile_not (fun c : Byte => decide (c ≠ space))
        (l := args) (by rw [behind]; exact List.cons_ne_nil c content)
      simp only [behind, List.head_cons] at stops
      obtain rfl : c = space := by simpa using stops
      rw [behind] at parts short
      generalize args.takeWhile (· ≠ space) = name at word parts short ⊢
      obtain rfl := parts
      have nonempty : name ≠ [] := by
        rintro rfl
        exact start rfl
      have nameFree : 0 ∉ name := fun zero => argsFree (List.mem_append_left _ zero)
      have contentFree : 0 ∉ content := fun zero =>
        argsFree (List.mem_append_right _ (List.mem_cons_of_mem _ zero))
      rw [List.append_assoc, List.cons_append] at held
      have first : HoldsAt system.editor.inputBuffer (6 + spaces) (name ++ [space]) := by
        rw [← List.singleton_append, ← List.append_assoc] at held
        exact held.left
      have stop := scanWhile_name first nameFree word (Or.inr rfl)
      obtain ⟨named, remains⟩ := held.terminate
      simp only [stop, first.right.head, ↓reduceIte]
      have given := named.textAt nameFree
      have text := remains.textAt contentFree
      generalize Function.update system.editor.inputBuffer
        (Fin.ofNat 256 (6 + spaces + name.length)) 0 = ended at named remains given text ⊢
      rw [text]
      by_cases empty : content = []
      · subst empty
        refine ⟨_, files, .storeNothing name, ?_⟩
        have refused : fsWriteFile drive (some (textAt ended (6 + spaces)))
            (some fun index => byteAt ended (6 + spaces + name.length + 1 + index))
            (BitVec.ofNat 32 ([] : List Byte).length) system.machine.fs =
              (false, kprint (literal "Parametres invalides.\n") system.machine.fs) := by
          unfold fsWriteFile fsWriteFileImpl
          rw [usable_some (by rw [given]; exact nonempty)]
          rfl
        simp only [refused]
        exact ⟨filed.reads (reads_kprint _ _), rfl⟩
      · have fits := remains.fits
        rw [List.length_append, List.length_singleton] at fits
        have written := filed.write reliable (by rw [given]; exact nonempty)
          (by rw [given]; exact short) empty (by omega)
          (fun index inside => remains.left.bytes index _ (List.getElem?_eq_getElem inside)) true
        obtain ⟨reply, next, wrote, kept, console⟩ := written
        rw [given] at wrote
        exact ⟨reply, next, .store empty wrote, kept, console⟩

/-! ### The other commands -/

theorem startTask_reads {command : Exec.Command} {slot : Fin 4} {entry : Word}
    {machine : Machine} {answer : Option (Fin 16) × Machine}
    (ran : startTask layout.toExecLayout command slot entry machine = some answer) :
    ∃ text, Reads machine.fs text answer.2.fs := by
  unfold startTask at ran
  simp only at ran
  split at ran
  · cases ran
  · obtain rfl := Option.some.inj ran
    exact ⟨_, reads_kprint _ _⟩
  · obtain rfl := Option.some.inj ran
    exact ⟨[], .refl _⟩

theorem execRun_reads {command : Exec.Command} {machine : Machine}
    {answer : Option (Fin 16) × Machine}
    (ran : execRun layout.toExecLayout drive command machine = some answer) :
    ∃ text, Reads machine.fs text answer.2.fs := by
  unfold execRun at ran
  split at ran
  · obtain rfl := Option.some.inj ran
    exact ⟨_, reads_kprint _ _⟩
  · next slot _ =>
      unfold launch at ran
      simp only at ran
      obtain ⟨text, loads⟩ := fsLoadFile_reads drive (some command.name)
        (some (machine.setMemory (clearWindow (slotBase slot) machine.memory)).elfStaging)
        userProgMaxSize machine.fs
      split at ran
      · obtain rfl := Option.some.inj ran
        exact ⟨text, loads⟩
      · unfold finishLaunch at ran
        split at ran
        · obtain rfl := Option.some.inj ran
          exact ⟨_, loads.trans (reads_kprint _ _)⟩
        · obtain ⟨more, starts⟩ := startTask_reads ran
          exact ⟨_, loads.trans starts⟩

theorem runExec_reads (ran : runExec layout drive system = some after) :
    ∃ text, Reads system.machine.fs text after.machine.fs := by
  unfold runExec at ran
  simp only at ran
  split at ran
  · obtain rfl := Option.some.inj ran
    exact ⟨_, reads_kprint _ _⟩
  · obtain ⟨answer, launched, rfl⟩ := Option.map_eq_some_iff.mp ran
    exact execRun_reads launched

theorem runKill_reads (system : System) :
    ∃ text, Reads system.machine.fs text (runKill system).machine.fs := by
  unfold runKill
  simp only
  split
  · exact ⟨_, reads_kprint _ _⟩
  · split
    · exact ⟨_, reads_kprint _ _⟩
    · exact ⟨_, reads_kprint _ _⟩

theorem runPriority_reads (system : System) :
    ∃ text, Reads system.machine.fs text (runPriority system).machine.fs := by
  unfold runPriority
  simp only
  split
  · exact ⟨_, reads_kprint _ _⟩
  · split
    · split
      · exact ⟨_, reads_kprint _ _⟩
      · exact ⟨_, reads_kprint _ _⟩
    · split
      · exact ⟨_, reads_kprint _ _⟩
      · exact ⟨_, reads_kprint _ _⟩

/-- A line that is none of the commands about files keeps them. -/
theorem runCommand_reads (ran : runCommand layout drive system = some after)
    (list : isCommand system.editor.inputBuffer "ls" = false)
    (display : startsCommand system.editor.inputBuffer "cat " = false)
    (remove : startsCommand system.editor.inputBuffer "rm " = false)
    (store : startsCommand system.editor.inputBuffer "write " = false) :
    ∃ text, Reads system.machine.fs text after.machine.fs := by
  have prints : ∀ {next : System} {text : List Byte}, Reads system.machine.fs text next.machine.fs →
      some next = some after → ∃ text, Reads system.machine.fs text after.machine.fs := by
    intro next text reads same
    obtain rfl := Option.some.inj same
    exact ⟨text, reads⟩
  unfold runCommand at ran
  simp only [list, display, remove, store, Bool.false_eq_true, ↓reduceIte] at ran
  refine link ran (prints (reads_kprint _ _)) fun ran => ?_
  refine link ran (prints (.refl _)) fun ran => ?_
  refine link ran (prints (reads_kprint _ _)) fun ran => ?_
  refine link ran runExec_reads fun ran => ?_
  refine link ran (prints (reads_kprint _ _)) fun ran => ?_
  refine link ran (fun kill => Option.some.inj kill ▸ runKill_reads system) fun ran => ?_
  refine link ran (fun priority => Option.some.inj priority ▸ runPriority_reads system)
    fun ran => ?_
  refine link ran (fun mem => ?_) fun ran => ?_
  · obtain ⟨stats, _, rfl⟩ := Option.map_eq_some_iff.mp mem
    exact ⟨_, reads_kprint _ _⟩
  refine link ran (prints (reads_kprint _ _)) fun ran => ?_
  refine link ran (fun reboot => ?_) fun ran => ?_
  · cases reboot
  exact link ran (prints (reads_kprint _ _)) (prints (.refl _))

/-- Every command does to the files, and prints, what its line says. -/
theorem runCommand_does (reliable : drive.Reliable) (filed : Filed system.machine.fs files)
    (holds : HoldsAt system.editor.inputBuffer 0 (line ++ [0]))
    (short : (fileCommand line).Short)
    (ran : runCommand layout drive system = some after) :
    ∃ reply next, (fileCommand line).Does files reply next ∧ Filed after.machine.fs next ∧
      after.machine.fs.console = system.machine.fs.console ++ reply := by
  obtain ⟨held, text⟩ := holdsAt_text holds
  have nulFree := (textAt system.editor.inputBuffer 0).nulFree
  rw [text] at nulFree
  unfold fileCommand at short ⊢
  simp only at short ⊢
  generalize line.takeWhile (· ≠ 0) = typed at held text nulFree short ⊢
  have behind : ∀ {word rest : List Byte}, typed = word ++ rest →
      HoldsAt system.editor.inputBuffer word.length (rest ++ [0]) ∧ 0 ∉ rest := by
    intro word rest same
    rw [same, List.append_assoc] at held
    have tail := held.right
    rw [Nat.zero_add] at tail
    exact ⟨tail, fun zero => nulFree (same ▸ List.mem_append_right _ zero)⟩
  by_cases lists : typed = literal "ls"
  · rw [runCommand_list (text.trans lists)] at ran
    obtain rfl := Option.some.inj ran
    rw [if_pos lists]
    obtain ⟨reply, does, reads⟩ := fsList_does filed
    exact ⟨reply, files, does, filed.reads reads, reads.console⟩
  · rw [if_neg lists] at short ⊢
    by_cases displays : literal "cat " <+: typed
    · rw [if_pos displays]
      obtain ⟨rest, rfl⟩ := displays
      obtain ⟨tail, free⟩ := behind rfl
      rw [runCommand_display text] at ran
      obtain rfl := Option.some.inj ran
      have named : (textAt system.editor.inputBuffer 4).bytes = rest := tail.textAt free
      have reads := filed.read reliable (textAt system.editor.inputBuffer 4)
      rw [named] at reads
      exact ⟨_, files, .display rest, filed.reads reads, reads.console⟩
    · rw [if_neg displays] at short ⊢
      by_cases removes : literal "rm " <+: typed
      · rw [if_pos removes]
        obtain ⟨rest, rfl⟩ := removes
        obtain ⟨tail, free⟩ := behind rfl
        rw [runCommand_remove text] at ran
        obtain rfl := Option.some.inj ran
        have named : (textAt system.editor.inputBuffer 3).bytes = rest := tail.textAt free
        obtain ⟨kept, console⟩ :=
          filed.delete reliable (textAt system.editor.inputBuffer 3) true
        rw [named] at kept console
        exact ⟨_, _, .remove rest, kept, console⟩
      · rw [if_neg removes] at short ⊢
        by_cases stores : literal "write " <+: typed
        · rw [if_pos stores] at short ⊢
          obtain ⟨rest, rfl⟩ := stores
          obtain ⟨tail, free⟩ := behind rfl
          rw [runCommand_store text] at ran
          obtain rfl := Option.some.inj ran
          exact runWrite_does reliable filed tail free short
        · rw [if_neg stores]
          obtain ⟨reply, reads⟩ := runCommand_reads ran
            (by rwa [← Bool.not_eq_true, isCommand_iff (by decide), text])
            (by rwa [← Bool.not_eq_true, startsCommand_iff (by decide), text])
            (by rwa [← Bool.not_eq_true, startsCommand_iff (by decide), text])
            (by rwa [← Bool.not_eq_true, startsCommand_iff (by decide), text])
          exact ⟨reply, files, .other reply, filed.reads reads, reads.console⟩

end Commands

/-! ### Entering a line -/

theorem historyContent_ne_nil (entered : List (List Byte)) (line : List Byte) :
    historyContent (entered ++ [line]) ≠ [] := by
  have last : recent (entered ++ [line]) =
      (entered.drop (entered.length + 1 - 8)) ++ [line] := by
    rw [recent, List.length_append, List.length_singleton, List.drop_append_of_le_length (by omega)]
  rw [historyContent, last, joined_append, joined_singleton]
  intro empty
  have length := congrArg List.length empty
  rw [List.length_take, List.length_append, List.length_append, List.length_singleton,
    show saveCap = 2047 from rfl, List.length_nil] at length
  omega

section Enter

variable {layout : ShellLayout} {drive : Drive} {system after : System} {desk : Desk}
  (reliable : drive.Reliable)
include reliable

theorem historySave_writes {fs : State} {files : Files} (filed : Filed fs files) {shell : Session}
    {entered : List (List Byte)} (remembers : Remembers shell entered)
    (something : historyContent entered ≠ []) :
    ∃ note saved, Files.Write false historyFile.bytes (historyContent entered) files note saved ∧
      Filed (historySave drive shell fs).2 saved ∧
      (historySave drive shell fs).2.console = fs.console ++ note := by
  have text : historyText shell = historyContent entered := remembers.historyText
  have short : (historyContent entered).length ≤ 2047 := by
    rw [historyContent, List.length_take]
    exact Nat.min_le_left ..
  unfold historySave
  simp only [text, List.length_eq_zero_iff, something, ↓reduceIte]
  obtain ⟨cleared, silent⟩ := filed.delete reliable historyFile false
  have named : historyFile.bytes ≠ [] := by decide
  have fits : historyFile.bytes.length ≤ 23 := by decide
  obtain ⟨note, saved, written, kept, console⟩ := cleared.write reliable named fits
    something (by omega)
    (fun index inside => show (historyContent entered).getD index 0 = _ by
      rw [List.getD_eq_getElem?_getD, List.getElem?_eq_getElem inside, Option.getD_some]) false
  rw [if_neg Bool.false_ne_true, List.append_nil] at silent
  rw [silent] at console
  refine ⟨note, saved, ?_, kept, console⟩
  -- The file is deleted before it is written, which the write does again.
  cases written with
  | stored =>
      rw [Function.update_idem]
      exact .stored
  | noSpace =>
      rw [Function.update_idem]
      exact .noSpace
  | directoryFull =>
      rw [Function.update_idem]
      exact .directoryFull

theorem Shown.saves (shown : Shown system desk) :
    ∃ note saved, desk.Saves note saved ∧ Filed (system.enter drive).machine.fs saved ∧
      (system.enter drive).machine.fs.console = desk.console ++ literal "\n" ++ note := by
  have printed := reads_kprint (literal "\n") system.machine.fs
  have filed := shown.filed.reads printed
  have length := shown.tracks.length
  obtain ⟨entered, _⟩ := shown.tracks.enterLine drive (kprint (literal "\n") system.machine.fs)
  have stored : (system.enter drive).machine.fs =
      (enterLine drive system.editor (kprint (literal "\n") system.machine.fs)).2 := rfl
  rw [stored, ← shown.console, ← printed.console]
  unfold Desk.Saves
  unfold enterLine at entered ⊢
  simp only at entered ⊢
  by_cases empty : desk.reference.line = []
  · have zero : ¬ system.editor.bufferIdx > 0 := by
      rw [← length, empty]
      exact Nat.lt_irrefl 0
    simp only [empty, zero, ↓reduceIte]
    exact ⟨[], desk.files, ⟨rfl, rfl⟩, filed, (List.append_nil _).symm⟩
  · have positive : system.editor.bufferIdx > 0 := length ▸ List.length_pos_iff.mpr empty
    rw [if_pos positive] at entered
    simp only [empty, positive, ↓reduceIte]
    have remembers := entered.remembers
    refine historySave_writes reliable filed ⟨remembers.count, remembers.lines⟩ ?_
    rw [Reference.enter, if_neg empty]
    exact historyContent_ne_nil _ _

/-- Enter at the machine is Enter at the desk. -/
theorem Shown.enter (shown : Shown system desk)
    (short : (fileCommand system.editor.inputLine).Short)
    (ran : shellExecute layout drive system = some after) :
    ∃ next, desk.Press newline next ∧ Shown after next := by
  obtain ⟨note, saved, saves, filed, noted⟩ := shown.saves reliable
  obtain ⟨carried, commanded, rfl⟩ := Option.map_eq_some_iff.mp ran
  have line := shown.tracks.line
  have fits : desk.reference.line.length ≤ 255 := by
    rw [shown.tracks.length]
    exact shown.tracks.idx
  rw [line] at short
  obtain ⟨reply, files, does, kept, replied⟩ := runCommand_does reliable filed
    (enter_holds fits line drive) short commanded
  refine ⟨_, .enter saves does, ?_, kept.reads (reads_kprint _ _), ?_⟩
  · obtain ⟨buffer, same⟩ := (runCommand_carried commanded).buffered
    obtain ⟨entered, _⟩ := shown.tracks.enterLine drive
      (kprint (literal "\n") system.machine.fs)
    have cleared := entered.clear buffer
    change Tracks { carried.editor with bufferIdx := 0 } desk.reference.enter
    rw [same]
    exact cleared
  · change carried.machine.fs.console ++ literal "\n> " = _
    rw [replied, noted]

/-- Every event at the machine is one at the desk. -/
theorem Shown.step {event : Event} (shown : Shown system desk) (proper : event.Proper system)
    (stepped : event.step layout drive system = some after) :
    ∃ next, desk.Move event next ∧ Shown after next := by
  cases event with
  | act action =>
      obtain ⟨kernel, _, rfl⟩ := Option.map_eq_some_iff.mp stepped
      exact ⟨desk, .act action, shown.tracks, shown.filed, shown.console⟩
  | elsewhere memory fs =>
      obtain rfl := Option.some.inj stepped
      obtain ⟨text, reads⟩ := proper
      refine ⟨_, .elsewhere memory fs text, shown.tracks, shown.filed.reads reads, ?_⟩
      rw [← shown.console]
      exact reads.console
  | key c =>
      change shellUpdate layout drive c system = some after at stepped
      unfold shellUpdate at stepped
      split at stepped
      · next enter =>
          subst enter
          obtain ⟨next, pressed, shows⟩ := shown.enter reliable (proper rfl) stepped
          exact ⟨next, .key pressed, shows⟩
      · next key =>
          obtain rfl := Option.some.inj stepped
          have reads := shown.tracks.edit_reads key system.machine.fs
          refine ⟨_, .key (.edit key), shown.tracks.edit key system.machine.fs,
            shown.filed.reads reads, ?_⟩
          rw [← shown.console]
          exact reads.console

end Enter

end MxOS.Shell
