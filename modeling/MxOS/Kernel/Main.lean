import MxOS.Kernel.Desk
import MxOS.Kernel.SchedCreation

/-! # From power-on to the prompt

`main_entry` of `kernel/init.c` mounts the disk, puts the programs of the image on it if
they are missing, starts the shell and then the tasks. Static memory is zero when it
starts; the rest of the memory holds anything.

The desk outlives the machine being switched off at the prompt: starting the machine again
brings back the files, the lines entered before as far as the history file holds them, and
the message of the day.
-/

namespace MxOS.Shell

open ByteMemory Ata Fs Lines Input Sched Exec

/-! ### `main_entry` -/

/-- The linker also places what `main_entry` starts. -/
structure MainLayout extends ShellLayout where
  taskClock : Word
  clockName : Word
  userTaskDemo : Word
  userDemoName : Word
  userDemoStack : Word

def userDemoStackSize : Word := 4096

def MainLayout.userDemoStackTop (layout : MainLayout) : Word :=
  layout.userDemoStack + userDemoStackSize

/-- Static memory is zero, nothing is printed yet. -/
def coldState (disk : Disk) : State where
  disk := disk
  root := RootDirectory.ofRaw fun _ => 0
  bitmap := fun _ => 0
  console := []

/-- The two creations at the end of `main_entry`. -/
def startTasks (layout : MainLayout) (kernel : Kernel) (fs : State) : Option (Kernel × State) :=
  match createTask layout.toLayout layout.taskClock layout.clockName kernel with
  | none => none
  | some (clock, kernel) =>
      let fs :=
        if clock.isNone then kprint (literal "Warning: unable to create clock task.\n") fs else fs
      match createUserTask layout.toLayout layout.userTaskDemo layout.userDemoName
        layout.userDemoStackTop userDemoStackSize kernel with
      | none => none
      | some (demo, kernel) =>
          some (kernel,
            if demo.isNone then kprint (literal "Warning: unable to create user demo task.\n") fs
            else fs)

/-- What is printed between the start of the shell and the first key. -/
def bootText : List Byte := literal "Enabling paging...\n" ++
  literal "Paging enabled (per-task isolation ready).\n" ++ literal "Initializing memory...\n" ++
  literal "Starting scheduler...\n"

/-- The machine when it starts to read keys. -/
def mainEntry (layout : MainLayout) (drive : Drive) (programs : Programs) (memory : Memory)
    (disk : Disk) : Option System :=
  let fs := kprint (literal "MxOS Kernel Loading...\n") (coldState disk)
  let fs := execSeedPrograms drive programs (fsInit drive fs)
  let shell := shellInit drive fs
  let fs := kprint bootText shell.2
  let kernel := initMultitasking layout.toLayout (booted memory 100)
  (startTasks layout kernel fs).map fun started =>
    { machine := ⟨started.1, started.2, fun _ => 0, fun _ => -1⟩
      editor := shell.1
      cleared := 0 }

/-! ### Sessions -/

/-- An event, or the machine is switched off at the prompt and on again, or it is restarted by
the command `reboot`. The memory is what the restarted machine finds. -/
inductive Turn where
  | event (given : Event)
  | power (memory : Memory)
  | reboot (memory : Memory)

/-- The line is entered; the command `reboot` then resets the machine. -/
def Turn.step (layout : MainLayout) (drive : Drive) (programs : Programs) :
    Turn → System → Option System
  | .event given, system => given.step layout.toShellLayout drive system
  | .power memory, system => mainEntry layout drive programs memory system.machine.fs.disk
  | .reboot memory, system =>
      if isCommand (system.enter drive).editor.inputBuffer "reboot" then
        mainEntry layout drive programs memory (system.enter drive).machine.fs.disk
      else none

/-! ### The desk when the machine starts -/

/-- A program of the image is written if there is no file of its name. -/
def Seeds (name image : List Byte) (files : Files) (note : List Byte) (after : Files) :
    Prop :=
  if (files name).isSome ∨ image = [] then note = [] ∧ after = files
  else Files.Write true name image files note after

/-- The part of a file in front of its padding. -/
def unpadded (content : List Byte) : List Byte := content.takeWhile (· ≠ 0)

/-- The lines that the history file brings back. -/
def savedLines (files : Files) : List (List Byte) :=
  match files historyFile.bytes with
  | none => []
  | some content =>
      if content.length ≤ 2048 then (pieces newline (unpadded content) []).map (List.take 255)
      else []

def tooLarge : List Byte := literal "Programme trop volumineux pour la zone de chargement.\n"

/-- What loading the history prints. -/
def historyNote (files : Files) : List Byte :=
  match files historyFile.bytes with
  | none => []
  | some content => if content.length ≤ 2048 then [] else tooLarge

/-- What is printed for the message of the day. -/
def motdText (files : Files) : List Byte :=
  match files motdFile.bytes with
  | none => []
  | some content =>
      if content.length ≤ 512 then
        literal "\n--- " ++ motdFile.bytes ++ literal " ---\n" ++ unpadded content ++ literal "\n"
      else tooLarge

/-- The desk after the machine was started with these files on its disk. -/
inductive Desk.Boot (programs : Programs) (files : Files) : Desk → Prop where
  | start {helloNote echoNote : List Byte} {first second : Files} :
      Seeds helloFile.bytes programs.hello files helloNote first →
      Seeds echoFile.bytes programs.echo first echoNote second →
      Desk.Boot programs files
        ⟨⟨[], savedLines second, none⟩, second,
          literal "MxOS Kernel Loading...\n" ++ helloNote ++ echoNote ++
            literal "\nMxOS Shell v1.0\nTapez 'help' pour la liste des commandes.\n" ++
            historyNote second ++ motdText second ++ literal "> " ++ bootText⟩

/-- One turn at the desk. -/
inductive Desk.Take (programs : Programs) (desk : Desk) : Turn → Desk → Prop where
  | event {given : Event} {after : Desk} : desk.Move given after →
      Desk.Take programs desk (.event given) after
  | power (memory : Memory) {after : Desk} : Desk.Boot programs desk.files after →
      Desk.Take programs desk (.power memory) after
  | reboot (memory : Memory) {note : List Byte} {saved : Files} {after : Desk} :
      desk.reference.line.takeWhile (· ≠ 0) = literal "reboot" → desk.Saves note saved →
      Desk.Boot programs saved after → Desk.Take programs desk (.reboot memory) after

def Turn.Proper : Turn → System → Prop
  | .event given, system => given.Proper system
  | _, _ => True

/-! ### Reading at the start -/

/-- The bytes in front of the first zero. -/
theorem slice_trimToFirstNul (buf : Nat → Byte) (size : Nat) :
    slice buf 0 (trimToFirstNul buf size) = unpadded (slice buf 0 size) := by
  unfold trimToFirstNul unpadded
  cases found : (List.range size).find? fun index => buf index = 0 with
  | none =>
      rw [Option.getD_none, List.takeWhile_eq_self_iff.mpr]
      intro c member
      obtain ⟨index, inRange, rfl⟩ := List.mem_map.mp member
      have nonzero := List.find?_eq_none.mp found index inRange
      rw [Nat.zero_add]
      simpa using nonzero
  | some stop =>
      obtain ⟨zero, inRange, before⟩ := List.find?_range_eq_some.mp found
      have inside := List.mem_range.mp inRange
      have text : ∀ c ∈ slice buf 0 stop, decide (c ≠ 0) = true := by
        intro c member
        obtain ⟨index, below, rfl⟩ := List.mem_map.mp member
        have nonzero := before index (List.mem_range.mp below)
        rw [Nat.zero_add]
        simpa using nonzero
      have split : slice buf 0 size =
          slice buf 0 stop ++ buf stop :: slice buf (stop + 1) (size - stop - 1) := by
        rw [← slice_cons, show size - stop - 1 + 1 = size - stop by omega,
          show size = stop + (size - stop) by omega, slice_add, Nat.zero_add,
          Nat.add_sub_cancel_left]
      rw [Option.getD_some, split, List.takeWhile_append_of_pos text,
        List.takeWhile_cons_of_neg (by simpa using zero), List.append_nil]

section Start

variable {drive : Drive} {fs : State} {files : Files} (reliable : drive.Reliable)
include reliable

/-- What a file read into zeroed memory looks like. -/
theorem fsLoadFile_text (filed : Filed fs files) {name : CString} (nonempty : name.bytes ≠ [])
    {content : List Byte} (present : files name.bytes = some content) {maxSize : Word}
    (fits : content.length ≤ maxSize.toNat) :
    let loaded := fsLoadFile drive (some name) (some fun _ => 0) maxSize fs
    loaded.ok = true ∧ Reads fs [] loaded.fs ∧
      slice loaded.dest 0 (trimToFirstNul loaded.dest (loaded.outSize.getD 0).toNat) =
        unpadded content := by
  intro loaded
  have load := filed.load reliable nonempty (fun _ => 0) maxSize
  rw [present] at load
  simp only [fits, ↓reduceIte] at load
  obtain ⟨ok, size, console, bytes⟩ := load
  obtain ⟨text, reads⟩ := fsLoadFile_reads drive (some name) (some fun _ => 0) maxSize fs
  obtain ⟨outSize, given, total⟩ := Option.map_eq_some_iff.mp size
  refine ⟨ok, ⟨reads.root, reads.bitmap, reads.sectors, by rw [List.append_nil]; exact console⟩, ?_⟩
  rw [slice_trimToFirstNul, show loaded.outSize = some outSize from given, Option.getD_some, total]
  congr 1
  refine slice_eq fun index inside => ?_
  rw [show loaded.dest index = _ from bytes index, List.getElem?_eq_getElem inside,
    Option.getD_some]

/-- Loading the history pushes the lines that the file holds. -/
theorem historyLoadFromDisk_savedLines (filed : Filed fs files) :
    (historyLoadFromDisk drive .initial fs).1 = (savedLines files).foldl push .initial ∧
      Reads fs (historyNote files) (historyLoadFromDisk drive .initial fs).2 := by
  have nonempty : historyFile.bytes ≠ [] := by decide
  have buffer : (BitVec.ofNat 32 (historySize * 256)).toNat = 2048 := by decide
  unfold historyLoadFromDisk savedLines historyNote
  rw [fsFileExists_eq nonempty, filed.lookup historyFile]
  cases present : files historyFile.bytes with
  | none =>
      simp only [Option.isSome_none, Bool.false_eq_true, ↓reduceIte, List.foldl_nil, true_and]
      exact .refl fs
  | some content =>
      simp only [Option.isSome_some, ↓reduceIte]
      by_cases fits : content.length ≤ 2048
      · rw [← buffer] at fits
        obtain ⟨ok, reads, text⟩ := fsLoadFile_text reliable filed nonempty present fits
        rw [buffer] at fits
        generalize fsLoadFile drive (some historyFile) (some fun _ => 0)
          (BitVec.ofNat 32 (historySize * 256)) fs = loaded at ok reads text
        obtain ⟨_, dest, outSize, after⟩ := loaded
        obtain rfl : _ = true := ok
        simp only [fits, ↓reduceIte]
        simp only at text reads
        refine ⟨?_, reads⟩
        rw [scan_push, text, List.foldl_map]
        congr 1
        funext shell command
        exact push_take shell command
      · have load := filed.load reliable nonempty (fun _ => 0) (BitVec.ofNat 32 (historySize * 256))
        obtain ⟨text, reads⟩ := fsLoadFile_reads drive (some historyFile) (some fun _ => 0)
          (BitVec.ofNat 32 (historySize * 256)) fs
        simp only [present, buffer, fits, ↓reduceIte] at load
        generalize fsLoadFile drive (some historyFile) (some fun _ => 0)
          (BitVec.ofNat 32 (historySize * 256)) fs = loaded at load reads
        obtain ⟨_, dest, outSize, after⟩ := loaded
        obtain ⟨rfl, console⟩ := load
        simp only [fits, ↓reduceIte, List.foldl_nil, true_and]
        exact ⟨reads.root, reads.bitmap, reads.sectors, console⟩

theorem shellShowMotd_reads (filed : Filed fs files) :
    Reads fs (motdText files) (shellShowMotd drive fs) := by
  have nonempty : motdFile.bytes ≠ [] := by decide
  have buffer : (512 : Word).toNat = 512 := by decide
  unfold shellShowMotd motdText
  rw [fsFileExists_eq nonempty, filed.lookup motdFile]
  cases present : files motdFile.bytes with
  | none =>
      simp only [Option.isSome_none, Bool.false_eq_true, ↓reduceIte]
      exact .refl fs
  | some content =>
      simp only [Option.isSome_some, ↓reduceIte]
      by_cases fits : content.length ≤ 512
      · rw [← buffer] at fits
        obtain ⟨ok, reads, text⟩ := fsLoadFile_text reliable filed nonempty present fits
        rw [buffer] at fits
        generalize fsLoadFile drive (some motdFile) (some fun _ => 0) 512 fs = loaded
          at ok reads text
        obtain ⟨_, dest, outSize, after⟩ := loaded
        obtain rfl : _ = true := ok
        simp only [fits, ↓reduceIte]
        simp only at text reads
        rw [text]
        exact reads.trans (reads_kprint _ after)
      · have load := filed.load reliable nonempty (fun _ => 0) 512
        obtain ⟨text, reads⟩ := fsLoadFile_reads drive (some motdFile) (some fun _ => 0) 512 fs
        simp only [present, buffer, fits, ↓reduceIte] at load
        generalize fsLoadFile drive (some motdFile) (some fun _ => 0) 512 fs = loaded at load reads
        obtain ⟨_, dest, outSize, after⟩ := loaded
        obtain ⟨rfl, console⟩ := load
        simp only [fits, ↓reduceIte]
        exact ⟨reads.root, reads.bitmap, reads.sectors, console⟩

theorem shellInit_shown (filed : Filed fs files) :
    Tracks (shellInit drive fs).1 ⟨[], savedLines files, none⟩ ∧
      Reads fs (literal "\nMxOS Shell v1.0\nTapez 'help' pour la liste des commandes.\n" ++
        historyNote files ++ motdText files ++ literal "> ") (shellInit drive fs).2 := by
  have greeted := reads_kprint
    (literal "\nMxOS Shell v1.0\nTapez 'help' pour la liste des commandes.\n") fs
  have filed' := filed.reads greeted
  obtain ⟨loaded, reads⟩ := historyLoadFromDisk_savedLines reliable filed'
  have shows := shellShowMotd_reads reliable (filed'.reads reads)
  refine ⟨?_, ((greeted.trans reads).trans shows).trans (reads_kprint _ _)⟩
  have short : ∀ line ∈ savedLines files, line.length ≤ 255 := by
    intro line member
    unfold savedLines at member
    split at member
    · cases member
    · split at member
      · obtain ⟨piece, _, rfl⟩ := List.mem_map.mp member
        exact List.length_take_le ..
      · cases member
  simp only [shellInit, loaded]
  exact (Tracks.lines short).clear _

/-- A program of the image is put on the disk. -/
theorem seedProgram_seeds (filed : Filed fs files) {name : CString} (nonempty : name.bytes ≠ [])
    (short : name.bytes.length ≤ 23) {image : List Byte} (small : image.length ≤ 0x100000) :
    ∃ note after, Seeds name.bytes image files note after ∧
      Filed (seedProgram drive name image fs) after ∧
      (seedProgram drive name image fs).console = fs.console ++ note := by
  unfold seedProgram Seeds
  rw [fsFileExists_eq nonempty, filed.lookup name]
  have size : BitVec.ofNat 32 image.length > 0 ↔ image ≠ [] := by
    rw [gt_iff_lt, BitVec.lt_def, BitVec.toNat_ofNat, ← List.length_pos_iff,
      show (0 : Word).toNat = 0 from rfl]
    omega
  by_cases there : (files name.bytes).isSome = true
  · simp only [there, Bool.not_true, Bool.false_eq_true, ↓reduceIte, true_or]
    exact ⟨[], files, ⟨rfl, rfl⟩, filed, (List.append_nil _).symm⟩
  · by_cases something : image = []
    · simp only [there, Bool.not_false, ↓reduceIte, something, or_true]
      exact ⟨[], files, ⟨rfl, rfl⟩, filed, (List.append_nil _).symm⟩
    · simp only [there, Bool.not_false, ↓reduceIte, size, something, ne_eq, not_false_eq_true,
        Bool.false_eq_true, or_self]
      exact filed.write reliable nonempty short something (by omega)
        (fun index inside => show image.getD index 0 = _ by
          rw [List.getD_eq_getElem?_getD, List.getElem?_eq_getElem inside, Option.getD_some]) true

end Start

/-! ### The disk between two sessions -/

/-- Whatever the memory holds, mounting the disk gives the files. -/
def Keeps (drive : Drive) (sectors : Lba28 → Sector) (files : Files) : Prop :=
  ∀ memory : State, memory.disk.sectors = sectors → Filed (fsInit drive memory) files

section Disk

variable {drive : Drive} {fs : State} {files : Files} (reliable : drive.Reliable)
include reliable

theorem Filed.keeps (filed : Filed fs files) : Keeps drive fs.disk.sectors files := by
  intro memory same
  obtain ⟨root, bitmap⟩ := filed.synced.fsInit reliable same
  have synced := fsInit_synced reliable memory
  have magic : (diskRoot memory.disk.sectors).magic = fsMagic := by
    rw [same, filed.synced.root, filed.synced.magic]
  obtain ⟨after, mounted, written⟩ := fsInit_mounts reliable magic
  refine ⟨?_, ?_, synced⟩
  · rw [root, mounted]
    simp only
    rw [written.sectors, same]
    exact filed.represents
  · rw [root, bitmap]
    exact filed.consistent

/-- A new disk has no files. -/
theorem FreshDisk.keeps {sectors : Lba28 → Sector} (fresh : FreshDisk sectors) :
    Keeps drive sectors fun _ => none := by
  rintro memory rfl
  exact ⟨.blank (fun slot => not_live_of_empty ((fsInit_blank reliable fresh).1 slot)) _,
    fsInit_consistent reliable fresh, fsInit_synced reliable memory⟩

theorem fsInit_console (boot : State) : (fsInit drive boot).console = boot.console := by
  by_cases magic : (diskRoot boot.disk.sectors).magic = fsMagic
  · obtain ⟨after, mounted, _⟩ := fsInit_mounts reliable magic
    rw [mounted]
  · obtain ⟨after, formatted, _⟩ := fsInit_formats reliable magic
    rw [formatted]

end Disk

/-! ### The start of the machine -/

section Boot

variable {layout : MainLayout} {drive : Drive} {programs : Programs}

theorem start_inactive (layout : MainLayout) (memory : Memory) {pid : Fin 16}
    (other : pid ≠ 0) :
    ((initMultitasking layout.toLayout (booted memory 100)).tasks pid).active = false := by
  simp only [initMultitasking, Function.update_of_ne other]

theorem startTasks_eq {kernel middle after : Kernel} {clock demo : Fin 16}
    (made : createTask layout.toLayout layout.taskClock layout.clockName kernel =
      some (some clock, middle))
    (created : createUserTask layout.toLayout layout.userTaskDemo layout.userDemoName
      layout.userDemoStackTop userDemoStackSize middle = some (some demo, after)) (fs : State) :
    startTasks layout kernel fs = some (after, fs) := by
  unfold startTasks
  rw [made]
  simp only
  rw [created]
  simp only [Option.isNone_some, Bool.false_eq_true, ↓reduceIte]

/-- Both tasks are created when the machine starts, and nothing is printed about it. -/
theorem startTasks_created (layout : MainLayout) (memory : Memory) (fs : State) :
    ∃ kernel, startTasks layout (initMultitasking layout.toLayout (booted memory 100)) fs =
      some (kernel, fs) ∧ Reachable layout.toLayout kernel := by
  have start := @Reachable.start layout.toLayout memory 100
  rcases start.createTask_cases layout.taskClock layout.clockName with
    ⟨every, _⟩ | ⟨clock, kernel, first, made⟩
  · exact absurd ((every 1).symm.trans (start_inactive layout memory (by decide))) (by decide)
  · have entered := createTask_entered made
    have current := (createTask_created made).currentTask
    have further : Reachable layout.toLayout kernel :=
      .step (.createTask layout.taskClock layout.clockName) start start.owned.shell
        (congrArg (Option.map _) made)
    have shell : (kernel.tasks kernel.currentTask).active = true := by
      rw [current]
      exact further.owned.shell
    obtain ⟨pid, after, created⟩ : ∃ pid after, createUserTask layout.toLayout
        layout.userTaskDemo layout.userDemoName layout.userDemoStackTop userDemoStackSize kernel =
          some (some pid, after) := by
      rcases further.createUserTaskArgv_cases ⟨layout.userTaskDemo, layout.userDemoName,
        layout.userDemoStackTop, userDemoStackSize, 0, 0, 0, 0⟩ with
        ⟨_, _, _, _, _, full | used⟩ | ⟨pid, after, _, created, _⟩
      · have unused : ∀ pid, pid ≠ 0 → pid ≠ clock → (kernel.tasks pid).active = false := by
          intro pid notShell notClock
          rw [entered.others pid notClock]
          exact start_inactive layout memory notShell
        rcases eq_or_ne clock 1 with one | other
        · exact absurd (full 2) (by rw [unused 2 (by decide) (by rw [one]; decide)]; decide)
        · exact absurd (full 1) (by rw [unused 1 (by decide) other.symm]; decide)
      · rcases (entered.used 0).mp (used 0) with before | new
        · simp only [initMultitasking, booted, Bool.false_eq_true] at before
        · exact absurd new (Option.some_ne_none _ ·.symm)
      · exact ⟨pid, after, created⟩
    refine ⟨after, ?_, ?_⟩
    · exact startTasks_eq made created fs
    · exact .step (.createUserTaskArgv _) further shell (congrArg (Option.map _) created)

theorem mainEntry_boots (reliable : drive.Reliable) {files : Files} {disk : Disk}
    (keeps : Keeps drive disk.sectors files) (memory : Memory) {after : System}
    (started : mainEntry layout drive programs memory disk = some after) :
    ∃ desk, Desk.Boot programs files desk ∧ Shown after desk := by
  unfold mainEntry at started
  simp only at started
  have mounted := keeps (kprint (literal "MxOS Kernel Loading...\n") (coldState disk)) rfl
  have printed := fsInit_console reliable
    (kprint (literal "MxOS Kernel Loading...\n") (coldState disk))
  generalize fsInit drive (kprint (literal "MxOS Kernel Loading...\n") (coldState disk)) = fs
    at mounted printed started
  obtain ⟨helloNote, first, hello, filed, console⟩ := seedProgram_seeds reliable mounted
    (show helloFile.bytes ≠ [] by decide) (by decide) programs.helloSmall
  obtain ⟨echoNote, second, echo, filed', console'⟩ := seedProgram_seeds reliable filed
    (show echoFile.bytes ≠ [] by decide) (by decide) programs.echoSmall
  obtain ⟨tracks, reads⟩ := shellInit_shown reliable filed'
  obtain ⟨kernel, created, _⟩ := startTasks_created layout memory
    (kprint bootText (shellInit drive (execSeedPrograms drive programs fs)).2)
  rw [created] at started
  obtain rfl := Option.some.inj started
  refine ⟨_, .start hello echo, tracks, filed'.reads (reads.trans (reads_kprint _ _)), ?_⟩
  have shown := (reads.trans (reads_kprint bootText _)).console
  rw [console', console, printed] at shown
  simp only [List.append_assoc] at shown ⊢
  exact shown

/-- Every turn at the machine is one at the desk. -/
theorem Shown.take (reliable : drive.Reliable) {turn : Turn} {system after : System} {desk : Desk}
    (shown : Shown system desk) (proper : turn.Proper system)
    (stepped : turn.step layout drive programs system = some after) :
    ∃ next, Desk.Take programs desk turn next ∧ Shown after next := by
  cases turn with
  | event given =>
      obtain ⟨next, moved, shows⟩ := shown.step reliable proper stepped
      exact ⟨next, .event moved, shows⟩
  | power memory =>
      obtain ⟨next, boots, shows⟩ := mainEntry_boots reliable (Filed.keeps reliable shown.filed)
        memory stepped
      exact ⟨next, .power memory boots, shows⟩
  | reboot memory =>
      obtain ⟨note, saved, saves, filed, _⟩ := shown.saves reliable
      change (if _ then _ else none) = some after at stepped
      split at stepped
      · next entered =>
          have fits : desk.reference.line.length ≤ 255 := by
            rw [shown.tracks.length]
            exact shown.tracks.idx
          have text := (holdsAt_text (enter_holds fits shown.tracks.line drive)).2
          rw [isCommand_iff (by decide), text] at entered
          obtain ⟨next, boots, shows⟩ := mainEntry_boots reliable (Filed.keeps reliable filed)
            memory stepped
          exact ⟨next, .reboot memory entered saves boots, shows⟩
      · cases stepped

end Boot

/-- The desk before the machine is switched on for the first time. -/
def Desk.new : Desk := ⟨⟨[], [], none⟩, fun _ => none, []⟩

/-- Only keys are pressed, and the machine is switched off and on. -/
def Turn.Alone : Turn → System → Prop
  | .event (.key c), system => (Event.key c).Proper system
  | .power _, _ => True
  | _, _ => False

instance Turn.Alone.decidable : (turn : Turn) → (system : System) → Decidable (turn.Alone system)
  | .event (.key c), system =>
      inferInstanceAs (Decidable (c = newline → (fileCommand system.editor.inputLine).Short))
  | .event (.act _), _ | .event (.elsewhere _ _), _ | .reboot _, _ => isFalse not_false
  | .power _, _ => isTrue trivial

end MxOS.Shell
