import MxOS.Drivers.FsDurable
import MxOS.Kernel.Shell

/-! # The history after a reboot

The commands that can be recalled are written to the history file as lines, and reading
the file splits it into the same lines. Eight commands of full length fill the buffer one
byte too early: the newline after the last command is missing in the file, and the end of
the file takes its place.
-/

namespace MxOS.Shell

open ByteMemory Ata Fs Lines

/-! ### The circular buffer -/

/-- The command in a slot. -/
def Session.line (shell : Session) (slot : Fin 8) : List Byte :=
  slice (fun index => shell.history slot (Fin.ofNat 256 index)) 0 (shell.historyLen slot)

/-- The session was reached by entering the commands. -/
structure Remembers (shell : Session) (commands : List (List Byte)) : Prop where
  count : shell.historyCount = commands.length
  lines : ∀ index < commands.length, commands.length ≤ index + 8 →
    commands[index]? = some (shell.line (Fin.ofNat 8 index))

theorem Remembers.initial : Remembers .initial [] :=
  ⟨rfl, fun _ inside => absurd inside (Nat.not_lt_zero _)⟩

/-- Enter a command given as its bytes. -/
def push (shell : Session) (command : List Byte) : Session :=
  historyPush (fun index => command.getD index 0) command.length shell

theorem line_historyPush (cmd : Nat → Byte) {len : Nat} (short : len ≤ 255) (shell : Session)
    (slot : Fin 8) :
    (historyPush cmd len shell).line slot =
      if slot = Fin.ofNat 8 shell.historyCount then slice cmd 0 len else shell.line slot := by
  have kept : (if len > 255 then 255 else len) = len := if_neg (by omega)
  simp only [Session.line, historyPush, kept]
  split
  · next here =>
      rw [here, Function.update_self, Function.update_self]
      refine List.map_congr_left fun index inRange => ?_
      have below := List.mem_range.mp inRange
      have value : (Fin.ofNat 256 (0 + index)).val = 0 + index := by
        rw [Fin.val_ofNat]
        omega
      simp only [value]
      rw [if_pos (by omega)]
  · next other => rw [Function.update_of_ne other, Function.update_of_ne other]

theorem slice_getD (command : List Byte) :
    slice (fun index => command.getD index 0) 0 command.length = command :=
  slice_eq fun index inside => by rw [List.getD_eq_getElem?_getD, List.getElem?_eq_getElem inside,
    Option.getD_some]

theorem Remembers.push {shell : Session} {commands : List (List Byte)}
    (remembers : Remembers shell commands) {command : List Byte} (short : command.length ≤ 255) :
    Remembers (push shell command) (commands ++ [command]) := by
  have count := remembers.count
  refine ⟨?_, fun index inside recent => ?_⟩
  · rw [List.length_append, ← count]
    rfl
  · rw [List.length_append, List.length_singleton] at inside recent
    rw [Shell.push, line_historyPush _ short, slice_getD, count]
    by_cases last : index = commands.length
    · rw [if_pos (congrArg _ last), last, List.getElem?_concat_length]
    · have differ : Fin.ofNat 8 index ≠ Fin.ofNat 8 commands.length := by
        intro same
        have values := congrArg Fin.val same
        simp only [Fin.val_ofNat] at values
        omega
      rw [if_neg differ, List.getElem?_append_left (by omega)]
      exact remembers.lines index (by omega) (by omega)

theorem Remembers.foldl_push {shell : Session} {commands : List (List Byte)}
    (remembers : Remembers shell commands) {more : List (List Byte)}
    (short : ∀ command ∈ more, command.length ≤ 255) :
    Remembers (more.foldl Shell.push shell) (commands ++ more) := by
  induction more generalizing shell commands with
  | nil => rwa [List.append_nil]
  | cons command rest ih =>
      rw [List.foldl_cons, List.append_cons]
      exact ih (remembers.push (short command (List.mem_cons_self ..)))
        fun later member => short later (List.mem_cons_of_mem _ member)

/-! ### Recalling -/

/-- The input line after a command was recalled. -/
def recalled (stepsBack : Nat) (shell : Session) (fs : State) : List Byte :=
  let after := (historyLoad stepsBack shell fs).1
  slice (fun index => after.inputBuffer (Fin.ofNat 256 index)) 0 after.bufferIdx

theorem recalled_eq (stepsBack : Nat) (shell : Session) (fs : State) :
    recalled stepsBack shell fs = shell.line (slotBack shell stepsBack) := by
  refine List.map_congr_left fun index inRange => ?_
  have below := List.mem_range.mp inRange
  have inside : (Fin.ofNat 256 (0 + index)).val < shell.historyLen (slotBack shell stepsBack) := by
    rw [Fin.val_ofNat]
    have small := Nat.mod_le (0 + index) 256
    simp only [historyLoad, redrawInputLine] at below
    omega
  exact if_pos inside

theorem maxSteps_eq (shell : Session) : maxSteps shell = min shell.historyCount 8 := by
  rw [maxSteps, historySize]
  split <;> omega

theorem Remembers.line_slotBack {shell : Session} {commands : List (List Byte)}
    (remembers : Remembers shell commands) {stepsBack : Nat}
    (inside : stepsBack < min commands.length 8) :
    commands[commands.length - 1 - stepsBack]? = some (shell.line (slotBack shell stepsBack)) := by
  have slot : slotBack shell stepsBack = Fin.ofNat 8 (commands.length - 1 - stepsBack) := by
    apply Fin.ext
    simp only [slotBack, historySize, remembers.count, Fin.val_ofNat]
    omega
  rw [slot]
  exact remembers.lines _ (by omega) (by omega)

/-! ### The text of the file -/

theorem saveLine_eq (shell : Session) (buf : List Byte) (stepsBack : Nat) :
    saveLine shell buf stepsBack =
      (shell.line (slotBack shell stepsBack) ++ [newline]).foldl (appendCapped saveCap) buf := by
  rw [List.foldl_append, Session.line, slice, List.foldl_map]
  simp only [Nat.zero_add]
  rfl

/-- The commands that can be recalled, oldest first. -/
def recent (commands : List (List Byte)) : List (List Byte) := commands.drop (commands.length - 8)

theorem length_recent (commands : List (List Byte)) :
    (recent commands).length = min commands.length 8 := by
  rw [recent, List.length_drop]
  omega

theorem Remembers.recent {shell : Session} {commands : List (List Byte)}
    (remembers : Remembers shell commands) :
    ((List.range (maxSteps shell)).reverse.map fun stepsBack =>
      shell.line (slotBack shell stepsBack)) = Shell.recent commands := by
  have steps : maxSteps shell = min commands.length 8 := by rw [maxSteps_eq, remembers.count]
  apply List.ext_getElem?
  intro index
  by_cases inside : index < maxSteps shell
  · have oldest : commands.length - 1 - (maxSteps shell - 1 - index) =
        commands.length - 8 + index := by omega
    have line := remembers.line_slotBack (show maxSteps shell - 1 - index < _ by omega)
    rw [oldest] at line
    rw [Shell.recent, List.getElem?_drop, line, List.getElem?_map, List.getElem?_reverse (by simpa),
      List.length_range, List.getElem?_range (by omega), Option.map_some]
  · rw [List.getElem?_eq_none (by simpa using inside),
      List.getElem?_eq_none (by rw [length_recent]; omega)]

/-- The file holds the lines of the recent commands; the last newline may be cut off. -/
theorem Remembers.historyText {shell : Session} {commands : List (List Byte)}
    (remembers : Remembers shell commands) :
    historyText shell = (joined newline (Shell.recent commands)).take saveCap := by
  have saved : saveLine shell = fun buf stepsBack =>
      (shell.line (slotBack shell stepsBack) ++ [newline]).foldl (appendCapped saveCap) buf := by
    funext buf stepsBack
    exact saveLine_eq shell buf stepsBack
  rw [Shell.historyText, saved, ← List.foldl_flatMap, foldl_appendCapped (Nat.zero_le _),
    List.nil_append, ← remembers.recent, joined, List.flatMap_map]

/-! ### Reading the file -/

theorem trimToFirstNul_eq {buf : Nat → Byte} {size length : Nat} (fits : length ≤ size)
    (text : ∀ index < length, buf index ≠ 0) (padding : buf length = 0) :
    trimToFirstNul buf size = length := by
  unfold trimToFirstNul
  cases found : (List.range size).find? fun index => buf index = 0 with
  | none =>
      have nonzero := List.find?_eq_none.mp found
      by_contra differ
      rw [Option.getD_none] at differ
      exact nonzero length (List.mem_range.mpr (by omega)) (decide_eq_true padding)
  | some first =>
      obtain ⟨zero, inRange, before⟩ := List.find?_range_eq_some.mp found
      have least : length ≤ first := by
        by_contra less
        exact text first (Nat.lt_of_not_le less) (of_decide_eq_true zero)
      by_contra differ
      rw [Option.getD_some] at differ
      have earlier := before length (by omega)
      simp only [padding, decide_true, Bool.not_true, Bool.false_eq_true] at earlier

theorem historyPush_congr {first second : Nat → Byte} {len : Nat}
    (same : ∀ index < len, first index = second index) (shell : Session) :
    historyPush first len shell = historyPush second len shell := by
  have capped : (if len > 255 then 255 else len) ≤ len := by split <;> omega
  simp only [historyPush]
  generalize (if len > 255 then 255 else len) = kept at capped ⊢
  congr 2
  funext index
  split
  · next below => exact same index (by omega)
  · rfl

/-- The scan pushes the pieces of the buffer in order. -/
theorem scan_push (buf : Nat → Byte) (size : Nat) (shell : Session) :
    scan newline buf size
        (fun shell start len => historyPush (fun index => buf (start + index)) len shell)
        (size + 1) 0 0 shell =
      (pieces newline (slice buf 0 size) []).foldl push shell := by
  rw [@scan_eq _ newline _ _ buf size _ push]
  intro shell start len
  rw [push, length_slice]
  apply historyPush_congr
  intro index below
  rw [List.getD_eq_getElem?_getD, getElem?_slice buf below, Option.getD_some]

/-- A buffer that holds a text without zero bytes, followed by zeros, is read as its lines. -/
theorem scan_text {text : List Byte} (nulFree : 0 ∉ text) {size : Nat} (fits : text.length ≤ size)
    (shell : Session) :
    let buf := fun index => text.getD index 0
    let length := trimToFirstNul buf size
    scan newline buf length
        (fun shell start len => historyPush (fun index => buf (start + index)) len shell)
        (length + 1) 0 0 shell =
      (pieces newline text []).foldl push shell := by
  intro buf length
  have inside : ∀ index, (bound : index < text.length) → buf index = text[index] := by
    intro index bound
    simp only [buf, List.getD_eq_getElem?_getD, List.getElem?_eq_getElem bound, Option.getD_some]
  have trimmed : length = text.length := by
    apply trimToFirstNul_eq fits
    · intro index bound zero
      rw [inside index bound] at zero
      exact nulFree (zero ▸ List.getElem_mem bound)
    · simp only [buf, List.getD_eq_getElem?_getD, List.getElem?_eq_none (Nat.le_refl _),
        Option.getD_none]
  rw [trimmed, scan_push, slice_eq inside]

/-! ### Rebooting -/

/-- A command as it can be typed: it fits in the input line, and contains no zero byte and no
newline. -/
structure Command where
  bytes : List Byte
  nonempty : bytes ≠ []
  short : bytes.length ≤ 255
  nulFree : 0 ∉ bytes
  oneLine : newline ∉ bytes

/-- The session after the commands, from the start of the shell on. -/
def entered (commands : List Command) : Session :=
  (commands.map Command.bytes).foldl push .initial

variable (commands : List Command)

theorem entered_remembers : Remembers (entered commands) (commands.map Command.bytes) := by
  have remembers := @Remembers.foldl_push .initial [] .initial (commands.map Command.bytes) ?_
  · rwa [List.nil_append] at remembers
  · intro bytes member
    obtain ⟨command, _, rfl⟩ := List.mem_map.mp member
    exact command.short

/-- A recent command is one of those entered. -/
theorem mem_recent {bytes : List Byte} (member : bytes ∈ recent (commands.map Command.bytes)) :
    ∃ command : Command, command.bytes = bytes := by
  obtain ⟨command, _, same⟩ := List.mem_map.mp (List.mem_of_mem_drop member)
  exact ⟨command, same⟩

theorem length_joined_recent :
    (joined newline (recent (commands.map Command.bytes))).length ≤ saveCap + 1 := by
  have short : ∀ line ∈ recent (commands.map Command.bytes), line.length ≤ 255 := by
    intro line member
    obtain ⟨command, rfl⟩ := mem_recent commands member
    exact command.short
  have bound := length_joined_le newline short
  have eight := length_recent (commands.map Command.bytes)
  have cap : saveCap = 2047 := rfl
  omega

theorem historyText_nulFree : 0 ∉ historyText (entered commands) := by
  rw [(entered_remembers commands).historyText]
  intro zero
  obtain ⟨line, member, inLine⟩ := List.mem_flatMap.mp (List.mem_of_mem_take zero)
  obtain ⟨command, rfl⟩ := mem_recent commands member
  rcases List.mem_append.mp inLine with inside | ends
  · exact command.nulFree inside
  · exact absurd (List.mem_singleton.mp ends) (by decide)

/-- Splitting the text at newlines gives the recent commands back. -/
theorem pieces_historyText :
    pieces newline (historyText (entered commands)) [] = recent (commands.map Command.bytes) := by
  rw [(entered_remembers commands).historyText]
  refine pieces_joined_take (fun line member => ?_) (length_joined_recent commands)
  obtain ⟨command, rfl⟩ := mem_recent commands member
  exact ⟨command.nonempty, command.oneLine⟩

theorem padded_getD (text : List Byte) (index : Nat) :
    (padded (fun index => text.getD index 0) text.length)[index]?.getD 0 = text.getD index 0 := by
  by_cases inside : index < 512 * ((text.length + 511) / 512)
  · rw [padded, List.getElem?_map, List.getElem?_range inside, Option.map_some, Option.getD_some]
    split
    · rfl
    · next beyond =>
        rw [List.getD_eq_getElem?_getD, List.getElem?_eq_none (by omega), Option.getD_none]
  · rw [List.getElem?_eq_none (by rw [length_padded]; omega), List.getD_eq_getElem?_getD,
      List.getElem?_eq_none (by omega)]

/-- Loading a file that holds the text of a session, padded with zeros. -/
theorem historyLoadFromDisk_eq {drive : Drive} {mounted : State}
    (present : fsFileExists mounted (some historyFile) = true)
    (loads :
      let text := historyText (entered commands)
      let loaded := fsLoadFile drive (some historyFile) (some fun _ => 0)
        (BitVec.ofNat 32 (historySize * 256)) mounted
      loaded.ok = true ∧ loaded.outSize.map BitVec.toNat =
          some (padded (fun index => text.getD index 0) text.length).length ∧
        ∀ index, loaded.dest index =
          (padded (fun index => text.getD index 0) text.length)[index]?.getD 0)
    (shell : Session) :
    (historyLoadFromDisk drive shell mounted).1 =
      (recent (commands.map Command.bytes)).foldl push shell := by
  obtain ⟨ok, length, bytes⟩ := loads
  rw [historyLoadFromDisk, if_pos present]
  generalize fsLoadFile drive (some historyFile) (some fun _ => 0)
    (BitVec.ofNat 32 (historySize * 256)) mounted = loaded at ok length bytes ⊢
  obtain ⟨_, dest, outSize, fs⟩ := loaded
  obtain rfl : _ = true := ok
  obtain rfl : dest = fun index => (historyText (entered commands)).getD index 0 := by
    funext index
    exact (bytes index).trans (padded_getD _ index)
  obtain ⟨size, rfl, total⟩ := Option.map_eq_some_iff.mp length
  rw [length_padded] at total
  rw [← pieces_historyText commands]
  exact scan_text (historyText_nulFree commands) (by rw [Option.getD_some]; omega) shell

/-- What is read back after the history file was written. -/
theorem historyLoadFromDisk_saved {drive : Drive} (reliable : drive.Reliable) {fs : State}
    (undamaged : Undamaged fs) (unique : fs.root.Unique historyFile.bytes)
    (wrote : (historySave drive (entered commands) fs).1 = some true) {memory : State}
    (same : memory.disk.sectors = (historySave drive (entered commands) fs).2.disk.sectors)
    (shell : Session) :
    (historyLoadFromDisk drive shell (fsInit drive memory)).1 =
      (recent (commands.map Command.bytes)).foldl push shell := by
  have cap : (historyText (entered commands)).length ≤ 2047 := by
    rw [(entered_remembers commands).historyText, List.length_take]
    exact Nat.min_le_left ..
  unfold historySave at wrote same
  by_cases empty : (historyText (entered commands)).length = 0
  · rw [if_pos empty] at wrote
    exact absurd wrote (Option.some_ne_none true ·.symm)
  · rw [if_neg empty] at wrote same
    -- The file is deleted first, and then written.
    have performs := fsDelete_request reliable (some historyFile) false fs
    have cleared : Undamaged (fsDeleteFileSilent drive (some historyFile) fs).2 :=
      @Undamaged.perform drive reliable fs undamaged (.call (.deleteSilent (some historyFile)))
        trivial
    have unique' :
        (fsDeleteFileSilent drive (some historyFile) fs).2.root.Unique historyFile.bytes := by
      rw [fsDeleteFileSilent, performs.root]
      exact RootDirectory.Unique.plan (by decide) unique _ fs.bitmap
    have length : (BitVec.ofNat 32 (historyText (entered commands)).length).toNat =
        (historyText (entered commands)).length := by
      rw [BitVec.toNat_ofNat]
      omega
    have sized : Sized (BitVec.ofNat 32 (historyText (entered commands)).length) :=
      ⟨by omega, by omega⟩
    have fits : (padded (fun index => (historyText (entered commands)).getD index 0)
        (BitVec.ofNat 32 (historyText (entered commands)).length).toNat).length ≤
          (BitVec.ofNat 32 (historySize * 256)).toNat := by
      have buffer : (BitVec.ofNat 32 (historySize * 256)).toNat = 2048 := by decide
      rw [length_padded, length, buffer]
      omega
    have survives := write_survives_reboot reliable cleared (by decide) (by decide) unique' sized
      (Option.some.inj wrote) same (fun _ => 0) fits
    rw [length] at survives
    exact historyLoadFromDisk_eq commands survives.1 survives.2 shell

/-- For every sequence of commands, if saving the history writes its file, then after a reboot
the history is that of the last eight commands, or of all if there are fewer: their number is the
count, and each is recalled as before. The file system may have been used in any way without disk
errors. -/
theorem history_survives_reboot {drive : Drive} (reliable : drive.Reliable) (boot : State)
    (fresh : FreshDisk boot.disk.sectors) (operations : List Operation)
    (sized : ∀ operation ∈ operations, operation.Sized) :
    let fs := operate drive operations (fsInit drive boot)
    let shell := entered commands
    let saved := historySave drive shell fs
    saved.1 = some true → ∀ memory : State, memory.disk.sectors = saved.2.disk.sectors →
      let restarted := historyLoadFromDisk drive .initial (fsInit drive memory)
      restarted.1.historyCount = min commands.length 8 ∧
        ∀ stepsBack < restarted.1.historyCount,
          recalled stepsBack restarted.1 restarted.2 = recalled stepsBack shell saved.2 ∧
          commands[commands.length - 1 - stepsBack]?.map Command.bytes =
            some (recalled stepsBack restarted.1 restarted.2) := by
  intro fs shell saved wrote memory same restarted
  have undamaged : Undamaged fs := operate_undamaged reliable fresh sized
  have unique : fs.root.Unique historyFile.bytes := operate_unique (by decide) reliable fresh sized
  have before := entered_remembers commands
  have after : Remembers restarted.1 (recent (commands.map Command.bytes)) := by
    rw [show restarted.1 = _ from
      historyLoadFromDisk_saved commands reliable undamaged unique wrote same .initial]
    have remembers := @Remembers.foldl_push .initial [] .initial
      (recent (commands.map Command.bytes)) fun bytes member => by
        obtain ⟨command, rfl⟩ := mem_recent commands member
        exact command.short
    rwa [List.nil_append] at remembers
  have count : restarted.1.historyCount = min commands.length 8 := by
    rw [after.count, length_recent, List.length_map]
  refine ⟨count, fun stepsBack inside => ?_⟩
  rw [count] at inside
  have bound : stepsBack < min (commands.map Command.bytes).length 8 := by rwa [List.length_map]
  have bound' : stepsBack < min (recent (commands.map Command.bytes)).length 8 := by
    rw [length_recent, List.length_map]
    omega
  have earlier := before.line_slotBack bound
  have later := after.line_slotBack bound'
  have position : commands.length - 8 + (min commands.length 8 - 1 - stepsBack) =
      commands.length - 1 - stepsBack := by omega
  rw [List.length_map] at earlier
  rw [length_recent, recent, List.getElem?_drop, List.length_map, position] at later
  rw [recalled_eq, recalled_eq, ← List.getElem?_map, later]
  exact ⟨Option.some.inj (later.symm.trans earlier), rfl⟩

/-- Two commands are entered on a new file system, and the older one is recalled after a reboot
that leaves other values in memory. -/
theorem history_survives_reboot_two :
    let ps : Command := ⟨literal "ps", by decide, by decide, by decide, by decide⟩
    let ls : Command := ⟨literal "ls", by decide, by decide, by decide, by decide⟩
    let saved := historySave readyDrive (entered [ps, ls])
      (operate readyDrive [] (fsInit readyDrive blankBoot))
    let restarted := historyLoadFromDisk readyDrive .initial
      (fsInit readyDrive { saved.2 with root := formattedRoot, bitmap := fun _ => 1 })
    saved.1 = some true ∧ restarted.1.historyCount = 2 ∧
      recalled 1 restarted.1 restarted.2 = literal "ps" := by
  intro ps ls saved restarted
  have wrote : saved.1 = some true := by decide +kernel
  obtain ⟨count, recalls⟩ := history_survives_reboot [ps, ls] readyDrive_reliable blankBoot
    blankBoot_fresh [] (fun _ member => absurd member List.not_mem_nil) wrote
    { saved.2 with root := formattedRoot, bitmap := fun _ => 1 } rfl
  refine ⟨wrote, count, ?_⟩
  exact (Option.some.inj (recalls 1 (count ▸ by decide)).2).symm

end MxOS.Shell
