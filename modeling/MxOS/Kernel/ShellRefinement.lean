import MxOS.Kernel.ShellCommand
import MxOS.Lib.EventRun

/-! # The shell refines the reference editor

Executing a line leaves nothing of the editor but the contents of the input buffer in a
state that depends on the command. The shell therefore stays in step with the reference
editor along every run, whatever the commands do to the machine and whatever other tasks
do meanwhile.
-/

namespace MxOS.Shell

open ByteMemory Ata Fs Lines Input Sched Exec

/-! ### What a command leaves of the editor -/

/-- Nothing of the editor changes but the input buffer. -/
def Buffered (before after : Editor) : Prop :=
  ∃ buffer, after = { before with inputBuffer := buffer }

theorem Buffered.refl (editor : Editor) : Buffered editor editor := ⟨editor.inputBuffer, rfl⟩

section Commands

variable {layout : ShellLayout} {drive : Drive} {system after : System}

theorem runExec_buffered (ran : runExec layout drive system = some after) :
    Buffered system.editor after.editor := by
  unfold runExec at ran
  simp only at ran
  split at ran
  · obtain rfl := Option.some.inj ran
    exact ⟨_, rfl⟩
  · obtain ⟨answer, _, rfl⟩ := Option.map_eq_some_iff.mp ran
    exact ⟨_, rfl⟩

theorem runKill_editor (system : System) : (runKill system).editor = system.editor := by
  unfold runKill
  simp only
  split
  · rfl
  · split <;> rfl

theorem runPriority_editor (system : System) : (runPriority system).editor = system.editor := by
  unfold runPriority
  simp only
  split
  · rfl
  · split
    · split <;> rfl
    · split <;> rfl

theorem runWrite_buffered (drive : Drive) (system : System) :
    Buffered system.editor (runWrite drive system).editor := by
  unfold runWrite
  simp only
  split
  · exact ⟨_, rfl⟩
  · exact Buffered.refl _

/-- Only four commands change the input buffer or the tasks. -/
inductive Carried (layout : ShellLayout) (drive : Drive) (system : System) : System → Prop where
  | other {after : System} : after.editor = system.editor →
      after.machine.kernel = system.machine.kernel → Carried layout drive system after
  | exec {after : System} : runExec layout drive system = some after →
      Carried layout drive system after
  | kill : Carried layout drive system (runKill system)
  | priority : Carried layout drive system (runPriority system)
  | write : Carried layout drive system (runWrite drive system)

/-- One link of a chain of comparisons. -/
theorem link {goal test : Prop} [Decidable test] {first rest : Option System}
    (ran : (if test then first else rest) = some after) (here : first = some after → goal)
    (later : rest = some after → goal) : goal := by
  by_cases passed : test
  · rw [if_pos passed] at ran
    exact here ran
  · rw [if_neg passed] at ran
    exact later ran

theorem runCommand_carried (ran : runCommand layout drive system = some after) :
    Carried layout drive system after := by
  have other : ∀ {next : System}, next.editor = system.editor →
      next.machine.kernel = system.machine.kernel → some next = some after →
      Carried layout drive system after := by
    intro next editor kernel same
    obtain rfl := Option.some.inj same
    exact .other editor kernel
  unfold runCommand at ran
  refine link ran (other rfl rfl) fun ran => ?_
  refine link ran (other rfl rfl) fun ran => ?_
  refine link ran (other rfl rfl) fun ran => ?_
  refine link ran (other rfl rfl) fun ran => ?_
  refine link ran (other rfl rfl) fun ran => ?_
  refine link ran (other rfl rfl) fun ran => ?_
  refine link ran .exec fun ran => ?_
  refine link ran (other rfl rfl) fun ran => ?_
  refine link ran (fun kill => Option.some.inj kill ▸ .kill) fun ran => ?_
  refine link ran (fun priority => Option.some.inj priority ▸ .priority) fun ran => ?_
  refine link ran (fun write => Option.some.inj write ▸ .write) fun ran => ?_
  refine link ran (fun mem => ?_) fun ran => ?_
  · obtain ⟨stats, _, rfl⟩ := Option.map_eq_some_iff.mp mem
    exact .other rfl rfl
  refine link ran (other rfl rfl) fun ran => ?_
  refine link ran (fun reboot => ?_) fun ran => ?_
  · cases reboot
  exact link ran (other rfl rfl) (other rfl rfl)

theorem Carried.buffered (carried : Carried layout drive system after) :
    Buffered system.editor after.editor := by
  cases carried with
  | other same _ => exact same ▸ Buffered.refl _
  | exec ran => exact runExec_buffered ran
  | kill => exact runKill_editor system ▸ Buffered.refl _
  | priority => exact runPriority_editor system ▸ Buffered.refl _
  | write => exact runWrite_buffered drive system

end Commands

/-! ### Steps -/

/-- What the reference editor does at an event: it sees the keys only. -/
def Reference.follow (reference : Reference) : Event → Reference
  | .key c => reference.press c
  | _ => reference

theorem Tracks.step {layout : ShellLayout} {drive : Drive} {event : Event}
    {system after : System} {reference : Reference} (tracks : Tracks system.editor reference)
    (stepped : event.step layout drive system = some after) :
    Tracks after.editor (reference.follow event) := by
  cases event with
  | act action =>
      obtain ⟨kernel, _, rfl⟩ := Option.map_eq_some_iff.mp stepped
      exact tracks
  | elsewhere memory fs =>
      obtain rfl := Option.some.inj stepped
      exact tracks
  | key c =>
      change shellUpdate layout drive c system = some after at stepped
      unfold shellUpdate at stepped
      change Tracks after.editor (reference.press c)
      split at stepped
      · next enter =>
          obtain ⟨carried, ran, rfl⟩ := Option.map_eq_some_iff.mp stepped
          obtain ⟨buffer, same⟩ := (runCommand_carried ran).buffered
          obtain ⟨entered, _⟩ := tracks.enterLine drive (kprint (literal "\n") system.machine.fs)
          rw [Reference.press, if_pos enter]
          have cleared := entered.clear buffer
          change Tracks { carried.editor with bufferIdx := 0 } reference.enter
          rw [same]
          exact cleared
      · next key =>
          obtain rfl := Option.some.inj stepped
          exact tracks.edit key system.machine.fs

/-! ### The history at the start -/

theorem push_take (shell : Session) (command : List Byte) :
    push shell command = push shell (command.take 255) := by
  by_cases short : command.length ≤ 255
  · rw [List.take_of_length_le short]
  · have length : (command.take 255).length = 255 := by
      rw [List.length_take]
      omega
    have bytes : ∀ index < 255, command.getD index 0 = (command.take 255).getD index 0 := by
      intro index inside
      rw [List.getD_eq_getElem?_getD, List.getD_eq_getElem?_getD,
        List.getElem?_take_of_lt inside]
    rw [push, push, length, ← historyPush_congr bytes]
    simp only [historyPush]
    rw [if_pos (by omega), if_neg (by omega)]

/-- Whatever the history file holds, what is loaded of it are lines as they can be entered. -/
theorem historyLoadFromDisk_lines (drive : Drive) (fs : State) :
    ∃ lines : List (List Byte), (∀ line ∈ lines, IsLine newline line ∧ line.length ≤ 255) ∧
      (fsFileExists fs (some historyFile) = false → lines = []) ∧
      (historyLoadFromDisk drive .initial fs).1 = lines.foldl push .initial := by
  unfold historyLoadFromDisk
  by_cases present : fsFileExists fs (some historyFile) = true
  · rw [if_pos present]
    generalize fsLoadFile drive (some historyFile) (some fun _ => 0)
      (BitVec.ofNat 32 (historySize * 256)) fs = loaded
    obtain ⟨ok, buf, outSize, loaded⟩ := loaded
    cases ok with
    | false =>
        exact ⟨[], fun _ none => absurd none List.not_mem_nil, fun _ => rfl, rfl⟩
    | true =>
        simp only
        generalize trimToFirstNul buf (outSize.getD 0).toNat = size
        refine ⟨(pieces newline (slice buf 0 size) []).map (List.take 255), ?_, ?_, ?_⟩
        · intro line member
          obtain ⟨piece, found, rfl⟩ := List.mem_map.mp member
          obtain ⟨nonempty, free⟩ := isLine_of_mem_pieces newline List.not_mem_nil found
          have length := List.length_pos_iff.mpr nonempty
          refine ⟨⟨List.ne_nil_of_length_pos ?_, fun inside =>
            free (List.mem_of_mem_take inside)⟩, List.length_take_le ..⟩
          rw [List.length_take]
          omega
        · exact fun absent => absurd (absent.symm.trans present) Bool.false_ne_true
        · rw [scan_push, List.foldl_map]
          congr 1
          funext shell command
          exact push_take shell command
  · rw [if_neg present]
    exact ⟨[], fun _ none => absurd none List.not_mem_nil, fun _ => rfl, rfl⟩

theorem Tracks.lines {lines : List (List Byte)} (short : ∀ line ∈ lines, line.length ≤ 255) :
    Tracks { Editor.initial with toSession := lines.foldl push .initial } ⟨[], lines, none⟩ := by
  have remembers := Remembers.initial.foldl_push short
  rw [List.nil_append] at remembers
  have kept : ∀ shell : Session, (∀ slot, shell.historyLen slot ≤ 255) → shell.bufferIdx = 0 →
      (∀ slot, (lines.foldl push shell).historyLen slot ≤ 255) ∧
        (lines.foldl push shell).bufferIdx = 0 := by
    clear remembers
    induction lines with
    | nil => exact fun shell lengths idx => ⟨lengths, idx⟩
    | cons line rest ih =>
        intro shell lengths idx
        exact ih (fun later member => short later (List.mem_cons_of_mem _ member)) _
          (historyLen_historyPush _ _ shell lengths) idx
  obtain ⟨lengths, idx⟩ := kept .initial (fun _ => Nat.zero_le _) rfl
  refine ⟨?_, lengths, Nat.zero_le _, ?_, remembers, rfl⟩
  · exact idx.le.trans (Nat.zero_le _)
  · rw [Session.inputLine]
    simp only [idx]
    rfl

theorem shellInit_tracks (drive : Drive) (fs : State) :
    ∃ lines : List (List Byte), (∀ line ∈ lines, IsLine newline line ∧ line.length ≤ 255) ∧
      (fsFileExists fs (some historyFile) = false → lines = []) ∧
      Tracks (shellInit drive fs).1 ⟨[], lines, none⟩ := by
  obtain ⟨lines, valid, absent, loaded⟩ := historyLoadFromDisk_lines drive
    (kprint (literal "\nMxOS Shell v1.0\nTapez 'help' pour la liste des commandes.\n") fs)
  refine ⟨lines, valid, absent, ?_⟩
  have tracks := Tracks.lines fun line member => (valid line member).2
  simp only [shellInit, loaded]
  exact tracks.clear _

/-- From the start of the shell on, whatever keys are pressed and whatever else happens, the
indices are in range and the input line is that of the reference editor, which starts with the
lines loaded from the history file, and with none if there is no such file. What Enter executes is
that line. -/
theorem editor_refines_reference (layout : ShellLayout) (drive : Drive) (fs : State) :
    ∃ earlier : List (List Byte), (∀ line ∈ earlier, line ≠ [] ∧ line.length ≤ 255) ∧
      (fsFileExists fs (some historyFile) = false → earlier = []) ∧
      ∀ start : System, start.editor = (shellInit drive fs).1 → ∀ events after,
        EventRun.run (Event.step layout drive) events start = some after →
        let reference := events.foldl Reference.follow ⟨[], earlier, none⟩
        let editor := after.editor
        editor.bufferIdx ≤ 255 ∧
          (editor.historyNav = -1 ∨
            0 ≤ editor.historyNav ∧ editor.historyNav < min editor.historyCount 8) ∧
          (∀ slot, editor.historyLen slot ≤ 255) ∧ editor.savedLineLen ≤ 255 ∧
          slice (byteAt editor.inputBuffer) 0 editor.bufferIdx = reference.line ∧
          slice (byteAt (after.enter drive).editor.inputBuffer) 0 (editor.bufferIdx + 1) =
            reference.line ++ [0] := by
  obtain ⟨earlier, valid, absent, initially⟩ := shellInit_tracks drive fs
  refine ⟨earlier, fun line member => ⟨(valid line member).1.1, (valid line member).2⟩, absent, ?_⟩
  intro start same events after ran reference editor
  rw [← same] at initially
  have tracks : Tracks editor reference :=
    @EventRun.run_simulates _ _ (Event.step layout drive) _
      (fun system reference => Tracks system.editor reference) Reference.follow
      (fun tracks stepped => tracks.step stepped) _ _ _ initially _ ran
  refine ⟨tracks.idx, ?_, tracks.lengths, tracks.savedLength, tracks.line, ?_⟩
  · have navigates := tracks.navigates
    have count := tracks.remembers.count
    cases navigating : reference.navigation with
    | none =>
        rw [navigating] at navigates
        exact Or.inl navigates
    | some past =>
        rw [navigating] at navigates
        obtain ⟨position, inside, _⟩ := navigates
        rw [count]
        exact Or.inr (by omega)
  · obtain ⟨entered, idx, ended⟩ :=
      tracks.enterLine drive (kprint (literal "\n") after.machine.fs)
    have line := entered.line
    rw [Session.inputLine, idx] at line
    rw [slice_succ, Nat.zero_add]
    exact congrArg₂ _ line (congrArg (fun byte => [byte]) ended)

end MxOS.Shell
