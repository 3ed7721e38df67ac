import MxOS.Drivers.Fs
import MxOS.Lib.Lines

/-! # The command history of the shell

`kernel/shell.c` keeps the last eight commands in a circular buffer, and saves them after
each command to a file, one to a line. When the shell starts it reads the file back: the
zeros that pad it to whole sectors are cut off, and every line is pushed again.

The number of commands is a natural number here; a session stays far below the largest
`int`.
-/

namespace MxOS.Shell

open ByteMemory Ata Fs Lines

def historySize : Nat := 8

def historyFile : CString := ⟨literal "history.dat", by decide⟩

instance historySizeNeZero : NeZero 8 := ⟨by decide⟩

instance lineSizeNeZero : NeZero 256 := ⟨by decide⟩

def newline : Byte := 0x0A

def backspace : Byte := 0x08

/-- The line being typed and the commands entered before. -/
structure Session where
  inputBuffer : Fin 256 → Byte
  bufferIdx : Nat
  history : Fin 8 → Fin 256 → Byte
  historyLen : Fin 8 → Nat
  historyCount : Nat

/-- The static variables before the first command. -/
def Session.initial : Session where
  inputBuffer := fun _ => 0
  bufferIdx := 0
  history := fun _ _ => 0
  historyLen := fun _ => 0
  historyCount := 0

/-! ### The circular buffer -/

def historyPush (cmd : Nat → Byte) (len : Nat) (shell : Session) : Session :=
  let len := if len > 255 then 255 else len
  let slot := Fin.ofNat 8 shell.historyCount
  { shell with
    history := Function.update shell.history slot fun index =>
      if index.val < len then cmd index else shell.history slot index
    historyLen := Function.update shell.historyLen slot len
    historyCount := shell.historyCount + 1 }

/-- The slot of the command entered `stepsBack` commands before the last one. -/
def slotBack (shell : Session) (stepsBack : Nat) : Fin 8 :=
  Fin.ofNat 8 (shell.historyCount + historySize - 1 - stepsBack)

def redrawInputLine (newLen : Nat) (shell : Session) (fs : State) : Session × State :=
  let erased := List.replicate shell.bufferIdx backspace
  let shown := (List.range newLen).map fun index => shell.inputBuffer (Fin.ofNat 256 index)
  ({ shell with bufferIdx := newLen }, kprint shown (kprint erased fs))

def historyLoad (stepsBack : Nat) (shell : Session) (fs : State) : Session × State :=
  let slot := slotBack shell stepsBack
  let len := shell.historyLen slot
  redrawInputLine len
    { shell with
      inputBuffer := fun index =>
        if index.val < len then shell.history slot index else shell.inputBuffer index }
    fs

/-! ### The history file -/

/-- How many commands can be recalled. -/
def maxSteps (shell : Session) : Nat :=
  if shell.historyCount < historySize then shell.historyCount else historySize

/-- One byte of the buffer of `history_save` is never used. -/
def saveCap : Nat := historySize * 256 - 1

def saveLine (shell : Session) (buf : List Byte) (stepsBack : Nat) : List Byte :=
  let slot := slotBack shell stepsBack
  -- The source leaves the loop when the buffer is full; here a full buffer takes no byte.
  let buf := (List.range (shell.historyLen slot)).foldl
    (fun buf index => appendCapped saveCap buf (shell.history slot (Fin.ofNat 256 index))) buf
  appendCapped saveCap buf newline

/-- The bytes `history_save` collects, oldest command first. -/
def historyText (shell : Session) : List Byte :=
  (List.range (maxSteps shell)).reverse.foldl (saveLine shell) []

/-- What the write of the file returned, if it was called. -/
def historySave (drive : Drive) (shell : Session) (fs : State) : Option Bool × State :=
  let buf := historyText shell
  if buf.length = 0 then (none, fs)
  else
    let fs := (fsDeleteFileSilent drive (some historyFile) fs).2
    match fsWriteFileSilent drive (some historyFile) (some fun index => buf.getD index 0)
      (BitVec.ofNat 32 buf.length) fs with
    | (written, fs) => (some written, fs)

def trimToFirstNul (buf : Nat → Byte) (size : Nat) : Nat :=
  ((List.range size).find? fun index => buf index = 0).getD size

def historyLoadFromDisk (drive : Drive) (shell : Session) (fs : State) : Session × State :=
  if fsFileExists fs (some historyFile) then
    -- The buffer is a static variable, and this function is called once.
    match fsLoadFile drive (some historyFile) (some fun _ => 0)
      (BitVec.ofNat 32 (historySize * 256)) fs with
    | ⟨false, _, _, fs⟩ => (shell, fs)
    | ⟨true, buf, outSize, fs⟩ =>
        let size := trimToFirstNul buf (outSize.getD 0).toNat
        let push := fun shell start length =>
          historyPush (fun index => buf (start + index)) length shell
        (scan newline buf size push (size + 1) 0 0 shell, fs)
  else (shell, fs)

end MxOS.Shell
