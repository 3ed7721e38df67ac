import Mathlib.Data.List.TakeWhile
import MxOS.Drivers.FsReading
import MxOS.Kernel.Exec
import MxOS.Kernel.SchedTicks
import MxOS.Kernel.Screen
import MxOS.Kernel.ShellEditor

/-! # The commands of the shell

`shell_execute` compares the input line with the commands it knows and carries the
command out. Arguments are cut out of the input buffer in place, and a program that is
started keeps pointers into it: its name is not copied.

The screen is the text printed since it was last cleared.
-/

namespace MxOS.Shell

open ByteMemory Ata Fs Lines Input Sched Exec

abbrev Buffer := Fin 256 → Byte

/-- The linker also places `input_buffer` and the constant strings. -/
structure ShellLayout extends ExecLayout where
  inputBuffer : Word
  constant : Word → List Byte
  bufferNotNull : inputBuffer ≠ 0
  bufferNoWrap : inputBuffer.toNat + 256 ≤ 2 ^ 32

/-- A layout such as `linker.ld` gives, with the variables in the static memory. -/
def imageShell : ShellLayout :=
  { Paging.imageLayout with
    execStacks := 0x1B000
    stacksAligned := by decide
    stacksNoWrap := by decide
    inputBuffer := 0x18000
    constant := fun _ => literal "Shell"
    bufferNotNull := by decide
    bufferNoWrap := by decide }

/-- The machine with the variables of the shell. Of the text printed, the first `cleared`
characters are no longer on the screen. -/
structure System where
  machine : Machine
  editor : Editor
  cleared : Nat

def System.print (text : List Byte) (system : System) : System :=
  { system with machine.fs := kprint text system.machine.fs }

def System.clearScreen (system : System) : System :=
  { system with cleared := system.machine.fs.console.length }

/-- The screen, if it was `boot` when the machine was switched on. -/
def System.screen (boot : Screen.Display) (system : System) : Screen.Display :=
  Screen.print (system.machine.fs.console.drop system.cleared) (Screen.clearScreen boot)

def System.setBuffer (buffer : Buffer) (system : System) : System :=
  { system with editor.inputBuffer := buffer }

/-! ### Strings in the input buffer -/

def space : Byte := 0x20

/-- The byte `*p` for a pointer to the given place of the buffer. -/
def byteAt (buffer : Buffer) (p : Nat) : Byte := buffer (Fin.ofNat 256 p)

def bytesFrom (buffer : Buffer) (p : Nat) : List Byte := slice (byteAt buffer) p (256 - p)

/-- The string at a place of the buffer. -/
def textAt (buffer : Buffer) (p : Nat) : CString where
  bytes := (bytesFrom buffer p).takeWhile (· ≠ 0)
  nulFree := fun zero => absurd (List.mem_takeWhile_imp zero) (by decide)

/-- A loop that advances a pointer as long as the bytes pass a test. -/
def scanWhile (test : Byte → Bool) (buffer : Buffer) (p : Nat) : Nat :=
  p + ((bytesFrom buffer p).takeWhile test).length

def mStrncmp : List Byte → List Byte → Nat → Int
  | _, _, 0 => 0
  | [], [], _ + 1 => 0
  | left :: _, [], _ + 1 => left.toNat
  | [], right :: _, _ + 1 => -right.toNat
  | left :: lefts, right :: rights, n + 1 =>
      if left = right then mStrncmp lefts rights n else left.toNat - right.toNat

def isCommand (buffer : Buffer) (command : String) : Bool :=
  mStrcmp (textAt buffer 0).bytes (literal command) = 0

def startsCommand (buffer : Buffer) (command : String) : Bool :=
  mStrncmp (textAt buffer 0).bytes (literal command) command.length = 0

def isDigit (c : Byte) : Bool := 0x30 ≤ c ∧ c ≤ 0x39

/-- The loop that reads a decimal number: its value and the place behind it. -/
def readNumber (buffer : Buffer) (p : Nat) : Word × Nat :=
  let digits := (bytesFrom buffer p).takeWhile isDigit
  (digits.foldl (fun value digit => value * 10 + (digit - 0x30).setWidth 32) 0,
    scanWhile isDigit buffer p)

def kprintDec (value : Word) : List Byte := literal (Nat.repr value.toNat)

/-! ### Starting programs -/

abbrev execMaxArgs : Nat := 8

/-- The loop that splits the arguments of `exec`, with room for `remaining` more: where they
start, and the buffer in which they are terminated. -/
def splitArguments : Nat → Nat → Buffer → List Nat × Buffer
  | 0, _, buffer => ([], buffer)
  | remaining + 1, p, buffer =>
      if byteAt buffer p = 0 then ([], buffer)
      else
        let stop := scanWhile (fun c => c ≠ 0 ∧ c ≠ space) buffer p
        if byteAt buffer stop = space then
          let ended := Function.update buffer (Fin.ofNat 256 stop) 0
          let rest := splitArguments remaining (scanWhile (· = space) ended (stop + 1)) ended
          (p :: rest.1, rest.2)
        else
          let rest := splitArguments remaining stop buffer
          (p :: rest.1, rest.2)

/-- The `argv` that `shell_execute` makes of the line, and the buffer afterwards. -/
def execArguments (buffer : Buffer) : List Nat × Buffer :=
  splitArguments execMaxArgs (scanWhile (· = space) buffer 5) buffer

/-- The arguments of the call of `exec_run`, for pointers to the given places. -/
def execCommand (layout : ShellLayout) (name : Nat) (argv : List Nat) (buffer : Buffer) :
    Exec.Command where
  name := textAt buffer name
  nameAddress := layout.inputBuffer + BitVec.ofNat 32 name
  argv := argv.map (textAt buffer)

def runExec (layout : ShellLayout) (drive : Drive) (system : System) : Option System :=
  let arguments := execArguments system.editor.inputBuffer
  let split := system.setBuffer arguments.2
  match arguments.1 with
  | [] => some (split.print (literal "Usage : exec <fichier> [arguments...]"))
  | name :: others =>
      (execRun layout.toExecLayout drive (execCommand layout name (name :: others) arguments.2)
        split.machine).map fun answer => { split with machine := answer.2 }

/-! ### The other commands -/

def runKill (system : System) : System :=
  let buffer := system.editor.inputBuffer
  let p := scanWhile (· = space) buffer 5
  if !isDigit (byteAt buffer p) then system.print (literal "Usage : kill <pid>")
  else
    let pid := (readNumber buffer p).1
    match taskKill pid.toInt system.machine.kernel with
    | (true, kernel) =>
        System.print (literal "Tache " ++ kprintDec pid ++ literal " terminee.")
          { system with machine.kernel := kernel }
    | (false, kernel) =>
        System.print (literal
            "Impossible de terminer cette tache (PID invalide, inactive, ou tache courante).")
          { system with machine.kernel := kernel }

def runPriority (system : System) : System :=
  let buffer := system.editor.inputBuffer
  let usage := system.print (literal "Usage : priority <pid> <niveau>")
  let p := scanWhile (· = space) buffer 9
  if !isDigit (byteAt buffer p) then usage
  else
    let pid := readNumber buffer p
    let p := scanWhile (· = space) buffer pid.2
    let neg := byteAt buffer p = 0x2D
    let p := if neg then p + 1 else p
    if !isDigit (byteAt buffer p) then usage
    else
      let level := (readNumber buffer p).1
      let level := if neg then -level else level
      System.print (literal "Priorite mise a jour.")
        { system with
          machine.kernel := taskSetPriority pid.1.toInt level.toInt system.machine.kernel }

def runWrite (drive : Drive) (system : System) : System :=
  let buffer := system.editor.inputBuffer
  let name := scanWhile (· = space) buffer 6
  let sep := scanWhile (fun c => c ≠ 0 ∧ c ≠ space) buffer name
  if byteAt buffer sep = space then
    let ended := Function.update buffer (Fin.ofNat 256 sep) 0
    let content := (textAt ended (sep + 1)).bytes
    let fs := (fsWriteFile drive (some (textAt ended name))
      (some fun index => byteAt ended (sep + 1 + index)) (BitVec.ofNat 32 content.length)
      system.machine.fs).2
    { system.setBuffer ended with machine.fs := fs }
  else system.print (literal "Usage : write <nom> <contenu>")

/-- The string that a name of the task table points to. -/
def nameText (layout : ShellLayout) (buffer : Buffer) (name : Word) : List Byte :=
  if name = 0 then literal "?"
  else if (name - layout.inputBuffer).toNat < 256 then
    (textAt buffer (name - layout.inputBuffer).toNat).bytes
  else layout.constant name

/-- What `sched_dump_tasks` prints for one task. -/
def taskLine (kernel : Kernel) (name : List Byte) (pid : Fin 16) : List Byte :=
  let task := kernel.tasks pid
  kprintDec (BitVec.ofNat 32 pid.val) ++ literal "    " ++ name ++ literal "            " ++
    literal (if pid = kernel.currentTask then "en cours  "
      else if task.sleeping then "sommeil   " else "prete     ") ++
    literal (if task.addrSpace.isSome then "isole (ring3)" else "noyau partage") ++ literal "\n"

def schedDumpTasks (layout : ShellLayout) (buffer : Buffer) (kernel : Kernel) : List Byte :=
  literal "PID  NOM              ETAT       ESPACE\n" ++
    ((List.finRange maxTasks).filter fun pid => (kernel.tasks pid).active).flatMap fun pid =>
      taskLine kernel (nameText layout buffer (kernel.tasks pid).name) pid

def fsList (fs : State) : State :=
  kprint (literal "Fichiers sur MxOS :\n" ++
    ((List.finRange 32).filter fun slot => validName (fs.root.files slot).name).flatMap fun slot =>
      literal "- " ++ storedBytes (fs.root.files slot).name ++ literal "\n") fs

def helpText : List Byte := literal ("Commandes : help, clear, ver, ls, cat <file>, " ++
  "write <file> <contenu>,\nrm <file>, exec <file> [args...], ps, kill <pid>, " ++
  "priority <pid> <niveau>,\nmem, uptime, reboot")

def runMem (system : System) : Option System :=
  (Mem.heapStats system.machine.kernel.heap).map fun stats =>
    system.print (literal "Heap - utilisee : " ++ kprintDec stats.1 ++
      literal " octets, libre : " ++ kprintDec stats.2 ++ literal " octets")

def runUptime (system : System) : System :=
  let ticks := getTicks system.machine.kernel
  let freq := system.machine.kernel.frequency
  let seconds := if freq ≠ 0 then ticks / freq else 0
  system.print (literal "Uptime : " ++ kprintDec seconds ++ literal " secondes (" ++
    kprintDec ticks ++ literal " ticks)")

/-- The chain of comparisons of `shell_execute`. The machine stops at `reboot`. -/
def runCommand (layout : ShellLayout) (drive : Drive) (system : System) : Option System :=
  let buffer := system.editor.inputBuffer
  let fs := system.machine.fs
  if isCommand buffer "help" then some (system.print helpText)
  else if isCommand buffer "clear" then some system.clearScreen
  else if isCommand buffer "ver" then
    some (system.print (literal "MxOS Kernel v1.1.2 (Preemptive/ATA-PIO)"))
  else if isCommand buffer "ls" then some { system with machine.fs := fsList fs }
  else if startsCommand buffer "cat " then
    some { system with machine.fs := fsReadFile drive (some (textAt buffer 4)) fs }
  else if startsCommand buffer "rm " then
    some { system with machine.fs := (fsDeleteFile drive (some (textAt buffer 3)) fs).2 }
  else if startsCommand buffer "exec " then runExec layout drive system
  else if isCommand buffer "ps" then
    some (system.print (schedDumpTasks layout buffer system.machine.kernel))
  else if startsCommand buffer "kill " then some (runKill system)
  else if startsCommand buffer "priority " then some (runPriority system)
  else if startsCommand buffer "write " then some (runWrite drive system)
  else if isCommand buffer "mem" then runMem system
  else if isCommand buffer "uptime" then some (runUptime system)
  else if isCommand buffer "reboot" then none
  else if system.editor.bufferIdx > 0 then
    some (system.print (literal "Commande inconnue : " ++ (textAt buffer 0).bytes))
  else some system

/-! ### Keys -/

/-- The state in which the commands are compared with the line. -/
def System.enter (drive : Drive) (system : System) : System :=
  let printed := system.print (literal "\n")
  let entered := enterLine drive printed.editor printed.machine.fs
  { printed with editor := entered.1, machine.fs := entered.2 }

/-- The prompt is printed and the line is empty. -/
def System.prompt (system : System) : System :=
  { system.print (literal "\n> ") with editor.bufferIdx := 0 }

def shellExecute (layout : ShellLayout) (drive : Drive) (system : System) : Option System :=
  (runCommand layout drive (system.enter drive)).map System.prompt

def System.edit (c : Byte) (system : System) : System :=
  let edited := Shell.edit c system.editor system.machine.fs
  { system with editor := edited.1, machine.fs := edited.2 }

def shellUpdate (layout : ShellLayout) (drive : Drive) (c : Byte) (system : System) :
    Option System :=
  if c = newline then shellExecute layout drive system else some (system.edit c)

/-! ### Start -/

def motdFile : CString := ⟨literal "motd", by decide⟩

def shellShowMotd (drive : Drive) (fs : State) : State :=
  if fsFileExists fs (some motdFile) then
    match fsLoadFile drive (some motdFile) (some fun _ => 0) 512 fs with
    | ⟨false, _, _, fs⟩ => fs
    | ⟨true, buf, outSize, fs⟩ =>
        let size := trimToFirstNul buf (outSize.getD 0).toNat
        kprint (literal "\n--- " ++ motdFile.bytes ++ literal " ---\n" ++ slice buf 0 size ++
          literal "\n") fs
  else fs

def shellInit (drive : Drive) (fs : State) : Editor × State :=
  let fs := kprint
    (literal "\nMxOS Shell v1.0\nTapez 'help' pour la liste des commandes.\n") fs
  let loaded := historyLoadFromDisk drive .initial fs
  ({ Editor.initial with toSession := { loaded.1 with bufferIdx := 0 } },
    kprint (literal "> ") (shellShowMotd drive loaded.2))

/-! ### Runs -/

/-- A key arrives at the shell, or another task acts, or memory and files change. -/
inductive Event where
  | key (c : Byte)
  | act (action : Act)
  | elsewhere (memory : Memory) (fs : State)

def Event.step (layout : ShellLayout) (drive : Drive) : Event → System → Option System
  | .key c, system => shellUpdate layout drive c system
  | .act action, system =>
      (action.step layout.toLayout system.machine.kernel).map fun kernel =>
        { system with machine.kernel := kernel }
  | .elsewhere memory fs, system =>
      some { system with machine := { system.machine.setMemory memory with fs := fs } }

end MxOS.Shell
