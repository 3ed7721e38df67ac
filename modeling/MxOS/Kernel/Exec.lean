import MxOS.Drivers.Fs
import MxOS.Kernel.Elf
import MxOS.Kernel.Sched

/-! # Running programs from disk

`kernel/exec.c`: a program is read from the file system, loaded into one of four windows
of memory and started as a task of its own. The number of the task is remembered with the
window; a window whose task is no longer active may be used again.

The static variables of the module stand beside the byte memory, which is the kernel's.
-/

namespace MxOS.Exec

open ByteMemory Paging Sched

abbrev maxExecSlots : Nat := 4

def userProgMaxSize : Word := 0x20000

def slotStride : Word := 0x30000

/-- `SLOT_BASE` -/
def slotBase (slot : Fin 4) : Word := 0x300000 + BitVec.ofNat 32 slot.val * slotStride

def linkBase : Word := slotBase 0

def argvAreaSize : Word := 512

/-- The size of one element of `exec_stacks`. -/
def execStackSize : Word := 4096

/-- The linker also places `exec_stacks`, at a multiple of 16. -/
structure ExecLayout extends Layout where
  execStacks : Word
  stacksAligned : execStacks &&& 0xF = 0
  stacksNoWrap : execStacks.toNat + 4 * 4096 < 2 ^ 32

/-- The address of `exec_stacks[slot]`. -/
def ExecLayout.execStack (layout : ExecLayout) (slot : Fin 4) : Word :=
  layout.execStacks + BitVec.ofNat 32 slot.val * execStackSize

structure Machine where
  kernel : Kernel
  fs : Fs.State
  elfStaging : Nat → Byte
  slotPid : Fin 4 → Int

/-- The arguments of `exec_run`: the file name, where that text is, and the strings of `argv`. -/
structure Command where
  name : Fs.CString
  nameAddress : Word
  argv : List Fs.CString

def Machine.memory (machine : Machine) : Memory := machine.kernel.heap.memory

def Machine.setMemory (memory : Memory) (machine : Machine) : Machine :=
  { machine with kernel.heap.memory := memory }

def Machine.print (text : String) (machine : Machine) : Machine :=
  { machine with fs := Fs.kprint (Fs.literal text) machine.fs }

/-! ### Slots -/

def taskIsActive (pid : Int) (kernel : Kernel) : Bool := (kernel.activePid pid).isSome

def Machine.slotFree (machine : Machine) (slot : Fin 4) : Bool :=
  machine.slotPid slot < 0 || !taskIsActive (machine.slotPid slot) machine.kernel

/-- The index of a free slot, or `none` for the result -1. -/
def findFreeSlot (machine : Machine) : Option (Fin 4) :=
  (List.finRange maxExecSlots).find? machine.slotFree

/-! ### Arguments -/

/-- The assignment `ptr_table[index] = value`. -/
def setPointer (stackBase : Word) (index : Nat) (value : Word) (memory : Memory) : Memory :=
  memory.write32 (stackBase + BitVec.ofNat 32 index * 4) value

/-- The loop that copies one string. -/
def copyString (dest : Word) : List Byte → Memory → Memory
  | [], memory => memory
  | byte :: rest, memory => copyString (dest + 1) rest (memory.write8 dest byte)

/-- The loop that clears `remaining` pointers from number `index` on. -/
def clearPointers (stackBase : Word) : Nat → Nat → Memory → Memory
  | 0, _, memory => memory
  | remaining + 1, index, memory =>
      clearPointers stackBase remaining (index + 1) (setPointer stackBase index 0 memory)

/-- The loop over the arguments, from number `index` on. The strings start `used` bytes above
the base; the list is cut where they no longer fit. -/
def argvLoop (stackBase : Word) : List Fs.CString → Nat → Word → Memory → Memory
  | [], _, _, memory => memory
  | argument :: rest, index, used, memory =>
      let len : Word := BitVec.ofNat 32 (argument.bytes.length + 1)
      if used + len > argvAreaSize then
        clearPointers stackBase (rest.length + 1) index (setPointer stackBase index 0 memory)
      else
        let memory := copyString (stackBase + used) (argument.bytes ++ [0]) memory
        argvLoop stackBase rest (index + 1) (used + len)
          (setPointer stackBase index (stackBase + used) memory)

def buildArgv (stackBase : Word) (argv : List Fs.CString) (memory : Memory) : Memory :=
  let used : Word := BitVec.ofNat 32 (argv.length + 1) * 4
  setPointer stackBase argv.length 0 (argvLoop stackBase argv 0 used memory)

/-! ### Starting a program -/

/-- The loop that clears the window. -/
def clearWindow (base : Word) (memory : Memory) : Memory := fun address =>
  if (address - base).toNat < userProgMaxSize.toNat then 0 else memory address

def loadRequest (slot : Fin 4) (elfStaging : Nat → Byte) (elfSize : Word) : Elf.Request where
  image := fun offset => elfStaging offset.toNat
  imageSize := elfSize
  loadBase := slotBase slot
  windowSize := userProgMaxSize
  linkBase := linkBase

def userTask (layout : ExecLayout) (command : Command) (slot : Fin 4) (entry : Word) :
    UserTask where
  entry := entry
  name := command.nameAddress
  userStackTop := layout.execStack slot + execStackSize
  userStackSize := execStackSize
  codeBase := slotBase slot
  codeSize := userProgMaxSize
  initEbx := BitVec.ofNat 32 command.argv.length
  initEcx := layout.execStack slot

/-- The end of `exec_run`, once the program is in its window. -/
def startTask (layout : ExecLayout) (command : Command) (slot : Fin 4) (entry : Word)
    (machine : Machine) : Option (Option (Fin 16) × Machine) :=
  let machine :=
    machine.setMemory (buildArgv (layout.execStack slot) command.argv machine.memory)
  match createUserTaskArgv layout.toLayout (userTask layout command slot entry) machine.kernel with
  | none => none
  | some (none, kernel) =>
      some (none, { machine with kernel := kernel }.print
        "Impossible de creer la tache (limite atteinte).\n")
  | some (some pid, kernel) =>
      some (some pid,
        { machine with
          kernel := kernel
          slotPid := Function.update machine.slotPid slot pid.val })

/-- What `exec_run` does with the answer of `elf_load`. -/
def finishLaunch (layout : ExecLayout) (command : Command) (slot : Fin 4) (machine : Machine) :
    Except Elf.LoadError Word × Elf.Loader → Option (Option (Fin 16) × Machine)
  | (.error reason, loader) =>
      some (none, (machine.setMemory loader.bus.memory).print reason.text)
  | (.ok entry, loader) =>
      startTask layout command slot entry (machine.setMemory loader.bus.memory)

/-- What `exec_run` does once it has found a slot. -/
def launch (layout : ExecLayout) (drive : Ata.Drive) (command : Command) (slot : Fin 4)
    (machine : Machine) : Option (Option (Fin 16) × Machine) :=
  let machine := machine.setMemory (clearWindow (slotBase slot) machine.memory)
  let loaded := Fs.fsLoadFile drive (some command.name) (some machine.elfStaging)
    userProgMaxSize machine.fs
  let machine := { machine with fs := loaded.fs, elfStaging := loaded.dest }
  if !loaded.ok then some (none, machine)
  else
    let request := loadRequest slot machine.elfStaging (loaded.outSize.getD 0)
    finishLaunch layout command slot machine (Elf.elfLoad request machine.memory)

/-- The process number, or `none` inside for the result -1. The outer `none` stands for an
endless walk over a heap that is not well formed. -/
def execRun (layout : ExecLayout) (drive : Ata.Drive) (command : Command) (machine : Machine) :
    Option (Option (Fin 16) × Machine) :=
  match findFreeSlot machine with
  | none =>
      some (none, machine.print
        "Trop de programmes charges simultanement (limite atteinte).\n")
  | some slot => launch layout drive command slot machine

/-! ### The programs of the image -/

/-- The two programs that the build embeds in the image of the kernel, which lies below 1 MiB. -/
structure Programs where
  hello : List Byte
  echo : List Byte
  helloSmall : hello.length ≤ 0x100000
  echoSmall : echo.length ≤ 0x100000

def helloFile : Fs.CString := ⟨Fs.literal "hello", by decide⟩

def echoFile : Fs.CString := ⟨Fs.literal "echo", by decide⟩

/-- One of the two blocks of `exec_seed_programs`. -/
def seedProgram (drive : Ata.Drive) (name : Fs.CString) (image : List Byte) (fs : Fs.State) :
    Fs.State :=
  if !Fs.fsFileExists fs (some name) then
    let size : Word := BitVec.ofNat 32 image.length
    if size > 0 then
      (Fs.fsWriteFile drive (some name) (some fun index => image.getD index 0) size fs).2
    else fs
  else fs

def execSeedPrograms (drive : Ata.Drive) (programs : Programs) (fs : Fs.State) : Fs.State :=
  seedProgram drive echoFile programs.echo (seedProgram drive helloFile programs.hello fs)

end MxOS.Exec
