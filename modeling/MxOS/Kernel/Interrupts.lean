import MxOS.Lib.Memory
import Mathlib.Data.Fintype.Basic

/-! # Vectors and gates

`kernel/interrupts.c` and the calls that fill the table: `install_exception_handlers` of
`kernel/exceptions.c`, `syscall_init` of `kernel/syscall.c` and `main_entry`. A gate is read
as the processor reads it. The two interrupt controllers are programmed by `remap_pic`,
which says what vector a device raises.
-/

namespace MxOS.Interrupts

open ByteMemory

/-! ### The table -/

structure IdtEntry where
  baseLow : BitVec 16
  sel : BitVec 16
  always0 : Byte
  flags : Byte
  baseHigh : BitVec 16

abbrev Idt := Fin 256 → IdtEntry

def setIdtGateFlags (n : Fin 256) (handler : Word) (flags : Byte) (idt : Idt) : Idt :=
  Function.update idt n
    { baseLow := (handler &&& 0xFFFF).setWidth 16
      sel := 0x08
      always0 := 0
      flags := flags
      baseHigh := (handler >>> 16 &&& 0xFFFF).setWidth 16 }

/-- Present, ring 0, 32-bit interrupt gate. -/
def setIdtGate (n : Fin 256) (handler : Word) (idt : Idt) : Idt :=
  setIdtGateFlags n handler 0x8E idt

/-- The functions that gates lead to. -/
inductive Handler where
  | isr (vector : Fin 32)
  | timerHandler
  | keyboardHandler
  | syscallHandler
  deriving DecidableEq

/-- The addresses that the linker gives them. -/
structure Handlers where
  address : Handler → Word
  distinct : Function.Injective address

variable (handlers : Handlers)

/-- The vector of an exception. -/
def exceptionVector (vector : Fin 32) : Fin 256 := Fin.castLE (by decide) vector

def installExceptionHandlers (idt : Idt) : Idt :=
  (List.finRange 32).foldl (fun idt vector =>
    setIdtGate (exceptionVector vector) (handlers.address (.isr vector)) idt) idt

def syscallInit (idt : Idt) : Idt :=
  setIdtGateFlags 0x80 (handlers.address .syscallHandler) 0xEE idt

/-- The table that `main_entry` fills; static memory is zero. -/
def mainIdt : Idt :=
  syscallInit handlers
    (setIdtGate 33 (handlers.address .keyboardHandler)
      (setIdtGate 32 (handlers.address .timerHandler)
        (installExceptionHandlers handlers fun _ => ⟨0, 0, 0, 0, 0⟩)))

/-! ### The processor -/

namespace IdtEntry

variable (entry : IdtEntry)

def offset : Word := entry.baseHigh ++ entry.baseLow

/-- The lowest privilege from which `int` may use the gate. -/
def dpl : Nat := (entry.flags >>> 5 &&& 3).toNat

def present : Bool := entry.flags.getLsbD 7

/-- A 32-bit interrupt gate, which masks interrupts. -/
def interruptGate : Bool := entry.flags &&& 0x1F = 0x0E

end IdtEntry

/-- Where an interrupt enters, and what is pushed behind the frame. -/
structure Entry where
  offset : Word
  codes : List Word

/-- The gate of a vector that the processor or a device raises. -/
def raise (vector : Fin 256) (codes : List Word) (idt : Idt) : Option Entry :=
  if (idt vector).interruptGate ∧ (idt vector).present then some ⟨(idt vector).offset, codes⟩
  else none

/-- The instruction `int`. What is not allowed is a general protection exception, with the
vector in its code. -/
def softwareInterrupt (privilege : Nat) (vector : Fin 256) (idt : Idt) : Option Entry :=
  let code : Word := BitVec.ofNat 32 (vector.val * 8 + 2)
  if (idt vector).interruptGate ∧ privilege ≤ (idt vector).dpl then
    if (idt vector).present then some ⟨(idt vector).offset, []⟩ else raise 11 [code] idt
  else raise 13 [code] idt

/-! ### The interrupt controllers -/

/-- The word that a controller expects next at its data port. -/
inductive Stage where
  | mask
  | vector (more : Bool)
  | cascade (more : Bool)
  | mode
  deriving DecidableEq

/-- The first vector of a controller and the lines that it masks. -/
structure Pic where
  base : Byte
  mask : Byte
  stage : Stage

/-- The command port: bit 4 starts the initialisation, bit 0 announces its last word. -/
def Pic.command (data : Byte) (pic : Pic) : Pic :=
  if data.getLsbD 4 then { pic with mask := 0, stage := .vector (data.getLsbD 0) } else pic

/-- The data port. -/
def Pic.data (data : Byte) (pic : Pic) : Pic :=
  match pic.stage with
  | .mask => { pic with mask := data }
  | .vector more => { pic with base := data &&& 0xF8, stage := .cascade more }
  | .cascade more => { pic with stage := if more then .mode else .mask }
  | .mode => { pic with stage := .mask }

structure Pics where
  master : Pic
  slave : Pic

def outb (port : BitVec 16) (data : Byte) (pics : Pics) : Pics :=
  if port = 0x20 then { pics with master := pics.master.command data }
  else if port = 0x21 then { pics with master := pics.master.data data }
  else if port = 0xA0 then { pics with slave := pics.slave.command data }
  else if port = 0xA1 then { pics with slave := pics.slave.data data }
  else pics

def remapPic (pics : Pics) : Pics :=
  outb 0xA1 0xFF (outb 0x21 0xFC
    (outb 0xA1 0x01 (outb 0x21 0x01
      (outb 0xA1 0x02 (outb 0x21 0x04
        (outb 0xA1 0x28 (outb 0x21 0x20
          (outb 0xA0 0x11 (outb 0x20 0x11 pics)))))))))

/-- The vector of a line of the controllers, unless it is masked. The slave is behind line 2. -/
def Pics.vector (line : Fin 16) (pics : Pics) : Option (Fin 256) :=
  if line.val < 8 then
    if pics.master.mask.getLsbD line.val then none
    else some (Fin.ofNat 256 (pics.master.base.toNat + line.val))
  else if pics.slave.mask.getLsbD (line.val - 8) ∨ pics.master.mask.getLsbD 2 then none
  else some (Fin.ofNat 256 (pics.slave.base.toNat + (line.val - 8)))

/-! ### What is wired -/

theorem toNat_low (word : Word) : ((word &&& 0xFFFF).setWidth 16).toNat = word.toNat % 65536 := by
  have mask : word.toNat &&& 65535 = word.toNat % 65536 := Nat.and_two_pow_sub_one_eq_mod _ 16
  rw [BitVec.toNat_setWidth, BitVec.toNat_and]
  change (word.toNat &&& 65535) % 65536 = _
  omega

end MxOS.Interrupts
