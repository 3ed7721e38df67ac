import MxOS.Kernel.Interrupts
import MxOS.Kernel.Keyboard
import MxOS.Kernel.Processor
import MxOS.Kernel.ScreenNumbers

/-! # From an interrupt to its handler

`kernel/exceptions.c`: the stub of a vector pushes the vector, behind an error code that is
the processor's or a zero, and the common stub passes the stack to `exception_report`,
which prints what happened and halts the machine. Together with the table of gates this
says how every interrupt is answered.
-/

namespace MxOS.Exceptions

open ByteMemory Sched Processor Interrupts Screen Fs
open Exec (read_pushed)

/-! ### The stubs -/

/-- The exceptions for which the processor pushes an error code. -/
def pushesCode (vector : Fin 32) : Bool := vector.val ∈ [8, 10, 11, 12, 13, 14, 17]

/-- The stubs made by `EXC_ERR`; the others are made by `EXC_NOERR`. -/
def excErr (vector : Fin 32) : Bool :=
  vector = 8 ∨ vector = 10 ∨ vector = 11 ∨ vector = 12 ∨ vector = 13 ∨ vector = 14 ∨ vector = 17

/-- What the stub of the vector pushes. -/
def isr (vector : Fin 32) : List Word :=
  if excErr vector then [BitVec.ofNat 32 vector.val] else [0, BitVec.ofNat 32 vector.val]

/-- An exception with its error code, a line of the interrupt controllers, or the instruction
`int` in ring 3. -/
inductive Interrupt where
  | exception (vector : Fin 32) (code : Word)
  | device (line : Fin 16)
  | software (n : Fin 256)

/-- Where it enters the kernel, once `main_entry` has set everything up. -/
def Interrupt.entry (handlers : Handlers) (pics : Pics) : Interrupt → Option Entry
  | .exception vector code =>
      raise (exceptionVector vector) (if pushesCode vector then [code] else []) (mainIdt handlers)
  | .device line => ((remapPic pics).vector line).bind fun n => raise n [] (mainIdt handlers)
  | .software n => softwareInterrupt 3 n (mainIdt handlers)

end MxOS.Exceptions
