import MxOS.Lib.Memory
import MxOS.Lib.Ring

/-! # The keyboard

`kernel/keyboard.c`: the interrupt handler decodes the scancodes of the keyboard and
puts characters in a queue of 256 bytes, from which the Shell takes them. The two indices
of the queue are 8-bit words that wrap. The places of the queue that were read or written
are recorded.
-/

namespace MxOS.Input

open ByteMemory

/-- The size of `key_queue`. -/
abbrev keyQueueSize : Nat := 256

instance keyQueueSizeNeZero : NeZero 256 := ⟨by decide⟩

/-- The static variables, with the memory from `key_queue` on. -/
structure Keyboard where
  keyQueue : Nat → Byte
  queueRead : Byte
  queueWrite : Byte
  shiftPressed : Bool
  extendedPrefix : Bool
  accesses : List Nat

/-- Static memory is zero when the machine starts. -/
def Keyboard.boot : Keyboard := ⟨fun _ => 0, 0, 0, false, false, []⟩

def keyArrowUp : Byte := 0x11
def keyArrowDown : Byte := 0x12

/-! ### The queue -/

/-- There is room for another character. -/
def Keyboard.accepts (keyboard : Keyboard) : Bool := keyboard.queueWrite + 1 ≠ keyboard.queueRead

def queuePush (char : Byte) (keyboard : Keyboard) : Keyboard :=
  if keyboard.accepts then
    { keyboard with
      keyQueue := Function.update keyboard.keyQueue keyboard.queueWrite.toNat char
      queueWrite := keyboard.queueWrite + 1
      accesses := keyboard.accesses ++ [keyboard.queueWrite.toNat] }
  else keyboard

/-- The character `keyboard_read_char` copies. -/
def Keyboard.front (keyboard : Keyboard) : Byte := keyboard.keyQueue keyboard.queueRead.toNat

/-- The read of `key_queue[queue_read]`. -/
def Keyboard.copy (keyboard : Keyboard) : Byte × Keyboard :=
  (keyboard.front, { keyboard with accesses := keyboard.accesses ++ [keyboard.queueRead.toNat] })

def Keyboard.advance (keyboard : Keyboard) : Keyboard :=
  { keyboard with queueRead := keyboard.queueRead + 1 }

/-- The character read, or `none` for the result 0. -/
def keyboardReadChar (keyboard : Keyboard) : Option Byte × Keyboard :=
  if keyboard.queueRead = keyboard.queueWrite then (none, keyboard)
  else
    let (out, keyboard) := keyboard.copy
    (some out, keyboard.advance)

/-! ### Scancodes -/

def ascii (text : String) : List Byte := text.toList.map fun char => BitVec.ofNat 8 char.toNat

/-- The characters of the keys without Shift, by scancode. -/
def kbd : List Byte :=
  [0, 27] ++ ascii "1234567890-=\x08\tqwertyuiop[]\n" ++ [0] ++ ascii "asdfghjkl;'`" ++ [0] ++
    ascii "\\zxcvbnm,./" ++ [0] ++ ascii "*" ++ [0] ++ ascii " "

def kbdShift : List Byte :=
  [0, 27] ++ ascii "!@#$%^&*()_+\x08\tQWERTYUIOP\x7b\x7d\n" ++ [0] ++ ascii "ASDFGHJKL:\"~" ++ [0] ++
    ascii "|ZXCVBNM<>?" ++ [0] ++ ascii "*" ++ [0] ++ ascii " "

/-- What the handler does with a scancode: the character it passes to `queue_push`, if any, and
the state of the Shift keys and of the prefix. -/
def decode (sc : Byte) (keyboard : Keyboard) : Option Byte × Keyboard :=
  if sc = 0xE0 then (none, { keyboard with extendedPrefix := true })
  else
    let make := sc &&& 0x80 = 0
    let code := sc &&& 0x7F
    if keyboard.extendedPrefix then
      let keyboard := { keyboard with extendedPrefix := false }
      if make then
        if code = 0x48 then (some keyArrowUp, keyboard)
        else if code = 0x50 then (some keyArrowDown, keyboard)
        else (none, keyboard)
      else (none, keyboard)
    else if sc = 0x2A ∨ sc = 0x36 then (none, { keyboard with shiftPressed := true })
    else if sc = 0xAA ∨ sc = 0xB6 then (none, { keyboard with shiftPressed := false })
    else if make ∧ code.toNat < kbd.length then
      let char := ((if keyboard.shiftPressed then kbdShift else kbd)[code.toNat]?).getD 0
      (if char ≠ 0 then some char else none, keyboard)
    else (none, keyboard)

def keyboardHandler (sc : Byte) (keyboard : Keyboard) : Keyboard :=
  match decode sc keyboard with
  | (some char, keyboard) => queuePush char keyboard
  | (none, keyboard) => keyboard

end MxOS.Input
