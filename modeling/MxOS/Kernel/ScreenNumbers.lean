import MxOS.Drivers.Fs

/-! # Numbers on the console

`kprint_dec` and `kprint_hex` of `kernel/screen.c` fill a buffer of eleven bytes. The
decimal digits are written from the end of the buffer on, so they are listed here from the
last to the first; the eight hexadecimal digits always stand at the same places.
-/

namespace MxOS.Screen

open ByteMemory Fs

theorem literal_append_singleton (chars : List Char) (char : Char) :
    (chars ++ [char]).map (fun char => BitVec.ofNat 8 char.toNat) =
      chars.map (fun char => BitVec.ofNat 8 char.toNat) ++ [BitVec.ofNat 8 char.toNat] :=
  List.map_append

/-- The bytes of the decimal representation. -/
def decimal (value : Nat) : List Byte := literal (Nat.repr value)

end MxOS.Screen
