import MxOS.Kernel.KeyboardQueue

/-! # The Shift keys

The keyboard reports each press and each release, and the handler keeps one flag for the
two Shift keys. The keys held down are computed here from the scancodes alone. The flag is
set if and only if the last Shift code was a press, so a character comes from the wrong
table exactly when one Shift key has been released while the other is still held.
-/

namespace MxOS.Input

open ByteMemory

/-! ### The keys held down -/

/-- What the scancodes so far say about the two Shift keys. -/
structure ShiftKeys where
  left : Bool
  right : Bool
  /-- The last code of a Shift key was a press. -/
  lastPressed : Bool
  /-- The next byte is an extended code. -/
  extended : Bool
  deriving DecidableEq

namespace ShiftKeys

def released : ShiftKeys := ⟨false, false, false, false⟩

/-- At least one of the two keys is held down. -/
def held (keys : ShiftKeys) : Bool := keys.left || keys.right

def next (keys : ShiftKeys) (sc : Byte) : ShiftKeys :=
  if sc = 0xE0 then { keys with extended := true }
  else if keys.extended then { keys with extended := false }
  else if sc = 0x2A then { keys with left := true, lastPressed := true }
  else if sc = 0x36 then { keys with right := true, lastPressed := true }
  else if sc = 0xAA then { keys with left := false, lastPressed := false }
  else if sc = 0xB6 then { keys with right := false, lastPressed := false }
  else keys

/-- A Shift key is pressed only while it is up, and released only while it is down. -/
def allows (keys : ShiftKeys) (sc : Byte) : Bool :=
  if keys.extended then true
  else if sc = 0x2A then !keys.left
  else if sc = 0x36 then !keys.right
  else if sc = 0xAA then keys.left
  else if sc = 0xB6 then keys.right
  else true

/-- The presses and the releases of each Shift key alternate. -/
def alternates (keys : ShiftKeys) : List Byte → Bool
  | [] => true
  | sc :: rest => keys.allows sc && (keys.next sc).alternates rest

end ShiftKeys

/-- The keys after the given scancodes. -/
def shiftKeys (stream : List Byte) : ShiftKeys := stream.foldl ShiftKeys.next ShiftKeys.released

/-- The scancodes among the events. -/
def scancodes (events : List Event) : List Byte :=
  events.filterMap fun event =>
    match event with
    | .interrupt sc => some sc
    | _ => none

/-- The character of a key, with or without Shift. -/
def typed (shifted : Bool) (code : Byte) : Option Byte :=
  let char := ((if shifted then kbdShift else kbd)[code.toNat]?).getD 0
  if char ≠ 0 then some char else none

/-! ### The flag of the handler -/

/-- The variables of the handler agree with the scancodes so far. -/
structure Tracks (keys : ShiftKeys) (keyboard : Keyboard) : Prop where
  extended : keyboard.extendedPrefix = keys.extended
  shift : keyboard.shiftPressed = keys.lastPressed
  held : keys.lastPressed = true → keys.held = true

theorem boot_tracks : Tracks ShiftKeys.released Keyboard.boot :=
  ⟨rfl, rfl, fun pressed => absurd pressed Bool.false_ne_true⟩

section Decode

variable {sc : Byte} {keyboard : Keyboard}

/-- An extended code ends the prefix and does nothing else to the variables. -/
theorem decode_extended (code : sc ≠ 0xE0) (extended : keyboard.extendedPrefix = true) :
    (decode sc keyboard).2 = { keyboard with extendedPrefix := false } := by
  simp only [decode, if_neg code, extended, ↓reduceIte]
  split
  · split
    · rfl
    · split <;> rfl
  · rfl

theorem decode_press (plain : keyboard.extendedPrefix = false) (press : sc = 0x2A ∨ sc = 0x36) :
    decode sc keyboard = (none, { keyboard with shiftPressed := true }) := by
  have code : sc ≠ 0xE0 := by
    obtain rfl | rfl := press <;> decide
  simp only [decode, if_neg code, plain, Bool.false_eq_true, ↓reduceIte, if_pos press]

theorem decode_release (plain : keyboard.extendedPrefix = false)
    (release : sc = 0xAA ∨ sc = 0xB6) :
    decode sc keyboard = (none, { keyboard with shiftPressed := false }) := by
  have code : sc ≠ 0xE0 ∧ ¬ (sc = 0x2A ∨ sc = 0x36) := by
    obtain rfl | rfl := release <;> decide
  simp only [decode, if_neg code.1, plain, Bool.false_eq_true, ↓reduceIte, if_neg code.2,
    if_pos release]

/-- Another key leaves the variables alone. -/
theorem decode_key (code : sc ≠ 0xE0) (plain : keyboard.extendedPrefix = false)
    (press : ¬ (sc = 0x2A ∨ sc = 0x36)) (release : ¬ (sc = 0xAA ∨ sc = 0xB6)) :
    (decode sc keyboard).2 = keyboard := by
  simp only [decode, if_neg code, plain, Bool.false_eq_true, ↓reduceIte, if_neg press,
    if_neg release]
  split <;> rfl

/-- The codes of the tables are their own make codes. -/
theorem make_of_lt (inTable : sc.toNat < kbd.length) : sc &&& 0x80 = 0 ∧ sc &&& 0x7F = sc := by
  have small : sc.toNat < 58 := inTable
  have low : (sc &&& 0x7F).toNat = sc.toNat % 2 ^ 7 := by
    rw [BitVec.toNat_and]
    exact Nat.and_two_pow_sub_one_eq_mod sc.toNat 7
  have whole : sc &&& 0x7F = sc := by
    apply BitVec.eq_of_toNat_eq
    rw [low, Nat.mod_eq_of_lt (by omega)]
  refine ⟨?_, whole⟩
  rw [← whole, BitVec.and_assoc]
  exact BitVec.and_zero

/-- A code of the tables gives the character the flag selects. The Shift keys are in the
tables too, without a character. -/
theorem decode_char (plain : keyboard.extendedPrefix = false) (inTable : sc.toNat < kbd.length) :
    (decode sc keyboard).1 = typed keyboard.shiftPressed sc := by
  obtain ⟨make, whole⟩ := make_of_lt inTable
  by_cases press : sc = 0x2A ∨ sc = 0x36
  · rw [decode_press plain press]
    obtain rfl | rfl := press <;> cases keyboard.shiftPressed <;> rfl
  · have small : sc.toNat < 58 := inTable
    have code : sc ≠ 0xE0 := by
      rintro rfl
      exact absurd small (by decide)
    have release : ¬ (sc = 0xAA ∨ sc = 0xB6) := by
      rintro (rfl | rfl) <;> exact absurd small (by decide)
    simp only [decode, if_neg code, plain, Bool.false_eq_true, ↓reduceIte, if_neg press,
      if_neg release, make, whole, inTable, and_self, typed]

end Decode

theorem Tracks.decode {keys : ShiftKeys} {keyboard : Keyboard} (tracks : Tracks keys keyboard)
    (sc : Byte) : Tracks (keys.next sc) (decode sc keyboard).2 := by
  obtain ⟨extended, shift, held⟩ := tracks
  unfold ShiftKeys.next
  by_cases announced : sc = 0xE0
  · subst announced
    exact ⟨rfl, shift, held⟩
  rw [if_neg announced]
  by_cases pending : keys.extended = true
  · rw [if_pos pending, decode_extended announced (extended.trans pending)]
    exact ⟨rfl, shift, held⟩
  have plain := extended.trans (Bool.not_eq_true _ ▸ pending : keys.extended = false)
  rw [if_neg pending]
  by_cases press : sc = 0x2A ∨ sc = 0x36
  · rw [decode_press plain press]
    obtain rfl | rfl := press
    · exact ⟨extended, rfl, fun _ => rfl⟩
    · exact ⟨extended, rfl, fun _ => Bool.or_true _⟩
  by_cases release : sc = 0xAA ∨ sc = 0xB6
  · rw [decode_release plain release]
    obtain rfl | rfl := release
    · exact ⟨extended, rfl, fun pressed => absurd pressed Bool.false_ne_true⟩
    · exact ⟨extended, rfl, fun pressed => absurd pressed Bool.false_ne_true⟩
  rw [decode_key announced plain press release]
  rw [not_or] at press release
  rw [if_neg press.1, if_neg press.2, if_neg release.1, if_neg release.2]
  exact ⟨extended, shift, held⟩

/-! ### Runs -/

theorem Tracks.queuePush {keys : ShiftKeys} {keyboard : Keyboard} (tracks : Tracks keys keyboard)
    (char : Byte) : Tracks keys (queuePush char keyboard) := by
  unfold Input.queuePush
  split
  · exact ⟨tracks.extended, tracks.shift, tracks.held⟩
  · exact tracks

theorem Tracks.read {keys : ShiftKeys} {session : Session} (tracks : Tracks keys session.keyboard) :
    Tracks keys session.read.keyboard := by
  unfold Session.read
  split
  · split
    · exact tracks
    · exact tracks
  · exact ⟨tracks.extended, tracks.shift, tracks.held⟩
  · exact ⟨tracks.extended, tracks.shift, tracks.held⟩

theorem Tracks.keyboardHandler {keys : ShiftKeys} {keyboard : Keyboard}
    (tracks : Tracks keys keyboard) (sc : Byte) :
    Tracks (keys.next sc) (keyboardHandler sc keyboard) := by
  have decoded := tracks.decode sc
  unfold Input.keyboardHandler
  split
  · next result =>
      rw [result] at decoded
      exact decoded.queuePush _
  · next result =>
      rw [result] at decoded
      exact decoded

/-- What an interrupt does to the keyboard is what the handler does. -/
theorem Session.interrupt_keyboard (sc : Byte) (session : Session) :
    (session.interrupt sc).keyboard = keyboardHandler sc session.keyboard := by
  unfold Session.interrupt keyboardHandler
  rcases decode sc session.keyboard with ⟨_ | char, keyboard⟩
  · rfl
  · rfl

/-- The variables agree with the scancodes after every run, whatever is read in between. -/
theorem run_tracks (events : List Event) :
    Tracks (shiftKeys (scancodes events)) (Session.boot.run events).keyboard := by
  suffices ∀ {keys : ShiftKeys} {session : Session}, Tracks keys session.keyboard →
      Tracks ((scancodes events).foldl ShiftKeys.next keys) (session.run events).keyboard from
    this boot_tracks
  induction events with
  | nil => exact fun tracks => tracks
  | cons event rest ih =>
      intro keys session tracks
      cases event with
      | read => exact ih tracks.read
      | push char => exact ih (tracks.queuePush char)
      | interrupt sc =>
          apply ih
          rw [Session.step, session.interrupt_keyboard]
          exact tracks.keyboardHandler sc

/-- The handler treats the scancode as the Shift keys held down ask for. -/
structure Shifted (sc : Byte) (keys : ShiftKeys) (keyboard : Keyboard) : Prop where
  /-- A code of the tables, not extended, gives the character from `kbd_shift` if a Shift key
  is held down and the one from `kbd` otherwise. -/
  char : keys.extended = false → sc.toNat < kbd.length →
    (decode sc keyboard).1 = typed keys.held sc
  /-- The prefix and extended codes do not change the flag. -/
  kept : sc = 0xE0 ∨ keys.extended = true →
    (decode sc keyboard).2.shiftPressed = keyboard.shiftPressed

/-- If the key has two characters and a Shift key is held down, then the last Shift code was
a press: the other Shift key has not been released since. -/
def Unambiguous (sc : Byte) (keys : ShiftKeys) : Prop :=
  keys.extended = false → sc.toNat < kbd.length → typed true sc ≠ typed false sc →
    keys.held = true → keys.lastPressed = true

theorem Tracks.shifted_iff {keys : ShiftKeys} {keyboard : Keyboard} (tracks : Tracks keys keyboard)
    (sc : Byte) : Shifted sc keys keyboard ↔ Unambiguous sc keys := by
  constructor
  · intro shifted plain inTable differ held
    have given := shifted.char plain inTable
    rw [decode_char (tracks.extended.trans plain) inTable, tracks.shift, held] at given
    by_contra last
    rw [Bool.not_eq_true] at last
    rw [last] at given
    exact differ given.symm
  · intro unambiguous
    refine ⟨fun plain inTable => ?_, ?_⟩
    · rw [decode_char (tracks.extended.trans plain) inTable, tracks.shift]
      by_cases differ : typed true sc = typed false sc
      · cases keys.lastPressed <;> cases keys.held <;> simp only [differ]
      · have same : keys.lastPressed = keys.held :=
          Bool.eq_iff_iff.mpr ⟨tracks.held, unambiguous plain inTable differ⟩
        rw [same]
    · rintro (rfl | extended)
      · rfl
      · by_cases announced : sc = 0xE0
        · rw [announced]
          rfl
        · rw [decode_extended announced (tracks.extended.trans extended)]

/-- Along any run the handler follows the Shift keys if and only if no key with two characters
is pressed while one Shift key is held and the other was released last. -/
theorem run_shifted_iff (events : List Event) :
    (∀ earlier sc later, events = earlier ++ .interrupt sc :: later →
      Shifted sc (shiftKeys (scancodes earlier)) (Session.boot.run earlier).keyboard) ↔
    ∀ earlier sc later, events = earlier ++ .interrupt sc :: later →
      Unambiguous sc (shiftKeys (scancodes earlier)) :=
  forall₄_congr fun earlier sc _ _ => (run_tracks earlier).shifted_iff sc

/-- Both Shift keys are pressed and the right one is released: the key `a`, pressed while the
left one is held, gives a small letter. -/
theorem run_shifted_overlap :
    let stream : List Byte := [0x2A, 0x36, 0xB6]
    ShiftKeys.released.alternates (stream ++ [0x1E]) = true ∧
      (shiftKeys stream).held = true ∧
      (decode 0x1E (Session.boot.run (stream.map .interrupt)).keyboard).1 = some 0x61 ∧
      ¬ Shifted 0x1E (shiftKeys stream) (Session.boot.run (stream.map .interrupt)).keyboard := by
  refine ⟨by decide, by decide, by decide, fun shifted => ?_⟩
  exact absurd (shifted.char (by decide) (by decide)) (by decide)

end MxOS.Input
