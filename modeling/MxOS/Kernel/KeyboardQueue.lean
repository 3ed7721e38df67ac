import MxOS.Kernel.Keyboard

/-! # Reading the keyboard while keys are pressed

The Shell calls `keyboard_read_char` with interrupts enabled, so that any number of
characters may be put in the queue between two of its statements. The Shell moves only
the read index and the handler only the write index; what is between them stays a
first-in, first-out channel.
-/

namespace MxOS.Input

open ByteMemory Fifo

/-- The statements of `keyboard_read_char`. -/
inductive Statement where
  | compare
  | copy
  | advance
  deriving DecidableEq

/-- The keyboard while the Shell reads. The channel records the characters accepted by
`queue_push` and those returned to the Shell; `out` is the variable of the Shell. -/
structure Session where
  keyboard : Keyboard
  next : Statement
  out : Byte
  channel : Channel Byte

def Session.boot : Session := ⟨Keyboard.boot, .compare, 0, Channel.empty⟩

/-- One statement of the Shell. A call that finds no character is followed by another call. -/
def Session.read (session : Session) : Session :=
  match session.next with
  | .compare =>
      if session.keyboard.queueRead = session.keyboard.queueWrite then session
      else { session with next := .copy }
  | .copy =>
      let (out, keyboard) := session.keyboard.copy
      { session with keyboard := keyboard, out := out, next := .advance }
  | .advance =>
      { session with
        keyboard := session.keyboard.advance
        next := .compare
        channel := session.channel.receive session.out }

def Session.push (char : Byte) (session : Session) : Session :=
  { session with
    keyboard := queuePush char session.keyboard
    channel :=
      if session.keyboard.accepts then session.channel.send char else session.channel }

def Session.interrupt (sc : Byte) (session : Session) : Session :=
  match decode sc session.keyboard with
  | (some char, keyboard) => { session with keyboard := keyboard }.push char
  | (none, keyboard) => { session with keyboard := keyboard }

inductive Event where
  | read
  | push (char : Byte)
  | interrupt (sc : Byte)

def Session.step (session : Session) : Event → Session
  | .read => session.read
  | .push char => session.push char
  | .interrupt sc => session.interrupt sc

def Session.run (session : Session) (events : List Event) : Session :=
  events.foldl Session.step session

/-- A call that is not interrupted is the three statements one after the other. -/
theorem Session.read_call {session : Session} (idle : session.next = .compare)
    (nonempty : session.keyboard.queueRead ≠ session.keyboard.queueWrite) :
    keyboardReadChar session.keyboard =
      (some session.read.read.read.out, session.read.read.read.keyboard) := by
  simp only [keyboardReadChar, Session.read, idle, nonempty, ↓reduceIte]

/-! ### The characters in the queue -/

/-- How many characters are between the two indices. -/
def Keyboard.count (keyboard : Keyboard) : Nat :=
  (keyboard.queueWrite - keyboard.queueRead).toNat

def Keyboard.pending (keyboard : Keyboard) : List Byte :=
  Ring.window (fun slot : Fin 256 => keyboard.keyQueue slot)
    (Fin.ofNat 256 keyboard.queueRead.toNat) keyboard.count

theorem slotAt_queue (queueRead : Byte) (offset : Nat) :
    (Ring.slotAt (Fin.ofNat 256 queueRead.toNat) offset).val =
      (queueRead + BitVec.ofNat 8 offset).toNat := by
  simp only [Ring.slotAt, Fin.val_ofNat, BitVec.toNat_add, BitVec.toNat_ofNat]
  omega

/-- The write index is the slot behind the queue. -/
theorem Keyboard.slotAt_count (keyboard : Keyboard) :
    (Ring.slotAt (Fin.ofNat 256 keyboard.queueRead.toNat) keyboard.count).val =
      keyboard.queueWrite.toNat := by
  rw [slotAt_queue, Keyboard.count]
  bv_omega

theorem Keyboard.accepts_iff {keyboard : Keyboard} :
    keyboard.accepts = true ↔ keyboard.count < 255 := by
  rw [Keyboard.accepts, decide_eq_true_eq, Keyboard.count]
  bv_omega

theorem queuePush_pending {keyboard : Keyboard} (accepts : keyboard.accepts = true)
    (char : Byte) : (queuePush char keyboard).pending = keyboard.pending ++ [char] := by
  have room := Keyboard.accepts_iff.mp accepts
  have count : (queuePush char keyboard).count = keyboard.count + 1 := by
    rw [Keyboard.count] at room
    simp only [queuePush, accepts, ↓reduceIte, Keyboard.count]
    bv_omega
  have place := keyboard.slotAt_count
  have kept : ∀ slot : Fin 256,
      slot ≠ Ring.slotAt (Fin.ofNat 256 keyboard.queueRead.toNat) keyboard.count →
      Function.update keyboard.keyQueue keyboard.queueWrite.toNat char slot =
        keyboard.keyQueue slot := by
    intro slot differ
    apply Function.update_of_ne
    intro same
    exact differ (Fin.ext (same.trans place.symm))
  rw [Keyboard.pending, count]
  simp only [queuePush, accepts, ↓reduceIte]
  rw [Ring.window_push (by omega) kept, place, Function.update_self, Keyboard.pending]

theorem Keyboard.pending_eq_cons {keyboard : Keyboard}
    (nonempty : keyboard.queueRead ≠ keyboard.queueWrite) :
    keyboard.pending = keyboard.front :: keyboard.advance.pending := by
  have count : keyboard.count = keyboard.advance.count + 1 := by
    simp only [Keyboard.count, Keyboard.advance]
    bv_omega
  have head : Ring.slotAt (Fin.ofNat 256 keyboard.queueRead.toNat) 1 =
      Fin.ofNat 256 keyboard.advance.queueRead.toNat := by
    apply Fin.ext
    rw [slotAt_queue, Keyboard.advance, Fin.val_ofNat]
    bv_omega
  rw [Keyboard.pending, count, Ring.window_pop, head]
  congr 1
  rw [Keyboard.front, Fin.val_ofNat]
  congr 1
  bv_omega

theorem Keyboard.pending_eq_nil {keyboard : Keyboard}
    (empty : keyboard.queueRead = keyboard.queueWrite) : keyboard.pending = [] := by
  rw [Keyboard.pending, Keyboard.count, empty, BitVec.sub_self]
  rfl

/-! ### Runs -/

/-- What the Shell knows before each statement. -/
def Session.Agrees (session : Session) : Prop :=
  match session.next with
  | .compare => True
  | .copy => session.keyboard.queueRead ≠ session.keyboard.queueWrite
  | .advance => session.keyboard.queueRead ≠ session.keyboard.queueWrite ∧
      session.out = session.keyboard.front

structure Session.Sound (session : Session) : Prop where
  agrees : session.Agrees
  delivers : session.channel.Delivers session.keyboard.pending
  inside : ∀ place ∈ session.keyboard.accesses, place < keyQueueSize

theorem Session.boot_sound : Session.boot.Sound :=
  ⟨trivial, rfl, fun _ member => nomatch member⟩

theorem Session.Sound.read {session : Session} (sound : session.Sound) : session.read.Sound := by
  obtain ⟨agrees, delivers, inside⟩ := sound
  unfold Session.read
  unfold Session.Agrees at agrees
  cases next : session.next with
  | compare =>
      simp only
      split
      · exact ⟨by simp [Session.Agrees, next], delivers, inside⟩
      · next differ => exact ⟨differ, delivers, inside⟩
  | copy =>
      simp only [next] at agrees
      refine ⟨⟨agrees, rfl⟩, delivers, fun place member => ?_⟩
      rcases List.mem_append.mp member with earlier | here
      · exact inside place earlier
      · rw [List.mem_singleton.mp here]
        exact session.keyboard.queueRead.isLt
  | advance =>
      simp only [next] at agrees
      rw [Keyboard.pending_eq_cons agrees.1, ← agrees.2] at delivers
      exact ⟨trivial, delivers.receive, inside⟩

/-- A character more in the queue does not change the oldest one. -/
theorem Session.Agrees.push {session : Session} (agrees : session.Agrees) (char : Byte) :
    (session.push char).Agrees := by
  unfold Session.Agrees at agrees ⊢
  unfold Session.push queuePush
  by_cases accepts : session.keyboard.accepts = true
  · have room : session.keyboard.queueWrite + 1 ≠ session.keyboard.queueRead :=
      of_decide_eq_true accepts
    simp only [accepts, ↓reduceIte]
    cases next : session.next with
    | compare => trivial
    | copy => exact room.symm
    | advance =>
        simp only [next] at agrees
        have elsewhere : session.keyboard.queueRead.toNat ≠ session.keyboard.queueWrite.toNat :=
          fun same => agrees.1 (BitVec.eq_of_toNat_eq same)
        refine ⟨room.symm, agrees.2.trans ?_⟩
        simp only [Keyboard.front, Function.update_of_ne elsewhere]
  · simpa only [accepts, Bool.false_eq_true, ↓reduceIte] using agrees

theorem Session.Sound.push {session : Session} (sound : session.Sound) (char : Byte) :
    (session.push char).Sound := by
  obtain ⟨agrees, delivers, inside⟩ := sound
  refine ⟨agrees.push char, ?_, ?_⟩
  · by_cases accepts : session.keyboard.accepts = true
    · simp only [Session.push, accepts, ↓reduceIte, queuePush_pending accepts]
      exact delivers.send char
    · simp only [Session.push, queuePush, accepts, Bool.false_eq_true, ↓reduceIte]
      exact delivers
  · unfold Session.push queuePush
    split
    · intro place member
      rcases List.mem_append.mp member with earlier | here
      · exact inside place earlier
      · rw [List.mem_singleton.mp here]
        exact session.keyboard.queueWrite.isLt
    · exact inside

/-- Decoding a scancode changes only the state of the Shift keys and of the prefix. -/
theorem decode_queue (sc : Byte) (keyboard : Keyboard) :
    ∃ shiftPressed extendedPrefix, (decode sc keyboard).2 =
      { keyboard with shiftPressed := shiftPressed, extendedPrefix := extendedPrefix } := by
  unfold decode
  split
  · exact ⟨_, _, rfl⟩
  · simp only
    split
    · split
      · split
        · exact ⟨_, _, rfl⟩
        · split <;> exact ⟨_, _, rfl⟩
      · exact ⟨_, _, rfl⟩
    · split
      · exact ⟨_, _, rfl⟩
      · split
        · exact ⟨_, _, rfl⟩
        · split <;> exact ⟨_, _, rfl⟩

theorem Session.Sound.interrupt {session : Session} (sound : session.Sound) (sc : Byte) :
    (session.interrupt sc).Sound := by
  obtain ⟨shiftPressed, extendedPrefix, decoded⟩ := decode_queue sc session.keyboard
  have kept : Session.Sound { session with
      keyboard := { session.keyboard with
        shiftPressed := shiftPressed, extendedPrefix := extendedPrefix } } :=
    ⟨sound.agrees, sound.delivers, sound.inside⟩
  unfold Session.interrupt
  rcases result : decode sc session.keyboard with ⟨_ | char, keyboard⟩
  · rw [result] at decoded
    obtain rfl := decoded
    exact kept
  · rw [result] at decoded
    obtain rfl := decoded
    exact kept.push char

theorem Session.Sound.run {session : Session} (sound : session.Sound) (events : List Event) :
    (session.run events).Sound := by
  induction events generalizing session with
  | nil => exact sound
  | cons event events ih =>
      apply ih
      cases event with
      | read => exact sound.read
      | push char => exact sound.push char
      | interrupt sc => exact sound.interrupt sc

/-- In every run the Shell receives the accepted characters in order, each once: those not yet
received are the ones in the queue, and a call returns 0 only when there are none. A
character is dropped if and only if 255 are waiting. No access leaves the queue. -/
theorem keyboard_fifo (events : List Event) :
    let session := Session.boot.run events
    session.channel.sent = session.channel.received ++ session.keyboard.pending ∧
    (session.keyboard.queueRead = session.keyboard.queueWrite →
      session.channel.received = session.channel.sent) ∧
    (∀ char, queuePush char session.keyboard = session.keyboard ↔
      session.channel.sent.length = session.channel.received.length + 255) ∧
    ∀ place ∈ session.keyboard.accesses, place < keyQueueSize := by
  intro session
  have sound : session.Sound := Session.boot_sound.run events
  refine ⟨sound.delivers, fun empty => ?_, fun char => ?_, sound.inside⟩
  · have delivers : session.channel.sent = _ ++ _ := sound.delivers
    rw [delivers, Keyboard.pending_eq_nil empty, List.append_nil]
  · have small : session.keyboard.count < 256 := BitVec.isLt _
    rw [sound.delivers.length, Keyboard.pending, Ring.length_window]
    by_cases accepts : session.keyboard.accepts = true
    · have room := Keyboard.accepts_iff.mp accepts
      refine iff_of_false (fun same => ?_) (by omega)
      have index := congrArg Keyboard.queueWrite same
      simp only [queuePush, accepts, ↓reduceIte] at index
      bv_omega
    · have full := mt Keyboard.accepts_iff.mpr accepts
      exact iff_of_true (if_neg accepts) (by omega)

end MxOS.Input
