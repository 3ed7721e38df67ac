import MxOS.Lib.Memory
import MxOS.Lib.Ring

/-! # Mailboxes

The part of a `Task` that `ipc_send` and `ipc_recv` work on: a circular queue of four
messages of at most 128 bytes. The code copies messages byte by byte from and to the
caller's memory; how that memory is read and written is a parameter, so that the same
functions serve callers that pass values and callers that pass addresses.
-/

namespace MxOS.Ipc

open ByteMemory

/-- `MAILBOX_QUEUE_SIZE` -/
abbrev mailboxQueueSize : Nat := 4

instance queueSizeNeZero : NeZero 4 := ⟨by decide⟩

instance countsNeZero : NeZero 5 := ⟨by decide⟩

instance messageSizeNeZero : NeZero 128 := ⟨by decide⟩

instance lengthsNeZero : NeZero 129 := ⟨by decide⟩

/-- The mailbox fields of a task. Their types hold what the code never leaves: the head is a
slot number, at most four messages are queued, and no message is longer than its slot. -/
structure Mailbox where
  bytes : Fin 4 → Fin 128 → Byte
  len : Fin 4 → Fin 129
  sender : Fin 4 → Int
  head : Fin 4
  count : Fin 5

def mailboxReset (mailbox : Mailbox) : Mailbox :=
  { mailbox with head := 0, count := 0, len := fun _ => 0, sender := fun _ => -1 }

structure Message where
  bytes : List Byte
  sender : Int
  deriving DecidableEq

/-- The message in a slot. -/
def Mailbox.message (mailbox : Mailbox) (slot : Fin 4) : Message where
  bytes := (List.range (mailbox.len slot).val).map fun index =>
    mailbox.bytes slot (Fin.ofNat 128 index)
  sender := mailbox.sender slot

/-- The queued messages, oldest first. -/
def Mailbox.pending (mailbox : Mailbox) : List Message :=
  Ring.window mailbox.message mailbox.head mailbox.count.val

/-! ### Sending -/

/-- The assignment `dst_task->mailbox[slot][k] = src[k]`. -/
def Mailbox.setByte (mailbox : Mailbox) (slot : Fin 4) (index : Nat) (byte : Byte) : Mailbox :=
  { mailbox with
    bytes := Function.update mailbox.bytes slot
      (Function.update (mailbox.bytes slot) (Fin.ofNat 128 index) byte) }

section Copying

variable {Memory : Type}

/-- The copy loop of `ipc_send`, with `remaining` bytes to go from byte `index` on. -/
def copyIn (load : Nat → Memory → Byte × Memory) (slot : Fin 4) :
    Nat → Nat → Mailbox → Memory → Mailbox × Memory
  | 0, _, mailbox, memory => (mailbox, memory)
  | remaining + 1, index, mailbox, memory =>
      let (byte, memory) := load index memory
      copyIn load slot remaining (index + 1) (mailbox.setByte slot index byte) memory

/-- The last statements of `ipc_send`. -/
def Mailbox.commit (mailbox : Mailbox) (slot : Fin 4) (len : Word) (sender : Int) : Mailbox :=
  { mailbox with
    len := Function.update mailbox.len slot (Fin.ofNat 129 len.toNat)
    sender := Function.update mailbox.sender slot sender
    count := Fin.ofNat 5 (mailbox.count.val + 1) }

/-- The length that is stored of a message of the given length. -/
def clampLen (len : Word) : Word := if len > 128 then 128 else len

/-- `ipc_send` once the target is known to be active. -/
def Mailbox.deposit (load : Nat → Memory → Byte × Memory) (len : Word) (sender : Int)
    (mailbox : Mailbox) (memory : Memory) : Int × Mailbox × Memory :=
  if mailbox.count.val ≥ mailboxQueueSize then (0, mailbox, memory)
  else
    let len := clampLen len
    let slot : Fin 4 := Fin.ofNat 4 (mailbox.head.val + mailbox.count.val)
    let (mailbox, memory) := copyIn load slot len.toNat 0 mailbox memory
    (1, mailbox.commit slot len sender, memory)

/-! ### Receiving -/

/-- The copy loop of `ipc_recv`. -/
def copyOut (store : Nat → Byte → Memory → Memory) (mailbox : Mailbox) (slot : Fin 4) :
    Nat → Nat → Memory → Memory
  | 0, _, memory => memory
  | remaining + 1, index, memory =>
      copyOut store mailbox slot remaining (index + 1)
        (store index (mailbox.bytes slot (Fin.ofNat 128 index)) memory)

def Mailbox.advanceHead (mailbox : Mailbox) : Mailbox :=
  { mailbox with head := Fin.ofNat 4 (mailbox.head.val + 1) }

def Mailbox.decrementCount (mailbox : Mailbox) : Mailbox :=
  { mailbox with count := Fin.ofNat 5 (mailbox.count.val - 1) }

/-- `ipc_recv` on the mailbox of the current task: the length and the sender it reports, or
`none` when it returns 0. -/
def Mailbox.withdraw (store : Nat → Byte → Memory → Memory) (mailbox : Mailbox)
    (memory : Memory) : Option (Word × Int) × Mailbox × Memory :=
  if mailbox.count.val = 0 then (none, mailbox, memory)
  else
    let slot := mailbox.head
    let len := (mailbox.len slot).val
    let memory := copyOut store mailbox slot len 0 memory
    (some (BitVec.ofNat 32 len, mailbox.sender slot),
      mailbox.advanceHead.decrementCount, memory)

end Copying

/-! ### The queue -/

/-- Reading the message from a sequence of bytes. -/
def supply (payload : Nat → Byte) (index : Nat) (memory : Unit) : Byte × Unit :=
  (payload index, memory)

/-- Writing the message to a buffer. -/
def fill (index : Nat) (byte : Byte) (buffer : Nat → Byte) : Nat → Byte :=
  Function.update buffer index byte

/-- The message of which a sender passes the bytes. -/
def Message.ofPayload (payload : Nat → Byte) (len : Word) (sender : Int) : Message where
  bytes := (List.range (min len.toNat 128)).map payload
  sender := sender

@[simp] theorem clampLen_toNat (len : Word) : (clampLen len).toNat = min len.toNat 128 := by
  unfold clampLen
  split <;> bv_omega

theorem pending_mailboxReset (mailbox : Mailbox) : (mailboxReset mailbox).pending = [] := rfl

theorem length_pending (mailbox : Mailbox) : mailbox.pending.length = mailbox.count.val :=
  Ring.length_window

theorem copyIn_supply (payload : Nat → Byte) (slot : Fin 4) {remaining index : Nat}
    (fits : index + remaining ≤ 128) (mailbox : Mailbox) :
    copyIn (supply payload) slot remaining index mailbox () =
      ({ mailbox with
          bytes := Function.update mailbox.bytes slot fun position =>
            if index ≤ position.val ∧ position.val < index + remaining then payload position
            else mailbox.bytes slot position }, ()) := by
  induction remaining generalizing index mailbox with
  | zero =>
      have unchanged : (fun position : Fin 128 =>
          if index ≤ position.val ∧ position.val < index + 0 then payload position
          else mailbox.bytes slot position) = mailbox.bytes slot := by
        funext position
        exact if_neg (by omega)
      rw [unchanged, Function.update_eq_self]
      rfl
  | succ remaining ih =>
      change copyIn (supply payload) slot remaining (index + 1)
        (mailbox.setByte slot index (payload index)) () = _
      rw [ih (by omega)]
      simp only [Mailbox.setByte, Function.update_idem, Function.update_self]
      congr 3
      funext position
      by_cases here : position.val = index
      · have same : position = Fin.ofNat 128 index := by
          apply Fin.ext
          rw [Fin.val_ofNat]
          omega
        rw [if_neg (by omega), if_pos (by omega), same, Function.update_self, ← same, here]
      · have other : position ≠ Fin.ofNat 128 index := by
          intro same
          have value := congrArg Fin.val same
          rw [Fin.val_ofNat] at value
          omega
        rw [Function.update_of_ne other]
        congr 1
        apply propext
        omega

/-- A mailbox with room accepts a message: it fills the first slot behind the others. -/
theorem deposit_of_room {mailbox : Mailbox} (room : mailbox.count.val < 4)
    (payload : Nat → Byte) (len : Word) (sender : Int) :
    let slot : Fin 4 := Fin.ofNat 4 (mailbox.head.val + mailbox.count.val)
    mailbox.deposit (supply payload) len sender () =
      (1, Mailbox.commit
        { mailbox with
          bytes := Function.update mailbox.bytes slot fun position =>
            if 0 ≤ position.val ∧ position.val < 0 + (clampLen len).toNat then payload position
            else mailbox.bytes slot position } slot (clampLen len) sender, ()) := by
  have notFull : ¬ mailbox.count.val ≥ mailboxQueueSize := Nat.not_le.mpr room
  have fits : 0 + (clampLen len).toNat ≤ 128 := by
    rw [clampLen_toNat]
    omega
  simp only [Mailbox.deposit, notFull, ↓reduceIte, copyIn_supply payload _ fits]

theorem deposit_of_full {mailbox : Mailbox} (full : mailbox.count.val = 4)
    (payload : Nat → Byte) (len : Word) (sender : Int) :
    mailbox.deposit (supply payload) len sender () = (0, mailbox, ()) :=
  if_pos (Nat.le_of_eq full.symm)

/-- A message sent to a mailbox with room is queued behind the others. -/
theorem deposit_pending {mailbox : Mailbox} (room : mailbox.count.val < 4) (payload : Nat → Byte)
    (len : Word) (sender : Int) :
    ∃ after, mailbox.deposit (supply payload) len sender () = (1, after, ()) ∧
      after.pending = mailbox.pending ++ [Message.ofPayload payload len sender] := by
  refine ⟨_, deposit_of_room room payload len sender, ?_⟩
  have count : (Fin.ofNat 5 (mailbox.count.val + 1)).val = mailbox.count.val + 1 := by
    rw [Fin.val_ofNat]
    omega
  simp only [Mailbox.pending, Mailbox.commit, count]
  rw [Ring.window_push room]
  · congr 2
    simp only [Mailbox.message, Message.ofPayload, Ring.slotAt, Function.update_self,
      Fin.val_ofNat, clampLen_toNat]
    congr 1
    rw [Nat.mod_eq_of_lt (by omega)]
    apply List.map_congr_left
    intro index inRange
    have bound := List.mem_range.mp inRange
    rw [Nat.mod_eq_of_lt (by omega), if_pos (by omega)]
  · intro slot differ
    rw [Ring.slotAt] at differ
    simp only [Mailbox.message, Function.update_of_ne differ]

theorem copyOut_fill (mailbox : Mailbox) (slot : Fin 4) (remaining index : Nat)
    (buffer : Nat → Byte) (query : Nat) :
    copyOut fill mailbox slot remaining index buffer query =
      if index ≤ query ∧ query < index + remaining then
        mailbox.bytes slot (Fin.ofNat 128 query)
      else buffer query := by
  induction remaining generalizing index buffer with
  | zero => exact (if_neg (by omega)).symm
  | succ remaining ih =>
      rw [copyOut, ih, fill]
      by_cases here : query = index
      · rw [if_neg (by omega), if_pos (by omega), here, Function.update_self]
      · rw [Function.update_of_ne here]
        congr 1
        apply propext
        omega

/-- The message a receiver finds in its buffer. -/
def Message.ofBuffer (buffer : Nat → Byte) (len : Word) (sender : Int) : Message where
  bytes := (List.range len.toNat).map buffer
  sender := sender

/-- Moving the head takes the oldest message off, once the number is corrected. -/
theorem advanceHead_pending {mailbox : Mailbox} (nonempty : mailbox.count.val ≠ 0) :
    mailbox.pending =
      mailbox.message mailbox.head :: mailbox.advanceHead.decrementCount.pending := by
  have count : (Fin.ofNat 5 (mailbox.count.val - 1)).val + 1 = mailbox.count.val := by
    rw [Fin.val_ofNat]
    omega
  rw [Mailbox.pending, ← count, Ring.window_pop]
  rfl

/-- Receiving from a mailbox that is not empty takes off and returns the oldest message. -/
theorem withdraw_pending {mailbox : Mailbox} (nonempty : mailbox.count.val ≠ 0)
    (buffer : Nat → Byte) :
    ∃ len sender after filled,
      mailbox.withdraw fill buffer = (some (len, sender), after, filled) ∧
      mailbox.pending = Message.ofBuffer filled len sender :: after.pending := by
  refine ⟨_, _, _, _, by simp only [Mailbox.withdraw, nonempty, ↓reduceIte]; rfl, ?_⟩
  rw [advanceHead_pending nonempty]
  congr 1
  have len : (BitVec.ofNat 32 (mailbox.len mailbox.head).val).toNat =
      (mailbox.len mailbox.head).val := by
    rw [BitVec.toNat_ofNat]
    omega
  simp only [Mailbox.message, Message.ofBuffer, len]
  congr 1
  apply List.map_congr_left
  intro index inRange
  have bound := List.mem_range.mp inRange
  rw [copyOut_fill, if_pos (by omega)]

end MxOS.Ipc
