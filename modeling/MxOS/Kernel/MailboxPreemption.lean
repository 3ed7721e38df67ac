import MxOS.Kernel.Mailbox

/-! # Receiving with interrupts enabled

The Shell calls `ipc_recv` from `shell_poll_ipc` with interrupts enabled, so that other
tasks send to it between any two of its statements. A send is a system call and runs as a
whole.

The head and the number of messages are updated by two statements. A message accepted
between the two is stored one slot too far; the Shell then receives the old contents of
the slot before it in its place. Without such a message the mailbox stays a first-in,
first-out channel.
-/

namespace MxOS.Ipc

open ByteMemory Fifo

/-- The statements of `ipc_recv`. -/
inductive Statement where
  | testCount
  | readHead
  | readLen
  | copyByte
  | storeLen
  | storeSender
  | advanceHead
  | decrementCount
  deriving DecidableEq

/-- The local variables of `ipc_recv` and of its caller, and the next statement. -/
structure Receiver where
  next : Statement
  slot : Fin 4
  len : Nat
  index : Nat
  buffer : Nat → Byte
  outLen : Word
  outSender : Int

/-- The mailbox of the Shell while it polls. The channel records the messages accepted and
those returned to the Shell. -/
structure Poll where
  mailbox : Mailbox
  receiver : Receiver
  channel : Channel Message

/-- The message in the variables of the caller. -/
def Receiver.message (receiver : Receiver) : Message :=
  Message.ofBuffer receiver.buffer receiver.outLen receiver.outSender

/-- One statement of the Shell. A call that finds no message is followed by another call. -/
def Poll.recv (poll : Poll) : Poll :=
  let mailbox := poll.mailbox
  let receiver := poll.receiver
  match receiver.next with
  | .testCount =>
      if mailbox.count.val = 0 then poll
      else { poll with receiver := { receiver with next := .readHead } }
  | .readHead =>
      { poll with receiver := { receiver with slot := mailbox.head, next := .readLen } }
  | .readLen =>
      { poll with
        receiver :=
          { receiver with
            len := (mailbox.len receiver.slot).val, index := 0, next := .copyByte } }
  | .copyByte =>
      if receiver.index < receiver.len then
        { poll with
          receiver :=
            { receiver with
              buffer := fill receiver.index
                (mailbox.bytes receiver.slot (Fin.ofNat 128 receiver.index)) receiver.buffer
              index := receiver.index + 1 } }
      else { poll with receiver := { receiver with next := .storeLen } }
  | .storeLen =>
      { poll with
        receiver :=
          { receiver with outLen := BitVec.ofNat 32 receiver.len, next := .storeSender } }
  | .storeSender =>
      { poll with
        receiver :=
          { receiver with outSender := mailbox.sender receiver.slot, next := .advanceHead } }
  | .advanceHead =>
      { poll with
        mailbox := mailbox.advanceHead
        receiver := { receiver with next := .decrementCount } }
  | .decrementCount =>
      { mailbox := mailbox.decrementCount
        receiver := { receiver with next := .testCount }
        channel := poll.channel.receive receiver.message }

/-- Another task sends to the Shell. -/
def Poll.send (payload : Nat → Byte) (len : Word) (sender : Int) (poll : Poll) : Poll :=
  let (result, mailbox, _) := poll.mailbox.deposit (supply payload) len sender ()
  { poll with
    mailbox := mailbox
    channel :=
      if result = 1 then poll.channel.send (Message.ofPayload payload len sender)
      else poll.channel }

inductive Event where
  | recv
  | send (payload : Nat → Byte) (len : Word) (sender : Int)

def Poll.step (poll : Poll) : Event → Poll
  | .recv => poll.recv
  | .send payload len sender => poll.send payload len sender

def Poll.run (poll : Poll) (events : List Event) : Poll := events.foldl Poll.step poll

/-- The Shell is about to call `ipc_recv`. -/
def Poll.start (mailbox : Mailbox) (receiver : Receiver) : Poll where
  mailbox := mailbox
  receiver := { receiver with next := .testCount }
  channel := ⟨mailbox.pending, []⟩

/-- The Shell received the messages in the order in which they were accepted, and between two
calls the others are all in the mailbox. -/
def Poll.InOrder (poll : Poll) : Prop :=
  poll.channel.received <+: poll.channel.sent ∧
    (poll.receiver.next = .testCount → poll.channel.Delivers poll.mailbox.pending)

/-- The event does not make the mailbox accept a message between the last two statements of
`ipc_recv`. -/
def Event.Harmless (poll : Poll) : Event → Prop
  | .recv => True
  | .send .. => poll.receiver.next = .decrementCount → poll.mailbox.count.val = 4

/-- Every event of the run is harmless where it happens. -/
def Poll.Undisturbed (poll : Poll) : List Event → Prop
  | [] => True
  | event :: events => event.Harmless poll ∧ (poll.step event).Undisturbed events

/-! ### The oldest message -/

/-- Sending touches neither the head nor the oldest message. -/
theorem deposit_oldest {mailbox : Mailbox} (nonempty : mailbox.count.val ≠ 0)
    (payload : Nat → Byte) (len : Word) (sender : Int) :
    let after := (mailbox.deposit (supply payload) len sender ()).2.1
    after.count.val ≠ 0 ∧ after.head = mailbox.head ∧
      after.bytes mailbox.head = mailbox.bytes mailbox.head ∧
      after.len mailbox.head = mailbox.len mailbox.head ∧
      after.sender mailbox.head = mailbox.sender mailbox.head := by
  by_cases room : mailbox.count.val < 4
  · rw [deposit_of_room room]
    have differ : mailbox.head ≠ Fin.ofNat 4 (mailbox.head.val + mailbox.count.val) := by
      intro same
      have places : Ring.slotAt mailbox.head 0 =
          Ring.slotAt mailbox.head mailbox.count.val := (Ring.slotAt_zero _).trans same
      exact nonempty (Ring.slotAt_inj (by decide) room places).symm
    refine ⟨?_, rfl, ?_, ?_, ?_⟩
    · simp only [Mailbox.commit, Fin.val_ofNat]
      omega
    all_goals simp only [Mailbox.commit, Function.update_of_ne differ]
  · rw [deposit_of_full (by omega)]
    exact ⟨nonempty, rfl, rfl, rfl, rfl⟩

/-- What the variables of the Shell say about the mailbox before each statement. -/
def Receiver.Agrees (receiver : Receiver) (mailbox : Mailbox) : Prop :=
  match receiver.next with
  | .testCount | .decrementCount => True
  | .readHead => mailbox.count.val ≠ 0
  | .readLen => mailbox.count.val ≠ 0 ∧ receiver.slot = mailbox.head
  | .copyByte => mailbox.count.val ≠ 0 ∧ receiver.slot = mailbox.head ∧
      receiver.len = (mailbox.len mailbox.head).val ∧ receiver.index ≤ receiver.len ∧
      ∀ index < receiver.index,
        receiver.buffer index = mailbox.bytes mailbox.head (Fin.ofNat 128 index)
  | .storeLen => mailbox.count.val ≠ 0 ∧ receiver.slot = mailbox.head ∧
      receiver.len = (mailbox.len mailbox.head).val ∧
      ∀ index < receiver.len,
        receiver.buffer index = mailbox.bytes mailbox.head (Fin.ofNat 128 index)
  | .storeSender => mailbox.count.val ≠ 0 ∧ receiver.slot = mailbox.head ∧
      receiver.outLen.toNat = (mailbox.len mailbox.head).val ∧
      ∀ index < receiver.outLen.toNat,
        receiver.buffer index = mailbox.bytes mailbox.head (Fin.ofNat 128 index)
  | .advanceHead => mailbox.count.val ≠ 0 ∧ receiver.message = mailbox.message mailbox.head

/-- What is accepted and not yet received. After the head has moved, the oldest message is
in the variables of the Shell, and the number of messages is one too high. -/
def Poll.undelivered (poll : Poll) : List Message :=
  if poll.receiver.next = .decrementCount then
    poll.receiver.message :: poll.mailbox.decrementCount.pending
  else poll.mailbox.pending

structure Polled (poll : Poll) : Prop where
  agrees : poll.receiver.Agrees poll.mailbox
  delivers : poll.channel.Delivers poll.undelivered

theorem Receiver.Agrees.deposit {receiver : Receiver} {mailbox : Mailbox}
    (agrees : receiver.Agrees mailbox) (payload : Nat → Byte) (len : Word) (sender : Int) :
    receiver.Agrees (mailbox.deposit (supply payload) len sender ()).2.1 := by
  have oldest (nonempty : mailbox.count.val ≠ 0) := deposit_oldest nonempty payload len sender
  generalize (mailbox.deposit (supply payload) len sender ()).2.1 = after at oldest ⊢
  unfold Receiver.Agrees at agrees ⊢
  cases next : receiver.next with
  | testCount => trivial
  | decrementCount => trivial
  | readHead =>
      simp only [next] at agrees ⊢
      exact (oldest agrees).1
  | readLen =>
      simp only [next] at agrees ⊢
      obtain ⟨some, head, _⟩ := oldest agrees.1
      exact ⟨some, head ▸ agrees.2⟩
  | copyByte =>
      simp only [next] at agrees ⊢
      obtain ⟨some, head, bytes, len, _⟩ := oldest agrees.1
      rw [head, bytes, len]
      exact ⟨some, agrees.2⟩
  | storeLen =>
      simp only [next] at agrees ⊢
      obtain ⟨some, head, bytes, len, _⟩ := oldest agrees.1
      rw [head, bytes, len]
      exact ⟨some, agrees.2⟩
  | storeSender =>
      simp only [next] at agrees ⊢
      obtain ⟨some, head, bytes, len, _⟩ := oldest agrees.1
      rw [head, bytes, len]
      exact ⟨some, agrees.2⟩
  | advanceHead =>
      simp only [next] at agrees ⊢
      obtain ⟨some, head, bytes, len, sender⟩ := oldest agrees.1
      refine ⟨some, agrees.2.trans ?_⟩
      simp only [Mailbox.message, head, bytes, len, sender]

theorem Polled.send {poll : Poll} (polled : Polled poll) {payload : Nat → Byte} {len : Word}
    {sender : Int} (harmless : (Event.send payload len sender).Harmless poll) :
    Polled (poll.send payload len sender) := by
  refine ⟨polled.agrees.deposit payload len sender, ?_⟩
  have delivers := polled.delivers
  by_cases room : poll.mailbox.count.val < 4
  · have waiting : poll.receiver.next ≠ .decrementCount := fun last => by
      have full := harmless last
      omega
    obtain ⟨after, deposited, queued⟩ := deposit_pending room payload len sender
    simp only [Poll.undelivered, waiting, ↓reduceIte] at delivers
    simp only [Poll.send, deposited, Poll.undelivered, waiting, ↓reduceIte, queued]
    exact delivers.send _
  · have full : poll.mailbox.count.val = 4 := by omega
    simp only [Poll.send, deposit_of_full full]
    exact delivers

theorem Polled.recv {poll : Poll} (polled : Polled poll) : Polled poll.recv := by
  obtain ⟨agrees, delivers⟩ := polled
  unfold Poll.recv
  unfold Receiver.Agrees at agrees
  unfold Poll.undelivered at delivers
  cases next : poll.receiver.next with
  | testCount =>
      simp only [next, reduceCtorEq, ↓reduceIte] at agrees delivers ⊢
      split
      · next nothing =>
          exact ⟨by simp [Receiver.Agrees, next], by simpa [Poll.undelivered, next]⟩
      · next some => exact ⟨some, delivers⟩
  | readHead =>
      simp only [next, reduceCtorEq, ↓reduceIte] at agrees delivers ⊢
      exact ⟨⟨agrees, rfl⟩, delivers⟩
  | readLen =>
      simp only [next, reduceCtorEq, ↓reduceIte] at agrees delivers ⊢
      obtain ⟨some, slot⟩ := agrees
      refine ⟨⟨some, slot, ?_, Nat.zero_le _, fun index below => ?_⟩, delivers⟩
      · rw [slot]
      · exact absurd below (Nat.not_lt_zero index)
  | copyByte =>
      simp only [next, reduceCtorEq, ↓reduceIte] at agrees delivers ⊢
      obtain ⟨some, slot, len, inside, copied⟩ := agrees
      split
      · next below =>
          refine ⟨?_, by simpa [Poll.undelivered, next]⟩
          simp only [Receiver.Agrees]
          refine ⟨some, slot, len, below, fun index copiedOrHere => ?_⟩
          by_cases here : index = poll.receiver.index
          · rw [here, fill, Function.update_self, slot]
          · rw [fill, Function.update_of_ne here]
            exact copied index (by omega)
      · next all =>
          refine ⟨⟨some, slot, len, fun index below => ?_⟩, delivers⟩
          exact copied index (by simp only at below; omega)
  | storeLen =>
      simp only [next, reduceCtorEq, ↓reduceIte] at agrees delivers ⊢
      obtain ⟨some, slot, len, copied⟩ := agrees
      have value : (BitVec.ofNat 32 poll.receiver.len).toNat = poll.receiver.len := by
        rw [BitVec.toNat_ofNat]
        omega
      refine ⟨⟨some, slot, value.trans len, fun index below => ?_⟩, delivers⟩
      exact copied index (value ▸ below)
  | storeSender =>
      simp only [next, reduceCtorEq, ↓reduceIte] at agrees delivers ⊢
      obtain ⟨some, slot, len, copied⟩ := agrees
      refine ⟨⟨some, ?_⟩, delivers⟩
      simp only [Receiver.message, Message.ofBuffer, Mailbox.message, slot, len]
      congr 1
      apply List.map_congr_left
      intro index inRange
      exact copied index (len ▸ List.mem_range.mp inRange)
  | advanceHead =>
      simp only [next, reduceCtorEq, ↓reduceIte] at agrees delivers ⊢
      obtain ⟨some, oldest⟩ := agrees
      rw [advanceHead_pending some, ← oldest] at delivers
      exact ⟨trivial, delivers⟩
  | decrementCount =>
      simp only [next, ↓reduceIte] at agrees delivers ⊢
      exact ⟨trivial, delivers.receive⟩

theorem Poll.start_polled (mailbox : Mailbox) (receiver : Receiver) :
    Polled (Poll.start mailbox receiver) := ⟨trivial, rfl⟩

theorem Polled.run {poll : Poll} (polled : Polled poll) {events : List Event}
    (undisturbed : poll.Undisturbed events) : Polled (poll.run events) := by
  induction events generalizing poll with
  | nil => exact polled
  | cons event events ih =>
      obtain ⟨harmless, later⟩ := undisturbed
      refine ih ?_ later
      cases event with
      | recv => exact polled.recv
      | send payload len sender => exact polled.send harmless

/-- In every run without a message accepted between the last two statements of `ipc_recv`, the
Shell receives the accepted messages in order. -/
theorem poll_in_order (mailbox : Mailbox) (receiver : Receiver) (events : List Event)
    (undisturbed : (Poll.start mailbox receiver).Undisturbed events) :
    ((Poll.start mailbox receiver).run events).InOrder := by
  have polled := (Poll.start_polled mailbox receiver).run undisturbed
  refine ⟨polled.delivers.received_prefix, fun idle => ?_⟩
  have delivers := polled.delivers
  simp only [Poll.undelivered, idle, reduceCtorEq, ↓reduceIte] at delivers
  exact delivers

/-- A mailbox with one message of one byte from task 1, the other slots as after a reset. -/
def oneMessage : Mailbox where
  bytes := fun _ _ => 0x41
  len := fun slot => if slot = 0 then 1 else 0
  sender := fun slot => if slot = 0 then 1 else -1
  head := 0
  count := 1

/-- Variables that have not been assigned. -/
def unassigned : Receiver := ⟨.testCount, 0, 0, 0, fun _ => 0, 0, -1⟩

/-- A message accepted before the head moves is received after the first one. -/
theorem poll_in_order_early_message :
    let events := List.replicate 3 Event.recv ++ [.send (fun _ => 0x42) 1 2] ++
      List.replicate 15 Event.recv
    ((Poll.start oneMessage unassigned).run events).channel.received =
        [⟨[0x41], 1⟩, ⟨[0x42], 2⟩] ∧
      ((Poll.start oneMessage unassigned).run events).InOrder := by
  refine ⟨by decide, poll_in_order oneMessage unassigned _ ?_⟩
  refine ⟨trivial, trivial, trivial, fun last => absurd last (by decide), ?_⟩
  repeat' constructor

/-- A message accepted after the head has moved is never received: the Shell receives the old
contents of a slot instead. -/
theorem late_message_lost :
    let events := List.replicate 8 Event.recv ++ [.send (fun _ => 0x42) 1 2] ++
      List.replicate 9 Event.recv
    let poll := (Poll.start oneMessage unassigned).run events
    poll.channel.sent = [⟨[0x41], 1⟩, ⟨[0x42], 2⟩] ∧
      poll.channel.received = [⟨[0x41], 1⟩, ⟨[], -1⟩] ∧ ¬ poll.InOrder := by
  refine ⟨by decide, by decide, fun inOrder => ?_⟩
  exact absurd inOrder.1 (by decide)

end MxOS.Ipc
