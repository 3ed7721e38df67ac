import Mathlib.Algebra.GroupWithZero.Nat
import Mathlib.Data.Fintype.Basic
import Mathlib.Tactic.Common

/-! # Queues and channels

A circular queue lies in a fixed number of slots: a head index and a number of
elements, which are in consecutive slots from the head on, modulo the number of slots.

A channel records what was accepted and what was delivered. It is a first-in, first-out
channel when the two differ by what is still queued.
-/

namespace Ring

variable {Element : Type} {size : Nat} [NeZero size]

/-- The slot `offset` places behind the head. -/
def slotAt (head : Fin size) (offset : Nat) : Fin size := Fin.ofNat size (head.val + offset)

/-- The queued elements, oldest first. -/
def window (slots : Fin size → Element) (head : Fin size) (count : Nat) : List Element :=
  (List.range count).map fun offset => slots (slotAt head offset)

variable {slots : Fin size → Element} {head : Fin size} {count : Nat}

@[simp] theorem slotAt_zero (head : Fin size) : slotAt head 0 = head := by
  apply Fin.ext
  rw [slotAt, Nat.add_zero, Fin.val_ofNat, Nat.mod_eq_of_lt head.isLt]

theorem slotAt_slotAt (head : Fin size) (first second : Nat) :
    slotAt (slotAt head first) second = slotAt head (first + second) := by
  apply Fin.ext
  simp only [slotAt, Fin.val_ofNat]
  rw [Nat.mod_add_mod, Nat.add_assoc]

/-- Different places in a queue that is not longer than its slots are different slots. -/
theorem slotAt_inj {first second : Nat} (inside₁ : first < size) (inside₂ : second < size)
    (same : slotAt head first = slotAt head second) : first = second := by
  have values := congrArg Fin.val same
  simp only [slotAt, Fin.val_ofNat] at values
  have bound := head.isLt
  by_cases wrap₁ : head.val + first < size
  · by_cases wrap₂ : head.val + second < size
    · rw [Nat.mod_eq_of_lt wrap₁, Nat.mod_eq_of_lt wrap₂] at values
      omega
    · rw [Nat.mod_eq_of_lt wrap₁, Nat.mod_eq_sub_mod (by omega), Nat.mod_eq_of_lt (by omega)]
        at values
      omega
  · by_cases wrap₂ : head.val + second < size
    · rw [Nat.mod_eq_of_lt wrap₂, Nat.mod_eq_sub_mod (by omega), Nat.mod_eq_of_lt (by omega)]
        at values
      omega
    · rw [Nat.mod_eq_sub_mod (by omega), Nat.mod_eq_of_lt (by omega), Nat.mod_eq_sub_mod (by omega),
        Nat.mod_eq_of_lt (by omega)] at values
      omega

@[simp] theorem length_window : (window slots head count).length = count := by
  rw [window, List.length_map, List.length_range]

/-- Only the occupied slots matter. -/
theorem window_congr {other : Fin size → Element}
    (same : ∀ offset < count, other (slotAt head offset) = slots (slotAt head offset)) :
    window other head count = window slots head count :=
  List.map_congr_left fun offset inRange => same offset (List.mem_range.mp inRange)

/-- Filling the first slot behind the queue appends an element. -/
theorem window_push {other : Fin size → Element} (room : count < size)
    (kept : ∀ slot, slot ≠ slotAt head count → other slot = slots slot) :
    window other head (count + 1) = window slots head count ++ [other (slotAt head count)] := by
  rw [window, List.range_succ, List.map_append, List.map_singleton]
  congr 1
  apply window_congr
  intro offset inside
  exact kept _ fun same => absurd (slotAt_inj (by omega) room same) (by omega)

/-- Advancing the head takes the oldest element off. -/
theorem window_pop : window slots head (count + 1) =
    slots head :: window slots (slotAt head 1) count := by
  rw [window, List.range_succ_eq_map, List.map_cons, List.map_map, slotAt_zero]
  congr 1
  apply List.map_congr_left
  intro offset _
  rw [Function.comp_apply, slotAt_slotAt, Nat.succ_eq_add_one, Nat.add_comm]

end Ring

namespace Fifo

structure Channel (Message : Type) where
  sent : List Message
  received : List Message

namespace Channel

variable {Message : Type}

def empty : Channel Message := ⟨[], []⟩

def send (channel : Channel Message) (message : Message) : Channel Message :=
  { channel with sent := channel.sent ++ [message] }

def receive (channel : Channel Message) (message : Message) : Channel Message :=
  { channel with received := channel.received ++ [message] }

/-- Everything sent has been received, in order, or is still pending. -/
def Delivers (channel : Channel Message) (pending : List Message) : Prop :=
  channel.sent = channel.received ++ pending

variable {channel : Channel Message} {pending : List Message} {message : Message}

theorem Delivers.received_prefix (delivers : channel.Delivers pending) :
    channel.received <+: channel.sent := ⟨pending, delivers.symm⟩

theorem Delivers.send (delivers : channel.Delivers pending) (message : Message) :
    (channel.send message).Delivers (pending ++ [message]) := by
  unfold Delivers at delivers
  simp only [Delivers, Channel.send, delivers, List.append_assoc]

theorem Delivers.receive (delivers : channel.Delivers (message :: pending)) :
    (channel.receive message).Delivers pending := by
  unfold Delivers at delivers
  simp only [Delivers, Channel.receive, delivers, List.append_assoc, List.singleton_append]

/-- The oldest pending message is the first one that was not received. -/
theorem Delivers.head? (delivers : channel.Delivers pending) :
    channel.sent[channel.received.length]? = pending.head? := by
  unfold Delivers at delivers
  rw [delivers, List.getElem?_append_right (Nat.le_refl _), Nat.sub_self, List.head?_eq_getElem?]

theorem Delivers.length (delivers : channel.Delivers pending) :
    channel.sent.length = channel.received.length + pending.length := by
  unfold Delivers at delivers
  rw [delivers, List.length_append]

end Channel

end Fifo
