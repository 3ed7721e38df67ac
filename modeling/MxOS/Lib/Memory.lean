import Mathlib.Algebra.GroupWithZero.Nat
import Mathlib.Data.Set.BooleanAlgebra
import Mathlib.Data.Set.Function
import Mathlib.Order.CompletePartialOrder
import Mathlib.Tactic.Common

/-! # Byte-addressed memory with little-endian words

A flat 32-bit address space. Words are read and written least significant byte
first, at any alignment and wrapping at the top of the space. The frame laws say
which bytes a store leaves alone, as equality of two memories on a set of
addresses.
-/

namespace ByteMemory

abbrev Byte := BitVec 8

abbrev Word := BitVec 32

/-- Byte `index` of a word, counted from the least significant one. -/
def byteOf (word : Word) (index : Nat) : Byte := word.extractLsb' (8 * index) 8

/-- The word whose four bytes, least significant first, are `bytes 0` to `bytes 3`. -/
def wordOf (bytes : Nat → Byte) : Word := bytes 3 ++ bytes 2 ++ bytes 1 ++ bytes 0

@[simp] theorem wordOf_byteOf (word : Word) : wordOf (byteOf word) = word := by
  apply BitVec.eq_of_getLsbD_eq
  intro bit bound
  simp only [wordOf, byteOf, BitVec.getLsbD_append, BitVec.getLsbD_extractLsb']
  grind

theorem byteOf_wordOf (bytes : Nat → Byte) {index : Nat} (bound : index < 4) :
    byteOf (wordOf bytes) index = bytes index := by
  apply BitVec.eq_of_getLsbD_eq
  intro bit inside
  obtain rfl | rfl | rfl | rfl : index = 0 ∨ index = 1 ∨ index = 2 ∨ index = 3 := by omega
  all_goals
    simp only [wordOf, byteOf, BitVec.getLsbD_append, BitVec.getLsbD_extractLsb']
    grind

theorem wordOf_congr {first second : Nat → Byte} (same : ∀ index < 4, first index = second index) :
    wordOf first = wordOf second := by
  simp only [wordOf, same 0 (by decide), same 1 (by decide), same 2 (by decide),
    same 3 (by decide)]

abbrev Memory := Word → Byte

/-- The `length` consecutive addresses from `start` on, wrapping at the top. -/
def span (start : Word) (length : Nat) : Set Word := {address | (address - start).toNat < length}

theorem mem_span {start address : Word} {length : Nat} :
    address ∈ span start length ↔ (address - start).toNat < length := Iff.rfl

/-- Without wrapping, membership in a span is the usual half-open interval. -/
theorem mem_span_iff {start address : Word} {length : Nat}
    (bounded : start.toNat + length ≤ 2 ^ 32) :
    address ∈ span start length ↔
      start.toNat ≤ address.toNat ∧ address.toNat < start.toNat + length := by
  rw [mem_span]
  bv_omega

namespace Memory

variable (memory : Memory) (address : Word)

def read32 : Word := wordOf fun index => memory (address + BitVec.ofNat 32 index)

def write8 (value : Byte) : Memory := Function.update memory address value

def write32 (value : Word) : Memory := fun query =>
  if (query - address).toNat < 4 then byteOf value (query - address).toNat else memory query

variable {memory address}

theorem read32_congr {other : Memory} (same : Set.EqOn other memory (span address 4)) :
    other.read32 address = memory.read32 address := by
  apply wordOf_congr
  intro index bound
  apply same
  rw [mem_span]
  bv_omega

@[simp] theorem read32_write32_self (value : Word) :
    (memory.write32 address value).read32 address = value := by
  rw [← wordOf_byteOf value]
  apply wordOf_congr
  intro index bound
  have offset : (address + BitVec.ofNat 32 index - address).toNat = index := by bv_omega
  simp only [write32, offset, bound, ↓reduceIte, wordOf_byteOf]

theorem write32_eqOn (value : Word) :
    Set.EqOn (memory.write32 address value) memory (span address 4)ᶜ := by
  intro query outside
  simp only [Set.mem_compl_iff, mem_span] at outside
  simp only [write32, outside, ↓reduceIte]

theorem write32_read32_self : memory.write32 address (memory.read32 address) = memory := by
  funext query
  unfold write32
  split
  · next inside =>
      rw [read32, byteOf_wordOf _ inside]
      exact congrArg memory (by bv_omega)
  · rfl

theorem write8_eqOn (value : Byte) :
    Set.EqOn (memory.write8 address value) memory {address}ᶜ := by
  intro query outside
  exact Function.update_of_ne outside _ _

@[simp] theorem write8_self (value : Byte) : memory.write8 address value address = value :=
  Function.update_self _ _ _

/-- One turn of a loop that fills consecutive addresses, the later turns being done. -/
theorem write8_fill (value : Word → Byte) {start : Word} {index remaining : Nat}
    (bounded : index + (remaining + 1) ≤ 2 ^ 32) (query : Word) :
    (if index + 1 ≤ (query - start).toNat ∧ (query - start).toNat < index + 1 + remaining then
        value (query - start)
      else memory.write8 (start + BitVec.ofNat 32 index) (value (BitVec.ofNat 32 index)) query) =
    if index ≤ (query - start).toNat ∧ (query - start).toNat < index + (remaining + 1) then
      value (query - start)
    else memory query := by
  by_cases here : query = start + BitVec.ofNat 32 index
  · have distance : query - start = BitVec.ofNat 32 index := by
      rw [here]
      bv_omega
    have place : (BitVec.ofNat 32 index).toNat = index := by
      rw [BitVec.toNat_ofNat]
      omega
    rw [distance, place, if_neg (by omega), if_pos (by omega), here, write8_self]
  · have elsewhere : (query - start).toNat ≠ index := by
      intro same
      apply here
      bv_omega
    rw [write8_eqOn _ here]
    by_cases later : index + 1 ≤ (query - start).toNat ∧
        (query - start).toNat < index + 1 + remaining
    · rw [if_pos later, if_pos (by omega)]
    · rw [if_neg later, if_neg (by omega)]

/-! ### Adding to words -/

/-- The words at the given addresses are increased one after the other. -/
def addToWords (delta : Word) : List Word → Memory → Memory
  | [], memory => memory
  | word :: rest, memory => addToWords delta rest (memory.write32 word (memory.read32 word + delta))

theorem addToWords_append (delta : Word) (first second : List Word) (memory : Memory) :
    addToWords delta (first ++ second) memory =
      addToWords delta second (addToWords delta first memory) := by
  induction first generalizing memory with
  | nil => rfl
  | cons word rest ih => exact ih _

theorem addToWords_eqOn (delta : Word) (words : List Word) (memory : Memory) :
    Set.EqOn (addToWords delta words memory) memory
      {address | ∀ word ∈ words, address ∉ span word 4} := by
  induction words generalizing memory with
  | nil => exact Set.eqOn_refl ..
  | cons word rest ih =>
      intro address outside
      have later := ih (memory.write32 word (memory.read32 word + delta))
        fun other member => outside other (List.mem_cons_of_mem _ member)
      exact later.trans (write32_eqOn _ (outside word (List.mem_cons_self ..)))

/-- Each of several disjoint words is increased once. -/
theorem read32_addToWords (delta : Word) {words : List Word} (memory : Memory)
    (apart : words.Pairwise fun first second => Disjoint (span first 4) (span second 4))
    {word : Word} (member : word ∈ words) :
    (addToWords delta words memory).read32 word = memory.read32 word + delta := by
  induction words generalizing memory with
  | nil => cases member
  | cons head rest ih =>
      obtain ⟨headApart, restApart⟩ := List.pairwise_cons.mp apart
      rw [addToWords]
      by_cases later : word ∈ rest
      · rw [ih _ restApart later]
        refine congrArg (· + delta) (read32_congr fun address inside => ?_)
        exact write32_eqOn _ (Set.disjoint_right.mp (headApart word later) inside)
      · obtain rfl : word = head := (List.mem_cons.mp member).resolve_right later
        have same : Set.EqOn (addToWords delta rest
            (memory.write32 word (memory.read32 word + delta)))
            (memory.write32 word (memory.read32 word + delta)) (span word 4) := by
          intro address inside
          refine addToWords_eqOn delta rest _ fun other present => ?_
          exact Set.disjoint_left.mp (headApart other present) inside
        rw [read32_congr same, read32_write32_self]

end Memory

end ByteMemory
