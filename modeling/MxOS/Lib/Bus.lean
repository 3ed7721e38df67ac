import MxOS.Lib.Memory

/-! # Memory with a record of accesses

A memory together with the addresses that were loaded from or stored to through it, in
order. The addresses of a block of bytes are listed by `block`.
-/

namespace ByteMemory

/-- The `length` addresses from `start` on, wrapping at the top. -/
def block (start : Word) (length : Nat) : List Word :=
  (List.range length).map fun index => start + BitVec.ofNat 32 index

@[simp] theorem block_zero (start : Word) : block start 0 = [] := rfl

/-- The addresses a loop over the bytes from `base` on goes through, from number `index` on. -/
theorem block_succ (base : Word) (index length : Nat) :
    block (base + BitVec.ofNat 32 index) (length + 1) =
      (base + BitVec.ofNat 32 index) :: block (base + BitVec.ofNat 32 (index + 1)) length := by
  rw [block, List.range_succ_eq_map, List.map_cons, List.map_map, BitVec.add_zero]
  congr 1
  apply List.map_congr_left
  intro offset _
  simp only [Function.comp_apply, Nat.succ_eq_add_one]
  bv_omega

theorem mem_block {start address : Word} {length : Nat} :
    address ∈ block start length ↔ ∃ index < length, start + BitVec.ofNat 32 index = address := by
  simp only [block, List.mem_map, List.mem_range]

/-- A block that starts in a window lies in it if and only if it ends in it. The window does not
wrap, the block may. -/
theorem block_within_iff {base off : Word} {size length : Nat} (window : base.toNat + size ≤ 2 ^ 32)
    (proper : size < 2 ^ 32) (start : off.toNat ≤ size) :
    (∀ address ∈ block (base + off) length,
      base.toNat ≤ address.toNat ∧ address.toNat < base.toNat + size) ↔
      off.toNat + length ≤ size := by
  constructor
  · intro within
    by_contra beyond
    -- The byte just behind the window belongs to the block.
    have behind := within (base + off + BitVec.ofNat 32 (size - off.toNat))
      (mem_block.mpr ⟨size - off.toNat, by omega, rfl⟩)
    bv_omega
  · intro fits address member
    obtain ⟨index, inside, rfl⟩ := mem_block.mp member
    bv_omega

structure Bus where
  memory : Memory
  accesses : List Word

namespace Bus

variable (bus : Bus) (address : Word)

def load : Byte × Bus :=
  (bus.memory address, { bus with accesses := bus.accesses ++ [address] })

def store (value : Byte) : Bus where
  memory := bus.memory.write8 address value
  accesses := bus.accesses ++ [address]

def store32 (value : Word) : Bus where
  memory := bus.memory.write32 address value
  accesses := bus.accesses ++ block address 4

end Bus

end ByteMemory
