import MxOS.Lib.Memory
import Mathlib.Algebra.GroupWithZero.Nat

/-! # Two-level address translation

Paging of 32-bit addresses with pages of 4 KiB. The upper ten bits of an address select
an entry of the page directory, which names a page table; the next ten select an entry of
the table, which names a page; the rest is the byte of the page. Each entry has a bit for
being present, one for being writable and one for ring 3.
-/

namespace PageWalk

open ByteMemory

/-- An access to memory, from ring 3 or from the supervisor. -/
structure Access where
  user : Bool
  write : Bool

/-- An entry permits the access. The supervisor may write to every page, as it is not write
protected. -/
def permits (access : Access) (entry : Word) : Bool :=
  entry.getLsbD 0 && (!access.user || entry.getLsbD 2 && (!access.write || entry.getLsbD 1))

/-- The page that an entry names. -/
def frame (entry : Word) : Word := entry &&& 0xFFFFF000

def entryAt (memory : Memory) (base : Word) (index : Word) : Word :=
  memory.read32 (frame base + 4 * index)

/-- The physical address, or `none` for a page fault. -/
def walk (memory : Memory) (root : Word) (access : Access) (address : Word) : Option Word :=
  let upper := entryAt memory root (address >>> 22)
  if permits access upper then
    let lower := entryAt memory upper (address >>> 12 &&& 0x3FF)
    if permits access lower then some (frame lower ||| address &&& 0xFFF) else none
  else none

/-! ### Tables in memory -/

abbrev Entries := Fin 1024 → Word

/-- The table lies in the page at the given address. -/
structure Table (memory : Memory) (base : Word) (entries : Entries) : Prop where
  aligned : frame base = base
  entry : ∀ index : Fin 1024, memory.read32 (base + 4 * BitVec.ofNat 32 index.val) = entries index

def indexOf (number : Word) : Fin 1024 := ⟨number.toNat % 1024, Nat.mod_lt _ (by decide)⟩

theorem indexOf_val (number : Word) : (indexOf number).val = number.toNat % 1024 := rfl

/-- The page of an address below 4 MiB. -/
def pageOf (address : Word) : Fin 1024 := indexOf (address >>> 12)

theorem Table.entryAt {memory : Memory} {base : Word} {entries : Entries}
    (table : Table memory base entries) {index : Word} (small : index.toNat < 1024) :
    PageWalk.entryAt memory base index = entries ⟨index.toNat, small⟩ := by
  rw [PageWalk.entryAt, table.aligned, ← table.entry, BitVec.ofNat_toNat, BitVec.setWidth_eq]

/-- A table is its 4096 bytes. -/
theorem Table.congr {memory later : Memory} {base : Word} {entries : Entries}
    (table : Table memory base entries) (same : Set.EqOn later memory (span base 4096)) :
    Table later base entries where
  aligned := table.aligned
  entry := by
    intro index
    have inside := index.isLt
    rw [← table.entry index]
    refine Memory.read32_congr (same.mono fun address member => ?_)
    rw [mem_span] at member ⊢
    bv_omega

/-- The memory whose pages hold the given tables. -/
def pagedMemory (content : Word → Entries) : Memory := fun address =>
  byteOf (content (address >>> 12) (indexOf (address >>> 2))) (address.toNat % 4)

theorem pagedMemory_table {content : Word → Entries} {base : Word} (aligned : frame base = base) :
    Table (pagedMemory content) base (content (base >>> 12)) where
  aligned := aligned
  entry := by
    intro index
    have inside := index.isLt
    have whole : base.toNat % 4096 = 0 := by
      have low : (base &&& 0xFFF).toNat = base.toNat % 4096 := by
        rw [BitVec.toNat_and]
        exact Nat.and_two_pow_sub_one_eq_mod base.toNat 12
      have none : base &&& 0xFFF = 0 := by
        rw [← aligned, frame, BitVec.and_assoc]
        exact BitVec.and_zero
      rw [← low, none]
      rfl
    have small := base.isLt
    rw [← wordOf_byteOf (content (base >>> 12) index)]
    refine wordOf_congr fun byte four => ?_
    have place : (base + 4 * BitVec.ofNat 32 index.val + BitVec.ofNat 32 byte).toNat =
        base.toNat + 4 * index.val + byte := by
      bv_omega
    have page : (base + 4 * BitVec.ofNat 32 index.val + BitVec.ofNat 32 byte) >>> 12 =
        base >>> 12 := by
      apply BitVec.eq_of_toNat_eq
      rw [BitVec.toNat_ushiftRight, BitVec.toNat_ushiftRight, place, Nat.shiftRight_eq_div_pow,
        Nat.shiftRight_eq_div_pow]
      omega
    have entry :
        indexOf ((base + 4 * BitVec.ofNat 32 index.val + BitVec.ofNat 32 byte) >>> 2) = index := by
      apply Fin.ext
      rw [indexOf_val, BitVec.toNat_ushiftRight, place, Nat.shiftRight_eq_div_pow]
      omega
    rw [pagedMemory, page, entry, place]
    exact congrArg _ (by omega)

/-- Flags added to the address of a page leave the address readable. -/
theorem frame_or {base flags : Word} (aligned : frame base = base) (low : frame flags = 0) :
    frame (base ||| flags) = base := by
  have both : frame (base ||| flags) = frame base ||| frame flags := BitVec.and_or_distrib_right
  rw [both, aligned, low]
  exact BitVec.or_zero

theorem frame_low {base : Word} (aligned : frame base = base) {bit : Nat} (low : bit < 12) :
    base.getLsbD bit = false := by
  have mask : (0xFFFFF000 : Word).getLsbD bit = false := by
    revert low
    revert bit
    decide
  rw [← aligned, frame, BitVec.getLsbD_and, mask, Bool.and_false]

theorem permits_or {base : Word} (aligned : frame base = base) (access : Access) (flags : Word) :
    permits access (base ||| flags) = permits access flags := by
  simp only [permits, BitVec.getLsbD_or, frame_low aligned (show 0 < 12 by decide),
    frame_low aligned (show 1 < 12 by decide), frame_low aligned (show 2 < 12 by decide),
    Bool.false_or]

/-! ### The identity on the first 4 MiB -/

/-- The address of a page. -/
def pageAddress (page : Fin 1024) : Word := BitVec.ofNat 32 (page.val * 4096)

theorem frame_pageAddress (page : Fin 1024) : frame (pageAddress page) = pageAddress page := by
  revert page
  decide +kernel

/-- An address is its page and its place in the page. -/
theorem pageAddress_or {address : Word} (small : address.toNat < 0x400000) :
    pageAddress (pageOf address) ||| address &&& 0xFFF = address := by
  have page : (pageAddress (pageOf address)).toNat = 2 ^ 12 * (address.toNat / 4096) := by
    rw [pageAddress, pageOf, indexOf_val, BitVec.toNat_ofNat, BitVec.toNat_ushiftRight,
      Nat.shiftRight_eq_div_pow]
    omega
  have rest : (address &&& 0xFFF).toNat = address.toNat % 4096 := by
    rw [BitVec.toNat_and]
    exact Nat.and_two_pow_sub_one_eq_mod address.toNat 12
  apply BitVec.eq_of_toNat_eq
  rw [BitVec.toNat_or, page, rest, ← Nat.two_pow_add_eq_or_of_lt (by omega)]
  omega

/-- The first entry of the directory leads to a table that maps every page to itself, with the
flags given; no other entry is present. -/
structure IdentityMap (memory : Memory) (root : Word) (flags : Entries) : Prop where
  tables : ∃ base directory table, Table memory root directory ∧ Table memory base table ∧
    directory (indexOf 0) = base ||| 7 ∧
    (∀ index, index ≠ indexOf 0 → (directory index).getLsbD 0 = false) ∧
    ∀ page, table page = pageAddress page ||| flags page
  low : ∀ page, frame (flags page) = 0

/-- Such a directory permits what the flags of the page do, and changes no address. -/
theorem IdentityMap.walk {memory : Memory} {root : Word} {flags : Entries}
    (identity : IdentityMap memory root flags) (access : Access) (address : Word) :
    walk memory root access address =
      if address.toNat < 0x400000 ∧ permits access (flags (pageOf address)) = true then
        some address
      else none := by
  obtain ⟨base, directory, table, upper, lower, first, others, pages⟩ := identity.tables
  have top : (address >>> 22).toNat = address.toNat / 0x400000 := by
    rw [BitVec.toNat_ushiftRight, Nat.shiftRight_eq_div_pow]
  have middle : (address >>> 12 &&& 0x3FF).toNat = address.toNat / 4096 % 1024 := by
    rw [BitVec.toNat_and, BitVec.toNat_ushiftRight, Nat.shiftRight_eq_div_pow]
    exact Nat.and_two_pow_sub_one_eq_mod _ 10
  have short : (address >>> 22).toNat < 1024 := by
    have := address.isLt
    omega
  have inTable : (address >>> 12 &&& 0x3FF).toNat < 1024 := by omega
  rw [PageWalk.walk, upper.entryAt short]
  by_cases small : address.toNat < 0x400000
  · have zero : (⟨(address >>> 22).toNat, short⟩ : Fin 1024) = indexOf 0 := by
      apply Fin.ext
      change (address >>> 22).toNat = 0
      omega
    have page : (⟨(address >>> 12 &&& 0x3FF).toNat, inTable⟩ : Fin 1024) = pageOf address := by
      apply Fin.ext
      change (address >>> 12 &&& 0x3FF).toNat = (address >>> 12).toNat % 1024
      rw [middle, BitVec.toNat_ushiftRight, Nat.shiftRight_eq_div_pow]
    have all : permits access 7 = true := by
      obtain ⟨user, write⟩ := access
      cases user <;> cases write <;> decide
    have leads : PageWalk.entryAt memory (directory (indexOf 0)) (address >>> 12 &&& 0x3FF) =
        pageAddress (pageOf address) ||| flags (pageOf address) := by
      have same : frame (directory (indexOf 0)) = base := by
        rw [first]
        exact frame_or lower.aligned (by decide)
      rw [PageWalk.entryAt, same, ← pages, ← page, ← lower.entry, BitVec.ofNat_toNat,
        BitVec.setWidth_eq]
    simp only [zero, leads]
    rw [first, permits_or lower.aligned, all, if_pos rfl,
      permits_or (frame_pageAddress _), frame_or (frame_pageAddress _) (identity.low _),
      pageAddress_or small]
    simp only [small, true_and]
  · have other : (⟨(address >>> 22).toNat, short⟩ : Fin 1024) ≠ indexOf 0 := fun zero => by
      have none : (address >>> 22).toNat = 0 := congrArg Fin.val zero
      omega
    have absent : permits access (directory ⟨(address >>> 22).toNat, short⟩) = false := by
      rw [permits, others _ other, Bool.false_and]
    rw [absent, if_neg Bool.false_ne_true, if_neg fun holds => small holds.1]

/-- The directory maps the first 4 MiB to themselves, for the supervisor all of it and for ring 3
the given pages. -/
def Maps (memory : Memory) (root : Word) (userPage : Word → Prop) : Prop :=
  ∀ access address physical, walk memory root access address = some physical ↔
    physical = address ∧ address.toNat < 0x400000 ∧ (access.user = true → userPage address)

theorem IdentityMap.maps {memory : Memory} {root : Word} {flags : Entries}
    {userPage : Word → Prop} (identity : IdentityMap memory root flags)
    (pages : ∀ access address, address.toNat < 0x400000 →
      (permits access (flags (pageOf address)) = true ↔
        (access.user = true → userPage address))) : Maps memory root userPage := by
  intro access address physical
  rw [identity.walk]
  by_cases small : address.toNat < 0x400000
  · by_cases allowed : permits access (flags (pageOf address)) = true
    · rw [if_pos ⟨small, allowed⟩, Option.some.injEq, eq_comm]
      exact (and_iff_left ⟨small, (pages access address small).mp allowed⟩).symm
    · rw [if_neg fun holds => allowed holds.2]
      refine iff_of_false (fun same => (nomatch same)) fun holds => ?_
      exact allowed ((pages access address small).mpr holds.2.2)
  · rw [if_neg fun holds => small holds.1]
    exact iff_of_false (fun same => (nomatch same)) fun holds => small holds.2.1

end PageWalk
