import MxOS.Kernel.Interrupts
import MxOS.Kernel.Processor

/-! # Segments and ports

`kernel/gdt.c`: the descriptors of the flat segments and of the task state segment, read
back as the processor reads them. The task state segment also holds the map of the ports
that ring 3 may use, behind its fixed part and as far as its limit goes.
-/

namespace MxOS.Gdt

open ByteMemory Processor

/-! ### Descriptors -/

structure GdtEntry where
  limitLow : BitVec 16
  baseLow : BitVec 16
  baseMiddle : Byte
  access : Byte
  granularity : Byte
  baseHigh : Byte

/-- The entry that `gdt_set_gate` fills. -/
def gdtSetGate (base limit : Word) (access gran : Byte) : GdtEntry where
  baseLow := (base &&& 0xFFFF).setWidth 16
  baseMiddle := (base >>> 16 &&& 0xFF).setWidth 8
  baseHigh := (base >>> 24 &&& 0xFF).setWidth 8
  limitLow := (limit &&& 0xFFFF).setWidth 16
  granularity := (limit >>> 16 &&& 0x0F).setWidth 8 ||| gran &&& 0xF0
  access := access

/-- `sizeof(tss)` -/
def tssSize : Word := 104

/-- The fields of the task state segment that the processor uses here. -/
structure Tss where
  esp0 : Word
  ss0 : Word
  iomapBase : BitVec 16

/-- The descriptor that `write_tss` makes for the segment at the given address. -/
def tssEntry (tss : Word) : GdtEntry :=
  let base := tss
  let limit := base + tssSize
  gdtSetGate base limit 0x89 0x00

/-- The segment that `write_tss` fills, with the stack at the given address. -/
def writeTss (tssKernelStack : Word) : Tss where
  ss0 := kernelData
  esp0 := tssKernelStack + 4096
  iomapBase := tssSize.setWidth 16

/-- `tss_set_kernel_stack` -/
def tssSetKernelStack (esp0 : Word) (segment : Tss) : Tss := { segment with esp0 := esp0 }

/-- The table of `gdt_init`. -/
def gdtInit (tss : Word) : Fin 6 → GdtEntry
  | 0 => gdtSetGate 0 0 0 0
  | 1 => gdtSetGate 0 0xFFFFFFFF 0x9A 0xCF
  | 2 => gdtSetGate 0 0xFFFFFFFF 0x92 0xCF
  | 3 => gdtSetGate 0 0xFFFFFFFF 0xFA 0xCF
  | 4 => gdtSetGate 0 0xFFFFFFFF 0xF2 0xCF
  | 5 => tssEntry tss

namespace GdtEntry

variable (entry : GdtEntry)

def base : Word := entry.baseHigh ++ entry.baseMiddle ++ entry.baseLow

/-- The twenty bits of the limit. -/
def rawLimit : Nat := entry.limitLow.toNat + 65536 * (entry.granularity &&& 0x0F).toNat

/-- The last offset in the segment, counted in bytes or in pages. -/
def limit : Nat :=
  if entry.granularity.getLsbD 7 then entry.rawLimit * 4096 + 4095 else entry.rawLimit

end GdtEntry

/-! ### Ports -/

/-- The level from which ports may be used without asking the map. -/
def iopl (eflags : Word) : Nat := (eflags >>> 12 &&& 3).toNat

/-- The instructions `in` and `out` of a byte. For a port, two bytes of the map must be inside the
segment, and the bit of the port must be clear. -/
def portPermitted (descriptor : GdtEntry) (segment : Tss) (memory : Memory) (privilege : Nat)
    (eflags : Word) (port : BitVec 16) : Bool :=
  privilege ≤ iopl eflags ||
    (segment.iomapBase.toNat + port.toNat / 8 + 1 ≤ descriptor.limit &&
      !(memory (descriptor.base + BitVec.ofNat 32 (segment.iomapBase.toNat + port.toNat / 8))).getLsbD
        (port.toNat % 8))

/-! ### Reading a descriptor back -/

section Descriptor

variable (base limit : Word) (access gran : Byte)

theorem toNat_byte (word : Word) : ((word &&& 0xFF).setWidth 8).toNat = word.toNat % 256 := by
  have mask : word.toNat &&& 255 = word.toNat % 256 := Nat.and_two_pow_sub_one_eq_mod _ 8
  rw [BitVec.toNat_setWidth, BitVec.toNat_and]
  change (word.toNat &&& 255) % 256 = _
  omega

theorem base_gdtSetGate : (gdtSetGate base limit access gran).base = base := by
  have shift : ∀ places, (base >>> places).toNat = base.toNat / 2 ^ places := fun places => by
    rw [BitVec.toNat_ushiftRight, Nat.shiftRight_eq_div_pow]
  have small := base.isLt
  apply BitVec.eq_of_toNat_eq
  simp only [GdtEntry.base, gdtSetGate]
  rw [BitVec.toNat_append, BitVec.toNat_append, toNat_byte, toNat_byte, Interrupts.toNat_low,
    shift, shift, ← Nat.shiftLeft_add_eq_or_of_lt (Nat.mod_lt _ (by decide)),
    ← Nat.shiftLeft_add_eq_or_of_lt (Nat.mod_lt _ (by decide)), Nat.shiftLeft_eq,
    Nat.shiftLeft_eq]
  omega

/-- The flags leave the upper part of the limit readable. -/
theorem granularity_low :
    ((gdtSetGate base limit access gran).granularity &&& 0x0F).toNat =
      limit.toNat / 65536 % 16 := by
  have flags : gran &&& 0xF0 &&& 0x0F = 0 := by
    rw [BitVec.and_assoc]
    exact BitVec.and_zero
  have nibble : (limit >>> 16 &&& 0x0F).toNat = limit.toNat / 65536 % 16 := by
    rw [BitVec.toNat_and, BitVec.toNat_ushiftRight, Nat.shiftRight_eq_div_pow]
    exact Nat.and_two_pow_sub_one_eq_mod _ 4
  have mask : limit.toNat / 65536 % 16 &&& 15 = limit.toNat / 65536 % 16 % 16 :=
    Nat.and_two_pow_sub_one_eq_mod _ 4
  have upper : ((limit >>> 16 &&& 0x0F).setWidth 8).toNat = limit.toNat / 65536 % 16 := by
    rw [BitVec.toNat_setWidth, nibble]
    omega
  simp only [gdtSetGate]
  rw [BitVec.and_or_distrib_right, flags]
  change ((limit >>> 16 &&& 0x0F).setWidth 8 &&& 0x0F ||| 0 : Byte).toNat = _
  rw [show ∀ byte : Byte, byte ||| 0 = byte from fun _ => BitVec.or_zero, BitVec.toNat_and, upper]
  change limit.toNat / 65536 % 16 &&& 15 = _
  omega

theorem rawLimit_gdtSetGate :
    (gdtSetGate base limit access gran).rawLimit = limit.toNat % 0x100000 := by
  rw [GdtEntry.rawLimit, granularity_low]
  change ((limit &&& 0xFFFF).setWidth 16).toNat + _ = _
  rw [Interrupts.toNat_low]
  omega

/-- The unit of the limit is chosen by the flags. -/
theorem granularity_unit :
    (gdtSetGate base limit access gran).granularity.getLsbD 7 = gran.getLsbD 7 := by
  have upper : ((limit >>> 16 &&& 0x0F).setWidth 8).getLsbD 7 = false := by
    rw [BitVec.getLsbD_setWidth, BitVec.getLsbD_and]
    exact (Bool.and_false _).symm ▸ rfl
  simp only [gdtSetGate]
  rw [BitVec.getLsbD_or, BitVec.getLsbD_and, upper]
  exact (Bool.false_or _).trans (Bool.and_true _)

end Descriptor

theorem gdtSetGate_flat (access : Byte) :
    (gdtSetGate 0 0xFFFFFFFF access 0xCF).base = 0 ∧
      (gdtSetGate 0 0xFFFFFFFF access 0xCF).limit = 0xFFFFFFFF := by
  refine ⟨base_gdtSetGate .., ?_⟩
  rw [GdtEntry.limit, granularity_unit, rawLimit_gdtSetGate]
  decide

/-- The segments of code and data are all of memory, so segmentation keeps nothing from ring 3. -/
theorem segments_flat (tss : Word) (selector : Fin 6) (segment : 1 ≤ selector ∧ selector ≤ 4) :
    (gdtInit tss selector).base = 0 ∧ (gdtInit tss selector).limit = 0xFFFFFFFF := by
  match selector, segment with
  | 0, segment => exact absurd segment.1 (by decide)
  | 1, _ => exact gdtSetGate_flat 0x9A
  | 2, _ => exact gdtSetGate_flat 0x92
  | 3, _ => exact gdtSetGate_flat 0xFA
  | 4, _ => exact gdtSetGate_flat 0xF2
  | 5, segment => exact absurd segment.2 (by decide)

/-- The limit of the task state segment counts from address 0. -/
theorem limit_tssEntry {tss : Word} (low : tss.toNat + 104 < 0x100000) :
    (tssEntry tss).limit = tss.toNat + 104 := by
  have sum : (tss + tssSize).toNat = tss.toNat + 104 := by
    rw [BitVec.toNat_add, show tssSize.toNat = 104 from rfl]
    omega
  rw [GdtEntry.limit, tssEntry, granularity_unit, rawLimit_gdtSetGate, sum]
  exact Nat.mod_eq_of_lt low

/-- Wherever the linker puts the task state segment, and whatever stack is set in it, ring 3 may
use a port exactly if its bit is clear in the static memory behind the segment. -/
theorem ports_open_iff (tss : Word) (image : 0x8000 ≤ tss.toNat)
    (low : tss.toNat + 104 < 0x100000) (tssKernelStack esp0 : Word) (memory : Memory)
    (eflags : Word) (unprivileged : iopl eflags < 3) (port : BitVec 16) :
    portPermitted (gdtInit tss 5) (tssSetKernelStack esp0 (writeTss tssKernelStack)) memory 3
        eflags port = true ↔
      (memory (tss + tssSize + BitVec.ofNat 32 (port.toNat / 8))).getLsbD (port.toNat % 8) =
        false := by
  have few := port.isLt
  have map : (tssSetKernelStack esp0 (writeTss tssKernelStack)).iomapBase.toNat = 104 := rfl
  have inside : 104 + port.toNat / 8 + 1 ≤ (tssEntry tss).limit := by
    rw [limit_tssEntry low]
    omega
  have place : tss + BitVec.ofNat 32 (104 + port.toNat / 8) =
      tss + tssSize + BitVec.ofNat 32 (port.toNat / 8) := by
    rw [tssSize, BitVec.ofNat_add, BitVec.add_assoc]
    rfl
  have asked : decide (3 ≤ iopl eflags) = false := decide_eq_false (by omega)
  change portPermitted (tssEntry tss) _ memory 3 eflags port = true ↔ _
  rw [portPermitted, asked, map, decide_eq_true inside, tssEntry, base_gdtSetGate, place]
  simp only [Bool.false_or, Bool.true_and, Bool.not_eq_true']

/-- A new task of ring 3 may write to the keyboard controller while that memory is zero. -/
theorem ports_open_iff_keyboard :
    portPermitted (gdtInit 0x20000 5) (tssSetKernelStack 0x101000 (writeTss 0x21000))
      (fun _ => 0) 3 0x202 0x64 = true :=
  (ports_open_iff 0x20000 (by decide) (by decide) 0x21000 0x101000 (fun _ => 0) 0x202 (by decide)
    0x64).mpr rfl

end MxOS.Gdt
