import MxOS.Lib.Memory

/-! # The boot loader

`load_kernel` of `boot.asm` asks the BIOS for the geometry of the boot drive and then reads
the kernel one sector at a time. Five registers are kept in step by hand: cylinder, head and
sector count like an odometer, and the 16-bit offset carries into the segment.

The BIOS is a parameter, with what its documentation promises as hypotheses. The three
variables of the boot sector are below the kernel, so no read overwrites them.
-/

namespace MxOS.Boot

open ByteMemory

abbrev kernelOffset : Nat := 0x8000

/-- `KERNEL_SECTORS`. -/
abbrev kernelSectors : Nat := 80

/-- The registers `load_kernel` uses, and the carry flag where it is tested. -/
structure Registers where
  ax : BitVec 16
  bx : BitVec 16
  ch : Byte
  cl : Byte
  dh : Byte
  dl : Byte
  si : BitVec 16
  di : BitVec 16
  es : BitVec 16
  carry : Bool

namespace Registers

def ah (registers : Registers) : Byte := registers.ax.extractLsb' 8 8

def al (registers : Registers) : Byte := registers.ax.extractLsb' 0 8

def setAh (value : Byte) (registers : Registers) : Registers :=
  { registers with ax := value ++ registers.al }

def setAl (value : Byte) (registers : Registers) : Registers :=
  { registers with ax := registers.ah ++ value }

/-- The physical address `ES:BX`. -/
def buffer (registers : Registers) : Nat := registers.es.toNat * 16 + registers.bx.toNat

theorem high_append (high low : Byte) : (high ++ low).extractLsb' 8 8 = high := by
  rw [BitVec.extractLsb'_append_eq_ite]
  simp

theorem low_append (high low : Byte) : (high ++ low).extractLsb' 0 8 = low := by
  rw [BitVec.extractLsb'_append_eq_ite]
  simp

theorem ah_setAh (value : Byte) (registers : Registers) : (registers.setAh value).ah = value :=
  high_append ..

theorem ah_setAl (value : Byte) (registers : Registers) :
    (registers.setAl value).ah = registers.ah := high_append ..

theorem al_setAl (value : Byte) (registers : Registers) : (registers.setAl value).al = value :=
  low_append ..

end Registers

/-- The machine in real mode, with its memory by physical address. -/
structure Machine where
  registers : Registers
  bootDrive : Byte
  sectorsPerTrack : Byte
  headCount : Byte
  memory : Nat → Byte

/-- What `int 0x13` does to registers and memory, by the number of calls before it: a drive
may fail one time and not the next. -/
abbrev Bios := Nat → Registers → (Nat → Byte) → Registers × (Nat → Byte)

def int13 (bios : Bios) (call : Nat) (machine : Machine) : Machine :=
  let (registers, memory) := bios call machine.registers machine.memory
  { machine with registers := registers, memory := memory }

/-- `.failed`: `stc` and `ret`. -/
def failed (machine : Machine) : Machine :=
  { machine with registers := { machine.registers with carry := true } }

/-- The end of the loop: `clc` and `ret`. -/
def loaded (machine : Machine) : Machine :=
  { machine with registers := { machine.registers with carry := false } }

/-- The registers `.next_sector` sets before its `int 0x13`. -/
def request (machine : Machine) : Machine :=
  { machine with
    registers := { (machine.registers.setAh 0x02).setAl 1 with dl := machine.bootDrive } }

/-- `add bx, 512`, and the segment if that carries. -/
def advanceBuffer (registers : Registers) : Registers :=
  let carry : Bool := 2 ^ 16 ≤ registers.bx.toNat + 512
  let registers := { registers with bx := registers.bx + 512, carry := carry }
  if registers.carry then
    let ax := registers.es + 0x1000
    { registers with ax := ax, es := ax }
  else registers

/-- From `.no_segment_bump` to `.continue`. -/
def advanceSector (sectorsPerTrack headCount : Byte) (registers : Registers) : Registers :=
  let registers := { registers with cl := registers.cl + 1 }
  if registers.cl ≤ sectorsPerTrack then registers
  else
    let registers := { registers with cl := 1, dh := registers.dh + 1 }
    if registers.dh < headCount then registers
    else { registers with dh := 0, ch := registers.ch + 1 }

/-- What follows a read, up to `inc si`. -/
def advance (sectorsPerTrack headCount : Byte) (registers : Registers) : Registers :=
  let registers := advanceSector sectorsPerTrack headCount (advanceBuffer registers)
  { registers with si := registers.si + 1 }

/-- The loop from `.next_sector` on: the registers at each of its `int 0x13`, and the machine
at `ret`. The counter `si` takes every value at most once, so that 2 ^ 16 iterations are
enough. -/
def nextSector (bios : Bios) (sectors : Nat) :
    Nat → Nat → Machine → Option (List Registers × Machine)
  | 0, _, _ => none
  | fuel + 1, call, machine =>
      let asked := request machine
      let machine := int13 bios call asked
      if machine.registers.carry then some ([asked.registers], failed machine)
      else
        let machine := { machine with
          registers := advance machine.sectorsPerTrack machine.headCount machine.registers }
        if machine.registers.si < BitVec.ofNat 16 (sectors + 1) then
          (nextSector bios sectors fuel (call + 1) machine).map fun result =>
            (asked.registers :: result.1, result.2)
        else some ([asked.registers], loaded machine)

def loopFuel : Nat := 2 ^ 16

/-- The registers at each read, and the machine at `ret`. -/
def loadKernel (bios : Bios) (sectors : Nat) (machine : Machine) :
    Option (List Registers × Machine) :=
  let registers := { machine.registers with ax := 0, es := 0, di := 0x600 }
  let machine := { machine with
    registers := { registers.setAh 0x08 with dl := machine.bootDrive } }
  let machine := int13 bios 0 machine
  if machine.registers.carry then some ([], failed machine)
  else
    let machine := { machine with
      sectorsPerTrack := machine.registers.cl &&& 0x3F
      headCount := machine.registers.dh + 1
      registers := { machine.registers with
        ax := 0
        es := 0
        bx := BitVec.ofNat 16 kernelOffset
        si := 1
        ch := 0
        dh := 0
        cl := 2 } }
    nextSector bios sectors loopFuel 1 machine

/-! ### The BIOS -/

/-- The number of the sector at a cylinder, head and sector, counted from 0. -/
def Registers.lba (s h : Nat) (registers : Registers) : Nat :=
  (registers.ch.toNat * h + registers.dh.toNat) * s + registers.cl.toNat - 1

/-- What the two functions promise about registers, for a drive with `s` sectors per track and
`h` heads. -/
structure Bios.Documented (bios : Bios) (s h : Nat) : Prop where
  /-- Function 8 returns the geometry. -/
  geometry : ∀ call registers memory, registers.ah = 0x08 →
    (bios call registers memory).1.carry = false →
      (bios call registers memory).1.cl.toNat % 64 = s ∧
        (bios call registers memory).1.dh.toNat + 1 = h
  /-- Function 2 keeps the registers the loop counts with. -/
  keeps : ∀ call registers memory, registers.ah = 0x02 →
    (bios call registers memory).1.bx = registers.bx ∧
      (bios call registers memory).1.ch = registers.ch ∧
      (bios call registers memory).1.cl = registers.cl ∧
      (bios call registers memory).1.dh = registers.dh ∧
      (bios call registers memory).1.si = registers.si ∧
      (bios call registers memory).1.es = registers.es

/-- Function 2, for one sector: if it does not fail, the sector is in the buffer, and the rest
of the kernel's memory is as before. -/
structure Bios.Transfers (bios : Bios) (s h sectors : Nat) (disk : Nat → Nat → Byte) : Prop where
  stored : ∀ call registers memory, registers.ah = 0x02 → registers.al = 1 →
    1 ≤ registers.cl.toNat → registers.cl.toNat ≤ s → registers.dh.toNat < h →
    (bios call registers memory).1.carry = false → ∀ index < 512,
      (bios call registers memory).2 (registers.buffer + index) =
        disk (registers.lba s h) index
  others : ∀ call registers memory, registers.ah = 0x02 → registers.al = 1 →
    ∀ address, kernelOffset ≤ address → address < kernelOffset + 512 * sectors →
      address < registers.buffer ∨ registers.buffer + 512 ≤ address →
      (bios call registers memory).2 address = memory address

/-! ### The odometer -/

/-- One more, in a digit and the number the digits above it stand for. -/
theorem digit_succ {radix : Nat} (positive : 0 < radix) (number : Nat) :
    (number % radix + 1 < radix ∧ (number + 1) % radix = number % radix + 1 ∧
        (number + 1) / radix = number / radix) ∨
      (number % radix + 1 = radix ∧ (number + 1) % radix = 0 ∧
        (number + 1) / radix = number / radix + 1) := by
  have split := Nat.div_add_mod number radix
  have below := Nat.mod_lt number positive
  rcases Nat.lt_or_eq_of_le (Nat.succ_le_of_lt below) with inside | full
  · refine Or.inl ⟨inside, ?_⟩
    have next : number + 1 = number % radix + 1 + radix * (number / radix) := by omega
    rw [next, Nat.add_mul_mod_self_left, Nat.add_mul_div_left _ _ positive,
      Nat.mod_eq_of_lt inside, Nat.div_eq_of_lt inside, Nat.zero_add]
    exact ⟨rfl, rfl⟩
  · refine Or.inr ⟨full, ?_⟩
    have next : number + 1 = radix * (number / radix + 1) := by
      rw [Nat.mul_add, Nat.mul_one]
      omega
    rw [next, Nat.mul_mod_right, Nat.mul_div_cancel_left _ positive]
    exact ⟨rfl, rfl⟩

/-- The registers before iteration `k`, which is to read sector `k + 1`. -/
structure Counts (s h k : Nat) (registers : Registers) : Prop where
  sector : registers.cl.toNat = (k + 1) % s + 1
  head : registers.dh.toNat = (k + 1) / s % h
  cylinder : registers.ch.toNat = (k + 1) / s / h % 2 ^ 8
  offset : registers.bx.toNat = (kernelOffset + 512 * k) % 2 ^ 16
  segment : registers.es.toNat = (kernelOffset + 512 * k) / 2 ^ 16 * 0x1000 % 2 ^ 16
  counter : registers.si.toNat = (k + 1) % 2 ^ 16

section Advance

variable {s h k : Nat} {registers : Registers}

/-- The offset and the segment move on by 512 bytes; the odometer is left alone. -/
theorem advanceBuffer_spec (registers : Registers) :
    (advanceBuffer registers).bx = registers.bx + 512 ∧
      (advanceBuffer registers).es =
        (if 2 ^ 16 ≤ registers.bx.toNat + 512 then registers.es + 0x1000 else registers.es) ∧
      (advanceBuffer registers).cl = registers.cl ∧ (advanceBuffer registers).dh = registers.dh ∧
      (advanceBuffer registers).ch = registers.ch ∧
      (advanceBuffer registers).si = registers.si := by
  simp only [advanceBuffer, decide_eq_true_eq]
  split
  · exact ⟨rfl, rfl, rfl, rfl, rfl, rfl⟩
  · exact ⟨rfl, rfl, rfl, rfl, rfl, rfl⟩

/-- The odometer moves on, and the other registers are left alone. -/
theorem advanceSector_spec (sectorsPerTrack headCount : Byte) (registers : Registers) :
    (advanceSector sectorsPerTrack headCount registers).bx = registers.bx ∧
      (advanceSector sectorsPerTrack headCount registers).es = registers.es ∧
      (advanceSector sectorsPerTrack headCount registers).si = registers.si := by
  simp only [advanceSector]
  split
  · exact ⟨rfl, rfl, rfl⟩
  · split
    · exact ⟨rfl, rfl, rfl⟩
    · exact ⟨rfl, rfl, rfl⟩

/-- The digits of the next sector. -/
theorem advanceSector_counts {sectorsPerTrack headCount : Byte}
    (tracks : sectorsPerTrack.toNat = s) (heads : headCount.toNat = h)
    (track : 2 ≤ s ∧ s ≤ 63) (sides : 1 ≤ h) {sector : Nat}
    (cl : registers.cl.toNat = sector % s + 1) (dh : registers.dh.toNat = sector / s % h)
    (ch : registers.ch.toNat = sector / s / h % 2 ^ 8) :
    let after := advanceSector sectorsPerTrack headCount registers
    after.cl.toNat = (sector + 1) % s + 1 ∧ after.dh.toNat = (sector + 1) / s % h ∧
      after.ch.toNat = (sector + 1) / s / h % 2 ^ 8 := by
  have most := headCount.isLt
  have next : (registers.cl + 1).toNat = sector % s + 2 := by
    have below := Nat.mod_lt sector (by omega : 0 < s)
    bv_omega
  simp only [advanceSector, BitVec.le_def, BitVec.lt_def, next, tracks, heads]
  rcases digit_succ (by omega : 0 < s) sector with ⟨inside, digit, above⟩ | ⟨full, digit, above⟩
  · rw [if_pos (by omega), digit, above]
    exact ⟨next, dh, ch⟩
  · rw [if_neg (by omega), digit, above]
    have nextHead : (registers.dh + 1).toNat = sector / s % h + 1 := by
      have below := Nat.mod_lt (sector / s) (by omega : 0 < h)
      bv_omega
    simp only [nextHead]
    rcases digit_succ (by omega : 0 < h) (sector / s) with
      ⟨inside, digit, above⟩ | ⟨full, digit, above⟩
    · rw [if_pos inside, digit, above]
      exact ⟨rfl, nextHead, ch⟩
    · rw [if_neg (by omega), digit, above]
      refine ⟨rfl, rfl, ?_⟩
      rw [BitVec.toNat_add, ch, show BitVec.toNat (1 : Byte) = 1 from rfl, Nat.mod_add_mod]

/-- The segment of the next 512 bytes. -/
theorem segment_succ (address : Nat) :
    (if 2 ^ 16 ≤ address % 2 ^ 16 + 512 then
        (address / 2 ^ 16 * 0x1000 % 2 ^ 16 + 0x1000) % 2 ^ 16
      else address / 2 ^ 16 * 0x1000 % 2 ^ 16) =
      (address + 512) / 2 ^ 16 * 0x1000 % 2 ^ 16 := by
  split
  · next carries =>
      have next : (address + 512) / 2 ^ 16 = address / 2 ^ 16 + 1 := by omega
      rw [next, Nat.add_mul, Nat.one_mul, Nat.mod_add_mod]
  · next within =>
      have same : (address + 512) / 2 ^ 16 = address / 2 ^ 16 := by omega
      rw [same]

/-- One iteration moves the registers on to the next sector. -/
theorem Counts.advance {sectorsPerTrack headCount : Byte} (counts : Counts s h k registers)
    (tracks : sectorsPerTrack.toNat = s) (heads : headCount.toNat = h)
    (track : 2 ≤ s ∧ s ≤ 63) (sides : 1 ≤ h) :
    Counts s h (k + 1) (advance sectorsPerTrack headCount registers) := by
  obtain ⟨bx, es, cl, dh, ch, si⟩ := advanceBuffer_spec registers
  obtain ⟨bx', es', si'⟩ := advanceSector_spec sectorsPerTrack headCount (advanceBuffer registers)
  have digits := @advanceSector_counts s h (advanceBuffer registers) _ _ tracks heads track sides
    (k + 1) (by rw [cl, counts.sector]) (by rw [dh, counts.head]) (by rw [ch, counts.cylinder])
  unfold Boot.advance
  rw [bx] at bx'
  rw [es, counts.offset] at es'
  rw [si] at si'
  generalize advanceSector sectorsPerTrack headCount (advanceBuffer registers) = after at *
  have address : kernelOffset + 512 * (k + 1) = kernelOffset + 512 * k + 512 := by omega
  obtain ⟨sector, head, cylinder⟩ := digits
  refine ⟨sector, head, cylinder, ?_, ?_, ?_⟩
  · rw [bx', BitVec.toNat_add, counts.offset, address, Nat.mod_add_mod,
      show BitVec.toNat (512 : BitVec 16) = 512 from rfl]
  · rw [es', address, ← segment_succ, apply_ite BitVec.toNat, BitVec.toNat_add, counts.segment,
      show BitVec.toNat (0x1000 : BitVec 16) = 0x1000 from rfl]
  · show (after.si + 1).toNat = _
    rw [si', BitVec.toNat_add, counts.counter, Nat.mod_add_mod,
      show BitVec.toNat (1 : BitVec 16) = 1 from rfl]

end Advance

/-! ### Reads -/

/-- The read of iteration `k`: sector `k + 1` of the drive goes behind the `k` before it. -/
structure Reads (s h k : Nat) (drive : Byte) (call : Registers) : Prop where
  function : call.ah = 0x02 ∧ call.al = 1 ∧ call.dl = drive
  lba : (call.ch.toNat * h + call.dh.toNat) * s + call.cl.toNat - 1 = k + 1
  sector : 1 ≤ call.cl.toNat ∧ call.cl.toNat ≤ s
  head : call.dh.toNat < h
  buffer : call.es.toNat * 16 + call.bx.toNat = 0x8000 + 512 * k

theorem request_function (machine : Machine) :
    (request machine).registers.ah = 0x02 ∧ (request machine).registers.al = 1 :=
  ⟨((machine.registers.setAh 0x02).ah_setAl 1).trans (machine.registers.ah_setAh 0x02),
    (machine.registers.setAh 0x02).al_setAl 1⟩

theorem Counts.reads {s h k : Nat} {machine : Machine} (counts : Counts s h k machine.registers)
    (track : 2 ≤ s) (sides : 1 ≤ h) (onDisk : k + 1 < 256 * h * s)
    (inMemory : kernelOffset + 512 * k < 0x100000) :
    Reads s h k machine.bootDrive (request machine).registers := by
  obtain ⟨sector, head, cylinder, offset, segment, _⟩ := counts
  have cl : (request machine).registers.cl.toNat = (k + 1) % s + 1 := sector
  have dh : (request machine).registers.dh.toNat = (k + 1) / s % h := head
  have ch : (request machine).registers.ch.toNat = (k + 1) / s / h := by
    refine cylinder.trans (Nat.mod_eq_of_lt ?_)
    rw [Nat.div_div_eq_div_mul]
    apply Nat.div_lt_of_lt_mul
    rwa [Nat.mul_comm, Nat.mul_comm s, ← Nat.mul_assoc]
  have bx : (request machine).registers.bx.toNat = (kernelOffset + 512 * k) % 2 ^ 16 := offset
  have es : (request machine).registers.es.toNat = (kernelOffset + 512 * k) / 2 ^ 16 * 0x1000 := by
    refine segment.trans (Nat.mod_eq_of_lt ?_)
    omega
  have inTrack := Nat.mod_lt (k + 1) (by omega : 0 < s)
  refine ⟨⟨(request_function machine).1, (request_function machine).2, rfl⟩, ?_, ?_, ?_, ?_⟩
  · rw [ch, dh, cl, Nat.mul_comm _ h, Nat.div_add_mod, Nat.mul_comm _ s, ← Nat.add_assoc,
      Nat.div_add_mod, Nat.add_sub_cancel]
  · rw [cl]
    omega
  · rw [dh]
    exact Nat.mod_lt _ (by omega)
  · rw [es, bx]
    simp only [kernelOffset]
    omega

/-! ### The loop -/

/-- No call fails. -/
def Bios.Succeeds (bios : Bios) : Prop :=
  ∀ call registers memory, (bios call registers memory).1.carry = false

/-- The first sectors of the kernel are in memory. -/
def Holds (disk : Nat → Nat → Byte) (count : Nat) (memory : Nat → Byte) : Prop :=
  ∀ k < count, ∀ index < 512, memory (kernelOffset + 512 * k + index) = disk (k + 1) index

/-- What the loop does from iteration `k` on, of the `n` that are wanted. -/
structure Finishes (bios : Bios) (s h n k : Nat) (machine : Machine)
    (result : List Registers × Machine) : Prop where
  reads : ∀ j call, k + j < n → result.1[j]? = some call →
    Reads s h (k + j) machine.bootDrive call
  complete : result.2.registers.carry = false → k + result.1.length = max n 1
  succeeds : bios.Succeeds → result.2.registers.carry = false
  holds : result.2.registers.carry = false → ∀ disk, bios.Transfers s h n disk →
    Holds disk k machine.memory → Holds disk n result.2.memory

section Loop

variable {bios : Bios} {s h n : Nat} (documented : bios.Documented s h) (track : 2 ≤ s ∧ s ≤ 63)
  (sides : 1 ≤ h) (onDisk : n + 1 ≤ 256 * h * s) (inMemory : 0x8000 + 512 * n ≤ 0x100000)

include documented in
/-- The registers the loop counts with are the same after the read. -/
theorem Counts.int13 {k call : Nat} {machine : Machine} (counts : Counts s h k machine.registers) :
    Counts s h k (int13 bios call (request machine)).registers := by
  obtain ⟨bx, ch, cl, dh, si, es⟩ := documented.keeps call (request machine).registers
    (request machine).memory (request_function machine).1
  obtain ⟨sector, head, cylinder, offset, segment, counter⟩ := counts
  refine ⟨?_, ?_, ?_, ?_, ?_, ?_⟩
  · exact (congrArg BitVec.toNat cl).trans sector
  · exact (congrArg BitVec.toNat dh).trans head
  · exact (congrArg BitVec.toNat ch).trans cylinder
  · exact (congrArg BitVec.toNat bx).trans offset
  · exact (congrArg BitVec.toNat es).trans segment
  · exact (congrArg BitVec.toNat si).trans counter

/-- A read that does not fail adds its sector to the ones before it. -/
theorem Reads.holds {disk : Nat → Nat → Byte} (transfers : bios.Transfers s h n disk)
    {k call : Nat} {drive : Byte} {machine : Machine} (reads : Reads s h k drive machine.registers)
    (wanted : k < n) (held : Holds disk k machine.memory)
    (done : (int13 bios call machine).registers.carry = false) :
    Holds disk (k + 1) (int13 bios call machine).memory := by
  obtain ⟨function, lba, sector, head, buffer⟩ := reads
  have start : machine.registers.buffer = kernelOffset + 512 * k := buffer
  intro j within index inside
  rcases Nat.lt_or_eq_of_le (Nat.le_of_lt_succ within) with earlier | rfl
  · rw [← held j earlier index inside]
    apply transfers.others call _ _ function.1 function.2.1
    · rw [Nat.add_assoc]
      exact Nat.le_add_right ..
    · omega
    · rw [start]
      omega
  · rw [← start, ← lba]
    exact transfers.stored call _ _ function.1 function.2.1 sector.1 sector.2 head done index inside

section Iteration

variable {k call : Nat} {machine : Machine}

/-- A failed read ends the loop. -/
theorem Finishes.fail
    (reads : k < n → Reads s h k machine.bootDrive (request machine).registers)
    (failure : (int13 bios call (request machine)).registers.carry = true) :
    Finishes bios s h n k machine
      ([(request machine).registers], failed (int13 bios call (request machine))) where
  reads := fun j made wanted found => by
    cases j with
    | zero => exact Option.some.inj found ▸ reads wanted
    | succ j => cases found
  complete := fun done => absurd done.symm Bool.false_ne_true
  succeeds := fun succeeds => by
    have done : (int13 bios call (request machine)).registers.carry = false := succeeds ..
    exact absurd (done.symm.trans failure) Bool.false_ne_true
  holds := fun done => absurd done.symm Bool.false_ne_true

variable (reads : k < n → Reads s h k machine.bootDrive (request machine).registers)
  (done : (int13 bios call (request machine)).registers.carry = false)
  {registers : Registers}

include reads done

/-- The last read ends the loop too. -/
theorem Finishes.last (wanted : k + 1 = max n 1) :
    Finishes bios s h n k machine ([(request machine).registers],
      loaded { int13 bios call (request machine) with registers := registers }) where
  reads := fun j made wanted found => by
    cases j with
    | zero => exact Option.some.inj found ▸ reads wanted
    | succ j => cases found
  complete := fun _ => wanted
  succeeds := fun _ => rfl
  holds := fun _ disk transfers held => by
    by_cases inside : k < n
    · obtain rfl : n = k + 1 := by omega
      exact (reads inside).holds transfers inside held done
    · intro j below
      omega

/-- Any other read is followed by the next one. -/
theorem Finishes.cons {result : List Registers × Machine} (wanted : k + 1 < n)
    (rest : Finishes bios s h n (k + 1)
      { int13 bios call (request machine) with registers := registers } result) :
    Finishes bios s h n k machine ((request machine).registers :: result.1, result.2) where
  reads := fun j made below found => by
    cases j with
    | zero => exact Option.some.inj found ▸ reads below
    | succ j =>
        have later := rest.reads j made (by omega) found
        rwa [show k + 1 + j = k + (j + 1) by omega] at later
  complete := fun finished => by
    have length := rest.complete finished
    rw [List.length_cons]
    omega
  succeeds := rest.succeeds
  holds := fun finished disk transfers held =>
    rest.holds finished disk transfers
      ((reads (Nat.lt_of_succ_lt wanted)).holds transfers (Nat.lt_of_succ_lt wanted) held done)

end Iteration

include documented track sides onDisk inMemory in
theorem nextSector_finishes {fuel k call : Nat} {machine : Machine}
    (enough : max n 1 ≤ k + fuel) (wanted : k < max n 1)
    (tracks : machine.sectorsPerTrack.toNat = s) (heads : machine.headCount.toNat = h)
    (counts : Counts s h k machine.registers) :
    ∃ result, nextSector bios n fuel call machine = some result ∧
      Finishes bios s h n k machine result := by
  -- Induction on the iterations left; the registers are those of iteration `k`.
  induction fuel generalizing k call machine with
  | zero => omega
  | succ fuel ih =>
      have reads : k < n → Reads s h k machine.bootDrive (request machine).registers :=
        fun inside => counts.reads track.1 sides (by omega) (by simp only [kernelOffset]; omega)
      have kept : Counts s h k (int13 bios call (request machine)).registers :=
        counts.int13 documented
      simp only [nextSector]
      by_cases failure : (int13 bios call (request machine)).registers.carry = true
      · rw [if_pos failure]
        exact ⟨_, rfl, .fail reads failure⟩
      · have done := Bool.eq_false_of_not_eq_true failure
        have next := @Counts.advance _ _ _ _ (int13 bios call (request machine)).sectorsPerTrack
          (int13 bios call (request machine)).headCount kept tracks heads track sides
        rw [if_neg failure]
        generalize advance _ _ (int13 bios call (request machine)).registers = registers at next ⊢
        have counter : registers.si < BitVec.ofNat 16 (n + 1) ↔ k + 1 < n := by
          rw [BitVec.lt_def, next.counter, BitVec.toNat_ofNat]
          omega
        by_cases more : k + 1 < n
        · obtain ⟨result, ran, rest⟩ := @ih (k + 1) (call + 1)
            { int13 bios call (request machine) with registers := registers }
            (by omega) (by omega) tracks heads next
          refine ⟨_, ?_, Finishes.cons reads done more rest⟩
          rw [if_pos (counter.mpr more), ran, Option.map_some]
        · refine ⟨_, if_neg (mt counter.mp more), Finishes.last reads done ?_⟩
          omega

end Loop

/-- The registers before the first iteration. -/
theorem counts_start {s h : Nat} (track : 2 ≤ s) (registers : Registers) :
    Counts s h 0 { registers with
      ax := 0, es := 0, bx := BitVec.ofNat 16 kernelOffset, si := 1, ch := 0, dh := 0
      cl := 2 } where
  sector := by rw [Nat.zero_add, Nat.mod_eq_of_lt track]; rfl
  head := by rw [Nat.zero_add, Nat.div_eq_of_lt track, Nat.zero_mod]; rfl
  cylinder := by rw [Nat.zero_add, Nat.div_eq_of_lt track, Nat.zero_div]; rfl
  offset := rfl
  segment := rfl
  counter := rfl

/-- `load_kernel` returns for every geometry. Read `k` takes sector `k + 1` of the drive to the
512 bytes behind the sectors before it. If it returns without the carry flag, and so if no call
of the BIOS fails, all sectors were read and are in memory one behind the other. The first
sector is read even if none is wanted. -/
theorem loadKernel_linear {bios : Bios} {s h n : Nat} (documented : bios.Documented s h)
    (track : 2 ≤ s ∧ s ≤ 63) (sides : 1 ≤ h ∧ h ≤ 255) (onDisk : n + 1 ≤ 256 * h * s)
    (inMemory : 0x8000 + 512 * n ≤ 0x100000) (machine : Machine) :
    ∃ calls after, loadKernel bios n machine = some (calls, after) ∧
      (∀ k call, k < n → calls[k]? = some call → Reads s h k machine.bootDrive call) ∧
      (after.registers.carry = false → calls.length = max n 1) ∧
      (bios.Succeeds → after.registers.carry = false) ∧
      (after.registers.carry = false → ∀ disk, bios.Transfers s h n disk →
        Holds disk n after.memory) := by
  simp only [loadKernel]
  generalize asked : { machine with registers := { ({ machine.registers with
    ax := 0, es := 0, di := 0x600 } : Registers).setAh 0x08 with dl := machine.bootDrive } } = start
  have function : start.registers.ah = 0x08 := by
    rw [← asked]
    exact Registers.ah_setAh ..
  have drive : machine.bootDrive = start.bootDrive := by rw [← asked]
  by_cases failure : (int13 bios 0 start).registers.carry = true
  · rw [if_pos failure]
    refine ⟨[], _, rfl, fun _ _ _ found => absurd found (by simp), ?_, ?_, ?_⟩
    · exact fun done => absurd done.symm Bool.false_ne_true
    · intro succeeds
      have done : (int13 bios 0 start).registers.carry = false := succeeds ..
      exact absurd (done.symm.trans failure) Bool.false_ne_true
    · exact fun done => absurd done.symm Bool.false_ne_true
  · rw [if_neg failure]
    obtain ⟨tracks, heads⟩ := documented.geometry 0 _ start.memory function
      (Bool.eq_false_of_not_eq_true failure)
    have tracks' : ((int13 bios 0 start).registers.cl &&& 0x3F).toNat = s := by
      rw [BitVec.toNat_and]
      exact (Nat.and_two_pow_sub_one_eq_mod _ 6).trans tracks
    have heads' : ((int13 bios 0 start).registers.dh + 1).toNat = h := by
      have bound : (int13 bios 0 start).registers.dh.toNat + 1 = h := heads
      bv_omega
    obtain ⟨⟨calls, after⟩, ran, reads, complete, succeeds, holds⟩ :=
      @nextSector_finishes bios s h n documented track sides.1 onDisk inMemory loopFuel 0 1
        { int13 bios 0 start with
          sectorsPerTrack := (int13 bios 0 start).registers.cl &&& 0x3F
          headCount := (int13 bios 0 start).registers.dh + 1
          registers := { (int13 bios 0 start).registers with
            ax := 0, es := 0, bx := BitVec.ofNat 16 kernelOffset, si := 1, ch := 0, dh := 0
            cl := 2 } }
        (by simp only [loopFuel]; omega) (by omega) tracks' heads' (counts_start track.1 _)
    refine ⟨calls, after, ran, fun k call wanted found => ?_, fun done => ?_, succeeds, ?_⟩
    · have read := reads k call (by omega) found
      rw [Nat.zero_add] at read
      rw [drive]
      exact read
    · have length : 0 + calls.length = max n 1 := complete done
      omega
    · intro done disk transfers
      exact holds done disk transfers fun j below => absurd below (Nat.not_lt_zero j)

/-! ### A floppy disk -/

/-- A BIOS for a disk of 80 cylinders, 2 heads and 18 sectors per track. -/
def floppyBios (disk : Nat → Nat → Byte) : Bios := fun _ registers memory =>
  if registers.ah = 0x08 then
    ({ registers with ax := 0, ch := 79, cl := 18, dh := 1, dl := 1, carry := false }, memory)
  else if registers.ah = 0x02 then
    ({ registers with ax := 1, carry := false }, fun address =>
      if registers.buffer ≤ address ∧ address < registers.buffer + 512 then
        disk (registers.lba 18 2) (address - registers.buffer)
      else memory address)
  else ({ registers with carry := false }, memory)

theorem floppyBios_documented (disk : Nat → Nat → Byte) : (floppyBios disk).Documented 18 2 where
  geometry := by
    intro call registers memory function _
    rw [floppyBios, if_pos function]
    exact ⟨rfl, rfl⟩
  keeps := by
    intro call registers memory function
    rw [floppyBios, if_neg (by rw [function]; decide), if_pos function]
    exact ⟨rfl, rfl, rfl, rfl, rfl, rfl⟩

theorem floppyBios_transfers (disk : Nat → Nat → Byte) (sectors : Nat) :
    (floppyBios disk).Transfers 18 2 sectors disk where
  stored := by
    intro call registers memory function _ _ _ _ _ index inside
    rw [floppyBios, if_neg (by rw [function]; decide), if_pos function]
    simp only
    rw [if_pos ⟨Nat.le_add_right .., Nat.add_lt_add_left inside _⟩, Nat.add_sub_cancel_left]
  others := by
    intro call registers memory function _ address _ _ outside
    rw [floppyBios, if_neg (by rw [function]; decide), if_pos function]
    exact if_neg (by omega)

theorem floppyBios_succeeds (disk : Nat → Nat → Byte) : (floppyBios disk).Succeeds := by
  intro call registers memory
  unfold floppyBios
  split
  · rfl
  · split <;> rfl

/-- The machine the BIOS starts from the first floppy drive. -/
def floppyMachine : Machine := ⟨⟨0, 0, 0, 0, 0, 0, 0, 0, 0, false⟩, 0, 0, 0, fun _ => 0⟩

/-- The kernel of the disk image: its 80 sectors are read from a floppy disk. -/
theorem loadKernel_linear_floppy :
    let disk : Nat → Nat → Byte := fun sector index => BitVec.ofNat 8 (sector + index)
    ∃ calls after, loadKernel (floppyBios disk) kernelSectors floppyMachine =
        some (calls, after) ∧
      calls.length = 80 ∧ Holds disk 80 after.memory := by
  intro disk
  obtain ⟨calls, after, ran, _, complete, succeeds, holds⟩ :=
    @loadKernel_linear _ 18 2 kernelSectors (floppyBios_documented disk) (by decide) (by decide)
      (by decide) (by decide) floppyMachine
  have done := succeeds (floppyBios_succeeds disk)
  exact ⟨calls, after, ran, complete done, holds done disk (floppyBios_transfers disk _)⟩

end MxOS.Boot
