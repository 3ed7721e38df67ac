import MxOS.Lib.Memory
import MxOS.Lib.WriteLog

/-! # The ATA driver

`drivers/ata.c` moves one 512-byte sector at a time by programmed I/O. What the
drive answers on its status port is a parameter, so that every pattern of errors
and time-outs is covered; the state counts how often the port was read. The sectors
transferred are logged: the commands issued, in order, and the data written.
-/

namespace MxOS.Ata

open ByteMemory

abbrev Sector := Fin 512 → Byte

/-- A sector number as the drive registers can hold it. -/
abbrev Lba28 := BitVec 28

/-- The drive's side of the conversation: its answer to the `n`-th read of the status port. -/
structure Drive where
  status : Nat → Byte

structure Disk where
  sectors : Lba28 → Sector
  polls : Nat
  reads : List Lba28
  writes : List (Lba28 × Sector)

/-- The loop of the two waiting functions: poll until the error bit is set or the awaited
condition holds, at most `timeout` times. -/
def poll (drive : Drive) (awaited : Byte → Bool) : Nat → Disk → Bool × Disk
  | 0, disk => (false, disk)
  | timeout + 1, disk =>
      let status := drive.status disk.polls
      let disk := { disk with polls := disk.polls + 1 }
      if status &&& 0x01 ≠ 0 then (false, disk)
      else if awaited status then (true, disk)
      else poll drive awaited timeout disk

def ataWaitBsyClear (drive : Drive) : Disk → Bool × Disk :=
  poll drive (fun status => status &&& 0x80 = 0) 1000000

def ataWaitReady (drive : Drive) : Disk → Bool × Disk :=
  poll drive (fun status => status &&& 0x80 = 0 ∧ status &&& 0x08 ≠ 0) 1000000

/-- The registers that select a sector. -/
structure Registers where
  driveSel : Byte
  lbaLow : Byte
  lbaMid : Byte
  lbaHigh : Byte

/-- The register values the driver programs for a sector number. -/
def selectSector (lba : Word) : Registers where
  driveSel := 0xE0 ||| ((lba >>> 24) &&& 0x0F).setWidth 8
  lbaLow := lba.setWidth 8
  lbaMid := (lba >>> 8).setWidth 8
  lbaHigh := (lba >>> 16).setWidth 8

/-- The sector the drive takes the registers to mean. -/
def Registers.address (registers : Registers) : Lba28 :=
  registers.driveSel.setWidth 4 ++ registers.lbaHigh ++ registers.lbaMid ++ registers.lbaLow

def ataReadSectorOnce (drive : Drive) (lba : Word) (disk : Disk) : Option Sector × Disk :=
  match ataWaitBsyClear drive disk with
  | (false, disk) => (none, disk)
  | (true, disk) =>
      let address := (selectSector lba).address
      let disk := { disk with reads := disk.reads ++ [address] }
      match ataWaitReady drive disk with
      | (false, disk) => (none, disk)
      | (true, disk) => (some (disk.sectors address), disk)

/-- The sector is transferred before the cache flush, so a failed flush leaves it written. -/
def ataWriteSectorOnce (drive : Drive) (lba : Word) (buffer : Sector) (disk : Disk) :
    Bool × Disk :=
  match ataWaitBsyClear drive disk with
  | (false, disk) => (false, disk)
  | (true, disk) =>
      let address := (selectSector lba).address
      match ataWaitReady drive disk with
      | (false, disk) => (false, disk)
      | (true, disk) =>
          ataWaitBsyClear drive
            { disk with
              sectors := Function.update disk.sectors address buffer
              writes := disk.writes ++ [(address, buffer)] }

def ataMaxRetries : Nat := 3

def readAttempts (drive : Drive) (lba : Word) : Nat → Disk → Option Sector × Disk
  | 0, disk => (none, disk)
  | attempts + 1, disk =>
      match ataReadSectorOnce drive lba disk with
      | (some buffer, disk) => (some buffer, disk)
      | (none, disk) => readAttempts drive lba attempts disk

def writeAttempts (drive : Drive) (lba : Word) (buffer : Sector) : Nat → Disk → Bool × Disk
  | 0, disk => (false, disk)
  | attempts + 1, disk =>
      match ataWriteSectorOnce drive lba buffer disk with
      | (true, disk) => (true, disk)
      | (false, disk) => writeAttempts drive lba buffer attempts disk

/-- The sector read, or `none` when every attempt failed and the buffer is untouched. -/
def ataReadSector (drive : Drive) (lba : Word) (disk : Disk) : Option Sector × Disk :=
  readAttempts drive lba ataMaxRetries disk

def ataWriteSector (drive : Drive) (lba : Word) (buffer : Sector) (disk : Disk) : Bool × Disk :=
  writeAttempts drive lba buffer ataMaxRetries disk

/-- The driver programs the low 28 bits of a sector number. -/
theorem selectSector_address (lba : Word) : (selectSector lba).address = lba.setWidth 28 := by
  have mask : ∀ bit < 4, (0x0F : Word).getLsbD bit = true := by decide
  have master : ∀ bit < 4, (0xE0 : Byte).getLsbD bit = false := by decide
  apply BitVec.eq_of_getLsbD_eq
  intro bit bound
  simp only [Registers.address, selectSector, BitVec.getLsbD_append, BitVec.getLsbD_setWidth,
    BitVec.getLsbD_or, BitVec.getLsbD_and, BitVec.getLsbD_ushiftRight]
  grind

/-! ### Drives without errors -/

/-- A drive on which every wait succeeds, so that no read or write fails. -/
def Drive.Reliable (drive : Drive) : Prop :=
  ∀ disk, (ataWaitBsyClear drive disk).1 = true ∧ (ataWaitReady drive disk).1 = true

/-- The sector number as the drive sees it. -/
abbrev sectorOf (lba : Word) : Lba28 := lba.setWidth 28

/-- Polling only counts. -/
theorem poll_disk (drive : Drive) (awaited : Byte → Bool) (timeout : Nat) (disk : Disk) :
    ∃ polls, (poll drive awaited timeout disk).2 = { disk with polls := polls } := by
  induction timeout generalizing disk with
  | zero => exact ⟨disk.polls, rfl⟩
  | succ timeout ih =>
      simp only [poll]
      split
      · exact ⟨_, rfl⟩
      · split
        · exact ⟨_, rfl⟩
        · exact ih _

theorem Drive.Reliable.waitBsyClear {drive : Drive} (reliable : drive.Reliable) (disk : Disk) :
    ∃ polls, ataWaitBsyClear drive disk = (true, { disk with polls := polls }) := by
  obtain ⟨polls, after⟩ := poll_disk drive (fun status => status &&& 0x80 = 0) 1000000 disk
  exact ⟨polls, Prod.ext (reliable disk).1 after⟩

theorem Drive.Reliable.waitReady {drive : Drive} (reliable : drive.Reliable) (disk : Disk) :
    ∃ polls, ataWaitReady drive disk = (true, { disk with polls := polls }) := by
  obtain ⟨polls, after⟩ := poll_disk drive
    (fun status => status &&& 0x80 = 0 ∧ status &&& 0x08 ≠ 0) 1000000 disk
  exact ⟨polls, Prod.ext (reliable disk).2 after⟩

/-- On a reliable drive a read returns the stored sector and changes none. -/
theorem Drive.Reliable.ataReadSector {drive : Drive} (reliable : drive.Reliable) (lba : Word)
    (disk : Disk) :
    ∃ polls, ataReadSector drive lba disk =
      (some (disk.sectors (sectorOf lba)),
        { disk with polls := polls, reads := disk.reads ++ [sectorOf lba] }) := by
  obtain ⟨first, cleared⟩ := reliable.waitBsyClear disk
  obtain ⟨second, ready⟩ := reliable.waitReady
    { disk with polls := first, reads := disk.reads ++ [sectorOf lba] }
  refine ⟨second, ?_⟩
  simp only [Ata.ataReadSector, ataMaxRetries, readAttempts, ataReadSectorOnce, cleared,
    selectSector_address, ready]

/-- On a reliable drive a write stores the sector and nothing else. -/
theorem Drive.Reliable.ataWriteSector {drive : Drive} (reliable : drive.Reliable) (lba : Word)
    (buffer : Sector) (disk : Disk) :
    ∃ polls, ataWriteSector drive lba buffer disk =
      (true,
        { disk with
          polls := polls
          sectors := Function.update disk.sectors (sectorOf lba) buffer
          writes := disk.writes ++ [(sectorOf lba, buffer)] }) := by
  obtain ⟨first, cleared⟩ := reliable.waitBsyClear disk
  obtain ⟨second, ready⟩ := reliable.waitReady { disk with polls := first }
  obtain ⟨third, flushed⟩ := reliable.waitBsyClear
    { disk with
      polls := second
      sectors := Function.update disk.sectors (sectorOf lba) buffer
      writes := disk.writes ++ [(sectorOf lba, buffer)] }
  refine ⟨third, ?_⟩
  simp only [Ata.ataWriteSector, ataMaxRetries, writeAttempts, ataWriteSectorOnce, cleared,
    selectSector_address, ready, flushed]

/-- A drive that is never busy and always has data. -/
def readyDrive : Drive where
  status := fun _ => 0x08

theorem readyDrive_reliable : readyDrive.Reliable := by
  intro disk
  constructor
  · simp [ataWaitBsyClear, poll, readyDrive]
  · simp [ataWaitReady, poll, readyDrive]

/-! ### Drives with errors -/

section Drive

variable (drive : Drive)

theorem ataWaitBsyClear_sectors (disk : Disk) :
    (ataWaitBsyClear drive disk).2.sectors = disk.sectors := by
  obtain ⟨polls, after⟩ := poll_disk drive (fun status => status &&& 0x80 = 0) 1000000 disk
  rw [ataWaitBsyClear, after]

theorem ataWaitReady_sectors (disk : Disk) :
    (ataWaitReady drive disk).2.sectors = disk.sectors := by
  obtain ⟨polls, after⟩ := poll_disk drive
    (fun status => status &&& 0x80 = 0 ∧ status &&& 0x08 ≠ 0) 1000000 disk
  rw [ataWaitReady, after]

/-- A read changes no sector, and returns the content of the sector or nothing. -/
def ReadsBack (lba : Word) (disk : Disk) (answer : Option Sector × Disk) : Prop :=
  answer.2.sectors = disk.sectors ∧ ∀ buffer ∈ answer.1, buffer = disk.sectors (sectorOf lba)

theorem ataReadSectorOnce_readsBack (lba : Word) (disk : Disk) :
    ReadsBack lba disk (ataReadSectorOnce drive lba disk) := by
  have idle := ataWaitBsyClear_sectors drive disk
  unfold ataReadSectorOnce
  generalize ataWaitBsyClear drive disk = answer at idle ⊢
  rcases answer with ⟨_ | _, selected⟩
  · exact ⟨idle, fun buffer member => absurd member (Option.not_mem_none buffer)⟩
  · have ready := ataWaitReady_sectors drive
      { selected with reads := selected.reads ++ [(selectSector lba).address] }
    simp only at idle ready ⊢
    generalize ataWaitReady drive _ = answer at ready ⊢
    rcases answer with ⟨_ | _, after⟩
    · exact ⟨ready.trans idle, fun buffer member => absurd member (Option.not_mem_none buffer)⟩
    · refine ⟨ready.trans idle, fun buffer member => ?_⟩
      obtain rfl := Option.mem_some.mp member
      simp only at ready
      rw [ready, idle, selectSector_address]

theorem ataReadSector_readsBack (lba : Word) (disk : Disk) :
    ReadsBack lba disk (ataReadSector drive lba disk) := by
  unfold ataReadSector
  induction ataMaxRetries generalizing disk with
  | zero => exact ⟨rfl, fun buffer member => absurd member (Option.not_mem_none buffer)⟩
  | succ attempts ih =>
      have once := ataReadSectorOnce_readsBack drive lba disk
      rw [readAttempts]
      generalize ataReadSectorOnce drive lba disk = answer at once ⊢
      rcases answer with ⟨_ | buffer, after⟩
      · have again := ih after
        simp only [ReadsBack] at once again ⊢
        rwa [once.1] at again
      · exact once

/-- The drive gets one read command for each attempt that finds it idle. -/
theorem ataReadSectorOnce_reads (lba : Word) (disk : Disk) :
    ∃ attempts, (ataReadSectorOnce drive lba disk).2.reads =
      disk.reads ++ List.replicate attempts (sectorOf lba) := by
  obtain ⟨polls, idle⟩ := poll_disk drive (fun status => status &&& 0x80 = 0) 1000000 disk
  unfold ataReadSectorOnce ataWaitBsyClear
  generalize poll drive _ 1000000 disk = answer at idle
  obtain ⟨_ | _, selected⟩ := answer
  · exact ⟨0, by simp only at idle; rw [idle, List.replicate_zero, List.append_nil]⟩
  · simp only at idle ⊢
    obtain ⟨polls', ready⟩ := poll_disk drive
      (fun status => status &&& 0x80 = 0 ∧ status &&& 0x08 ≠ 0) 1000000
      { selected with reads := selected.reads ++ [(selectSector lba).address] }
    unfold ataWaitReady
    generalize poll drive _ 1000000 _ = answer at ready
    refine ⟨1, ?_⟩
    rw [selectSector_address] at ready
    obtain ⟨_ | _, after⟩ := answer
    · simp only at ready ⊢
      rw [ready, idle, List.replicate_one]
    · simp only at ready ⊢
      rw [ready, idle, List.replicate_one]

theorem ataReadSector_reads (lba : Word) (disk : Disk) :
    ∃ attempts, (ataReadSector drive lba disk).2.reads =
      disk.reads ++ List.replicate attempts (sectorOf lba) := by
  unfold ataReadSector
  induction ataMaxRetries generalizing disk with
  | zero => exact ⟨0, (List.append_nil _).symm⟩
  | succ left ih =>
      obtain ⟨first, once⟩ := ataReadSectorOnce_reads drive lba disk
      rw [readAttempts]
      generalize ataReadSectorOnce drive lba disk = answer at once ⊢
      obtain ⟨_ | buffer, after⟩ := answer
      · obtain ⟨later, again⟩ := ih after
        simp only at once again ⊢
        refine ⟨first + later, ?_⟩
        rw [again, once, List.append_assoc, List.replicate_append_replicate]
      · exact ⟨first, once⟩

/-- A write leaves the new content in its sector, or it fails and leaves the old one. -/
def WritesThrough (lba : Word) (buffer : Sector) (disk : Disk) (answer : Bool × Disk) : Prop :=
  answer.2.sectors = Function.update disk.sectors (sectorOf lba) buffer ∨
    answer.1 = false ∧ answer.2.sectors = disk.sectors

theorem ataWriteSectorOnce_writesThrough (lba : Word) (buffer : Sector) (disk : Disk) :
    WritesThrough lba buffer disk (ataWriteSectorOnce drive lba buffer disk) := by
  have idle := ataWaitBsyClear_sectors drive disk
  unfold ataWriteSectorOnce
  generalize ataWaitBsyClear drive disk = answer at idle ⊢
  rcases answer with ⟨_ | _, selected⟩
  · exact Or.inr ⟨rfl, idle⟩
  · have ready := ataWaitReady_sectors drive selected
    simp only at idle ready ⊢
    generalize ataWaitReady drive selected = answer at ready ⊢
    rcases answer with ⟨_ | _, listening⟩
    · exact Or.inr ⟨rfl, ready.trans idle⟩
    · left
      simp only at ready ⊢
      rw [ataWaitBsyClear_sectors, ready, idle, selectSector_address]

theorem ataWriteSector_writesThrough (lba : Word) (buffer : Sector) (disk : Disk) :
    WritesThrough lba buffer disk (ataWriteSector drive lba buffer disk) := by
  unfold ataWriteSector
  induction ataMaxRetries generalizing disk with
  | zero => exact Or.inr ⟨rfl, rfl⟩
  | succ attempts ih =>
      have once := ataWriteSectorOnce_writesThrough drive lba buffer disk
      rw [writeAttempts]
      generalize ataWriteSectorOnce drive lba buffer disk = answer at once ⊢
      rcases answer with ⟨_ | _, after⟩
      · have again := ih after
        simp only [WritesThrough] at once again ⊢
        rcases once with written | ⟨_, same⟩
        · -- A later attempt writes the same sector again.
          left
          rcases again with rewritten | ⟨_, same⟩
          · rw [rewritten, written, Function.update_idem]
          · rw [same, written]
        · rwa [same] at again
      · exact once

end Drive

end MxOS.Ata
