import MxOS.Drivers.Ata

/-! # The ATA driver at the ports

`drivers/ata.c` as it talks to the drive: bytes for the registers, then the 256 words of a
sector through the data port. The drive behind the ports does what the ATA standard says
of the three commands used; its status stays a parameter. A read or write at the ports
does what the model on whole sectors says.
-/

namespace MxOS.Ata

open ByteMemory

abbrev Port := BitVec 16

/-- What the data port transfers at a time. -/
abbrev Half := BitVec 16

def ataSectorCnt : Port := 0x1F2
def ataLbaLow : Port := 0x1F3
def ataLbaMid : Port := 0x1F4
def ataLbaHigh : Port := 0x1F5
def ataDriveSel : Port := 0x1F6
def ataCommand : Port := 0x1F7

def ataCmdRead : Byte := 0x20
def ataCmdWrite : Byte := 0x30
def cacheFlush : Byte := 0xE7

/-! ### Sectors as words -/

/-- The element `buffer[i]` of an array of words. -/
def halfAt (buffer : Sector) (i : Fin 256) : Half :=
  buffer ⟨2 * i.val + 1, by omega⟩ ++ buffer ⟨2 * i.val, by omega⟩

def halfByte (value : Half) (index : Nat) : Byte := value.extractLsb' (8 * (index % 2)) 8

/-- The assignment `buffer[i] = value`. -/
def storeHalf (buffer : Sector) (i : Fin 256) (value : Half) : Sector := fun index =>
  if index.val / 2 = i.val then halfByte value index.val else buffer index

def halves (buffer : Sector) : List Half := (List.finRange 256).map (halfAt buffer)

/-- The sector that the words make up. -/
def ofHalves (words : List Half) : Sector := fun index =>
  halfByte (words.getD (index.val / 2) 0) index.val

theorem halfByte_halfAt (buffer : Sector) {i : Fin 256} {index : Fin 512}
    (inside : index.val / 2 = i.val) : halfByte (halfAt buffer i) index.val = buffer index := by
  have low : (⟨2 * i.val, by omega⟩ : Fin 512) = index ∨
      (⟨2 * i.val + 1, by omega⟩ : Fin 512) = index := by
    simp only [Fin.ext_iff]
    omega
  apply BitVec.eq_of_getLsbD_eq
  intro bit bound
  rcases low with even | odd
  · have first : index.val % 2 = 0 := by rw [← even]; exact Nat.mul_mod_right 2 _
    rw [halfByte, halfAt, first, even, BitVec.getLsbD_extractLsb', BitVec.getLsbD_append]
    simp [bound]
  · have second : index.val % 2 = 1 := by rw [← odd]; exact Nat.mul_add_mod 2 _ 1
    rw [halfByte, halfAt, second, odd, BitVec.getLsbD_extractLsb', BitVec.getLsbD_append]
    simp [bound]

theorem ofHalves_halves (buffer : Sector) : ofHalves (halves buffer) = buffer := by
  funext index
  have inside : index.val / 2 < 256 := by omega
  have entry : (halves buffer).getD (index.val / 2) 0 = halfAt buffer ⟨index.val / 2, inside⟩ := by
    have bound : index.val / 2 < (halves buffer).length := by
      rwa [halves, List.length_map, List.length_finRange]
    rw [List.getD_eq_getElem?_getD, List.getElem?_eq_getElem bound, Option.getD_some]
    simp only [halves, List.getElem_map, List.getElem_finRange, Fin.cast_mk]
  rw [ofHalves, entry]
  exact halfByte_halfAt buffer rfl

/-! ### The drive -/

/-- An access of the driver to a port of the drive. -/
inductive Access where
  | status (value : Byte)
  | outb (port : Port) (value : Byte)
  | inw (value : Half)
  | outw (value : Half)

/-- The transfer that the last command has begun. -/
inductive Transfer where
  | idle
  /-- Words that the driver may read. -/
  | toHost (words : List Half)
  /-- The drive fills so many sectors from an address on, and has words of the first of them. -/
  | fromHost (address : Lba28) (sectors : Nat) (words : List Half)

structure Device where
  disk : Disk
  registers : Registers
  sectorCount : Byte
  transfer : Transfer
  trace : List Access

namespace Device

def log (access : Access) (device : Device) : Device :=
  { device with trace := device.trace ++ [access] }

/-- The drive is the master and the registers hold a sector number. -/
def addressed (device : Device) : Bool := device.registers.driveSel &&& 0x50 = 0x40

/-- A zero in the register stands for 256 sectors. -/
def sectors (device : Device) : Nat :=
  if device.sectorCount = 0 then 256 else device.sectorCount.toNat

/-- The sectors that a command is about. -/
def range (device : Device) : List Lba28 :=
  (List.range device.sectors).map fun k => device.registers.address + BitVec.ofNat 28 k

def command (value : Byte) (device : Device) : Device :=
  if !device.addressed then device
  else if value = ataCmdRead then
    { device with
      transfer := .toHost (device.range.flatMap fun address => halves (device.disk.sectors address))
      disk := { device.disk with reads := device.disk.reads ++ device.range } }
  else if value = ataCmdWrite then
    { device with transfer := .fromHost device.registers.address device.sectors [] }
  else { device with transfer := .idle }

/-- `inb` from the status port. -/
def status (drive : Drive) (device : Device) : Byte × Device :=
  let value := drive.status device.disk.polls
  (value, { device with disk := { device.disk with polls := device.disk.polls + 1 } }.log
    (.status value))

def outb (port : Port) (value : Byte) (device : Device) : Device :=
  let device := device.log (.outb port value)
  if port = ataSectorCnt then { device with sectorCount := value }
  else if port = ataLbaLow then
    { device with registers := { device.registers with lbaLow := value } }
  else if port = ataLbaMid then
    { device with registers := { device.registers with lbaMid := value } }
  else if port = ataLbaHigh then
    { device with registers := { device.registers with lbaHigh := value } }
  else if port = ataDriveSel then
    { device with registers := { device.registers with driveSel := value } }
  else if port = ataCommand then device.command value
  else device

/-- `inw` from the data port; where nothing is to be read, the lines float. -/
def inw (device : Device) : Half × Device :=
  match device.transfer with
  | .toHost (value :: rest) => (value, { device with transfer := .toHost rest }.log (.inw value))
  | _ => (0xFFFF, device.log (.inw 0xFFFF))

/-- `outw` to the data port; the last word of a sector has the drive write it. -/
def outw (value : Half) (device : Device) : Device :=
  let device := device.log (.outw value)
  match device.transfer with
  | .fromHost address (sectors + 1) words =>
      if words.length + 1 < 256 then
        { device with transfer := .fromHost address (sectors + 1) (words ++ [value]) }
      else
        let sector := ofHalves (words ++ [value])
        { device with
          transfer := if sectors = 0 then .idle else .fromHost (address + 1) sectors []
          disk :=
            { device.disk with
              sectors := Function.update device.disk.sectors address sector
              writes := device.disk.writes ++ [(address, sector)] } }
  | _ => device

end Device

/-! ### The driver -/

namespace Ports

/-- The loop of the two waiting functions. -/
def wait (drive : Drive) (awaited : Byte → Bool) : Nat → Device → Bool × Device
  | 0, device => (false, device)
  | timeout + 1, device =>
      let (status, device) : Byte × Device := device.status drive
      if status &&& 0x01 ≠ 0 then (false, device)
      else if awaited status then (true, device)
      else wait drive awaited timeout device

def ataWaitBsyClear (drive : Drive) : Device → Bool × Device :=
  wait drive (fun status => status &&& 0x80 = 0) 1000000

def ataWaitReady (drive : Drive) : Device → Bool × Device :=
  wait drive (fun status => status &&& 0x80 = 0 ∧ status &&& 0x08 ≠ 0) 1000000

/-- The writes that select a sector and end in a command. -/
def select (lba : Word) (command : Byte) (device : Device) : Device :=
  let device := device.outb ataDriveSel ((0xE0 : Byte) ||| ((lba >>> 24) &&& 0x0F).setWidth 8)
  let device := device.outb ataSectorCnt 1
  let device := device.outb ataLbaLow (lba.setWidth 8)
  let device := device.outb ataLbaMid ((lba >>> 8).setWidth 8)
  let device := device.outb ataLbaHigh ((lba >>> 16).setWidth 8)
  device.outb ataCommand command

/-- A round of the loop that reads the words. -/
def readHalf (state : Sector × Device) (i : Fin 256) : Sector × Device :=
  let (value, device) := state.2.inw
  (storeHalf state.1 i value, device)

def readWords (buffer : Sector) (device : Device) : Sector × Device :=
  (List.finRange 256).foldl readHalf (buffer, device)

def ataReadSectorOnce (drive : Drive) (lba : Word) (buffer : Sector) (device : Device) :
    Bool × Sector × Device :=
  match ataWaitBsyClear drive device with
  | (false, device) => (false, buffer, device)
  | (true, device) =>
      match ataWaitReady drive (select lba ataCmdRead device) with
      | (false, device) => (false, buffer, device)
      | (true, device) => (true, readWords buffer device)

/-- A round of the loop that writes the words. -/
def writeHalf (buffer : Sector) (device : Device) (i : Fin 256) : Device :=
  device.outw (halfAt buffer i)

def writeWords (buffer : Sector) (device : Device) : Device :=
  (List.finRange 256).foldl (writeHalf buffer) device

def ataWriteSectorOnce (drive : Drive) (lba : Word) (buffer : Sector) (device : Device) :
    Bool × Device :=
  match ataWaitBsyClear drive device with
  | (false, device) => (false, device)
  | (true, device) =>
      match ataWaitReady drive (select lba ataCmdWrite device) with
      | (false, device) => (false, device)
      | (true, device) =>
          ataWaitBsyClear drive ((writeWords buffer device).outb ataCommand cacheFlush)

def readAttempts (drive : Drive) (lba : Word) (buffer : Sector) :
    Nat → Device → Bool × Sector × Device
  | 0, device => (false, buffer, device)
  | attempts + 1, device =>
      match ataReadSectorOnce drive lba buffer device with
      | (true, buffer, device) => (true, buffer, device)
      | (false, buffer, device) => readAttempts drive lba buffer attempts device

def writeAttempts (drive : Drive) (lba : Word) (buffer : Sector) : Nat → Device → Bool × Device
  | 0, device => (false, device)
  | attempts + 1, device =>
      match ataWriteSectorOnce drive lba buffer device with
      | (true, device) => (true, device)
      | (false, device) => writeAttempts drive lba buffer attempts device

def ataReadSector (drive : Drive) (lba : Word) (buffer : Sector) (device : Device) :
    Bool × Sector × Device :=
  readAttempts drive lba buffer ataMaxRetries device

def ataWriteSector (drive : Drive) (lba : Word) (buffer : Sector) (device : Device) :
    Bool × Device :=
  writeAttempts drive lba buffer ataMaxRetries device

end Ports

/-! ### Transfers -/

/-- The device after the status has been read. -/
def Device.polled (drive : Drive) (device : Device) : Device := (device.status drive).2

theorem Ports.wait_succ (drive : Drive) (awaited : Byte → Bool) (timeout : Nat)
    (device : Device) :
    Ports.wait drive awaited (timeout + 1) device =
      if drive.status device.disk.polls &&& 0x01 ≠ 0 then (false, device.polled drive)
      else if awaited (drive.status device.disk.polls) then (true, device.polled drive)
      else Ports.wait drive awaited timeout (device.polled drive) :=
  rfl

theorem Ports.wait_device (drive : Drive) (awaited : Byte → Bool) (timeout : Nat)
    (device : Device) :
    ∃ trace, Ports.wait drive awaited timeout device =
      ((poll drive awaited timeout device.disk).1,
        { device with disk := (poll drive awaited timeout device.disk).2, trace := trace }) := by
  induction timeout generalizing device with
  | zero => exact ⟨device.trace, rfl⟩
  | succ timeout ih =>
      rw [Ports.wait_succ, poll]
      by_cases error : drive.status device.disk.polls &&& 0x01 ≠ 0
      · exact ⟨(device.polled drive).trace, by simp only [if_pos error]; rfl⟩
      · by_cases reached : awaited (drive.status device.disk.polls) = true
        · exact ⟨(device.polled drive).trace, by simp only [if_neg error, if_pos reached]; rfl⟩
        · simp only [if_neg error, if_neg reached]
          exact ih (device.polled drive)

theorem Ports.ataWaitBsyClear_device (drive : Drive) (device : Device) :
    ∃ trace, Ports.ataWaitBsyClear drive device =
      ((Ata.ataWaitBsyClear drive device.disk).1,
        { device with disk := (Ata.ataWaitBsyClear drive device.disk).2, trace := trace }) :=
  Ports.wait_device ..

theorem Ports.ataWaitReady_device (drive : Drive) (device : Device) :
    ∃ trace, Ports.ataWaitReady drive device =
      ((Ata.ataWaitReady drive device.disk).1,
        { device with disk := (Ata.ataWaitReady drive device.disk).2, trace := trace }) :=
  Ports.wait_device ..

/-- The registers after the selection hold the sector number. -/
theorem Ports.select_eq (lba : Word) (command : Byte) (device : Device) :
    ∃ trace, Ports.select lba command device =
      Device.command command
        { device with registers := selectSector lba, sectorCount := 1, trace := trace } :=
  ⟨_, rfl⟩

theorem addressed_selectSector (lba : Word) : (selectSector lba).driveSel &&& 0x50 = 0x40 := by
  have master : (0xE0 : Byte) &&& 0x50 = 0x40 := by decide
  have spare : (((lba >>> 24) &&& 0x0F).setWidth 8 : Byte) &&& 0x50 = 0 := by
    apply BitVec.eq_of_getLsbD_eq
    intro bit bound
    have masks : ∀ bit < 8, ((0x0F : Word).getLsbD bit && (0x50 : Byte).getLsbD bit) = false := by
      decide
    have apart := masks bit bound
    simp only [BitVec.getLsbD_and, BitVec.getLsbD_setWidth]
    grind
  have whole : (selectSector lba).driveSel =
      (0xE0 : Byte) ||| ((lba >>> 24) &&& 0x0F).setWidth 8 := rfl
  rw [whole, BitVec.and_or_distrib_right, master, spare]
  rfl

theorem Ports.select_read (lba : Word) (device : Device) :
    ∃ trace, Ports.select lba ataCmdRead device =
      { device with
        registers := selectSector lba
        sectorCount := 1
        transfer := .toHost (halves (device.disk.sectors (sectorOf lba)))
        disk := { device.disk with reads := device.disk.reads ++ [sectorOf lba] }
        trace := trace } := by
  obtain ⟨trace, selected⟩ := Ports.select_eq lba ataCmdRead device
  refine ⟨trace, selected.trans ?_⟩
  have range : List.range 1 = [0] := rfl
  rw [Device.command, Device.addressed, decide_eq_true (addressed_selectSector lba)]
  simp [Device.range, Device.sectors, selectSector_address, range]

theorem Ports.select_write (lba : Word) (device : Device) :
    ∃ trace, Ports.select lba ataCmdWrite device =
      { device with
        registers := selectSector lba
        sectorCount := 1
        transfer := .fromHost (sectorOf lba) 1 []
        trace := trace } := by
  obtain ⟨trace, selected⟩ := Ports.select_eq lba ataCmdWrite device
  refine ⟨trace, selected.trans ?_⟩
  have other : ataCmdWrite ≠ ataCmdRead := by decide
  rw [Device.command, Device.addressed, decide_eq_true (addressed_selectSector lba)]
  simp [Device.sectors, selectSector_address, other]

theorem Device.command_flush (device : Device) :
    (device.command cacheFlush).disk = device.disk := by
  have read : cacheFlush ≠ ataCmdRead := by decide
  have write : cacheFlush ≠ ataCmdWrite := by decide
  rw [Device.command, if_neg read, if_neg write]
  split <;> rfl

theorem Device.outb_flush (device : Device) :
    (device.outb ataCommand cacheFlush).disk = device.disk :=
  Device.command_flush (device.log (.outb ataCommand cacheFlush))

/-- The words that the drive holds ready end up in the buffer, in order. -/
theorem Ports.readHalves (sector : Sector) (indices : List (Fin 256)) (buffer : Sector)
    (device : Device) (rest : List Half)
    (begun : device.transfer = .toHost (indices.map (halfAt sector) ++ rest)) :
    ∃ trace, indices.foldl Ports.readHalf (buffer, device) =
      (fun index => if index.val / 2 ∈ indices.map Fin.val then sector index else buffer index,
        { device with transfer := .toHost rest, trace := trace }) := by
  induction indices generalizing buffer device with
  | nil =>
      refine ⟨device.trace, ?_⟩
      rw [List.map_nil, List.nil_append] at begun
      simp [← begun]
  | cons i indices ih =>
      let after : Device :=
        { device with transfer := .toHost (indices.map (halfAt sector) ++ rest) }.log
          (.inw (halfAt sector i))
      have one : Ports.readHalf (buffer, device) i =
          (storeHalf buffer i (halfAt sector i), after) := by
        simp only [Ports.readHalf, Device.inw, begun, List.map_cons, List.cons_append]
        rfl
      obtain ⟨trace, all⟩ := ih (storeHalf buffer i (halfAt sector i)) after rfl
      refine ⟨trace, ?_⟩
      rw [List.foldl_cons, one, all]
      refine Prod.ext (funext fun index => ?_) rfl
      simp only [storeHalf, List.map_cons, List.mem_cons]
      by_cases here : index.val / 2 = i.val
      · simp only [here, true_or, if_true, halfByte_halfAt sector here, ite_self]
      · simp only [here, false_or, if_false]

theorem Ports.readSector (sector buffer : Sector) (device : Device)
    (begun : device.transfer = .toHost (halves sector)) :
    ∃ trace, Ports.readWords buffer device =
      (sector, { device with transfer := .toHost [], trace := trace }) := by
  rw [← List.append_nil (halves sector)] at begun
  obtain ⟨trace, all⟩ := Ports.readHalves sector (List.finRange 256) buffer device [] begun
  refine ⟨trace, Eq.trans all (Prod.ext (funext fun index => if_pos ?_) rfl)⟩
  have inside : index.val / 2 < 256 := by omega
  exact List.mem_map.mpr ⟨⟨index.val / 2, inside⟩, List.mem_finRange _, rfl⟩

/-- The drive collects words until it has a sector. -/
theorem Ports.writeHalves (buffer : Sector) (indices : List (Fin 256)) (device : Device)
    (address : Lba28) (words : List Half)
    (begun : device.transfer = .fromHost address 1 words)
    (whole : words.length + indices.length = 256) (some : indices ≠ []) :
    ∃ trace, indices.foldl (Ports.writeHalf buffer) device =
      { device with
        transfer := .idle
        disk :=
          { device.disk with
            sectors := Function.update device.disk.sectors address
              (ofHalves (words ++ indices.map (halfAt buffer)))
            writes := device.disk.writes ++
              [(address, ofHalves (words ++ indices.map (halfAt buffer)))] }
        trace := trace } := by
  induction indices generalizing device words with
  | nil => exact absurd rfl some
  | cons i indices ih =>
      rw [List.foldl_cons]
      cases indices with
      | nil =>
          have last : ¬ words.length + 1 < 256 := by
            rw [List.length_singleton] at whole
            omega
          refine ⟨device.trace ++ [.outw (halfAt buffer i)], ?_⟩
          simp only [List.foldl_nil, Ports.writeHalf, Device.outw, Device.log, begun, if_neg last]
          rfl
      | cons next indices =>
          have more : words.length + 1 < 256 := by
            simp only [List.length_cons] at whole
            omega
          let after : Device :=
            { device with
              transfer := .fromHost address 1 (words ++ [halfAt buffer i])
              trace := device.trace ++ [.outw (halfAt buffer i)] }
          have one : Ports.writeHalf buffer device i = after := by
            simp only [Ports.writeHalf, Device.outw, Device.log, begun, if_pos more]
            rfl
          have room : (words ++ [halfAt buffer i]).length + (next :: indices).length = 256 := by
            rw [List.length_append, List.length_singleton]
            simp only [List.length_cons] at whole ⊢
            omega
          obtain ⟨trace, all⟩ :=
            ih after (words ++ [halfAt buffer i]) rfl room (List.cons_ne_nil _ _)
          refine ⟨trace, ?_⟩
          rw [one, all]
          simp only [after, List.map_cons, List.append_assoc, List.singleton_append]

theorem Ports.writeSector (buffer : Sector) (device : Device) (address : Lba28)
    (begun : device.transfer = .fromHost address 1 []) :
    ∃ trace, Ports.writeWords buffer device =
      { device with
        transfer := .idle
        disk :=
          { device.disk with
            sectors := Function.update device.disk.sectors address buffer
            writes := device.disk.writes ++ [(address, buffer)] }
        trace := trace } := by
  have indices : List.finRange 256 ≠ [] := List.ne_nil_of_length_pos (by
    rw [List.length_finRange]
    decide)
  have length : ([] : List Half).length + (List.finRange 256).length = 256 := by
    rw [List.length_finRange, List.length_nil]
  obtain ⟨trace, all⟩ := Ports.writeHalves buffer _ device address [] begun length indices
  refine ⟨trace, ?_⟩
  rw [Ports.writeWords, all]
  have same : ofHalves ([] ++ (List.finRange 256).map (halfAt buffer)) = buffer :=
    ofHalves_halves buffer
  rw [same]

/-! ### Calls -/

/-- What a read on whole sectors means for the buffer of the caller. -/
def readAnswer (buffer : Sector) : Option Sector × Disk → Bool × Sector × Disk
  | (some content, disk) => (true, content, disk)
  | (none, disk) => (false, buffer, disk)

/-- What the caller sees of a read at the ports. -/
def Ports.readAnswer (answer : Bool × Sector × Device) : Bool × Sector × Disk :=
  (answer.1, answer.2.1, answer.2.2.disk)

section Waits

/- The waits matter only in that both levels wait alike. -/
variable {portsClear portsReady : Device → Bool × Device} {clear ready : Disk → Bool × Disk}
  (clears : ∀ device, ∃ trace, portsClear device =
    ((clear device.disk).1, { device with disk := (clear device.disk).2, trace := trace }))
  (readies : ∀ device, ∃ trace, portsReady device =
    ((ready device.disk).1, { device with disk := (ready device.disk).2, trace := trace }))

include clears

/-- The words and the flush, once the drive is ready for them. -/
theorem Ports.writeSector_flush (buffer : Sector) (device : Device) (address : Lba28)
    (begun : device.transfer = .fromHost address 1 []) :
    Prod.map id Device.disk (portsClear
      ((Ports.writeWords buffer device).outb ataCommand cacheFlush)) =
      clear
        { device.disk with
          sectors := Function.update device.disk.sectors address buffer
          writes := device.disk.writes ++ [(address, buffer)] } := by
  obtain ⟨written, write⟩ := Ports.writeSector buffer device address begun
  obtain ⟨flushed, last⟩ := clears ((Ports.writeWords buffer device).outb ataCommand cacheFlush)
  rw [last, Device.outb_flush, write]
  rfl

include readies

theorem Ports.readSectorOnce_steps (keeps : ∀ disk, (ready disk).2.sectors = disk.sectors)
    (lba : Word) (buffer : Sector) (device : Device) :
    Ports.readAnswer
      (match portsClear device with
      | (false, device) => (false, buffer, device)
      | (true, device) =>
          match portsReady (Ports.select lba ataCmdRead device) with
          | (false, device) => (false, buffer, device)
          | (true, device) => (true, Ports.readWords buffer device)) =
      Ata.readAnswer buffer
        (match clear device.disk with
        | (false, disk) => (none, disk)
        | (true, disk) =>
            match ready { disk with reads := disk.reads ++ [(selectSector lba).address] } with
            | (false, disk) => (none, disk)
            | (true, disk) => (some (disk.sectors (selectSector lba).address), disk)) := by
  obtain ⟨polled, idle⟩ := clears device
  rw [idle, selectSector_address]
  generalize clear device.disk = answer
  obtain ⟨_ | _, disk⟩ := answer
  · rfl
  · obtain ⟨selected, begins⟩ :=
      Ports.select_read lba { device with disk := disk, trace := polled }
    dsimp only
    rw [begins]
    let commanded : Disk := { disk with reads := disk.reads ++ [sectorOf lba] }
    generalize chosen : Device.mk _ _ _ _ selected = begun
    have same : begun.disk = commanded := by rw [← chosen]
    have transfer : begun.transfer = .toHost (halves (disk.sectors (sectorOf lba))) := by
      rw [← chosen]
    obtain ⟨waited, data⟩ := readies begun
    rw [data, same]
    have kept := keeps commanded
    generalize ready commanded = answer at kept ⊢
    obtain ⟨_ | _, after⟩ := answer
    · rfl
    · obtain ⟨trace, read⟩ := Ports.readSector (disk.sectors (sectorOf lba)) buffer
        { begun with disk := after, trace := waited } transfer
      have content : after.sectors = disk.sectors := kept
      simp only [read, content]
      rfl

theorem Ports.writeSectorOnce_steps (lba : Word) (buffer : Sector) (device : Device) :
    Prod.map id Device.disk
      (match portsClear device with
      | (false, device) => (false, device)
      | (true, device) =>
          match portsReady (Ports.select lba ataCmdWrite device) with
          | (false, device) => (false, device)
          | (true, device) =>
              portsClear ((Ports.writeWords buffer device).outb ataCommand cacheFlush)) =
      match clear device.disk with
      | (false, disk) => (false, disk)
      | (true, disk) =>
          match ready disk with
          | (false, disk) => (false, disk)
          | (true, disk) =>
              clear
                { disk with
                  sectors := Function.update disk.sectors (selectSector lba).address buffer
                  writes := disk.writes ++ [((selectSector lba).address, buffer)] } := by
  obtain ⟨polled, idle⟩ := clears device
  rw [idle, selectSector_address]
  generalize clear device.disk = answer
  obtain ⟨_ | _, disk⟩ := answer
  · rfl
  · obtain ⟨selected, begins⟩ :=
      Ports.select_write lba { device with disk := disk, trace := polled }
    dsimp only
    rw [begins]
    generalize chosen : Device.mk disk _ _ _ selected = begun
    have same : begun.disk = disk := by rw [← chosen]
    have transfer : begun.transfer = .fromHost (sectorOf lba) 1 [] := by rw [← chosen]
    obtain ⟨waited, data⟩ := readies begun
    rw [data, same]
    generalize ready disk = answer
    obtain ⟨_ | _, after⟩ := answer
    · rfl
    · exact Ports.writeSector_flush clears buffer
        { begun with disk := after, trace := waited } (sectorOf lba) transfer

end Waits

theorem ataReadSectorOnce_ports (drive : Drive) (lba : Word) (buffer : Sector) (device : Device) :
    Ports.readAnswer (Ports.ataReadSectorOnce drive lba buffer device) =
      readAnswer buffer (ataReadSectorOnce drive lba device.disk) :=
  Ports.readSectorOnce_steps (Ports.ataWaitBsyClear_device drive)
    (Ports.ataWaitReady_device drive) (ataWaitReady_sectors drive) lba buffer device

theorem ataReadSector_ports (drive : Drive) (lba : Word) (buffer : Sector) (device : Device) :
    Ports.readAnswer (Ports.ataReadSector drive lba buffer device) =
      readAnswer buffer (ataReadSector drive lba device.disk) := by
  rw [Ports.ataReadSector, ataReadSector]
  induction ataMaxRetries generalizing device with
  | zero => rfl
  | succ attempts ih =>
      have once := ataReadSectorOnce_ports drive lba buffer device
      rw [Ports.readAttempts, readAttempts]
      generalize Ports.ataReadSectorOnce drive lba buffer device = ports at once ⊢
      generalize ataReadSectorOnce drive lba device.disk = sectors at once ⊢
      obtain ⟨_ | _, content, after⟩ := ports
      all_goals obtain ⟨_ | result, disk⟩ := sectors
      all_goals simp only [Ports.readAnswer, readAnswer, Prod.mk.injEq, reduceCtorEq, false_and,
        true_and] at once
      · obtain ⟨rfl, rfl⟩ := once
        exact ih after
      · obtain ⟨rfl, rfl⟩ := once
        rfl

theorem ataWriteSectorOnce_ports (drive : Drive) (lba : Word) (buffer : Sector)
    (device : Device) :
    Prod.map id Device.disk (Ports.ataWriteSectorOnce drive lba buffer device) =
      ataWriteSectorOnce drive lba buffer device.disk :=
  Ports.writeSectorOnce_steps (Ports.ataWaitBsyClear_device drive)
    (Ports.ataWaitReady_device drive) lba buffer device

theorem ataWriteSector_ports (drive : Drive) (lba : Word) (buffer : Sector) (device : Device) :
    Prod.map id Device.disk (Ports.ataWriteSector drive lba buffer device) =
      ataWriteSector drive lba buffer device.disk := by
  rw [Ports.ataWriteSector, ataWriteSector]
  induction ataMaxRetries generalizing device with
  | zero => rfl
  | succ attempts ih =>
      have once := ataWriteSectorOnce_ports drive lba buffer device
      rw [Ports.writeAttempts, writeAttempts, ← once]
      generalize Ports.ataWriteSectorOnce drive lba buffer device = answer
      obtain ⟨_ | _, after⟩ := answer
      · exact ih after
      · rfl

/-- A call of the driver, with the buffer of the caller. -/
inductive Request where
  | read (lba : Word) (buffer : Sector)
  | write (lba : Word) (buffer : Sector)

/-- What a call returns and leaves in the buffer, as the file system is modelled over it. -/
def Request.perform (drive : Drive) : Request → Disk → (Bool × Sector) × Disk
  | .read lba buffer, disk =>
      match ataReadSector drive lba disk with
      | (some content, disk) => ((true, content), disk)
      | (none, disk) => ((false, buffer), disk)
  | .write lba buffer, disk =>
      let (written, disk) := ataWriteSector drive lba buffer disk
      ((written, buffer), disk)

def Request.atPorts (drive : Drive) : Request → Device → (Bool × Sector) × Device
  | .read lba buffer, device =>
      let (done, content, device) := Ports.ataReadSector drive lba buffer device
      ((done, content), device)
  | .write lba buffer, device =>
      let (written, device) := Ports.ataWriteSector drive lba buffer device
      ((written, buffer), device)

/-- The answers to a list of calls. -/
def serve {Target : Type} (perform : Request → Target → (Bool × Sector) × Target) :
    List Request → Target → List (Bool × Sector) × Target
  | [], target => ([], target)
  | request :: rest, target =>
      let (answer, target) := perform request target
      let (answers, target) := serve perform rest target
      (answer :: answers, target)

theorem Request.atPorts_perform (drive : Drive) (request : Request) (device : Device) :
    Prod.map id Device.disk (request.atPorts drive device) = request.perform drive device.disk := by
  cases request with
  | read lba buffer =>
      have same := ataReadSector_ports drive lba buffer device
      rw [Request.atPorts, Request.perform]
      generalize Ports.ataReadSector drive lba buffer device = ports at same ⊢
      generalize ataReadSector drive lba device.disk = sectors at same ⊢
      obtain ⟨done, content, after⟩ := ports
      obtain ⟨_ | result, disk⟩ := sectors
      all_goals
        simp only [Ports.readAnswer, readAnswer, Prod.mk.injEq] at same
        obtain ⟨rfl, rfl, rfl⟩ := same
        rfl
  | write lba buffer =>
      have same := ataWriteSector_ports drive lba buffer device
      rw [Request.atPorts, Request.perform, ← same]
      rfl

/-- The driver at the ports answers every sequence of calls as its model on whole sectors does,
and leaves the drive with the same sectors, after the same commands and polls. This holds
whatever the drive reports, with what the registers hold and with whatever transfer an
earlier call may have left behind. -/
theorem ports_refine_sectors (drive : Drive) (requests : List Request) (device : Device) :
    let ports := serve (Request.atPorts drive) requests device
    let sectors := serve (Request.perform drive) requests device.disk
    ports.1 = sectors.1 ∧ ports.2.disk = sectors.2 := by
  induction requests generalizing device with
  | nil => exact ⟨rfl, rfl⟩
  | cons request rest ih =>
      have once := request.atPorts_perform drive device
      simp only [serve]
      rw [← once]
      obtain ⟨answers, disks⟩ := ih (request.atPorts drive device).2
      exact ⟨congrArg ((request.atPorts drive device).1 :: ·) answers, disks⟩

end MxOS.Ata
