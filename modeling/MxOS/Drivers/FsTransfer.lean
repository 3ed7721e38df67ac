import MxOS.Drivers.Fs

/-! # Transfers

When no transfer fails, loading and saving the directory and the bitmap and writing
the contents of a file come down to lists of sector writes. The lemmas here say which
sectors each loop writes, in order, and what can be read back. A directory that was
loaded is the one on the disk also when transfers may fail.
-/

namespace MxOS.Fs

open ByteMemory Ata WriteLog

/-! ### Sector writes -/

/-- The disk after issuing the given writes. -/
structure Written (writes : List (Lba28 × Sector)) (before after : Disk) : Prop where
  sectors : after.sectors = replay writes before.sectors
  log : after.writes = before.writes ++ writes

theorem Written.refl (disk : Disk) : Written [] disk disk :=
  ⟨rfl, (List.append_nil _).symm⟩

theorem Written.trans {first second : List (Lba28 × Sector)} {start middle finish : Disk}
    (one : Written first start middle) (two : Written second middle finish) :
    Written (first ++ second) start finish where
  sectors := by rw [two.sectors, one.sectors, replay_append]
  log := by rw [two.log, one.log, List.append_assoc]

/-- The writes a disk has logged since. -/
theorem Written.drop {writes : List (Lba28 × Sector)} {before after : Disk}
    (written : Written writes before after) :
    after.writes.drop before.writes.length = writes := by
  rw [written.log, List.drop_left]

theorem Written.cons {lba : Lba28} {buffer : Sector} {rest : List (Lba28 × Sector)}
    {start middle finish : Disk} (one : Written [(lba, buffer)] start middle)
    (two : Written rest middle finish) : Written ((lba, buffer) :: rest) start finish :=
  one.trans two

section Reliable

variable {drive : Drive} (reliable : drive.Reliable)
include reliable

theorem ataReadSector_written (lba : Word) (disk : Disk) :
    ∃ after, ataReadSector drive lba disk = (some (disk.sectors (sectorOf lba)), after) ∧
      Written [] disk after := by
  obtain ⟨polls, read⟩ := reliable.ataReadSector lba disk
  exact ⟨_, read, rfl, (List.append_nil _).symm⟩

theorem ataWriteSector_written (lba : Word) (buffer : Sector) (disk : Disk) :
    ∃ after, ataWriteSector drive lba buffer disk = (true, after) ∧
      Written [(sectorOf lba, buffer)] disk after := by
  obtain ⟨polls, write⟩ := reliable.ataWriteSector lba buffer disk
  exact ⟨_, write, rfl, rfl⟩

end Reliable

/-! ### The directory -/

/-- The writes that save the directory. -/
def rootWrites (root : RootDirectory) : List (Lba28 × Sector) :=
  (List.range fsRootSectors).map fun sector =>
    (sectorOf (rootSectorLba sector), saveChunk root.raw sector)

/-- The directory in the sectors of a disk. -/
def diskRoot (sectors : Lba28 → Sector) : RootDirectory :=
  RootDirectory.ofRaw fun offset =>
    sectors (sectorOf (rootSectorLba (offset / 512))) (Fin.ofNat 512 offset)

/-- The bitmap in the sectors of a disk. -/
def diskBitmap (sectors : Lba28 → Sector) : Sector := sectors (sectorOf fsBitmapLba)

def bitmapWrite (bitmap : Sector) : Lba28 × Sector := (sectorOf fsBitmapLba, bitmap)

section Drive

variable (drive : Drive)

/-- A directory that was loaded is the one on the disk. -/
theorem rootLoadLoop_loads (sectors : List Nat) (raw : Nat → Byte) (disk : Disk) :
    (rootLoadLoop drive sectors raw disk).2.2.sectors = disk.sectors ∧
      ((rootLoadLoop drive sectors raw disk).1 = true → ∀ offset < rootSize,
        (rootLoadLoop drive sectors raw disk).2.1 offset =
          if offset / 512 ∈ sectors then
            disk.sectors (sectorOf (rootSectorLba (offset / 512))) (Fin.ofNat 512 offset)
          else raw offset) := by
  induction sectors generalizing raw disk with
  | nil => exact ⟨rfl, fun _ _ _ => rfl⟩
  | cons sector rest ih =>
      obtain ⟨same, content⟩ := ataReadSector_readsBack drive (rootSectorLba sector) disk
      rw [rootLoadLoop]
      generalize ataReadSector drive (rootSectorLba sector) disk = answer at same content ⊢
      rcases answer with ⟨_ | buffer, middle⟩
      · exact ⟨same, fun loaded => absurd loaded Bool.false_ne_true⟩
      · obtain ⟨same', bytes⟩ := ih (loadChunk raw sector buffer) middle
        simp only at same same' bytes content ⊢
        refine ⟨same'.trans same, fun loaded offset bound => ?_⟩
        rw [bytes loaded offset bound, same]
        by_cases later : offset / 512 ∈ rest
        · simp only [later, ↓reduceIte, List.mem_cons, or_true]
        · by_cases here : offset / 512 = sector
          · simp only [← here, later, ↓reduceIte, List.mem_cons, or_false, loadChunk, bound,
              and_self, content buffer rfl]
          · simp only [later, here, ↓reduceIte, List.mem_cons, or_self, loadChunk, false_and]

/-- Loading the directory reads it from its sectors, whatever was in memory. -/
theorem fsRootLoad_loads (fs : State) :
    (fsRootLoad drive fs).2.disk.sectors = fs.disk.sectors ∧
      ((fsRootLoad drive fs).1 = true →
        (fsRootLoad drive fs).2.root = diskRoot fs.disk.sectors) := by
  obtain ⟨same, bytes⟩ :=
    rootLoadLoop_loads drive (List.range fsRootSectors) fs.root.raw fs.disk
  refine ⟨same, fun loaded => ?_⟩
  apply RootDirectory.ofRaw_congr
  intro offset bound
  have inside : offset / 512 ∈ List.range fsRootSectors := by
    have size : rootSize = 1056 := rfl
    rw [List.mem_range, fsRootSectors_eq]
    omega
  exact (bytes loaded offset bound).trans (if_pos inside)

end Drive

section Reliable

variable {drive : Drive} (reliable : drive.Reliable)
include reliable

theorem rootLoadLoop_reliable (sectors : List Nat) (raw : Nat → Byte) (disk : Disk) :
    ∃ loaded after, rootLoadLoop drive sectors raw disk = (true, loaded, after) ∧
      Written [] disk after := by
  induction sectors generalizing raw disk with
  | nil => exact ⟨raw, disk, rfl, .refl _⟩
  | cons sector rest ih =>
      obtain ⟨middle, read, same⟩ := ataReadSector_written reliable (rootSectorLba sector) disk
      obtain ⟨loaded, after, step, written⟩ := ih
        (loadChunk raw sector (disk.sectors (sectorOf (rootSectorLba sector)))) middle
      refine ⟨loaded, after, ?_, same.trans written⟩
      simp only [rootLoadLoop, read, step]

theorem fsRootLoad_reliable (fs : State) :
    ∃ after, fsRootLoad drive fs =
        (true, { fs with root := diskRoot fs.disk.sectors, disk := after }) ∧
      Written [] fs.disk after := by
  obtain ⟨loaded, after, step, written⟩ :=
    rootLoadLoop_reliable reliable (List.range fsRootSectors) fs.root.raw fs.disk
  have root := (fsRootLoad_loads drive fs).2
  simp only [fsRootLoad, step, forall_const] at root
  refine ⟨after, ?_, written⟩
  simp only [fsRootLoad, step, root]

theorem rootSaveLoop_reliable (raw : Nat → Byte) (sectors : List Nat) (disk : Disk) :
    ∃ after, rootSaveLoop drive raw sectors disk = (true, after) ∧
      Written (sectors.map fun sector =>
        (sectorOf (rootSectorLba sector), saveChunk raw sector)) disk after := by
  induction sectors generalizing disk with
  | nil => exact ⟨disk, rfl, .refl _⟩
  | cons sector rest ih =>
      obtain ⟨middle, write, one⟩ := ataWriteSector_written reliable (rootSectorLba sector)
        (saveChunk raw sector) disk
      obtain ⟨after, step, two⟩ := ih middle
      refine ⟨after, ?_, one.cons two⟩
      simp only [rootSaveLoop, write, step]

theorem fsRootSave_reliable (fs : State) :
    ∃ after, fsRootSave drive fs = (true, { fs with disk := after }) ∧
      Written (rootWrites fs.root) fs.disk after := by
  obtain ⟨after, step, written⟩ :=
    rootSaveLoop_reliable reliable fs.root.raw (List.range fsRootSectors) fs.disk
  refine ⟨after, ?_, written⟩
  simp only [fsRootSave, step]

theorem bitmapPersist_reliable (fs : State) :
    ∃ after, bitmapPersist drive fs = { fs with disk := after } ∧
      Written [bitmapWrite fs.bitmap] fs.disk after := by
  obtain ⟨after, write, written⟩ :=
    ataWriteSector_written reliable fsBitmapLba fs.bitmap fs.disk
  refine ⟨after, ?_, written⟩
  simp only [bitmapPersist, write]

end Reliable

/-! ### The bitmap -/

/-- The bitmap with the entries of `count` sectors from `startLba` on set to `used`. -/
def marked (startLba count : Word) (used : Byte) (bitmap : Sector) : Sector := fun index =>
  if startLba.toNat ≤ fsDataLba.toNat + index ∧
      fsDataLba.toNat + index < startLba.toNat + count.toNat ∧ index.val < fsDataSectors - 1 then
    used
  else bitmap index

theorem markLoop_apply {start count : Word} {used : Byte} {fuel : Nat} {index : Word}
    (inRange : start.toNat + index.toNat ≤ 511) (enough : 511 ≤ start.toNat + index.toNat + fuel)
    (bitmap : Sector) (position : Fin 512) :
    markLoop start count used fuel index bitmap position =
      if start.toNat + index.toNat ≤ position ∧ position < start.toNat + count.toNat ∧
          position.val < 511 then used
      else bitmap position := by
  induction fuel generalizing index bitmap with
  | zero =>
      rw [if_neg (by omega)]
      rfl
  | succ fuel ih =>
      rw [markLoop]
      have sum : (start + index).toNat = start.toNat + index.toNat := by bv_omega
      by_cases more : index < count ∧ start + index < BitVec.ofNat 32 (fsDataSectors - 1)
      · have below : start.toNat + index.toNat < 511 := by
          have bound := BitVec.lt_def.mp more.2
          simpa [fsDataSectors, sum] using bound
        have next : (index + 1).toNat = index.toNat + 1 := by bv_omega
        have counted : index.toNat < count.toNat := BitVec.lt_def.mp more.1
        rw [if_pos more, ih (by omega) (by omega), next]
        by_cases here : position.val = start.toNat + index.toNat
        · have same : Fin.ofNat 512 (start + index).toNat = position := by
            apply Fin.ext
            rw [Fin.val_ofNat]
            omega
          rw [if_neg (by omega), if_pos (by omega), same, Function.update_self]
        · have other : position ≠ Fin.ofNat 512 (start + index).toNat := by
            intro same
            have value := congrArg Fin.val same
            rw [Fin.val_ofNat] at value
            omega
          rw [Function.update_of_ne other]
          congr 1
          apply propext
          omega
      · rw [if_neg more, if_neg]
        intro covered
        apply more
        constructor
        · rw [BitVec.lt_def]
          omega
        · rw [BitVec.lt_def, sum]
          simp only [fsDataSectors, BitVec.toNat_ofNat]
          omega

theorem markLoop_eq_marked {startLba : Word} (inData : ¬ startLba < fsDataLba) (count : Word)
    (used : Byte) (bitmap : Sector) :
    markLoop (startLba - fsDataLba) count used fsDataSectors 0 bitmap =
      marked startLba count used bitmap := by
  funext position
  have base := fsDataLba_toNat
  rw [BitVec.lt_def, base] at inData
  have start : (startLba - fsDataLba).toNat = startLba.toNat - 86 := by bv_omega
  have zero : (0 : Word).toNat = 0 := rfl
  by_cases near : startLba.toNat ≤ 597
  · rw [markLoop_apply (by rw [start, zero]; omega)
      (by rw [start, zero, fsDataSectors_eq]; omega)]
    simp only [start, zero, marked, base, fsDataSectors_eq]
    congr 1
    apply propext
    omega
  · have sum : startLba - fsDataLba + 0 = startLba - fsDataLba := BitVec.add_zero _
    have stopped : ¬ (startLba - fsDataLba + 0 < BitVec.ofNat 32 (fsDataSectors - 1)) := by
      rw [BitVec.lt_def, sum, start, fsDataSectors_eq, BitVec.toNat_ofNat]
      omega
    rw [show fsDataSectors = 511 + 1 by rfl, markLoop, if_neg (fun more => stopped more.2), marked,
      if_neg (by rw [base]; omega)]

section Reliable

variable {drive : Drive} (reliable : drive.Reliable)
include reliable

theorem bitmapMark_reliable {startLba : Word} (inData : ¬ startLba < fsDataLba) (count : Word)
    (used : Byte) (fs : State) :
    ∃ after, bitmapMark drive startLba count used fs =
        { fs with bitmap := marked startLba count used fs.bitmap, disk := after } ∧
      Written [bitmapWrite (marked startLba count used fs.bitmap)] fs.disk after := by
  obtain ⟨after, persisted, written⟩ := bitmapPersist_reliable reliable
    { fs with bitmap := marked startLba count used fs.bitmap }
  refine ⟨after, ?_, written⟩
  rw [bitmapMark, if_neg inData, markLoop_eq_marked inData, persisted]

end Reliable

/-! ### File contents -/

/-- The writes of `size` bytes of file content from sector `startLba` on. -/
def dataWrites (data : Nat → Byte) (startLba : Word) (size : Nat) : List (Lba28 × Sector) :=
  (List.range ((size + 511) / 512)).map fun sector =>
    (sectorOf (startLba + BitVec.ofNat 32 sector),
      dataChunk data (512 * sector) (size - 512 * sector))

theorem dataWrites_zero (data : Nat → Byte) (startLba : Word) : dataWrites data startLba 0 = [] :=
  rfl

theorem dataWrites_chunk (data : Nat → Byte) (startLba : Word) {size : Nat} (more : 0 < size) :
    dataWrites data startLba size =
      (sectorOf startLba, dataChunk data 0 size) ::
        dataWrites (fun index => data (512 + index)) (startLba + 1) (size - 512) := by
  have sectors : (size + 511) / 512 = (size - 512 + 511) / 512 + 1 := by omega
  rw [dataWrites, sectors, List.range_succ_eq_map, List.map_cons, List.map_map, dataWrites]
  congr 1
  · simp
  · apply List.map_congr_left
    intro sector _
    have address : startLba + BitVec.ofNat 32 (sector + 1) =
        startLba + 1 + BitVec.ofNat 32 sector := by bv_omega
    have chunk : dataChunk data (512 * (sector + 1)) (size - 512 * (sector + 1)) =
        dataChunk (fun index => data (512 + index)) (512 * sector)
          (size - 512 - 512 * sector) := by
      funext index
      rw [dataChunk, dataChunk, show size - 512 * (sector + 1) = size - 512 - 512 * sector by omega,
        show 512 * (sector + 1) + index.val = 512 + (512 * sector + index.val) by omega]
    rw [Function.comp_apply, Nat.succ_eq_add_one, address, chunk]

theorem dataChunk_of_le (data : Nat → Byte) (offset : Nat) {chunk : Nat} (whole : 512 ≤ chunk) :
    dataChunk data offset chunk = dataChunk data offset 512 := by
  funext index
  rw [dataChunk, dataChunk, if_pos (by omega), if_pos index.isLt]

section Reliable

variable {drive : Drive} (reliable : drive.Reliable)
include reliable

theorem writeLoop_reliable (data : Nat → Byte) {fuel : Nat} {remaining : Word}
    (enough : remaining.toNat ≤ fuel) (lba : Word) (offset : Nat) (disk : Disk) :
    ∃ after, writeLoop drive data fuel remaining lba offset disk = (true, after) ∧
      Written (dataWrites (fun index => data (offset + index)) lba remaining.toNat) disk after := by
  induction fuel generalizing remaining lba offset disk with
  | zero =>
      refine ⟨disk, rfl, ?_⟩
      rw [Nat.le_zero.mp enough, dataWrites_zero]
      exact .refl _
  | succ fuel ih =>
      by_cases more : 0 < remaining
      · have positive : 0 < remaining.toNat := BitVec.lt_def.mp more
        obtain ⟨chunk, chunk_eq⟩ : ∃ chunk : Word,
            chunk = if remaining > 512 then 512 else remaining := ⟨_, rfl⟩
        have chunk_value : chunk.toNat = min 512 remaining.toNat := by
          rw [chunk_eq]
          split <;> bv_omega
        have rest_value : (remaining - chunk).toNat = remaining.toNat - 512 := by bv_omega
        obtain ⟨middle, write, one⟩ := ataWriteSector_written reliable lba
          (dataChunk data offset chunk.toNat) disk
        obtain ⟨after, step, two⟩ := ih (by omega : (remaining - chunk).toNat ≤ fuel) (lba + 1)
          (offset + chunk.toNat) middle
        refine ⟨after, ?_, ?_⟩
        · simp only [writeLoop, more, ↓reduceIte, ← chunk_eq, write, step]
        · have first : dataChunk data offset chunk.toNat =
              dataChunk (fun index => data (offset + index)) 0 remaining.toNat := by
            by_cases whole : 512 ≤ remaining.toNat
            · rw [dataChunk_of_le _ _ whole, chunk_value, Nat.min_eq_left whole]
              unfold dataChunk
              simp only [Nat.zero_add]
            · rw [chunk_value, Nat.min_eq_right (by omega)]
              unfold dataChunk
              simp only [Nat.zero_add]
          have second : dataWrites (fun index => data (offset + chunk.toNat + index)) (lba + 1)
              (remaining - chunk).toNat =
                dataWrites (fun index => data (offset + (512 + index))) (lba + 1)
                  (remaining.toNat - 512) := by
            rw [rest_value]
            by_cases whole : 512 ≤ remaining.toNat
            · simp only [chunk_value, Nat.min_eq_left whole, Nat.add_assoc]
            · rw [show remaining.toNat - 512 = 0 by omega, dataWrites_zero, dataWrites_zero]
          rw [dataWrites_chunk _ _ positive, ← first, ← second]
          exact one.cons two
      · have none_left : remaining.toNat = 0 := by
          rw [BitVec.lt_def] at more
          simpa using more
        refine ⟨disk, ?_, ?_⟩
        · simp only [writeLoop, more, ↓reduceIte]
        · rw [none_left, dataWrites_zero]
          exact .refl _

end Reliable

end MxOS.Fs
