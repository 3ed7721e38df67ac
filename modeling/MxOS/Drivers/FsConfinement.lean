import MxOS.Drivers.FsInvariant

/-! # Which sectors the file system writes

Directory and bitmap may hold anything here, and any transfer may fail. The sectors of the
directory and of the bitmap are fixed; the data of a file goes to the run the call has
found in the bitmap, so that it stays in the data area and overwrites no sector marked as
used.
-/

namespace MxOS.Fs

open ByteMemory Ata WriteLog

/-- Between the two disks only sectors of the given kind were written. -/
def Confined (permitted : Lba28 → Prop) (before after : Disk) : Prop :=
  ∃ writes, Written writes before after ∧ ∀ write ∈ writes, permitted write.1

section Confined

variable {permitted : Lba28 → Prop} {first second third : Disk}

theorem Confined.refl (disk : Disk) : Confined permitted disk disk :=
  ⟨[], .refl disk, fun _ member => nomatch member⟩

theorem Confined.trans (one : Confined permitted first second)
    (two : Confined permitted second third) : Confined permitted first third := by
  obtain ⟨writes₁, written₁, inside₁⟩ := one
  obtain ⟨writes₂, written₂, inside₂⟩ := two
  refine ⟨writes₁ ++ writes₂, written₁.trans written₂, fun write member => ?_⟩
  rcases List.mem_append.mp member with here | here
  · exact inside₁ write here
  · exact inside₂ write here

theorem Confined.mono {wider : Lba28 → Prop} (confined : Confined permitted first second)
    (more : ∀ lba, permitted lba → wider lba) : Confined wider first second := by
  obtain ⟨writes, written, inside⟩ := confined
  exact ⟨writes, written, fun write member => more _ (inside write member)⟩

/-- A sector that may not be written keeps its content. -/
theorem Confined.sectors (confined : Confined permitted first second) {lba : Lba28}
    (forbidden : ¬ permitted lba) : second.sectors lba = first.sectors lba := by
  obtain ⟨writes, written, inside⟩ := confined
  rw [written.sectors]
  apply replay_of_forall_ne
  rintro write member rfl
  exact forbidden (inside write member)

end Confined

variable (drive : Drive) {permitted : Lba28 → Prop}

/-! ### Transfers -/

/-- A disk on which no sector was written. -/
theorem Confined.unwritten {before after : Disk} (sectors : after.sectors = before.sectors)
    (log : after.writes = before.writes) : Confined permitted before after :=
  ⟨[], ⟨sectors, log.trans (List.append_nil _).symm⟩, fun _ member => nomatch member⟩

theorem poll_confined (awaited : Byte → Bool) (timeout : Nat) (disk : Disk) :
    Confined permitted disk (poll drive awaited timeout disk).2 := by
  obtain ⟨polls, after⟩ := poll_disk drive awaited timeout disk
  rw [after]
  exact .unwritten rfl rfl

theorem ataWaitBsyClear_confined (disk : Disk) :
    Confined permitted disk (ataWaitBsyClear drive disk).2 := poll_confined drive ..

theorem ataWaitReady_confined (disk : Disk) :
    Confined permitted disk (ataWaitReady drive disk).2 := poll_confined drive ..

theorem ataReadSectorOnce_confined (lba : Word) (disk : Disk) :
    Confined permitted disk (ataReadSectorOnce drive lba disk).2 := by
  have idle := @ataWaitBsyClear_confined drive permitted disk
  unfold ataReadSectorOnce
  generalize ataWaitBsyClear drive disk = answer at idle ⊢
  rcases answer with ⟨_ | _, selected⟩
  · exact idle
  · have issued : Confined permitted selected
        { selected with reads := selected.reads ++ [(selectSector lba).address] } :=
      .unwritten rfl rfl
    have ready := @ataWaitReady_confined drive permitted
      { selected with reads := selected.reads ++ [(selectSector lba).address] }
    simp only
    generalize ataWaitReady drive _ = answer at ready ⊢
    rcases answer with ⟨_ | _, after⟩
    · exact (idle.trans issued).trans ready
    · exact (idle.trans issued).trans ready

theorem ataReadSector_confined (lba : Word) (disk : Disk) :
    Confined permitted disk (ataReadSector drive lba disk).2 := by
  unfold ataReadSector
  induction ataMaxRetries generalizing disk with
  | zero => exact .refl disk
  | succ attempts ih =>
      have once := @ataReadSectorOnce_confined drive permitted lba disk
      rw [readAttempts]
      generalize ataReadSectorOnce drive lba disk = answer at once ⊢
      rcases answer with ⟨_ | buffer, after⟩
      · exact once.trans (ih after)
      · exact once

theorem ataWriteSectorOnce_confined {lba : Word} (allowed : permitted (sectorOf lba))
    (buffer : Sector) (disk : Disk) :
    Confined permitted disk (ataWriteSectorOnce drive lba buffer disk).2 := by
  have idle := @ataWaitBsyClear_confined drive permitted disk
  unfold ataWriteSectorOnce
  generalize ataWaitBsyClear drive disk = answer at idle ⊢
  rcases answer with ⟨_ | _, selected⟩
  · exact idle
  · have ready := @ataWaitReady_confined drive permitted selected
    simp only
    generalize ataWaitReady drive selected = answer at ready ⊢
    rcases answer with ⟨_ | _, listening⟩
    · exact idle.trans ready
    · have written : Confined permitted listening
          { listening with
            sectors := Function.update listening.sectors (selectSector lba).address buffer
            writes := listening.writes ++ [((selectSector lba).address, buffer)] } := by
        rw [selectSector_address]
        refine ⟨[(sectorOf lba, buffer)], ⟨rfl, rfl⟩, fun write member => ?_⟩
        rw [List.mem_singleton.mp member]
        exact allowed
      exact ((idle.trans ready).trans written).trans (ataWaitBsyClear_confined drive _)

theorem ataWriteSector_confined {lba : Word} (allowed : permitted (sectorOf lba))
    (buffer : Sector) (disk : Disk) :
    Confined permitted disk (ataWriteSector drive lba buffer disk).2 := by
  unfold ataWriteSector
  induction ataMaxRetries generalizing disk with
  | zero => exact .refl disk
  | succ attempts ih =>
      have once := ataWriteSectorOnce_confined drive allowed buffer disk
      rw [writeAttempts]
      generalize ataWriteSectorOnce drive lba buffer disk = answer at once ⊢
      rcases answer with ⟨_ | _, after⟩
      · exact once.trans (ih after)
      · exact once

/-! ### Directory and bitmap -/

/-- A sector of the directory or the one of the bitmap. -/
def Metadata (lba : Lba28) : Prop :=
  (∃ sector < fsRootSectors, lba = sectorOf (rootSectorLba sector)) ∨ lba = sectorOf fsBitmapLba

theorem rootLoadLoop_confined (sectors : List Nat) (raw : Nat → Byte) (disk : Disk) :
    Confined permitted disk (rootLoadLoop drive sectors raw disk).2.2 := by
  induction sectors generalizing raw disk with
  | nil => exact .refl disk
  | cons sector rest ih =>
      have read := @ataReadSector_confined drive permitted (rootSectorLba sector) disk
      rw [rootLoadLoop]
      generalize ataReadSector drive (rootSectorLba sector) disk = answer at read ⊢
      rcases answer with ⟨_ | buffer, after⟩
      · exact read
      · exact read.trans (ih _ after)

theorem rootSaveLoop_confined (raw : Nat → Byte) {sectors : List Nat}
    (inside : ∀ sector ∈ sectors, sector < fsRootSectors) (disk : Disk) :
    Confined Metadata disk (rootSaveLoop drive raw sectors disk).2 := by
  induction sectors generalizing disk with
  | nil => exact .refl disk
  | cons sector rest ih =>
      have allowed : Metadata (sectorOf (rootSectorLba sector)) :=
        Or.inl ⟨sector, inside sector (List.mem_cons_self ..), rfl⟩
      have saved := ataWriteSector_confined drive allowed (saveChunk raw sector) disk
      rw [rootSaveLoop]
      generalize ataWriteSector drive (rootSectorLba sector) _ disk = answer at saved ⊢
      rcases answer with ⟨_ | _, after⟩
      · exact saved
      · exact saved.trans
          (ih (fun later member => inside later (List.mem_cons_of_mem _ member)) after)

theorem fsRootSave_confined (fs : State) :
    Confined Metadata fs.disk (fsRootSave drive fs).2.disk :=
  rootSaveLoop_confined drive fs.root.raw (fun _ member => List.mem_range.mp member) fs.disk

theorem bitmapPersist_confined (fs : State) :
    Confined Metadata fs.disk (bitmapPersist drive fs).disk :=
  ataWriteSector_confined drive (Or.inr rfl) fs.bitmap fs.disk

theorem bitmapMark_confined (startLba count : Word) (used : Byte) (fs : State) :
    Confined Metadata fs.disk (bitmapMark drive startLba count used fs).disk := by
  unfold bitmapMark
  split
  · exact .refl fs.disk
  · have persisted := bitmapPersist_confined drive
      { fs with bitmap := markLoop (startLba - fsDataLba) count used fsDataSectors 0 fs.bitmap }
    exact persisted

theorem fsRootLoad_confined (fs : State) :
    Confined permitted fs.disk (fsRootLoad drive fs).2.disk := by
  have loaded := @rootLoadLoop_confined drive permitted (List.range fsRootSectors) fs.root.raw
    fs.disk
  unfold fsRootLoad
  generalize rootLoadLoop drive _ fs.root.raw fs.disk = answer at loaded ⊢
  obtain ⟨ok, raw, disk⟩ := answer
  exact loaded

theorem fsFormat_confined (fs : State) : Confined Metadata fs.disk (fsFormat drive fs).disk := by
  have persisted := bitmapPersist_confined drive
    { fs with root := formattedRoot, bitmap := fun _ => 0 }
  unfold fsFormat
  generalize bitmapPersist drive _ = blank at persisted ⊢
  exact persisted.trans (fsRootSave_confined drive blank)

theorem fsInit_confined (fs : State) : Confined Metadata fs.disk (fsInit drive fs).disk := by
  have loaded := @fsRootLoad_confined drive Metadata fs
  unfold fsInit
  generalize fsRootLoad drive fs = answer at loaded ⊢
  obtain ⟨ok, mounted⟩ := answer
  simp only
  split
  · exact loaded.trans (fsFormat_confined drive mounted)
  · have read := @ataReadSector_confined drive Metadata fsBitmapLba mounted.disk
    unfold bitmapLoad
    generalize ataReadSector drive fsBitmapLba mounted.disk = answer at read ⊢
    rcases answer with ⟨_ | buffer, after⟩
    · exact loaded.trans read
    · exact loaded.trans read

/-! ### Calls -/

theorem kprintIf_disk (verbose : Bool) (text : String) (fs : State) :
    (kprintIf verbose text fs).disk = fs.disk := by
  obtain ⟨console, printed⟩ := kprintIf_eq verbose text fs
  rw [printed]

theorem fsDeleteFileImpl_confined (name : Option CString) (verbose : Bool) (fs : State) :
    Confined Metadata fs.disk (fsDeleteFileImpl drive name verbose fs).2.disk := by
  unfold fsDeleteFileImpl
  cases usable name with
  | none =>
      rw [kprintIf_disk]
      exact .refl fs.disk
  | some name =>
      simp only
      cases fs.root.lookup name with
      | none =>
          cases verbose with
          | false => exact .refl fs.disk
          | true => exact .refl fs.disk
      | some slot =>
          have released := bitmapMark_confined drive (fs.root.files slot).startLba
            (fs.root.files slot).sizeSect 0 fs
          simp only
          generalize bitmapMark drive _ _ 0 fs = cleared at released ⊢
          have saved := fsRootSave_confined drive
            { cleared with root := cleared.root.setFile slot FileEntry.empty }
          generalize fsRootSave drive _ = answer at saved ⊢
          rcases answer with ⟨_ | _, after⟩
          all_goals
            simp only [kprintIf_disk]
            exact released.trans saved

theorem fsAddEntry_confined (name : CString) (startLba sizeSect : Word) (fs : State) :
    Confined Metadata fs.disk (fsAddEntry drive name startLba sizeSect fs).2.disk := by
  unfold fsAddEntry
  cases fs.root.freeSlot with
  | none => exact .refl fs.disk
  | some slot =>
      have saved := fsRootSave_confined drive
        { fs with
          root := fs.root.setFile slot
            (FileEntry.mk (copyName (fs.root.files slot).name name) startLba sizeSect) }
      simp only
      generalize fsRootSave drive _ = answer at saved ⊢
      rcases answer with ⟨_ | _, after⟩
      · exact saved
      · exact saved

/-- The loop writes the sectors that hold the remaining bytes. -/
theorem writeLoop_confined (data : Nat → Byte) {fuel : Nat} {remaining lba : Word}
    (allowed : ∀ sector < (remaining.toNat + 511) / 512,
      permitted (sectorOf (lba + BitVec.ofNat 32 sector))) (offset : Nat) (disk : Disk) :
    Confined permitted disk (writeLoop drive data fuel remaining lba offset disk).2 := by
  induction fuel generalizing remaining lba offset disk with
  | zero => exact .refl disk
  | succ fuel ih =>
      rw [writeLoop]
      split
      · next more =>
          have positive : 0 < remaining.toNat := BitVec.lt_def.mp more
          have here : permitted (sectorOf lba) := by
            have first := allowed 0 (by omega)
            rwa [BitVec.add_zero] at first
          have rest : ∀ sector < ((remaining -
              (if remaining > 512 then 512 else remaining)).toNat + 511) / 512,
              permitted (sectorOf (lba + 1 + BitVec.ofNat 32 sector)) := by
            intro sector inside
            have later := allowed (sector + 1) (by split at inside <;> bv_omega)
            rwa [show lba + BitVec.ofNat 32 (sector + 1) = lba + 1 + BitVec.ofNat 32 sector by
              bv_omega] at later
          simp only
          have written := ataWriteSector_confined drive here
            (dataChunk data offset (if remaining > 512 then 512 else remaining).toNat) disk
          generalize ataWriteSector drive lba _ disk = answer at written ⊢
          rcases answer with ⟨_ | _, after⟩
          · exact written
          · exact written.trans (ih rest _ after)
      · exact .refl disk

/-- A data sector that the bitmap gives as free. -/
def FreeData (bitmap : Sector) (lba : Lba28) : Prop :=
  fsDataLba.toNat ≤ lba.toNat ∧ lba.toNat < fsDataEndLba.toNat ∧
    ∀ index : Fin 512, fsDataLba.toNat + index = lba.toNat → bitmap index = 0

theorem FreeRun.freeData {bitmap : Sector} {startLba count : Word}
    (run : FreeRun bitmap startLba count) {sector : Nat} (inside : sector < count.toNat) :
    FreeData bitmap (sectorOf (startLba + BitVec.ofNat 32 sector)) := by
  obtain ⟨low, high, _, free⟩ := run
  have address : (sectorOf (startLba + BitVec.ofNat 32 sector)).toNat =
      startLba.toNat + sector := by
    rw [sectorOf]
    bv_omega
  have last : fsDataEndLba.toNat = 597 := by decide
  rw [FreeData, address, fsDataLba_toNat, last]
  exact ⟨by omega, by omega, fun index same => free index (by omega) (by omega)⟩

/-- The state in which a write looks for space, a file of the same name being removed. -/
def overwritten (drive : Drive) (name : Option CString) (fs : State) : State :=
  if fsFileExists fs name then (fsDeleteFileImpl drive name false fs).2 else fs

theorem fsWriteFileImpl_confined (name : Option CString) (data : Option (Nat → Byte))
    {sizeBytes : Word} (sized : Sized sizeBytes) (verbose : Bool) (fs : State) :
    Confined (fun lba => Metadata lba ∨ FreeData (overwritten drive name fs).bitmap lba) fs.disk
      (fsWriteFileImpl drive name data sizeBytes verbose fs).2.disk := by
  unfold fsWriteFileImpl
  cases valid : usable name with
  | none =>
      simp only [kprintIf_disk]
      exact .refl fs.disk
  | some given =>
      obtain ⟨rfl, _⟩ := usable_eq_some valid
      cases data with
      | none =>
          simp only [kprintIf_disk]
          exact .refl fs.disk
      | some data =>
          have removed : Confined Metadata fs.disk (overwritten drive (some given) fs).disk := by
            unfold overwritten
            split
            · exact fsDeleteFileImpl_confined drive (some given) false fs
            · exact .refl fs.disk
          have wider : ∀ lba, Metadata lba →
              Metadata lba ∨ FreeData (overwritten drive (some given) fs).bitmap lba :=
            fun _ => Or.inl
          simp only
          split
          · rw [kprintIf_disk]
            exact .refl fs.disk
          · rw [← overwritten]
            generalize overwritten drive (some given) fs = cleared at removed wider ⊢
            refine (removed.mono wider).trans ?_
            split
            · rw [kprintIf_disk]
              exact .refl cleared.disk
            · next found =>
                have run := bitmapFindFreeRun_freeRun
                  (by rw [sized.sectors]; have positive := sized.1; omega) found
                generalize bitmapFindFreeRun cleared.bitmap ((sizeBytes + 511) / 512) = startLba
                  at run
                have inside : ∀ sector < (sizeBytes.toNat + 511) / 512,
                    Metadata (sectorOf (startLba + BitVec.ofNat 32 sector)) ∨
                      FreeData cleared.bitmap (sectorOf (startLba + BitVec.ofNat 32 sector)) := by
                  intro sector bound
                  exact Or.inr (run.freeData (by rwa [sized.sectors]))
                have stored := @writeLoop_confined drive
                  (fun lba => Metadata lba ∨ FreeData cleared.bitmap lba) data sizeBytes.toNat
                  sizeBytes startLba inside 0 cleared.disk
                generalize writeLoop drive data _ sizeBytes startLba 0 cleared.disk = answer
                  at stored ⊢
                rcases answer with ⟨_ | _, full⟩
                · simp only [kprintIf_disk]
                  exact stored
                · have taken := bitmapMark_confined drive startLba ((sizeBytes + 511) / 512) 1
                    { cleared with disk := full }
                  simp only
                  generalize bitmapMark drive startLba _ 1 _ = noted at taken ⊢
                  have added := fsAddEntry_confined drive given startLba
                    ((sizeBytes + 511) / 512) noted
                  generalize fsAddEntry drive given startLba _ noted = answer at added ⊢
                  rcases answer with ⟨_ | _, after⟩
                  · have returned := bitmapMark_confined drive startLba
                      ((sizeBytes + 511) / 512) 0 after
                    exact stored.trans (((taken.trans added).trans returned).mono wider)
                  · simp only [kprintIf_disk]
                    exact stored.trans ((taken.trans added).mono wider)

/-! ### Runs -/

inductive Operation where
  | init
  | call (made : Call)

def Operation.perform (drive : Drive) : Operation → State → State
  | .init, fs => fsInit drive fs
  | .call made, fs => (made.perform drive fs).2

def Operation.Sized : Operation → Prop
  | .init => True
  | .call made => made.Sized

def operate (drive : Drive) (operations : List Operation) (fs : State) : State :=
  operations.foldl (fun fs operation => operation.perform drive fs) fs

/-- What every operation of a run keeps holds at its end. -/
theorem operate_invariant {drive : Drive} {Inv : State → Prop} {operations : List Operation}
    (step : ∀ operation ∈ operations, ∀ fs, Inv fs → Inv (operation.perform drive fs))
    {fs : State} (initial : Inv fs) : Inv (operate drive operations fs) := by
  induction operations generalizing fs with
  | nil => exact initial
  | cons operation rest ih =>
      exact ih (fun later member => step later (List.mem_cons_of_mem _ member))
        (step operation (List.mem_cons_self ..) fs initial)

/-- The sectors an operation may write in the given state. -/
def Operation.MayWrite (drive : Drive) (fs : State) (lba : Lba28) : Operation → Prop
  | .call (.write name _ _) | .call (.writeSilent name _ _) =>
      Metadata lba ∨ FreeData (overwritten drive name fs).bitmap lba
  | .init | .call (.delete _) | .call (.deleteSilent _) => Metadata lba

theorem Operation.confined {operation : Operation} (sized : operation.Sized) (fs : State) :
    Confined (operation.MayWrite drive fs) fs.disk (operation.perform drive fs).disk := by
  cases operation with
  | init => exact fsInit_confined drive fs
  | call made =>
      cases made with
      | write name data sizeBytes => exact fsWriteFileImpl_confined drive name data sized true fs
      | writeSilent name data sizeBytes =>
          exact fsWriteFileImpl_confined drive name data sized false fs
      | delete name => exact fsDeleteFileImpl_confined drive name true fs
      | deleteSilent name => exact fsDeleteFileImpl_confined drive name false fs

/-- A sector of the file system. -/
def OfFs (lba : Lba28) : Prop :=
  Metadata lba ∨ fsDataLba.toNat ≤ lba.toNat ∧ lba.toNat < fsDataEndLba.toNat

theorem Operation.MayWrite.ofFs {operation : Operation} {fs : State} {lba : Lba28}
    (may : operation.MayWrite drive fs lba) : OfFs lba := by
  have wider : ∀ {bitmap}, Metadata lba ∨ FreeData bitmap lba → OfFs lba :=
    Or.imp_right fun free => ⟨free.1, free.2.1⟩
  cases operation with
  | init => exact Or.inl may
  | call made =>
      cases made with
      | write name data sizeBytes => exact wider may
      | writeSilent name data sizeBytes => exact wider may
      | delete name => exact Or.inl may
      | deleteSilent name => exact Or.inl may

theorem OfFs.low {lba : Lba28} (inside : OfFs lba) : fsRootLba.toNat ≤ lba.toNat := by
  have start : fsRootLba.toNat = 81 := by decide
  rcases inside with (⟨sector, bound, rfl⟩ | rfl) | ⟨low, _⟩
  · rw [fsRootSectors_eq] at bound
    rw [rootSectorLba, sectorOf]
    bv_omega
  · decide
  · rw [fsDataLba_toNat] at low
    omega

theorem operate_confined {operations : List Operation}
    (sized : ∀ operation ∈ operations, operation.Sized) (fs : State) :
    Confined OfFs fs.disk (operate drive operations fs).disk := by
  induction operations generalizing fs with
  | nil => exact .refl fs.disk
  | cons operation rest ih =>
      have first := (Operation.confined drive (sized operation (List.mem_cons_self ..)) fs).mono
        fun _ may => may.ofFs
      exact first.trans (ih (fun later member => sized later (List.mem_cons_of_mem _ member)) _)

/-- From any content of directory and bitmap, and however the drive behaves, every operation
of a run writes only sectors of the directory, the sector of the bitmap, and, if it writes a
file, data sectors that were free when it looked for space. The sectors before those of the
file system are never written. -/
theorem disk_confined (fs : State) (operations : List Operation)
    (sized : ∀ operation ∈ operations, operation.Sized) :
    (∀ earlier operation later, operations = earlier ++ operation :: later →
      let before := operate drive earlier fs
      ∃ writes, Written writes before.disk (operation.perform drive before).disk ∧
        ∀ write ∈ writes, operation.MayWrite drive before write.1) ∧
    (∃ writes, Written writes fs.disk (operate drive operations fs).disk ∧
      ∀ write ∈ writes, OfFs write.1) ∧
    ∀ lba : Lba28, lba.toNat < fsRootLba.toNat →
      (operate drive operations fs).disk.sectors lba = fs.disk.sectors lba := by
  have confined := operate_confined drive sized fs
  refine ⟨?_, confined, fun lba below => ?_⟩
  · rintro earlier operation later rfl
    exact Operation.confined drive (sized operation (by simp)) _
  · exact confined.sectors fun inside => absurd inside.low (Nat.not_le.mpr below)

/-- A drive that answers every third poll with an error. -/
def erraticDrive : Drive where
  status := fun polls => if polls % 3 = 2 then 0x01 else 0x08

/-- The boot sector after mounting a blank disk and writing a file, with errors. -/
theorem disk_confined_erratic :
    let name : CString := ⟨[0x61], by decide⟩
    let operations := [Operation.init, .call (.write (some name) (some fun _ => 0x78) 513)]
    (operate erraticDrive operations blankBoot).disk.sectors 0 = blankBoot.disk.sectors 0 := by
  intro name operations
  have sized : ∀ operation ∈ operations, operation.Sized := by
    intro operation member
    simp only [operations, List.mem_cons, List.not_mem_nil, or_false] at member
    rcases member with rfl | rfl
    · trivial
    · exact ⟨by decide, by decide⟩
  exact (disk_confined erraticDrive blankBoot operations sized).2.2 0 (by decide)

end MxOS.Fs
