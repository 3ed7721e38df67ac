import MxOS.Drivers.FsPlan

/-! # Rebooting

Every path through the operations saves what it changes: when a call returns, the
directory and the bitmap on disk are those in memory. Mounting the disk again
therefore restores them, whatever the memory holds after a reset.
-/

namespace MxOS.Fs

open ByteMemory Ata WriteLog

/-- The disk copies are the memory copies. -/
structure Synced (fs : State) : Prop where
  root : diskRoot fs.disk.sectors = fs.root
  bitmap : diskBitmap fs.disk.sectors = fs.bitmap
  magic : fs.root.magic = fsMagic

/-- Carrying out the plan on a disk with these copies leaves the plan's copies on it. -/
def Plan.Persists (plan : Plan) (root : RootDirectory) (bitmap : Sector) : Prop :=
  ∀ sectors, diskRoot sectors = root → diskBitmap sectors = bitmap →
    diskRoot (replay plan.writes sectors) = plan.root ∧
      diskBitmap (replay plan.writes sectors) = plan.bitmap

variable {root : RootDirectory} {bitmap : Sector}

theorem Plan.reject_persists : (Plan.reject root bitmap).Persists root bitmap :=
  fun _ sameRoot sameBitmap => ⟨sameRoot, sameBitmap⟩

theorem Plan.Persists.andThen {first : Plan} {second : RootDirectory → Sector → Plan}
    (one : first.Persists root bitmap)
    (two : (second first.root first.bitmap).Persists first.root first.bitmap) :
    (first.andThen second).Persists root bitmap := by
  intro sectors sameRoot sameBitmap
  obtain ⟨rootAfter, bitmapAfter⟩ := one sectors sameRoot sameBitmap
  rw [Plan.andThen, replay_append]
  exact two _ rootAfter bitmapAfter

theorem diskBitmap_rootWrites (root : RootDirectory) (sectors : Lba28 → Sector) :
    diskBitmap (replay (rootWrites root) sectors) = diskBitmap sectors :=
  diskBitmap_rootWrites_take root fsRootSectors sectors

theorem Plan.erase_persists (slot : Fin 32) :
    (Plan.erase root bitmap slot).Persists root bitmap := by
  intro sectors sameRoot sameBitmap
  by_cases low : (root.files slot).startLba < fsDataLba
  · simp only [Plan.erase, low, ↓reduceIte, diskRoot_rootWrites, diskBitmap_rootWrites,
      sameBitmap, and_self]
  · simp only [Plan.erase, low, ↓reduceIte, replay_append,
      diskRoot_rootWrites, diskBitmap_rootWrites, diskBitmap_bitmapWrite, and_self]

theorem Plan.delete_persists (name : CString) :
    (Plan.delete root bitmap name).Persists root bitmap := by
  unfold Plan.delete
  cases root.lookup name with
  | none => exact Plan.reject_persists
  | some slot => exact Plan.erase_persists slot

/-- File contents are written away from the directory and the bitmap. -/
theorem mem_contents {bitmap : Sector} {count : Word} {data : Nat → Byte} {sizeBytes : Word}
    (found : bitmapFindFreeRun bitmap count ≠ 0) {entry : Lba28 × Sector}
    (member : entry ∈ dataWrites data (bitmapFindFreeRun bitmap count) sizeBytes.toNat) :
    86 ≤ entry.1.toNat := by
  obtain ⟨runStart, below, _, start⟩ := bitmapFindFreeRun_bounds found
  rw [fsDataLba_toNat] at start
  rw [fsDataSectors_eq] at below
  exact mem_dataWrites (by omega) (by omega) sizeBytes.isLt member

theorem Plan.store_persists (name : CString) (data : Nat → Byte) (sizeBytes : Word) :
    (Plan.store root bitmap name data sizeBytes).Persists root bitmap := by
  intro sectors sameRoot sameBitmap
  by_cases full : bitmapFindFreeRun bitmap ((sizeBytes + 511) / 512) = 0
  · simp only [Plan.store, full, ↓reduceIte]
    exact Plan.reject_persists sectors sameRoot sameBitmap
  · have rootKept : diskRoot (replay (dataWrites data
        (bitmapFindFreeRun bitmap ((sizeBytes + 511) / 512)) sizeBytes.toNat) sectors) = root := by
      rw [diskRoot_replay (fun entry member => Or.inr ?_), sameRoot]
      exact Nat.le_trans (by decide) (mem_contents full member)
    cases free : root.freeSlot with
    | none =>
        simp only [Plan.store, full, ↓reduceIte, free, replay_append, diskRoot_bitmapWrite,
          rootKept, diskBitmap_bitmapWrite, and_self]
    | some slot =>
        simp only [Plan.store, full, ↓reduceIte, free, replay_append, diskRoot_rootWrites,
          diskBitmap_rootWrites, diskBitmap_bitmapWrite, and_self]

theorem Request.plan_persists (request : Request) :
    (request.plan root bitmap).Persists root bitmap := by
  cases request with
  | invalid => exact Plan.reject_persists
  | write name data sizeBytes =>
      exact (Plan.delete_persists name).andThen (Plan.store_persists name data sizeBytes)
  | delete name => exact Plan.delete_persists name

/-! ### The magic number -/

theorem Plan.delete_magic (name : CString) :
    (Plan.delete root bitmap name).root.magic = root.magic := by
  unfold Plan.delete
  cases root.lookup name with
  | none => rfl
  | some slot =>
      simp only [Plan.erase]
      split <;> rfl

theorem Plan.store_magic (name : CString) (data : Nat → Byte) (sizeBytes : Word) :
    (Plan.store root bitmap name data sizeBytes).root.magic = root.magic := by
  simp only [Plan.store]
  split
  · rfl
  · cases root.freeSlot with
    | none => rfl
    | some slot => rfl

theorem Request.plan_magic (request : Request) :
    (request.plan root bitmap).root.magic = root.magic := by
  cases request with
  | invalid => rfl
  | write name data sizeBytes =>
      exact (Plan.store_magic name data sizeBytes).trans (Plan.delete_magic name)
  | delete name => exact Plan.delete_magic name

/-! ### Runs -/

section Reliable

variable {drive : Drive} (reliable : drive.Reliable)
include reliable

theorem perform_synced (call : Call) {fs : State} (synced : Synced fs) :
    Synced (call.perform drive fs).2 := by
  have performs := perform_performs reliable call fs
  obtain ⟨rootAfter, bitmapAfter⟩ := call.request.plan_persists fs.disk.sectors synced.root
    synced.bitmap
  refine ⟨?_, ?_, ?_⟩
  · rw [performs.disk.sectors, rootAfter, performs.root]
  · rw [performs.disk.sectors, bitmapAfter, performs.bitmap]
  · rw [performs.root, Request.plan_magic, synced.magic]

theorem run_synced (calls : List Call) {fs : State} (synced : Synced fs) :
    Synced (run drive calls fs) := by
  induction calls generalizing fs with
  | nil => exact synced
  | cons call rest ih => exact ih (perform_synced reliable call synced)

theorem fsInit_synced (boot : State) : Synced (fsInit drive boot) := by
  by_cases magic : (diskRoot boot.disk.sectors).magic = fsMagic
  · obtain ⟨after, mounted, written⟩ := fsInit_mounts reliable magic
    have same : after.sectors = boot.disk.sectors := written.sectors
    rw [mounted]
    exact ⟨congrArg diskRoot same, congrArg diskBitmap same, magic⟩
  · obtain ⟨after, formatted, written⟩ := fsInit_formats reliable magic
    rw [formatted]
    refine ⟨?_, ?_, rfl⟩
    · rw [written.sectors, replay_append, diskRoot_rootWrites]
    · rw [written.sectors, replay_append, diskBitmap_rootWrites,
        diskBitmap_bitmapWrite]

/-- Mounting the disk of a synchronised state restores the state's copies. -/
theorem Synced.fsInit {fs memory : State} (synced : Synced fs)
    (same : memory.disk.sectors = fs.disk.sectors) :
    (fsInit drive memory).root = fs.root ∧ (fsInit drive memory).bitmap = fs.bitmap := by
  have magic : (diskRoot memory.disk.sectors).magic = fsMagic := by
    rw [same, synced.root, synced.magic]
  obtain ⟨after, mounted, _⟩ := fsInit_mounts reliable magic
  rw [mounted, same]
  exact ⟨synced.root, synced.bitmap⟩

/-- Rebooting after any calls restores the directory and the bitmap: the disk carries every
byte of both when a call returns, and loading a saved directory is the identity. The first
mount may find any disk, and a reset may leave anything in memory. -/
theorem reboot_transparent (boot : State) (calls : List Call) (memoryRoot : RootDirectory)
    (memoryBitmap : Sector) :
    let fs := run drive calls (Fs.fsInit drive boot)
    let rebooted := Fs.fsInit drive { fs with root := memoryRoot, bitmap := memoryBitmap }
    rebooted.root = fs.root ∧ rebooted.bitmap = fs.bitmap ∧
      (∀ offset < rootSize,
        fs.disk.sectors (sectorOf (rootSectorLba (offset / 512))) (Fin.ofNat 512 offset) =
          fs.root.raw offset) ∧
      fs.disk.sectors (sectorOf fsBitmapLba) = fs.bitmap ∧
      ∀ saved : State,
        (fsRootLoad drive { (fsRootSave drive saved).2 with root := memoryRoot }).2.root =
          saved.root := by
  intro fs rebooted
  have synced : Synced fs := run_synced reliable calls (fsInit_synced reliable boot)
  have restored : rebooted.root = fs.root ∧ rebooted.bitmap = fs.bitmap :=
    synced.fsInit reliable rfl
  refine ⟨restored.1, restored.2, ?_, synced.bitmap, ?_⟩
  · intro offset bound
    rw [← synced.root, diskRoot, RootDirectory.raw_ofRaw _ bound]
  · intro saved
    obtain ⟨disk, save, written⟩ := fsRootSave_reliable reliable saved
    obtain ⟨after, load, _⟩ := fsRootLoad_reliable reliable
      { saved with root := memoryRoot, disk := disk }
    rw [save, load]
    exact (congrArg diskRoot written.sectors).trans (diskRoot_rootWrites _ _)

end Reliable

theorem reboot_transparent_after_write :
    let name : CString := ⟨[0x61], by decide⟩
    let call := Call.write (some name) (some fun _ => 0x78) 513
    let fs := run readyDrive [call] (Fs.fsInit readyDrive blankBoot)
    (call.perform readyDrive (Fs.fsInit readyDrive blankBoot)).1 = true ∧
      (Fs.fsInit readyDrive { fs with root := formattedRoot, bitmap := fun _ => 1 }).root =
        fs.root :=
  ⟨rfl, (reboot_transparent readyDrive_reliable blankBoot _ formattedRoot _).1⟩

end MxOS.Fs
