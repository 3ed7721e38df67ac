import MxOS.Drivers.FsOutcome

/-! # Files after a reboot

A write that returns 1 leaves a file that can be loaded after the next mount. The lookup
then finds the entry that was written because no other entry has its name: entries of
equal names are possible only for names that are cut to 23 bytes.
-/

namespace MxOS.Fs

open ByteMemory Ata WriteLog

variable {root : RootDirectory} {bitmap : Sector}

/-! ### Names that are not cut -/

section Unique

variable {query : List Byte} (short : query.length < 23)
include short

theorem RootDirectory.Unique.store (unique : root.Unique query) {name : CString}
    (missing : name.bytes = query → root.lookup name = none) (bitmap : Sector)
    (data : Nat → Byte) (sizeBytes : Word) :
    (Plan.store root bitmap name data sizeBytes).root.Unique query := by
  obtain ⟨_, same, _⟩ | ⟨slot, _, _, _, startLba, sizeSect, stored⟩ :=
    Plan.store_root root bitmap name data sizeBytes
  · rw [same]
    exact unique
  · rw [stored]
    refine unique.setFile fun cut other live same => ?_
    rw [storedBytes_copyName] at cut
    have whole : name.bytes = query := by
      have length := congrArg List.length cut
      rw [List.length_take] at length
      rwa [List.take_of_length_le (by omega)] at cut
    exact lookup_eq_none (missing whole) other live (same.trans whole.symm)

theorem RootDirectory.Unique.plan (unique : root.Unique query) (request : Request)
    (bitmap : Sector) : (request.plan root bitmap).root.Unique query := by
  cases request with
  | invalid => exact unique
  | write name data sizeBytes =>
      apply RootDirectory.Unique.store short (unique.delete bitmap name)
      rintro rfl
      exact unique.lookup_delete bitmap
  | delete name => exact unique.delete bitmap name

/-- In every state reached without disk errors, at most one entry has a given name of less than
23 bytes. -/
theorem operate_unique {drive : Drive} (reliable : drive.Reliable) {boot : State}
    (fresh : FreshDisk boot.disk.sectors) {operations : List Operation}
    (sized : ∀ operation ∈ operations, operation.Sized) :
    (operate drive operations (fsInit drive boot)).root.Unique query := by
  have both : Undamaged (operate drive operations (fsInit drive boot)) ∧
      (operate drive operations (fsInit drive boot)).root.Unique query := by
    apply @operate_invariant drive (fun fs => Undamaged fs ∧ fs.root.Unique query)
    · rintro operation member fs ⟨undamaged, unique⟩
      refine ⟨undamaged.perform reliable (sized operation member), ?_⟩
      cases operation with
      | init =>
          rw [Operation.perform, (undamaged.synced.fsInit reliable rfl).1]
          exact unique
      | call made =>
          rw [Operation.perform, (perform_performs reliable made fs).root]
          exact unique.plan short made.request fs.bitmap
    · refine ⟨⟨fsInit_consistent reliable fresh, fsInit_synced reliable boot⟩, ?_⟩
      exact fun first _ live => absurd live (not_live_of_empty ((fsInit_blank reliable fresh).1 _))
  exact both.2

end Unique

/-! ### Writing, mounting and loading -/

/-- An entry of a name that was missing is the one found. -/
theorem RootDirectory.lookup_setFile {name : CString} (missing : root.lookup name = none)
    (slot : Fin 32) {entry : FileEntry} (valid : validName entry.name = true)
    (named : storedBytes entry.name = name.bytes) :
    (root.setFile slot entry).lookup name = some slot := by
  have live : (root.setFile slot entry).Live slot := by
    unfold RootDirectory.Live
    rw [root.setFile_self, valid]
  have found : (root.setFile slot entry).lookup name ≠ none :=
    lookup_ne_none live (by rw [root.setFile_self, named])
  obtain ⟨other, found⟩ := Option.ne_none_iff_exists'.mp found
  obtain ⟨live', same⟩ := lookup_eq_some found
  by_cases here : other = slot
  · rw [found, here]
  · rw [RootDirectory.live_setFile_of_ne here] at live'
    rw [root.setFile_of_ne _ here] at same
    exact absurd same (lookup_eq_none missing other live')

/-- A file that was stored is found, with its content in its sectors. -/
theorem Plan.store_found {name : CString} (nonempty : name.bytes ≠ [])
    (short : name.bytes.length ≤ 23) (missing : root.lookup name = none) {data : Nat → Byte}
    {sizeBytes : Word} (sized : Sized sizeBytes)
    (ok : (Plan.store root bitmap name data sizeBytes).ok = true) (sectors : Lba28 → Sector) :
    ∃ slot, (Plan.store root bitmap name data sizeBytes).root.lookup name = some slot ∧
      Holds (replay (Plan.store root bitmap name data sizeBytes).writes sectors)
        ((Plan.store root bitmap name data sizeBytes).root.files slot)
        (padded data sizeBytes.toNat) := by
  obtain rejected | ⟨startLba, run, ⟨_, full⟩ | ⟨slot, _, stored⟩⟩ :=
    @Plan.store_cases root bitmap name data sizeBytes sized
  · exact absurd (ok.symm.trans (congrArg Plan.ok rejected)) Bool.true_eq_false_eq_False
  · exact absurd (ok.symm.trans (congrArg Plan.ok full)) Bool.true_eq_false_eq_False
  · rw [stored]
    refine ⟨slot, root.lookup_setFile missing slot (validName_copyName _ nonempty) ?_, ?_⟩
    · rw [storedBytes_copyName, List.take_of_length_le short]
    · simp only [root.setFile_self, List.append_assoc]
      exact dataWrites_append_holds run sized _ (fun _ member => mem_saves member) sectors

/-- What a write that returns 1 leaves is loaded after the next mount. -/
theorem write_survives_reboot {drive : Drive} (reliable : drive.Reliable) {fs : State}
    (undamaged : Undamaged fs) {name : CString} (nonempty : name.bytes ≠ [])
    (short : name.bytes.length ≤ 23) (unique : fs.root.Unique name.bytes) {data : Nat → Byte}
    {sizeBytes : Word} (sized : Sized sizeBytes)
    (written : (fsWriteFileSilent drive (some name) (some data) sizeBytes fs).1 = true)
    {memory : State}
    (same : memory.disk.sectors =
      (fsWriteFileSilent drive (some name) (some data) sizeBytes fs).2.disk.sectors)
    (dest : Nat → Byte) {maxSize : Word}
    (fits : (padded data sizeBytes.toNat).length ≤ maxSize.toNat) :
    let mounted := fsInit drive memory
    let loaded := fsLoadFile drive (some name) (some dest) maxSize mounted
    fsFileExists mounted (some name) = true ∧ loaded.ok = true ∧
      loaded.outSize.map BitVec.toNat = some (padded data sizeBytes.toNat).length ∧
      ∀ index, loaded.dest index = (padded data sizeBytes.toNat)[index]?.getD (dest index) := by
  intro mounted loaded
  have nonzero : sizeBytes ≠ 0 := by
    rintro rfl
    exact absurd sized.1 (by decide)
  have performs := @fsWriteFileImpl_performs drive reliable _ name data sizeBytes
    (usable_some nonempty) nonzero false fs
  have after : Undamaged (fsWriteFileSilent drive (some name) (some data) sizeBytes fs).2 :=
    @Undamaged.perform drive reliable fs undamaged (.call (.writeSilent (some name) (some data)
      sizeBytes)) sized
  rw [← fsWriteFileSilent] at performs
  generalize fsWriteFileSilent drive (some name) (some data) sizeBytes fs = result
    at written same performs after
  obtain ⟨slot, found, holds⟩ := Plan.store_found nonempty short
    (unique.lookup_delete fs.bitmap) sized (performs.ok.symm.trans written)
    (replay (Plan.delete fs.root fs.bitmap name).writes fs.disk.sectors)
  obtain ⟨root, bitmap⟩ := after.synced.fsInit reliable same
  have sectors : mounted.disk.sectors = result.2.disk.sectors := by
    have magic : (diskRoot memory.disk.sectors).magic = fsMagic := by
      rw [same, after.synced.root, after.synced.magic]
    obtain ⟨disk, mounts, unwritten⟩ := fsInit_mounts reliable magic
    rw [show mounted = _ from mounts, ← same]
    exact unwritten.sectors
  have found' : mounted.root.lookup name = some slot := by
    rw [root, performs.root]
    exact found
  have consistent : Consistent mounted.root mounted.bitmap := by
    rw [root, bitmap]
    exact after.consistent
  have holds' : Holds mounted.disk.sectors (mounted.root.files slot)
      (padded data sizeBytes.toNat) := by
    rw [sectors, performs.disk.sectors, root, performs.root]
    rw [← replay_append] at holds
    exact holds
  refine ⟨?_, fsLoadFile_holds nonempty reliable found' consistent holds' dest fits⟩
  rw [fsFileExists_eq nonempty, found', Option.isSome_some]

end MxOS.Fs
