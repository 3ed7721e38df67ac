import MxOS.Drivers.FsCrash
import MxOS.Drivers.FsRefinement
import MxOS.Drivers.FsRollback

/-! # Which writes succeed, and what a failed one leaves

A write first removes a file of the same name. It then succeeds if and only if there is
a run of free sectors and a free directory entry, since the search finds every run. A
write that fails leaves everything as it was, except that the removed file is not put
back.
-/

namespace MxOS.Fs

open ByteMemory Ata WriteLog

variable {root : RootDirectory} {bitmap : Sector}

/-! ### States without errors -/

/-- The invariants of runs without disk errors. -/
structure Undamaged (fs : State) : Prop where
  consistent : Consistent fs.root fs.bitmap
  synced : Synced fs

section Reliable

variable {drive : Drive} (reliable : drive.Reliable)
include reliable

theorem Undamaged.perform {fs : State} (undamaged : Undamaged fs) {operation : Operation}
    (sized : operation.Sized) : Undamaged (operation.perform drive fs) := by
  cases operation with
  | init =>
      obtain ⟨root, bitmap⟩ := undamaged.synced.fsInit reliable rfl
      refine ⟨?_, fsInit_synced reliable fs⟩
      rw [Operation.perform, root, bitmap]
      exact undamaged.consistent
  | call made =>
      have performs := perform_performs reliable made fs
      refine ⟨?_, perform_synced reliable made undamaged.synced⟩
      rw [Operation.perform, performs.root, performs.bitmap]
      exact consistent_maintained.plan (Call.request_sized sized) undamaged.consistent

/-- Every state reached from a fresh disk by calls and further mounts. -/
theorem operate_undamaged {boot : State} (fresh : FreshDisk boot.disk.sectors)
    {operations : List Operation} (sized : ∀ operation ∈ operations, operation.Sized) :
    Undamaged (operate drive operations (fsInit drive boot)) :=
  operate_invariant
    (fun operation member _ undamaged => undamaged.perform reliable (sized operation member))
    ⟨fsInit_consistent reliable fresh, fsInit_synced reliable boot⟩

end Reliable

/-! ### The search for space -/

/-- The given number of consecutive data sectors are free, somewhere. -/
def HasRun (bitmap : Sector) (count : Nat) : Prop :=
  ∃ first, first + count ≤ fsDataSectors - 1 ∧
    ∀ offset < count, bitmap (Fin.ofNat 512 (first + offset)) = 0

theorem HasRun.mono {count fewer : Nat} (has : HasRun bitmap count) (less : fewer ≤ count) :
    HasRun bitmap fewer := by
  obtain ⟨first, inside, free⟩ := has
  exact ⟨first, by omega, fun offset below => free offset (by omega)⟩

/-- The given number of data sectors are free from one of them on. -/
def FreeFrom (bitmap : Sector) (count first : Nat) : Prop :=
  first + count ≤ fsDataSectors - 1 ∧
    ∀ index : Fin 512, first ≤ index → index < first + count → bitmap index = 0

theorem freeFrom_iff {count first : Nat} :
    FreeFrom bitmap count first ↔ first + count ≤ fsDataSectors - 1 ∧
      RunScan.IsRun (fun index => bitmap (Fin.ofNat 512 index) = 0) count first := by
  rw [FreeFrom, fsDataSectors_eq]
  refine and_congr_right fun inside => ?_
  have index_eq : ∀ index : Nat, index < 512 → (Fin.ofNat 512 index).val = index :=
    fun index below => Nat.mod_eq_of_lt below
  constructor
  · intro free offset below
    have same := index_eq (first + offset) (by omega)
    apply decide_eq_true
    apply free
    · rw [same]
      exact Nat.le_add_right ..
    · rw [same]
      exact Nat.add_lt_add_left below _
  · intro run index after before
    have free := of_decide_eq_true (run (index - first) (by omega))
    rwa [Nat.add_sub_cancel' after, Fin.ofNat_val_eq_self] at free

theorem hasRun_iff {count : Nat} : HasRun bitmap count ↔ ∃ first, FreeFrom bitmap count first := by
  refine exists_congr fun first => ?_
  rw [freeFrom_iff]
  refine and_congr_right fun _ => forall₂_congr fun offset _ => ?_
  exact decide_eq_true_iff.symm

/-- The search returns the lowest run, or 0 if there is none. -/
theorem bitmapFindFreeRun_spec (bitmap : Sector) {count : Word} (positive : 0 < count.toNat) :
    (bitmapFindFreeRun bitmap count = 0 ∧ ∀ first, ¬ FreeFrom bitmap count.toNat first) ∨
      ∃ first, (bitmapFindFreeRun bitmap count).toNat = fsDataLba.toNat + first ∧
        IsLeast {other | FreeFrom bitmap count.toNat other} first := by
  have spec := @RunScan.scan_spec _ _ _ _ _ (fsDataSectors - 1) positive
    (RunScan.Scanned.initial positive :
      RunScan.Scanned (fun index => bitmap (Fin.ofNat 512 index) = 0) count.toNat 0 0 0)
  unfold bitmapFindFreeRun
  cases scanned : RunScan.scan (fun index => bitmap (Fin.ofNat 512 index) = 0) count.toNat
      (fsDataSectors - 1) 0 0 0 with
  | none =>
      rw [scanned, Nat.zero_add] at spec
      refine Or.inl ⟨rfl, fun first free => ?_⟩
      obtain ⟨inside, run⟩ := freeFrom_iff.mp free
      exact absurd (spec first run) (Nat.not_lt.mpr inside)
  | some first =>
      rw [scanned, Nat.zero_add] at spec
      obtain ⟨run, ends, lowest⟩ := spec
      refine Or.inr ⟨first, ?_, freeFrom_iff.mpr ⟨ends, run⟩, fun other free => ?_⟩
      · have base := fsDataLba_toNat
        rw [fsDataSectors_eq] at ends
        bv_omega
      · exact lowest other (freeFrom_iff.mp free).2

/-- The search is complete. -/
theorem bitmapFindFreeRun_ne_zero_iff {count : Word} (positive : 0 < count.toNat) :
    bitmapFindFreeRun bitmap count ≠ 0 ↔ HasRun bitmap count.toNat := by
  rw [hasRun_iff]
  rcases bitmapFindFreeRun_spec bitmap positive with ⟨zero, none⟩ | ⟨first, start, least⟩
  · exact iff_of_false (fun found => found zero) (not_exists.mpr none)
  · refine iff_of_true (fun zero => ?_) ⟨first, least.1⟩
    rw [zero, fsDataLba_toNat] at start
    exact absurd start (by rw [show BitVec.toNat (0 : Word) = 0 from rfl]; omega)

/-- First fit: the search returns the lowest run of the wanted length that lies in the data
area, and 0 if and only if there is none. -/
theorem bitmapFindFreeRun_firstFit (bitmap : Sector) (count : Word) (positive : 1 ≤ count.toNat) :
    (bitmapFindFreeRun bitmap count = 0 ↔ ¬ ∃ first, FreeFrom bitmap count.toNat first) ∧
      ∀ first, IsLeast {other | FreeFrom bitmap count.toNat other} first →
        (bitmapFindFreeRun bitmap count).toNat = fsDataLba.toNat + first := by
  have complete : bitmapFindFreeRun bitmap count ≠ 0 ↔ ∃ first, FreeFrom bitmap count.toNat first :=
    (bitmapFindFreeRun_ne_zero_iff positive).trans hasRun_iff
  refine ⟨not_iff_comm.mp complete |>.symm, fun first least => ?_⟩
  rcases bitmapFindFreeRun_spec bitmap positive with ⟨_, none⟩ | ⟨found, start, lowest⟩
  · exact absurd least.1 (none first)
  · rw [start, lowest.unique least]

/-- Behind a used sector. -/
theorem bitmapFindFreeRun_firstFit_second :
    (bitmapFindFreeRun (fun index => if index = 0 then 1 else 0) 3).toNat = 87 := by
  apply (bitmapFindFreeRun_firstFit _ 3 (by decide)).2 1
  refine ⟨⟨by decide, fun index after _ => if_neg ?_⟩, fun other free => ?_⟩
  · rintro rfl
    exact absurd after (by decide)
  · refine Nat.pos_of_ne_zero fun zero => ?_
    subst zero
    exact absurd (free.2 0 (Nat.le_refl _) (by decide)) (by decide)

theorem freeSlot_ne_none_iff : root.freeSlot ≠ none ↔ ∃ slot, (root.files slot).name 0 = 0 := by
  constructor
  · intro found
    by_contra none
    exact found (List.find?_eq_none.mpr fun slot _ free => none ⟨slot, of_decide_eq_true free⟩)
  · rintro ⟨slot, free⟩ missing
    exact List.find?_eq_none.mp missing slot (List.mem_finRange slot) (decide_eq_true free)

theorem Plan.store_ok_iff {name : CString} {data : Nat → Byte} {sizeBytes : Word}
    (sized : Sized sizeBytes) :
    (Plan.store root bitmap name data sizeBytes).ok = true ↔
      HasRun bitmap ((sizeBytes.toNat + 511) / 512) ∧ ∃ slot, (root.files slot).name 0 = 0 := by
  have positive : 0 < ((sizeBytes + 511) / 512).toNat := by
    have nonzero := sized.1
    rw [sized.sectors]
    omega
  rw [← sized.sectors, ← bitmapFindFreeRun_ne_zero_iff positive, ← freeSlot_ne_none_iff]
  rcases Plan.store_root root bitmap name data sizeBytes with
    ⟨refused, _, why⟩ | ⟨slot, free, found, done, _⟩
  · rw [refused]
    exact iff_of_false Bool.false_ne_true fun both => why.elim both.1 both.2
  · rw [done]
    exact iff_of_true rfl ⟨found, free ▸ Option.some_ne_none slot⟩

/-- Removing an entry marks no further sector and takes up no slot. -/
theorem Plan.erase_zero {index : Fin 512} (free : bitmap index = 0) (slot : Fin 32) :
    (Plan.erase root bitmap slot).bitmap index = 0 := by
  simp only [Plan.erase]
  split
  · exact free
  · simp only [marked]
    split
    · rfl
    · exact free

theorem Plan.erase_ok (slot : Fin 32) : (Plan.erase root bitmap slot).ok = true := by
  simp only [Plan.erase]
  split <;> rfl

theorem HasRun.delete {count : Nat} (has : HasRun bitmap count) (root : RootDirectory)
    (name : CString) : HasRun (Plan.delete root bitmap name).bitmap count := by
  obtain ⟨first, inside, free⟩ := has
  refine ⟨first, inside, fun offset below => ?_⟩
  unfold Plan.delete
  cases root.lookup name with
  | none => exact free offset below
  | some slot => exact Plan.erase_zero (free offset below) slot

theorem Plan.delete_slot {slot : Fin 32} (free : (root.files slot).name 0 = 0) (bitmap : Sector)
    (name : CString) : ((Plan.delete root bitmap name).root.files slot).name 0 = 0 := by
  unfold Plan.delete
  cases root.lookup name with
  | none => exact free
  | some other =>
      rw [Plan.erase_root]
      by_cases same : slot = other
      · rw [same, root.setFile_self]
        rfl
      · rw [root.setFile_of_ne _ same]
        exact free

/-- The sectors of an entry that is removed are free afterwards. -/
theorem Consistent.hasRun_erase (consistent : Consistent root bitmap) {slot : Fin 32}
    (live : root.Live slot) :
    HasRun (Plan.erase root bitmap slot).bitmap (root.files slot).sizeSect.toNat := by
  obtain ⟨low, _, high⟩ := consistent.inside slot live
  refine ⟨(root.files slot).startLba.toNat - 86, by rw [fsDataSectors_eq]; omega,
    fun offset below => ?_⟩
  have index : (Fin.ofNat 512 ((root.files slot).startLba.toNat - 86 + offset)).val =
      (root.files slot).startLba.toNat - 86 + offset := by
    rw [Fin.val_ofNat]
    omega
  exact Plan.erase_bitmap_of_occupies low (by omega) ⟨by omega, by omega⟩

/-- In every state reached without disk errors, a write returns 1 if and only if there are enough
consecutive free sectors and a free directory slot once the first entry of that name is removed.
The sectors of a file that is deleted can be used again: a write of at most as many sectors
succeeds. -/
theorem write_succeeds_iff {drive : Drive} (reliable : drive.Reliable) (boot : State)
    (fresh : FreshDisk boot.disk.sectors) (operations : List Operation)
    (sized : ∀ operation ∈ operations, operation.Sized) :
    let fs := operate drive operations (fsInit drive boot)
    (∀ (name : CString) (data : Nat → Byte) (sizeBytes : Word), name.bytes ≠ [] →
      Sized sizeBytes →
      ((fsWriteFile drive (some name) (some data) sizeBytes fs).1 = true ↔
        HasRun (overwritten drive (some name) fs).bitmap ((sizeBytes.toNat + 511) / 512) ∧
          ∃ slot, ((overwritten drive (some name) fs).root.files slot).name 0 = 0)) ∧
    ∀ (name : CString) (slot : Fin 32), name.bytes ≠ [] → fs.root.lookup name = some slot →
      (fsDeleteFile drive (some name) fs).1 = true ∧
      ∀ (other : CString) (data : Nat → Byte) (sizeBytes : Word), other.bytes ≠ [] →
        1 ≤ sizeBytes.toNat → sizeBytes.toNat ≤ 512 * (fs.root.files slot).sizeSect.toNat →
        (fsWriteFile drive (some other) (some data) sizeBytes
          (fsDeleteFile drive (some name) fs).2).1 = true := by
  intro fs
  have undamaged : Undamaged fs := operate_undamaged reliable fresh sized
  have succeeds : ∀ (fs : State) (name : CString) (data : Nat → Byte) (sizeBytes : Word),
      name.bytes ≠ [] → Sized sizeBytes →
      ((fsWriteFile drive (some name) (some data) sizeBytes fs).1 = true ↔
        HasRun (overwritten drive (some name) fs).bitmap ((sizeBytes.toNat + 511) / 512) ∧
          ∃ slot, ((overwritten drive (some name) fs).root.files slot).name 0 = 0) := by
    intro fs name data sizeBytes nonempty sized
    have nonzero : sizeBytes ≠ 0 := by
      rintro rfl
      exact absurd sized.1 (by decide)
    have performs := @fsWriteFileImpl_performs drive reliable _ name data sizeBytes
      (usable_some nonempty) nonzero true fs
    obtain ⟨root, bitmap⟩ := overwritten_memory drive nonempty fs
    rw [fsWriteFile, performs.ok, root, bitmap]
    exact Plan.store_ok_iff sized
  refine ⟨succeeds fs, fun name slot nonempty found => ?_⟩
  have performs := fsDeleteFileImpl_performs reliable (usable_some nonempty) true fs
  simp only [Plan.delete, found] at performs
  refine ⟨performs.ok.trans (Plan.erase_ok slot), fun other data sizeBytes valid some fits => ?_⟩
  have live := lookup_live found
  have inside := undamaged.consistent.inside slot live
  rw [fsDeleteFile, succeeds _ other data sizeBytes valid ⟨some, by omega⟩]
  obtain ⟨root, bitmap⟩ := overwritten_memory drive valid (fsDeleteFileImpl drive _ true fs).2
  rw [root, bitmap, performs.root, performs.bitmap]
  constructor
  · exact ((undamaged.consistent.hasRun_erase live).mono (by omega)).delete _ other
  · refine ⟨slot, Plan.delete_slot ?_ _ other⟩
    rw [Plan.erase_root, fs.root.setFile_self]
    rfl

/-- The two sectors of a file are used again after it is deleted. -/
theorem write_succeeds_after_delete :
    let name : CString := ⟨[0x61], by decide⟩
    let other : CString := ⟨[0x62], by decide⟩
    let fs := operate readyDrive [.call (.write (some name) (some fun _ => 0x78) 513)]
      (fsInit readyDrive blankBoot)
    (fsDeleteFile readyDrive (some name) fs).1 = true ∧
      (fsWriteFile readyDrive (some other) (some fun _ => 0x79) 1024
        (fsDeleteFile readyDrive (some name) fs).2).1 = true := by
  intro name other fs
  have sized : ∀ operation ∈ [Operation.call (.write (some name) (some fun _ => 0x78) 513)],
      operation.Sized := by
    intro operation member
    obtain rfl := List.mem_singleton.mp member
    exact ⟨by decide, by decide⟩
  have found : fs.root.lookup name = some 0 := by decide +kernel
  have two : (fs.root.files 0).sizeSect = 2 := by decide +kernel
  obtain ⟨deleted, reused⟩ := (write_succeeds_iff readyDrive_reliable blankBoot blankBoot_fresh _
    sized).2 name 0 (by decide) found
  refine ⟨deleted, reused other (fun _ => 0x79) 1024 (by decide) (by decide) ?_⟩
  rw [show (operate readyDrive _ (fsInit readyDrive blankBoot)).root.files 0 = fs.root.files 0
    from rfl, two]
  decide

/-! ### What a failed write leaves -/

/-- Directory and bitmap are the same, in memory and on disk, and every file loads as before. -/
structure Kept (drive : Drive) (before after : State) : Prop where
  root : after.root = before.root
  bitmap : after.bitmap = before.bitmap
  rootOnDisk : diskRoot after.disk.sectors = diskRoot before.disk.sectors
  bitmapOnDisk : diskBitmap after.disk.sectors = diskBitmap before.disk.sectors
  loads : ∀ name dest maxSize,
    let now := fsLoadFile drive name dest maxSize after
    let earlier := fsLoadFile drive name dest maxSize before
    now.ok = earlier.ok ∧ now.dest = earlier.dest ∧ now.outSize = earlier.outSize

section Reliable

variable {drive : Drive} (reliable : drive.Reliable)
include reliable

/-- What is loaded depends on the directory and on the sectors of its entries. -/
theorem fsLoadFile_congr {before after : State} (root : after.root = before.root)
    (consistent : Consistent before.root before.bitmap)
    (same : ∀ slot, before.root.Live slot → ∀ lba : Lba28,
      (before.root.files slot).Occupies lba.toNat →
      after.disk.sectors lba = before.disk.sectors lba)
    (name : Option CString) (dest : Option (Nat → Byte)) (maxSize : Word) :
    let now := fsLoadFile drive name dest maxSize after
    let earlier := fsLoadFile drive name dest maxSize before
    now.ok = earlier.ok ∧ now.dest = earlier.dest ∧ now.outSize = earlier.outSize := by
  intro now earlier
  unfold now earlier fsLoadFile
  cases usable name with
  | none => exact ⟨rfl, rfl, rfl⟩
  | some name =>
      cases dest with
      | none => exact ⟨rfl, rfl, rfl⟩
      | some dest =>
          simp only [root]
          cases found : before.root.lookup name with
          | none => exact ⟨rfl, rfl, rfl⟩
          | some slot =>
              simp only
              obtain ⟨low, _, high⟩ := consistent.inside slot (lookup_live found)
              have occupied := same slot (lookup_live found)
              generalize before.root.files slot = entry at low high occupied ⊢
              split
              · exact ⟨rfl, rfl, rfl⟩
              · split
                · exact ⟨rfl, rfl, rfl⟩
                · have whole : (entry.sizeSect * 512).toNat = 512 * entry.sizeSect.toNat := by
                    bv_omega
                  have enough : entry.sizeSect.toNat ≤ (entry.sizeSect * 512).toNat := by omega
                  obtain ⟨loaded, disk, result, bytes⟩ := loadLoop_reliable reliable whole enough
                    entry.startLba 0 dest before.disk
                  obtain ⟨loaded', disk', result', bytes'⟩ := loadLoop_reliable reliable whole
                    enough entry.startLba 0 dest after.disk
                  simp only [result, result', true_and, and_true]
                  funext query
                  rw [bytes, bytes']
                  split
                  · next inside =>
                      rw [occupied]
                      rw [sectorOf]
                      constructor <;> bv_omega
                  · rfl

/-- Writes outside the directory, the bitmap and all live extents keep everything. -/
theorem Undamaged.kept {before after : State} (undamaged : Undamaged before)
    {plan : Plan} (performs : Performs plan before (false, after))
    (root : plan.root = before.root) (bitmap : plan.bitmap = before.bitmap)
    (outside : ∀ write ∈ plan.writes, ∀ slot, before.root.Live slot →
      ¬(before.root.files slot).Occupies write.1.toNat)
    (synced : Synced after) : Kept drive before after := by
  have rootAfter : after.root = before.root := performs.root.trans root
  have bitmapAfter : after.bitmap = before.bitmap := performs.bitmap.trans bitmap
  refine ⟨rootAfter, bitmapAfter, ?_, ?_, ?_⟩
  · rw [synced.root, undamaged.synced.root, rootAfter]
  · rw [synced.bitmap, undamaged.synced.bitmap, bitmapAfter]
  · refine fsLoadFile_congr reliable rootAfter undamaged.consistent fun slot live lba occupied => ?_
    rw [performs.disk.sectors, replay_of_forall_ne]
    rintro write member rfl
    exact outside write member slot live occupied

end Reliable

/-- In every state reached without disk errors, a write that returns 0 keeps the directory, the
bitmap and the content of every file if and only if it removes no file, because its parameters are
invalid or no entry has its name. -/
theorem failed_write_keeps_iff {drive : Drive} (reliable : drive.Reliable) (boot : State)
    (fresh : FreshDisk boot.disk.sectors) (operations : List Operation)
    (sized : ∀ operation ∈ operations, operation.Sized) (name : Option CString)
    (data : Option (Nat → Byte)) (sizeBytes : Word) (bounded : sizeBytes.toNat ≤ 0xFFFFFE00) :
    let fs := operate drive operations (fsInit drive boot)
    (fsWriteFile drive name data sizeBytes fs).1 = false →
      (Kept drive fs (fsWriteFile drive name data sizeBytes fs).2 ↔
        (Request.ofWrite name data sizeBytes).victim fs.root = none) := by
  intro fs failed
  have undamaged : Undamaged fs := operate_undamaged reliable fresh sized
  have performs := fsWrite_request reliable name data sizeBytes true fs
  have synced : Synced (fsWriteFile drive name data sizeBytes fs).2 :=
    perform_synced reliable (.write name data sizeBytes) undamaged.synced
  rw [← fsWriteFile] at performs
  generalize fsWriteFile drive name data sizeBytes fs = result at failed performs synced ⊢
  obtain ⟨_, after⟩ := result
  obtain rfl : _ = false := failed
  rcases Request.ofWrite_cases name data sizeBytes with
    invalid | ⟨given, content, rfl, _, nonempty, nonzero, request⟩
  · rw [invalid] at performs ⊢
    refine iff_of_true (undamaged.kept reliable performs rfl rfl ?_ synced) rfl
    exact fun write member => absurd member List.not_mem_nil
  · rw [request] at performs ⊢
    have some : Sized sizeBytes :=
      ⟨Nat.one_le_iff_ne_zero.mpr fun zero => nonzero (BitVec.eq_of_toNat_eq zero), bounded⟩
    change Kept drive fs after ↔ fs.root.lookup given = none
    cases found : fs.root.lookup given with
    | none =>
        have store : Performs (.store fs.root fs.bitmap given content sizeBytes) fs
            (false, after) := by
          have untouched : Plan.delete fs.root fs.bitmap given = .reject fs.root fs.bitmap := by
            simp only [Plan.delete, found]
          simpa only [Request.plan, Plan.write, untouched, Plan.andThen, Plan.reject,
            List.nil_append] using performs
        refine iff_of_true ?_ rfl
        obtain rejected | ⟨startLba, run, ⟨_, full⟩ | ⟨_, _, stored⟩⟩ :=
          @Plan.store_cases fs.root fs.bitmap given content sizeBytes some
        · rw [rejected] at store
          exact undamaged.kept reliable store rfl rfl
            (fun write member => absurd member List.not_mem_nil) synced
        · rw [full] at store
          refine undamaged.kept reliable store rfl rfl (fun write member slot live => ?_) synced
          simp only [List.append_assoc, List.mem_append] at member
          rcases member with data | marks | marks
          · obtain ⟨after, before⟩ := mem_dataWrites_run run some data
            exact undamaged.consistent.protected.not_occupies run live after before
          · exact undamaged.consistent.not_occupies live (mem_bitmapWrite marks)
          · exact undamaged.consistent.not_occupies live (mem_bitmapWrite marks)
        · exact absurd (store.ok.trans (congrArg Plan.ok stored)) Bool.false_ne_true
    | some slot =>
        -- The entry is live before and empty afterwards.
        refine iff_of_false (fun kept => ?_) (Option.some_ne_none slot)
        have live := lookup_live found
        have erased : (Plan.delete fs.root fs.bitmap given).root =
            fs.root.setFile slot .empty := by
          simp only [Plan.delete, found, Plan.erase_root]
        have root : after.root = (Plan.store (Plan.delete fs.root fs.bitmap given).root _ given
          content sizeBytes).root := performs.root
        rcases Plan.store_root (Plan.delete fs.root fs.bitmap given).root
          (Plan.delete fs.root fs.bitmap given).bitmap given content sizeBytes with
          ⟨_, same, _⟩ | ⟨_, _, _, done, _⟩
        · rw [same, erased] at root
          exact not_live_setFile validName_empty ((root.symm.trans kept.root) ▸ live)
        · exact absurd (performs.ok.trans done) Bool.false_ne_true

/-- A file that is larger than the disk is refused, and nothing changes. -/
theorem failed_write_keeps_fresh :
    let name : CString := ⟨[0x61], by decide⟩
    let fs := operate readyDrive [] (fsInit readyDrive blankBoot)
    (fsWriteFile readyDrive (some name) (some fun _ => 0x78) 0x40000 fs).1 = false ∧
      Kept readyDrive fs
        (fsWriteFile readyDrive (some name) (some fun _ => 0x78) 0x40000 fs).2 := by
  intro name fs
  have failed : (fsWriteFile readyDrive (some name) (some fun _ => 0x78) 0x40000 fs).1 = false := by
    decide +kernel
  have none : (Request.ofWrite (some name) (some fun _ => 0x78) 0x40000).victim fs.root = none := by
    decide +kernel
  exact ⟨failed, (failed_write_keeps_iff readyDrive_reliable blankBoot blankBoot_fresh []
    (fun _ member => absurd member List.not_mem_nil) (some name) (some fun _ => 0x78) 0x40000
    (by decide) failed).mpr none⟩

/-- A file is written, and then replaced by one that is larger than the disk: the call returns 0
and the file is gone. -/
theorem failed_overwrite_loses_file :
    let name : CString := ⟨[0x61], by decide⟩
    let fs := operate readyDrive [.call (.write (some name) (some fun _ => 0x78) 1)]
      (fsInit readyDrive blankBoot)
    let result := fsWriteFile readyDrive (some name) (some fun _ => 0x78) 0x40000 fs
    result.1 = false ∧ fsFileExists fs (some name) = true ∧
      fsFileExists result.2 (some name) = false ∧ ¬ Kept readyDrive fs result.2 := by
  intro name fs result
  have before : fsFileExists fs (some name) = true := by decide +kernel
  have gone : fsFileExists result.2 (some name) = false := by decide +kernel
  refine ⟨by decide +kernel, before, gone, fun kept => ?_⟩
  have same : ∀ first second : State, second.root = first.root →
      fsFileExists second (some name) = fsFileExists first (some name) := by
    intro first second root
    unfold fsFileExists
    rw [root]
  exact Bool.false_ne_true (gone.symm.trans ((same fs result.2 kept.root).trans before))

end MxOS.Fs
