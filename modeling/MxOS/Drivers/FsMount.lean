import MxOS.Drivers.FsReboot
import MxOS.Drivers.FsRollback

/-! # Mounting with read errors

A sector of the directory that cannot be read makes `fs_init` format the disk, as if it
carried no file system; a bitmap that cannot be read counts as empty. Here the drive may
fail at any read, and the results say which of these failures cost a file.
-/

namespace MxOS.Fs

open ByteMemory Ata

/-! ### Loading -/

section Drive

variable (drive : Drive)

/-- The sectors can be read one after the other. -/
def readable (drive : Drive) : List Word → Disk → Bool
  | [], _ => true
  | lba :: rest, disk =>
      match ataReadSector drive lba disk with
      | (none, _) => false
      | (some _, disk) => readable drive rest disk

/-- The sectors of the directory. -/
def rootLbas : List Word := (List.range fsRootSectors).map rootSectorLba

theorem rootLoadLoop_readable (sectors : List Nat) (rest : List Word) (raw : Nat → Byte)
    (disk : Disk) :
    readable drive (sectors.map rootSectorLba ++ rest) disk =
      ((rootLoadLoop drive sectors raw disk).1 &&
        readable drive rest (rootLoadLoop drive sectors raw disk).2.2) := by
  induction sectors generalizing raw disk with
  | nil => simp only [List.map_nil, List.nil_append, rootLoadLoop, Bool.true_and]
  | cons sector remaining ih =>
      simp only [List.map_cons, List.cons_append, readable, rootLoadLoop]
      rcases ataReadSector drive (rootSectorLba sector) disk with ⟨_ | buffer, after⟩
      · rfl
      · exact ih ..

theorem readable_append_left {first second : List Word} {disk : Disk}
    (all : readable drive (first ++ second) disk = true) : readable drive first disk = true := by
  induction first generalizing disk with
  | nil => rfl
  | cons lba rest ih =>
      simp only [List.cons_append, readable] at all ⊢
      rcases answer : ataReadSector drive lba disk with ⟨_ | buffer, after⟩
      · simp only [answer, Bool.false_eq_true] at all
      · simp only [answer] at all ⊢
        exact ih all

theorem fsRootLoad_readable (fs : State) :
    (fsRootLoad drive fs).1 = readable drive rootLbas fs.disk := by
  have read := rootLoadLoop_readable drive (List.range fsRootSectors) [] fs.root.raw fs.disk
  rw [List.append_nil, readable, Bool.and_true] at read
  exact read.symm

/-- The bitmap of a disk that could be mounted is loaded, or it counts as empty. -/
theorem bitmapLoad_loads {fs boot : State} (loaded : fsRootLoad drive boot = (true, fs)) :
    (bitmapLoad drive fs).root = fs.root ∧
      (bitmapLoad drive fs).disk.sectors = fs.disk.sectors ∧
      (bitmapLoad drive fs).bitmap =
        if readable drive (rootLbas ++ [fsBitmapLba]) boot.disk then diskBitmap fs.disk.sectors
        else fun _ => 0 := by
  have read := rootLoadLoop_readable drive (List.range fsRootSectors) [fsBitmapLba] boot.root.raw
    boot.disk
  have first : (rootLoadLoop drive (List.range fsRootSectors) boot.root.raw boot.disk).1 = true :=
    congrArg Prod.fst loaded
  have continued : (rootLoadLoop drive (List.range fsRootSectors) boot.root.raw boot.disk).2.2 =
      fs.disk := congrArg (fun answer => answer.2.disk) loaded
  rw [first, continued, Bool.true_and] at read
  rw [rootLbas, read]
  obtain ⟨same, content⟩ := ataReadSector_readsBack drive fsBitmapLba fs.disk
  rcases answer : ataReadSector drive fsBitmapLba fs.disk with ⟨_ | buffer, after⟩
  all_goals
    rw [answer] at same content
    simp only [bitmapLoad, readable, answer, true_and]
  · exact ⟨same, rfl⟩
  · exact ⟨same, content buffer rfl⟩

/-! ### Formatting -/

/-- Each sector of the directory holds its new content, or the save failed and left the old. -/
theorem rootSaveLoop_sectors (raw : Nat → Byte) {sectors : List Nat}
    (inside : ∀ sector ∈ sectors, sector < fsRootSectors) (disk : Disk) {sector : Nat}
    (bound : sector < fsRootSectors) :
    (rootSaveLoop drive raw sectors disk).2.sectors (sectorOf (rootSectorLba sector)) =
        saveChunk raw sector ∨
      (rootSaveLoop drive raw sectors disk).2.sectors (sectorOf (rootSectorLba sector)) =
          disk.sectors (sectorOf (rootSectorLba sector)) ∧
        ((rootSaveLoop drive raw sectors disk).1 = true → sector ∉ sectors) := by
  induction sectors generalizing disk with
  | nil => exact Or.inr ⟨rfl, fun _ => List.not_mem_nil⟩
  | cons next rest ih =>
      have written := ataWriteSector_writesThrough drive (rootSectorLba next) (saveChunk raw next)
        disk
      have elsewhere : sector ≠ next →
          sectorOf (rootSectorLba sector) ≠ sectorOf (rootSectorLba next) := by
        intro differ same
        have address := rootSector_toNat bound
        rw [same, rootSector_toNat (inside next (List.mem_cons_self ..))] at address
        omega
      rw [rootSaveLoop]
      generalize ataWriteSector drive (rootSectorLba next) _ disk = answer at written ⊢
      rcases answer with ⟨_ | _, middle⟩
      · rcases written with written | ⟨_, same⟩
        · by_cases here : sector = next
          · left
            simp only at written ⊢
            rw [written, here, Function.update_self]
          · right
            simp only at written ⊢
            rw [written, Function.update_of_ne (elsewhere here)]
            exact ⟨rfl, fun saved => absurd saved Bool.false_ne_true⟩
        · exact Or.inr ⟨congrFun same _, fun saved => absurd saved Bool.false_ne_true⟩
      · have written : middle.sectors = _ :=
          written.resolve_right fun failed => Bool.false_ne_true failed.1.symm
        rcases ih (fun later member => inside later (List.mem_cons_of_mem _ member)) middle with
          new | ⟨same, absent⟩
        · exact Or.inl new
        · simp only
          rw [same, written]
          by_cases here : sector = next
          · left
            rw [here, Function.update_self]
          · right
            rw [Function.update_of_ne (elsewhere here)]
            refine ⟨rfl, fun saved member => ?_⟩
            exact (List.mem_cons.mp member).elim here (absent saved)

/-- The directory sectors after formatting, if the directory could be saved. -/
theorem fsFormat_sectors {fs : State} {sector : Nat} (bound : sector < fsRootSectors) :
    (fsFormat drive fs).disk.sectors (sectorOf (rootSectorLba sector)) =
        saveChunk formattedRoot.raw sector ∨
      (fsFormat drive fs).disk.sectors (sectorOf (rootSectorLba sector)) =
          fs.disk.sectors (sectorOf (rootSectorLba sector)) ∧
        (fsRootSave drive (bitmapPersist drive
          { fs with root := formattedRoot, bitmap := fun _ => 0 })).1 = false := by
  have blank : (bitmapPersist drive
      { fs with root := formattedRoot, bitmap := fun _ => 0 }).disk.sectors
        (sectorOf (rootSectorLba sector)) = fs.disk.sectors (sectorOf (rootSectorLba sector)) := by
    have only : Confined (· = sectorOf fsBitmapLba) fs.disk (bitmapPersist drive
        { fs with root := formattedRoot, bitmap := fun _ => 0 }).disk :=
      @ataWriteSector_confined drive (· = sectorOf fsBitmapLba) fsBitmapLba rfl (fun _ => 0) fs.disk
    apply only.sectors
    intro same
    have address := rootSector_toNat bound
    rw [same] at address
    rw [fsRootSectors_eq] at bound
    have bitmap : (sectorOf fsBitmapLba).toNat = 85 := by decide
    omega
  rw [← blank]
  rcases rootSaveLoop_sectors drive formattedRoot.raw (fun _ member => List.mem_range.mp member)
    (bitmapPersist drive { fs with root := formattedRoot, bitmap := fun _ => 0 }).disk bound with
    new | ⟨same, absent⟩
  · exact Or.inl new
  · refine Or.inr ⟨same, ?_⟩
    rw [← Bool.not_eq_true]
    exact fun saved => absent saved (List.mem_range.mpr bound)

end Drive

/-! ### Mounting -/

/-- Every sector of a live entry is a data sector marked as used. -/
def Covered (root : RootDirectory) (bitmap : Sector) : Prop :=
  ∀ slot, root.Live slot → ∀ lba, (root.files slot).Occupies lba →
    ∃ index : Fin 512, index.val < 511 ∧ lba = 86 + index ∧ bitmap index ≠ 0

/-- A disk that carries a file system whose bitmap covers its files. -/
structure ValidDisk (sectors : Lba28 → Sector) : Prop where
  magic : (diskRoot sectors).magic = fsMagic
  covered : Covered (diskRoot sectors) (diskBitmap sectors)

/-- The directory sectors are the same on both disks. -/
def SameDirectory (before after : Lba28 → Sector) : Prop :=
  ∀ sector < fsRootSectors,
    after (sectorOf (rootSectorLba sector)) = before (sectorOf (rootSectorLba sector))

/-- The read errors cost no file: directory and bitmap can be read; or the directory can, and its
files have no sectors; or it cannot, and is that of an empty file system already. -/
def HarmlessErrors (drive : Drive) (disk : Disk) : Prop :=
  readable drive (rootLbas ++ [fsBitmapLba]) disk = true ∨
  readable drive rootLbas disk = true ∧
    (∀ slot, (diskRoot disk.sectors).Live slot →
      ((diskRoot disk.sectors).files slot).sizeSect = 0) ∨
  readable drive rootLbas disk = false ∧ ∀ sector < fsRootSectors,
    disk.sectors (sectorOf (rootSectorLba sector)) = saveChunk formattedRoot.raw sector

theorem covered_empty_iff {root : RootDirectory} :
    Covered root (fun _ => 0) ↔ ∀ slot, root.Live slot → (root.files slot).sizeSect = 0 := by
  constructor
  · intro covered slot live
    by_contra some
    have positive : 0 < (root.files slot).sizeSect.toNat :=
      Nat.pos_of_ne_zero fun zero => some (BitVec.eq_of_toNat_eq zero)
    obtain ⟨index, _, _, marked⟩ := covered slot live (root.files slot).startLba.toNat
      ⟨Nat.le_refl _, by omega⟩
    exact marked rfl
  · intro none slot live lba occupied
    obtain ⟨after, before⟩ := occupied
    have zero : (root.files slot).sizeSect.toNat = 0 := congrArg BitVec.toNat (none slot live)
    omega

theorem formattedRoot_covered (bitmap : Sector) : Covered formattedRoot bitmap :=
  fun _ live => absurd live (not_live_of_empty rfl)

/-- Mounting a valid disk, whatever fails: either the directory is read from the disk, which does
not change, or the disk is formatted. -/
theorem fsInit_cases (drive : Drive) {boot : State} (valid : ValidDisk boot.disk.sectors) :
    readable drive rootLbas boot.disk = true ∧
        (fsInit drive boot).root = diskRoot boot.disk.sectors ∧
        (fsInit drive boot).disk.sectors = boot.disk.sectors ∧
        (fsInit drive boot).bitmap =
          (if readable drive (rootLbas ++ [fsBitmapLba]) boot.disk then
            diskBitmap boot.disk.sectors else fun _ => 0) ∨
      readable drive rootLbas boot.disk = false ∧
        fsInit drive boot = fsFormat drive (fsRootLoad drive boot).2 := by
  have read := fsRootLoad_readable drive boot
  obtain ⟨same, directory⟩ := fsRootLoad_loads drive boot
  unfold fsInit
  rcases loaded : fsRootLoad drive boot with ⟨_ | _, mounted⟩
  · rw [loaded] at read
    exact Or.inr ⟨read.symm, if_pos (Or.inl rfl)⟩
  · rw [loaded] at read same directory
    simp only at read same directory
    have magic : mounted.root.magic = fsMagic := by rw [directory trivial, valid.magic]
    have not : ¬ (true = false ∨ mounted.root.magic ≠ fsMagic) := by simp [magic]
    obtain ⟨root, disk, bitmap⟩ := bitmapLoad_loads drive loaded
    refine Or.inl ⟨read.symm, ?_⟩
    simp only [if_neg not]
    rw [root, disk, bitmap, directory trivial, same]
    exact ⟨rfl, rfl, rfl⟩

/-- For every disk with a valid file system and every pattern of read errors, mounting leaves the
directory on the disk as it was and a bitmap in memory that covers all files, if and only if the
errors are harmless. Writes do not fail, where the disk is formatted. -/
theorem mount_keeps_files_iff (drive : Drive) (boot : State) (valid : ValidDisk boot.disk.sectors)
    (onlyReads : readable drive rootLbas boot.disk = false →
      (fsRootSave drive (bitmapPersist drive
        { (fsRootLoad drive boot).2 with
          root := formattedRoot
          bitmap := fun _ => 0 })).1 = true) :
    let after := fsInit drive boot
    SameDirectory boot.disk.sectors after.disk.sectors ∧ Covered after.root after.bitmap ↔
      HarmlessErrors drive boot.disk := by
  intro after
  rcases fsInit_cases drive valid with ⟨read, root, disk, bitmap⟩ | ⟨unread, formatted⟩
  · have same : SameDirectory boot.disk.sectors after.disk.sectors := by
      intro sector bound
      rw [disk]
    have covered : Covered after.root after.bitmap ↔ HarmlessErrors drive boot.disk := by
      rw [root, bitmap]
      unfold HarmlessErrors
      cases both : readable drive (rootLbas ++ [fsBitmapLba]) boot.disk with
      | true => exact iff_of_true valid.covered (Or.inl rfl)
      | false =>
          simp only [Bool.false_eq_true, ↓reduceIte, false_or, read, true_and, Bool.true_eq_false,
            false_and, or_false]
          exact covered_empty_iff
    exact ⟨fun kept => covered.mp kept.2, fun harmless => ⟨same, covered.mpr harmless⟩⟩
  · have covered : Covered after.root after.bitmap := by
      rw [show after = _ from formatted]
      exact formattedRoot_covered _
    have both : readable drive (rootLbas ++ [fsBitmapLba]) boot.disk = false := by
      rw [← Bool.not_eq_true]
      exact fun all => Bool.false_ne_true (unread.symm.trans (readable_append_left drive all))
    have written : ∀ sector < fsRootSectors,
        after.disk.sectors (sectorOf (rootSectorLba sector)) =
          saveChunk formattedRoot.raw sector := by
      intro sector bound
      rw [show after = _ from formatted]
      refine (fsFormat_sectors drive bound).resolve_right fun failed => ?_
      exact Bool.false_ne_true (failed.2.symm.trans (onlyReads unread))
    unfold HarmlessErrors SameDirectory
    simp only [both, unread, Bool.false_eq_true, false_or, false_and, true_and, covered, and_true]
    exact ⟨fun same sector bound => (same sector bound).symm.trans (written sector bound),
      fun blank sector bound => (written sector bound).trans (blank sector bound).symm⟩

theorem Accounted.covered {root : RootDirectory} {bitmap : Sector}
    (inv : Accounted root bitmap) : Covered root bitmap := by
  intro slot live lba occupied
  obtain ⟨low, high⟩ := inv.inside slot live lba occupied
  obtain ⟨index, here⟩ : ∃ index : Fin 512, lba = 86 + index.val :=
    ⟨⟨lba - 86, by omega⟩, by simp only; omega⟩
  have bound : index.val < 511 := by omega
  exact ⟨index, bound, here, inv.marked slot live index bound (here ▸ occupied)⟩

/-- The machine is switched on with zeros in memory and the disk of a session in which a file of
one byte was written. -/
def secondBoot : State :=
  { blankBoot with
    disk := (run readyDrive [.write (some ⟨[0x61], by decide⟩) (some fun _ => 0x78) 1]
      (fsInit readyDrive blankBoot)).disk }

theorem secondBoot_valid : ValidDisk secondBoot.disk.sectors := by
  have sized : ∀ call ∈ [Call.write (some ⟨[0x61], by decide⟩) (some fun _ => 0x78) 1],
      call.Sized := by
    intro call member
    obtain rfl := List.mem_singleton.mp member
    exact ⟨by decide, by decide⟩
  have synced := run_synced readyDrive_reliable
    [.write (some ⟨[0x61], by decide⟩) (some fun _ => 0x78) 1]
    (fsInit_synced readyDrive_reliable blankBoot)
  have consistent := consistent_maintained.run readyDrive_reliable sized
    (fsInit_consistent readyDrive_reliable blankBoot_fresh)
  have root : diskRoot secondBoot.disk.sectors = _ := synced.root
  have bitmap : diskBitmap secondBoot.disk.sectors = _ := synced.bitmap
  refine ⟨?_, ?_⟩
  · rw [root]
    exact synced.magic
  · rw [root, bitmap]
    exact consistent.accounted.covered

/-- One error at the first read: the second attempt succeeds. -/
theorem mount_keeps_files_retry :
    let drive : Drive := ⟨fun poll => if poll = 33 then 0x01 else 0x08⟩
    let after := fsInit drive secondBoot
    (ataReadSectorOnce drive (rootSectorLba 0) secondBoot.disk).1.isNone ∧
      SameDirectory secondBoot.disk.sectors after.disk.sectors ∧
      Covered after.root after.bitmap := by
  intro drive after
  have all : readable drive (rootLbas ++ [fsBitmapLba]) secondBoot.disk = true := by
    decide +kernel
  have read : readable drive rootLbas secondBoot.disk = true := readable_append_left drive all
  refine ⟨by decide +kernel, ?_⟩
  exact (mount_keeps_files_iff drive secondBoot secondBoot_valid
    fun unread => absurd (unread.symm.trans read) Bool.false_ne_true).mpr (Or.inl all)

/-- The first directory sector cannot be read, and the entry of the file is erased from the disk;
or the bitmap cannot be read, and the sector of the file counts as free. -/
theorem mount_loses_file :
    ValidDisk secondBoot.disk.sectors ∧
      ¬ SameDirectory secondBoot.disk.sectors
        (fsInit (failingDrive 33) secondBoot).disk.sectors ∧
      ¬ Covered (fsInit (failingDrive 39) secondBoot).root
        (fsInit (failingDrive 39) secondBoot).bitmap := by
  refine ⟨secondBoot_valid, fun same => ?_, fun covered => ?_⟩
  · have before : secondBoot.disk.sectors (sectorOf (rootSectorLba 0)) 4 = 0x61 := by
      decide +kernel
    have erased : (fsInit (failingDrive 33) secondBoot).disk.sectors
        (sectorOf (rootSectorLba 0)) 4 = 0 := by
      decide +kernel
    rw [same 0 (by decide), before] at erased
    exact absurd erased (by decide)
  · have live : (fsInit (failingDrive 39) secondBoot).root.Live 0 := by decide +kernel
    have occupied : ((fsInit (failingDrive 39) secondBoot).root.files 0).Occupies 86 := by
      decide +kernel
    have free : (fsInit (failingDrive 39) secondBoot).bitmap 0 = 0 := by decide +kernel
    obtain ⟨index, _, first, marked⟩ := covered 0 live 86 occupied
    obtain rfl : index = 0 := Fin.ext (Nat.add_left_cancel first).symm
    exact marked free

end MxOS.Fs
