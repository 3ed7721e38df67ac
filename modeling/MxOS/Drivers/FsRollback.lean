import MxOS.Drivers.FsConfinement

/-! # Writes that fail on disk errors

Any transfer may fail here. What a call leaves in memory depends on the drive only at
two points: whether the data of the file could be written, and whether the directory
could be saved with the new entry in it. In the second case the caller frees the sectors
again, but the entry stays in the directory in memory, and a later write may be given
the same sectors.
-/

namespace MxOS.Fs

open ByteMemory Ata

variable {root : RootDirectory} {bitmap : Sector}

/-! ### The invariant -/

/-- Every sector of a live entry is a data sector marked as used, and no sector belongs to two
entries. -/
structure Accounted (root : RootDirectory) (bitmap : Sector) : Prop
    extends Protected root bitmap where
  inside : ∀ slot, root.Live slot → ∀ lba, (root.files slot).Occupies lba → 86 ≤ lba ∧ lba < 597

theorem Consistent.accounted (consistent : Consistent root bitmap) : Accounted root bitmap := by
  refine ⟨consistent.protected, fun slot live lba occupied => ?_⟩
  obtain ⟨low, _, high⟩ := consistent.inside slot live
  obtain ⟨after, before⟩ := occupied
  omega

theorem Accounted.erase (inv : Accounted root bitmap) {slot : Fin 32} (live : root.Live slot) :
    Accounted (Plan.erase root bitmap slot).root (Plan.erase root bitmap slot).bitmap := by
  refine ⟨inv.toProtected.erase live, fun other live' lba occupied => ?_⟩
  rw [Plan.erase_root] at live' occupied
  obtain ⟨differ, before⟩ := live_setFile_empty live'
  rw [root.setFile_of_ne _ differ] at occupied
  exact inv.inside other before lba occupied

theorem Accounted.setFile_inside (inv : Accounted root bitmap) {slot : Fin 32} {entry : FileEntry}
    (within : ∀ lba, entry.Occupies lba → 86 ≤ lba ∧ lba < 597) (other : Fin 32)
    (live : (root.setFile slot entry).Live other) (lba : Nat)
    (occupied : ((root.setFile slot entry).files other).Occupies lba) : 86 ≤ lba ∧ lba < 597 := by
  by_cases same : other = slot
  · rw [same, root.setFile_self] at occupied
    exact within lba occupied
  · rw [RootDirectory.live_setFile_of_ne same] at live
    rw [root.setFile_of_ne _ same] at occupied
    exact inv.inside other live lba occupied

theorem accounted_maintained : Maintained Accounted := by
  refine ⟨fun inv live => inv.erase live, fun inv run dead valid => ?_⟩
  refine ⟨protected_maintained.add inv.toProtected run dead valid, ?_⟩
  refine inv.setFile_inside fun lba occupied => ?_
  have low := run.low
  have high := run.high
  obtain ⟨after, before⟩ := occupied
  simp only at after before
  omega

/-- An entry without sectors takes nothing away. -/
theorem Accounted.add_empty (inv : Accounted root bitmap) {entry : FileEntry}
    (none : entry.sizeSect.toNat = 0) (slot : Fin 32) :
    Accounted (root.setFile slot entry) bitmap := by
  have nothing : ∀ lba, ¬ entry.Occupies lba := by
    rintro lba ⟨after, before⟩
    omega
  have earlier : ∀ {other lba}, (root.setFile slot entry).Live other →
      ((root.setFile slot entry).files other).Occupies lba →
      root.Live other ∧ (root.files other).Occupies lba := by
    intro other lba live occupied
    by_cases same : other = slot
    · rw [same, root.setFile_self] at occupied
      exact absurd occupied (nothing lba)
    · rw [RootDirectory.live_setFile_of_ne same] at live
      rw [root.setFile_of_ne _ same] at occupied
      exact ⟨live, occupied⟩
  refine ⟨⟨fun other live index bound occupied => ?_,
    fun first second lba live₁ live₂ occupied₁ occupied₂ => ?_⟩,
    inv.setFile_inside fun lba occupied => absurd occupied (nothing lba)⟩
  · obtain ⟨live, occupied⟩ := earlier live occupied
    exact inv.marked other live index bound occupied
  · obtain ⟨live₁, occupied₁⟩ := earlier live₁ occupied₁
    obtain ⟨live₂, occupied₂⟩ := earlier live₂ occupied₂
    exact inv.disjoint first second lba live₁ live₂ occupied₁ occupied₂

/-- An entry whose first sector is free. -/
theorem not_accounted {slot : Fin 32} {name : Fin 24 → Byte} {startLba count : Word}
    (valid : validName name = true) (run : FreeRun bitmap startLba count) :
    ¬ Accounted (root.setFile slot ⟨name, startLba, count⟩) bitmap := by
  intro inv
  have live : (root.setFile slot ⟨name, startLba, count⟩).Live slot := by
    unfold RootDirectory.Live
    rw [root.setFile_self]
    exact valid
  obtain ⟨low, high, positive, free⟩ := run
  obtain ⟨index, first⟩ : ∃ index : Fin 512, 86 + index.val = startLba.toNat :=
    ⟨⟨startLba.toNat - 86, by omega⟩, by simp only; omega⟩
  refine inv.marked slot live index (by omega) ?_ (free index (by omega) (by omega))
  rw [root.setFile_self]
  exact ⟨by simp only; omega, by simp only; omega⟩

/-! ### What stays in memory -/

/-- The states have the same directory and bitmap in memory. -/
structure SameMemory (first second : State) : Prop where
  root : first.root = second.root
  bitmap : first.bitmap = second.bitmap

theorem SameMemory.kprintIf (verbose : Bool) (text : String) (fs : State) :
    SameMemory (kprintIf verbose text fs) fs := by
  obtain ⟨console, printed⟩ := kprintIf_eq verbose text fs
  rw [printed]
  exact ⟨rfl, rfl⟩

section Drive

variable (drive : Drive)

theorem bitmapMark_memory {startLba : Word} (inData : ¬ startLba < fsDataLba) (count : Word)
    (used : Byte) (fs : State) :
    SameMemory (bitmapMark drive startLba count used fs)
      { fs with bitmap := marked startLba count used fs.bitmap } := by
  rw [bitmapMark, if_neg inData, markLoop_eq_marked inData]
  exact ⟨rfl, rfl⟩

theorem fsRootSave_memory {fs after : State} {ok : Bool}
    (saved : fsRootSave drive fs = (ok, after)) : SameMemory after fs := by
  obtain rfl : _ = after := congrArg Prod.snd saved
  exact ⟨rfl, rfl⟩

/-- Deleting changes memory as planned, whether or not the disk follows. -/
theorem fsDeleteFileImpl_memory {name : CString} (nonempty : name.bytes ≠ []) (verbose : Bool)
    (fs : State) :
    (fsDeleteFileImpl drive (some name) verbose fs).2.root =
        (Plan.delete fs.root fs.bitmap name).root ∧
      (fsDeleteFileImpl drive (some name) verbose fs).2.bitmap =
        (Plan.delete fs.root fs.bitmap name).bitmap := by
  unfold fsDeleteFileImpl Plan.delete
  simp only [usable_some nonempty]
  cases fs.root.lookup name with
  | none =>
      cases verbose with
      | false => exact ⟨rfl, rfl⟩
      | true => exact ⟨rfl, rfl⟩
  | some slot =>
      have cleared : (bitmapMark drive (fs.root.files slot).startLba (fs.root.files slot).sizeSect
          0 fs).root = fs.root ∧ (bitmapMark drive (fs.root.files slot).startLba
          (fs.root.files slot).sizeSect 0 fs).bitmap =
            (Plan.erase fs.root fs.bitmap slot).bitmap := by
        by_cases low : (fs.root.files slot).startLba < fsDataLba
        · simp only [bitmapMark, low, ↓reduceIte, Plan.erase, and_self]
        · have marks := bitmapMark_memory drive low (fs.root.files slot).sizeSect 0 fs
          refine ⟨marks.root, marks.bitmap.trans ?_⟩
          simp only [Plan.erase, low, ↓reduceIte]
      simp only [Plan.erase_root]
      generalize bitmapMark drive _ _ 0 fs = freed at cleared ⊢
      rw [cleared.1]
      rcases saved : fsRootSave drive { freed with root := fs.root.setFile slot FileEntry.empty }
        with ⟨_ | _, after⟩
      all_goals
        obtain ⟨sameRoot, sameBitmap⟩ := fsRootSave_memory drive saved
        exact ⟨(SameMemory.kprintIf ..).root.trans sameRoot,
          (SameMemory.kprintIf ..).bitmap.trans (sameBitmap.trans cleared.2)⟩

theorem overwritten_memory {name : CString} (nonempty : name.bytes ≠ []) (fs : State) :
    (overwritten drive (some name) fs).root = (Plan.delete fs.root fs.bitmap name).root ∧
      (overwritten drive (some name) fs).bitmap = (Plan.delete fs.root fs.bitmap name).bitmap := by
  unfold overwritten
  split
  · exact fsDeleteFileImpl_memory drive nonempty false fs
  · next absent =>
      have missing : fs.root.lookup name = none := by
        simpa [fsFileExists, usable_some nonempty] using absent
      simp only [Plan.delete, missing, Plan.reject, and_self]

theorem fsAddEntry_memory (name : CString) (startLba sizeSect : Word) (fs : State) :
    match fs.root.freeSlot with
    | none => (fsAddEntry drive name startLba sizeSect fs).1 = false ∧
        SameMemory (fsAddEntry drive name startLba sizeSect fs).2 fs
    | some slot => SameMemory (fsAddEntry drive name startLba sizeSect fs).2
        { fs with
          root := fs.root.setFile slot
            ⟨copyName (fs.root.files slot).name name, startLba, sizeSect⟩ } := by
  unfold fsAddEntry
  cases fs.root.freeSlot with
  | none => exact ⟨rfl, rfl, rfl⟩
  | some slot =>
      rcases saved : fsRootSave drive
        { fs with
          root := fs.root.setFile slot
            (FileEntry.mk (copyName (fs.root.files slot).name name) startLba sizeSect) }
        with ⟨_ | _, after⟩
      all_goals
        obtain ⟨sameRoot, sameBitmap⟩ := fsRootSave_memory drive saved
        simp only [saved]
        exact ⟨sameRoot, sameBitmap⟩

end Drive

/-- Taking an allocation back restores the bitmap, also one of no sectors. -/
theorem marked_marked_found {count : Word} (found : bitmapFindFreeRun bitmap count ≠ 0) :
    marked (bitmapFindFreeRun bitmap count) count 0
      (marked (bitmapFindFreeRun bitmap count) count 1 bitmap) = bitmap := by
  by_cases positive : 0 < count.toNat
  · exact (bitmapFindFreeRun_freeRun positive found).marked_marked
  · funext index
    rw [marked_outside 0 (by omega), marked_outside 1 (by omega)]

/-! ### Calls -/

/-- The data of a file can be written to the run that is found for it. -/
def stores (drive : Drive) (data : Nat → Byte) (sizeBytes : Word) (fs : State) : Bool :=
  (writeLoop drive data sizeBytes.toNat sizeBytes
    (bitmapFindFreeRun fs.bitmap ((sizeBytes + 511) / 512)) 0 fs.disk).1

/-- The end of a write: the entry is added, or the allocation is taken back. -/
def enterOrFree (drive : Drive) (name : CString) (startLba count : Word) (verbose : Bool)
    (fs : State) : Bool × State :=
  match fsAddEntry drive name startLba count fs with
  | (false, fs) => (false, bitmapMark drive startLba count 0 fs)
  | (true, fs) => (true, kprintIf verbose "Fichier ecrit avec succes.\n" fs)

theorem enterOrFree_full (drive : Drive) (name : CString) {startLba : Word}
    (inData : ¬ startLba < fsDataLba) (count : Word) (verbose : Bool) {fs : State}
    (full : fs.root.freeSlot = none) :
    (enterOrFree drive name startLba count verbose fs).1 = false ∧
      SameMemory (enterOrFree drive name startLba count verbose fs).2
        { fs with bitmap := marked startLba count 0 fs.bitmap } := by
  have entered := fsAddEntry_memory drive name startLba count fs
  simp only [full] at entered
  rcases added : fsAddEntry drive name startLba count fs with ⟨ok, after⟩
  rw [added] at entered
  obtain ⟨failed, sameRoot, sameBitmap⟩ := entered
  obtain rfl : ok = false := failed
  have freed := bitmapMark_memory drive inData count 0 after
  simp only [enterOrFree, added, true_and]
  refine ⟨freed.root.trans sameRoot, freed.bitmap.trans ?_⟩
  simp only at sameBitmap ⊢
  rw [sameBitmap]

/-- The entry stays, also when it could not be saved. -/
theorem enterOrFree_slot (drive : Drive) (name : CString) {startLba : Word}
    (inData : ¬ startLba < fsDataLba) (count : Word) (verbose : Bool) {fs : State} {slot : Fin 32}
    (free : fs.root.freeSlot = some slot) :
    SameMemory (enterOrFree drive name startLba count verbose fs).2
      { fs with
        root := fs.root.setFile slot ⟨copyName (fs.root.files slot).name name, startLba, count⟩
        bitmap :=
          if (enterOrFree drive name startLba count verbose fs).1 then fs.bitmap
          else marked startLba count 0 fs.bitmap } := by
  have entered := fsAddEntry_memory drive name startLba count fs
  simp only [free] at entered
  rcases added : fsAddEntry drive name startLba count fs with ⟨_ | _, after⟩
  all_goals
    rw [added] at entered
    obtain ⟨sameRoot, sameBitmap⟩ := entered
    simp only at sameRoot sameBitmap
    simp only [enterOrFree, added, ↓reduceIte, Bool.false_eq_true]
  · have freed := bitmapMark_memory drive inData count 0 after
    refine ⟨freed.root.trans sameRoot, freed.bitmap.trans ?_⟩
    simp only
    rw [sameBitmap]
  · have printed := SameMemory.kprintIf verbose "Fichier ecrit avec succes.\n" after
    exact ⟨printed.root.trans sameRoot, printed.bitmap.trans sameBitmap⟩

/-- A write that comes to save the new entry leaves it in the directory, whatever it returns. The
sectors are marked only if it succeeds. -/
theorem fsWriteFileImpl_memory (drive : Drive) {name : CString} (nonempty : name.bytes ≠ [])
    (data : Nat → Byte) {sizeBytes : Word} (nonzero : sizeBytes ≠ 0) (verbose : Bool) (fs : State) :
    let cleared := overwritten drive (some name) fs
    let startLba := bitmapFindFreeRun cleared.bitmap ((sizeBytes + 511) / 512)
    let result := fsWriteFileImpl drive (some name) (some data) sizeBytes verbose fs
    ((startLba = 0 ∨ stores drive data sizeBytes cleared = false ∨ cleared.root.freeSlot = none) ∧
      result.1 = false ∧ SameMemory result.2 cleared) ∨
    ∃ slot, startLba ≠ 0 ∧ stores drive data sizeBytes cleared = true ∧
      cleared.root.freeSlot = some slot ∧
      SameMemory result.2
        { cleared with
          root := cleared.root.setFile slot
            ⟨copyName (cleared.root.files slot).name name, startLba, (sizeBytes + 511) / 512⟩
          bitmap :=
            if result.1 then marked startLba ((sizeBytes + 511) / 512) 1 cleared.bitmap
            else cleared.bitmap } := by
  intro cleared startLba result
  have unfolded : result = fsWriteFileImpl drive (some name) (some data) sizeBytes verbose fs := rfl
  unfold fsWriteFileImpl at unfolded
  simp only [usable_some nonempty, nonzero, ↓reduceIte] at unfolded
  rw [← overwritten, show overwritten drive (some name) fs = cleared from rfl] at unfolded
  by_cases full : startLba = 0
  · rw [if_pos full] at unfolded
    rw [unfolded]
    exact Or.inl ⟨Or.inl full, rfl, SameMemory.kprintIf ..⟩
  · rw [if_neg full] at unfolded
    have inData : ¬ startLba < fsDataLba := bitmapFindFreeRun_inData full
    rcases written : writeLoop drive data sizeBytes.toNat sizeBytes startLba 0 cleared.disk with
      ⟨_ | _, disk⟩
    · have failed : stores drive data sizeBytes cleared = false := congrArg Prod.fst written
      simp only [startLba] at written
      simp only [written] at unfolded
      rw [unfolded]
      have printed := SameMemory.kprintIf verbose "Erreur d'ecriture disque.\n"
        { cleared with disk := disk }
      exact Or.inl ⟨Or.inr (Or.inl failed), rfl, printed.root, printed.bitmap⟩
    · have done : stores drive data sizeBytes cleared = true := congrArg Prod.fst written
      simp only [startLba] at written
      simp only [written] at unfolded
      have marks := bitmapMark_memory drive inData ((sizeBytes + 511) / 512) 1
        { cleared with disk := disk }
      generalize allocated_eq : bitmapMark drive startLba ((sizeBytes + 511) / 512) 1
        { cleared with disk := disk } = allocated at marks
      have ended : result =
          enterOrFree drive name startLba ((sizeBytes + 511) / 512) verbose allocated := by
        rw [unfolded, ← allocated_eq]
        rfl
      have restored : marked startLba ((sizeBytes + 511) / 512) 0 allocated.bitmap =
          cleared.bitmap := by
        rw [marks.bitmap]
        exact marked_marked_found full
      rw [ended]
      cases free : cleared.root.freeSlot with
      | none =>
          have free' : allocated.root.freeSlot = none := by rw [marks.root]; exact free
          obtain ⟨failed, sameRoot, sameBitmap⟩ := enterOrFree_full drive name inData
            ((sizeBytes + 511) / 512) verbose free'
          exact Or.inl ⟨Or.inr (Or.inr rfl), failed, sameRoot.trans marks.root,
            sameBitmap.trans restored⟩
      | some slot =>
          have free' : allocated.root.freeSlot = some slot := by rw [marks.root]; exact free
          obtain ⟨sameRoot, sameBitmap⟩ := enterOrFree_slot drive name inData
            ((sizeBytes + 511) / 512) verbose free'
          refine Or.inr ⟨slot, full, done, rfl, ?_, ?_⟩
          · rw [sameRoot, marks.root]
          · rw [sameBitmap]
            split
            · exact marks.bitmap
            · exact restored

/-- The request enters a file with sectors of its own: there are a run and a free slot for it, and
its data can be written. -/
def Request.Enters (drive : Drive) (fs : State) : Request → Prop
  | .write name data sizeBytes =>
      let cleared := overwritten drive (some name) fs
      (sizeBytes + 511) / 512 ≠ 0 ∧
        bitmapFindFreeRun cleared.bitmap ((sizeBytes + 511) / 512) ≠ 0 ∧
        stores drive data sizeBytes cleared = true ∧ cleared.root.freeSlot ≠ none
  | .delete _ | .invalid => False

/-- Whatever fails on the disk, the invariant is kept unless an entry stays in the directory of
which the call returns that it was not written. -/
theorem fsWriteFileImpl_accounted_iff (drive : Drive) (name : Option CString)
    (data : Option (Nat → Byte)) (sizeBytes : Word) (verbose : Bool) {fs : State}
    (inv : Accounted fs.root fs.bitmap) :
    let result := fsWriteFileImpl drive name data sizeBytes verbose fs
    Accounted result.2.root result.2.bitmap ↔
      result.1 = true ∨ ¬ (Request.ofWrite name data sizeBytes).Enters drive fs := by
  intro result
  rcases Request.ofWrite_cases name data sizeBytes with
    invalid | ⟨given, content, rfl, rfl, nonempty, nonzero, request⟩
  · have same := SameMemory.kprintIf verbose "Parametres invalides.\n" fs
    simp only [result, fsWriteFileImpl_invalid invalid, invalid, same.root, same.bitmap]
    exact iff_of_true inv (Or.inr not_false)
  · rw [request]
    have memory := fsWriteFileImpl_memory drive nonempty content nonzero verbose fs
    have cleared : Accounted (overwritten drive (some given) fs).root
        (overwritten drive (some given) fs).bitmap := by
      obtain ⟨root, bitmap⟩ := overwritten_memory drive nonempty fs
      rw [root, bitmap]
      exact accounted_maintained.delete given inv
    simp only [Request.Enters]
    generalize overwritten drive (some given) fs = fs' at memory cleared ⊢
    rcases memory with ⟨stopped, failed, same⟩ | ⟨slot, found, done, free, same⟩
    · rw [same.root, same.bitmap]
      refine iff_of_true cleared (Or.inr ?_)
      rintro ⟨_, found, done, free⟩
      rcases stopped with none | failed | full
      · exact found none
      · exact Bool.false_ne_true (failed.symm.trans done)
      · exact free full
    · rw [same.root, same.bitmap]
      simp only
      have valid := validName_copyName (fs'.root.files slot).name nonempty
      by_cases some : (sizeBytes + 511) / 512 = 0
      · -- The sum wraps around, and the file gets no sectors.
        have zero : ((sizeBytes + 511) / 512).toNat = 0 := congrArg BitVec.toNat some
        have unmarked : marked (bitmapFindFreeRun fs'.bitmap ((sizeBytes + 511) / 512))
            ((sizeBytes + 511) / 512) 1 fs'.bitmap = fs'.bitmap := by
          funext index
          exact marked_outside 1 (by omega)
        rw [unmarked, ite_self]
        exact iff_of_true (cleared.add_empty zero slot) (Or.inr fun enters => enters.1 some)
      · have positive : 0 < ((sizeBytes + 511) / 512).toNat :=
          Nat.pos_of_ne_zero fun zero => some (BitVec.eq_of_toNat_eq zero)
        have run := bitmapFindFreeRun_freeRun positive found
        split
        · next succeeded =>
            exact iff_of_true (accounted_maintained.add cleared run (freeSlot_not_live free) valid)
              (Or.inl succeeded)
        · next failed =>
            refine iff_of_false (not_accounted valid run) ?_
            rintro (succeeded | stopped)
            · exact failed succeeded
            · exact stopped ⟨some, found, done, by rw [free]; exact Option.some_ne_none slot⟩

/-- From every state in which the sectors of the live entries are marked and belong to one entry,
and for every pattern of disk errors: a write that returns 0 leaves such a state, from which no
later write that succeeds makes two entries share a sector, if and only if it did not come to
saving a directory that lists the new file. -/
theorem failed_write_consistent_iff (drive : Drive) {fs : State}
    (inv : Accounted fs.root fs.bitmap) (name : Option CString) (data : Option (Nat → Byte))
    (sizeBytes : Word) (failed : (fsWriteFile drive name data sizeBytes fs).1 = false) :
    let after := (fsWriteFile drive name data sizeBytes fs).2
    (Accounted after.root after.bitmap ∧
      ∀ next name' data' sizeBytes', (fsWriteFile next name' data' sizeBytes' after).1 = true →
        Accounted (fsWriteFile next name' data' sizeBytes' after).2.root
          (fsWriteFile next name' data' sizeBytes' after).2.bitmap) ↔
      ¬ (Request.ofWrite name data sizeBytes).Enters drive fs := by
  intro after
  have kept : Accounted after.root after.bitmap ↔ _ :=
    fsWriteFileImpl_accounted_iff drive name data sizeBytes true inv
  rw [← fsWriteFile, failed] at kept
  simp only [Bool.false_eq_true, false_or] at kept
  rw [← kept]
  refine ⟨And.left, fun still => ⟨still, fun next name' data' sizeBytes' succeeded => ?_⟩⟩
  exact (fsWriteFileImpl_accounted_iff next name' data' sizeBytes' true still).mpr
    (Or.inl succeeded)

/-- A drive that answers three reads of the status port with an error, from the given one on. -/
def failingDrive (first : Nat) : Drive where
  status := fun poll => if first ≤ poll ∧ poll < first + 3 then 0x01 else 0x08

/-- A file of one byte is written to a new file system, and the drive reports errors while its data
is transferred. -/
theorem failed_data_write_consistent :
    let name : CString := ⟨[0x61], by decide⟩
    let fs := fsInit readyDrive blankBoot
    let result := fsWriteFile (failingDrive 18) (some name) (some fun _ => 0x78) 1 fs
    result.1 = false ∧ Accounted result.2.root result.2.bitmap := by
  intro name fs result
  have inv : Accounted fs.root fs.bitmap :=
    (fsInit_consistent readyDrive_reliable blankBoot_fresh).accounted
  have failed : result.1 = false := by decide +kernel
  refine ⟨failed, ((failed_write_consistent_iff (failingDrive 18) inv (some name)
    (some fun _ => 0x78) 1 failed).mpr fun enters => ?_).1⟩
  have stopped : stores (failingDrive 18) (fun _ => 0x78) 1
      (overwritten (failingDrive 18) (some name) fs) = false := by decide +kernel
  exact Bool.false_ne_true (stopped.symm.trans enters.2.2.1)

/-- The errors come while the directory is saved. The call returns 0, the file is listed with a
sector that is not marked, and a second file gets the same sector. -/
theorem failed_directory_save_shares_sector :
    let first : CString := ⟨[0x61], by decide⟩
    let second : CString := ⟨[0x62], by decide⟩
    let fs := fsInit readyDrive blankBoot
    let result := fsWriteFile (failingDrive 24) (some first) (some fun _ => 0x78) 1 fs
    let next := fsWriteFile (failingDrive 24) (some second) (some fun _ => 0x79) 1 result.2
    Accounted fs.root fs.bitmap ∧ result.1 = false ∧
      ¬ Accounted result.2.root result.2.bitmap ∧ next.1 = true ∧
      fsFileExists next.2 (some first) = true ∧ (next.2.root.files 0).Occupies 86 ∧
      fsFileExists next.2 (some second) = true ∧ (next.2.root.files 1).Occupies 86 := by
  intro first second fs result next
  have inv : Accounted fs.root fs.bitmap :=
    (fsInit_consistent readyDrive_reliable blankBoot_fresh).accounted
  have live : result.2.root.Live 0 := by decide +kernel
  have occupied : (result.2.root.files 0).Occupies (86 + (0 : Fin 512)) := by decide +kernel
  have free : result.2.bitmap 0 = 0 := by decide +kernel
  exact ⟨inv, by decide +kernel, fun still => still.marked 0 live 0 (by decide) occupied free,
    by decide +kernel, by decide +kernel, by decide +kernel, by decide +kernel, by decide +kernel⟩

end MxOS.Fs
