import MxOS.Drivers.FsPlan

/-! # The allocation invariant

Live directory entries own disjoint runs of data sectors, and the bitmap marks the
sectors they own. The weaker invariant, which holds even after a crash has leaked
sectors, is that owned sectors are marked; the stronger one, of undisturbed runs,
is that the marked sectors are exactly the owned ones.
-/

namespace MxOS.Fs

open ByteMemory Ata WriteLog

/-- The entry's extent contains the sector. -/
def FileEntry.Occupies (entry : FileEntry) (lba : Nat) : Prop :=
  entry.startLba.toNat ≤ lba ∧ lba < entry.startLba.toNat + entry.sizeSect.toNat

instance (entry : FileEntry) (lba : Nat) : Decidable (entry.Occupies lba) :=
  inferInstanceAs (Decidable (_ ∧ _))

def RootDirectory.Live (root : RootDirectory) (slot : Fin 32) : Prop :=
  validName (root.files slot).name = true

instance (root : RootDirectory) (slot : Fin 32) : Decidable (root.Live slot) :=
  inferInstanceAs (Decidable (_ = true))

/-- Sectors of live entries are marked, and no sector belongs to two of them. -/
structure Protected (root : RootDirectory) (bitmap : Sector) : Prop where
  marked : ∀ slot, root.Live slot → ∀ index : Fin 512, index.val < 511 →
    (root.files slot).Occupies (86 + index) → bitmap index ≠ 0
  disjoint : ∀ first second lba, root.Live first → root.Live second →
    (root.files first).Occupies lba → (root.files second).Occupies lba → first = second

/-- Live entries own sectors of the data area, other entries are empty, and the bitmap
tells exactly which sectors are owned. -/
structure Consistent (root : RootDirectory) (bitmap : Sector) : Prop where
  empty : ∀ slot, ¬ root.Live slot → root.files slot = FileEntry.empty
  inside : ∀ slot, root.Live slot → 86 ≤ (root.files slot).startLba.toNat ∧
    0 < (root.files slot).sizeSect.toNat ∧
    (root.files slot).startLba.toNat + (root.files slot).sizeSect.toNat ≤ 597
  disjoint : ∀ first second lba, root.Live first → root.Live second →
    (root.files first).Occupies lba → (root.files second).Occupies lba → first = second
  used : ∀ slot, root.Live slot → ∀ index : Fin 512, index.val < 511 →
    (root.files slot).Occupies (86 + index) → bitmap index = 1
  unused : ∀ index : Fin 512, index.val < 511 →
    (∀ slot, root.Live slot → ¬ (root.files slot).Occupies (86 + index)) → bitmap index = 0

variable {root : RootDirectory} {bitmap : Sector}

theorem Consistent.protected (consistent : Consistent root bitmap) : Protected root bitmap where
  marked := fun slot live index bound occupied => by
    rw [consistent.used slot live index bound occupied]
    decide
  disjoint := consistent.disjoint

/-! ### Directory slots -/

@[simp] theorem RootDirectory.setFile_self (root : RootDirectory) (slot : Fin 32)
    (entry : FileEntry) : (root.setFile slot entry).files slot = entry :=
  Function.update_self _ _ _

theorem RootDirectory.setFile_of_ne (root : RootDirectory) {slot other : Fin 32}
    (entry : FileEntry) (differ : other ≠ slot) :
    (root.setFile slot entry).files other = root.files other :=
  Function.update_of_ne differ _ _

theorem RootDirectory.live_setFile_of_ne {slot other : Fin 32} {entry : FileEntry}
    (differ : other ≠ slot) : (root.setFile slot entry).Live other ↔ root.Live other := by
  unfold RootDirectory.Live
  rw [root.setFile_of_ne entry differ]

theorem not_live_setFile {slot : Fin 32} {entry : FileEntry}
    (dead : validName entry.name = false) : ¬ (root.setFile slot entry).Live slot := by
  unfold RootDirectory.Live
  rw [root.setFile_self, dead]
  decide

/-- A live entry of a directory with one entry cleared is another, unchanged entry. -/
theorem live_setFile {slot other : Fin 32} {entry : FileEntry}
    (dead : validName entry.name = false) (live : (root.setFile slot entry).Live other) :
    other ≠ slot ∧ root.Live other := by
  have differ : other ≠ slot := by
    rintro rfl
    exact not_live_setFile dead live
  exact ⟨differ, (RootDirectory.live_setFile_of_ne differ).mp live⟩

theorem validName_empty : validName FileEntry.empty.name = false := by decide

theorem live_setFile_empty {slot other : Fin 32} (live : (root.setFile slot .empty).Live other) :
    other ≠ slot ∧ root.Live other := live_setFile validName_empty live

theorem lookup_live {name : CString} {slot : Fin 32} (found : root.lookup name = some slot) :
    root.Live slot := by
  have named : root.named name slot = true := List.find?_some found
  unfold RootDirectory.named at named
  exact (Bool.and_eq_true _ _ ▸ named).1

theorem freeSlot_not_live {slot : Fin 32} (found : root.freeSlot = some slot) :
    ¬ root.Live slot := by
  unfold RootDirectory.freeSlot at found
  have free := List.find?_some found
  intro live
  exact (validName_iff.mp live).1 (of_decide_eq_true free)

/-! ### Deleting -/

theorem Plan.erase_root (slot : Fin 32) :
    (Plan.erase root bitmap slot).root = root.setFile slot .empty := by
  simp only [Plan.erase]
  split <;> rfl

/-- Deleting clears the bitmap at most on the entry's sectors. -/
theorem Plan.erase_bitmap_of_not_occupies {slot : Fin 32} {index : Fin 512}
    (elsewhere : ¬ (root.files slot).Occupies (86 + index)) :
    (Plan.erase root bitmap slot).bitmap index = bitmap index := by
  simp only [Plan.erase]
  split
  · rfl
  · simp only [Fs.marked, fsDataLba_toNat]
    rw [if_neg]
    exact fun covered => elsewhere ⟨covered.1, covered.2.1⟩

theorem Plan.erase_bitmap_of_occupies {slot : Fin 32} {index : Fin 512}
    (inData : 86 ≤ (root.files slot).startLba.toNat) (bound : index.val < 511)
    (occupied : (root.files slot).Occupies (86 + index)) :
    (Plan.erase root bitmap slot).bitmap index = 0 := by
  have high : ¬ (root.files slot).startLba < fsDataLba := by
    rw [BitVec.lt_def, fsDataLba_toNat]
    omega
  simp only [Plan.erase, high, ↓reduceIte, Fs.marked, fsDataLba_toNat]
  exact if_pos ⟨occupied.1, occupied.2, bound⟩

/-- The sectors of a live entry may be freed once the entry is not live any more. -/
theorem Protected.release (inv : Protected root bitmap) {slot : Fin 32} (live : root.Live slot)
    {entry : FileEntry} (dead : validName entry.name = false) :
    Protected (root.setFile slot entry) (Plan.erase root bitmap slot).bitmap := by
  refine ⟨fun other live' index bound occupied => ?_, fun first second lba live₁ live₂ => ?_⟩
  · obtain ⟨differ, liveBefore⟩ := live_setFile dead live'
    rw [root.setFile_of_ne _ differ] at occupied
    rw [Plan.erase_bitmap_of_not_occupies fun shared =>
      differ (inv.disjoint other slot _ liveBefore live occupied shared)]
    exact inv.marked other liveBefore index bound occupied
  · obtain ⟨differ₁, before₁⟩ := live_setFile dead live₁
    obtain ⟨differ₂, before₂⟩ := live_setFile dead live₂
    rw [root.setFile_of_ne _ differ₁, root.setFile_of_ne _ differ₂]
    exact inv.disjoint first second lba before₁ before₂

theorem Protected.erase (inv : Protected root bitmap) {slot : Fin 32} (live : root.Live slot) :
    Protected (Plan.erase root bitmap slot).root (Plan.erase root bitmap slot).bitmap := by
  rw [Plan.erase_root]
  exact inv.release live validName_empty

theorem Consistent.erase (inv : Consistent root bitmap) {slot : Fin 32} (live : root.Live slot) :
    Consistent (Plan.erase root bitmap slot).root (Plan.erase root bitmap slot).bitmap := by
  have kept := inv.protected.erase live
  have inData := (inv.inside slot live).1
  rw [Plan.erase_root] at kept ⊢
  refine ⟨fun other dead => ?_, fun other live' => ?_, kept.disjoint,
    fun other live' index bound occupied => ?_, fun index bound unowned => ?_⟩
  · by_cases same : other = slot
    · rw [same, root.setFile_self]
    · rw [root.setFile_of_ne _ same]
      exact inv.empty other (mt (RootDirectory.live_setFile_of_ne same).mpr dead)
  · obtain ⟨differ, liveBefore⟩ := live_setFile_empty live'
    rw [root.setFile_of_ne _ differ]
    exact inv.inside other liveBefore
  · obtain ⟨differ, liveBefore⟩ := live_setFile_empty live'
    rw [root.setFile_of_ne _ differ] at occupied
    rw [Plan.erase_bitmap_of_not_occupies fun shared =>
      differ (inv.disjoint other slot _ liveBefore live occupied shared)]
    exact inv.used other liveBefore index bound occupied
  · by_cases freed : (root.files slot).Occupies (86 + index)
    · exact Plan.erase_bitmap_of_occupies inData bound freed
    · rw [Plan.erase_bitmap_of_not_occupies freed]
      apply inv.unused index bound
      intro other liveBefore occupied
      by_cases same : other = slot
      · exact freed (same ▸ occupied)
      · apply unowned other ((RootDirectory.live_setFile_of_ne same).mpr liveBefore)
        rwa [root.setFile_of_ne _ same]

/-! ### Storing -/

/-- A non-empty run of unmarked sectors in the data area. -/
structure FreeRun (bitmap : Sector) (startLba count : Word) : Prop where
  low : 86 ≤ startLba.toNat
  high : startLba.toNat + count.toNat ≤ 597
  positive : 0 < count.toNat
  free : ∀ index : Fin 512, startLba.toNat ≤ 86 + index →
    86 + index.val < startLba.toNat + count.toNat → bitmap index = 0

theorem bitmapFindFreeRun_freeRun {count : Word} (positive : 0 < count.toNat)
    (found : bitmapFindFreeRun bitmap count ≠ 0) :
    FreeRun bitmap (bitmapFindFreeRun bitmap count) count := by
  obtain ⟨runStart, below, scanned, start⟩ := bitmapFindFreeRun_bounds found
  have started : RunScan.Scanned (fun index => bitmap (Fin.ofNat 512 index) = 0) count.toNat
    0 0 0 := .initial positive
  have spec := @RunScan.scan_spec _ _ _ _ _ (fsDataSectors - 1) positive started
  rw [scanned] at spec
  obtain ⟨run, ends, _⟩ := spec
  simp only [fsDataLba_toNat, fsDataSectors_eq] at start ends below
  refine ⟨by omega, by omega, positive, fun index after before => ?_⟩
  have free := of_decide_eq_true (run (index - runStart) (by omega))
  have same : Fin.ofNat 512 (runStart + (index.val - runStart)) = index := by
    apply Fin.ext
    rw [Fin.val_ofNat]
    omega
  rwa [same] at free

theorem FreeRun.marked_inside {startLba count : Word} (run : FreeRun bitmap startLba count)
    (used : Byte) {index : Fin 512} (after : startLba.toNat ≤ 86 + index)
    (before : 86 + index.val < startLba.toNat + count.toNat) :
    marked startLba count used bitmap index = used := by
  have high := run.high
  simp only [marked, fsDataLba_toNat, fsDataSectors_eq]
  exact if_pos ⟨after, before, by omega⟩

theorem marked_outside {startLba count : Word} (used : Byte) {index : Fin 512}
    (outside : ¬ (startLba.toNat ≤ 86 + index ∧
      86 + index.val < startLba.toNat + count.toNat)) :
    marked startLba count used bitmap index = bitmap index := by
  simp only [marked, fsDataLba_toNat]
  exact if_neg fun covered => outside ⟨covered.1, covered.2.1⟩

/-- Taking an allocation back restores the bitmap. -/
theorem FreeRun.marked_marked {startLba count : Word} (run : FreeRun bitmap startLba count) :
    marked startLba count 0 (marked startLba count 1 bitmap) = bitmap := by
  funext index
  by_cases inside : startLba.toNat ≤ 86 + index ∧ 86 + index.val < startLba.toNat + count.toNat
  · have high := run.high
    rw [run.free index inside.1 inside.2, marked]
    simp only [fsDataLba_toNat, fsDataSectors_eq]
    exact if_pos ⟨inside.1, inside.2, by omega⟩
  · rw [marked_outside 0 inside, marked_outside 1 inside]

/-- A free run meets no live entry. -/
theorem Protected.not_occupies (inv : Protected root bitmap) {startLba count : Word}
    (run : FreeRun bitmap startLba count) {slot : Fin 32} (live : root.Live slot) {lba : Nat}
    (after : startLba.toNat ≤ lba) (before : lba < startLba.toNat + count.toNat) :
    ¬ (root.files slot).Occupies lba := by
  intro occupied
  have low := run.low
  have high := run.high
  obtain ⟨index, index_eq⟩ : ∃ index : Fin 512, 86 + index.val = lba :=
    ⟨⟨lba - 86, by omega⟩, by simp only; omega⟩
  subst index_eq
  exact inv.marked slot live index (by omega) occupied (run.free index after before)

section Adding

variable {startLba count : Word} {slot : Fin 32} {name : Fin 24 → Byte}

/-- An entry inside a free run may be added once the run is marked. -/
theorem Protected.add (inv : Protected root bitmap) (run : FreeRun bitmap startLba count)
    {entry : FileEntry} (within : ∀ lba, entry.Occupies lba →
      startLba.toNat ≤ lba ∧ lba < startLba.toNat + count.toNat) :
    Protected (root.setFile slot entry) (Fs.marked startLba count 1 bitmap) := by
  have apart : ∀ other lba, root.Live other → (root.files other).Occupies lba →
      ¬ entry.Occupies lba := by
    intro other lba live occupied shared
    exact inv.not_occupies run live (within lba shared).1 (within lba shared).2 occupied
  refine ⟨fun other live index bound occupied => ?_,
    fun first second lba live₁ live₂ occupied₁ occupied₂ => ?_⟩
  · by_cases same : other = slot
    · subst same
      rw [root.setFile_self] at occupied
      rw [run.marked_inside 1 (within _ occupied).1 (within _ occupied).2]
      decide
    · rw [RootDirectory.live_setFile_of_ne same] at live
      rw [root.setFile_of_ne _ same] at occupied
      rw [marked_outside 1 fun inside => inv.not_occupies run live inside.1 inside.2 occupied]
      exact inv.marked other live index bound occupied
  · by_cases same₁ : first = slot
    · by_cases same₂ : second = slot
      · rw [same₁, same₂]
      · rw [same₁, root.setFile_self] at occupied₁
        rw [root.setFile_of_ne _ same₂] at occupied₂
        rw [RootDirectory.live_setFile_of_ne same₂] at live₂
        exact absurd occupied₁ (apart second lba live₂ occupied₂)
    · rw [root.setFile_of_ne _ same₁] at occupied₁
      rw [RootDirectory.live_setFile_of_ne same₁] at live₁
      by_cases same₂ : second = slot
      · rw [same₂, root.setFile_self] at occupied₂
        exact absurd occupied₂ (apart first lba live₁ occupied₁)
      · rw [root.setFile_of_ne _ same₂] at occupied₂
        rw [RootDirectory.live_setFile_of_ne same₂] at live₂
        exact inv.disjoint first second lba live₁ live₂ occupied₁ occupied₂

theorem Consistent.add (inv : Consistent root bitmap) (run : FreeRun bitmap startLba count)
    (dead : ¬ root.Live slot) (valid : validName name = true) :
    Consistent (root.setFile slot ⟨name, startLba, count⟩) (marked startLba count 1 bitmap) := by
  have isLive : (root.setFile slot ⟨name, startLba, count⟩).Live slot := by
    unfold RootDirectory.Live
    rw [root.setFile_self]
    exact valid
  have kept : Protected (root.setFile slot ⟨name, startLba, count⟩)
      (Fs.marked startLba count 1 bitmap) := inv.protected.add run fun _ occupied => occupied
  refine ⟨fun other dead' => ?_, fun other live => ?_, kept.disjoint,
    fun other live index bound occupied => ?_, fun index bound unowned => ?_⟩
  · by_cases same : other = slot
    · exact absurd (same ▸ isLive) dead'
    · rw [root.setFile_of_ne _ same]
      exact inv.empty other (mt (RootDirectory.live_setFile_of_ne same).mpr dead')
  · by_cases same : other = slot
    · rw [same, root.setFile_self]
      exact ⟨run.low, run.positive, run.high⟩
    · rw [root.setFile_of_ne _ same]
      exact inv.inside other ((RootDirectory.live_setFile_of_ne same).mp live)
  · by_cases same : other = slot
    · subst same
      rw [root.setFile_self] at occupied
      exact run.marked_inside 1 occupied.1 occupied.2
    · rw [RootDirectory.live_setFile_of_ne same] at live
      rw [root.setFile_of_ne _ same] at occupied
      rw [marked_outside 1 fun inside =>
        inv.protected.not_occupies run live inside.1 inside.2 occupied]
      exact inv.used other live index bound occupied
  · have outside := unowned slot isLive
    rw [root.setFile_self] at outside
    rw [marked_outside 1 outside]
    apply inv.unused index bound
    intro other live occupied
    have differ : other ≠ slot := fun same => dead (same ▸ live)
    apply unowned other ((RootDirectory.live_setFile_of_ne differ).mpr live)
    rwa [root.setFile_of_ne _ differ]

end Adding

/-! ### Calls -/

/-- A size that is not zero and does not wrap when it is rounded up to sectors. -/
def Sized (sizeBytes : Word) : Prop := 1 ≤ sizeBytes.toNat ∧ sizeBytes.toNat ≤ 0xFFFFFE00

def Call.Sized : Call → Prop
  | .write _ _ sizeBytes => Fs.Sized sizeBytes
  | .writeSilent _ _ sizeBytes => Fs.Sized sizeBytes
  | .delete _ => True
  | .deleteSilent _ => True

def Request.Sized : Request → Prop
  | .invalid => True
  | .write name _ sizeBytes => name.bytes ≠ [] ∧ Fs.Sized sizeBytes
  | .delete _ => True

theorem Request.ofWrite_sized (given : Option CString) (data : Option (Nat → Byte))
    {sizeBytes : Word} (sized : Fs.Sized sizeBytes) :
    (Request.ofWrite given data sizeBytes).Sized := by
  rcases Request.ofWrite_cases given data sizeBytes with
    invalid | ⟨name, content, _, _, nonempty, _, request⟩
  · rw [invalid]
    trivial
  · rw [request]
    exact ⟨nonempty, sized⟩

theorem Request.ofDelete_sized (given : Option CString) : (Request.ofDelete given).Sized := by
  unfold Request.ofDelete
  cases usable given with
  | none => trivial
  | some name => trivial

theorem Call.request_sized {call : Call} (sized : call.Sized) : call.request.Sized := by
  cases call with
  | write name data sizeBytes => exact Request.ofWrite_sized name data sized
  | writeSilent name data sizeBytes => exact Request.ofWrite_sized name data sized
  | delete name => exact Request.ofDelete_sized name
  | deleteSilent name => exact Request.ofDelete_sized name

theorem Sized.sectors {sizeBytes : Word} (sized : Sized sizeBytes) :
    ((sizeBytes + 511) / 512).toNat = (sizeBytes.toNat + 511) / 512 := by
  obtain ⟨_, high⟩ := sized
  have sum : (sizeBytes + 511).toNat = sizeBytes.toNat + 511 := by bv_omega
  rw [BitVec.toNat_udiv, sum]
  rfl

/-- The three outcomes of storing a file: no space, no directory slot, or success. -/
theorem Plan.store_cases {name : CString} {data : Nat → Byte} {sizeBytes : Word}
    (sized : Sized sizeBytes) :
    Plan.store root bitmap name data sizeBytes = .reject root bitmap ∨
    ∃ startLba, FreeRun bitmap startLba ((sizeBytes + 511) / 512) ∧
      (root.freeSlot = none ∧
        Plan.store root bitmap name data sizeBytes =
          ⟨false, root, bitmap, dataWrites data startLba sizeBytes.toNat ++
            [bitmapWrite (marked startLba ((sizeBytes + 511) / 512) 1 bitmap)] ++
            [bitmapWrite bitmap]⟩ ∨
      ∃ slot, root.freeSlot = some slot ∧
        Plan.store root bitmap name data sizeBytes =
          ⟨true,
            root.setFile slot
              ⟨copyName (root.files slot).name name, startLba, (sizeBytes + 511) / 512⟩,
            marked startLba ((sizeBytes + 511) / 512) 1 bitmap,
            dataWrites data startLba sizeBytes.toNat ++
              [bitmapWrite (marked startLba ((sizeBytes + 511) / 512) 1 bitmap)] ++
              rootWrites (root.setFile slot
                ⟨copyName (root.files slot).name name, startLba, (sizeBytes + 511) / 512⟩)⟩) := by
  by_cases full : bitmapFindFreeRun bitmap ((sizeBytes + 511) / 512) = 0
  · left
    simp only [Plan.store, full, ↓reduceIte]
  · right
    have run := bitmapFindFreeRun_freeRun
      (by rw [sized.sectors]; have positive := sized.1; omega) full
    refine ⟨_, run, ?_⟩
    cases free : root.freeSlot with
    | none =>
        left
        simp only [Plan.store, full, ↓reduceIte, free, run.marked_marked, and_self]
    | some slot =>
        right
        exact ⟨slot, rfl, by simp only [Plan.store, full, ↓reduceIte, free]⟩

/-- A property of directory and bitmap that clearing a live entry and adding an entry for a
free run keep. -/
structure Maintained (Inv : RootDirectory → Sector → Prop) : Prop where
  erase : ∀ {root bitmap slot}, Inv root bitmap → root.Live slot →
    Inv (Plan.erase root bitmap slot).root (Plan.erase root bitmap slot).bitmap
  add : ∀ {root bitmap startLba count slot name}, Inv root bitmap →
    FreeRun bitmap startLba count → ¬ root.Live slot → validName name = true →
    Inv (root.setFile slot ⟨name, startLba, count⟩) (marked startLba count 1 bitmap)

theorem protected_maintained : Maintained Protected :=
  ⟨fun inv live => inv.erase live, fun inv run _ _ => inv.add run fun _ occupied => occupied⟩

theorem consistent_maintained : Maintained Consistent :=
  ⟨fun inv live => inv.erase live, fun inv run dead valid => inv.add run dead valid⟩

section Maintained

variable {Inv : RootDirectory → Sector → Prop} (maintained : Maintained Inv)
include maintained

theorem Maintained.delete (name : CString) (inv : Inv root bitmap) :
    Inv (Plan.delete root bitmap name).root (Plan.delete root bitmap name).bitmap := by
  unfold Plan.delete
  cases found : root.lookup name with
  | none => exact inv
  | some slot => exact maintained.erase inv (lookup_live found)

theorem Maintained.store {name : CString} (data : Nat → Byte) {sizeBytes : Word}
    (nonempty : name.bytes ≠ []) (sized : Sized sizeBytes) (inv : Inv root bitmap) :
    Inv (Plan.store root bitmap name data sizeBytes).root
      (Plan.store root bitmap name data sizeBytes).bitmap := by
  obtain rejected | ⟨startLba, run, ⟨_, full⟩ | ⟨slot, free, stored⟩⟩ :=
    @Plan.store_cases root bitmap name data sizeBytes sized
  · rw [rejected]
    exact inv
  · rw [full]
    exact inv
  · rw [stored]
    exact maintained.add inv run (freeSlot_not_live free) (validName_copyName _ nonempty)

theorem Maintained.plan {request : Request} (sized : request.Sized) (inv : Inv root bitmap) :
    Inv (request.plan root bitmap).root (request.plan root bitmap).bitmap := by
  cases request with
  | invalid => exact inv
  | write name data sizeBytes =>
      exact maintained.store data sized.1 sized.2 (maintained.delete name inv)
  | delete name => exact maintained.delete name inv

theorem Maintained.run {drive : Drive} (reliable : drive.Reliable) {calls : List Call}
    (sized : ∀ call ∈ calls, call.Sized) {fs : State} (inv : Inv fs.root fs.bitmap) :
    Inv (run drive calls fs).root (run drive calls fs).bitmap := by
  induction calls generalizing fs with
  | nil => exact inv
  | cons call rest ih =>
      have performs := perform_performs reliable call fs
      apply ih (fun later member => sized later (List.mem_cons_of_mem _ member))
      rw [performs.root, performs.bitmap]
      exact maintained.plan (Call.request_sized (sized call (List.mem_cons_self ..))) inv

end Maintained

/-! ### From a fresh disk -/

/-- The disk of the build image, with the magic number followed by zeros and a bitmap of
zeros, or any disk without the magic number. -/
def FreshDisk (sectors : Lba28 → Sector) : Prop :=
  (∀ sector < fsRootSectors, ∀ index, sectors (sectorOf (rootSectorLba sector)) index =
      if 512 * sector + index.val < 4 then byteOf fsMagic index else 0) ∧
    (∀ index, sectors (sectorOf fsBitmapLba) index = 0) ∨
  (diskRoot sectors).magic ≠ fsMagic

theorem not_live_of_empty {slot : Fin 32} (empty : root.files slot = .empty) :
    ¬ root.Live slot := by
  unfold RootDirectory.Live
  rw [empty]
  decide

theorem Consistent.blank (empty : ∀ slot, root.files slot = .empty)
    (zeros : ∀ index, bitmap index = 0) : Consistent root bitmap := by
  have dead : ∀ slot, ¬ root.Live slot := fun slot => not_live_of_empty (empty slot)
  exact ⟨fun slot _ => empty slot, fun slot live => absurd live (dead slot),
    fun first _ _ live => absurd live (dead first), fun slot live => absurd live (dead slot),
    fun index _ _ => zeros index⟩

/-- The entries of the build image's directory are empty. -/
theorem diskRoot_files_of_image {sectors : Lba28 → Sector}
    (image : ∀ sector < fsRootSectors, ∀ index, sectors (sectorOf (rootSectorLba sector)) index =
      if 512 * sector + index.val < 4 then byteOf fsMagic index else 0) (slot : Fin 32) :
    (diskRoot sectors).files slot = .empty := by
  have zero : ∀ offset, 4 ≤ offset → offset < 1056 →
      sectors (sectorOf (rootSectorLba (offset / 512))) (Fin.ofNat 512 offset) = 0 := by
    intro offset low high
    rw [image _ (by rw [fsRootSectors_eq]; omega), if_neg]
    rw [Fin.val_ofNat]
    omega
  have word : wordOf (fun _ => 0) = 0 := by decide
  simp only [diskRoot, RootDirectory.ofRaw, FileEntry.ofRaw, FileEntry.empty]
  congr 1
  · funext index
    exact zero _ (by omega) (by omega)
  · exact (wordOf_congr fun index bound => zero _ (by omega) (by omega)).trans word
  · exact (wordOf_congr fun index bound => zero _ (by omega) (by omega)).trans word

theorem fsInit_blank {drive : Drive} (reliable : drive.Reliable) {boot : State}
    (fresh : FreshDisk boot.disk.sectors) :
    (∀ slot, (fsInit drive boot).root.files slot = .empty) ∧
      ∀ index, (fsInit drive boot).bitmap index = 0 := by
  by_cases magic : (diskRoot boot.disk.sectors).magic = fsMagic
  · obtain ⟨after, mounted, _⟩ := fsInit_mounts reliable magic
    obtain ⟨image, zeros⟩ := fresh.resolve_right (not_not_intro magic)
    rw [mounted]
    exact ⟨diskRoot_files_of_image image, zeros⟩
  · obtain ⟨after, formatted, _⟩ := fsInit_formats reliable magic
    rw [formatted]
    exact ⟨fun _ => rfl, fun _ => rfl⟩

theorem fsInit_consistent {drive : Drive} (reliable : drive.Reliable) {boot : State}
    (fresh : FreshDisk boot.disk.sectors) :
    Consistent (fsInit drive boot).root (fsInit drive boot).bitmap :=
  .blank (fsInit_blank reliable fresh).1 (fsInit_blank reliable fresh).2

/-- In every state reached from a fresh disk the bitmap says exactly which data sectors
belong to a live entry; none belongs to two, and every live extent is a non-empty part of
the data area. So no sector is leaked or allocated twice. -/
theorem bitmap_exact {drive : Drive} (reliable : drive.Reliable) (boot : State)
    (fresh : FreshDisk boot.disk.sectors) (calls : List Call)
    (sized : ∀ call ∈ calls, call.Sized) :
    let fs := run drive calls (fsInit drive boot)
    (∀ index : Fin 512, index.val < fsDataSectors - 1 →
      (fs.bitmap index = 1 ↔ ∃! slot, fs.root.Live slot ∧
        (fs.root.files slot).Occupies (fsDataLba.toNat + index)) ∧
      (fs.bitmap index = 0 ↔ ¬ ∃ slot, fs.root.Live slot ∧
        (fs.root.files slot).Occupies (fsDataLba.toNat + index))) ∧
    (∀ first second lba, fs.root.Live first → fs.root.Live second →
      (fs.root.files first).Occupies lba → (fs.root.files second).Occupies lba →
      first = second) ∧
    ∀ slot, fs.root.Live slot → 0 < (fs.root.files slot).sizeSect.toNat ∧
      fsDataLba.toNat ≤ (fs.root.files slot).startLba.toNat ∧
      (fs.root.files slot).startLba.toNat + (fs.root.files slot).sizeSect.toNat ≤
        fsDataEndLba.toNat := by
  intro fs
  have inv : Consistent fs.root fs.bitmap :=
    consistent_maintained.run reliable sized (fsInit_consistent reliable fresh)
  refine ⟨fun index bound => ?_, inv.disjoint, fun slot live => ?_⟩
  · rw [fsDataSectors_eq] at bound
    rw [fsDataLba_toNat]
    by_cases owned : ∃ slot, fs.root.Live slot ∧ (fs.root.files slot).Occupies (86 + index)
    · obtain ⟨slot, live, occupied⟩ := owned
      have used := inv.used slot live index bound occupied
      refine ⟨⟨fun _ => ⟨slot, ⟨live, occupied⟩, ?_⟩, fun _ => used⟩, ?_⟩
      · rintro other ⟨live', occupied'⟩
        exact inv.disjoint other slot _ live' live occupied' occupied
      · rw [used]
        exact ⟨fun zero => absurd zero (by decide), fun none => absurd ⟨slot, live, occupied⟩ none⟩
    · have unused := inv.unused index bound fun slot live occupied =>
        owned ⟨slot, live, occupied⟩
      rw [unused]
      refine ⟨⟨fun one => absurd one (by decide), ?_⟩, fun _ => owned, fun _ => rfl⟩
      rintro ⟨slot, both, _⟩
      exact absurd ⟨slot, both⟩ owned
  · obtain ⟨low, positive, high⟩ := inv.inside slot live
    exact ⟨positive, by rwa [fsDataLba_toNat], high⟩

theorem blankBoot_fresh : FreshDisk blankBoot.disk.sectors := Or.inr (by decide)

theorem bitmap_exact_after_write :
    let name : CString := ⟨[0x61], by decide⟩
    let fs := run readyDrive [.write (some name) (some fun _ => 0x78) 513]
      (fsInit readyDrive blankBoot)
    fs.bitmap 1 = 1 ∧ ∃! slot, fs.root.Live slot ∧
      (fs.root.files slot).Occupies (fsDataLba.toNat + 1) := by
  intro name fs
  have sized : ∀ call ∈ [Call.write (some name) (some fun _ => 0x78) 513], call.Sized := by
    intro call member
    obtain rfl := List.mem_singleton.mp member
    exact ⟨by decide, by decide⟩
  have used : fs.bitmap 1 = 1 := by decide +kernel
  have exactly := (bitmap_exact readyDrive_reliable blankBoot blankBoot_fresh _ sized).1 1
    (by decide)
  exact ⟨used, exactly.1.mp used⟩

end MxOS.Fs
