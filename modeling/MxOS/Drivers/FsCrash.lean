import MxOS.Drivers.FsInvariant
import MxOS.Drivers.FsReboot

/-! # Crashes

A crash keeps a prefix of the sector writes a run issues. Storing a file writes the
bitmap before the directory, so that a sector is marked before an entry owns it.
Deleting a file also writes the bitmap first: until the directory sector with the
name has followed, the disk has an entry whose sectors are free. These are the only
crash points after which the mounted file system is not protected.
-/

namespace MxOS.Fs

open ByteMemory Ata WriteLog

variable {root : RootDirectory} {bitmap : Sector} {sectors : Lba28 → Sector}

/-- What mounting a disk yields is protected. -/
def Recoverable (sectors : Lba28 → Sector) : Prop :=
  Protected (diskRoot sectors) (diskBitmap sectors)

/-- The entry a request deletes, be it to write a new file of the same name. -/
def Request.victim (root : RootDirectory) : Request → Option (Fin 32)
  | .invalid => none
  | .write name _ _ => root.lookup name
  | .delete name => root.lookup name

/-- The crash points of a request between freeing the victim's sectors and erasing its name,
counted in the writes the request has issued. -/
def Exposed (victim : Option (Fin 32)) (done : Nat) : Prop :=
  ∃ slot, victim = some slot ∧ 1 ≤ done ∧ done ≤ 1 + slot.val / 16

/-- A directory saved up to some sector, when the new version differs in one entry. -/
theorem mixed_setFile (root : RootDirectory) (slot : Fin 32) (entry : FileEntry) (saved : Nat) :
    mixed (fun sector => if sector < saved then root.setFile slot entry else root) =
      root.setFile slot
        { name := if slot.val / 16 < saved then entry.name else (root.files slot).name
          startLba := if slot.val / 16 < saved then entry.startLba else (root.files slot).startLba
          sizeSect :=
            if (slot.val + 1) / 16 < saved then entry.sizeSect
            else (root.files slot).sizeSect } := by
  have field : ∀ {Value : Type} (part : RootDirectory → Value) (sector : Nat),
      part (root.setFile slot entry) = part root →
      part (if sector < saved then root.setFile slot entry else root) = part root := by
    intro Value part sector same
    split
    · exact same
    · rfl
  apply RootDirectory.ext
  · exact field (·.magic) 0 rfl
  · funext other
    by_cases same : other = slot
    · subst same
      rw [root.setFile_self]
      apply FileEntry.ext
      · simp only [mixed]
        split
        · rw [root.setFile_self]
        · rfl
      · simp only [mixed]
        split
        · rw [root.setFile_self]
        · rfl
      · simp only [mixed]
        split
        · rw [root.setFile_self]
        · rfl
    · have unchanged : ∀ sector,
          (if sector < saved then root.setFile slot entry else root).files other =
            root.files other :=
        fun sector => field (·.files other) sector (root.setFile_of_ne entry same)
      rw [root.setFile_of_ne _ same]
      simp only [mixed, unchanged]
  · exact field (·.nextFreeLba) 2 rfl
  · exact field (·.reserved) 2 rfl

/-! ### Storing -/

/-- Marking a run keeps every live entry protected. -/
theorem Protected.mark (inv : Protected root bitmap) {startLba count : Word}
    (run : FreeRun bitmap startLba count) : Protected root (Fs.marked startLba count 1 bitmap) where
  marked := by
    intro slot live index bound occupied
    rw [marked_outside 1 fun inside => inv.not_occupies run live inside.1 inside.2 occupied]
    exact inv.marked slot live index bound occupied
  disjoint := inv.disjoint

/-- Saving part of a directory with a new entry exposes at most sectors of the marked run. -/
theorem Protected.addPart (inv : Consistent root bitmap) {startLba count : Word}
    (run : FreeRun bitmap startLba count) {slot : Fin 32} (dead : ¬ root.Live slot)
    (name : Fin 24 → Byte) (saved : Nat) :
    Protected
      (mixed fun sector =>
        if sector < saved then root.setFile slot ⟨name, startLba, count⟩ else root)
      (Fs.marked startLba count 1 bitmap) := by
  rw [mixed_setFile, inv.empty slot dead]
  apply inv.protected.add run
  intro lba occupied
  by_cases named : slot.val / 16 < saved
  · simp only [named, ↓reduceIte, FileEntry.Occupies] at occupied
    split at occupied
    · exact occupied
    · have none : (FileEntry.empty.sizeSect).toNat = 0 := rfl
      omega
  · have unsized : ¬ (slot.val + 1) / 16 < saved := by omega
    simp only [named, unsized, ↓reduceIte, FileEntry.Occupies] at occupied
    have none : (FileEntry.empty.sizeSect).toNat = 0 := rfl
    omega

/-- A deletion issues more writes than its exposed crash points reach. -/
theorem delete_writes_length {name : CString} {slot : Fin 32}
    (found : root.lookup name = some slot) (bitmap : Sector) :
    1 + slot.val / 16 < (Plan.delete root bitmap name).writes.length := by
  have directory : ∀ next : RootDirectory, (rootWrites next).length = 3 := fun _ => rfl
  simp only [Plan.delete, found, Plan.erase]
  split
  · rw [directory]
    omega
  · rw [List.length_append, directory]
    omega

section OneRequest

variable (onDisk : diskRoot sectors = root) (bitmapOnDisk : diskBitmap sectors = bitmap)
include onDisk bitmapOnDisk

theorem recoverable_iff : Recoverable sectors ↔ Protected root bitmap := by
  unfold Recoverable
  rw [onDisk, bitmapOnDisk]

omit bitmapOnDisk in
/-- The disk after a bitmap and part of a directory. -/
theorem recoverable_mixed_iff (marks : Sector) (next : RootDirectory) (saved : Nat) :
    Recoverable (replay ((rootWrites next).take saved) (replay [bitmapWrite marks] sectors)) ↔
      Protected (mixed fun sector => if sector < saved then next else root) marks := by
  apply recoverable_iff
  · rw [diskRoot_rootWrites_take, diskRoot_bitmapWrite, onDisk]
  · rw [diskBitmap_rootWrites_take, diskBitmap_bitmapWrite]

/-- A crash while file contents are written leaves directory and bitmap as they were. -/
theorem contents_take {startLba : Word} {count : Word} (run : FreeRun bitmap startLba count)
    (data : Nat → Byte) (sizeBytes : Word) (done : Nat) :
    diskRoot (replay ((dataWrites data startLba sizeBytes.toNat).take done) sectors) = root ∧
      diskBitmap (replay ((dataWrites data startLba sizeBytes.toNat).take done) sectors) =
        bitmap := by
  have away : ∀ write ∈ (dataWrites data startLba sizeBytes.toNat).take done,
      86 ≤ write.1.toNat := by
    intro write member
    have high := run.high
    have positive := run.positive
    exact mem_dataWrites run.low (by omega) sizeBytes.isLt (List.mem_of_mem_take member)
  constructor
  · rw [diskRoot_replay (fun write member => Or.inr (by have := away write member; omega)), onDisk]
  · rw [diskBitmap_replay (fun write member => by have := away write member; omega), bitmapOnDisk]

/-- Storing a file is safe at every crash point. -/
theorem store_recoverable (inv : Consistent root bitmap) (name : CString) (data : Nat → Byte)
    {sizeBytes : Word} (sized : Sized sizeBytes) (done : Nat) :
    Recoverable
      (replay ((Plan.store root bitmap name data sizeBytes).writes.take done) sectors) := by
  obtain rejected | ⟨startLba, run, outcome⟩ :=
    @Plan.store_cases root bitmap name data sizeBytes sized
  · rw [rejected, Plan.reject, List.take_nil, replay_nil, recoverable_iff onDisk bitmapOnDisk]
    exact inv.protected
  · obtain ⟨rootKept, bitmapKept⟩ := contents_take onDisk bitmapOnDisk run data sizeBytes done
    rcases outcome with ⟨_, full⟩ | ⟨slot, free, stored⟩
    · rw [full, List.append_assoc, List.take_append, replay_append]
      cases done - (dataWrites data startLba sizeBytes.toNat).length with
      | zero =>
          rw [List.take_zero, replay_nil, recoverable_iff rootKept bitmapKept]
          exact inv.protected
      | succ more =>
          rw [List.singleton_append, List.take_succ_cons, ← List.singleton_append, replay_append]
          cases more with
          | zero =>
              rw [List.take_zero, replay_nil,
                recoverable_iff (diskRoot_bitmapWrite _ _) (diskBitmap_bitmapWrite _ _), rootKept]
              exact inv.protected.mark run
          | succ more =>
              rw [List.take_succ_cons, List.take_nil,
                recoverable_iff (diskRoot_bitmapWrite _ _) (diskBitmap_bitmapWrite _ _),
                diskRoot_bitmapWrite, rootKept]
              exact inv.protected
    · rw [stored, List.append_assoc, List.take_append, replay_append]
      cases done - (dataWrites data startLba sizeBytes.toNat).length with
      | zero =>
          rw [List.take_zero, replay_nil, recoverable_iff rootKept bitmapKept]
          exact inv.protected
      | succ more =>
          rw [List.singleton_append, List.take_succ_cons, ← List.singleton_append, replay_append,
            recoverable_mixed_iff rootKept]
          exact .addPart inv run (freeSlot_not_live free) _ more

/-- Deleting an entry is safe but between freeing its sectors and erasing its name. -/
theorem erase_recoverable_iff (inv : Consistent root bitmap) {slot : Fin 32}
    (live : root.Live slot) (done : Nat) :
    Recoverable (replay ((Plan.erase root bitmap slot).writes.take done) sectors) ↔
      ¬ (1 ≤ done ∧ done ≤ 1 + slot.val / 16) := by
  obtain ⟨low, positive, high⟩ := inv.inside slot live
  have inData : ¬ (root.files slot).startLba < fsDataLba := by
    rw [BitVec.lt_def, fsDataLba_toNat]
    omega
  have writes : (Plan.erase root bitmap slot).writes =
      bitmapWrite (Plan.erase root bitmap slot).bitmap ::
        rootWrites (root.setFile slot .empty) := by
    simp only [Plan.erase, inData, ↓reduceIte, List.singleton_append]
  cases done with
  | zero =>
      rw [List.take_zero, replay_nil, recoverable_iff onDisk bitmapOnDisk]
      exact ⟨fun _ reached => absurd reached.1 (by omega), fun _ => inv.protected⟩
  | succ saved =>
      rw [writes, List.take_succ_cons, ← List.singleton_append, replay_append,
        recoverable_mixed_iff onDisk, mixed_setFile]
      by_cases erased : slot.val / 16 < saved
      · refine ⟨fun _ reached => by omega, fun _ => inv.protected.release live ?_⟩
        simp only [erased, ↓reduceIte]
        exact validName_empty
      · have unsized : ¬ (slot.val + 1) / 16 < saved := by omega
        simp only [erased, unsized, ↓reduceIte]
        refine ⟨fun safe => ?_, fun unreached => absurd ⟨by omega, by omega⟩ unreached⟩
        obtain ⟨index, first⟩ : ∃ index : Fin 512,
            86 + index.val = (root.files slot).startLba.toNat :=
          ⟨⟨(root.files slot).startLba.toNat - 86, by omega⟩, by simp only; omega⟩
        have occupied : (root.files slot).Occupies (86 + index) := ⟨by omega, by omega⟩
        have freed := @Plan.erase_bitmap_of_occupies root bitmap slot index low (by omega) occupied
        have stillLive : (root.setFile slot (root.files slot)).Live slot := by
          unfold RootDirectory.Live
          rw [root.setFile_self]
          exact live
        refine absurd freed (safe.marked slot stillLive index (by omega) ?_)
        rwa [root.setFile_self]

theorem delete_recoverable_iff (inv : Consistent root bitmap) (name : CString) (done : Nat) :
    Recoverable (replay ((Plan.delete root bitmap name).writes.take done) sectors) ↔
      ¬ Exposed (root.lookup name) done := by
  unfold Plan.delete Exposed
  cases found : root.lookup name with
  | none =>
      rw [Plan.reject, List.take_nil, replay_nil, recoverable_iff onDisk bitmapOnDisk]
      refine ⟨fun _ => ?_, fun _ => inv.protected⟩
      rintro ⟨slot, victim, _⟩
      exact absurd victim (Option.some_ne_none _ ·.symm)
  | some slot =>
      rw [erase_recoverable_iff onDisk bitmapOnDisk inv (lookup_live found)]
      apply not_congr
      constructor
      · exact fun reached => ⟨slot, rfl, reached⟩
      · rintro ⟨other, victim, reached⟩
        obtain rfl := Option.some.inj victim
        exact reached

/-- A request is safe but at the exposed crash points of the entry it deletes. -/
theorem request_recoverable_iff (inv : Consistent root bitmap) {request : Request}
    (sized : request.Sized) (done : Nat) :
    Recoverable (replay ((request.plan root bitmap).writes.take done) sectors) ↔
      ¬ Exposed (request.victim root) done := by
  cases request with
  | invalid =>
      rw [Request.plan, Plan.reject, List.take_nil, replay_nil,
        recoverable_iff onDisk bitmapOnDisk]
      refine ⟨fun _ => ?_, fun _ => inv.protected⟩
      rintro ⟨slot, victim, _⟩
      exact absurd victim (Option.some_ne_none _ ·.symm)
  | delete name => exact delete_recoverable_iff onDisk bitmapOnDisk inv name done
  | write name data sizeBytes =>
      rw [Request.plan, Plan.write, Plan.andThen, List.take_append]
      by_cases within : done ≤ (Plan.delete root bitmap name).writes.length
      · rw [Nat.sub_eq_zero_of_le within, List.take_zero, List.append_nil]
        exact delete_recoverable_iff onDisk bitmapOnDisk inv name done
      · rw [List.take_of_length_le (by omega), replay_append]
        obtain ⟨rootAfter, bitmapAfter⟩ := Plan.delete_persists name sectors onDisk bitmapOnDisk
        refine ⟨fun _ => ?_, fun _ => store_recoverable rootAfter bitmapAfter
          (consistent_maintained.delete name inv) name data sized.2 _⟩
        rintro ⟨slot, found, _, early⟩
        have length := delete_writes_length found bitmap
        omega

end OneRequest

/-! ### The magic number -/

/-- The write does not remove the magic number. -/
def KeepsMagic (write : Lba28 × Sector) : Prop :=
  write.1 = sectorOf (rootSectorLba 0) →
    ∀ index < 4, write.2 (Fin.ofNat 512 index) = byteOf fsMagic index

theorem magic_iff : (diskRoot sectors).magic = fsMagic ↔
    ∀ index < 4, sectors (sectorOf (rootSectorLba 0)) (Fin.ofNat 512 index) =
      byteOf fsMagic index := by
  have word : (diskRoot sectors).magic =
      wordOf fun index => sectors (sectorOf (rootSectorLba 0)) (Fin.ofNat 512 index) := by
    simp only [diskRoot, RootDirectory.ofRaw]
    apply wordOf_congr
    intro index bound
    rw [show index / 512 = 0 by omega]
  rw [word]
  constructor
  · intro magic index bound
    rw [← magic, byteOf_wordOf _ bound]
  · intro bytes
    exact (wordOf_congr bytes).trans (wordOf_byteOf _)

theorem replay_magic {writes : List (Lba28 × Sector)} (keep : ∀ write ∈ writes, KeepsMagic write)
    (magic : (diskRoot sectors).magic = fsMagic) :
    (diskRoot (replay writes sectors)).magic = fsMagic := by
  induction writes generalizing sectors with
  | nil => exact magic
  | cons write rest ih =>
      apply ih fun later member => keep later (List.mem_cons_of_mem _ member)
      rw [magic_iff] at magic ⊢
      intro index bound
      by_cases target : write.1 = sectorOf (rootSectorLba 0)
      · rw [← target, Function.update_self]
        exact keep write (List.mem_cons_self ..) target index bound
      · rw [Function.update_of_ne (Ne.symm target)]
        exact magic index bound

theorem KeepsMagic.elsewhere {write : Lba28 × Sector} (high : 84 ≤ write.1.toNat) :
    KeepsMagic write := by
  intro target
  rw [target, rootSector_toNat (by decide)] at high
  omega

theorem KeepsMagic.rootWrites {root : RootDirectory} (magic : root.magic = fsMagic)
    {write : Lba28 × Sector} (member : write ∈ rootWrites root) : KeepsMagic write := by
  obtain ⟨sector, inRange, rfl⟩ := List.mem_map.mp member
  have bound := List.mem_range.mp inRange
  intro target index below
  have addresses := congrArg BitVec.toNat target
  simp only [rootSector_toNat bound, rootSector_toNat (show 0 < fsRootSectors by decide)]
    at addresses
  obtain rfl : sector = 0 := by omega
  have small : index < rootSize := by
    have size : rootSize = 1056 := rfl
    omega
  have chunk := saveChunk_apply root.raw small
  rw [show index / 512 = 0 by omega] at chunk
  simp only [chunk, RootDirectory.raw, below, ↓reduceIte, magic]

theorem KeepsMagic.bitmapWrite {bitmap : Sector} {write : Lba28 × Sector}
    (member : write ∈ [bitmapWrite bitmap]) : KeepsMagic write := by
  obtain rfl := List.mem_singleton.mp member
  have address : (sectorOf fsBitmapLba).toNat = 85 := by decide
  exact .elsewhere (by rw [Fs.bitmapWrite, address]; decide)

theorem delete_keepsMagic (magic : root.magic = fsMagic) (name : CString) {write : Lba28 × Sector}
    (member : write ∈ (Plan.delete root bitmap name).writes) : KeepsMagic write := by
  unfold Plan.delete at member
  cases found : root.lookup name with
  | none =>
      rw [found] at member
      exact absurd member List.not_mem_nil
  | some slot =>
      simp only [found, Plan.erase] at member
      split at member
      · exact KeepsMagic.rootWrites (by exact magic) member
      · rcases List.mem_append.mp member with saved | saved
        · exact .bitmapWrite saved
        · exact KeepsMagic.rootWrites (by exact magic) saved

theorem store_keepsMagic (magic : root.magic = fsMagic) (name : CString) (data : Nat → Byte)
    (sizeBytes : Word) {write : Lba28 × Sector}
    (member : write ∈ (Plan.store root bitmap name data sizeBytes).writes) : KeepsMagic write := by
  by_cases full : bitmapFindFreeRun bitmap ((sizeBytes + 511) / 512) = 0
  · simp only [Plan.store, full, ↓reduceIte, Plan.reject] at member
    exact absurd member List.not_mem_nil
  · have contents : ∀ entry ∈ dataWrites data (bitmapFindFreeRun bitmap ((sizeBytes + 511) / 512))
        sizeBytes.toNat, KeepsMagic entry := fun entry inData =>
      .elsewhere (Nat.le_trans (by decide) (mem_contents full inData))
    cases free : root.freeSlot with
    | none =>
        simp only [Plan.store, full, ↓reduceIte, free, List.append_assoc] at member
        rcases List.mem_append.mp member with inData | inMarks
        · exact contents write inData
        · rcases List.mem_append.mp inMarks with saved | saved
          · exact .bitmapWrite saved
          · exact .bitmapWrite saved
    | some slot =>
        simp only [Plan.store, full, ↓reduceIte, free, List.append_assoc] at member
        rcases List.mem_append.mp member with inData | inMarks
        · exact contents write inData
        · rcases List.mem_append.mp inMarks with saved | saved
          · exact .bitmapWrite saved
          · exact KeepsMagic.rootWrites (by exact magic) saved

theorem request_keepsMagic (magic : root.magic = fsMagic) (request : Request)
    {write : Lba28 × Sector} (member : write ∈ (request.plan root bitmap).writes) :
    KeepsMagic write := by
  cases request with
  | invalid => exact absurd member List.not_mem_nil
  | delete name => exact delete_keepsMagic magic name member
  | write name data sizeBytes =>
      rcases List.mem_append.mp member with first | second
      · exact delete_keepsMagic magic name first
      · exact store_keepsMagic ((Plan.delete_magic name).trans magic) name data sizeBytes second

/-! ### Runs -/

/-- The sector writes the calls issue, in order. -/
def issued (drive : Drive) (calls : List Call) (fs : State) : List (Lba28 × Sector) :=
  (run drive calls fs).disk.writes.drop fs.disk.writes.length

/-- The disk when only the first `survived` writes of the calls have reached it. -/
def crashed (drive : Drive) (calls : List Call) (fs : State) (survived : Nat) : Lba28 → Sector :=
  replay ((issued drive calls fs).take survived) fs.disk.sectors

/-- The crash catches a call between freeing an entry's sectors and erasing its name. -/
def InDeleteWindow (drive : Drive) (calls : List Call) (fs : State) (survived : Nat) : Prop :=
  ∃ before call after, calls = before ++ call :: after ∧
    Exposed (call.request.victim (run drive before fs).root)
      (survived - (issued drive before fs).length)

/-- An exposed crash point comes before the request's last write. -/
theorem Exposed.lt_length {request : Request} {done : Nat}
    (exposed : Exposed (request.victim root) done) (bitmap : Sector) :
    done < (request.plan root bitmap).writes.length := by
  obtain ⟨slot, victim, _, early⟩ := exposed
  cases request with
  | invalid => exact absurd victim (Option.some_ne_none _ ·.symm)
  | delete name =>
      have length := delete_writes_length victim bitmap
      exact Nat.lt_of_le_of_lt early length
  | write name data sizeBytes =>
      have length := delete_writes_length victim bitmap
      rw [Request.plan, Plan.write, Plan.andThen, List.length_append]
      omega

theorem issued_nil (drive : Drive) (fs : State) : issued drive [] fs = [] := List.drop_length

section Runs

variable {drive : Drive} (reliable : drive.Reliable)
include reliable

theorem run_written (calls : List Call) (fs : State) :
    ∃ writes, Written writes fs.disk (run drive calls fs).disk := by
  induction calls generalizing fs with
  | nil => exact ⟨[], .refl _⟩
  | cons call rest ih =>
      obtain ⟨writes, written⟩ := ih (call.perform drive fs).2
      exact ⟨_, (perform_performs reliable call fs).disk.trans written⟩

theorem issued_written (calls : List Call) (fs : State) :
    Written (issued drive calls fs) fs.disk (run drive calls fs).disk := by
  obtain ⟨writes, written⟩ := run_written reliable calls fs
  rwa [issued, written.drop]

theorem issued_cons (call : Call) (rest : List Call) (fs : State) :
    issued drive (call :: rest) fs =
      (call.request.plan fs.root fs.bitmap).writes ++
        issued drive rest (call.perform drive fs).2 :=
  ((perform_performs reliable call fs).disk.trans
    (issued_written reliable rest (call.perform drive fs).2)).drop

/-- A crash catches either the first call or a later one. -/
theorem inDeleteWindow_cons (call : Call) (rest : List Call) (fs : State) (survived : Nat) :
    InDeleteWindow drive (call :: rest) fs survived ↔
      Exposed (call.request.victim fs.root) survived ∨
        InDeleteWindow drive rest (call.perform drive fs).2
          (survived - (call.request.plan fs.root fs.bitmap).writes.length) := by
  constructor
  · rintro ⟨before, caught, after, split, exposed⟩
    cases before with
    | nil =>
        obtain ⟨rfl, rfl⟩ := List.cons.inj split
        left
        rwa [issued_nil, List.length_nil, Nat.sub_zero] at exposed
    | cons first before =>
        obtain ⟨rfl, rfl⟩ := List.cons.inj split
        right
        rw [issued_cons reliable, List.length_append, ← Nat.sub_sub] at exposed
        exact ⟨before, caught, after, rfl, exposed⟩
  · rintro (exposed | ⟨before, caught, after, rfl, exposed⟩)
    · refine ⟨[], call, rest, rfl, ?_⟩
      rwa [issued_nil, List.length_nil, Nat.sub_zero]
    · refine ⟨call :: before, caught, after, rfl, ?_⟩
      rw [issued_cons reliable, List.length_append, ← Nat.sub_sub]
      exact exposed

/-- After a crash of any run, mounting is safe but in the delete windows. -/
theorem crashed_recoverable_iff {calls : List Call} (sized : ∀ call ∈ calls, call.Sized)
    {fs : State} (consistent : Consistent fs.root fs.bitmap) (synced : Synced fs)
    (survived : Nat) :
    Recoverable (crashed drive calls fs survived) ↔
      ¬ InDeleteWindow drive calls fs survived := by
  induction calls generalizing fs survived with
  | nil =>
      rw [crashed, issued_nil, List.take_nil, replay_nil, recoverable_iff synced.root synced.bitmap]
      refine ⟨fun _ => ?_, fun _ => consistent.protected⟩
      rintro ⟨before, call, after, split, _⟩
      exact absurd split (by simp)
  | cons call rest ih =>
      have performs := perform_performs reliable call fs
      have callSized := Call.request_sized (sized call (List.mem_cons_self ..))
      rw [inDeleteWindow_cons reliable, crashed, issued_cons reliable, List.take_append,
        replay_append, not_or]
      by_cases within : survived < (call.request.plan fs.root fs.bitmap).writes.length
      · rw [Nat.sub_eq_zero_of_le (Nat.le_of_lt within), List.take_zero, replay_nil,
          request_recoverable_iff synced.root synced.bitmap consistent callSized]
        refine ⟨fun safe => ⟨safe, ?_⟩, fun both => both.1⟩
        rintro ⟨before, caught, after, _, slot, _, reached, _⟩
        omega
      · have whole : (call.request.plan fs.root fs.bitmap).writes.take survived =
            (call.request.plan fs.root fs.bitmap).writes := List.take_of_length_le (by omega)
        rw [whole, ← performs.disk.sectors, ← crashed,
          ih (fun later member => sized later (List.mem_cons_of_mem _ member))]
        · refine ⟨fun safe => ⟨fun exposed => within (exposed.lt_length _), safe⟩,
            fun both => both.2⟩
        · rw [performs.root, performs.bitmap]
          exact consistent_maintained.plan callSized consistent
        · exact perform_synced reliable call synced

/-- Crashes lose the directory's magic number at no point. -/
theorem crashed_magic (calls : List Call) {fs : State} (synced : Synced fs) (survived : Nat) :
    (diskRoot (crashed drive calls fs survived)).magic = fsMagic := by
  apply replay_magic
  · intro write member
    have inRun := List.mem_of_mem_take member
    clear member
    induction calls generalizing fs with
    | nil =>
        rw [issued_nil] at inRun
        exact absurd inRun List.not_mem_nil
    | cons call rest ih =>
        rw [issued_cons reliable] at inRun
        rcases List.mem_append.mp inRun with now | later
        · exact request_keepsMagic synced.magic call.request now
        · exact ih (perform_synced reliable call synced) later
  · rw [synced.root, synced.magic]

end Runs

/-- Crash consistency. Mounting the disk left by a crash yields a protected file system, in
which later writes allocate no sector of a surviving file, unless the crash falls into a
delete window; there the mounted file system is never protected. The memory after the crash
may hold anything. -/
theorem crash_consistent_iff {drive : Drive} (reliable : drive.Reliable) (boot : State)
    (fresh : FreshDisk boot.disk.sectors) (calls : List Call)
    (sized : ∀ call ∈ calls, call.Sized) (survived : Nat) (memory : State) :
    let start := fsInit drive boot
    let sectors := crashed drive calls start survived
    let recovered := fsInit drive { memory with disk := { memory.disk with sectors := sectors } }
    (Protected recovered.root recovered.bitmap ↔ ¬ InDeleteWindow drive calls start survived) ∧
    (¬ InDeleteWindow drive calls start survived →
      ∀ later : List Call, (∀ call ∈ later, call.Sized) →
        let fs := run drive later recovered
        ∀ count : Word, 0 < count.toNat → bitmapFindFreeRun fs.bitmap count ≠ 0 →
        ∀ slot, fs.root.Live slot → ∀ lba, (bitmapFindFreeRun fs.bitmap count).toNat ≤ lba →
          lba < (bitmapFindFreeRun fs.bitmap count).toNat + count.toNat →
          ¬ (fs.root.files slot).Occupies lba) := by
  intro start sectors recovered
  have synced : Synced start := fsInit_synced reliable boot
  obtain ⟨after, mounted, _⟩ := @fsInit_mounts drive reliable
    { memory with disk := { memory.disk with sectors := sectors } }
    (crashed_magic reliable calls synced survived)
  have safe : Protected recovered.root recovered.bitmap ↔
      ¬ InDeleteWindow drive calls start survived := by
    have recoverable := crashed_recoverable_iff reliable sized
      (fsInit_consistent reliable fresh) synced survived
    have root_eq : recovered.root = diskRoot sectors := congrArg State.root mounted
    have bitmap_eq : recovered.bitmap = diskBitmap sectors := congrArg State.bitmap mounted
    rw [root_eq, bitmap_eq]
    exact recoverable
  refine ⟨safe, ?_⟩
  intro outside later laterSized fs count positive found slot live lba low high
  have inv : Protected fs.root fs.bitmap :=
    protected_maintained.run reliable laterSized (safe.mpr outside)
  exact inv.not_occupies (bitmapFindFreeRun_freeRun positive found) live low high

/-- One byte is stored under a name and the file deleted; the crash keeps the deletion's
first write. The mounted directory still lists the file, its sector is not marked, and the
next file gets it. -/
theorem crash_in_delete_window :
    let name : CString := ⟨[0x61], by decide⟩
    let calls := [Call.write (some name) (some fun _ => 0x78) 1, Call.delete (some name)]
    let start := fsInit readyDrive blankBoot
    let recovered := fsInit readyDrive
      { blankBoot with
        disk := { blankBoot.disk with sectors := crashed readyDrive calls start 6 } }
    recovered.root.Live 0 ∧ (recovered.root.files 0).Occupies 86 ∧
      bitmapFindFreeRun recovered.bitmap 1 = 86 ∧
      ¬ Protected recovered.root recovered.bitmap := by
  intro name calls start recovered
  have live : recovered.root.Live 0 := by decide +kernel
  have occupied : (recovered.root.files 0).Occupies 86 := by decide +kernel
  have free : recovered.bitmap 0 = 0 := by decide +kernel
  have found : bitmapFindFreeRun recovered.bitmap 1 = 86 := by decide +kernel
  exact ⟨live, occupied, found, fun safe => safe.marked 0 live 0 (by decide) occupied free⟩

theorem crash_consistent_iff_after_write :
    let name : CString := ⟨[0x61], by decide⟩
    let calls := [Call.write (some name) (some fun _ => 0x78) 1]
    let start := fsInit readyDrive blankBoot
    let recovered := fsInit readyDrive
      { blankBoot with
        disk := { blankBoot.disk with sectors := crashed readyDrive calls start 3 } }
    Protected recovered.root recovered.bitmap ↔ ¬ InDeleteWindow readyDrive calls start 3 := by
  intro name calls start recovered
  have sized : ∀ call ∈ calls, call.Sized := by
    intro call member
    obtain rfl := List.mem_singleton.mp member
    exact ⟨by decide, by decide⟩
  exact (crash_consistent_iff readyDrive_reliable blankBoot blankBoot_fresh calls sized 3
    blankBoot).1

end MxOS.Fs
