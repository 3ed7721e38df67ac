import MxOS.Drivers.FsTransfer

/-! # The file system on a disk without errors

When no transfer fails, a call is determined by the directory and the bitmap in
memory. Its plan says what it returns, what it leaves in memory and which sectors
it writes, in order; performing the call carries out the plan.
-/

namespace MxOS.Fs

open ByteMemory Ata WriteLog

/-- What a call returns, leaves in memory and writes to disk. -/
structure Plan where
  ok : Bool
  root : RootDirectory
  bitmap : Sector
  writes : List (Lba28 × Sector)

/-- A call that does nothing. -/
def Plan.reject (root : RootDirectory) (bitmap : Sector) : Plan := ⟨false, root, bitmap, []⟩

/-- The entry's sectors are freed and the bitmap saved before the directory is. -/
def Plan.erase (root : RootDirectory) (bitmap : Sector) (slot : Fin 32) : Plan :=
  let entry := root.files slot
  let root := root.setFile slot FileEntry.empty
  if entry.startLba < fsDataLba then ⟨true, root, bitmap, rootWrites root⟩
  else
    let bitmap := marked entry.startLba entry.sizeSect 0 bitmap
    ⟨true, root, bitmap, [bitmapWrite bitmap] ++ rootWrites root⟩

def Plan.delete (root : RootDirectory) (bitmap : Sector) (name : CString) : Plan :=
  match root.lookup name with
  | none => .reject root bitmap
  | some slot => .erase root bitmap slot

/-- The part of a write after a file of the same name has been removed. -/
def Plan.store (root : RootDirectory) (bitmap : Sector) (name : CString) (data : Nat → Byte)
    (sizeBytes : Word) : Plan :=
  let sizeSect := (sizeBytes + 511) / 512
  let startLba := bitmapFindFreeRun bitmap sizeSect
  if startLba = 0 then .reject root bitmap
  else
    let taken := marked startLba sizeSect 1 bitmap
    let contents := dataWrites data startLba sizeBytes.toNat ++ [bitmapWrite taken]
    match root.freeSlot with
    | none =>
        let returned := marked startLba sizeSect 0 taken
        ⟨false, root, returned, contents ++ [bitmapWrite returned]⟩
    | some slot =>
        let entry := FileEntry.mk (copyName (root.files slot).name name) startLba sizeSect
        let root := root.setFile slot entry
        ⟨true, root, taken, contents ++ rootWrites root⟩

/-- One plan after another. -/
def Plan.andThen (first : Plan) (second : RootDirectory → Sector → Plan) : Plan :=
  let next := second first.root first.bitmap
  { next with writes := first.writes ++ next.writes }

def Plan.write (root : RootDirectory) (bitmap : Sector) (name : CString) (data : Nat → Byte)
    (sizeBytes : Word) : Plan :=
  (Plan.delete root bitmap name).andThen fun root bitmap =>
    Plan.store root bitmap name data sizeBytes

/-- The request of a call, with the parameters that make it invalid ruled out. -/
inductive Request where
  | invalid
  | write (name : CString) (data : Nat → Byte) (sizeBytes : Word)
  | delete (name : CString)

def Request.ofWrite (name : Option CString) (data : Option (Nat → Byte)) (sizeBytes : Word) :
    Request :=
  match usable name, data with
  | some name, some data => if sizeBytes = 0 then .invalid else .write name data sizeBytes
  | _, _ => .invalid

def Request.ofDelete (name : Option CString) : Request :=
  match usable name with
  | some name => .delete name
  | none => .invalid

def Call.request : Call → Request
  | .write name data sizeBytes => .ofWrite name data sizeBytes
  | .writeSilent name data sizeBytes => .ofWrite name data sizeBytes
  | .delete name => .ofDelete name
  | .deleteSilent name => .ofDelete name

def Request.plan (root : RootDirectory) (bitmap : Sector) : Request → Plan
  | .invalid => .reject root bitmap
  | .write name data sizeBytes => .write root bitmap name data sizeBytes
  | .delete name => .delete root bitmap name

/-- The call returned and left what its plan says. -/
structure Performs (plan : Plan) (before : State) (result : Bool × State) : Prop where
  ok : result.1 = plan.ok
  root : result.2.root = plan.root
  bitmap : result.2.bitmap = plan.bitmap
  disk : Written plan.writes before.disk result.2.disk

/-- Printing changes nothing but the console. -/
theorem kprintIf_eq (verbose : Bool) (text : String) (fs : State) :
    ∃ console, kprintIf verbose text fs = { fs with console := console } := by
  cases verbose with
  | false => exact ⟨fs.console, rfl⟩
  | true => exact ⟨_, rfl⟩

theorem Performs.reject {before : State} (console : List Byte) :
    Performs (.reject before.root before.bitmap) before
      (false, { before with console := console }) :=
  ⟨rfl, rfl, rfl, .refl _⟩

/-- What a call prints at its end is not part of its plan. -/
theorem Performs.kprintIf {plan : Plan} {before after : State} {ok : Bool}
    (performs : Performs plan before (ok, after)) (verbose : Bool) (text : String) :
    Performs plan before (ok, kprintIf verbose text after) := by
  obtain ⟨console, printed⟩ := kprintIf_eq verbose text after
  rw [printed]
  exact ⟨performs.ok, performs.root, performs.bitmap, performs.disk⟩

theorem usable_some {name : CString} (nonempty : name.bytes ≠ []) :
    usable (some name) = some name := by
  simp [usable, Option.filter, nonempty]

theorem usable_eq_some {given : Option CString} {name : CString}
    (valid : usable given = some name) : given = some name ∧ name.bytes ≠ [] := by
  rw [usable, Option.filter_eq_some_iff] at valid
  exact ⟨valid.1, of_decide_eq_true valid.2⟩

/-- The request of a write is invalid, or it is to write under the given name. -/
theorem Request.ofWrite_cases (given : Option CString) (data : Option (Nat → Byte))
    (sizeBytes : Word) :
    Request.ofWrite given data sizeBytes = .invalid ∨
      ∃ name content, given = some name ∧ data = some content ∧ name.bytes ≠ [] ∧ sizeBytes ≠ 0 ∧
        Request.ofWrite given data sizeBytes = .write name content sizeBytes := by
  cases valid : usable given with
  | none => exact Or.inl (by simp only [Request.ofWrite, valid])
  | some name =>
      cases data with
      | none => exact Or.inl (by simp only [Request.ofWrite, valid])
      | some content =>
          by_cases zero : sizeBytes = 0
          · exact Or.inl (by simp only [Request.ofWrite, valid, zero, ↓reduceIte])
          · obtain ⟨same, nonempty⟩ := usable_eq_some valid
            exact Or.inr ⟨name, content, same, rfl, nonempty, zero,
              by simp only [Request.ofWrite, valid, zero, ↓reduceIte]⟩

theorem fsWriteFileImpl_invalid {name : Option CString} {data : Option (Nat → Byte)}
    {sizeBytes : Word} (invalid : Request.ofWrite name data sizeBytes = .invalid) (drive : Drive)
    (verbose : Bool) (fs : State) :
    fsWriteFileImpl drive name data sizeBytes verbose fs =
      (false, kprintIf verbose "Parametres invalides.\n" fs) := by
  unfold Request.ofWrite at invalid
  unfold fsWriteFileImpl
  cases valid : usable name with
  | none => rfl
  | some given =>
      cases data with
      | none => rfl
      | some content =>
          rw [valid] at invalid
          by_cases zero : sizeBytes = 0
          · simp only [zero, ↓reduceIte]
          · simp only [zero, ↓reduceIte, reduceCtorEq] at invalid

/-- A free run starts in the data area. -/
theorem bitmapFindFreeRun_bounds {bitmap : Sector} {count : Word}
    (found : bitmapFindFreeRun bitmap count ≠ 0) :
    ∃ runStart < fsDataSectors - 1,
      RunScan.scan (fun index => bitmap (Fin.ofNat 512 index) = 0) count.toNat
        (fsDataSectors - 1) 0 0 0 = some runStart ∧
      (bitmapFindFreeRun bitmap count).toNat = fsDataLba.toNat + runStart := by
  cases scanned : RunScan.scan (fun index => bitmap (Fin.ofNat 512 index) = 0) count.toNat
      (fsDataSectors - 1) 0 0 0 with
  | none => exact absurd (by simp only [bitmapFindFreeRun, scanned]) found
  | some runStart =>
      have below := RunScan.scan_lt (Nat.le_refl 0) scanned
      rw [Nat.zero_add] at below
      refine ⟨runStart, below, rfl, ?_⟩
      simp only [bitmapFindFreeRun, scanned]
      have base := fsDataLba_toNat
      rw [fsDataSectors_eq] at below
      bv_omega

theorem bitmapFindFreeRun_inData {bitmap : Sector} {count : Word}
    (found : bitmapFindFreeRun bitmap count ≠ 0) :
    ¬ bitmapFindFreeRun bitmap count < fsDataLba := by
  obtain ⟨runStart, _, _, start⟩ := bitmapFindFreeRun_bounds found
  rw [BitVec.lt_def, start]
  omega

section Reliable

variable {drive : Drive} (reliable : drive.Reliable)
include reliable

theorem fsDeleteFileImpl_performs {given : Option CString} {name : CString}
    (valid : usable given = some name) (verbose : Bool) (fs : State) :
    Performs (.delete fs.root fs.bitmap name) fs (fsDeleteFileImpl drive given verbose fs) := by
  rw [fsDeleteFileImpl, Plan.delete]
  simp only [valid]
  cases found : fs.root.lookup name with
  | none =>
      cases verbose with
      | false => exact Performs.reject _
      | true => exact Performs.reject _
  | some slot =>
      simp only [Plan.erase]
      by_cases low : (fs.root.files slot).startLba < fsDataLba
      · obtain ⟨after, saved, written⟩ := fsRootSave_reliable reliable
          { fs with root := fs.root.setFile slot FileEntry.empty }
        simp only [bitmapMark, low, ↓reduceIte, saved]
        exact Performs.kprintIf ⟨rfl, rfl, rfl, written⟩ _ _
      · obtain ⟨middle, released, one⟩ := bitmapMark_reliable reliable low
          (fs.root.files slot).sizeSect 0 fs
        obtain ⟨after, saved, two⟩ := fsRootSave_reliable reliable
          { fs with
            bitmap := marked (fs.root.files slot).startLba (fs.root.files slot).sizeSect 0 fs.bitmap
            disk := middle
            root := fs.root.setFile slot FileEntry.empty }
        simp only [released, low, ↓reduceIte, saved]
        exact Performs.kprintIf ⟨rfl, rfl, rfl, one.trans two⟩ _ _

/-- Storing the entry, or taking the allocation back when the directory is full. -/
theorem fsAddEntry_reliable (name : CString) (startLba sizeSect : Word) (fs : State) :
    match fs.root.freeSlot with
    | none => ∃ console, fsAddEntry drive name startLba sizeSect fs =
        (false, { fs with console := console })
    | some slot => ∃ after, fsAddEntry drive name startLba sizeSect fs =
        (true, { fs with
          root := fs.root.setFile slot
            ⟨copyName (fs.root.files slot).name name, startLba, sizeSect⟩
          disk := after }) ∧
        Written (rootWrites (fs.root.setFile slot
          ⟨copyName (fs.root.files slot).name name, startLba, sizeSect⟩)) fs.disk after := by
  cases free : fs.root.freeSlot with
  | none =>
      simp only [fsAddEntry, free]
      exact ⟨_, rfl⟩
  | some slot =>
      obtain ⟨after, saved, written⟩ := fsRootSave_reliable reliable
        { fs with
          root := fs.root.setFile slot
            ⟨copyName (fs.root.files slot).name name, startLba, sizeSect⟩ }
      refine ⟨after, ?_, written⟩
      simp only [fsAddEntry, free, saved]

/-- The state in which a write starts looking for space. -/
theorem overwritten_performs {name : CString} (nonempty : name.bytes ≠ []) (fs : State) :
    ∃ ok, Performs (.delete fs.root fs.bitmap name) fs
      (ok, if fsFileExists fs (some name) then (fsDeleteFileImpl drive (some name) false fs).2
        else fs) := by
  have deleted := fsDeleteFileImpl_performs reliable (usable_some nonempty) false fs
  cases found : fs.root.lookup name with
  | none =>
      have absent : fsFileExists fs (some name) = false := by
        simp only [fsFileExists, usable_some nonempty, found, Option.isSome_none]
      simp only [absent, Bool.false_eq_true, ↓reduceIte, Plan.delete, found]
      exact ⟨false, Performs.reject fs.console⟩
  | some slot =>
      have present : fsFileExists fs (some name) = true := by
        simp only [fsFileExists, usable_some nonempty, found, Option.isSome_some]
      simp only [present, ↓reduceIte]
      exact ⟨_, deleted⟩

omit reliable in
theorem Performs.andThen {first : Plan} {second : RootDirectory → Sector → Plan}
    {start middle : State} {ok : Bool} {result : Bool × State}
    (one : Performs first start (ok, middle))
    (two : Performs (second middle.root middle.bitmap) middle result) :
    Performs (first.andThen second) start result := by
  obtain ⟨_, root, bitmap, disk⟩ := one
  rw [root, bitmap] at two
  exact ⟨two.ok, two.root, two.bitmap, disk.trans two.disk⟩

theorem fsWriteFileImpl_performs {given : Option CString} {name : CString} {data : Nat → Byte}
    {sizeBytes : Word} (valid : usable given = some name) (nonzero : sizeBytes ≠ 0)
    (verbose : Bool) (fs : State) :
    Performs (.write fs.root fs.bitmap name data sizeBytes) fs
      (fsWriteFileImpl drive given (some data) sizeBytes verbose fs) := by
  obtain ⟨ok, first⟩ := overwritten_performs reliable (usable_eq_some valid).2 fs
  unfold fsWriteFileImpl
  simp only [valid, nonzero, ↓reduceIte]
  generalize (if fsFileExists fs (some name) then
    (fsDeleteFileImpl drive (some name) false fs).2 else fs) = cleared at first ⊢
  apply first.andThen
  rw [Plan.store]
  by_cases full : bitmapFindFreeRun cleared.bitmap ((sizeBytes + 511) / 512) = 0
  · simp only [full, ↓reduceIte]
    exact (Performs.reject cleared.console).kprintIf _ _
  · have inData := bitmapFindFreeRun_inData full
    generalize bitmapFindFreeRun cleared.bitmap ((sizeBytes + 511) / 512) = startLba
      at full inData ⊢
    obtain ⟨stored, transfer, contents⟩ := writeLoop_reliable reliable data
      (Nat.le_refl sizeBytes.toNat) startLba 0 cleared.disk
    simp only [Nat.zero_add] at contents
    obtain ⟨noted, mark, taken⟩ := bitmapMark_reliable reliable inData ((sizeBytes + 511) / 512) 1
      { cleared with disk := stored }
    have entry := fsAddEntry_reliable reliable name startLba ((sizeBytes + 511) / 512)
      { cleared with
        bitmap := marked startLba ((sizeBytes + 511) / 512) 1 cleared.bitmap
        disk := noted }
    simp only [full, ↓reduceIte, transfer, mark]
    cases free : cleared.root.freeSlot with
    | none =>
        simp only [free] at entry
        obtain ⟨console, refused⟩ := entry
        obtain ⟨after, unmark, returned⟩ := bitmapMark_reliable reliable inData
          ((sizeBytes + 511) / 512) 0
          { cleared with
            bitmap := marked startLba ((sizeBytes + 511) / 512) 1 cleared.bitmap
            disk := noted
            console := console }
        simp only [refused, unmark]
        exact ⟨rfl, rfl, rfl, (contents.trans taken).trans returned⟩
    | some slot =>
        simp only [free] at entry
        obtain ⟨after, added, saved⟩ := entry
        simp only [added]
        exact Performs.kprintIf ⟨rfl, rfl, rfl, (contents.trans taken).trans saved⟩ _ _

theorem fsDelete_request (given : Option CString) (verbose : Bool) (fs : State) :
    Performs ((Request.ofDelete given).plan fs.root fs.bitmap) fs
      (fsDeleteFileImpl drive given verbose fs) := by
  cases valid : usable given with
  | none =>
      simp only [Request.ofDelete, valid, Request.plan, fsDeleteFileImpl]
      exact (Performs.reject fs.console).kprintIf _ _
  | some name =>
      simp only [Request.ofDelete, valid, Request.plan]
      exact fsDeleteFileImpl_performs reliable valid verbose fs

theorem fsWrite_request (given : Option CString) (data : Option (Nat → Byte)) (sizeBytes : Word)
    (verbose : Bool) (fs : State) :
    Performs ((Request.ofWrite given data sizeBytes).plan fs.root fs.bitmap) fs
      (fsWriteFileImpl drive given data sizeBytes verbose fs) := by
  rcases Request.ofWrite_cases given data sizeBytes with
    invalid | ⟨name, content, rfl, rfl, nonempty, nonzero, request⟩
  · rw [invalid, fsWriteFileImpl_invalid invalid]
    exact (Performs.reject fs.console).kprintIf _ _
  · rw [request]
    exact fsWriteFileImpl_performs reliable (usable_some nonempty) nonzero verbose fs

/-- Without disk errors every call carries out its plan. -/
theorem perform_performs (call : Call) (fs : State) :
    Performs (call.request.plan fs.root fs.bitmap) fs (call.perform drive fs) := by
  cases call with
  | write name data sizeBytes => exact fsWrite_request reliable name data sizeBytes true fs
  | writeSilent name data sizeBytes => exact fsWrite_request reliable name data sizeBytes false fs
  | delete name => exact fsDelete_request reliable name true fs
  | deleteSilent name => exact fsDelete_request reliable name false fs

end Reliable

/-! ### Mounting -/

theorem replay_rootWrites_take (root : RootDirectory) (written : Nat)
    (sectors : Lba28 → Sector) {sector : Nat} (bound : sector < fsRootSectors) :
    replay ((rootWrites root).take written) sectors (sectorOf (rootSectorLba sector)) =
      if sector < written then saveChunk root.raw sector
      else sectors (sectorOf (rootSectorLba sector)) := by
  have list : rootWrites root =
    [(81, saveChunk root.raw 0), (82, saveChunk root.raw 1), (83, saveChunk root.raw 2)] := rfl
  have cases : sector = 0 ∨ sector = 1 ∨ sector = 2 := by
    rw [fsRootSectors_eq] at bound
    omega
  rw [list]
  obtain rfl | rfl | rfl := cases
  all_goals
    rcases written with _ | _ | _ | written
    all_goals simp [rootSectorLba, fsRootLba]

/-- The directory on disk when the first `written` sectors of a new version have replaced
those of the old one. -/
theorem diskRoot_rootWrites_take (root : RootDirectory) (written : Nat)
    (sectors : Lba28 → Sector) :
    diskRoot (replay ((rootWrites root).take written) sectors) =
      mixed fun sector => if sector < written then root else diskRoot sectors := by
  rw [← ofRaw_mixed]
  apply RootDirectory.ofRaw_congr
  intro offset bound
  have sector : offset / 512 < fsRootSectors := by
    have size : rootSize = 1056 := rfl
    rw [fsRootSectors_eq]
    omega
  rw [replay_rootWrites_take root written sectors sector]
  split
  · exact saveChunk_apply _ bound
  · rw [diskRoot, RootDirectory.raw_ofRaw _ bound]

theorem diskRoot_rootWrites (root : RootDirectory) (sectors : Lba28 → Sector) :
    diskRoot (replay (rootWrites root) sectors) = root := by
  have whole : (rootWrites root).take fsRootSectors = rootWrites root := rfl
  have constant : mixed (fun _ => root) = root := rfl
  rw [← whole, diskRoot_rootWrites_take, ← constant]
  exact mixed_congr fun sector bound => if_pos bound

theorem rootSector_toNat {sector : Nat} (bound : sector < fsRootSectors) :
    (sectorOf (rootSectorLba sector)).toNat = 81 + sector := by
  have base : fsRootLba.toNat = 81 := by decide
  rw [fsRootSectors_eq] at bound
  rw [rootSectorLba, sectorOf]
  bv_omega

/-- The directory survives writes that go to other sectors. -/
theorem diskRoot_replay {writes : List (Lba28 × Sector)}
    (other : ∀ entry ∈ writes, entry.1.toNat < 81 ∨ 84 ≤ entry.1.toNat)
    (sectors : Lba28 → Sector) : diskRoot (replay writes sectors) = diskRoot sectors := by
  apply RootDirectory.ofRaw_congr
  intro offset bound
  have size : rootSize = 1056 := rfl
  have address := rootSector_toNat
    (show offset / 512 < fsRootSectors by rw [fsRootSectors_eq]; omega)
  rw [replay_of_forall_ne]
  intro entry member same
  have away := other entry member
  rw [same] at away
  omega

theorem diskBitmap_replay {writes : List (Lba28 × Sector)}
    (other : ∀ entry ∈ writes, entry.1.toNat ≠ 85) (sectors : Lba28 → Sector) :
    diskBitmap (replay writes sectors) = diskBitmap sectors := by
  rw [diskBitmap, diskBitmap, replay_of_forall_ne]
  intro entry member same
  exact other entry member (by rw [same]; decide)

theorem mem_rootWrites {root : RootDirectory} {entry : Lba28 × Sector}
    (member : entry ∈ rootWrites root) : 81 ≤ entry.1.toNat ∧ entry.1.toNat < 84 := by
  obtain ⟨sector, inRange, rfl⟩ := List.mem_map.mp member
  have bound := List.mem_range.mp inRange
  simp only [rootSector_toNat bound]
  rw [fsRootSectors_eq] at bound
  omega

theorem diskBitmap_rootWrites_take (root : RootDirectory) (written : Nat)
    (sectors : Lba28 → Sector) :
    diskBitmap (replay ((rootWrites root).take written) sectors) = diskBitmap sectors := by
  apply diskBitmap_replay
  intro entry member
  have bounds := mem_rootWrites (List.mem_of_mem_take member)
  omega

theorem diskRoot_bitmapWrite (bitmap : Sector) (sectors : Lba28 → Sector) :
    diskRoot (replay [bitmapWrite bitmap] sectors) = diskRoot sectors := by
  apply diskRoot_replay
  intro entry member
  obtain rfl := List.mem_singleton.mp member
  have address : (sectorOf fsBitmapLba).toNat = 85 := by decide
  exact Or.inr (by rw [bitmapWrite, address]; decide)

theorem diskBitmap_bitmapWrite (bitmap : Sector) (sectors : Lba28 → Sector) :
    diskBitmap (replay [bitmapWrite bitmap] sectors) = bitmap := by
  rw [diskBitmap, bitmapWrite, replay_cons_self (fun _ member => absurd member List.not_mem_nil)]

theorem mem_dataWrites {data : Nat → Byte} {startLba : Word} {size : Nat}
    {entry : Lba28 × Sector} (inData : 86 ≤ startLba.toNat) (low : startLba.toNat < 597)
    (fits : size < 2 ^ 32) (member : entry ∈ dataWrites data startLba size) :
    86 ≤ entry.1.toNat := by
  obtain ⟨sector, inRange, rfl⟩ := List.mem_map.mp member
  have bound := List.mem_range.mp inRange
  simp only [sectorOf]
  bv_omega

section Reliable

variable {drive : Drive} (reliable : drive.Reliable)
include reliable

theorem bitmapLoad_reliable (fs : State) :
    ∃ after, bitmapLoad drive fs =
        { fs with bitmap := diskBitmap fs.disk.sectors, disk := after } ∧
      Written [] fs.disk after := by
  obtain ⟨after, read, written⟩ := ataReadSector_written reliable fsBitmapLba fs.disk
  refine ⟨after, ?_, written⟩
  rw [bitmapLoad, read, diskBitmap]

/-- Mounting a disk that carries the magic number reads both structures from it. -/
theorem fsInit_mounts {fs : State} (magic : (diskRoot fs.disk.sectors).magic = fsMagic) :
    ∃ after, fsInit drive fs =
        { fs with
          root := diskRoot fs.disk.sectors
          bitmap := diskBitmap fs.disk.sectors
          disk := after } ∧
      Written [] fs.disk after := by
  obtain ⟨middle, loaded, one⟩ := fsRootLoad_reliable reliable fs
  obtain ⟨after, read, two⟩ := bitmapLoad_reliable reliable
    { fs with root := diskRoot fs.disk.sectors, disk := middle }
  refine ⟨after, ?_, one.trans two⟩
  rw [fsInit, loaded]
  dsimp only
  rw [if_neg (by simp [magic]), read, one.sectors, replay_nil]

/-- Mounting a disk that does not carry it formats the disk. -/
theorem fsInit_formats {fs : State} (magic : (diskRoot fs.disk.sectors).magic ≠ fsMagic) :
    ∃ after, fsInit drive fs =
        { fs with root := formattedRoot, bitmap := fun _ => 0, disk := after } ∧
      Written ([bitmapWrite fun _ => 0] ++ rootWrites formattedRoot) fs.disk after := by
  obtain ⟨first, loaded, one⟩ := fsRootLoad_reliable reliable fs
  obtain ⟨second, persisted, two⟩ := bitmapPersist_reliable reliable
    { fs with root := formattedRoot, bitmap := fun _ => 0, disk := first }
  obtain ⟨after, saved, three⟩ := fsRootSave_reliable reliable
    { fs with root := formattedRoot, bitmap := fun _ => 0, disk := second }
  refine ⟨after, ?_, one.trans (two.trans three)⟩
  rw [fsInit, loaded]
  dsimp only
  rw [if_pos (Or.inr magic), fsFormat, persisted, saved]

end Reliable

end MxOS.Fs
