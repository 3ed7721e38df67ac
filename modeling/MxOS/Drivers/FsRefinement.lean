import Mathlib.Data.List.Nodup
import MxOS.Drivers.FsNames
import MxOS.Drivers.FsReading

/-! # The file system as a finite map

Seen from outside, the file system is a map from names to byte strings that are
padded to whole sectors: a write replaces the string of its name, or removes it when
the write fails, and a deletion removes it. The map is what the directory and the
data sectors represent, and looking up or loading a file reads the map.
-/

namespace MxOS.Fs

open ByteMemory Ata WriteLog

/-! ### The abstract map -/

abbrev Files := List Byte → Option (List Byte)

/-- The bytes written, followed by zeros up to the next multiple of 512. -/
def padded (data : Nat → Byte) (size : Nat) : List Byte :=
  (List.range (512 * ((size + 511) / 512))).map fun index => if index < size then data index else 0

/-- What a call that returned `ok` does to the map. -/
def Files.step (files : Files) (request : Request) (ok : Bool) : Files :=
  match request with
  | .invalid => files
  | .write name data sizeBytes =>
      Function.update files name.bytes (if ok then some (padded data sizeBytes.toNat) else none)
  | .delete name => Function.update files name.bytes none

/-- The calls with the results they returned. -/
def history (drive : Drive) : List Call → State → List (Call × Bool)
  | [], _ => []
  | call :: rest, fs =>
      (call, (call.perform drive fs).1) :: history drive rest (call.perform drive fs).2

/-- The map a history of calls leaves, from an empty one on. -/
def Files.after (past : List (Call × Bool)) : Files :=
  past.foldl (fun files entry => files.step entry.1.request entry.2) fun _ => none

/-! ### Representation -/

/-- The entry's sectors hold the content. -/
structure Holds (sectors : Lba28 → Sector) (entry : FileEntry) (content : List Byte) : Prop where
  length : content.length = 512 * entry.sizeSect.toNat
  bytes : ∀ index (inside : index < content.length),
    sectors (sectorOf (entry.startLba + BitVec.ofNat 32 (index / 512))) (Fin.ofNat 512 index) =
      content[index]

/-- The directory lists exactly the names of the map, each once, and the sectors of each
entry hold its content. -/
structure Represents (root : RootDirectory) (sectors : Lba28 → Sector) (files : Files) : Prop where
  distinct : ∀ first second, root.Live first → root.Live second →
    storedBytes (root.files first).name = storedBytes (root.files second).name → first = second
  listed : ∀ name content, files name = some content →
    ∃ slot, root.Live slot ∧ storedBytes (root.files slot).name = name
  stored : ∀ slot, root.Live slot → ∃ content,
    files (storedBytes (root.files slot).name) = some content ∧
      Holds sectors (root.files slot) content

variable {root : RootDirectory} {bitmap : Sector} {sectors : Lba28 → Sector} {files : Files}

/-- The map has no file of a name that is not found. -/
theorem Represents.files_eq_none (represents : Represents root sectors files) {name : CString}
    (missing : root.lookup name = none) : files name.bytes = none := by
  cases content : files name.bytes with
  | none => rfl
  | some bytes =>
      obtain ⟨slot, live, same⟩ := represents.listed name.bytes bytes content
      exact absurd same (lookup_eq_none missing slot live)

/-- Writes to sectors outside an entry's extent keep its content. -/
theorem Holds.replay {entry : FileEntry} {content : List Byte}
    (holds : Holds sectors entry content)
    (high : entry.startLba.toNat + entry.sizeSect.toNat ≤ 597)
    {writes : List (Lba28 × Sector)}
    (outside : ∀ write ∈ writes, ¬ entry.Occupies write.1.toNat) :
    Holds (WriteLog.replay writes sectors) entry content := by
  refine ⟨holds.length, fun index inside => ?_⟩
  rw [← holds.bytes index inside, replay_of_forall_ne]
  intro write member same
  have length := holds.length
  have address : (sectorOf (entry.startLba + BitVec.ofNat 32 (index / 512))).toNat =
      entry.startLba.toNat + index / 512 := by
    rw [sectorOf]
    bv_omega
  apply outside write member
  rw [same, address]
  exact ⟨by omega, by omega⟩

/-- Writes outside all live extents keep the represented map. -/
theorem Represents.replay (represents : Represents root sectors files)
    (consistent : Consistent root bitmap) {writes : List (Lba28 × Sector)}
    (outside : ∀ write ∈ writes, ∀ slot, root.Live slot →
      ¬ (root.files slot).Occupies write.1.toNat) :
    Represents root (WriteLog.replay writes sectors) files := by
  refine ⟨represents.distinct, represents.listed, fun slot live => ?_⟩
  obtain ⟨content, present, holds⟩ := represents.stored slot live
  exact ⟨content, present, holds.replay (consistent.inside slot live).2.2 fun write member =>
    outside write member slot live⟩

/-- The directory and bitmap sectors lie outside all live extents. -/
theorem Consistent.not_occupies (consistent : Consistent root bitmap) {slot : Fin 32}
    (live : root.Live slot) {lba : Nat} (below : lba < 86) :
    ¬ (root.files slot).Occupies lba := by
  intro occupied
  have low := (consistent.inside slot live).1
  have start := occupied.1
  omega

theorem mem_bitmapWrite {bitmap : Sector} {write : Lba28 × Sector}
    (member : write ∈ [bitmapWrite bitmap]) : write.1.toNat < 86 := by
  obtain rfl := List.mem_singleton.mp member
  have address : (sectorOf fsBitmapLba).toNat = 85 := by decide
  rw [bitmapWrite, address]
  decide

/-! ### Deleting -/

theorem mem_erase_writes {slot : Fin 32} {write : Lba28 × Sector}
    (member : write ∈ (Plan.erase root bitmap slot).writes) : write.1.toNat < 86 := by
  simp only [Plan.erase] at member
  split at member
  · have bounds := mem_rootWrites member
    omega
  · rcases List.mem_append.mp member with saved | saved
    · exact mem_bitmapWrite saved
    · have bounds := mem_rootWrites saved
      omega

/-- Clearing the entry of a name removes the name from the map. -/
theorem Represents.setFile_empty (represents : Represents root sectors files) {slot : Fin 32}
    (live : root.Live slot) :
    Represents (root.setFile slot .empty) sectors
      (Function.update files (storedBytes (root.files slot).name) none) := by
  have distinct : root.DistinctNames := represents.distinct
  refine ⟨distinct.setFile_empty slot, fun name content present => ?_, fun other live' => ?_⟩
  · have differ : name ≠ storedBytes (root.files slot).name := by
      rintro rfl
      rw [Function.update_self] at present
      exact absurd present (Option.some_ne_none _ ·.symm)
    rw [Function.update_of_ne differ] at present
    obtain ⟨other, live', same⟩ := represents.listed name content present
    have others : other ≠ slot := by
      rintro rfl
      exact differ same.symm
    refine ⟨other, (RootDirectory.live_setFile_of_ne others).mpr live', ?_⟩
    rw [root.setFile_of_ne _ others, same]
  · obtain ⟨differ, liveBefore⟩ := live_setFile_empty live'
    have names : storedBytes (root.files other).name ≠ storedBytes (root.files slot).name :=
      fun same => differ (represents.distinct other slot liveBefore live same)
    obtain ⟨content, present, holds⟩ := represents.stored other liveBefore
    rw [root.setFile_of_ne _ differ]
    exact ⟨content, by rw [Function.update_of_ne names, present], holds⟩

theorem Represents.delete (represents : Represents root sectors files)
    (consistent : Consistent root bitmap) (name : CString) :
    Represents (Plan.delete root bitmap name).root
      (WriteLog.replay (Plan.delete root bitmap name).writes sectors)
      (Function.update files name.bytes none) := by
  unfold Plan.delete
  cases found : root.lookup name with
  | none =>
      have unchanged : Function.update files name.bytes none = files := by
        rw [← represents.files_eq_none found, Function.update_eq_self]
      rw [unchanged]
      exact represents
  | some slot =>
      obtain ⟨live, same⟩ := lookup_eq_some found
      rw [Plan.erase_root, ← same]
      apply Represents.setFile_empty _ live
      apply represents.replay consistent
      intro write member other live'
      exact consistent.not_occupies live' (mem_erase_writes member)

/-! ### Storing -/

/-- An entry of a new name adds the name to the map. -/
theorem Represents.setFile (represents : Represents root sectors files) {slot : Fin 32}
    (dead : ¬ root.Live slot) {name : List Byte} (missing : files name = none)
    {entry : FileEntry} (valid : validName entry.name = true)
    (named : storedBytes entry.name = name) {content : List Byte}
    (holds : Holds sectors entry content) :
    Represents (root.setFile slot entry) sectors (Function.update files name (some content)) := by
  have fresh : ∀ other, root.Live other → storedBytes (root.files other).name ≠ name := by
    intro other live same
    obtain ⟨bytes, present, _⟩ := represents.stored other live
    rw [same, missing] at present
    exact absurd present (Option.some_ne_none _ ·.symm)
  have distinct : root.DistinctNames := represents.distinct
  refine ⟨distinct.setFile (by rwa [named]), fun query bytes present => ?_,
    fun other live => ?_⟩
  · by_cases same : query = name
    · refine ⟨slot, ?_, by rw [root.setFile_self, named, same]⟩
      unfold RootDirectory.Live
      rw [root.setFile_self, valid]
    · rw [Function.update_of_ne same] at present
      obtain ⟨other, live, listed⟩ := represents.listed query bytes present
      have differ : other ≠ slot := fun here => dead (here ▸ live)
      refine ⟨other, (RootDirectory.live_setFile_of_ne differ).mpr live, ?_⟩
      rw [root.setFile_of_ne _ differ, listed]
  · by_cases here : other = slot
    · rw [here, root.setFile_self, named]
      exact ⟨content, Function.update_self _ _ _, holds⟩
    · rw [RootDirectory.live_setFile_of_ne here] at live
      obtain ⟨bytes, present, kept⟩ := represents.stored other live
      rw [root.setFile_of_ne _ here]
      exact ⟨bytes, by rw [Function.update_of_ne (fresh other live), present], kept⟩

theorem length_padded (data : Nat → Byte) (size : Nat) :
    (padded data size).length = 512 * ((size + 511) / 512) := by
  rw [padded, List.length_map, List.length_range]

section Contents

variable {startLba : Word} {sizeBytes : Word} {data : Nat → Byte}

theorem address_toNat (run : FreeRun bitmap startLba ((sizeBytes + 511) / 512)) {sector : Nat}
    (bound : sector < ((sizeBytes + 511) / 512).toNat) :
    (sectorOf (startLba + BitVec.ofNat 32 sector)).toNat = startLba.toNat + sector := by
  have high := run.high
  rw [sectorOf]
  bv_omega

theorem mem_dataWrites_run (run : FreeRun bitmap startLba ((sizeBytes + 511) / 512))
    (sized : Sized sizeBytes) {write : Lba28 × Sector}
    (member : write ∈ dataWrites data startLba sizeBytes.toNat) :
    startLba.toNat ≤ write.1.toNat ∧
      write.1.toNat < startLba.toNat + ((sizeBytes + 511) / 512).toNat := by
  obtain ⟨sector, inRange, rfl⟩ := List.mem_map.mp member
  have bound := List.mem_range.mp inRange
  rw [← sized.sectors] at bound
  simp only [address_toNat run bound]
  omega

theorem dataWrites_nodup (run : FreeRun bitmap startLba ((sizeBytes + 511) / 512))
    (sized : Sized sizeBytes) :
    ((dataWrites data startLba sizeBytes.toNat).map Prod.fst).Nodup := by
  rw [dataWrites, List.map_map]
  apply List.Nodup.map_on _ List.nodup_range
  intro first inRange₁ second inRange₂ same
  rw [List.mem_range, ← sized.sectors] at inRange₁ inRange₂
  have values := congrArg BitVec.toNat same
  simp only [Function.comp_apply] at values
  rw [address_toNat run inRange₁, address_toNat run inRange₂] at values
  omega

/-- The data writes leave the padded content in the run. -/
theorem dataWrites_holds (run : FreeRun bitmap startLba ((sizeBytes + 511) / 512))
    (sized : Sized sizeBytes) (name : Fin 24 → Byte) (sectors : Lba28 → Sector) :
    Holds (WriteLog.replay (dataWrites data startLba sizeBytes.toNat) sectors)
      ⟨name, startLba, (sizeBytes + 511) / 512⟩ (padded data sizeBytes.toNat) := by
  refine ⟨by rw [length_padded, sized.sectors], fun index inside => ?_⟩
  rw [length_padded] at inside
  have member : (sectorOf (startLba + BitVec.ofNat 32 (index / 512)),
      dataChunk data (512 * (index / 512)) (sizeBytes.toNat - 512 * (index / 512))) ∈
        dataWrites data startLba sizeBytes.toNat :=
    List.mem_map.mpr ⟨index / 512, List.mem_range.mpr (by omega), rfl⟩
  rw [replay_of_mem (dataWrites_nodup run sized) member]
  simp only [padded, List.getElem_map, List.getElem_range, dataChunk, Fin.val_ofNat]
  rw [show 512 * (index / 512) + index % 512 = index by omega]
  congr 1
  apply propext
  omega

/-- The content stays when directory and bitmap are saved. -/
theorem dataWrites_append_holds (run : FreeRun bitmap startLba ((sizeBytes + 511) / 512))
    (sized : Sized sizeBytes) (name : Fin 24 → Byte) {writes : List (Lba28 × Sector)}
    (own : ∀ write ∈ writes, write.1.toNat < 86) (sectors : Lba28 → Sector) :
    Holds (WriteLog.replay (dataWrites data startLba sizeBytes.toNat ++ writes) sectors)
      ⟨name, startLba, (sizeBytes + 511) / 512⟩ (padded data sizeBytes.toNat) := by
  rw [replay_append]
  apply (dataWrites_holds run sized name sectors).replay run.high
  intro write member occupied
  have below := own write member
  have low := run.low
  have start := occupied.1
  simp only at start
  omega

end Contents

/-- Storing a file saves the bitmap and the directory after its data. -/
theorem mem_saves {bitmap : Sector} {root : RootDirectory} {write : Lba28 × Sector}
    (member : write ∈ [bitmapWrite bitmap] ++ rootWrites root) : write.1.toNat < 86 := by
  rcases List.mem_append.mp member with saved | saved
  · exact mem_bitmapWrite saved
  · have bounds := mem_rootWrites saved
    omega

theorem Represents.store (represents : Represents root sectors files)
    (consistent : Consistent root bitmap) {name : CString} (nonempty : name.bytes ≠ [])
    (short : name.bytes.length ≤ 23) (missing : files name.bytes = none) (data : Nat → Byte)
    {sizeBytes : Word} (sized : Sized sizeBytes) :
    Represents (Plan.store root bitmap name data sizeBytes).root
      (WriteLog.replay (Plan.store root bitmap name data sizeBytes).writes sectors)
      (Function.update files name.bytes
        (if (Plan.store root bitmap name data sizeBytes).ok then
          some (padded data sizeBytes.toNat) else none)) := by
  have unchanged : Function.update files name.bytes none = files := by
    rw [← missing, Function.update_eq_self]
  obtain rejected | ⟨startLba, run, outcome⟩ :=
    @Plan.store_cases root bitmap name data sizeBytes sized
  · simp only [rejected, Plan.reject, Bool.false_eq_true, ↓reduceIte, unchanged, replay_nil]
    exact represents
  · have dataOutside : ∀ write ∈ dataWrites data startLba sizeBytes.toNat, ∀ slot,
        root.Live slot → ¬ (root.files slot).Occupies write.1.toNat := by
      intro write member slot live
      obtain ⟨after, before⟩ := mem_dataWrites_run run sized member
      exact consistent.protected.not_occupies run live after before
    have kept := represents.replay consistent dataOutside
    rcases outcome with ⟨_, full⟩ | ⟨slot, free, stored⟩
    · simp only [full, Bool.false_eq_true, ↓reduceIte, unchanged, replay_append]
      apply Represents.replay _ consistent
      · intro write member slot live
        exact consistent.not_occupies live (mem_bitmapWrite member)
      · apply kept.replay consistent
        intro write member slot live
        exact consistent.not_occupies live (mem_bitmapWrite member)
    · simp only [stored, ↓reduceIte]
      rw [List.append_assoc]
      apply Represents.setFile _ (freeSlot_not_live free) missing
      · exact validName_copyName _ nonempty
      · rw [storedBytes_copyName, List.take_of_length_le short]
      · exact dataWrites_append_holds run sized _ (fun _ member => mem_saves member) sectors
      · rw [replay_append]
        apply kept.replay consistent
        intro write member other live
        exact consistent.not_occupies live (mem_saves member)

/-! ### Runs -/

def Call.name : Call → Option CString
  | .write name _ _ => name
  | .writeSilent name _ _ => name
  | .delete name => name
  | .deleteSilent name => name

/-- The name, if there is one, fits in a directory entry. -/
def Call.Short (call : Call) : Prop := ∀ name, call.name = some name → name.bytes.length ≤ 23

def Request.Short : Request → Prop
  | .invalid => True
  | .write name _ _ => name.bytes.length ≤ 23
  | .delete _ => True

theorem Request.ofWrite_short {given : Option CString} (data : Option (Nat → Byte))
    (sizeBytes : Word) (short : ∀ name, given = some name → name.bytes.length ≤ 23) :
    (Request.ofWrite given data sizeBytes).Short := by
  rcases Request.ofWrite_cases given data sizeBytes with
    invalid | ⟨name, content, same, _, _, _, request⟩
  · rw [invalid]
    trivial
  · rw [request]
    exact short name same

theorem Request.ofDelete_short (given : Option CString) : (Request.ofDelete given).Short := by
  unfold Request.ofDelete
  cases usable given with
  | none => trivial
  | some name => trivial

theorem Call.request_short {call : Call} (short : call.Short) : call.request.Short := by
  cases call with
  | write name data sizeBytes => exact Request.ofWrite_short data sizeBytes short
  | writeSilent name data sizeBytes => exact Request.ofWrite_short data sizeBytes short
  | delete name => exact Request.ofDelete_short name
  | deleteSilent name => exact Request.ofDelete_short name

/-- One call changes the represented map as the abstract step does. -/
theorem Represents.plan (represents : Represents root sectors files)
    (consistent : Consistent root bitmap) {request : Request} (sized : request.Sized)
    (short : request.Short) :
    Represents (request.plan root bitmap).root
      (WriteLog.replay (request.plan root bitmap).writes sectors)
      (files.step request (request.plan root bitmap).ok) := by
  cases request with
  | invalid => exact represents
  | write name data sizeBytes =>
      have cleared := represents.delete consistent name
      have stored := cleared.store (consistent_maintained.delete name consistent) sized.1 short
        (Function.update_self _ _ _) data sized.2
      rw [Function.update_idem, ← replay_append] at stored
      exact stored
  | delete name => exact represents.delete consistent name

theorem Represents.run {drive : Drive} (reliable : drive.Reliable) {calls : List Call}
    (sized : ∀ call ∈ calls, call.Sized) (short : ∀ call ∈ calls, call.Short) {fs : State}
    (represents : Represents fs.root fs.disk.sectors files)
    (consistent : Consistent fs.root fs.bitmap) :
    Represents (run drive calls fs).root (run drive calls fs).disk.sectors
      ((history drive calls fs).foldl (fun files entry => files.step entry.1.request entry.2)
        files) := by
  induction calls generalizing fs files with
  | nil => exact represents
  | cons call rest ih =>
      have performs := perform_performs reliable call fs
      have callSized := Call.request_sized (sized call (List.mem_cons_self ..))
      have callShort := Call.request_short (short call (List.mem_cons_self ..))
      apply ih (fun later member => sized later (List.mem_cons_of_mem _ member))
        (fun later member => short later (List.mem_cons_of_mem _ member))
      · rw [performs.root, performs.disk.sectors, performs.ok]
        exact represents.plan consistent callSized callShort
      · rw [performs.root, performs.bitmap]
        exact consistent_maintained.plan callSized consistent

/-! ### Loading -/

theorem loadLoop_reliable {drive : Drive} (reliable : drive.Reliable) {fuel count : Nat}
    {remaining : Word} (whole : remaining.toNat = 512 * count) (enough : count ≤ fuel) (lba : Word)
    (out : Nat) (dest : Nat → Byte) (disk : Disk) :
    ∃ loaded after, loadLoop drive fuel remaining lba out dest disk = (true, loaded, after) ∧
      ∀ query, loaded query =
        if out ≤ query ∧ query < out + 512 * count then
          disk.sectors (sectorOf (lba + BitVec.ofNat 32 ((query - out) / 512)))
            (Fin.ofNat 512 (query - out))
        else dest query := by
  obtain ⟨polls, transfer⟩ := readSectors_reliable reliable (consecutive lba count) disk
  have complete : (readSectors drive (consecutive lba count) disk).complete = true := by
    rw [transfer]
  refine ⟨_, (readSectors drive (consecutive lba count) disk).disk, ?_,
    placed_readSectors drive lba count disk complete out dest⟩
  rw [loadLoop_eq drive whole enough, complete]

section Reading

variable {drive : Drive} {name : CString} (nonempty : name.bytes ≠ [])
include nonempty

theorem fsFileExists_eq (fs : State) :
    fsFileExists fs (some name) = (fs.root.lookup name).isSome := by
  simp only [fsFileExists, usable_some nonempty]

theorem fsLoadFile_missing {fs : State} (missing : fs.root.lookup name = none)
    (dest : Nat → Byte) (maxSize : Word) :
    (fsLoadFile drive (some name) (some dest) maxSize fs).ok = false := by
  simp only [fsLoadFile, usable_some nonempty, missing]

/-- Loading a file copies its content to the start of the destination. -/
theorem fsLoadFile_holds (reliable : drive.Reliable) {fs : State} {slot : Fin 32}
    (found : fs.root.lookup name = some slot) (consistent : Consistent fs.root fs.bitmap)
    {content : List Byte} (holds : Holds fs.disk.sectors (fs.root.files slot) content)
    (dest : Nat → Byte) {maxSize : Word} (fits : content.length ≤ maxSize.toNat) :
    let loaded := fsLoadFile drive (some name) (some dest) maxSize fs
    loaded.ok = true ∧ loaded.outSize.map BitVec.toNat = some content.length ∧
      ∀ index, loaded.dest index = content[index]?.getD (dest index) := by
  obtain ⟨low, positive, high⟩ := consistent.inside slot (lookup_live found)
  have length := holds.length
  have total : ((fs.root.files slot).sizeSect * 512).toNat = content.length := by bv_omega
  have accepted : ¬ ((fs.root.files slot).startLba < fsDataLba ∨
      (fs.root.files slot).sizeSect = 0 ∨ (fs.root.files slot).sizeSect > 0x100000 ∨
      (fs.root.files slot).startLba > 0xFFFFFFFF - (fs.root.files slot).sizeSect) := by
    have base := fsDataLba_toNat
    bv_omega
  have small : ¬ (fs.root.files slot).sizeSect * 512 > maxSize := by
    rw [gt_iff_lt, BitVec.lt_def, total]
    omega
  obtain ⟨bytes, after, step, copied⟩ := loadLoop_reliable reliable (total.trans length)
    (show (fs.root.files slot).sizeSect.toNat ≤
      ((fs.root.files slot).sizeSect * 512).toNat by omega)
    (fs.root.files slot).startLba 0 dest fs.disk
  have result : fsLoadFile drive (some name) (some dest) maxSize fs =
      ⟨true, bytes, some ((fs.root.files slot).sizeSect * 512), { fs with disk := after }⟩ := by
    simp only [fsLoadFile, usable_some nonempty, found, accepted, ↓reduceIte, small, step]
  simp only [result, Option.map_some, total, true_and]
  intro index
  rw [copied index]
  by_cases inside : index < content.length
  · rw [if_pos (by omega), Nat.sub_zero, holds.bytes index inside,
      List.getElem?_eq_getElem inside, Option.getD_some]
  · rw [if_neg (by omega), List.getElem?_eq_none (by omega), Option.getD_none]

end Reading

/-! ### Refinement -/

theorem Represents.blank (dead : ∀ slot, ¬ root.Live slot) (sectors : Lba28 → Sector) :
    Represents root sectors fun _ => none :=
  ⟨fun first _ live => absurd live (dead first),
    fun _ _ present => absurd present (Option.some_ne_none _ ·.symm),
    fun slot live => absurd live (dead slot)⟩

/-- The file system refines a finite map from names to padded byte strings. After any calls
from a fresh disk, a name of the map is found and loads as the mapped bytes, and any other
name is not found. -/
theorem refines_map {drive : Drive} (reliable : drive.Reliable) (boot : State)
    (fresh : FreshDisk boot.disk.sectors) (calls : List Call)
    (sized : ∀ call ∈ calls, call.Sized) (short : ∀ call ∈ calls, call.Short)
    (name : CString) (nonempty : name.bytes ≠ []) :
    let start := fsInit drive boot
    let fs := run drive calls start
    match Files.after (history drive calls start) name.bytes with
    | some content =>
        fsFileExists fs (some name) = true ∧
        ∀ (dest : Nat → Byte) (maxSize : Word), content.length ≤ maxSize.toNat →
          let loaded := fsLoadFile drive (some name) (some dest) maxSize fs
          loaded.ok = true ∧ loaded.outSize.map BitVec.toNat = some content.length ∧
            ∀ index, loaded.dest index = content[index]?.getD (dest index)
    | none =>
        fsFileExists fs (some name) = false ∧
        ∀ (dest : Nat → Byte) (maxSize : Word),
          (fsLoadFile drive (some name) (some dest) maxSize fs).ok = false := by
  intro start fs
  have initial : Consistent start.root start.bitmap := fsInit_consistent reliable fresh
  have consistent : Consistent fs.root fs.bitmap :=
    consistent_maintained.run reliable sized initial
  have represents : Represents fs.root fs.disk.sectors (Files.after (history drive calls start)) :=
    Represents.run reliable sized short
      (.blank (fun slot => not_live_of_empty ((fsInit_blank reliable fresh).1 slot)) _) initial
  rw [fsFileExists_eq nonempty]
  cases found : fs.root.lookup name with
  | none =>
      rw [represents.files_eq_none found]
      exact ⟨rfl, fsLoadFile_missing nonempty found⟩
  | some slot =>
      obtain ⟨live, same⟩ := lookup_eq_some found
      obtain ⟨content, present, holds⟩ := represents.stored slot live
      rw [same] at present
      rw [present]
      exact ⟨rfl, fun dest maxSize fits =>
        fsLoadFile_holds nonempty reliable found consistent holds dest fits⟩

theorem refines_map_after_write :
    let name : CString := ⟨[0x61], by decide⟩
    let call := Call.write (some name) (some fun _ => 0x78) 513
    let fs := run readyDrive [call] (fsInit readyDrive blankBoot)
    fsFileExists fs (some name) = true ∧
      (fsLoadFile readyDrive (some name) (some fun _ => 0xFF) 1024 fs).outSize.map BitVec.toNat =
        some 1024 := by
  intro name call fs
  have sized : ∀ given ∈ [call], given.Sized := by
    intro given member
    obtain rfl := List.mem_singleton.mp member
    exact ⟨by decide, by decide⟩
  have short : ∀ given ∈ [call], given.Short := by
    intro given member
    obtain rfl := List.mem_singleton.mp member
    intro string same
    obtain rfl := Option.some.inj same
    decide
  have after : Files.after (history readyDrive [call] (fsInit readyDrive blankBoot)) name.bytes =
      some (padded (fun _ => 0x78) 513) := by
    have ok : (call.perform readyDrive (fsInit readyDrive blankBoot)).1 = true := by
      decide +kernel
    rw [history, ok]
    rfl
  have spec := refines_map readyDrive_reliable blankBoot blankBoot_fresh [call] sized short name
    (by decide)
  simp only [after] at spec
  refine ⟨spec.1, ?_⟩
  have loaded := spec.2 (fun _ => 0xFF) 1024 (by rw [length_padded]; decide)
  rw [loaded.2.1, length_padded]

end MxOS.Fs
