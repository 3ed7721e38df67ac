import MxOS.Drivers.FsDisplay
import MxOS.Drivers.FsReboot

/-! # What the file operations answer

Every operation prints what became of it. Without disk errors the text says what the
operation did to the map of names to contents that the disk represents: a write is
reported as successful exactly if it stored the content, and a read prints the content.
-/

namespace MxOS.Fs

open ByteMemory Ata WriteLog

/-! ### The map with its answers -/

/-- The content with zeros up to a whole number of sectors. -/
def wholeSectors (content : List Byte) : List Byte :=
  content ++ List.replicate (512 * ((content.length + 511) / 512) - content.length) 0

/-- Writing a file stores its content, or finds no room and leaves no file of the name. That the
directory is full is printed even by the silent variant. -/
inductive Files.Write (verbose : Bool) (name content : List Byte) (files : Files) :
    List Byte → Files → Prop where
  | stored : Files.Write verbose name content files
      (if verbose then literal "Fichier ecrit avec succes.\n" else [])
      (Function.update files name (some (wholeSectors content)))
  | noSpace : Files.Write verbose name content files
      (if verbose then literal "Espace disque insuffisant.\n" else [])
      (Function.update files name none)
  | directoryFull : Files.Write verbose name content files
      (literal "Erreur : Root Directory plein !\n") (Function.update files name none)

/-- What is printed for a file to be deleted. -/
def Files.deleteReply (files : Files) (name : List Byte) : List Byte :=
  if name = [] then literal "Nom de fichier invalide.\n"
  else if (files name).isSome then literal "Fichier supprime.\n"
  else literal "Fichier introuvable : " ++ name ++ literal "\n"

/-- What is printed for a file to be shown. -/
def Files.readReply (files : Files) (name : List Byte) : List Byte :=
  if name = [] then literal "Nom de fichier invalide.\n"
  else
    match files name with
    | some content =>
        literal "Lecture de : " ++ name ++ literal "\n" ++ content.map shown ++ literal "\n"
    | none => literal "Fichier introuvable : " ++ name ++ literal "\n"

/-- The file system holds the files of the map, in memory and on its disk. -/
structure Filed (fs : State) (files : Files) : Prop where
  represents : Represents fs.root fs.disk.sectors files
  consistent : Consistent fs.root fs.bitmap
  synced : Synced fs

/-- The operation changed nothing of the files and printed the text. -/
structure Reads (fs : State) (text : List Byte) (after : State) : Prop where
  root : after.root = fs.root
  bitmap : after.bitmap = fs.bitmap
  sectors : after.disk.sectors = fs.disk.sectors
  console : after.console = fs.console ++ text

section Reads

variable {fs middle after : State} {text more : List Byte} {files : Files}

theorem Reads.refl (fs : State) : Reads fs [] fs :=
  ⟨rfl, rfl, rfl, (List.append_nil _).symm⟩

theorem Reads.trans (first : Reads fs text middle) (second : Reads middle more after) :
    Reads fs (text ++ more) after where
  root := second.root.trans first.root
  bitmap := second.bitmap.trans first.bitmap
  sectors := second.sectors.trans first.sectors
  console := by rw [second.console, first.console, List.append_assoc]

theorem reads_kprint (text : List Byte) (fs : State) : Reads fs text (kprint text fs) :=
  ⟨rfl, rfl, rfl, rfl⟩

theorem Filed.reads (filed : Filed fs files) (reads : Reads fs text after) : Filed after files where
  represents := by
    rw [reads.root, reads.sectors]
    exact filed.represents
  consistent := by
    rw [reads.root, reads.bitmap]
    exact filed.consistent
  synced := by
    obtain ⟨root, bitmap, magic⟩ := filed.synced
    refine ⟨?_, ?_, ?_⟩
    · rw [reads.sectors, reads.root, root]
    · rw [reads.sectors, reads.bitmap, bitmap]
    · rw [reads.root, magic]

end Reads

/-! ### Deleting -/

theorem kprintIf_console (verbose : Bool) (text : String) (fs : State) :
    (kprintIf verbose text fs).console = fs.console ++ if verbose then literal text else [] := by
  cases verbose with
  | false => exact (List.append_nil _).symm
  | true => rfl

section Reliable

variable {drive : Drive} {fs : State} {files : Files} {name : CString}

theorem usable_nil (empty : name.bytes = []) : usable (some name) = none := by
  simp only [usable, Option.filter_some, empty, ne_eq, not_true, decide_false,
    Bool.false_eq_true, ↓reduceIte]

theorem Filed.lookup (filed : Filed fs files) (name : CString) :
    (fs.root.lookup name).isSome = (files name.bytes).isSome := by
  cases found : fs.root.lookup name with
  | none =>
      rw [filed.represents.files_eq_none found]
      rfl
  | some slot =>
      obtain ⟨live, same⟩ := lookup_eq_some found
      obtain ⟨content, present, _⟩ := filed.represents.stored slot live
      rw [same] at present
      rw [present]
      rfl

/-- There is no file without a name. -/
theorem Filed.nameless (filed : Filed fs files) : files [] = none := by
  cases content : files [] with
  | none => rfl
  | some bytes =>
      obtain ⟨slot, live, same⟩ := filed.represents.listed [] bytes content
      have first := (validName_iff.mp live).1
      exact absurd (storedBytes_eq_nil_iff.mp same) first

theorem Filed.perform (reliable : drive.Reliable) (filed : Filed fs files) (call : Call)
    (sized : call.request.Sized) (short : call.request.Short) :
    Filed (call.perform drive fs).2 (files.step call.request (call.perform drive fs).1) := by
  have performs := perform_performs reliable call fs
  refine ⟨?_, ?_, perform_synced reliable call filed.synced⟩
  · rw [performs.root, performs.disk.sectors, performs.ok]
    exact filed.represents.plan filed.consistent sized short
  · rw [performs.root, performs.bitmap]
    exact consistent_maintained.plan sized filed.consistent

variable (reliable : drive.Reliable)
include reliable

/-- What a deletion prints. -/
theorem fsDeleteFileImpl_console (name : CString) (verbose : Bool) (fs : State) :
    (fsDeleteFileImpl drive (some name) verbose fs).2.console = fs.console ++
      if verbose then
        if name.bytes = [] then literal "Nom de fichier invalide.\n"
        else if (fs.root.lookup name).isSome then literal "Fichier supprime.\n"
        else literal "Fichier introuvable : " ++ name.bytes ++ literal "\n"
      else [] := by
  have printing := kprintIf_console verbose
  unfold fsDeleteFileImpl
  by_cases empty : name.bytes = []
  · simp only [usable_nil empty, printing, empty, ↓reduceIte]
  · simp only [usable_some empty, empty, ↓reduceIte]
    cases found : fs.root.lookup name with
    | none =>
        simp only [printing, Option.isSome_none, Bool.false_eq_true, ↓reduceIte]
        cases verbose with
        | false => simp only [Bool.false_eq_true, ↓reduceIte, printing, List.append_nil]
        | true => simp only [↓reduceIte, kprint, printing, List.append_assoc]
    | some slot =>
        have released : ∃ bitmap disk, bitmapMark drive (fs.root.files slot).startLba
            (fs.root.files slot).sizeSect 0 fs = { fs with bitmap := bitmap, disk := disk } := by
          by_cases low : (fs.root.files slot).startLba < fsDataLba
          · exact ⟨fs.bitmap, fs.disk, by rw [bitmapMark, if_pos low]⟩
          · obtain ⟨disk, released, _⟩ := bitmapMark_reliable reliable low
              (fs.root.files slot).sizeSect 0 fs
            exact ⟨_, disk, released⟩
        obtain ⟨bitmap, disk, released⟩ := released
        obtain ⟨after, saved, _⟩ := fsRootSave_reliable reliable
          { fs with
            bitmap := bitmap
            disk := disk
            root := fs.root.setFile slot FileEntry.empty }
        simp only [released, saved, printing, Option.isSome_some, ↓reduceIte]

theorem Filed.delete (filed : Filed fs files) (name : CString) (verbose : Bool) :
    let after := (fsDeleteFileImpl drive (some name) verbose fs).2
    Filed after (Function.update files name.bytes none) ∧
      after.console = fs.console ++ if verbose then files.deleteReply name.bytes else [] := by
  intro after
  have deleted : Filed after (files.step (Request.ofDelete (some name))
      (fsDeleteFileImpl drive (some name) verbose fs).1) := by
    cases verbose with
    | false =>
        exact filed.perform reliable (.deleteSilent (some name)) (Request.ofDelete_sized _)
          (Request.ofDelete_short _)
    | true =>
        exact filed.perform reliable (.delete (some name)) (Request.ofDelete_sized _)
          (Request.ofDelete_short _)
  refine ⟨?_, ?_⟩
  · by_cases empty : name.bytes = []
    · rw [empty, ← filed.nameless, Function.update_eq_self]
      have invalid : Request.ofDelete (some name) = .invalid := by
        rw [Request.ofDelete, usable_nil empty]
      rwa [invalid] at deleted
    · rwa [Request.ofDelete, usable_some empty] at deleted
  · rw [show after.console = _ from fsDeleteFileImpl_console reliable name verbose fs,
      Files.deleteReply, filed.lookup name]

/-! ### Writing -/

theorem overwritten_console (name : CString) (fs : State) :
    (if fsFileExists fs (some name) then (fsDeleteFileImpl drive (some name) false fs).2
      else fs).console = fs.console := by
  split
  · rw [fsDeleteFileImpl_console reliable, if_neg Bool.false_ne_true, List.append_nil]
  · rfl

/-- What a write prints, with what it returns. -/
theorem fsWriteFileImpl_console (nonempty : name.bytes ≠ []) (data : Nat → Byte)
    {sizeBytes : Word} (nonzero : sizeBytes ≠ 0) (verbose : Bool) (fs : State) :
    let result := fsWriteFileImpl drive (some name) (some data) sizeBytes verbose fs
    result.1 = true ∧ result.2.console =
        fs.console ++ (if verbose then literal "Fichier ecrit avec succes.\n" else []) ∨
      result.1 = false ∧ (result.2.console =
          fs.console ++ (if verbose then literal "Espace disque insuffisant.\n" else []) ∨
        result.2.console = fs.console ++ literal "Erreur : Root Directory plein !\n") := by
  have printing := kprintIf_console verbose
  have before := overwritten_console reliable name fs
  unfold fsWriteFileImpl
  simp only [usable_some nonempty, nonzero, ↓reduceIte]
  generalize (if fsFileExists fs (some name) then
    (fsDeleteFileImpl drive (some name) false fs).2 else fs) = cleared at before ⊢
  rw [← before]
  by_cases full : bitmapFindFreeRun cleared.bitmap ((sizeBytes + 511) / 512) = 0
  · simp only [full, ↓reduceIte]
    exact Or.inr ⟨trivial, Or.inl (printing _ _)⟩
  · have inData := bitmapFindFreeRun_inData full
    generalize bitmapFindFreeRun cleared.bitmap ((sizeBytes + 511) / 512) = startLba
      at full inData ⊢
    obtain ⟨stored, transfer, _⟩ := writeLoop_reliable reliable data
      (Nat.le_refl sizeBytes.toNat) startLba 0 cleared.disk
    obtain ⟨noted, mark, _⟩ := bitmapMark_reliable reliable inData ((sizeBytes + 511) / 512) 1
      { cleared with disk := stored }
    simp only [full, ↓reduceIte, transfer, mark]
    cases free : cleared.root.freeSlot with
    | none =>
        obtain ⟨after, unmark, _⟩ := bitmapMark_reliable reliable inData
          ((sizeBytes + 511) / 512) 0
          { cleared with
            bitmap := marked startLba ((sizeBytes + 511) / 512) 1 cleared.bitmap
            disk := noted
            console := cleared.console ++ literal "Erreur : Root Directory plein !\n" }
        simp only [fsAddEntry, free, kprint, unmark]
        exact Or.inr ⟨trivial, Or.inr trivial⟩
    | some slot =>
        have entry := fsAddEntry_reliable reliable name startLba ((sizeBytes + 511) / 512)
          { cleared with
            bitmap := marked startLba ((sizeBytes + 511) / 512) 1 cleared.bitmap
            disk := noted }
        simp only [free] at entry
        obtain ⟨after, added, _⟩ := entry
        simp only [added]
        exact Or.inl ⟨trivial, printing _ _⟩

omit reliable in
theorem padded_eq_wholeSectors {data : Nat → Byte} {content : List Byte}
    (bytes : ∀ index (inside : index < content.length), data index = content[index]) :
    padded data content.length = wholeSectors content := by
  apply List.ext_getElem
  · rw [length_padded, wholeSectors, List.length_append, List.length_replicate]
    omega
  · intro index inside _
    simp only [padded, wholeSectors, List.getElem_map, List.getElem_range]
    by_cases within : index < content.length
    · rw [if_pos within, List.getElem_append_left within, bytes index within]
    · rw [if_neg within, List.getElem_append_right (by omega), List.getElem_replicate]

/-- A write does to the map what it prints. -/
theorem Filed.write (filed : Filed fs files) (nonempty : name.bytes ≠ [])
    (short : name.bytes.length ≤ 23) {content : List Byte} (something : content ≠ [])
    (small : content.length ≤ 0xFFFFFE00) {data : Nat → Byte}
    (bytes : ∀ index (inside : index < content.length), data index = content[index])
    (verbose : Bool) :
    let after := (fsWriteFileImpl drive (some name) (some data)
      (BitVec.ofNat 32 content.length) verbose fs).2
    ∃ reply next, Files.Write verbose name.bytes content files reply next ∧
      Filed after next ∧ after.console = fs.console ++ reply := by
  intro after
  have length : (BitVec.ofNat 32 content.length).toNat = content.length := by
    rw [BitVec.toNat_ofNat]
    omega
  have positive := List.length_pos_iff.mpr something
  have nonzero : BitVec.ofNat 32 content.length ≠ 0 := by
    intro zero
    rw [zero] at length
    exact absurd length.symm (Nat.ne_of_gt positive)
  have request : Request.ofWrite (some name) (some data) (BitVec.ofNat 32 content.length) =
      .write name data (BitVec.ofNat 32 content.length) := by
    simp only [Request.ofWrite, usable_some nonempty, nonzero, ↓reduceIte]
  have sized : (Request.write name data (BitVec.ofNat 32 content.length)).Sized :=
    ⟨nonempty, by omega, by omega⟩
  have written : Filed after (files.step (.write name data (BitVec.ofNat 32 content.length))
      (fsWriteFileImpl drive (some name) (some data) (BitVec.ofNat 32 content.length) verbose
        fs).1) := by
    rw [← request] at sized ⊢
    cases verbose with
    | false =>
        exact filed.perform reliable (.writeSilent (some name) (some data) _) sized
          (Request.ofWrite_short _ _ fun _ same => Option.some.inj same ▸ short)
    | true =>
        exact filed.perform reliable (.write (some name) (some data) _) sized
          (Request.ofWrite_short _ _ fun _ same => Option.some.inj same ▸ short)
  simp only [Files.step, length, padded_eq_wholeSectors bytes] at written
  rcases fsWriteFileImpl_console reliable nonempty data nonzero verbose fs with
    ⟨ok, console⟩ | ⟨failed, console | console⟩
  · rw [ok, if_pos rfl] at written
    exact ⟨_, _, .stored, written, console⟩
  · rw [failed, if_neg Bool.false_ne_true] at written
    exact ⟨_, _, .noSpace, written, console⟩
  · rw [failed, if_neg Bool.false_ne_true] at written
    exact ⟨_, _, .directoryFull, written, console⟩

/-! ### Reading -/

omit reliable in
/-- A live entry passes the check that is made before its sectors are read. -/
theorem Filed.not_rejected (filed : Filed fs files) {slot : Fin 32} (live : fs.root.Live slot) :
    ¬ (fs.root.files slot).Rejected := by
  obtain ⟨low, positive, high⟩ := filed.consistent.inside slot live
  rw [FileEntry.not_rejected_iff]
  omega

theorem Filed.read (filed : Filed fs files) (name : CString) :
    Reads fs (files.readReply name.bytes) (fsReadFile drive (some name) fs) := by
  unfold Files.readReply
  by_cases empty : name.bytes = []
  · simp only [fsReadFile, usable_nil empty, empty, ↓reduceIte]
    exact reads_kprint _ fs
  · rw [if_neg empty]
    cases found : fs.root.lookup name with
    | none =>
        rw [filed.represents.files_eq_none found]
        simp only [fsReadFile, usable_some empty, found, kprint_kprint]
        exact reads_kprint _ fs
    | some slot =>
        obtain ⟨live, same⟩ := lookup_eq_some found
        obtain ⟨content, present, holds⟩ := filed.represents.stored slot live
        rw [same] at present
        obtain ⟨polls, transfer⟩ := readSectors_reliable reliable (fs.root.files slot).lbas fs.disk
        have unwritten := (readSectors_buffers drive (fs.root.files slot).lbas fs.disk).1
        rw [fsReadFile_found drive _ fs (usable_some empty) found,
          if_neg (filed.not_rejected live), present]
        refine ⟨rfl, rfl, unwritten, ?_⟩
        simp only [transfer, ↓reduceIte, holds.printed, header, List.append_assoc]

omit reliable in
/-- Loading a file changes nothing, whatever comes of it. -/
theorem fsLoadFile_reads (drive : Drive) (name : Option CString) (dest : Option (Nat → Byte))
    (maxSize : Word) (fs : State) :
    ∃ text, Reads fs text (fsLoadFile drive name dest maxSize fs).fs := by
  rcases fsLoadFile_cases drive name fs dest maxSize with
    ⟨message, stopped⟩ | ⟨string, bytes, slot, _, _, _, _, _, loaded⟩
  · rw [stopped]
    exact ⟨message, reads_kprint message fs⟩
  · rw [loaded]
    exact ⟨_, rfl, rfl, (readSectors_buffers drive (fs.root.files slot).lbas fs.disk).1, rfl⟩

/-- What loading a file into zeroed memory gives. -/
theorem Filed.load (filed : Filed fs files) (nonempty : name.bytes ≠ []) (dest : Nat → Byte)
    (maxSize : Word) :
    let loaded := fsLoadFile drive (some name) (some dest) maxSize fs
    match files name.bytes with
    | none => loaded.ok = false
    | some content =>
        if content.length ≤ maxSize.toNat then
          loaded.ok = true ∧ loaded.outSize.map BitVec.toNat = some content.length ∧
            loaded.fs.console = fs.console ∧
            ∀ index, loaded.dest index = content[index]?.getD (dest index)
        else loaded.ok = false ∧ loaded.fs.console = fs.console ++
          literal "Programme trop volumineux pour la zone de chargement.\n" := by
  intro loaded
  cases found : fs.root.lookup name with
  | none =>
      rw [filed.represents.files_eq_none found]
      exact fsLoadFile_missing nonempty found dest maxSize
  | some slot =>
      obtain ⟨live, same⟩ := lookup_eq_some found
      obtain ⟨content, present, holds⟩ := filed.represents.stored slot live
      rw [same] at present
      rw [present]
      simp only
      split
      · next fits =>
          obtain ⟨ok, size, bytes⟩ :=
            fsLoadFile_holds nonempty reliable found filed.consistent holds dest fits
          refine ⟨ok, size, ?_, bytes⟩
          rcases fsLoadFile_cases drive (some name) fs (some dest) maxSize with
            ⟨message, stopped⟩ | ⟨_, _, _, _, _, _, _, _, complete⟩
          · rw [stopped] at ok
            exact absurd ok Bool.false_ne_true
          · rw [complete] at ok
            simp only at ok
            rw [show loaded = _ from complete]
            simp only [ok, ↓reduceIte, List.append_nil]
      · next large =>
          have length := holds.length
          have total := FileEntry.total_toNat (filed.not_rejected live)
          have exceeds : (fs.root.files slot).sizeSect * 512 > maxSize := by
            rw [gt_iff_lt, BitVec.lt_def]
            omega
          have refused : loaded = ⟨false, dest, none,
              kprint (literal "Programme trop volumineux pour la zone de chargement.\n") fs⟩ := by
            simp only [loaded, fsLoadFile, usable_some nonempty, found]
            exact (if_neg (filed.not_rejected live)).trans (if_pos exceeds)
          rw [refused]
          exact ⟨rfl, rfl⟩

end Reliable

end MxOS.Fs
