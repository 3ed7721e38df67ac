import MxOS.Drivers.FsLayout
import MxOS.Lib.RunScan

/-! # The file system

`drivers/fs.c`: the directory and the allocation bitmap are held in memory and
written through to disk; files are runs of consecutive sectors. Integer results
used as truth values are `Bool`, and pointers that may be `NULL` are `Option`.
-/

namespace MxOS.Fs

open ByteMemory Ata

/-- The driver's global state, the disk behind it and the bytes printed so far. -/
structure State where
  disk : Disk
  root : RootDirectory
  bitmap : Sector
  console : List Byte

def kprint (text : List Byte) (fs : State) : State := { fs with console := fs.console ++ text }

/-- The bytes of an ASCII string literal. -/
def literal (text : String) : List Byte := text.toList.map fun char => BitVec.ofNat 8 char.toNat

def kprintIf (verbose : Bool) (text : String) (fs : State) : State :=
  if verbose then kprint (literal text) fs else fs

/-! ### Directory and bitmap on disk -/

def rootSectorLba (sector : Nat) : Word := fsRootLba + BitVec.ofNat 32 sector

def rootLoadLoop (drive : Drive) : List Nat → (Nat → Byte) → Disk → Bool × (Nat → Byte) × Disk
  | [], raw, disk => (true, raw, disk)
  | sector :: rest, raw, disk =>
      match ataReadSector drive (rootSectorLba sector) disk with
      | (none, disk) => (false, raw, disk)
      | (some buffer, disk) => rootLoadLoop drive rest (loadChunk raw sector buffer) disk

def fsRootLoad (drive : Drive) (fs : State) : Bool × State :=
  let (loaded, raw, disk) :=
    rootLoadLoop drive (List.range fsRootSectors) fs.root.raw fs.disk
  (loaded, { fs with root := RootDirectory.ofRaw raw, disk := disk })

def rootSaveLoop (drive : Drive) (raw : Nat → Byte) : List Nat → Disk → Bool × Disk
  | [], disk => (true, disk)
  | sector :: rest, disk =>
      match ataWriteSector drive (rootSectorLba sector) (saveChunk raw sector) disk with
      | (false, disk) => (false, disk)
      | (true, disk) => rootSaveLoop drive raw rest disk

def fsRootSave (drive : Drive) (fs : State) : Bool × State :=
  let (saved, disk) := rootSaveLoop drive fs.root.raw (List.range fsRootSectors) fs.disk
  (saved, { fs with disk := disk })

def bitmapPersist (drive : Drive) (fs : State) : State :=
  { fs with disk := (ataWriteSector drive fsBitmapLba fs.bitmap fs.disk).2 }

/-- The first sector of the first run of `count` free ones, or 0 when there is none. -/
def bitmapFindFreeRun (bitmap : Sector) (count : Word) : Word :=
  match RunScan.scan (fun index => bitmap (Fin.ofNat 512 index) = 0) count.toNat
    (fsDataSectors - 1) 0 0 0 with
  | some runStart => fsDataLba + BitVec.ofNat 32 runStart
  | none => 0

/-- The loop of `bitmap_mark`; `fuel` bounds the iterations left. -/
def markLoop (start count : Word) (used : Byte) : Nat → Word → Sector → Sector
  | 0, _, bitmap => bitmap
  | fuel + 1, index, bitmap =>
      if index < count ∧ start + index < BitVec.ofNat 32 (fsDataSectors - 1) then
        markLoop start count used fuel (index + 1)
          (Function.update bitmap (Fin.ofNat 512 (start + index).toNat) used)
      else bitmap

def bitmapMark (drive : Drive) (startLba count : Word) (used : Byte) (fs : State) : State :=
  if startLba < fsDataLba then fs
  else
    bitmapPersist drive
      { fs with bitmap := markLoop (startLba - fsDataLba) count used fsDataSectors 0 fs.bitmap }

/-! ### Mounting -/

def FileEntry.empty : FileEntry where
  name := fun _ => 0
  startLba := 0
  sizeSect := 0

/-- The directory `fs_init` writes on a disk without file system. -/
def formattedRoot : RootDirectory where
  magic := fsMagic
  files := fun _ => FileEntry.empty
  nextFreeLba := fsDataLba
  reserved := fun _ => 0

def fsFormat (drive : Drive) (fs : State) : State :=
  (fsRootSave drive
    (bitmapPersist drive { fs with root := formattedRoot, bitmap := fun _ => 0 })).2

/-- A bitmap that cannot be read counts as empty. -/
def bitmapLoad (drive : Drive) (fs : State) : State :=
  match ataReadSector drive fsBitmapLba fs.disk with
  | (none, disk) => { fs with bitmap := fun _ => 0, disk := disk }
  | (some buffer, disk) => { fs with bitmap := buffer, disk := disk }

def fsInit (drive : Drive) (fs : State) : State :=
  match fsRootLoad drive fs with
  | (loaded, fs) =>
      if loaded = false ∨ fs.root.magic ≠ fsMagic then fsFormat drive fs else bitmapLoad drive fs

/-! ### Looking up files -/

/-- A string that is neither `NULL` nor empty. -/
def usable (name : Option CString) : Option CString := name.filter (·.bytes ≠ [])

def RootDirectory.named (root : RootDirectory) (name : CString) (slot : Fin 32) : Bool :=
  validName (root.files slot).name && mStrcmp (storedBytes (root.files slot).name) name.bytes = 0

/-- The first entry whose name is the given one, in the order of the lookup loops. -/
def RootDirectory.lookup (root : RootDirectory) (name : CString) : Option (Fin 32) :=
  (List.finRange fsMaxFiles).find? (root.named name)

def fsFileExists (fs : State) (name : Option CString) : Bool :=
  match usable name with
  | none => false
  | some name => (fs.root.lookup name).isSome

/-- The transfer loop of `fs_load_file`, writing from offset `out` of the destination on. -/
def loadLoop (drive : Drive) :
    Nat → Word → Word → Nat → (Nat → Byte) → Disk → Bool × (Nat → Byte) × Disk
  | 0, _, _, _, dest, disk => (true, dest, disk)
  | fuel + 1, remaining, lba, out, dest, disk =>
      if 0 < remaining then
        match ataReadSector drive lba disk with
        | (none, disk) => (false, dest, disk)
        | (some buffer, disk) =>
            let chunk := if remaining > 512 then 512 else remaining
            loadLoop drive fuel (remaining - chunk) (lba + 1) (out + chunk.toNat)
              (fun query =>
                if out ≤ query ∧ query < out + chunk.toNat then buffer (Fin.ofNat 512 (query - out))
                else dest query)
              disk
      else (true, dest, disk)

/-- What `fs_load_file` leaves: its result, the destination, the size if it was stored. -/
structure Loaded where
  ok : Bool
  dest : Nat → Byte
  outSize : Option Word
  fs : State

def fsLoadFile (drive : Drive) (name : Option CString) (dest : Option (Nat → Byte))
    (maxSize : Word) (fs : State) : Loaded :=
  match usable name, dest with
  | none, dest =>
      ⟨false, dest.getD fun _ => 0, none, kprint (literal "Parametres invalides.\n") fs⟩
  | some _, none => ⟨false, fun _ => 0, none, kprint (literal "Parametres invalides.\n") fs⟩
  | some name, some dest =>
      match fs.root.lookup name with
      | none =>
          let fs := kprint (literal "Fichier introuvable : ") fs
          ⟨false, dest, none, kprint (literal "\n") (kprint name.bytes fs)⟩
      | some slot =>
          let entry := fs.root.files slot
          let totalBytes := entry.sizeSect * 512
          if entry.startLba < fsDataLba ∨ entry.sizeSect = 0 ∨ entry.sizeSect > 0x100000 ∨
              entry.startLba > 0xFFFFFFFF - entry.sizeSect then
            ⟨false, dest, none, kprint (literal "Metadonnees de fichier invalides.\n") fs⟩
          else if totalBytes > maxSize then
            ⟨false, dest, none,
              kprint (literal "Programme trop volumineux pour la zone de chargement.\n") fs⟩
          else
            match loadLoop drive totalBytes.toNat totalBytes entry.startLba 0 dest fs.disk with
            | (false, dest, disk) =>
                ⟨false, dest, none,
                  kprint (literal "Erreur de lecture disque.\n") { fs with disk := disk }⟩
            | (true, dest, disk) => ⟨true, dest, some totalBytes, { fs with disk := disk }⟩

/-! ### Writing and deleting files -/

def RootDirectory.setFile (root : RootDirectory) (slot : Fin 32) (entry : FileEntry) :
    RootDirectory :=
  { root with files := Function.update root.files slot entry }

/-- The first entry whose name is empty. -/
def RootDirectory.freeSlot (root : RootDirectory) : Option (Fin 32) :=
  (List.finRange fsMaxFiles).find? fun slot => (root.files slot).name 0 = 0

def fsAddEntry (drive : Drive) (name : CString) (startLba sizeSect : Word) (fs : State) :
    Bool × State :=
  match fs.root.freeSlot with
  | none => (false, kprint (literal "Erreur : Root Directory plein !\n") fs)
  | some slot =>
      let entry := FileEntry.mk (copyName (fs.root.files slot).name name) startLba sizeSect
      match fsRootSave drive { fs with root := fs.root.setFile slot entry } with
      | (false, fs) => (false, kprint (literal "Erreur d'ecriture disque.\n") fs)
      | (true, fs) => (true, fs)

def fsDeleteFileImpl (drive : Drive) (name : Option CString) (verbose : Bool) (fs : State) :
    Bool × State :=
  match usable name with
  | none => (false, kprintIf verbose "Nom de fichier invalide.\n" fs)
  | some name =>
      match fs.root.lookup name with
      | none =>
          let fs := kprintIf verbose "Fichier introuvable : " fs
          let fs := if verbose then kprint name.bytes fs else fs
          (false, kprintIf verbose "\n" fs)
      | some slot =>
          let entry := fs.root.files slot
          let fs := bitmapMark drive entry.startLba entry.sizeSect 0 fs
          match fsRootSave drive { fs with root := fs.root.setFile slot FileEntry.empty } with
          | (false, fs) => (false, kprintIf verbose "Erreur d'ecriture disque.\n" fs)
          | (true, fs) => (true, kprintIf verbose "Fichier supprime.\n" fs)

def fsDeleteFile (drive : Drive) (name : Option CString) : State → Bool × State :=
  fsDeleteFileImpl drive name true

def fsDeleteFileSilent (drive : Drive) (name : Option CString) : State → Bool × State :=
  fsDeleteFileImpl drive name false

/-- The buffer filled from `data` at `offset` for one sector, padded with zeros. -/
def dataChunk (data : Nat → Byte) (offset : Nat) (chunk : Nat) : Sector := fun index =>
  if index.val < chunk then data (offset + index) else 0

def writeLoop (drive : Drive) (data : Nat → Byte) : Nat → Word → Word → Nat → Disk → Bool × Disk
  | 0, _, _, _, disk => (true, disk)
  | fuel + 1, remaining, lba, offset, disk =>
      if 0 < remaining then
        let chunk := if remaining > 512 then 512 else remaining
        match ataWriteSector drive lba (dataChunk data offset chunk.toNat) disk with
        | (false, disk) => (false, disk)
        | (true, disk) =>
            writeLoop drive data fuel (remaining - chunk) (lba + 1) (offset + chunk.toNat) disk
      else (true, disk)

def fsWriteFileImpl (drive : Drive) (name : Option CString) (data : Option (Nat → Byte))
    (sizeBytes : Word) (verbose : Bool) (fs : State) : Bool × State :=
  match usable name, data with
  | none, _ => (false, kprintIf verbose "Parametres invalides.\n" fs)
  | some _, none => (false, kprintIf verbose "Parametres invalides.\n" fs)
  | some name, some data =>
      if sizeBytes = 0 then (false, kprintIf verbose "Parametres invalides.\n" fs)
      else
        let fs :=
          if fsFileExists fs (some name) then (fsDeleteFileImpl drive (some name) false fs).2
          else fs
        let sizeSect := (sizeBytes + 511) / 512
        let startLba := bitmapFindFreeRun fs.bitmap sizeSect
        if startLba = 0 then (false, kprintIf verbose "Espace disque insuffisant.\n" fs)
        else
          match writeLoop drive data sizeBytes.toNat sizeBytes startLba 0 fs.disk with
          | (false, disk) =>
              (false, kprintIf verbose "Erreur d'ecriture disque.\n" { fs with disk := disk })
          | (true, disk) =>
              let fs := bitmapMark drive startLba sizeSect 1 { fs with disk := disk }
              match fsAddEntry drive name startLba sizeSect fs with
              | (false, fs) => (false, bitmapMark drive startLba sizeSect 0 fs)
              | (true, fs) => (true, kprintIf verbose "Fichier ecrit avec succes.\n" fs)

def fsWriteFile (drive : Drive) (name : Option CString) (data : Option (Nat → Byte))
    (sizeBytes : Word) : State → Bool × State :=
  fsWriteFileImpl drive name data sizeBytes true

def fsWriteFileSilent (drive : Drive) (name : Option CString) (data : Option (Nat → Byte))
    (sizeBytes : Word) : State → Bool × State :=
  fsWriteFileImpl drive name data sizeBytes false

/-! ### Calls of the changing operations -/

inductive Call where
  | write (name : Option CString) (data : Option (Nat → Byte)) (sizeBytes : Word)
  | writeSilent (name : Option CString) (data : Option (Nat → Byte)) (sizeBytes : Word)
  | delete (name : Option CString)
  | deleteSilent (name : Option CString)

def Call.perform (drive : Drive) : Call → State → Bool × State
  | .write name data sizeBytes => fsWriteFile drive name data sizeBytes
  | .writeSilent name data sizeBytes => fsWriteFileSilent drive name data sizeBytes
  | .delete name => fsDeleteFile drive name
  | .deleteSilent name => fsDeleteFileSilent drive name

/-- A machine switched on with zeros in memory and on its disk. -/
def blankBoot : State where
  disk := ⟨fun _ _ => 0, 0, [], []⟩
  root := RootDirectory.ofRaw fun _ => 0
  bitmap := fun _ => 0
  console := []

/-- The state after a sequence of calls. -/
def run (drive : Drive) (calls : List Call) (fs : State) : State :=
  calls.foldl (fun fs call => (call.perform drive fs).2) fs

end MxOS.Fs
