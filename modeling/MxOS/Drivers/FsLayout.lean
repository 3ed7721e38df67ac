import MxOS.Drivers.Ata

/-! # The layout of the file system

`drivers/fs.h` and the name handling of `drivers/fs.c`: the packed root directory,
its 1056 bytes, their division over three sectors, and the comparison of stored
names with the caller's strings.
-/

namespace MxOS.Fs

open ByteMemory Ata

def fsRootLba : Word := 81

def fsMaxFiles : Nat := 32

def fsBitmapLba : Word := fsRootLba + 4

def fsDataLba : Word := fsBitmapLba + 1

def fsDataSectors : Nat := 512

def fsDataEndLba : Word := fsBitmapLba + 512

def fsMagic : Word := 0x3153464D

instance nameLengthNeZero : NeZero 24 := ⟨by decide⟩

instance maxFilesNeZero : NeZero 32 := ⟨by decide⟩

instance sectorSizeNeZero : NeZero 512 := ⟨by decide⟩

@[simp] theorem fsDataLba_toNat : fsDataLba.toNat = 86 := by decide

@[simp] theorem fsDataSectors_eq : fsDataSectors = 512 := rfl

@[ext]
structure FileEntry where
  name : Fin 24 → Byte
  startLba : Word
  sizeSect : Word

@[ext]
structure RootDirectory where
  magic : Word
  files : Fin 32 → FileEntry
  nextFreeLba : Word
  reserved : Fin 24 → Byte

/-! ### Bytes of the directory -/

def FileEntry.raw (entry : FileEntry) (offset : Nat) : Byte :=
  if inName : offset < 24 then entry.name ⟨offset, inName⟩
  else if offset < 28 then byteOf entry.startLba (offset - 24)
  else byteOf entry.sizeSect (offset - 28)

def FileEntry.ofRaw (bytes : Nat → Byte) : FileEntry where
  name := fun index => bytes index
  startLba := wordOf fun index => bytes (24 + index)
  sizeSect := wordOf fun index => bytes (28 + index)

/-- The size of the packed structure. -/
def rootSize : Nat := 1056

def fsRootSectors : Nat := (rootSize + 511) / 512

@[simp] theorem fsRootSectors_eq : fsRootSectors = 3 := rfl

/-- The byte at an offset below `rootSize`. -/
def RootDirectory.raw (root : RootDirectory) (offset : Nat) : Byte :=
  if offset < 4 then byteOf root.magic offset
  else if inFiles : (offset - 4) / 32 < 32 then
    (root.files ⟨(offset - 4) / 32, inFiles⟩).raw ((offset - 4) % 32)
  else if offset < 1032 then byteOf root.nextFreeLba (offset - 1028)
  else root.reserved (Fin.ofNat 24 (offset - 1032))

def RootDirectory.ofRaw (bytes : Nat → Byte) : RootDirectory where
  magic := wordOf bytes
  files := fun slot => FileEntry.ofRaw fun offset => bytes (4 + 32 * slot + offset)
  nextFreeLba := wordOf fun index => bytes (1028 + index)
  reserved := fun index => bytes (1032 + index)

theorem FileEntry.raw_ofRaw (bytes : Nat → Byte) {offset : Nat} (bound : offset < 32) :
    (FileEntry.ofRaw bytes).raw offset = bytes offset := by
  unfold FileEntry.raw FileEntry.ofRaw
  split
  · rfl
  · split
    · rw [byteOf_wordOf _ (by omega), Nat.add_sub_cancel' (by omega)]
    · rw [byteOf_wordOf _ (by omega), Nat.add_sub_cancel' (by omega)]

theorem RootDirectory.raw_ofRaw (bytes : Nat → Byte) {offset : Nat} (bound : offset < rootSize) :
    (RootDirectory.ofRaw bytes).raw offset = bytes offset := by
  unfold rootSize at bound
  unfold RootDirectory.raw
  split
  · exact byteOf_wordOf _ ‹_›
  · split
    · simp only [RootDirectory.ofRaw]
      rw [FileEntry.raw_ofRaw _ (by omega)]
      congr 1
      omega
    · split
      · simp only [RootDirectory.ofRaw]
        rw [byteOf_wordOf _ (by omega), Nat.add_sub_cancel' (by omega)]
      · simp only [RootDirectory.ofRaw, Fin.val_ofNat]
        rw [show 1032 + (offset - 1032) % 24 = offset by omega]

/-- Only the bytes of the structure decide the directory read from them. -/
theorem RootDirectory.ofRaw_congr {first second : Nat → Byte}
    (same : ∀ offset < rootSize, first offset = second offset) :
    RootDirectory.ofRaw first = RootDirectory.ofRaw second := by
  unfold rootSize at same
  unfold RootDirectory.ofRaw
  congr 1
  · exact wordOf_congr fun index bound => same index (by omega)
  · funext slot
    unfold FileEntry.ofRaw
    congr 1
    · funext index
      exact same _ (by omega)
    · exact wordOf_congr fun index bound => same _ (by omega)
    · exact wordOf_congr fun index bound => same _ (by omega)
  · exact wordOf_congr fun index bound => same _ (by omega)
  · funext index
    exact same _ (by omega)

/-! ### Division over sectors -/

/-- The iteration of `fs_root_load` for one sector: the bytes of the structure that lie
in the sector are copied from the buffer. -/
def loadChunk (raw : Nat → Byte) (sector : Nat) (buffer : Sector) : Nat → Byte := fun offset =>
  if offset / 512 = sector ∧ offset < rootSize then buffer (Fin.ofNat 512 offset) else raw offset

/-- The buffer `fs_root_save` fills for one sector, padded with zeros. -/
def saveChunk (raw : Nat → Byte) (sector : Nat) : Sector := fun index =>
  if 512 * sector + index < rootSize then raw (512 * sector + index) else 0

/-- The directory that is read back from sectors saved from several versions of it: an
entry's name and start lie in one sector, its size possibly in the next. -/
def mixed (version : Nat → RootDirectory) : RootDirectory where
  magic := (version 0).magic
  files := fun slot =>
    { name := ((version (slot / 16)).files slot).name
      startLba := ((version (slot / 16)).files slot).startLba
      sizeSect := ((version ((slot + 1) / 16)).files slot).sizeSect }
  nextFreeLba := (version 2).nextFreeLba
  reserved := (version 2).reserved

theorem saveChunk_apply (raw : Nat → Byte) {offset : Nat} (bound : offset < rootSize) :
    saveChunk raw (offset / 512) (Fin.ofNat 512 offset) = raw offset := by
  have whole : 512 * (offset / 512) + (Fin.ofNat 512 offset).val = offset := by
    rw [Fin.val_ofNat]
    omega
  simp only [saveChunk, whole, if_pos bound]

theorem RootDirectory.raw_file (root : RootDirectory) (slot : Fin 32) {offset : Nat}
    (bound : offset < 32) : root.raw (4 + 32 * slot + offset) = (root.files slot).raw offset := by
  have inFiles : (4 + 32 * slot.val + offset - 4) / 32 = slot := by omega
  have within : (4 + 32 * slot.val + offset - 4) % 32 = offset := by omega
  unfold RootDirectory.raw
  rw [if_neg (by omega), dif_pos (by omega)]
  simp only [inFiles, within, Fin.eta]

/-- Reading back bytes that come, sector by sector, from several versions of the directory. -/
theorem ofRaw_mixed (version : Nat → RootDirectory) :
    RootDirectory.ofRaw (fun offset => (version (offset / 512)).raw offset) = mixed version := by
  unfold RootDirectory.ofRaw mixed
  congr 1
  · refine (wordOf_congr fun index bound => ?_).trans (wordOf_byteOf _)
    rw [show index / 512 = 0 by omega, RootDirectory.raw, if_pos bound]
  · funext slot
    have inFile : ∀ offset < 32,
        (version ((4 + 32 * slot.val + offset) / 512)).raw (4 + 32 * slot + offset) =
          ((version ((4 + 32 * slot.val + offset) / 512)).files slot).raw offset :=
      fun offset bound => RootDirectory.raw_file _ slot bound
    unfold FileEntry.ofRaw
    congr 1
    · funext index
      beta_reduce
      rw [inFile _ (by omega), show (4 + 32 * slot.val + index.val) / 512 = slot.val / 16 by omega,
        FileEntry.raw, dif_pos index.isLt]
    · refine (wordOf_congr fun index bound => ?_).trans (wordOf_byteOf _)
      beta_reduce
      rw [inFile _ (by omega),
        show (4 + 32 * slot.val + (24 + index)) / 512 = slot.val / 16 by omega, FileEntry.raw,
        dif_neg (by omega), if_pos (by omega), Nat.add_sub_cancel_left]
    · refine (wordOf_congr fun index bound => ?_).trans (wordOf_byteOf _)
      beta_reduce
      rw [inFile _ (by omega),
        show (4 + 32 * slot.val + (28 + index)) / 512 = (slot.val + 1) / 16 by omega,
        FileEntry.raw, dif_neg (by omega), if_neg (by omega), Nat.add_sub_cancel_left]
  · refine (wordOf_congr fun index bound => ?_).trans (wordOf_byteOf _)
    beta_reduce
    rw [show (1028 + index) / 512 = 2 by omega, RootDirectory.raw, if_neg (by omega),
      dif_neg (by omega), if_pos (by omega), Nat.add_sub_cancel_left]
  · funext index
    beta_reduce
    have position : Fin.ofNat 24 (1032 + index.val - 1032) = index := by
      apply Fin.ext
      rw [Fin.val_ofNat]
      omega
    rw [show (1032 + index.val) / 512 = 2 by omega, RootDirectory.raw, if_neg (by omega),
      dif_neg (by omega), if_neg (by omega), position]

theorem RootDirectory.ofRaw_raw (root : RootDirectory) : RootDirectory.ofRaw root.raw = root :=
  ofRaw_mixed fun _ => root

theorem mixed_congr {first second : Nat → RootDirectory}
    (same : ∀ sector < fsRootSectors, first sector = second sector) :
    mixed first = mixed second := by
  rw [fsRootSectors_eq] at same
  unfold mixed
  congr 1
  · rw [same 0 (by omega)]
  · funext slot
    rw [same (slot / 16) (by omega), same ((slot + 1) / 16) (by omega)]
  · rw [same 2 (by omega)]
  · rw [same 2 (by omega)]

/-! ### Names -/

/-- A NUL-terminated string: the bytes before the terminator. -/
structure CString where
  bytes : List Byte
  nulFree : 0 ∉ bytes

/-- Some byte of the name field ends the name, and it is not the first. -/
def validName (name : Fin 24 → Byte) : Bool :=
  match (List.finRange 24).find? (fun index => name index = 0) with
  | some index => 0 < index.val
  | none => false

/-- The string a name field holds. -/
def storedBytes (name : Fin 24 → Byte) : List Byte := (List.ofFn name).takeWhile (· ≠ 0)

/-- The difference at the first place where the strings differ, the terminators included. -/
def mStrcmp : List Byte → List Byte → Int
  | [], [] => 0
  | left :: _, [] => left.toNat
  | [], right :: _ => -right.toNat
  | left :: lefts, right :: rights =>
      if left = right then mStrcmp lefts rights else left.toNat - right.toNat

/-- The copy loop of `fs_add_entry`: at most 23 bytes and the terminator are copied, the
last byte is cleared and the rest of the field keeps its content. -/
def copyName (old : Fin 24 → Byte) (name : CString) : Fin 24 → Byte := fun index =>
  if index.val = 23 ∨ index.val = name.bytes.length then 0
  else (name.bytes[index.val]?).getD (old index)

theorem validName_iff {name : Fin 24 → Byte} :
    validName name = true ↔ name 0 ≠ 0 ∧ ∃ index, name index = 0 := by
  unfold validName
  cases search : (List.finRange 24).find? (fun index => name index = 0) with
  | none =>
      have nonzero : ∀ index, name index ≠ 0 := by simpa using search
      exact ⟨fun holds => absurd holds (by decide),
        fun ⟨_, index, ends⟩ => absurd ends (nonzero index)⟩
  | some index =>
      obtain ⟨ends, earlier, later, split, before⟩ := List.find?_eq_some_iff_append.mp search
      have ends : name index = 0 := by simpa using ends
      cases earlier with
      | nil =>
          have first : index = 0 := by
            have heads := congrArg List.head? split
            simpa [List.finRange_succ] using heads.symm
          subst first
          simp [ends]
      | cons first rest =>
          have first_eq : first = 0 := by
            have heads := congrArg List.head? split
            simpa [List.finRange_succ] using heads.symm
          subst first_eq
          have start : name 0 ≠ 0 := by simpa using before 0 (List.mem_cons_self ..)
          have positive : 0 < index.val := by
            rw [Nat.pos_iff_ne_zero]
            intro zero
            exact start ((congrArg name (Fin.ext zero.symm)).trans ends)
          exact ⟨fun _ => ⟨start, index, ends⟩, fun _ => decide_eq_true positive⟩

theorem mStrcmp_eq_zero_iff {left right : List Byte} (leftFree : 0 ∉ left) (rightFree : 0 ∉ right) :
    mStrcmp left right = 0 ↔ left = right := by
  fun_induction mStrcmp left right with
  | case1 => simp
  | case2 first rest =>
      have nonzero : first.toNat ≠ 0 := fun zero =>
        leftFree (by simp [← BitVec.toNat_inj, zero])
      simpa using nonzero
  | case3 first rest =>
      have nonzero : first.toNat ≠ 0 := fun zero =>
        rightFree (by simp [← BitVec.toNat_inj, zero])
      simpa using nonzero
  | case4 lefts right rights ih =>
      rw [ih (fun member => leftFree (List.mem_cons_of_mem _ member))
        (fun member => rightFree (List.mem_cons_of_mem _ member))]
      simp
  | case5 left lefts right rights differ =>
      have values : left.toNat ≠ right.toNat := fun same => differ (BitVec.eq_of_toNat_eq same)
      simp only [List.cons.injEq, differ, false_and, iff_false]
      omega

theorem storedBytes_nulFree (name : Fin 24 → Byte) : 0 ∉ storedBytes name := by
  intro member
  have nonzero := List.all_takeWhile (l := List.ofFn name) (p := (· ≠ 0))
  simpa using List.all_eq_true.mp nonzero 0 member

theorem storedBytes_eq_nil_iff {name : Fin 24 → Byte} : storedBytes name = [] ↔ name 0 = 0 := by
  simp [storedBytes, List.ofFn_succ, List.takeWhile_cons]

theorem storedBytes_eq {name : Fin 24 → Byte} {bytes : List Byte} (short : bytes.length < 24)
    (nulFree : 0 ∉ bytes) (copied : ∀ index (inside : index < bytes.length),
      name ⟨index, inside.trans short⟩ = bytes[index]) (ends : name ⟨bytes.length, short⟩ = 0) :
    storedBytes name = bytes := by
  have taken : (List.ofFn name).take bytes.length = bytes := by
    apply List.ext_getElem
    · simp only [List.length_take, List.length_ofFn]
      omega
    · intro index _ inside
      simp only [List.getElem_take, List.getElem_ofFn, copied index inside]
  have dropped : (List.ofFn name).drop bytes.length =
      0 :: (List.ofFn name).drop (bytes.length + 1) := by
    rw [List.drop_eq_getElem_cons (by rw [List.length_ofFn]; exact short), List.getElem_ofFn, ends]
  have nonzero : ∀ byte ∈ bytes, (decide (byte ≠ 0)) = true := by
    intro byte member
    exact decide_eq_true fun zero => nulFree (zero ▸ member)
  rw [storedBytes, ← List.take_append_drop bytes.length (List.ofFn name), taken, dropped,
    List.takeWhile_append_of_pos nonzero]
  simp

/-- The stored name is the caller's, cut to 23 bytes. -/
theorem storedBytes_copyName (old : Fin 24 → Byte) (name : CString) :
    storedBytes (copyName old name) = name.bytes.take 23 := by
  apply storedBytes_eq
  · exact fun member => name.nulFree (List.mem_of_mem_take member)
  · intro index inside
    rw [List.length_take] at inside
    simp only [copyName]
    rw [if_neg (by omega), List.getElem?_eq_getElem (by omega)]
    simp
  · simp only [copyName, List.length_take]
    rw [if_pos (by omega)]
  · rw [List.length_take]
    omega

theorem validName_copyName (old : Fin 24 → Byte) {name : CString} (nonempty : name.bytes ≠ []) :
    validName (copyName old name) = true := by
  rw [validName_iff]
  refine ⟨fun zero => nonempty ?_, 23, if_pos (Or.inl rfl)⟩
  have stored := storedBytes_copyName old name
  rw [storedBytes_eq_nil_iff.mpr zero] at stored
  simpa using stored.symm

end MxOS.Fs
