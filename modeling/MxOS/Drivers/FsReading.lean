import MxOS.Drivers.FsTransfer

/-! # Reading files

`fs_load_file` copies the sectors of an entry to memory and `fs_read_file` prints them.
Both read the entry's sectors one after the other and stop at the first that cannot be
read, whatever the directory holds; they differ in what they do with the bytes.
-/

namespace MxOS.Fs

open ByteMemory Ata WriteLog

/-! ### Printing a file -/

/-- The characters that are printed as they are; `char` is signed. -/
def isText (c : Byte) : Bool :=
  c = 0x0A || c = 0x0D || c = 0x09 || ((32 : Byte).sle c && c.slt 127)

def printTextBuffer (data : Sector) (size : Word) (fs : State) : State :=
  (List.range size.toNat).foldl (fun fs index =>
    let c := data (Fin.ofNat 512 index)
    if isText c then kprint [c] fs else kprint (literal ".") fs) fs

/-- The loop of `fs_read_file`: each sector is printed once it is read. -/
def printLoop (drive : Drive) : Nat → Word → Word → State → Bool × State
  | 0, _, _, fs => (true, fs)
  | fuel + 1, remaining, lba, fs =>
      if 0 < remaining then
        match ataReadSector drive lba fs.disk with
        | (none, disk) =>
            (false, kprint (literal "Erreur de lecture disque.\n") { fs with disk := disk })
        | (some buffer, disk) =>
            let chunk := if remaining > 512 then 512 else remaining
            printLoop drive fuel (remaining - chunk) (lba + 1)
              (printTextBuffer buffer chunk { fs with disk := disk })
      else (true, fs)

def fsReadFile (drive : Drive) (name : Option CString) (fs : State) : State :=
  match usable name with
  | none => kprint (literal "Nom de fichier invalide.\n") fs
  | some name =>
      match fs.root.lookup name with
      | none =>
          let fs := kprint (literal "Fichier introuvable : ") fs
          kprint (literal "\n") (kprint name.bytes fs)
      | some slot =>
          let fs := kprint (literal "Lecture de : ") fs
          let fs := kprint (literal "\n") (kprint name.bytes fs)
          let entry := fs.root.files slot
          let totalBytes := entry.sizeSect * 512
          if entry.startLba < fsDataLba ∨ entry.sizeSect = 0 ∨ entry.sizeSect > 0x100000 ∨
              entry.startLba > 0xFFFFFFFF - entry.sizeSect then
            kprint (literal "Metadonnees de fichier invalides.\n") fs
          else
            match printLoop drive totalBytes.toNat totalBytes entry.startLba fs with
            | (false, fs) => fs
            | (true, fs) => kprint (literal "\n") fs

theorem kprint_kprint (first second : List Byte) (fs : State) :
    kprint second (kprint first fs) = kprint (first ++ second) fs := by
  simp only [kprint, List.append_assoc]

/-! ### Sectors read in turn -/

/-- A sequence of `ata_read_sector` calls: the sectors asked for, those obtained, whether all of
them were, and the disk afterwards. -/
structure Transfer where
  calls : List Word
  buffers : List Sector
  complete : Bool
  disk : Disk

/-- Reads the given sectors in order, up to the first that cannot be read. -/
def readSectors (drive : Drive) : List Word → Disk → Transfer
  | [], disk => ⟨[], [], true, disk⟩
  | lba :: rest, disk =>
      match ataReadSector drive lba disk with
      | (none, disk) => ⟨[lba], [], false, disk⟩
      | (some buffer, disk) =>
          let later := readSectors drive rest disk
          ⟨lba :: later.calls, buffer :: later.buffers, later.complete, later.disk⟩

/-- The sector numbers from `lba` on, as 32-bit words. -/
def consecutive (lba : Word) (count : Nat) : List Word :=
  (List.range count).map fun sector => lba + BitVec.ofNat 32 sector

@[simp] theorem consecutive_zero (lba : Word) : consecutive lba 0 = [] := rfl

theorem consecutive_succ (lba : Word) (count : Nat) :
    consecutive lba (count + 1) = lba :: consecutive (lba + 1) count := by
  simp only [consecutive, List.range_succ_eq_map, List.map_cons, List.map_map, BitVec.add_zero]
  congr 1
  apply List.map_congr_left
  intro sector _
  simp only [Function.comp_apply, Nat.succ_eq_add_one]
  bv_omega

@[simp] theorem length_consecutive (lba : Word) (count : Nat) :
    (consecutive lba count).length = count := by
  rw [consecutive, List.length_map, List.length_range]

section ReadSectors

variable (drive : Drive) (lbas : List Word) (disk : Disk)

theorem readSectors_calls : (readSectors drive lbas disk).calls <+: lbas := by
  induction lbas generalizing disk with
  | nil => exact List.prefix_rfl
  | cons lba rest ih =>
      unfold readSectors
      split
      · exact (List.prefix_cons_inj lba).mpr (List.nil_prefix)
      · exact (List.prefix_cons_inj lba).mpr (ih _)

/-- The buffers hold the sectors of the disk, which the reads do not change. -/
theorem readSectors_buffers :
    (readSectors drive lbas disk).disk.sectors = disk.sectors ∧
      (readSectors drive lbas disk).buffers <+:
        lbas.map fun lba => disk.sectors (sectorOf lba) := by
  induction lbas generalizing disk with
  | nil => exact ⟨rfl, List.prefix_rfl⟩
  | cons lba rest ih =>
      have readsBack := ataReadSector_readsBack drive lba disk
      unfold readSectors
      generalize ataReadSector drive lba disk = answer at readsBack
      obtain ⟨_ | buffer, after⟩ := answer
      · exact ⟨readsBack.1, List.nil_prefix⟩
      · have same : after.sectors = disk.sectors := readsBack.1
        obtain ⟨sectors, later⟩ := ih after
        simp only [same] at sectors later
        simp only [List.map_cons, readsBack.2 buffer rfl]
        exact ⟨sectors, (List.prefix_cons_inj _).mpr later⟩

theorem readSectors_complete (complete : (readSectors drive lbas disk).complete = true) :
    (readSectors drive lbas disk).buffers.length = lbas.length := by
  induction lbas generalizing disk with
  | nil => rfl
  | cons lba rest ih =>
      unfold readSectors at complete ⊢
      split at complete
      · exact absurd complete Bool.false_ne_true
      · simp only [List.length_cons, ih _ complete]

theorem length_readSectors_buffers :
    (readSectors drive lbas disk).buffers.length ≤ lbas.length := by
  have held := (readSectors_buffers drive lbas disk).2.length_le
  rwa [List.length_map] at held

end ReadSectors

/-! ### The loops -/

/-- The buffers stored one after the other from offset `out` on. -/
def placed (out : Nat) (buffers : List Sector) (dest : Nat → Byte) : Nat → Byte := fun query =>
  if out ≤ query then
    match buffers[(query - out) / 512]? with
    | some buffer => buffer (Fin.ofNat 512 (query - out))
    | none => dest query
  else dest query

theorem placed_nil (out : Nat) (dest : Nat → Byte) : placed out [] dest = dest := by
  funext query
  simp only [placed, List.getElem?_nil, ite_self]

theorem placed_cons (out : Nat) (buffer : Sector) (rest : List Sector) (dest : Nat → Byte) :
    placed out (buffer :: rest) dest =
      placed (out + 512) rest (fun query =>
        if out ≤ query ∧ query < out + 512 then buffer (Fin.ofNat 512 (query - out))
        else dest query) := by
  funext query
  simp only [placed]
  by_cases before : query < out
  · rw [if_neg (by omega), if_neg (by omega), if_neg (by omega)]
  · by_cases first : query < out + 512
    · have sector : (query - out) / 512 = 0 := by omega
      rw [if_pos (by omega), if_neg (by omega), if_pos (by omega), sector,
        List.getElem?_cons_zero]
    · have sector : (query - out) / 512 = (query - (out + 512)) / 512 + 1 := by omega
      have position : Fin.ofNat 512 (query - out) = Fin.ofNat 512 (query - (out + 512)) := by
        apply Fin.ext
        simp only [Fin.val_ofNat]
        omega
      rw [if_pos (by omega), if_pos (by omega), if_neg (by omega), sector, position,
        List.getElem?_cons_succ]

/-- What a byte is printed as. -/
def shown (c : Byte) : Byte := if isText c then c else 0x2E

theorem printTextBuffer_eq (data : Sector) (size : Word) (fs : State) :
    printTextBuffer data size fs =
      kprint ((List.range size.toNat).map fun index => shown (data (Fin.ofNat 512 index))) fs := by
  unfold printTextBuffer
  induction size.toNat with
  | zero => simp only [List.range_zero, List.foldl_nil, List.map_nil, kprint, List.append_nil]
  | succ count ih =>
      rw [List.range_succ, List.foldl_append, ih, List.map_append]
      simp only [List.foldl_cons, List.foldl_nil, List.map_cons, List.map_nil, shown, kprint]
      split
      · rw [List.append_assoc]
      · rw [List.append_assoc]
        rfl

/-- The bytes printed for whole sectors. -/
def printed (buffers : List Sector) : List Byte :=
  buffers.flatMap fun buffer =>
    (List.range 512).map fun index => shown (buffer (Fin.ofNat 512 index))

section Loops

variable (drive : Drive) {fuel count : Nat} {remaining : Word}
  (whole : remaining.toNat = 512 * count) (enough : count ≤ fuel)
include whole enough

/-- A loop that counts down whole sectors: one sector is left less after each. -/
theorem loadLoop_eq (lba : Word) (out : Nat) (dest : Nat → Byte) (disk : Disk) :
    let transfer := readSectors drive (consecutive lba count) disk
    loadLoop drive fuel remaining lba out dest disk =
      (transfer.complete, placed out transfer.buffers dest, transfer.disk) := by
  induction count generalizing fuel remaining lba out dest disk with
  | zero =>
      have done : ¬ 0 < remaining := by bv_omega
      cases fuel with
      | zero => simp only [loadLoop, consecutive_zero, readSectors, placed_nil]
      | succ fuel =>
          simp only [loadLoop, done, ↓reduceIte, consecutive_zero, readSectors, placed_nil]
  | succ count ih =>
      obtain ⟨fuel, rfl⟩ := Nat.exists_eq_add_of_le' (Nat.one_le_of_lt enough)
      have more : 0 < remaining := by bv_omega
      have chunk : (if remaining > 512 then 512 else remaining) = 512 := by split <;> bv_omega
      simp only [loadLoop, more, ↓reduceIte, chunk, consecutive_succ, readSectors]
      generalize ataReadSector drive lba disk = answer
      obtain ⟨_ | buffer, after⟩ := answer
      · simp only [placed_nil]
      · have left : (remaining - 512).toNat = 512 * count := by bv_omega
        simp only
        rw [ih left (by omega), placed_cons]
        rfl

theorem printLoop_eq (lba : Word) (fs : State) :
    let transfer := readSectors drive (consecutive lba count) fs.disk
    printLoop drive fuel remaining lba fs =
      (transfer.complete,
        { fs with
          disk := transfer.disk
          console := fs.console ++ printed transfer.buffers ++
            if transfer.complete then [] else literal "Erreur de lecture disque.\n" }) := by
  induction count generalizing fuel remaining lba fs with
  | zero =>
      have done : ¬ 0 < remaining := by bv_omega
      have nothing : printed [] = [] := rfl
      cases fuel with
      | zero => simp only [printLoop, consecutive_zero, readSectors, nothing, ↓reduceIte,
          List.append_nil]
      | succ fuel => simp only [printLoop, done, ↓reduceIte, consecutive_zero, readSectors,
          nothing, List.append_nil]
  | succ count ih =>
      obtain ⟨fuel, rfl⟩ := Nat.exists_eq_add_of_le' (Nat.one_le_of_lt enough)
      have more : 0 < remaining := by bv_omega
      have chunk : (if remaining > 512 then 512 else remaining) = 512 := by split <;> bv_omega
      simp only [printLoop, more, ↓reduceIte, chunk, consecutive_succ, readSectors]
      generalize ataReadSector drive lba fs.disk = answer
      obtain ⟨_ | buffer, after⟩ := answer
      · have nothing : printed [] = [] := rfl
        simp only [nothing, kprint, List.append_nil, Bool.false_eq_true, ↓reduceIte]
      · have left : (remaining - 512).toNat = 512 * count := by bv_omega
        simp only
        rw [ih left (by omega), printTextBuffer_eq]
        simp only [kprint, printed, List.flatMap_cons, List.append_assoc]
        rfl

end Loops

/-! ### What the two functions read -/

/-- The metadata check that both functions make before they read. -/
def FileEntry.Rejected (entry : FileEntry) : Prop :=
  entry.startLba < fsDataLba ∨ entry.sizeSect = 0 ∨ entry.sizeSect > 0x100000 ∨
    entry.startLba > 0xFFFFFFFF - entry.sizeSect

instance (entry : FileEntry) : Decidable entry.Rejected := by
  unfold FileEntry.Rejected
  infer_instance

theorem FileEntry.not_rejected_iff {entry : FileEntry} :
    ¬ entry.Rejected ↔ 86 ≤ entry.startLba.toNat ∧ 0 < entry.sizeSect.toNat ∧
      entry.sizeSect.toNat ≤ 0x100000 ∧ entry.startLba.toNat + entry.sizeSect.toNat < 2 ^ 32 := by
  have base := fsDataLba_toNat
  unfold FileEntry.Rejected
  bv_omega

/-- The sectors of the entry. -/
def FileEntry.lbas (entry : FileEntry) : List Word :=
  consecutive entry.startLba entry.sizeSect.toNat

/-- The product is taken modulo `2 ^ 32` before the check, which excludes the sizes that
overflow. -/
theorem FileEntry.total_toNat {entry : FileEntry} (accepted : ¬ entry.Rejected) :
    (entry.sizeSect * 512).toNat = 512 * entry.sizeSect.toNat := by
  obtain ⟨_, _, small, _⟩ := FileEntry.not_rejected_iff.mp accepted
  bv_omega

section Functions

variable (drive : Drive) (name : Option CString) (fs : State)

/-- A load either stops before reading anything, or reads the sectors of the entry found. -/
theorem fsLoadFile_cases (dest : Option (Nat → Byte)) (maxSize : Word) :
    (∃ message, fsLoadFile drive name dest maxSize fs =
      ⟨false, dest.getD fun _ => 0, none, kprint message fs⟩) ∨
    ∃ string bytes slot, usable name = some string ∧ dest = some bytes ∧
      fs.root.lookup string = some slot ∧ ¬ (fs.root.files slot).Rejected ∧
      512 * (fs.root.files slot).sizeSect.toNat ≤ maxSize.toNat ∧
      let transfer := readSectors drive (fs.root.files slot).lbas fs.disk
      fsLoadFile drive name dest maxSize fs =
        ⟨transfer.complete, placed 0 transfer.buffers bytes,
          if transfer.complete then some ((fs.root.files slot).sizeSect * 512) else none,
          { fs with
            disk := transfer.disk
            console := fs.console ++
              if transfer.complete then [] else literal "Erreur de lecture disque.\n" }⟩ := by
  unfold fsLoadFile
  cases given : usable name with
  | none => exact Or.inl ⟨_, rfl⟩
  | some string =>
      cases dest with
      | none => exact Or.inl ⟨_, rfl⟩
      | some bytes =>
          simp only
          cases found : fs.root.lookup string with
          | none =>
              left
              simp only [kprint_kprint]
              exact ⟨_, rfl⟩
          | some slot =>
              simp only
              by_cases rejected : (fs.root.files slot).Rejected
              · exact Or.inl ⟨_, if_pos rejected⟩
              · have total := FileEntry.total_toNat rejected
                by_cases large : (fs.root.files slot).sizeSect * 512 > maxSize
                · exact Or.inl ⟨_, (if_neg rejected).trans (if_pos large)⟩
                · right
                  refine ⟨string, bytes, slot, rfl, rfl, found, rejected, by bv_omega, ?_⟩
                  refine (if_neg rejected).trans ((if_neg large).trans ?_)
                  rw [loadLoop_eq drive total (by omega)]
                  unfold FileEntry.lbas
                  generalize readSectors drive _ fs.disk = transfer
                  obtain ⟨calls, buffers, _ | _, disk⟩ := transfer
                  · rfl
                  · simp only [↓reduceIte, List.append_nil]

/-- The line printed before the content of a file. -/
def header (name : CString) : List Byte := literal "Lecture de : " ++ name.bytes ++ literal "\n"

/-- What is printed for an entry that was found. -/
theorem fsReadFile_found {string : CString} (given : usable name = some string) {slot : Fin 32}
    (found : fs.root.lookup string = some slot) :
    fsReadFile drive name fs =
      if (fs.root.files slot).Rejected then
        kprint (header string ++ literal "Metadonnees de fichier invalides.\n") fs
      else
        let transfer := readSectors drive (fs.root.files slot).lbas fs.disk
        { fs with
          disk := transfer.disk
          console := fs.console ++ header string ++ printed transfer.buffers ++
            if transfer.complete then literal "\n"
            else literal "Erreur de lecture disque.\n" } := by
  simp only [fsReadFile, given, found, kprint_kprint]
  by_cases rejected : (fs.root.files slot).Rejected
  · rw [if_pos rejected]
    exact if_pos rejected
  · rw [if_neg rejected]
    refine (if_neg rejected).trans ?_
    have total := FileEntry.total_toNat rejected
    simp only [kprint]
    rw [printLoop_eq drive total (by omega)]
    unfold FileEntry.lbas
    generalize readSectors drive _ fs.disk = transfer
    obtain ⟨calls, buffers, _ | _, disk⟩ := transfer
    · rfl
    · simp only [↓reduceIte, List.append_nil]
      rfl

/-- A file is either not read at all, or its sectors are read in turn. -/
theorem fsReadFile_cases :
    (fsReadFile drive name fs).disk = fs.disk ∨
    ∃ string slot, usable name = some string ∧ fs.root.lookup string = some slot ∧
      ¬ (fs.root.files slot).Rejected ∧
      (fsReadFile drive name fs).disk =
        (readSectors drive (fs.root.files slot).lbas fs.disk).disk := by
  cases given : usable name with
  | none =>
      left
      simp only [fsReadFile, given, kprint]
  | some string =>
      cases found : fs.root.lookup string with
      | none =>
          left
          simp only [fsReadFile, given, found, kprint]
      | some slot =>
          rw [fsReadFile_found drive name fs given found]
          by_cases rejected : (fs.root.files slot).Rejected
          · rw [if_pos rejected]
            exact Or.inl rfl
          · rw [if_neg rejected]
            exact Or.inr ⟨string, slot, rfl, found, rejected, rfl⟩

end Functions

/-! ### Bounds of a load -/

/-- What a load that reads the sectors of an entry may do: it asks for at most all of them, in
order and without wrapping; it writes no byte from `maxSize` on; and it reports the size if and
only if all the bytes of the entry were copied. -/
structure Bounded (drive : Drive) (entry : FileEntry) (maxSize : Word) (fs : State)
    (before : Nat → Byte) (loaded : Loaded) : Prop where
  disk : loaded.fs.disk = (readSectors drive entry.lbas fs.disk).disk
  calls : (readSectors drive entry.lbas fs.disk).calls <+: entry.lbas
  nowrap : entry.startLba.toNat + entry.sizeSect.toNat < 2 ^ 32
  fits : 512 * entry.sizeSect.toNat ≤ maxSize.toNat
  inside : ∀ index, maxSize.toNat ≤ index → loaded.dest index = before index
  failure : loaded.ok = false → loaded.outSize = none
  size : loaded.ok = true → loaded.outSize.map BitVec.toNat = some (512 * entry.sizeSect.toNat)
  bytes : loaded.ok = true → ∀ index, loaded.dest index =
    if index < 512 * entry.sizeSect.toNat then
      fs.disk.sectors (sectorOf (entry.startLba + BitVec.ofNat 32 (index / 512)))
        (Fin.ofNat 512 index)
    else before index

theorem placed_outside {out : Nat} {buffers : List Sector} {dest : Nat → Byte} {query : Nat}
    (beyond : out + 512 * buffers.length ≤ query) : placed out buffers dest query = dest query := by
  have missing : buffers[(query - out) / 512]? = none := List.getElem?_eq_none (by omega)
  simp only [placed, missing, ite_self]

/-- Sectors that were all read are placed as they are on the disk. -/
theorem placed_readSectors (drive : Drive) (lba : Word) (count : Nat) (disk : Disk)
    (complete : (readSectors drive (consecutive lba count) disk).complete = true) (out : Nat)
    (dest : Nat → Byte) (query : Nat) :
    placed out (readSectors drive (consecutive lba count) disk).buffers dest query =
      if out ≤ query ∧ query < out + 512 * count then
        disk.sectors (sectorOf (lba + BitVec.ofNat 32 ((query - out) / 512)))
          (Fin.ofNat 512 (query - out))
      else dest query := by
  have length := readSectors_complete drive _ disk complete
  have buffers := (readSectors_buffers drive (consecutive lba count) disk).2.eq_of_length
    (by rw [length, List.length_map])
  rw [length_consecutive] at length
  by_cases before : query < out
  · rw [if_neg (by omega), placed, if_neg (by omega)]
  · by_cases inside : query < out + 512 * count
    · have stored :
          (readSectors drive (consecutive lba count) disk).buffers[(query - out) / 512]? =
            some (disk.sectors (sectorOf (lba + BitVec.ofNat 32 ((query - out) / 512)))) := by
        rw [buffers, consecutive, List.map_map, List.getElem?_map,
          List.getElem?_range (by omega : (query - out) / 512 < count)]
        rfl
      rw [if_pos (by omega), placed, if_pos (by omega), stored]
    · rw [if_neg (by omega), placed_outside (by omega)]

/-- Whatever the directory holds and whichever reads fail, a load either reads nothing and
changes nothing, or reads the sectors of the entry of that name within bounds. -/
theorem load_bounded (drive : Drive) (name : Option CString) (dest : Option (Nat → Byte))
    (maxSize : Word) (fs : State) :
    let loaded := fsLoadFile drive name dest maxSize fs
    let before := dest.getD fun _ => 0
    (loaded.ok = false ∧ loaded.outSize = none ∧ loaded.dest = before ∧
      loaded.fs.disk = fs.disk) ∨
    ∃ string slot, name = some string ∧ fs.root.lookup string = some slot ∧
      Bounded drive (fs.root.files slot) maxSize fs before loaded := by
  intro loaded before
  obtain ⟨message, result⟩ | ⟨string, bytes, slot, given, rfl, found, accepted, fits, result⟩ :=
    fsLoadFile_cases drive name fs dest maxSize
  · left
    rw [show loaded = _ from result]
    exact ⟨rfl, rfl, rfl, rfl⟩
  · right
    obtain ⟨_, _, _, nowrap⟩ := FileEntry.not_rejected_iff.mp accepted
    have total := FileEntry.total_toNat accepted
    have count := length_readSectors_buffers drive (fs.root.files slot).lbas fs.disk
    have length : (fs.root.files slot).lbas.length = (fs.root.files slot).sizeSect.toNat :=
      length_consecutive ..
    refine ⟨string, slot, (Option.filter_eq_some_iff.mp given).1, found, ?_⟩
    rw [show loaded = _ from result]
    constructor
    · rfl
    · exact readSectors_calls drive _ fs.disk
    · exact nowrap
    · exact fits
    · intro index beyond
      have outside : 0 + 512 * (readSectors drive (fs.root.files slot).lbas
          fs.disk).buffers.length ≤ index := by omega
      exact placed_outside outside
    · intro failed
      simp only at failed
      simp only [failed, Bool.false_eq_true, ↓reduceIte]
    · intro ok
      simp only at ok
      simp only [ok, ↓reduceIte, Option.map_some, total]
    · intro ok index
      refine (placed_readSectors drive _ _ fs.disk ok 0 bytes index).trans ?_
      simp only [Nat.zero_le, true_and, Nat.zero_add, Nat.sub_zero]
      rfl

/-! ### Sectors the drive is made to read -/

/-- The sectors of the read commands that the drive got between two states. -/
def readCommands (before after : Disk) : List Lba28 := after.reads.drop before.reads.length

theorem readCommands_self (disk : Disk) : readCommands disk disk = [] := List.drop_length

theorem readSectors_commands (drive : Drive) (lbas : List Word) (disk : Disk) :
    ∃ commands, (readSectors drive lbas disk).disk.reads = disk.reads ++ commands ∧
      ∀ address ∈ commands, ∃ lba ∈ lbas, address = sectorOf lba := by
  induction lbas generalizing disk with
  | nil => exact ⟨[], (List.append_nil _).symm, fun _ member => nomatch member⟩
  | cons lba rest ih =>
      obtain ⟨attempts, log⟩ := ataReadSector_reads drive lba disk
      have repeated : ∀ address ∈ List.replicate attempts (sectorOf lba),
          ∃ asked ∈ lba :: rest, address = sectorOf asked := fun address member =>
        ⟨lba, List.mem_cons_self .., List.eq_of_mem_replicate member⟩
      unfold readSectors
      generalize ataReadSector drive lba disk = answer at log
      obtain ⟨_ | buffer, after⟩ := answer
      · exact ⟨_, log, repeated⟩
      · obtain ⟨commands, later, asked⟩ := ih after
        simp only at log later ⊢
        refine ⟨List.replicate attempts (sectorOf lba) ++ commands, ?_, fun address member => ?_⟩
        · rw [later, log, List.append_assoc]
        · rcases List.mem_append.mp member with early | late
          · exact repeated address early
          · obtain ⟨other, among, same⟩ := asked address late
            exact ⟨other, List.mem_cons_of_mem _ among, same⟩

theorem readSectors_reliable {drive : Drive} (reliable : drive.Reliable) (lbas : List Word)
    (disk : Disk) :
    ∃ polls, readSectors drive lbas disk =
      ⟨lbas, lbas.map fun lba => disk.sectors (sectorOf lba), true,
        { disk with polls := polls, reads := disk.reads ++ lbas.map sectorOf }⟩ := by
  induction lbas generalizing disk with
  | nil => exact ⟨disk.polls, by simp only [readSectors, List.map_nil, List.append_nil]⟩
  | cons lba rest ih =>
      obtain ⟨polls, read⟩ := reliable.ataReadSector lba disk
      obtain ⟨last, later⟩ := ih { disk with
        polls := polls, reads := disk.reads ++ [sectorOf lba] }
      refine ⟨last, ?_⟩
      simp only [readSectors, read, later, List.map_cons, List.append_assoc, List.cons_append,
        List.nil_append]

/-- All commands the drive gets are for the data area or beyond. -/
def SparesSystem (before after : Disk) : Prop :=
  ∀ address ∈ readCommands before after, fsDataLba.toNat ≤ address.toNat

/-- In the 28 bits that the drive registers hold, the entry's sectors neither start below the
data area nor run past the last sector. -/
def FileEntry.Addressable (entry : FileEntry) : Prop :=
  fsDataLba.toNat ≤ entry.startLba.toNat % 2 ^ 28 ∧
    entry.startLba.toNat % 2 ^ 28 + entry.sizeSect.toNat ≤ 2 ^ 28

theorem mem_lbas {entry : FileEntry} {lba : Word} :
    lba ∈ entry.lbas ↔
      ∃ sector < entry.sizeSect.toNat, entry.startLba + BitVec.ofNat 32 sector = lba := by
  simp only [FileEntry.lbas, consecutive, List.mem_map, List.mem_range]

/-- The sectors of an entry that passes the check stay out of the system area as the drive sees
them if and only if the entry is addressable. -/
theorem FileEntry.addressable_iff {entry : FileEntry} (accepted : ¬ entry.Rejected) :
    entry.Addressable ↔ ∀ lba ∈ entry.lbas, fsDataLba.toNat ≤ (sectorOf lba).toNat := by
  obtain ⟨_, positive, small, nowrap⟩ := FileEntry.not_rejected_iff.mp accepted
  have base := fsDataLba_toNat
  have address : ∀ sector < entry.sizeSect.toNat,
      (sectorOf (entry.startLba + BitVec.ofNat 32 sector)).toNat =
        (entry.startLba.toNat + sector) % 2 ^ 28 := by
    intro sector inside
    rw [sectorOf, BitVec.toNat_setWidth, BitVec.toNat_add, BitVec.toNat_ofNat]
    omega
  constructor
  · rintro ⟨low, high⟩ lba member
    obtain ⟨sector, inside, rfl⟩ := mem_lbas.mp member
    rw [address sector inside]
    omega
  · intro spared
    have first := spared _ (mem_lbas.mpr ⟨0, positive, rfl⟩)
    rw [address 0 positive] at first
    refine ⟨by omega, ?_⟩
    by_contra beyond
    -- The sector after the last addressable one is sector 0.
    have wrapped : 2 ^ 28 - entry.startLba.toNat % 2 ^ 28 < entry.sizeSect.toNat := by omega
    have zero := spared _ (mem_lbas.mpr ⟨_, wrapped, rfl⟩)
    rw [address _ wrapped] at zero
    omega

theorem sparesSystem_readSectors {entry : FileEntry}
    (spared : ∀ lba ∈ entry.lbas, fsDataLba.toNat ≤ (sectorOf lba).toNat) (drive : Drive)
    (disk : Disk) : SparesSystem disk (readSectors drive entry.lbas disk).disk := by
  obtain ⟨commands, log, asked⟩ := readSectors_commands drive entry.lbas disk
  intro address member
  rw [readCommands, log, List.drop_left] at member
  obtain ⟨lba, among, rfl⟩ := asked address member
  exact spared lba among

/-- Loading or printing the file of a name reads no system sector, on any drive, if and only if
the entry of that name, when it passes the metadata check, is addressable. -/
theorem system_sectors_unread_iff (root : RootDirectory) (name : Option CString) :
    (∀ drive fs, fs.root = root →
      (∀ dest maxSize, SparesSystem fs.disk (fsLoadFile drive name dest maxSize fs).fs.disk) ∧
        SparesSystem fs.disk (fsReadFile drive name fs).disk) ↔
    ∀ string slot, usable name = some string → root.lookup string = some slot →
      ¬ (root.files slot).Rejected → (root.files slot).Addressable := by
  have unread : ∀ disk, SparesSystem disk disk := fun disk address member => by
    rw [readCommands_self] at member
    exact nomatch member
  constructor
  · intro spares string slot given found accepted
    rw [FileEntry.addressable_iff accepted]
    intro lba member
    have printing := (spares readyDrive ⟨blankBoot.disk, root, blankBoot.bitmap, []⟩ rfl).2
    rw [fsReadFile_found readyDrive name _ given found, if_neg accepted] at printing
    obtain ⟨polls, transfer⟩ := readSectors_reliable readyDrive_reliable
      (root.files slot).lbas blankBoot.disk
    simp only [transfer] at printing
    apply printing
    rw [readCommands, List.drop_left]
    exact List.mem_map.mpr ⟨lba, member, rfl⟩
  · rintro addressable drive fs rfl
    have spared : ∀ string slot, usable name = some string → fs.root.lookup string = some slot →
        ¬ (fs.root.files slot).Rejected →
        SparesSystem fs.disk (readSectors drive (fs.root.files slot).lbas fs.disk).disk :=
      fun string slot given found accepted =>
        sparesSystem_readSectors ((FileEntry.addressable_iff accepted).mp
          (addressable string slot given found accepted)) drive fs.disk
    constructor
    · intro dest maxSize
      obtain ⟨message, result⟩ | ⟨string, bytes, slot, given, rfl, found, accepted, _, result⟩ :=
        fsLoadFile_cases drive name fs dest maxSize
      · rw [result]
        exact unread fs.disk
      · rw [result]
        exact spared string slot given found accepted
    · obtain same | ⟨string, slot, given, found, accepted, same⟩ := fsReadFile_cases drive name fs
      · rw [same]
        exact unread fs.disk
      · rw [same]
        exact spared string slot given found accepted

/-- A directory whose first entry, named `b`, starts at sector `2 ^ 28`. -/
def aliasedRoot : RootDirectory :=
  formattedRoot.setFile 0
    ⟨copyName (fun _ => 0) ⟨[0x62], by decide⟩, 0x10000000, 1⟩

/-- The metadata pass the check, and the boot sector is read. -/
theorem aliased_entry_reads_boot_sector :
    let fs : State := ⟨blankBoot.disk, aliasedRoot, blankBoot.bitmap, []⟩
    let name : Option CString := some ⟨[0x62], by decide⟩
    (fsLoadFile readyDrive name (some fun _ => 0) 512 fs).fs.disk.reads = [0] ∧
      ¬ SparesSystem fs.disk (fsLoadFile readyDrive name (some fun _ => 0) 512 fs).fs.disk := by
  intro fs name
  have reads : (fsLoadFile readyDrive name (some fun _ => 0) 512 fs).fs.disk.reads = [0] := by
    decide +kernel
  refine ⟨reads, fun spares => ?_⟩
  have boot := spares 0 (by rw [readCommands, reads]; exact List.mem_singleton.mpr rfl)
  exact absurd boot (by decide)

end MxOS.Fs
