import MxOS.Drivers.FsReading
import MxOS.Drivers.FsRefinement

/-! # Text files on the screen

The directory stores the size of a file in sectors, so that printing a file also prints
the zeros that pad its last sector; a byte that is not text is shown as a dot. What was
written is therefore shown as it is only when it fills its sectors.
-/

namespace MxOS.Fs

open ByteMemory Ata WriteLog

variable {root : RootDirectory} {bitmap : Sector}

/-! ### The entry that was written -/

/-- A search over all indices returns the first of a kind. -/
theorem find?_finRange_eq_some_iff {count : Nat} {kind : Fin count → Bool} {index : Fin count} :
    (List.finRange count).find? kind = some index ↔
      kind index = true ∧
        ∀ earlier : Fin count, earlier.val < index.val → kind earlier = false := by
  rw [List.find?_eq_some_iff_getElem]
  constructor
  · rintro ⟨holds, position, bound, rfl, before⟩
    refine ⟨holds, fun earlier less => ?_⟩
    have less' : earlier.val < position := by simpa using less
    simpa using before earlier.val less'
  · rintro ⟨holds, before⟩
    refine ⟨holds, index.val, by simp, by simp, fun earlier less => ?_⟩
    simpa using before ⟨earlier, by omega⟩ less

/-- The new entry comes before any other of its name: a deleted entry is free, and the search
for a free entry starts at the first. -/
theorem lookup_stored {name : CString} (nonempty : name.bytes ≠ [])
    (short : name.bytes.length ≤ 23) {slot : Fin 32}
    (free : (Plan.delete root bitmap name).root.freeSlot = some slot) (startLba sizeSect : Word) :
    ((Plan.delete root bitmap name).root.setFile slot
      ⟨copyName ((Plan.delete root bitmap name).root.files slot).name name, startLba,
        sizeSect⟩).lookup name = some slot := by
  have unnamed : ∀ earlier : Fin 32, earlier.val < slot.val →
      (Plan.delete root bitmap name).root.named name earlier = false := by
    obtain ⟨_, taken⟩ := find?_finRange_eq_some_iff.mp free
    unfold Plan.delete at taken ⊢
    cases found : root.lookup name with
    | none =>
        intro earlier _
        exact Bool.eq_false_of_not_eq_true
          (List.find?_eq_none.mp found earlier (List.mem_finRange earlier))
    | some first =>
        rw [found] at taken
        simp only [Plan.erase_root] at taken ⊢
        obtain ⟨_, before⟩ := find?_finRange_eq_some_iff.mp found
        intro earlier less
        have other : earlier ≠ first := by
          rintro rfl
          have full := taken earlier less
          rw [root.setFile_self] at full
          exact absurd full (by decide)
        have notFirst : ¬ first.val < earlier.val := fun later => by
          have full := taken first (Nat.lt_trans later less)
          rw [root.setFile_self] at full
          exact absurd full (by decide)
        rw [RootDirectory.named, root.setFile_of_ne _ other]
        exact before earlier (Nat.lt_of_le_of_ne (by omega) (Fin.val_ne_of_ne other))
  generalize (Plan.delete root bitmap name).root = cleared at free unnamed ⊢
  refine find?_finRange_eq_some_iff.mpr ⟨?_, fun earlier less => ?_⟩
  · rw [named_iff, RootDirectory.Live, cleared.setFile_self, storedBytes_copyName,
      List.take_of_length_le short]
    exact ⟨validName_copyName _ nonempty, rfl⟩
  · rw [RootDirectory.named, cleared.setFile_of_ne _ (Fin.ne_of_val_ne (Nat.ne_of_lt less))]
    exact unnamed earlier less

/-! ### What is printed -/

theorem printed_range (sector : Nat → Sector) (count : Nat) :
    printed ((List.range count).map sector) =
      (List.range (512 * count)).map fun index =>
        shown (sector (index / 512) (Fin.ofNat 512 index)) := by
  induction count with
  | zero => rfl
  | succ count ih =>
      have more : (List.range (count + 1)).map sector = (List.range count).map sector ++
          [sector count] := by rw [List.range_succ, List.map_append, List.map_singleton]
      rw [more, printed, List.flatMap_append, ← printed, ih, Nat.mul_succ, List.range_add,
        List.map_append, List.map_map, List.append_cancel_left_eq]
      simp only [List.flatMap_cons, List.flatMap_nil, List.append_nil]
      apply List.map_congr_left
      intro index member
      have bound := List.mem_range.mp member
      have sectorIndex : (512 * count + index) / 512 = count := by omega
      have offset : Fin.ofNat 512 (512 * count + index) = Fin.ofNat 512 index := by
        apply Fin.ext
        simp only [Fin.val_ofNat]
        omega
      simp only [Function.comp_apply, sectorIndex, offset]

/-- The sectors of an entry print as its content does. -/
theorem Holds.printed {sectors : Lba28 → Sector} {entry : FileEntry} {content : List Byte}
    (holds : Holds sectors entry content) :
    printed (entry.lbas.map fun lba => sectors (sectorOf lba)) = content.map shown := by
  rw [FileEntry.lbas, consecutive, List.map_map]
  simp only [Function.comp_def]
  rw [printed_range fun sector => sectors (sectorOf (entry.startLba + BitVec.ofNat 32 sector))]
  apply List.ext_getElem
  · rw [List.length_map, List.length_map, List.length_range, holds.length]
  · intro index _ inside
    rw [List.length_map] at inside
    simp only [List.getElem_map, List.getElem_range, holds.bytes index inside]

/-- A character of a text file. -/
def Text (c : Byte) : Prop :=
  c.toNat = 0x09 ∨ c.toNat = 0x0A ∨ c.toNat = 0x0D ∨ 32 ≤ c.toNat ∧ c.toNat < 127

theorem shown_text {c : Byte} (text : Text c) : shown c = c := by
  have plain : isText c = true := by
    unfold Text at text
    simp only [isText, Bool.or_eq_true, decide_eq_true_eq, Bool.and_eq_true]
    rcases text with tab | feed | ret | ⟨low, high⟩
    · exact Or.inl (Or.inr (BitVec.eq_of_toNat_eq tab))
    · exact Or.inl (Or.inl (Or.inl (BitVec.eq_of_toNat_eq feed)))
    · exact Or.inl (Or.inl (Or.inr (BitVec.eq_of_toNat_eq ret)))
    · right
      have value : c.toInt = c.toNat := by
        rw [BitVec.toInt_eq_toNat_cond, if_pos (by omega)]
      rw [BitVec.sle_iff_toInt_le, BitVec.slt_iff_toInt_lt, value]
      exact ⟨Int.ofNat_le.mpr low, Int.ofNat_lt.mpr high⟩
  rw [shown, if_pos plain]

/-- The padding of a text is shown as dots. -/
theorem map_shown_padded {data : Nat → Byte} {size : Nat}
    (text : ∀ index < size, Text (data index)) :
    (padded data size).map shown =
      (List.range size).map data ++ List.replicate (512 * ((size + 511) / 512) - size) 0x2E := by
  apply List.ext_getElem
  · simp only [List.length_map, length_padded, List.length_append, List.length_range,
      List.length_replicate]
    omega
  · intro index inside _
    by_cases content : index < size
    · rw [List.getElem_append_left (by simpa using content)]
      simp only [padded, List.getElem_map, List.getElem_range, content, ↓reduceIte,
        shown_text (text index content)]
    · rw [List.getElem_append_right (by simpa using content)]
      simp only [padded, List.getElem_map, List.getElem_range, content, ↓reduceIte,
        List.getElem_replicate]
      decide

/-! ### Writing and printing -/

/-- A write that returned 1 stored its data in the sectors of the entry found by its name. -/
structure Stored (after : State) (name : CString) (data : Nat → Byte) (sizeBytes : Word)
    (slot : Fin 32) : Prop where
  found : after.root.lookup name = some slot
  size : (after.root.files slot).sizeSect = (sizeBytes + 511) / 512
  low : 86 ≤ (after.root.files slot).startLba.toNat
  high : Sized sizeBytes →
    (after.root.files slot).startLba.toNat + (after.root.files slot).sizeSect.toNat ≤ 597
  holds : Sized sizeBytes →
    Holds after.disk.sectors (after.root.files slot) (padded data sizeBytes.toNat)

section Reliable

variable {drive : Drive} (reliable : drive.Reliable) {fs : State} {name : CString}
  (short : name.bytes.length ≤ 23) {data : Nat → Byte} {sizeBytes : Word}
  (written : (fsWriteFile drive (some name) (some data) sizeBytes fs).1 = true)
include reliable short written

theorem fsWriteFile_stored :
    name.bytes ≠ [] ∧ sizeBytes ≠ 0 ∧ ∃ slot,
      Stored (fsWriteFile drive (some name) (some data) sizeBytes fs).2 name data sizeBytes
        slot := by
  obtain invalid | ⟨string, content, given, same, nonempty, nonzero, _⟩ :=
    Request.ofWrite_cases (some name) (some data) sizeBytes
  · rw [fsWriteFile, fsWriteFileImpl_invalid invalid] at written
    exact absurd written Bool.false_ne_true
  · obtain rfl := Option.some.inj given
    refine ⟨nonempty, nonzero, ?_⟩
    have performs := @fsWriteFileImpl_performs drive reliable _ name data sizeBytes
      (usable_some nonempty) nonzero true fs
    rw [← fsWriteFile] at performs
    generalize fsWriteFile drive (some name) (some data) sizeBytes fs = result
      at written performs
    have lookup := @lookup_stored fs.root fs.bitmap name nonempty short
    have ok := performs.ok.symm.trans written
    obtain ⟨_, root, _, disk⟩ := performs
    unfold Plan.write Plan.andThen Plan.store at ok root disk
    by_cases full : bitmapFindFreeRun (Plan.delete fs.root fs.bitmap name).bitmap
        ((sizeBytes + 511) / 512) = 0
    · simp only [full, ↓reduceIte] at ok
      exact absurd ok Bool.false_ne_true
    · simp only [full, ↓reduceIte] at ok root disk
      obtain ⟨runStart, _, _, start⟩ := bitmapFindFreeRun_bounds full
      cases free : (Plan.delete fs.root fs.bitmap name).root.freeSlot with
      | none =>
          rw [free] at ok
          exact absurd ok Bool.false_ne_true
      | some slot =>
          simp only [free] at root disk
          have run : Sized sizeBytes →
              FreeRun (Plan.delete fs.root fs.bitmap name).bitmap _ ((sizeBytes + 511) / 512) :=
            fun sized => bitmapFindFreeRun_freeRun
              (by rw [sized.sectors]; have positive := sized.1; omega) full
          refine ⟨slot, ?_, ?_, ?_, fun sized => ?_, fun sized => ?_⟩
          · rw [root, lookup free]
          · rw [root, RootDirectory.setFile_self]
          · rw [root, RootDirectory.setFile_self, start, fsDataLba_toNat]
            omega
          · rw [root, RootDirectory.setFile_self]
            exact (run sized).high
          · rw [disk.sectors, root, RootDirectory.setFile_self, replay_append, List.append_assoc]
            exact dataWrites_append_holds (run sized) sized _ (fun _ member => mem_saves member) _

/-- Printing a text that was written shows it with its padding. -/
theorem fsReadFile_written (sized : Sized sizeBytes)
    (text : ∀ index < sizeBytes.toNat, Text (data index)) :
    let after := (fsWriteFile drive (some name) (some data) sizeBytes fs).2
    (fsReadFile drive (some name) after).console =
      after.console ++ header name ++ ((List.range sizeBytes.toNat).map data ++
        List.replicate (512 * ((sizeBytes.toNat + 511) / 512) - sizeBytes.toNat) 0x2E) ++
        literal "\n" := by
  intro after
  obtain ⟨nonempty, _, slot, stored⟩ := fsWriteFile_stored reliable short written
  change Stored after name data sizeBytes slot at stored
  have accepted : ¬ (after.root.files slot).Rejected := by
    rw [FileEntry.not_rejected_iff]
    have low := stored.low
    have high := stored.high sized
    have positive := sized.1
    have size : (after.root.files slot).sizeSect.toNat = (sizeBytes.toNat + 511) / 512 := by
      rw [stored.size, sized.sectors]
    omega
  obtain ⟨polls, transfer⟩ := readSectors_reliable reliable (after.root.files slot).lbas after.disk
  rw [fsReadFile_found drive _ after (usable_some nonempty) stored.found, if_neg accepted]
  simp only [transfer, ↓reduceIte]
  rw [(stored.holds sized).printed, map_shown_padded text]

end Reliable

/-- After a text file of a name of at most 23 bytes was written without disk errors, printing it
shows, after the header line, exactly the text and a newline if and only if the text fills its
last sector. -/
theorem text_displayed_iff {drive : Drive} (reliable : drive.Reliable) (fs : State)
    (name : CString) (short : name.bytes.length ≤ 23) (data : Nat → Byte) (sizeBytes : Word)
    (text : ∀ index < sizeBytes.toNat, Text (data index))
    (written : (fsWriteFile drive (some name) (some data) sizeBytes fs).1 = true) :
    let after := (fsWriteFile drive (some name) (some data) sizeBytes fs).2
    (fsReadFile drive (some name) after).console =
        after.console ++ header name ++ (List.range sizeBytes.toNat).map data ++ literal "\n" ↔
      sizeBytes.toNat % 512 = 0 := by
  intro after
  by_cases sized : Sized sizeBytes
  · rw [show (fsReadFile drive (some name) after).console = _ from
      fsReadFile_written reliable short written sized text, List.append_left_inj,
      List.append_assoc, List.append_assoc, List.append_right_inj, List.append_right_inj,
      List.append_right_eq_self, List.replicate_eq_nil_iff]
    omega
  · -- A size that wraps is stored as zero sectors, which the metadata check rejects.
    obtain ⟨nonempty, nonzero, slot, stored⟩ := fsWriteFile_stored reliable short written
    change Stored after name data sizeBytes slot at stored
    have large : 0xFFFFFE00 < sizeBytes.toNat := by
      unfold Sized at sized
      bv_omega
    have rejected : (after.root.files slot).Rejected := by
      refine Or.inr (Or.inl ?_)
      rw [stored.size]
      apply BitVec.eq_of_toNat_eq
      rw [BitVec.toNat_udiv, BitVec.toNat_add]
      have bound := sizeBytes.isLt
      have wrapped : (sizeBytes.toNat + (511 : Word).toNat) % 2 ^ 32 < (512 : Word).toNat := by
        rw [show (511 : Word).toNat = 511 from rfl, show (512 : Word).toNat = 512 from rfl]
        omega
      exact Nat.div_eq_of_lt wrapped
    rw [fsReadFile_found drive _ after (usable_some nonempty) stored.found, if_pos rejected]
    constructor
    · intro same
      have lengths := congrArg List.length same
      have message : (literal "Metadonnees de fichier invalides.\n").length = 34 := by decide
      simp only [kprint, List.length_append, List.length_map, List.length_range, message]
        at lengths
      omega
    · intro multiple
      have bound := sizeBytes.isLt
      omega

theorem text_x : Text 0x78 := Or.inr (Or.inr (Or.inr ⟨by decide, by decide⟩))

/-- A text of one whole sector is shown as it was written. -/
theorem full_sector_displayed :
    let name : CString := ⟨[0x61], by decide⟩
    let written := fsWriteFile readyDrive (some name) (some fun _ => 0x78) 512
      (fsInit readyDrive blankBoot)
    written.1 = true ∧
      (fsReadFile readyDrive (some name) written.2).console =
        written.2.console ++ header name ++ (List.range 512).map (fun _ => 0x78) ++
          literal "\n" := by
  intro name written
  have ok : written.1 = true := by decide +kernel
  have text : ∀ index < (512 : Word).toNat, Text ((fun _ => 0x78 : Nat → Byte) index) :=
    fun _ _ => text_x
  exact ⟨ok, (text_displayed_iff readyDrive_reliable (fsInit readyDrive blankBoot) name (by decide)
    (fun _ => 0x78) 512 text ok).mpr (by decide)⟩

/-- After `write a xxxxx`, five characters and 507 dots are shown. -/
theorem short_text_displayed_with_dots :
    let name : CString := ⟨[0x61], by decide⟩
    let written := fsWriteFile readyDrive (some name) (some fun _ => 0x78) 5
      (fsInit readyDrive blankBoot)
    written.1 = true ∧
      (fsReadFile readyDrive (some name) written.2).console =
        written.2.console ++ header name ++ (List.replicate 5 0x78 ++ List.replicate 507 0x2E) ++
          literal "\n" ∧
      (fsReadFile readyDrive (some name) written.2).console ≠
        written.2.console ++ header name ++ (List.range 5).map (fun _ => 0x78) ++
          literal "\n" := by
  intro name written
  have ok : written.1 = true := by decide +kernel
  have text : ∀ index < (5 : Word).toNat, Text ((fun _ => 0x78 : Nat → Byte) index) :=
    fun _ _ => text_x
  have shown := @fsReadFile_written readyDrive readyDrive_reliable (fsInit readyDrive blankBoot)
    name (by decide) _ 5 ok ⟨by decide, by decide⟩ text
  refine ⟨ok, shown, fun same => ?_⟩
  rw [show (fsReadFile readyDrive (some name) written.2).console = _ from shown] at same
  rw [List.append_left_inj, List.append_assoc, List.append_assoc, List.append_right_inj,
    List.append_right_inj] at same
  have lengths := congrArg List.length same
  have five : (5 : Word).toNat = 5 := rfl
  simp only [List.length_append, List.length_map, List.length_range, List.length_replicate]
    at lengths
  omega

end MxOS.Fs
