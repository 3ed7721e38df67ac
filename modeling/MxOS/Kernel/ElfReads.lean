import MxOS.Kernel.ElfPlacement

/-! # What the loader reads

The loader compares the ends of tables, segments and sections with the size of the file,
but computes these ends with 32-bit words. The number of relocations is the size of the
section divided by an entry size that the image gives, while the entries that are read
have eight bytes. All reads stay inside the file if and only if the image makes no use of
either.
-/

namespace MxOS.Elf

open ByteMemory

/-- The offsets lie inside the file. -/
def Request.InFile (request : Request) (offsets : List Word) : Prop :=
  ∀ offset ∈ offsets, offset < request.imageSize

section Blocks

variable {request : Request}

@[simp] theorem Request.inFile_nil : request.InFile [] := fun _ member =>
  absurd member List.not_mem_nil

@[simp] theorem Request.inFile_append {first second : List Word} :
    request.InFile (first ++ second) ↔ request.InFile first ∧ request.InFile second :=
  List.forall_mem_append

theorem Request.inFile_range {reads : Nat → List Word} {count : Nat} :
    request.InFile ((List.range' 0 count).flatMap reads) ↔
      ∀ number < count, request.InFile (reads number) := by
  unfold Request.InFile
  simp only [List.mem_flatMap, List.mem_range'_1, Nat.zero_le, true_and, Nat.zero_add]
  exact ⟨fun all number below offset member => all offset ⟨number, below, member⟩,
    fun all offset ⟨number, below, member⟩ => all number below offset member⟩

theorem Request.inFile_block {start : Word} {length : Nat} (some : length ≠ 0) :
    request.InFile (block start length) ↔ start.toNat + length ≤ request.imageSize.toNat := by
  constructor
  · intro inside
    by_contra beyond
    -- The first byte of the block, or else the one just behind the file.
    have first := inside start (mem_block.mpr ⟨0, by omega, BitVec.add_zero start⟩)
    have behind := inside _
      (mem_block.mpr ⟨request.imageSize.toNat - start.toNat, by bv_omega, rfl⟩)
    bv_omega
  · intro fits offset member
    obtain ⟨index, below, rfl⟩ := mem_block.mp member
    bv_omega

/-- Where the code compares the end of a block with the size, the block is inside if its end does
not wrap. -/
theorem Request.inFile_of_end {start length : Word}
    (checked : start + length ≤ request.imageSize) :
    request.InFile (block start length.toNat) ↔ start.toNat + length.toNat < 2 ^ 32 := by
  by_cases empty : length.toNat = 0
  · rw [empty, block_zero]
    exact iff_of_true Request.inFile_nil (by bv_omega)
  · rw [Request.inFile_block empty]
    bv_omega

end Blocks

/-! ### Segments -/

section Segments

variable (request : Request)

/-- The offsets that the header at the given offset makes the loader read. -/
def Request.segmentReads (header : Word) : List Word :=
  block header 4 ++
    if (request.phdr header).pType ≠ ptLoad then []
    else block (header + 8) 4 ++ (block (header + 20) 4 ++
      if !inWindow (request.destOff (request.phdr header)) (request.phdr header).pMemsz
        request.windowSize then []
      else block (header + 4) 4 ++ (block (header + 16) 4 ++
        if (request.phdr header).pOffset + (request.phdr header).pFilesz > request.imageSize then []
        else block (request.phdr header).pOffset (request.phdr header).pFilesz.toNat))

theorem copyBytes_reads (image : Memory) (dest src : Word) (remaining index : Nat)
    (loader : Loader) :
    (copyBytes image dest src remaining index loader).reads =
      loader.reads ++ block (src + BitVec.ofNat 32 index) remaining := by
  induction remaining generalizing index loader with
  | zero => simp [copyBytes]
  | succ remaining ih =>
      rw [copyBytes, ih, block_succ]
      simp only [Loader.read8, List.append_assoc, List.singleton_append]

theorem clearBytes_reads (dest : Word) (remaining index : Nat) (loader : Loader) :
    (clearBytes dest remaining index loader).reads = loader.reads := by
  induction remaining generalizing index loader with
  | zero => rfl
  | succ remaining ih => rw [clearBytes, ih]

theorem loadSegment_reads (header : Word) (loader : Loader) :
    (loadSegment request header loader).2.reads =
      loader.reads ++ request.segmentReads header := by
  unfold Request.segmentReads
  by_cases other : (request.phdr header).pType ≠ ptLoad
  · have result : loadSegment request header loader =
        (.ok (), { loader with reads := loader.reads ++ block header 4 }) := if_pos other
    rw [result, if_pos other, List.append_nil]
  · rw [if_neg other]
    by_cases outside : (!inWindow (request.destOff (request.phdr header))
        (request.phdr header).pMemsz request.windowSize) = true
    · have result : loadSegment request header loader = (.error .segmentOutsideWindow,
          { loader with
            reads := loader.reads ++ block header 4 ++ block (header + 8) 4 ++
              block (header + 20) 4 }) := (if_neg other).trans (if_pos outside)
      rw [result, if_pos outside]
      simp only [List.append_nil, List.append_assoc]
    · rw [if_neg outside]
      by_cases behind : (request.phdr header).pOffset + (request.phdr header).pFilesz >
          request.imageSize
      · have result : loadSegment request header loader = (.error .segmentOutsideFile,
            { loader with
              reads := loader.reads ++ block header 4 ++ block (header + 8) 4 ++
                block (header + 20) 4 ++ block (header + 4) 4 ++ block (header + 16) 4 }) :=
          (if_neg other).trans ((if_neg outside).trans (if_pos behind))
        rw [result, if_pos behind]
        simp only [List.append_nil, List.append_assoc]
      · have result : (loadSegment request header loader).2 = _ := congrArg Prod.snd
          ((if_neg other).trans ((if_neg outside).trans (if_neg behind)))
        rw [result, if_neg behind, clearBytes_reads, copyBytes_reads, BitVec.add_zero]
        simp only [List.append_assoc, Request.phdr]

/-- The end of the segment's content does not wrap, if the segment is loaded. -/
def Request.ContentFits (segment : Phdr) : Prop :=
  segment.pType = ptLoad → request.Accepts segment →
    segment.pOffset.toNat + segment.pFilesz.toNat < 2 ^ 32

/-- A header inside the file: the segment is read as well if it is accepted. -/
theorem Request.inFile_segmentReads {header : Word}
    (inside : header.toNat + 32 ≤ request.imageSize.toNat) :
    request.InFile (request.segmentReads header) ↔
      request.ContentFits (request.phdr header) := by
  have field : ∀ position : Word, position.toNat ≤ 28 →
      request.InFile (block (header + position) 4) := by
    intro position low
    rw [Request.inFile_block (by decide)]
    bv_omega
  have first : request.InFile (block header 4) := (Request.inFile_block (by decide)).mpr (by omega)
  unfold Request.segmentReads Request.ContentFits
  simp only [Request.inFile_append, first, true_and]
  by_cases load : (request.phdr header).pType = ptLoad
  · simp only [load, ne_eq, not_true_eq_false, ↓reduceIte, Request.inFile_append, forall_const,
      field 8 (by decide), field 20 (by decide), true_and]
    unfold Request.Accepts
    rw [imp_iff_right load]
    cases window : inWindow (request.destOff (request.phdr header)) (request.phdr header).pMemsz
      request.windowSize with
    | false => simp only [Bool.not_false, ↓reduceIte, Request.inFile_nil, Bool.false_eq_true,
        false_and, false_implies]
    | true =>
        simp only [Bool.not_true, Bool.false_eq_true, ↓reduceIte, Request.inFile_append,
          field 4 (by decide), field 16 (by decide), true_and]
        by_cases outside : (request.phdr header).pOffset + (request.phdr header).pFilesz >
            request.imageSize
        · rw [if_pos outside]
          exact iff_of_true Request.inFile_nil fun file =>
            absurd file (BitVec.not_le.mpr outside)
        · rw [if_neg outside, imp_iff_right (BitVec.not_lt.mp outside)]
          exact Request.inFile_of_end (BitVec.not_lt.mp outside)
  · simp only [load, ne_eq, not_false_eq_true, ↓reduceIte, Request.inFile_nil, false_implies]

end Segments

/-! ### Relocations -/

section Relocations

variable (request : Request)

/-- The offsets that the relocation entry at the given offset makes the loader read. -/
def Request.entryReads (entry : Word) : List Word :=
  block (entry + 4) 4 ++
    if request.image.read32 (entry + 4) &&& 0xFF ≠ r38632 then [] else block entry 4

/-- The number of relocations that the code computes. -/
def Shdr.relCount (header : Shdr) : Nat :=
  (if header.shEntsize ≠ 0 then header.shSize / header.shEntsize else 0).toNat

def Request.sectionReads (header : Word) : List Word :=
  block (header + 4) 4 ++
    if (request.shdr header).shType ≠ shtRel then []
    else block (header + 16) 4 ++ (block (header + 20) 4 ++
      if (request.shdr header).shOffset + (request.shdr header).shSize > request.imageSize then []
      else block (header + 36) 4 ++
        (List.range' 0 (request.shdr header).relCount).flatMap fun number =>
          request.entryReads ((request.shdr header).shOffset + BitVec.ofNat 32 number * relSize))

theorem relocate_reads (entry : Word) (loader : Loader) :
    (relocate request entry loader).reads = loader.reads ++ request.entryReads entry := by
  unfold Request.entryReads
  by_cases other : request.image.read32 (entry + 4) &&& 0xFF ≠ r38632
  · have result : relocate request entry loader =
        { loader with reads := loader.reads ++ block (entry + 4) 4 } := if_pos other
    rw [result, if_pos other, List.append_nil]
  · rw [if_neg other, ← List.append_assoc]
    by_cases outside : (!inWindow (request.image.read32 entry - request.linkBase) 4
        request.windowSize) = true
    · have result : relocate request entry loader =
          { loader with reads := loader.reads ++ block (entry + 4) 4 ++ block entry 4 } :=
        (if_neg other).trans (if_pos outside)
      rw [result]
    · have result : relocate request entry loader = _ := (if_neg other).trans (if_neg outside)
      rw [result]

theorem relocateAll_reads (shOffset : Word) (remaining index : Nat) (loader : Loader) :
    (relocateAll request shOffset remaining index loader).reads =
      loader.reads ++ (List.range' index remaining).flatMap fun number =>
        request.entryReads (shOffset + BitVec.ofNat 32 number * relSize) := by
  induction remaining generalizing index loader with
  | zero => exact (List.append_nil _).symm
  | succ remaining ih =>
      rw [relocateAll, ih, relocate_reads, List.range'_succ, List.flatMap_cons, List.append_assoc]

theorem relocateSection_reads (header : Word) (loader : Loader) :
    (relocateSection request header loader).reads =
      loader.reads ++ request.sectionReads header := by
  unfold Request.sectionReads
  by_cases other : (request.shdr header).shType ≠ shtRel
  · have result : relocateSection request header loader =
        { loader with reads := loader.reads ++ block (header + 4) 4 } := if_pos other
    rw [result, if_pos other, List.append_nil]
  · rw [if_neg other]
    by_cases behind : (request.shdr header).shOffset + (request.shdr header).shSize >
        request.imageSize
    · have result : relocateSection request header loader =
          { loader with
            reads := loader.reads ++ block (header + 4) 4 ++ block (header + 16) 4 ++
              block (header + 20) 4 } := (if_neg other).trans (if_pos behind)
      rw [result, if_pos behind]
      simp only [List.append_nil, List.append_assoc]
    · have result : relocateSection request header loader = _ :=
        (if_neg other).trans (if_neg behind)
      rw [result, if_neg behind, relocateAll_reads]
      simp only [Loader.read32, List.append_assoc]
      rfl

theorem relocateSections_reads (eShoff : Word) (remaining index : Nat) (loader : Loader) :
    (relocateSections request eShoff remaining index loader).reads =
      loader.reads ++ (List.range' index remaining).flatMap fun number =>
        request.sectionReads (eShoff + BitVec.ofNat 32 number * shdrSize) := by
  induction remaining generalizing index loader with
  | zero => exact (List.append_nil _).symm
  | succ remaining ih =>
      rw [relocateSections, ih, relocateSection_reads, List.range'_succ, List.flatMap_cons,
        List.append_assoc]

/-- The four bytes at the beginning of an accepted file are neither of the numbers that the loader
looks for. -/
theorem magic_byte {request : Request} (format : request.HasFormat) {offset : Word}
    (low : offset.toNat < 4) : request.image offset ≠ 1 ∧ request.image offset ≠ 9 := by
  obtain ⟨first, second, third, fourth, _⟩ := format
  have cases : offset = 0 ∨ offset = 1 ∨ offset = 2 ∨ offset = 3 := by bv_omega
  rcases cases with rfl | rfl | rfl | rfl
  · rw [first]; decide
  · rw [second]; decide
  · rw [third]; decide
  · rw [fourth]; decide

theorem low_byte_read32 (image : Memory) (offset : Word) :
    byteOf (image.read32 offset) 0 = image offset := by
  rw [Memory.read32, byteOf_wordOf _ (by decide), BitVec.add_zero]

theorem low_byte_of_and {word : Word} (masked : word &&& 0xFF = r38632) : byteOf word 0 = 1 := by
  have value : word.toNat % 2 ^ 8 = 1 := by
    rw [← Nat.and_two_pow_sub_one_eq_mod]
    exact congrArg BitVec.toNat masked
  apply BitVec.eq_of_toNat_eq
  rw [byteOf, BitVec.extractLsb'_toNat]
  exact value

end Relocations

section Entries

variable {request : Request} (format : request.HasFormat) (header : ehdrSize ≤ request.imageSize)
  (small : request.imageSize ≤ 0x20000)

/-- The relocation entries lie inside the file. The first may also begin up to four bytes before
it: the bytes that are read of it are then those at the beginning of the file, which do not name a
relocation. -/
def Request.EntriesFit (request : Request) (shOffset : Word) (count : Nat) : Prop :=
  shOffset.toNat + count * 8 ≤ request.imageSize.toNat ∨
    2 ^ 32 - 4 ≤ shOffset.toNat ∧ shOffset.toNat + count * 8 ≤ 2 ^ 32 + request.imageSize.toNat

theorem Request.inFile_entry {entry : Word}
    (inside : entry.toNat + 8 ≤ request.imageSize.toNat) :
    request.InFile (request.entryReads entry) := by
  unfold Request.entryReads
  rw [Request.inFile_append, Request.inFile_block (by decide)]
  refine ⟨by bv_omega, ?_⟩
  split
  · exact Request.inFile_nil
  · rw [Request.inFile_block (by decide)]
    omega

include format header in
theorem Request.inFile_first_entry {entry : Word} (before : 2 ^ 32 - 4 ≤ entry.toNat) :
    request.InFile (request.entryReads entry) := by
  have low : (entry + 4).toNat < 4 := by bv_omega
  have skipped : request.image.read32 (entry + 4) &&& 0xFF ≠ r38632 := fun named =>
    (magic_byte format low).1 ((low_byte_read32 ..).symm.trans (low_byte_of_and named))
  unfold Request.entryReads
  rw [if_pos skipped, List.append_nil, Request.inFile_block (by decide)]
  bv_omega

include format header small in
theorem Request.inFile_entries (shOffset : Word) {count : Nat} (some : count ≠ 0) :
    (∀ number < count,
      request.InFile (request.entryReads (shOffset + BitVec.ofNat 32 number * relSize))) ↔
      request.EntriesFit shOffset count := by
  unfold Request.EntriesFit
  constructor
  · intro inside
    have info : ∀ number < count,
        (shOffset + BitVec.ofNat 32 number * 8 + 4).toNat + 4 ≤ request.imageSize.toNat := by
      intro number below
      have both := inside number below
      unfold Request.entryReads at both
      exact (Request.inFile_block (by decide)).mp (Request.inFile_append.mp both).1
    have first := info 0 (Nat.pos_of_ne_zero some)
    by_contra beyond
    -- The first entry that ends behind the file, counted from the beginning of the file on.
    by_cases low : shOffset.toNat < 2 ^ 32 - 4
    · have last := info ((request.imageSize.toNat - shOffset.toNat) / 8) (by bv_omega)
      bv_omega
    · have last := info ((2 ^ 32 + request.imageSize.toNat - shOffset.toNat) / 8) (by bv_omega)
      bv_omega
  · rintro (fits | ⟨before, fits⟩) number below
    · exact Request.inFile_entry (by bv_omega)
    · cases number with
      | zero => exact Request.inFile_first_entry format header (by bv_omega)
      | succ number => exact Request.inFile_entry (by bv_omega)

/-- The relocations of a section that is used lie inside the file. -/
def Request.RelocationsFit (request : Request) (shdr : Shdr) : Prop :=
  shdr.shType = shtRel → shdr.shOffset + shdr.shSize ≤ request.imageSize →
    shdr.relCount ≠ 0 → request.EntriesFit shdr.shOffset shdr.relCount

include format header small in
theorem Request.inFile_section {position : Word}
    (inside : position.toNat + 40 ≤ request.imageSize.toNat) :
    request.InFile (request.sectionReads position) ↔
      request.RelocationsFit (request.shdr position) := by
  have field : ∀ offset : Word, offset.toNat ≤ 36 →
      request.InFile (block (position + offset) 4) := by
    intro offset low
    rw [Request.inFile_block (by decide)]
    bv_omega
  unfold Request.sectionReads Request.RelocationsFit
  rw [Request.inFile_append, and_iff_right (field 4 (by decide))]
  by_cases type : (request.shdr position).shType = shtRel
  · rw [if_neg (not_not.mpr type), imp_iff_right type, Request.inFile_append,
      Request.inFile_append, and_iff_right (field 16 (by decide)),
      and_iff_right (field 20 (by decide))]
    by_cases behind : (request.shdr position).shOffset + (request.shdr position).shSize >
        request.imageSize
    · rw [if_pos behind]
      exact iff_of_true Request.inFile_nil fun file => absurd file (BitVec.not_le.mpr behind)
    · rw [if_neg behind, imp_iff_right (BitVec.not_lt.mp behind), Request.inFile_append,
        and_iff_right (field 36 (by decide)), Request.inFile_range]
      by_cases none : (request.shdr position).relCount = 0
      · rw [none]
        exact iff_of_true (fun number below => absurd below (Nat.not_lt_zero number))
          fun some => absurd rfl some
      · rw [imp_iff_right none]
        exact Request.inFile_entries format header small _ none
  · rw [if_pos type]
    exact iff_of_true Request.inFile_nil fun load => absurd load type

include format header in
/-- A section header up to four bytes before the file: its type is read at the beginning of the
file, and it is skipped. -/
theorem Request.first_section_skipped {position : Word} (before : 2 ^ 32 - 4 ≤ position.toNat) :
    (request.shdr position).shType ≠ shtRel ∧ request.InFile (request.sectionReads position) := by
  have low : (position + 4).toNat < 4 := by bv_omega
  have skipped : (request.shdr position).shType ≠ shtRel := by
    intro type
    have byte := (low_byte_read32 request.image (position + 4)).symm.trans
      (congrArg (byteOf · 0) type)
    exact (magic_byte format low).2 byte
  refine ⟨skipped, ?_⟩
  unfold Request.sectionReads
  rw [if_pos skipped, List.append_nil, Request.inFile_block (by decide)]
  bv_omega

/-- The section headers lie inside the file, except that the first may begin up to four bytes
before it. -/
def Request.SectionTableFits (request : Request) : Prop :=
  request.eShnum ≠ 0 →
    request.eShoff.toNat + request.eShnum.toNat * 40 < 2 ^ 32 ∨ 2 ^ 32 - 4 ≤ request.eShoff.toNat

theorem Request.eShnum_lt (request : Request) : request.eShnum.toNat < 2 ^ 16 := by
  unfold Request.eShnum
  split
  · decide
  · rw [BitVec.toNat_setWidth]
    have proper := (request.image 49 ++ request.image 48).isLt
    omega

/-- The places of table entries, with the sums of the code written out. -/
theorem toNat_entry (table : Word) (number size : Nat) :
    (table + BitVec.ofNat 32 number * BitVec.ofNat 32 size).toNat =
      (table.toNat + number * size) % 2 ^ 32 := by
  rw [BitVec.toNat_add, ← BitVec.ofNat_mul, BitVec.toNat_ofNat, Nat.add_mod_mod]

include format header small in
theorem Request.inFile_sections
    (checked : request.eShoff + request.eShnum * shdrSize ≤ request.imageSize) :
    (∀ number < request.eShnum.toNat, request.InFile
      (request.sectionReads (request.eShoff + BitVec.ofNat 32 number * shdrSize))) ↔
      request.SectionTableFits ∧ ∀ number < request.eShnum.toNat,
        request.RelocationsFit (request.sectionHeader number) := by
  have few := request.eShnum_lt
  have place : ∀ number, (request.eShoff + BitVec.ofNat 32 number * shdrSize).toNat =
      (request.eShoff.toNat + number * 40) % 2 ^ 32 := fun number => toNat_entry _ number 40
  have ending : (request.eShoff.toNat + request.eShnum.toNat * 40) % 2 ^ 32 ≤
      request.imageSize.toNat := by
    rw [← place, BitVec.ofNat_toNat, BitVec.setWidth_eq]
    exact checked
  have fits_of : request.SectionTableFits → ∀ number < request.eShnum.toNat,
      (request.InFile
        (request.sectionReads (request.eShoff + BitVec.ofNat 32 number * shdrSize)) ↔
      request.RelocationsFit (request.sectionHeader number)) := by
    intro table number below
    have some : request.eShnum ≠ 0 := by
      rintro zero
      rw [zero] at below
      exact absurd below (Nat.not_lt_zero number)
    by_cases first : number = 0 ∧ 2 ^ 32 - 4 ≤ request.eShoff.toNat
    · obtain ⟨rfl, before⟩ := first
      have start : request.eShoff + BitVec.ofNat 32 0 * shdrSize = request.eShoff :=
        BitVec.add_zero _
      obtain ⟨skipped, inside⟩ := Request.first_section_skipped format header before
      unfold Request.sectionHeader
      rw [start]
      exact iff_of_true inside fun type => absurd type skipped
    · refine Request.inFile_section format header small ?_
      rw [place]
      rcases table some with low | before
      · rw [Nat.mod_eq_of_lt (by omega)]
        rw [Nat.mod_eq_of_lt low] at ending
        omega
      · -- The rest of the table has wrapped.
        have wraps : ∀ count, 0 < count → count ≤ request.eShnum.toNat →
            (request.eShoff.toNat + count * 40) % 2 ^ 32 =
              request.eShoff.toNat + count * 40 - 2 ^ 32 := by
          intro count positive inside
          rw [Nat.mod_eq_sub_mod (by omega), Nat.mod_eq_of_lt (by omega)]
        rw [wraps _ (by omega) le_rfl] at ending
        rw [wraps number (by omega) below.le]
        omega
  constructor
  · intro inside
    have table : request.SectionTableFits := by
      intro some
      have first := inside 0 (by bv_omega)
      unfold Request.sectionReads at first
      have type := (Request.inFile_block (by decide)).mp (Request.inFile_append.mp first).1
      bv_omega
    exact ⟨table, fun number below => (fits_of table number below).mp (inside number below)⟩
  · rintro ⟨table, fits⟩ number below
    exact (fits_of table number below).mpr (fits number below)

end Entries

/-! ### Loading -/

/-- The end of the program headers does not wrap. -/
def Request.ProgramTableFits (request : Request) : Prop :=
  request.ePhnum ≠ 0 → request.ePhoff.toNat + request.ePhnum.toNat * 32 < 2 ^ 32

/-- No sum that is compared with the size of the file wraps where the loader goes on to read, and
relocations fit in the file with eight bytes each. A segment is reached if the earlier ones are
accepted, the sections are reached if all segments are. -/
structure Request.Honest (request : Request) : Prop where
  programTable : request.ProgramTableFits
  segments : ∀ index < request.ePhnum.toNat,
    (∀ earlier < index, request.Accepts (request.segment request.ePhoff earlier)) →
    request.ContentFits (request.segment request.ePhoff index)
  sections : (∀ index < request.ePhnum.toNat,
      request.Accepts (request.segment request.ePhoff index)) →
    request.eShoff + request.eShnum * shdrSize ≤ request.imageSize →
    request.SectionTableFits ∧ ∀ index < request.eShnum.toNat,
      request.RelocationsFit (request.sectionHeader index)

section Loading

variable {request : Request}

theorem Request.ePhnum_lt (request : Request) : request.ePhnum.toNat < 2 ^ 16 := by
  unfold Request.ePhnum
  rw [BitVec.toNat_setWidth]
  have proper := (request.image 45 ++ request.image 44).isLt
  omega

/-- The loop over the program headers. -/
theorem Request.inFile_segments (accepted : request.HeaderAccepted)
    (small : request.imageSize ≤ 0x20000) {loader : Loader} (before : request.InFile loader.reads) :
    request.InFile (loadSegments request request.ePhoff request.ePhnum.toNat 0 loader).2.reads ↔
      request.ProgramTableFits ∧ ∀ index < request.ePhnum.toNat,
        (∀ earlier < index, request.Accepts (request.segment request.ePhoff earlier)) →
        request.ContentFits (request.segment request.ePhoff index) := by
  have few := request.ePhnum_lt
  have place : ∀ number, (request.ePhoff + BitVec.ofNat 32 number * phdrSize).toNat =
      (request.ePhoff.toNat + number * 32) % 2 ^ 32 := fun number => toNat_entry _ number 32
  have ending : (request.ePhoff.toNat + request.ePhnum.toNat * 32) % 2 ^ 32 ≤
      request.imageSize.toNat := by
    rw [← place, BitVec.ofNat_toNat, BitVec.setWidth_eq]
    exact accepted.table
  have step : ∀ index loader, request.InFile
      (loadSegment request (request.ePhoff + BitVec.ofNat 32 index * phdrSize) loader).2.reads ↔
      request.InFile loader.reads ∧ request.InFile
        (request.segmentReads (request.ePhoff + BitVec.ofNat 32 index * phdrSize)) :=
    fun index loader => by rw [loadSegment_reads, Request.inFile_append]
  rw [@loadSegments_reached request request.ePhoff (fun loader => request.InFile loader.reads) _
    step, and_iff_right before]
  simp only [Nat.zero_le, Nat.zero_add, forall_const]
  have headers : request.ProgramTableFits → ∀ index < request.ePhnum.toNat, (request.InFile
      (request.segmentReads (request.ePhoff + BitVec.ofNat 32 index * phdrSize)) ↔
        request.ContentFits (request.segment request.ePhoff index)) := by
    intro table index below
    have low := table (by bv_omega)
    rw [Nat.mod_eq_of_lt low] at ending
    exact request.inFile_segmentReads (by rw [place, Nat.mod_eq_of_lt (by omega)]; omega)
  constructor
  · intro inside
    have table : request.ProgramTableFits := by
      intro some
      have first := inside 0 (by bv_omega) fun earlier below => absurd below (Nat.not_lt_zero _)
      unfold Request.segmentReads at first
      have type := (Request.inFile_block (by decide)).mp (Request.inFile_append.mp first).1
      rw [place, Nat.zero_mul, Nat.add_zero] at type
      bv_omega
    exact ⟨table, fun index below reached =>
      (headers table index below).mp (inside index below reached)⟩
  · rintro ⟨table, fits⟩ index below reached
    exact (headers table index below).mpr (fits index below reached)

/-- What follows the segments: nothing but the header is read when there are no sections. -/
theorem Request.inFile_finishLoad (accepted : request.HeaderAccepted)
    (small : request.imageSize ≤ 0x20000) (loader : Loader) :
    request.InFile (finishLoad request loader).2.reads ↔ request.InFile loader.reads ∧
      (request.eShoff + request.eShnum * shdrSize ≤ request.imageSize →
        request.SectionTableFits ∧ ∀ index < request.eShnum.toNat,
          request.RelocationsFit (request.sectionHeader index)) := by
  have field : ∀ (position : Word) length, length ≠ 0 → position.toNat + length ≤ 52 →
      request.InFile (block position length) := by
    intro position length some low
    have size := BitVec.le_def.mp accepted.size
    exact (Request.inFile_block some).mpr (low.trans size)
  by_cases table : request.eShoff = 0
  · have none : request.eShnum = 0 := if_pos table
    have result : (finishLoad request loader).2.reads =
        loader.reads ++ block 32 4 ++ block 24 4 := by
      unfold finishLoad
      rw [Request.eShoff] at table
      simp only [Loader.read32, table, ne_eq, not_true_eq_false, ↓reduceIte, false_and]
    rw [result, Request.inFile_append, Request.inFile_append,
      and_iff_left (field 24 4 (by decide) (by decide)),
      and_iff_left (field 32 4 (by decide) (by decide))]
    refine (and_iff_left fun _ => ⟨fun some => absurd none some, fun index below => ?_⟩).symm
    rw [none] at below
    exact absurd below (Nat.not_lt_zero index)
  · have number : request.eShnum = (request.image 49 ++ request.image 48).setWidth 32 :=
      if_neg table
    have result : (finishLoad request loader).2.reads =
        (if request.eShoff + request.eShnum * shdrSize ≤ request.imageSize then
          relocateSections request request.eShoff request.eShnum.toNat 0
            { loader with reads := loader.reads ++ block 32 4 ++ block 48 2 }
        else { loader with reads := loader.reads ++ block 32 4 ++ block 48 2 }).reads ++
          block 24 4 := by
      rw [number]
      unfold finishLoad
      rw [Request.eShoff] at table
      simp only [Loader.read32, Loader.read16, table, ne_eq, not_false_eq_true, ↓reduceIte,
        true_and]
      rfl
    rw [result, Request.inFile_append, and_iff_left (field 24 4 (by decide) (by decide))]
    have header : request.InFile (loader.reads ++ block 32 4 ++ block 48 2) ↔
        request.InFile loader.reads := by
      rw [Request.inFile_append, Request.inFile_append,
        and_iff_left (field 48 2 (by decide) (by decide)),
        and_iff_left (field 32 4 (by decide) (by decide))]
    by_cases checked : request.eShoff + request.eShnum * shdrSize ≤ request.imageSize
    · rw [if_pos checked, imp_iff_right checked, relocateSections_reads, Request.inFile_append,
        header, Request.inFile_range]
      exact and_congr_right fun _ =>
        Request.inFile_sections accepted.format accepted.size small checked
    · rw [if_neg checked, header]
      exact (and_iff_left fun passes => absurd passes checked).symm

end Loading

/-- Every byte that a load of an image of at most 128 KiB reads lies inside the file, whatever is
returned, if and only if the header is refused or the image is honest about its sizes. -/
theorem elf_load_reads_iff (request : Request) (memory : Memory)
    (small : request.imageSize ≤ 0x20000) :
    (∀ offset ∈ (elfLoad request memory).2.reads, offset < request.imageSize) ↔
      (request.HeaderAccepted → request.Honest) := by
  obtain ⟨reads, inside, ⟨refused, reason, result⟩ | ⟨accepted, result⟩⟩ :=
    elfLoad_cases request memory
  · rw [result]
    exact iff_of_true inside fun accepted => absurd accepted refused
  · rw [result, imp_iff_right accepted]
    have ok := loadSegments_ok request request.ePhoff request.ePhnum.toNat 0
      ⟨⟨memory, []⟩, reads⟩
    have segments := @Request.inFile_segments request accepted small ⟨⟨memory, []⟩, reads⟩ inside
    simp only [Nat.zero_add, Nat.zero_le, forall_const] at ok
    generalize loadSegments request request.ePhoff request.ePhnum.toNat 0
      ⟨⟨memory, []⟩, reads⟩ = outcome at ok segments ⊢
    obtain ⟨reason | done, loader⟩ := outcome
    · have notAll : ¬ ∀ index < request.ePhnum.toNat,
          request.Accepts (request.segment request.ePhoff index) := fun all =>
        absurd (ok.mpr all) (by simp)
      refine segments.trans ⟨fun fits => ⟨fits.1, fits.2, fun all => absurd all notAll⟩,
        fun honest => ⟨honest.programTable, honest.segments⟩⟩
    · have all := ok.mp rfl
      refine (Request.inFile_finishLoad accepted small loader).trans ?_
      rw [show request.InFile loader.reads ↔ _ from segments]
      exact ⟨fun ⟨fits, sections⟩ => ⟨fits.1, fits.2, fun _ => sections⟩,
        fun honest => ⟨⟨honest.programTable, honest.segments⟩, honest.sections all⟩⟩

/-- Well-formed images are honest. -/
theorem Request.WellFormed.honest {request : Request} (wellFormed : request.WellFormed) :
    request.Honest := by
  have proper := request.imageSize.isLt
  refine ⟨fun _ => wellFormed.programTable.trans_lt proper, fun index below _ load _ => ?_,
    fun _ _ => ⟨fun _ => Or.inl (wellFormed.sectionTable.trans_lt proper), ?_⟩⟩
  · exact (wellFormed.file index below (decide_eq_true load)).trans_lt proper
  · intro index below type _ _
    have file := wellFormed.relFile index below type
    have count : (request.sectionHeader index).relCount =
        (request.sectionHeader index).shSize.toNat / 8 := by
      unfold Shdr.relCount
      rw [wellFormed.relEntsize index below type]
      rfl
    refine Or.inl ?_
    rw [count]
    omega

/-- The image with relocations is read inside its bounds. -/
theorem elf_load_reads_second_slot :
    secondSlot.imageSize ≤ 0x20000 ∧
      ∀ offset ∈ (elfLoad secondSlot fun _ => 0).2.reads, offset < secondSlot.imageSize :=
  ⟨by decide, (elf_load_reads_iff secondSlot (fun _ => 0) (by decide)).mpr fun _ =>
    secondSlot_wellFormed.honest⟩

/-- An image of a header only, with one program header at the given offset. -/
def headerImage (ePhoff : Word) : Memory :=
  let fields : List (Word × Word) :=
    [(0, 0x464C457F), (4, 1), (16, 0x00030002), (28, ePhoff), (44, 1)]
  fields.foldl (fun image field => Memory.write32 image field.1 field.2) fun _ => 0

/-- A program header 32 bytes before the image ends at its beginning, as far as 32-bit words tell,
and is read. -/
theorem wrapped_program_header_read :
    let request := firstSlot (headerImage 0xFFFFFFE0)
    request.imageSize = 84 ∧ 0xFFFFFFE0 ∈ (elfLoad request fun _ => 0).2.reads ∧
      ¬ ∀ offset ∈ (elfLoad request fun _ => 0).2.reads, offset < request.imageSize := by
  intro request
  have read : 0xFFFFFFE0 ∈ (elfLoad request fun _ => 0).2.reads := by decide +kernel
  refine ⟨rfl, read, fun inside => ?_⟩
  exact absurd (inside _ read) (by decide)

end MxOS.Elf
