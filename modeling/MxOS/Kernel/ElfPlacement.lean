import MxOS.Kernel.ElfConfinement

/-! # Loading a well-formed image

A well-formed image determines, for every offset of the window, the byte that is placed
there, and the words that hold absolute addresses. A load puts every byte into its place
and then adds the distance between the window and the link address to these words, in
whatever order segments and relocations come.
-/

namespace MxOS.Elf

open ByteMemory

/-! ### What an image says -/

namespace Request

variable (request : Request)

def eShoff : Word := request.image.read32 32

/-- The number of sections; there are none when `e_shoff` is 0. -/
def eShnum : Word :=
  if request.eShoff = 0 then 0 else (request.image 49 ++ request.image 48).setWidth 32

/-- The section header of the given number. -/
def sectionHeader (index : Nat) : Shdr :=
  request.shdr (request.eShoff + BitVec.ofNat 32 index * shdrSize)

/-- The loadable segments, by their numbers. -/
def loads (index : Nat) : Bool :=
  (request.segment request.ePhoff index).pType = ptLoad

/-- The segment of the given number takes up the offset of the window. -/
def covers (index offset : Nat) : Bool :=
  let segment := request.segment request.ePhoff index
  request.loads index && (request.destOff segment).toNat ≤ offset &&
    offset < (request.destOff segment).toNat + segment.pMemsz.toNat

/-- The byte that the segment has at the offset: one from the file, or 0. -/
def content (index offset : Nat) : Byte :=
  let segment := request.segment request.ePhoff index
  let distance := offset - (request.destOff segment).toNat
  if distance < segment.pFilesz.toNat then
    request.image (segment.pOffset + BitVec.ofNat 32 distance)
  else 0

/-- The byte at the offset once the first segments are placed in a window of zeros. -/
def placedBy (count offset : Nat) : Byte :=
  match (List.range count).find? (request.covers · offset) with
  | some index => request.content index offset
  | none => 0

def placed (offset : Nat) : Byte := request.placedBy request.ePhnum.toNat offset

/-- The little-endian word at the offset. -/
def placedWord (offset : Nat) : Word := wordOf fun index => request.placed (offset + index)

def sectionPatches (header : Shdr) : List Word :=
  if header.shType = shtRel then
    (List.range (header.shSize / relSize).toNat).filterMap fun number =>
      request.patch (header.shOffset + BitVec.ofNat 32 number * relSize)
  else []

/-- The words that hold absolute addresses, as offsets in the window. -/
def patches : List Word :=
  (List.range request.eShnum.toNat).flatMap fun index =>
    request.sectionPatches (request.sectionHeader index)

/-- The header is valid, everything it refers to lies inside the file, segments fit in the window
and do not overlap, and neither do the words named by relocations. -/
structure WellFormed : Prop where
  size : ehdrSize ≤ request.imageSize
  format : request.HasFormat
  programTable : request.ePhoff.toNat + request.ePhnum.toNat * 32 ≤ request.imageSize.toNat
  sectionTable : request.eShoff.toNat + request.eShnum.toNat * 40 ≤ request.imageSize.toNat
  file : ∀ index < request.ePhnum.toNat, request.loads index = true →
    (request.segment request.ePhoff index).pOffset.toNat +
      (request.segment request.ePhoff index).pFilesz.toNat ≤ request.imageSize.toNat
  sizes : ∀ index < request.ePhnum.toNat, request.loads index = true →
    (request.segment request.ePhoff index).pFilesz ≤ (request.segment request.ePhoff index).pMemsz
  window : ∀ index < request.ePhnum.toNat, request.loads index = true →
    (request.destOff (request.segment request.ePhoff index)).toNat +
      (request.segment request.ePhoff index).pMemsz.toNat ≤ request.windowSize.toNat
  disjoint : ∀ first < request.ePhnum.toNat, ∀ second < request.ePhnum.toNat, ∀ offset,
    request.covers first offset = true → request.covers second offset = true → first = second
  relFile : ∀ index < request.eShnum.toNat, (request.sectionHeader index).shType = shtRel →
    (request.sectionHeader index).shOffset.toNat + (request.sectionHeader index).shSize.toNat ≤
      request.imageSize.toNat
  relEntsize : ∀ index < request.eShnum.toNat, (request.sectionHeader index).shType = shtRel →
    (request.sectionHeader index).shEntsize = relSize
  words : request.patches.Pairwise fun first second =>
    first.toNat + 4 ≤ second.toNat ∨ second.toNat + 4 ≤ first.toNat

/-- The window holds zeros. -/
def Zeroed (memory : Memory) : Prop :=
  ∀ offset < request.windowSize.toNat, memory (request.loadBase + BitVec.ofNat 32 offset) = 0

end Request

/-! ### Segments -/

theorem copyBytes_memory (image : Memory) (dest src : Word) {remaining index : Nat}
    (bounded : index + remaining ≤ 2 ^ 32) (loader : Loader) (address : Word) :
    (copyBytes image dest src remaining index loader).bus.memory address =
      if index ≤ (address - dest).toNat ∧ (address - dest).toNat < index + remaining then
        image (src + (address - dest))
      else loader.bus.memory address := by
  induction remaining generalizing index loader with
  | zero => rw [if_neg (by omega), copyBytes]
  | succ remaining ih =>
      rw [copyBytes, ih (by omega)]
      exact Memory.write8_fill (fun distance => image (src + distance)) bounded address

theorem clearBytes_memory (dest : Word) {remaining index : Nat}
    (bounded : index + remaining ≤ 2 ^ 32) (loader : Loader) (address : Word) :
    (clearBytes dest remaining index loader).bus.memory address =
      if index ≤ (address - dest).toNat ∧ (address - dest).toNat < index + remaining then 0
      else loader.bus.memory address := by
  induction remaining generalizing index loader with
  | zero => rw [if_neg (by omega), clearBytes]
  | succ remaining ih =>
      rw [clearBytes, ih (by omega)]
      exact Memory.write8_fill (fun _ => 0) bounded address

/-- The byte at an offset of the window. -/
def Request.view (request : Request) (memory : Memory) (offset : Nat) : Byte :=
  memory (request.loadBase + BitVec.ofNat 32 offset)

section Segments

variable {request : Request} (wellFormed : request.WellFormed)

include wellFormed

theorem Request.WellFormed.accepts {index : Nat} (inside : index < request.ePhnum.toNat) :
    request.Accepts (request.segment request.ePhoff index) := by
  intro load
  have loads : request.loads index = true := decide_eq_true load
  refine ⟨inWindow_iff.mpr (wellFormed.window index inside loads), ?_⟩
  have file := wellFormed.file index inside loads
  have proper := request.imageSize.isLt
  bv_omega

/-- One turn of the loop puts the bytes of one segment into their places. -/
theorem loadSegment_view (noWrap : request.NoWrap) {index : Nat}
    (inside : index < request.ePhnum.toNat)
    (loader : Loader) :
    ∃ later, loadSegment request (request.ePhoff + BitVec.ofNat 32 index * phdrSize) loader =
        (.ok (), later) ∧
      ∀ offset < request.windowSize.toNat, request.view later.bus.memory offset =
        if request.covers index offset = true then request.content index offset
        else request.view loader.bus.memory offset := by
  have accepts := wellFormed.accepts inside
  obtain ⟨reads, ⟨skipped, result⟩ | ⟨refused, _⟩ | ⟨load, _, result⟩⟩ :=
    loadSegment_cases request (request.ePhoff + BitVec.ofNat 32 index * phdrSize) loader
  · refine ⟨_, result, fun offset _ => ?_⟩
    have notCovered : ¬ request.covers index offset = true := by
      intro covered
      simp only [Request.covers, Request.loads, Bool.and_eq_true, decide_eq_true_eq] at covered
      exact skipped covered.1.1
    rw [if_neg notCovered]
  · exact absurd accepts refused
  · refine ⟨_, result, fun offset below => ?_⟩
    have loads : request.loads index = true := decide_eq_true load
    have file := BitVec.le_def.mp (wellFormed.sizes index inside loads)
    have window := wellFormed.window index inside loads
    have size := request.windowSize.isLt
    unfold Request.NoWrap at noWrap
    simp only [Request.covers, Request.content, loads, Bool.true_and, Bool.and_eq_true,
      decide_eq_true_eq]
    rw [← Request.segment]
    generalize request.segment request.ePhoff index = segment at file window
    unfold Request.view
    rw [clearBytes_memory _ (by omega), copyBytes_memory _ _ _ (by omega)]
    generalize request.destOff segment = start at window
    have distance : ∀ address : Word, address = request.loadBase + BitVec.ofNat 32 offset →
        (start.toNat ≤ offset → address - (request.loadBase + start) =
          BitVec.ofNat 32 (offset - start.toNat)) ∧
        (offset < start.toNat → segment.pMemsz.toNat ≤
          (address - (request.loadBase + start)).toNat) := by
      rintro address rfl
      constructor <;> intro order <;> bv_omega
    obtain ⟨above, beneath⟩ := distance _ rfl
    by_cases order : start.toNat ≤ offset
    · have value : (BitVec.ofNat 32 (offset - start.toNat)).toNat = offset - start.toNat := by
        rw [BitVec.toNat_ofNat]
        omega
      rw [above order, value]
      split_ifs <;> first | rfl | omega
    · have far := beneath (by omega)
      rw [if_neg (by omega), if_neg (by omega), if_neg (by omega)]

theorem Request.WellFormed.placedBy_succ {count : Nat} (inside : count < request.ePhnum.toNat)
    (offset : Nat) :
    request.placedBy (count + 1) offset =
      if request.covers count offset = true then request.content count offset
      else request.placedBy count offset := by
  unfold Request.placedBy
  rw [List.range_succ, List.find?_append]
  by_cases covered : request.covers count offset = true
  · -- No earlier segment takes up the offset.
    have earlier : (List.range count).find? (request.covers · offset) = none := by
      refine List.find?_eq_none.mpr fun index member also => ?_
      have below := List.mem_range.mp member
      have same := wellFormed.disjoint index (by omega) count inside offset also covered
      omega
    rw [earlier, if_pos covered]
    simp only [Option.none_or, List.find?_singleton, covered, ↓reduceIte]
  · have none : [count].find? (request.covers · offset) = none := by
      simp only [List.find?_singleton, covered, Bool.false_eq_true, ↓reduceIte]
    rw [none, Option.or_none, if_neg covered]

/-- The loop places all segments. -/
theorem loadSegments_view (noWrap : request.NoWrap) {remaining index : Nat}
    (inside : index + remaining ≤ request.ePhnum.toNat) (loader : Loader)
    (before : ∀ offset < request.windowSize.toNat,
      request.view loader.bus.memory offset = request.placedBy index offset) :
    ∃ later, loadSegments request request.ePhoff remaining index loader = (.ok (), later) ∧
      ∀ offset < request.windowSize.toNat,
        request.view later.bus.memory offset = request.placedBy (index + remaining) offset := by
  induction remaining generalizing index loader with
  | zero => exact ⟨loader, rfl, before⟩
  | succ remaining ih =>
      obtain ⟨next, loaded, view⟩ :=
        loadSegment_view wellFormed noWrap (show index < _ by omega) loader
      have after : ∀ offset < request.windowSize.toNat,
          request.view next.bus.memory offset = request.placedBy (index + 1) offset := by
        intro offset below
        have here : index < request.ePhnum.toNat := by omega
        rw [view offset below, wellFormed.placedBy_succ here, before offset below]
      obtain ⟨later, rest, final⟩ := ih (by omega) next after
      refine ⟨later, ?_, fun offset below => ?_⟩
      · rw [loadSegments, loaded]
        exact rest
      · rw [final offset below, Nat.add_right_comm, Nat.add_assoc]

end Segments

/-! ### Relocations -/

/-- The addresses of the words at the given offsets. -/
def Request.addresses (request : Request) (words : List Word) : List Word :=
  words.map (request.loadBase + ·)

section Relocations

variable (request : Request)

theorem relocate_memory (entry : Word) (loader : Loader) :
    (relocate request entry loader).bus.memory =
      Memory.addToWords request.delta (request.addresses (request.patch entry).toList)
        loader.bus.memory := by
  obtain ⟨reads, ⟨other, skipped⟩ | ⟨destOff, named, patched⟩⟩ :=
    relocate_cases request entry loader
  · rw [skipped, other]
    rfl
  · rw [patched, named]
    rfl

theorem relocateAll_memory (shOffset : Word) (remaining index : Nat) (loader : Loader) :
    (relocateAll request shOffset remaining index loader).bus.memory =
      Memory.addToWords request.delta
        (request.addresses ((List.range' index remaining).filterMap fun number =>
          request.patch (shOffset + BitVec.ofNat 32 number * relSize)))
        loader.bus.memory := by
  induction remaining generalizing index loader with
  | zero => rfl
  | succ remaining ih =>
      rw [relocateAll, ih, relocate_memory, ← Memory.addToWords_append, List.range'_succ,
        List.filterMap_cons]
      unfold Request.addresses
      cases request.patch (shOffset + BitVec.ofNat 32 index * relSize) with
      | none => rfl
      | some word => rfl

theorem relocateSection_memory (header : Word) (loader : Loader)
    (file : (request.shdr header).shType = shtRel →
      (request.shdr header).shOffset.toNat + (request.shdr header).shSize.toNat ≤
        request.imageSize.toNat)
    (entsize : (request.shdr header).shType = shtRel →
      (request.shdr header).shEntsize = relSize) :
    (relocateSection request header loader).bus.memory =
      Memory.addToWords request.delta
        (request.addresses (request.sectionPatches (request.shdr header))) loader.bus.memory := by
  unfold Request.sectionPatches
  obtain ⟨reads, ⟨other, skipped⟩ | ⟨type, patched⟩⟩ :=
    relocateSection_cases request header loader
  · have notRel : (request.shdr header).shType ≠ shtRel := by
      intro type
      have small := file type
      have proper := request.imageSize.isLt
      have outside := other.resolve_left (not_not.mpr type)
      bv_omega
    rw [skipped, if_neg notRel]
    rfl
  · have nonzero : relSize ≠ 0 := by decide
    rw [patched, if_pos type, entsize type, if_pos nonzero, relocateAll_memory,
      List.range_eq_range']

theorem relocateSections_memory (wellFormed : request.WellFormed) {remaining index : Nat}
    (inside : index + remaining ≤ request.eShnum.toNat) (loader : Loader) :
    (relocateSections request request.eShoff remaining index loader).bus.memory =
      Memory.addToWords request.delta
        (request.addresses ((List.range' index remaining).flatMap fun number =>
          request.sectionPatches (request.sectionHeader number)))
        loader.bus.memory := by
  induction remaining generalizing index loader with
  | zero => rfl
  | succ remaining ih =>
      have here : index < request.eShnum.toNat := by omega
      rw [relocateSections, ih (by omega), relocateSection_memory request _ loader
        (wellFormed.relFile index here) (wellFormed.relEntsize index here),
        ← Memory.addToWords_append, List.range'_succ, List.flatMap_cons]
      unfold Request.addresses
      rw [← List.map_append]
      rfl

/-- The second half of the load adds the distance to every word named. -/
theorem finishLoad_memory (wellFormed : request.WellFormed) (loader : Loader) :
    (finishLoad request loader).1 = request.loadBase + (request.eEntry - request.linkBase) ∧
      (finishLoad request loader).2.bus.memory =
        Memory.addToWords request.delta (request.addresses request.patches)
          loader.bus.memory := by
  have number := wellFormed.sectionTable
  have sections : ∀ earlier : Loader,
      (relocateSections request request.eShoff request.eShnum.toNat 0 earlier).bus.memory =
        Memory.addToWords request.delta (request.addresses request.patches)
          earlier.bus.memory := by
    intro earlier
    rw [relocateSections_memory request wellFormed (by omega), Request.patches,
      List.range_eq_range']
  refine ⟨rfl, ?_⟩
  unfold finishLoad
  by_cases table : request.eShoff = 0
  · have none : request.eShnum = 0 := if_pos table
    have noWords : request.patches = [] := by
      rw [Request.patches, none]
      rfl
    have zero : request.image.read32 32 = 0 := table
    simp only [Loader.read32, zero, ne_eq, not_true_eq_false, ↓reduceIte, false_and]
    rw [noWords]
    rfl
  · have count : request.eShnum = (request.image 49 ++ request.image 48).setWidth 32 :=
      if_neg table
    have fits : request.eShoff + request.eShnum * shdrSize ≤ request.imageSize := by
      have proper := request.imageSize.isLt
      have product : (request.eShnum * shdrSize).toNat = request.eShnum.toNat * 40 := by
        rw [BitVec.toNat_mul, show shdrSize.toNat = 40 from rfl]
        omega
      bv_omega
    rw [count] at sections fits
    have nonzero : ¬ request.image.read32 32 = 0 := table
    simp only [Loader.read32, Loader.read16, nonzero, ne_eq, not_false_eq_true, ↓reduceIte,
      true_and]
    split
    · exact sections _
    · next outside => exact absurd fits outside

end Relocations

/-! ### Loading -/

theorem Request.WellFormed.headerAccepted {request : Request} (wellFormed : request.WellFormed) :
    request.HeaderAccepted := by
  refine ⟨wellFormed.size, wellFormed.format, ?_⟩
  have table := wellFormed.programTable
  have proper := request.imageSize.isLt
  have product : (request.ePhnum * phdrSize).toNat = request.ePhnum.toNat * 32 := by
    rw [BitVec.toNat_mul, show phdrSize.toNat = 32 from rfl]
    omega
  bv_omega

/-- The load succeeds; the window then holds the bytes placed, and the words of absolute addresses
are moved by the distance between window and link address. -/
structure Request.Relocated (request : Request) (entry : Word) (memory : Memory) : Prop where
  entry : entry = request.eEntry + (request.loadBase - request.linkBase)
  bytes : ∀ offset < request.windowSize.toNat,
    (∀ word ∈ request.patches, ¬ (word.toNat ≤ offset ∧ offset < word.toNat + 4)) →
    memory (request.loadBase + BitVec.ofNat 32 offset) = request.placed offset
  words : ∀ word ∈ request.patches, memory.read32 (request.loadBase + word) =
    request.placedWord word.toNat + (request.loadBase - request.linkBase)

theorem Request.patches_fit {request : Request} {word : Word} (member : word ∈ request.patches) :
    word.toNat + 4 ≤ request.windowSize.toNat := by
  obtain ⟨index, _, inSection⟩ := List.mem_flatMap.mp member
  unfold Request.sectionPatches at inSection
  split at inSection
  · obtain ⟨number, _, named⟩ := List.mem_filterMap.mp inSection
    exact patch_fits named
  · cases inSection

theorem elfLoad_relocated {request : Request} {memory : Memory} (wellFormed : request.WellFormed)
    (noWrap : request.NoWrap) (zeroed : request.Zeroed memory) :
    ∃ entry loader, elfLoad request memory = (.ok entry, loader) ∧
      request.Relocated entry loader.bus.memory := by
  obtain ⟨reads, _, ⟨refused, _⟩ | ⟨_, result⟩⟩ := elfLoad_cases request memory
  · exact absurd wellFormed.headerAccepted refused
  · obtain ⟨later, loaded, view⟩ := loadSegments_view wellFormed noWrap
      (show 0 + request.ePhnum.toNat ≤ _ by omega) ⟨⟨memory, []⟩, reads⟩ zeroed
    rw [Nat.zero_add] at view
    obtain ⟨entry, finished⟩ := finishLoad_memory request wellFormed later
    refine ⟨_, _, by rw [result, loaded], ?_, ?_, ?_⟩
    · rw [entry]
      bv_omega
    · intro offset below outside
      rw [finished, Memory.addToWords_eqOn]
      · exact view offset below
      · intro address member inside
        obtain ⟨word, named, rfl⟩ := List.mem_map.mp member
        have fits := Request.patches_fit named
        have bound := request.windowSize.isLt
        apply outside word named
        rw [mem_span] at inside
        unfold Request.NoWrap at noWrap
        bv_omega
    · intro word named
      have bound := request.windowSize.isLt
      have fits := Request.patches_fit named
      have apart : (request.addresses request.patches).Pairwise fun first second =>
          Disjoint (span first 4) (span second 4) := by
        refine List.pairwise_map.mpr (wellFormed.words.imp_of_mem ?_)
        intro first second firstNamed secondNamed order
        have firstFits := Request.patches_fit firstNamed
        have secondFits := Request.patches_fit secondNamed
        refine Set.disjoint_left.mpr fun address one two => ?_
        rw [mem_span] at one two
        unfold Request.NoWrap at noWrap
        bv_omega
      rw [finished, Memory.read32_addToWords _ _ apart (List.mem_map_of_mem named)]
      refine congrArg (· + request.delta) (wordOf_congr fun index inside => ?_)
      have place : request.loadBase + word + BitVec.ofNat 32 index =
          request.loadBase + BitVec.ofNat 32 (word.toNat + index) := by bv_omega
      rw [place]
      exact view (word.toNat + index) (by omega)

/-- Nothing that makes an image well-formed depends on where it is loaded. -/
theorem Request.WellFormed.rebase {request : Request} (wellFormed : request.WellFormed)
    (base : Word) : { request with loadBase := base }.WellFormed where
  size := wellFormed.size
  format := wellFormed.format
  programTable := wellFormed.programTable
  sectionTable := wellFormed.sectionTable
  file := wellFormed.file
  sizes := wellFormed.sizes
  window := wellFormed.window
  disjoint := wellFormed.disjoint
  relFile := wellFormed.relFile
  relEntsize := wellFormed.relEntsize
  words := wellFormed.words

theorem moved_twice (value base loadBase linkBase : Word) :
    value + (base - linkBase) = value + (loadBase - linkBase) + (base - loadBase) := by
  grind

/-- A well-formed image is loaded into a window of zeros as its headers say, and loads of it at
two addresses differ only in the words of absolute addresses and the entry point, by the distance
between the two addresses. -/
theorem elf_load_relocates (request : Request) (memory : Memory)
    (wellFormed : request.WellFormed) (noWrap : request.NoWrap)
    (zeroed : request.Zeroed memory) :
    ∃ entry loader, elfLoad request memory = (.ok entry, loader) ∧
      request.Relocated entry loader.bus.memory ∧
      ∀ base otherMemory, { request with loadBase := base }.NoWrap →
        { request with loadBase := base }.Zeroed otherMemory →
        ∃ otherEntry other,
          elfLoad { request with loadBase := base } otherMemory = (.ok otherEntry, other) ∧
          otherEntry = entry + (base - request.loadBase) ∧
          (∀ offset < request.windowSize.toNat,
            (∀ word ∈ request.patches, ¬ (word.toNat ≤ offset ∧ offset < word.toNat + 4)) →
            other.bus.memory (base + BitVec.ofNat 32 offset) =
              loader.bus.memory (request.loadBase + BitVec.ofNat 32 offset)) ∧
          ∀ word ∈ request.patches, other.bus.memory.read32 (base + word) =
            loader.bus.memory.read32 (request.loadBase + word) + (base - request.loadBase) := by
  obtain ⟨entry, loader, loaded, relocated⟩ := elfLoad_relocated wellFormed noWrap zeroed
  refine ⟨entry, loader, loaded, relocated, fun base otherMemory otherNoWrap otherZeroed => ?_⟩
  obtain ⟨otherEntry, other, otherLoaded, otherRelocated⟩ :=
    elfLoad_relocated (wellFormed.rebase base) otherNoWrap otherZeroed
  refine ⟨otherEntry, other, otherLoaded, ?_, fun offset below outside => ?_,
    fun word named => ?_⟩
  · have start : otherEntry = request.eEntry + (base - request.linkBase) := otherRelocated.entry
    rw [start, relocated.entry]
    exact moved_twice ..
  · exact (otherRelocated.bytes offset below outside).trans
      (relocated.bytes offset below outside).symm
  · have value : other.bus.memory.read32 (base + word) =
        request.placedWord word.toNat + (base - request.linkBase) :=
      otherRelocated.words word named
    rw [value, relocated.words word named]
    exact moved_twice ..

/-- An image with a segment of eight bytes in the file and twelve in memory, whose first word is
an absolute address, and a section with the relocation of that word. -/
def relocatableImage : Memory :=
  let fields : List (Word × Word) :=
    [(0, 0x464C457F), (4, 1), (16, 0x00030002), (24, 0x300004), (28, 52), (32, 96), (44, 1),
      (48, 1), (52, 1), (56, 84), (60, 0x300000), (68, 8), (72, 12), (84, 0x300008), (88, 0xC3),
      (100, 9), (112, 136), (116, 8), (132, 8), (136, 0x300000), (140, 1)]
  fields.foldl (fun image field => Memory.write32 image field.1 field.2) fun _ => 0

/-- Loading that image of 144 bytes into the second slot. -/
def secondSlot : Request where
  image := relocatableImage
  imageSize := 144
  loadBase := 0x330000
  windowSize := 0x20000
  linkBase := 0x300000

theorem secondSlot_wellFormed : secondSlot.WellFormed := by
  have segments : secondSlot.ePhnum.toNat = 1 := by decide +kernel
  have sections : secondSlot.eShnum.toNat = 1 := by decide +kernel
  have words : secondSlot.patches = [0] := by decide +kernel
  refine
    { size := by decide
      format := by unfold Request.HasFormat; decide +kernel
      programTable := by decide +kernel
      sectionTable := by decide +kernel
      file := ?_
      sizes := ?_
      window := ?_
      disjoint := fun first one second two _ _ _ => by omega
      relFile := ?_
      relEntsize := ?_
      words := words ▸ List.pairwise_singleton .. }
  · intro index below _
    obtain rfl : index = 0 := by omega
    decide +kernel
  · intro index below _
    obtain rfl : index = 0 := by omega
    decide +kernel
  · intro index below _
    obtain rfl : index = 0 := by omega
    decide +kernel
  · intro index below _
    obtain rfl : index = 0 := by omega
    decide +kernel
  · intro index below _
    obtain rfl : index = 0 := by omega
    decide +kernel

/-- The absolute address and the entry point are moved to the second slot. -/
theorem elf_load_relocates_second_slot : ∃ entry loader,
    elfLoad secondSlot (fun _ => 0) = (.ok entry, loader) ∧ entry = 0x330004 ∧
    loader.bus.memory.read32 0x330000 = 0x330008 ∧ loader.bus.memory 0x330004 = 0xC3 ∧
    loader.bus.memory 0x330008 = 0 := by
  have noWrap : secondSlot.NoWrap := by
    unfold Request.NoWrap
    decide
  have words : secondSlot.patches = [0] := by decide +kernel
  obtain ⟨entry, loader, loaded, relocated, _⟩ :=
    elf_load_relocates secondSlot (fun _ => 0) secondSlot_wellFormed noWrap fun _ _ => rfl
  refine ⟨entry, loader, loaded, relocated.entry.trans (by decide +kernel), ?_, ?_, ?_⟩
  · exact (relocated.words 0 (words ▸ List.mem_singleton_self _)).trans (by decide +kernel)
  · refine (relocated.bytes 4 (by decide) fun word named => ?_).trans (by decide +kernel)
    obtain rfl := List.mem_singleton.mp (words ▸ named)
    decide
  · refine (relocated.bytes 8 (by decide) fun word named => ?_).trans (by decide +kernel)
    obtain rfl := List.mem_singleton.mp (words ▸ named)
    decide

end MxOS.Elf
