import MxOS.Kernel.Elf

/-! # What the loader writes

The loader checks that the memory size of a segment fits in the window, but copies its
file size, which the image gives independently; and it does not check the entry point.
A load stays in its window if and only if the image has neither defect.
-/

namespace MxOS.Elf

open ByteMemory

/-- The address lies in the window of the request. -/
def Request.Within (request : Request) (address : Word) : Prop :=
  request.loadBase.toNat ≤ address.toNat ∧
    address.toNat < request.loadBase.toNat + request.windowSize.toNat

/-- The addresses written so far lie in the window. -/
def Request.Confines (request : Request) (loader : Loader) : Prop :=
  ∀ address ∈ loader.bus.accesses, request.Within address

theorem inWindow_iff {off len windowSize : Word} :
    inWindow off len windowSize = true ↔ off.toNat + len.toNat ≤ windowSize.toNat := by
  unfold inWindow
  split
  · simp only [Bool.false_eq_true, false_iff]
    bv_omega
  · split
    · simp only [Bool.false_eq_true, false_iff]
      bv_omega
    · simp only [true_iff]
      bv_omega

theorem copyBytes_accesses (image : Memory) (dest src : Word) (remaining index : Nat)
    (loader : Loader) :
    (copyBytes image dest src remaining index loader).bus.accesses =
      loader.bus.accesses ++ block (dest + BitVec.ofNat 32 index) remaining := by
  induction remaining generalizing index loader with
  | zero => simp [copyBytes]
  | succ remaining ih =>
      rw [copyBytes, ih, block_succ]
      simp only [Loader.read8, Bus.store, List.append_assoc, List.singleton_append]

theorem clearBytes_accesses (dest : Word) (remaining index : Nat) (loader : Loader) :
    (clearBytes dest remaining index loader).bus.accesses =
      loader.bus.accesses ++ block (dest + BitVec.ofNat 32 index) remaining := by
  induction remaining generalizing index loader with
  | zero => simp [clearBytes]
  | succ remaining ih =>
      rw [clearBytes, ih, block_succ]
      simp only [Bus.store, List.append_assoc, List.singleton_append]

/-! ### Segments -/

/-- A program header as `elf_load` reads it. -/
structure Phdr where
  pType : Word
  pOffset : Word
  pVaddr : Word
  pFilesz : Word
  pMemsz : Word

def Request.phdr (request : Request) (header : Word) : Phdr where
  pType := request.image.read32 header
  pOffset := request.image.read32 (header + 4)
  pVaddr := request.image.read32 (header + 8)
  pFilesz := request.image.read32 (header + 16)
  pMemsz := request.image.read32 (header + 20)

/-- The segment's place in the window. -/
def Request.destOff (request : Request) (segment : Phdr) : Word :=
  segment.pVaddr - request.linkBase

/-- The header passes the checks: it is not loadable, or its memory size fits in the window and
its end in the file, as far as 32-bit words tell. -/
def Request.Accepts (request : Request) (segment : Phdr) : Prop :=
  segment.pType = ptLoad →
    inWindow (request.destOff segment) segment.pMemsz request.windowSize = true ∧
      segment.pOffset + segment.pFilesz ≤ request.imageSize

/-- The file size of the segment fits in the window. -/
def Request.Fits (request : Request) (segment : Phdr) : Prop :=
  (request.destOff segment).toNat + segment.pFilesz.toNat ≤ request.windowSize.toNat

/-- The window does not wrap. -/
def Request.NoWrap (request : Request) : Prop :=
  request.loadBase.toNat + request.windowSize.toNat ≤ 2 ^ 32

/-- Copying the file size and clearing up to the memory size, which fits in the window. -/
theorem copy_clear_confines {request : Request} (noWrap : request.NoWrap) {segment : Phdr}
    (fits : inWindow (request.destOff segment) segment.pMemsz request.windowSize = true)
    (loader : Loader) :
    let dest := request.loadBase + request.destOff segment
    let copied := copyBytes request.image dest segment.pOffset segment.pFilesz.toNat 0 loader
    request.Confines (clearBytes dest (segment.pMemsz.toNat - segment.pFilesz.toNat)
        segment.pFilesz.toNat copied) ↔
      request.Confines loader ∧ request.Fits segment := by
  intro dest copied
  have proper := request.windowSize.isLt
  have memory := inWindow_iff.mp fits
  have copy : (∀ address ∈ block dest segment.pFilesz.toNat, request.Within address) ↔
      request.Fits segment := block_within_iff noWrap proper (by omega)
  have clear : ∀ address ∈ block (dest + BitVec.ofNat 32 segment.pFilesz.toNat)
      (segment.pMemsz.toNat - segment.pFilesz.toNat), request.Within address := by
    by_cases rest : segment.pFilesz.toNat < segment.pMemsz.toNat
    · have offset : (request.destOff segment + segment.pFilesz).toNat =
          (request.destOff segment).toNat + segment.pFilesz.toNat := by bv_omega
      have place : dest + BitVec.ofNat 32 segment.pFilesz.toNat =
          request.loadBase + (request.destOff segment + segment.pFilesz) := by
        rw [BitVec.ofNat_toNat, BitVec.setWidth_eq, BitVec.add_assoc]
      rw [place]
      exact (block_within_iff noWrap proper (by omega)).mpr (by omega)
    · rw [Nat.sub_eq_zero_of_le (Nat.not_lt.mp rest)]
      exact fun _ member => nomatch member
  unfold Request.Confines
  rw [clearBytes_accesses, copyBytes_accesses, List.forall_mem_append, List.forall_mem_append,
    BitVec.add_zero]
  exact ⟨fun ⟨⟨before, within⟩, _⟩ => ⟨before, copy.mp within⟩,
    fun ⟨before, within⟩ => ⟨⟨before, copy.mpr within⟩, clear⟩⟩

/-- A header is skipped, refused, or its segment is copied and cleared. -/
theorem loadSegment_cases (request : Request) (header : Word) (loader : Loader) :
    let segment := request.phdr header
    let dest := request.loadBase + request.destOff segment
    ∃ reads, (segment.pType ≠ ptLoad ∧
        loadSegment request header loader = (.ok (), { loader with reads := reads })) ∨
      (¬ request.Accepts segment ∧ ∃ reason,
        loadSegment request header loader = (.error reason, { loader with reads := reads })) ∨
      (segment.pType = ptLoad ∧ request.Accepts segment ∧
        loadSegment request header loader =
          (.ok (), clearBytes dest (segment.pMemsz.toNat - segment.pFilesz.toNat)
            segment.pFilesz.toNat (copyBytes request.image dest segment.pOffset
              segment.pFilesz.toNat 0 { loader with reads := reads }))) := by
  intro segment dest
  unfold loadSegment
  by_cases load : segment.pType = ptLoad
  · have loadable : ¬ segment.pType ≠ ptLoad := not_not.mpr load
    by_cases window : inWindow (request.destOff segment) segment.pMemsz request.windowSize = true
    · have inside : ¬ (!inWindow (request.destOff segment) segment.pMemsz
          request.windowSize) = true := by simp [window]
      by_cases file : segment.pOffset + segment.pFilesz > request.imageSize
      · refine ⟨_, Or.inr (Or.inl ⟨fun accepts => ?_, _,
          (if_neg loadable).trans ((if_neg inside).trans (if_pos file))⟩)⟩
        exact absurd (accepts load).2 (BitVec.not_le.mpr file)
      · exact ⟨_, Or.inr (Or.inr ⟨load, fun _ => ⟨window, BitVec.not_lt.mp file⟩,
          (if_neg loadable).trans ((if_neg inside).trans (if_neg file))⟩)⟩
    · have outside : (!inWindow (request.destOff segment) segment.pMemsz
          request.windowSize) = true := by simpa using window
      exact ⟨_, Or.inr (Or.inl ⟨fun accepts => window (accepts load).1, _,
        (if_neg loadable).trans (if_pos outside)⟩)⟩
  · exact ⟨_, Or.inl ⟨load, if_pos load⟩⟩

theorem loadSegment_ok (request : Request) (header : Word) (loader : Loader) :
    (loadSegment request header loader).1 = .ok () ↔ request.Accepts (request.phdr header) := by
  obtain ⟨reads, ⟨skipped, result⟩ | ⟨refused, reason, result⟩ | ⟨load, accepts, result⟩⟩ :=
    loadSegment_cases request header loader
  · rw [result]
    exact iff_of_true rfl fun load => absurd load skipped
  · rw [result]
    exact iff_of_false (fun ok => nomatch ok) refused
  · rw [result]
    exact iff_of_true rfl accepts

theorem loadSegment_confines {request : Request} (noWrap : request.NoWrap) (header : Word)
    (loader : Loader) :
    request.Confines (loadSegment request header loader).2 ↔
      request.Confines loader ∧
        ((request.phdr header).pType = ptLoad → request.Accepts (request.phdr header) →
          request.Fits (request.phdr header)) := by
  obtain ⟨reads, ⟨skipped, result⟩ | ⟨refused, reason, result⟩ | ⟨load, accepts, result⟩⟩ :=
    loadSegment_cases request header loader
  · rw [result]
    exact ⟨fun confines => ⟨confines, fun load => absurd load skipped⟩, And.left⟩
  · rw [result]
    exact ⟨fun confines => ⟨confines, fun _ accepts => absurd accepts refused⟩, And.left⟩
  · rw [result]
    refine (copy_clear_confines noWrap (accepts load).1 _).trans ?_
    exact and_congr_right fun _ => ⟨fun fits _ _ => fits, fun fits => fits load accepts⟩

/-- The program header of the given number. -/
def Request.segment (request : Request) (ePhoff : Word) (index : Nat) : Phdr :=
  request.phdr (ePhoff + BitVec.ofNat 32 index * phdrSize)

theorem loadSegments_ok (request : Request) (ePhoff : Word) (remaining index : Nat)
    (loader : Loader) :
    (loadSegments request ePhoff remaining index loader).1 = .ok () ↔
      ∀ number, index ≤ number → number < index + remaining →
        request.Accepts (request.segment ePhoff number) := by
  induction remaining generalizing index loader with
  | zero => exact iff_of_true rfl fun number low high => absurd high (by omega)
  | succ remaining ih =>
      have accepted : _ ↔ request.Accepts (request.segment ePhoff index) :=
        loadSegment_ok request (ePhoff + BitVec.ofNat 32 index * phdrSize) loader
      rw [loadSegments]
      rcases step : loadSegment request (ePhoff + BitVec.ofNat 32 index * phdrSize) loader with
        ⟨reason | done, later⟩
      · rw [step] at accepted
        refine iff_of_false (fun ok => nomatch ok) fun all => ?_
        exact absurd (accepted.mpr (all index (by omega) (by omega))) (fun ok => nomatch ok)
      · rw [step] at accepted
        refine (ih (index + 1) later).trans
          ⟨fun all number low high => ?_,
            fun all number low high => all number (by omega) (by omega)⟩
        by_cases first : number = index
        · rw [first]
          exact accepted.mp rfl
        · exact all number (by omega) (by omega)

/-- What the loop does is well if every header that is reached does well: those up to the first
that is refused. -/
theorem loadSegments_reached {request : Request} {ePhoff : Word} {Well : Loader → Prop}
    {Does : Nat → Prop}
    (step : ∀ index loader,
      Well (loadSegment request (ePhoff + BitVec.ofNat 32 index * phdrSize) loader).2 ↔
        Well loader ∧ Does index)
    (remaining index : Nat) (loader : Loader) :
    Well (loadSegments request ePhoff remaining index loader).2 ↔
      Well loader ∧ ∀ number, index ≤ number → number < index + remaining →
        (∀ earlier, index ≤ earlier → earlier < number →
          request.Accepts (request.segment ePhoff earlier)) → Does number := by
  induction remaining generalizing index loader with
  | zero => exact ⟨fun well => ⟨well, fun number low high => absurd high (by omega)⟩, And.left⟩
  | succ remaining ih =>
      have accepted : _ ↔ request.Accepts (request.segment ePhoff index) :=
        loadSegment_ok request (ePhoff + BitVec.ofNat 32 index * phdrSize) loader
      have does := step index loader
      rw [loadSegments]
      rcases body : loadSegment request (ePhoff + BitVec.ofNat 32 index * phdrSize) loader with
        ⟨reason | done, later⟩
      · -- A refused header ends the loop: no later one is reached.
        rw [body] at accepted does
        have refused : ¬ request.Accepts (request.segment ePhoff index) := fun accepts =>
          absurd (accepted.mpr accepts) (fun ok => nomatch ok)
        refine does.trans (and_congr_right fun _ => ⟨fun here number low high reached => ?_,
          fun all => all index (by omega) (by omega)
            fun earlier low high => absurd high (by omega)⟩)
        by_cases first : number = index
        · exact first ▸ here
        · exact absurd (reached index (by omega) (by omega)) refused
      · rw [body] at accepted does
        have accepts : request.Accepts (request.segment ePhoff index) := accepted.mp rfl
        refine (ih (index + 1) later).trans ?_
        rw [show Well later ↔ _ from does, and_assoc]
        refine and_congr_right fun _ => ⟨fun ⟨here, all⟩ number low high reached => ?_,
          fun all => ⟨?_, fun number low high reached => ?_⟩⟩
        · by_cases first : number = index
          · exact first ▸ here
          · exact all number (by omega) (by omega) fun earlier after before =>
              reached earlier (by omega) before
        · exact all index (by omega) (by omega) fun earlier after before =>
            absurd before (by omega)
        · refine all number (by omega) (by omega) fun earlier after before => ?_
          by_cases first : earlier = index
          · exact first ▸ accepts
          · exact reached earlier (by omega) before

/-! ### Relocations -/

/-- The offset of the word that the relocation entry names, if it is of type `R_386_32` and the
word falls in the window. -/
def Request.patch (request : Request) (entry : Word) : Option Word :=
  if request.image.read32 (entry + 4) &&& 0xFF = r38632 ∧
      inWindow (request.image.read32 entry - request.linkBase) 4 request.windowSize = true then
    some (request.image.read32 entry - request.linkBase)
  else none

/-- The distance that relocated words are moved by. -/
def Request.delta (request : Request) : Word := request.loadBase - request.linkBase

/-- A relocation is skipped, or it patches a word inside the window. -/
theorem relocate_cases (request : Request) (entry : Word) (loader : Loader) :
    ∃ reads, (request.patch entry = none ∧
        relocate request entry loader = { loader with reads := reads }) ∨
      ∃ destOff, request.patch entry = some destOff ∧
        relocate request entry loader =
          ⟨loader.bus.store32 (request.loadBase + destOff)
            (loader.bus.memory.read32 (request.loadBase + destOff) + request.delta), reads⟩ := by
  unfold relocate Request.patch
  by_cases type : request.image.read32 (entry + 4) &&& 0xFF ≠ r38632
  · exact ⟨_, Or.inl ⟨if_neg fun both => type both.1, if_pos type⟩⟩
  · by_cases inside : inWindow (request.image.read32 entry - request.linkBase) 4
        request.windowSize = true
    · have notOutside : ¬ (!inWindow (request.image.read32 entry - request.linkBase) 4
          request.windowSize) = true := by
        rw [inside]
        exact Bool.false_ne_true
      exact ⟨_, Or.inr ⟨_, if_pos ⟨not_not.mp type, inside⟩,
        (if_neg type).trans (if_neg notOutside)⟩⟩
    · have outside : (!inWindow (request.image.read32 entry - request.linkBase) 4
          request.windowSize) = true := by simpa using inside
      exact ⟨_, Or.inl ⟨if_neg fun both => inside both.2, (if_neg type).trans (if_pos outside)⟩⟩

theorem patch_fits {request : Request} {entry destOff : Word}
    (named : request.patch entry = some destOff) :
    destOff.toNat + 4 ≤ request.windowSize.toNat := by
  unfold Request.patch at named
  split at named
  · next absolute =>
      obtain rfl := Option.some.inj named
      exact inWindow_iff.mp absolute.2
  · cases named

theorem relocate_confines {request : Request} (noWrap : request.NoWrap) (entry : Word)
    (loader : Loader) : request.Confines (relocate request entry loader) ↔
      request.Confines loader := by
  obtain ⟨reads, ⟨_, skipped⟩ | ⟨destOff, named, patched⟩⟩ :=
    relocate_cases request entry loader
  · rw [skipped]
    rfl
  · have fits := patch_fits named
    have within : ∀ address ∈ block (request.loadBase + destOff) 4, request.Within address :=
      (block_within_iff noWrap request.windowSize.isLt (by omega)).mpr fits
    rw [patched]
    simp only [Request.Confines, Bus.store32, List.forall_mem_append]
    exact and_iff_left within

theorem relocateAll_confines {request : Request} (noWrap : request.NoWrap) (shOffset : Word)
    (remaining index : Nat) (loader : Loader) :
    request.Confines (relocateAll request shOffset remaining index loader) ↔
      request.Confines loader := by
  induction remaining generalizing index loader with
  | zero => rfl
  | succ remaining ih => rw [relocateAll, ih, relocate_confines noWrap]

/-- A section header as `elf_load` reads it. -/
structure Shdr where
  shType : Word
  shOffset : Word
  shSize : Word
  shEntsize : Word

def Request.shdr (request : Request) (header : Word) : Shdr where
  shType := request.image.read32 (header + 4)
  shOffset := request.image.read32 (header + 16)
  shSize := request.image.read32 (header + 20)
  shEntsize := request.image.read32 (header + 36)

/-- A section is skipped, or it holds relocations and all of them are made. -/
theorem relocateSection_cases (request : Request) (header : Word) (loader : Loader) :
    let shdr := request.shdr header
    ∃ reads, ((shdr.shType ≠ shtRel ∨ shdr.shOffset + shdr.shSize > request.imageSize) ∧
        relocateSection request header loader = { loader with reads := reads }) ∨
      (shdr.shType = shtRel ∧ relocateSection request header loader =
        relocateAll request shdr.shOffset
          (if shdr.shEntsize ≠ 0 then shdr.shSize / shdr.shEntsize else 0).toNat 0
          { loader with reads := reads }) := by
  intro shdr
  unfold relocateSection
  by_cases type : shdr.shType ≠ shtRel
  · exact ⟨_, Or.inl ⟨Or.inl type, if_pos type⟩⟩
  · by_cases outside : shdr.shOffset + shdr.shSize > request.imageSize
    · exact ⟨_, Or.inl ⟨Or.inr outside, (if_neg type).trans (if_pos outside)⟩⟩
    · exact ⟨_, Or.inr ⟨not_not.mp type, (if_neg type).trans (if_neg outside)⟩⟩

theorem relocateSection_confines {request : Request} (noWrap : request.NoWrap) (header : Word)
    (loader : Loader) : request.Confines (relocateSection request header loader) ↔
      request.Confines loader := by
  obtain ⟨reads, ⟨_, skipped⟩ | ⟨_, patched⟩⟩ := relocateSection_cases request header loader
  · rw [skipped]
    rfl
  · rw [patched]
    exact relocateAll_confines noWrap ..

theorem relocateSections_confines {request : Request} (noWrap : request.NoWrap) (eShoff : Word)
    (remaining index : Nat) (loader : Loader) :
    request.Confines (relocateSections request eShoff remaining index loader) ↔
      request.Confines loader := by
  induction remaining generalizing index loader with
  | zero => rfl
  | succ remaining ih => rw [relocateSections, ih, relocateSection_confines noWrap]

theorem finishLoad_confines {request : Request} (noWrap : request.NoWrap) (loader : Loader) :
    request.Confines (finishLoad request loader).2 ↔ request.Confines loader := by
  unfold finishLoad
  by_cases table : request.image.read32 32 = 0
  · simp only [Loader.read32, table, ne_eq, not_true_eq_false, ↓reduceIte, false_and]
    rfl
  · simp only [Loader.read32, Loader.read16, table, ne_eq, not_false_eq_true, ↓reduceIte, true_and]
    split
    · exact relocateSections_confines noWrap ..
    · rfl

/-! ### Loading -/

/-- The header has the bytes and the machine that `elf_load` compares with. -/
def Request.HasFormat (request : Request) : Prop :=
  request.image 0 = 0x7F ∧ request.image 1 = 0x45 ∧ request.image 2 = 0x4C ∧
    request.image 3 = 0x46 ∧ request.image 4 = 1 ∧
    (request.image 19 ++ request.image 18).setWidth 32 = (3 : Word)

def Request.ePhoff (request : Request) : Word := request.image.read32 28

def Request.ePhnum (request : Request) : Word :=
  (request.image 45 ++ request.image 44).setWidth 32

def Request.eEntry (request : Request) : Word := request.image.read32 24

/-- The checks made before the first segment pass. -/
structure Request.HeaderAccepted (request : Request) : Prop where
  size : ehdrSize ≤ request.imageSize
  format : request.HasFormat
  table : request.ePhoff + request.ePhnum * phdrSize ≤ request.imageSize

/-- What the loader relies on and does not check: every loadable segment it reaches and accepts
has a file size that fits in the window, and when it accepts all, the entry point lies in the
window. -/
structure Request.Sound (request : Request) : Prop where
  fits : ∀ index < request.ePhnum.toNat,
    (∀ earlier < index, request.Accepts (request.segment request.ePhoff earlier)) →
    (request.segment request.ePhoff index).pType = ptLoad →
    request.Accepts (request.segment request.ePhoff index) →
    request.Fits (request.segment request.ePhoff index)
  entry : (∀ index < request.ePhnum.toNat,
      request.Accepts (request.segment request.ePhoff index)) →
    request.eEntry - request.linkBase < request.windowSize

theorem checkIdent_spec (image : Memory) (expected : List (Word × Byte)) (loader : Loader) :
    ∃ reads, (∀ offset ∈ reads, offset ∈ loader.reads ∨ offset ∈ expected.map Prod.fst) ∧
      Loader.checkIdent image expected loader =
        (expected.all fun field => image field.1 = field.2, { loader with reads := reads }) := by
  induction expected generalizing loader with
  | nil => exact ⟨_, fun offset member => Or.inl member, rfl⟩
  | cons field rest ih =>
      obtain ⟨offset, value⟩ := field
      have first : ∀ query ∈ loader.reads ++ [offset],
          query ∈ loader.reads ∨ query ∈ ((offset, value) :: rest).map Prod.fst := by
        intro query member
        exact (List.mem_append.mp member).imp_right fun here =>
          List.mem_cons.mpr (Or.inl (List.mem_singleton.mp here))
      by_cases same : image offset = value
      · obtain ⟨reads, known, checked⟩ := ih (loader.read8 image offset).2
        refine ⟨reads, fun query member => ?_, ?_⟩
        · rcases known query member with earlier | later
          · exact first query earlier
          · exact Or.inr (List.mem_cons_of_mem _ later)
        · rw [Loader.checkIdent]
          simp only [Loader.read8, same, ne_eq, not_true_eq_false, ↓reduceIte, List.all_cons,
            decide_true, Bool.true_and]
          exact checked
      · refine ⟨loader.reads ++ [offset], first, ?_⟩
        rw [Loader.checkIdent]
        simp only [Loader.read8, same, ne_eq, not_false_eq_true, ↓reduceIte, List.all_cons,
          decide_false, Bool.false_and]

/-- The format is checked within the first 20 bytes. -/
theorem checkFormat_spec (request : Request) (loader : Loader) :
    ∃ reads, (∀ offset ∈ reads, offset ∈ loader.reads ∨ offset < 20) ∧
      (loader.checkFormat request.image).2 = { loader with reads := reads } ∧
      ((loader.checkFormat request.image).1 = true ↔ request.HasFormat) := by
  unfold Loader.checkFormat Request.HasFormat
  obtain ⟨reads, known, checked⟩ := checkIdent_spec request.image
    [(0, 0x7F), (1, 0x45), (2, 0x4C), (3, 0x46), (4, 1)] loader
  have ident : ∀ offset ∈ reads, offset ∈ loader.reads ∨ offset < 20 := by
    intro offset member
    refine (known offset member).imp_right fun named => ?_
    have low : ([0, 1, 2, 3, 4] : List Word).all (· < 20) = true := by decide
    exact of_decide_eq_true (List.all_eq_true.mp low offset named)
  rw [checked]
  by_cases same : request.image 0 = 0x7F ∧ request.image 1 = 0x45 ∧ request.image 2 = 0x4C ∧
      request.image 3 = 0x46 ∧ request.image 4 = 1
  · simp only [same, List.all_cons, List.all_nil, decide_true, Bool.and_self,
      Loader.read16]
    refine ⟨_, fun offset member => ?_, rfl, decide_eq_true_iff.trans ?_⟩
    · rcases List.mem_append.mp member with earlier | machine
      · exact ident offset earlier
      · have low : (block 18 2).all (· < 20) = true := by decide
        exact Or.inr (of_decide_eq_true (List.all_eq_true.mp low offset machine))
    · simp only [true_and]
      rfl
  · have mismatch : ([(0, 0x7F), (1, 0x45), (2, 0x4C), (3, 0x46), (4, 1)] :
        List (Word × Byte)).all (fun field => request.image field.1 = field.2) = false := by
      apply Bool.eq_false_iff.mpr
      intro all
      simp only [List.all_cons, List.all_nil, Bool.and_true, Bool.and_eq_true,
        decide_eq_true_eq] at all
      exact same all
    rw [mismatch]
    refine ⟨reads, ident, rfl, iff_of_false Bool.false_ne_true fun all => same ?_⟩
    exact ⟨all.1, all.2.1, all.2.2.1, all.2.2.2.1, all.2.2.2.2.1⟩

theorem within_entry {request : Request} (noWrap : request.NoWrap) (offset : Word) :
    request.Within (request.loadBase + offset) ↔ offset < request.windowSize := by
  unfold Request.NoWrap at noWrap
  unfold Request.Within
  have proper := request.windowSize.isLt
  bv_omega

/-- The header is refused and nothing written, or the segments are loaded. Only the header, which
is inside the file, has been read. -/
theorem elfLoad_cases (request : Request) (memory : Memory) :
    ∃ reads, (∀ offset ∈ reads, offset < request.imageSize) ∧
      ((¬ request.HeaderAccepted ∧ ∃ reason,
        elfLoad request memory = (.error reason, ⟨⟨memory, []⟩, reads⟩)) ∨
      (request.HeaderAccepted ∧ elfLoad request memory =
        match loadSegments request request.ePhoff request.ePhnum.toNat 0
          ⟨⟨memory, []⟩, reads⟩ with
        | (.error reason, loader) => (.error reason, loader)
        | (.ok (), loader) =>
            (.ok (finishLoad request loader).1, (finishLoad request loader).2))) := by
  unfold elfLoad
  by_cases short : request.imageSize < ehdrSize
  · exact ⟨[], fun _ member => absurd member List.not_mem_nil, Or.inl
      ⟨fun accepted => absurd accepted.size (BitVec.not_le.mpr short), _, if_pos short⟩⟩
  · simp only [short, ↓reduceIte]
    obtain ⟨reads, known, checked, format⟩ := checkFormat_spec request ⟨⟨memory, []⟩, []⟩
    have low : ∀ offset < ehdrSize, offset < request.imageSize := by
      intro offset below
      bv_omega
    have ident : ∀ offset ∈ reads, offset < request.imageSize := by
      intro offset member
      have below := (known offset member).resolve_left List.not_mem_nil
      exact low offset (by bv_omega)
    have table : ∀ offset ∈ reads ++ block 28 4 ++ block 44 2, offset < request.imageSize := by
      intro offset member
      have fields : (block 28 4 ++ block 44 2).all (· < ehdrSize) = true := by decide
      rw [List.append_assoc] at member
      exact (List.mem_append.mp member).elim (ident offset) fun field =>
        low offset (of_decide_eq_true (List.all_eq_true.mp fields offset field))
    generalize Loader.checkFormat request.image ⟨⟨memory, []⟩, []⟩ = outcome at checked format ⊢
    obtain ⟨_ | _, loader⟩ := outcome
    · obtain rfl : loader = _ := checked
      exact ⟨reads, ident, Or.inl
        ⟨fun accepted => Bool.false_ne_true (format.mpr accepted.format), _, rfl⟩⟩
    · obtain rfl : loader = _ := checked
      by_cases outside : request.ePhoff + request.ePhnum * phdrSize > request.imageSize
      · exact ⟨_, table, Or.inl
          ⟨fun accepted => absurd accepted.table (BitVec.not_le.mpr outside), _, if_pos outside⟩⟩
      · exact ⟨_, table, Or.inr
          ⟨⟨BitVec.not_lt.mp short, format.mp rfl, BitVec.not_lt.mp outside⟩, if_neg outside⟩⟩

/-- A load stays in its window, whatever it returns, and returns an entry point in the window if
and only if the header is refused or the image is sound. -/
theorem elf_load_confined_iff (request : Request) (memory : Memory) (noWrap : request.NoWrap) :
    ((∀ address ∈ (elfLoad request memory).2.bus.accesses, request.Within address) ∧
      ∀ entry, (elfLoad request memory).1 = .ok entry → request.Within entry) ↔
      (request.HeaderAccepted → request.Sound) := by
  obtain ⟨reads, _, ⟨refused, reason, result⟩ | ⟨accepted, result⟩⟩ := elfLoad_cases request memory
  · rw [result]
    exact iff_of_true ⟨fun _ member => (nomatch member), fun _ ok => (nomatch ok)⟩
      fun accepted => absurd accepted refused
  · rw [result, imp_iff_right accepted]
    have ok := loadSegments_ok request request.ePhoff request.ePhnum.toNat 0
      ⟨⟨memory, []⟩, reads⟩
    have confines := loadSegments_reached
      (fun index => loadSegment_confines noWrap (request.ePhoff + BitVec.ofNat 32 index * phdrSize))
      request.ePhnum.toNat 0 ⟨⟨memory, []⟩, reads⟩
    have fresh : request.Confines ⟨⟨memory, []⟩, reads⟩ := fun _ member => (nomatch member)
    simp only [fresh, true_and, Nat.zero_add, Nat.zero_le, forall_const] at ok confines
    generalize loadSegments request request.ePhoff request.ePhnum.toNat 0
      ⟨⟨memory, []⟩, reads⟩ = outcome at ok confines ⊢
    obtain ⟨reason | done, loader⟩ := outcome
    · have notAll : ¬ ∀ index < request.ePhnum.toNat,
          request.Accepts (request.segment request.ePhoff index) := fun all =>
        (nomatch ok.mpr all)
      exact ⟨fun ⟨written, _⟩ => ⟨confines.mp written, fun all => absurd all notAll⟩,
        fun sound => ⟨confines.mpr sound.fits, fun _ ok => (nomatch ok)⟩⟩
    · have all := ok.mp rfl
      have written := (finishLoad_confines noWrap loader).trans confines
      have entry := within_entry noWrap (request.eEntry - request.linkBase)
      constructor
      · rintro ⟨inside, start⟩
        exact ⟨written.mp inside, fun _ => entry.mp (start _ rfl)⟩
      · intro sound
        refine ⟨written.mpr sound.fits, fun value returned => ?_⟩
        obtain rfl := Except.ok.inj returned
        exact entry.mpr (sound.entry all)

/-- An image of a header and one loadable segment, with the given address, file and memory sizes
and entry point. -/
def smallImage (pVaddr pFilesz pMemsz eEntry : Word) : Memory :=
  let fields : List (Word × Word) :=
    [(0, 0x464C457F), (4, 1), (16, 0x00030002), (24, eEntry), (28, 52), (44, 1),
      (52, 1), (60, pVaddr), (68, pFilesz), (72, pMemsz)]
  fields.foldl (fun image field => Memory.write32 image field.1 field.2) fun _ => 0

/-- Loading an image of 84 bytes into the first slot. -/
def firstSlot (image : Memory) : Request where
  image := image
  imageSize := 84
  loadBase := 0x300000
  windowSize := 0x20000
  linkBase := 0x300000

/-- A segment of two bytes in the file and four in memory is loaded into the window. -/
theorem elf_load_confined_small :
    let request := firstSlot (smallImage 0x300000 2 4 0x300000)
    (elfLoad request fun _ => 0).2.bus.accesses = [0x300000, 0x300001, 0x300002, 0x300003] ∧
      (∀ address ∈ (elfLoad request fun _ => 0).2.bus.accesses, request.Within address) ∧
      ∀ entry, (elfLoad request fun _ => 0).1 = .ok entry → request.Within entry := by
  have noWrap : (firstSlot (smallImage 0x300000 2 4 0x300000)).NoWrap := by
    unfold Request.NoWrap
    decide
  refine ⟨by decide +kernel, (elf_load_confined_iff _ _ noWrap).mpr fun _ => ⟨?_, fun _ => ?_⟩⟩
  · intro index below _ _ _
    have one : (firstSlot (smallImage 0x300000 2 4 0x300000)).ePhnum.toNat = 1 := by
      decide +kernel
    obtain rfl : index = 0 := by omega
    unfold Request.Fits
    decide +kernel
  · decide +kernel

/-- A segment without memory at the end of the window is accepted, and its two bytes are copied
behind the window. An entry point outside the window is returned as it is. -/
theorem oversized_segment_escapes :
    let request := firstSlot (smallImage 0x320000 2 0 0x300000)
    let jumping := firstSlot (smallImage 0x300000 2 4 0x10)
    (0x320000 ∈ (elfLoad request fun _ => 0).2.bus.accesses ∧ ¬ request.Within 0x320000) ∧
      (elfLoad jumping fun _ => 0).1.toOption = some 0x10 ∧ ¬ jumping.Within 0x10 ∧
      ¬ ((∀ address ∈ (elfLoad request fun _ => 0).2.bus.accesses, request.Within address) ∧
        ∀ entry, (elfLoad request fun _ => 0).1 = .ok entry → request.Within entry) := by
  intro request jumping
  have written : 0x320000 ∈ (elfLoad request fun _ => 0).2.bus.accesses := by decide +kernel
  have behind : ¬ request.Within 0x320000 := by
    unfold Request.Within
    decide
  refine ⟨⟨written, behind⟩, by decide +kernel, ?_, fun confined => ?_⟩
  · unfold Request.Within
    decide
  · exact behind (confined.1 _ written)

end MxOS.Elf
