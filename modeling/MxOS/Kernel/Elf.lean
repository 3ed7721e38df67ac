import MxOS.Lib.Bus

/-! # The ELF loader

`kernel/elf.c`: `elf_load` copies the loadable segments of an ELF32 image into the window
of memory from `load_base` on and adds `load_base - link_base` to the absolute addresses
in them. All sizes and offsets are 32-bit words that wrap.

The image is read through its offsets, also where these are beyond its end. The offsets
read and the addresses written are recorded.
-/

namespace MxOS.Elf

open ByteMemory

/-- The arguments of `elf_load`. -/
structure Request where
  image : Memory
  imageSize : Word
  loadBase : Word
  windowSize : Word
  linkBase : Word

/-- The reasons `elf_load` prints before it returns 0. -/
inductive LoadError where
  | tooShort
  | unexpectedFormat
  | programTableOutsideFile
  | segmentOutsideWindow
  | segmentOutsideFile
  deriving DecidableEq

def LoadError.text : LoadError → String
  | .tooShort => "ELF invalide : fichier trop court.\n"
  | .unexpectedFormat => "ELF invalide : signature/format inattendu.\n"
  | .programTableOutsideFile => "ELF invalide : table de programme hors fichier.\n"
  | .segmentOutsideWindow => "ELF invalide : segment PT_LOAD hors de la fenetre memoire.\n"
  | .segmentOutsideFile => "ELF invalide : segment PT_LOAD hors du fichier.\n"

/-- The memory with the addresses written, and the offsets of the image read. -/
structure Loader where
  bus : Bus
  reads : List Word

abbrev ehdrSize : Word := 52
abbrev phdrSize : Word := 32
abbrev shdrSize : Word := 40
abbrev relSize : Word := 8

def ptLoad : Word := 1
def shtRel : Word := 9
def r38632 : Word := 1

/-! ### Reading the image -/

namespace Loader

variable (image : Memory) (offset : Word) (loader : Loader)

def read8 : Byte × Loader :=
  (image offset, { loader with reads := loader.reads ++ [offset] })

def read16 : Word × Loader :=
  ((image (offset + 1) ++ image offset).setWidth 32,
    { loader with reads := loader.reads ++ block offset 2 })

def read32 : Word × Loader :=
  (image.read32 offset, { loader with reads := loader.reads ++ block offset 4 })

/-- The comparisons with the bytes of `e_ident`, up to the first that fails. -/
def checkIdent : List (Word × Byte) → Loader → Bool × Loader
  | [], loader => (true, loader)
  | (offset, value) :: rest, loader =>
      let (byte, loader) := loader.read8 image offset
      if byte ≠ value then (false, loader) else checkIdent rest loader

def checkFormat : Bool × Loader :=
  match checkIdent image [(0, 0x7F), (1, 0x45), (2, 0x4C), (3, 0x46), (4, 1)] loader with
  | (false, loader) => (false, loader)
  | (true, loader) =>
      let (eMachine, loader) := loader.read16 image 18
      (eMachine = 3, loader)

end Loader

/-! ### Segments -/

def inWindow (off len windowSize : Word) : Bool :=
  if len > windowSize then false
  else if off > windowSize - len then false
  else true

/-- The loop that copies `remaining` bytes from byte `index` of a segment on. -/
def copyBytes (image : Memory) (dest src : Word) : Nat → Nat → Loader → Loader
  | 0, _, loader => loader
  | remaining + 1, index, loader =>
      let (byte, loader) := loader.read8 image (src + BitVec.ofNat 32 index)
      copyBytes image dest src remaining (index + 1)
        { loader with bus := loader.bus.store (dest + BitVec.ofNat 32 index) byte }

/-- The loop that clears the rest of a segment. -/
def clearBytes (dest : Word) : Nat → Nat → Loader → Loader
  | 0, _, loader => loader
  | remaining + 1, index, loader =>
      clearBytes dest remaining (index + 1)
        { loader with bus := loader.bus.store (dest + BitVec.ofNat 32 index) 0 }

/-- The body of the loop over the program headers, for the header at the given offset. -/
def loadSegment (request : Request) (header : Word) (loader : Loader) :
    Except LoadError Unit × Loader :=
  let (pType, loader) := loader.read32 request.image header
  if pType ≠ ptLoad then (.ok (), loader)
  else
    let (pVaddr, loader) := loader.read32 request.image (header + 8)
    let (pMemsz, loader) := loader.read32 request.image (header + 20)
    let destOff := pVaddr - request.linkBase
    if !inWindow destOff pMemsz request.windowSize then (.error .segmentOutsideWindow, loader)
    else
      let (pOffset, loader) := loader.read32 request.image (header + 4)
      let (pFilesz, loader) := loader.read32 request.image (header + 16)
      if pOffset + pFilesz > request.imageSize then (.error .segmentOutsideFile, loader)
      else
        let dest := request.loadBase + destOff
        let loader := copyBytes request.image dest pOffset pFilesz.toNat 0 loader
        (.ok (), clearBytes dest (pMemsz.toNat - pFilesz.toNat) pFilesz.toNat loader)

/-- The loop over the program headers, with `remaining` headers to go from number `index` on. -/
def loadSegments (request : Request) (ePhoff : Word) :
    Nat → Nat → Loader → Except LoadError Unit × Loader
  | 0, _, loader => (.ok (), loader)
  | remaining + 1, index, loader =>
      match loadSegment request (ePhoff + BitVec.ofNat 32 index * phdrSize) loader with
      | (.error reason, loader) => (.error reason, loader)
      | (.ok (), loader) => loadSegments request ePhoff remaining (index + 1) loader

/-! ### Relocations -/

/-- The body of the loop over the relocations of a section, for the entry at the given offset. -/
def relocate (request : Request) (entry : Word) (loader : Loader) : Loader :=
  let (rInfo, loader) := loader.read32 request.image (entry + 4)
  if rInfo &&& 0xFF ≠ r38632 then loader
  else
    let (rOffset, loader) := loader.read32 request.image entry
    let destOff := rOffset - request.linkBase
    if !inWindow destOff 4 request.windowSize then loader
    else
      let word := request.loadBase + destOff
      let delta := request.loadBase - request.linkBase
      { loader with
        bus := loader.bus.store32 word (loader.bus.memory.read32 word + delta) }

def relocateAll (request : Request) (shOffset : Word) : Nat → Nat → Loader → Loader
  | 0, _, loader => loader
  | remaining + 1, index, loader =>
      relocateAll request shOffset remaining (index + 1)
        (relocate request (shOffset + BitVec.ofNat 32 index * relSize) loader)

/-- The body of the loop over the section headers, for the header at the given offset. -/
def relocateSection (request : Request) (header : Word) (loader : Loader) : Loader :=
  let (shType, loader) := loader.read32 request.image (header + 4)
  if shType ≠ shtRel then loader
  else
    let (shOffset, loader) := loader.read32 request.image (header + 16)
    let (shSize, loader) := loader.read32 request.image (header + 20)
    if shOffset + shSize > request.imageSize then loader
    else
      let (shEntsize, loader) := loader.read32 request.image (header + 36)
      let relCount := if shEntsize ≠ 0 then shSize / shEntsize else 0
      relocateAll request shOffset relCount.toNat 0 loader

def relocateSections (request : Request) (eShoff : Word) : Nat → Nat → Loader → Loader
  | 0, _, loader => loader
  | remaining + 1, index, loader =>
      relocateSections request eShoff remaining (index + 1)
        (relocateSection request (eShoff + BitVec.ofNat 32 index * shdrSize) loader)

/-! ### Loading -/

/-- The second half of `elf_load`, once the segments are in place. -/
def finishLoad (request : Request) (loader : Loader) : Word × Loader :=
  let (eShoff, loader) := loader.read32 request.image 32
  let (eShnum, loader) := if eShoff ≠ 0 then loader.read16 request.image 48 else (0, loader)
  let loader :=
    if eShoff ≠ 0 ∧ eShoff + eShnum * shdrSize ≤ request.imageSize then
      relocateSections request eShoff eShnum.toNat 0 loader
    else loader
  let (eEntry, loader) := loader.read32 request.image 24
  (request.loadBase + (eEntry - request.linkBase), loader)

/-- The entry point, when the code returns 1. -/
def elfLoad (request : Request) (memory : Memory) : Except LoadError Word × Loader :=
  let loader : Loader := ⟨⟨memory, []⟩, []⟩
  if request.imageSize < ehdrSize then (.error .tooShort, loader)
  else
    match loader.checkFormat request.image with
    | (false, loader) => (.error .unexpectedFormat, loader)
    | (true, loader) =>
        let (ePhoff, loader) := loader.read32 request.image 28
        let (ePhnum, loader) := loader.read16 request.image 44
        if ePhoff + ePhnum * phdrSize > request.imageSize then
          (.error .programTableOutsideFile, loader)
        else
          match loadSegments request ePhoff ePhnum.toNat 0 loader with
          | (.error reason, loader) => (.error reason, loader)
          | (.ok (), loader) =>
              let (entry, loader) := finishLoad request loader
              (.ok entry, loader)

end MxOS.Elf
