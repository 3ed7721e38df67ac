import MxOS.Lib.Memory

/-! # The kernel heap

`kernel/mem.c` keeps its block list inside the heap itself: each block starts with
a `header_t` holding the payload size, the address of the next header and a free
flag. The functions below read and write these fields in memory exactly as the
code does.
-/

namespace MxOS.Mem

open ByteMemory

/-- `sizeof(header_t)`: two words and one byte, padded to word alignment. -/
abbrev headerSize : Nat := 12

/-- The fields of a `header_t`. -/
structure Header where
  size : Word
  next : Word
  isFree : Byte
  deriving DecidableEq

structure Heap where
  memory : Memory
  heapStart : Word

section Fields

variable (memory : Memory) (header : Word)

/-- The header stored at an address. -/
def headerAt : Header :=
  ⟨memory.read32 header, memory.read32 (header + 4), memory (header + 8)⟩

def setSize (value : Word) : Memory := memory.write32 header value

def setNext (value : Word) : Memory := memory.write32 (header + 4) value

def setIsFree (value : Byte) : Memory := memory.write8 (header + 8) value

end Fields

def heapInit (start size : Word) (memory : Memory) : Heap where
  memory := setIsFree (setNext (setSize memory start (size - 12)) start 0) start 1
  heapStart := start

/-- The split of `kmalloc`: a new header inside the chosen block takes over its tail. -/
def splitBlock (memory : Memory) (curr size : Word) : Memory :=
  let next := curr + 12 + size
  let memory := setSize memory next ((headerAt memory curr).size - size - 12)
  let memory := setNext memory next (headerAt memory curr).next
  let memory := setIsFree memory next 1
  let memory := setSize memory curr size
  setNext memory curr next

/-- The walk of `kmalloc`. A walk that visits no header twice makes fewer than `2 ^ 32`
steps, so running out of fuel means that the C loop never ends. -/
def kmallocLoop (size : Word) : Nat → Word → Memory → Option (Word × Memory)
  | 0, _, _ => none
  | fuel + 1, curr, memory =>
      if curr = 0 then some (0, memory)
      else if (headerAt memory curr).isFree ≠ 0 ∧ size ≤ (headerAt memory curr).size then
        let memory :=
          if size + 12 + 4 < (headerAt memory curr).size then splitBlock memory curr size
          else memory
        some (curr + 12, setIsFree memory curr 0)
      else kmallocLoop size fuel (headerAt memory curr).next memory

def walkFuel : Nat := 2 ^ 32

/-- `(size + 3) & ~3`, in 32-bit arithmetic. -/
def alignUp (size : Word) : Word := (size + 3) &&& ~~~3

/-- The returned pointer (`0` for `NULL`) and the heap afterwards; `none` when the walk never
ends. -/
def kmalloc (size : Word) (heap : Heap) : Option (Word × Heap) :=
  if heap.heapStart = 0 then some (0, heap)
  else
    (kmallocLoop (alignUp size) walkFuel heap.heapStart heap.memory).map fun result =>
      (result.1, { heap with memory := result.2 })

/-- The body of `kfree`: mark the block free and join it with the next one when that is free. -/
def freeBlock (memory : Memory) (header : Word) : Memory :=
  let memory := setIsFree memory header 1
  let next := (headerAt memory header).next
  if next ≠ 0 ∧ (headerAt memory next).isFree ≠ 0 then
    let memory := setSize memory header
      ((headerAt memory header).size + ((headerAt memory next).size + 12))
    setNext memory header (headerAt memory (headerAt memory header).next).next
  else memory

def kfree (ptr : Word) (heap : Heap) : Heap :=
  if ptr = 0 then heap else { heap with memory := freeBlock heap.memory (ptr - 12) }

def heapStatsLoop : Nat → Word → Word → Word → Memory → Option (Word × Word)
  | 0, _, _, _, _ => none
  | fuel + 1, curr, used, free, memory =>
      if curr = 0 then some (used, free)
      else
        let header := headerAt memory curr
        if header.isFree ≠ 0 then
          heapStatsLoop fuel header.next used (free + header.size) memory
        else heapStatsLoop fuel header.next (used + header.size) free memory

/-- The used and the free byte counts. -/
def heapStats (heap : Heap) : Option (Word × Word) :=
  heapStatsLoop walkFuel heap.heapStart 0 0 heap.memory

/-- The headers that a walk over the `next` fields visits, with their addresses. -/
def walkLoop : Nat → Word → Memory → Option (List (Word × Header))
  | 0, _, _ => none
  | fuel + 1, curr, memory =>
      if curr = 0 then some []
      else
        (walkLoop fuel (headerAt memory curr).next memory).map ((curr, headerAt memory curr) :: ·)

def walk (heap : Heap) : Option (List (Word × Header)) :=
  walkLoop walkFuel heap.heapStart heap.memory

end MxOS.Mem
