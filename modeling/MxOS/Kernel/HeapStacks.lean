import MxOS.Kernel.SchedContext
import MxOS.Lib.Cells

/-! # Stacks on the heap

Tasks are the only users of the heap, and all their stacks have the same size. The heap
then is 255 cells of a header and a stack, with a tail of 1024 bytes that stays free, and
a stack can be allocated as long as a cell is free, even though a freed block is joined
with the next one only.
-/

namespace MxOS.Sched

open ByteMemory Mem Paging Ipc BlockList

/-- The number of stacks the heap has room for. -/
abbrev stackCells : Nat := 255

/-- The heap holds stacks and free cells only. -/
def StackCells (blocks : List Block) : Prop :=
  Celled headerSize taskStackSize.toNat 1024 stackCells blocks

theorem heapInit_stackCells : StackCells [⟨heapLength - headerSize, true⟩] :=
  Celled.tail_of_eq (by decide)

/-- Heaps reached from `heap_init` by allocating stacks, writing to them and freeing them, with
the stacks allocated and not freed since. -/
inductive StackRun : Heap → List Word → Prop where
  | init (memory : Memory) : StackRun (heapInit 0x100000 0x100000 memory) []
  | kmalloc {heap after : Heap} {live : List Word} {ptr : Word} :
      StackRun heap live → kmalloc taskStackSize heap = some (ptr, after) →
      StackRun after (if ptr = 0 then live else ptr :: live)
  | store {heap : Heap} {live : List Word} {ptr : Word} {later : Memory} :
      StackRun heap live → ptr ∈ live →
      Set.EqOn later heap.memory (region ptr.toNat (ptr.toNat + taskStackSize.toNat))ᶜ →
      StackRun { heap with memory := later } live
  | kfree {heap : Heap} {live : List Word} {ptr : Word} :
      StackRun heap live → ptr ∈ live → StackRun (kfree ptr heap) (live.erase ptr)

/-! ### The cells along a run -/

theorem alignUp_taskStackSize : (alignUp taskStackSize).toNat = taskStackSize.toNat := by decide

/-- The heap is cut into cells, and those in use are the stacks that are live. -/
structure Stacked (heap : Heap) (live : List Word) (blocks : List Block) : Prop where
  represents : Represents heap blocks
  cells : StackCells blocks
  perm : (live.map BitVec.toNat).Perm (inUse blocks)

section Stacked

variable {heap after : Heap} {live : List Word} {blocks : List Block} {ptr : Word}

/-- A live stack is the payload of a block in use. -/
theorem Stacked.member (stacked : Stacked heap live blocks) (member : ptr ∈ live) :
    (ptr.toNat, taskStackSize.toNat) ∈ BlockList.live headerSize heapBase blocks := by
  have used := stacked.perm.mem_iff.mp (List.mem_map.mpr ⟨ptr, member, rfl⟩)
  obtain ⟨entry, inLive, same⟩ := List.mem_map.mp used
  have size := stacked.cells.live_size inLive
  rw [← same, ← size]
  exact inLive

theorem Stacked.room (stacked : Stacked heap live blocks) (member : ptr ∈ live) :
    ptr.toNat + taskStackSize.toNat ≤ heapBase + heapLength := by
  have bounds := (live_bounds (stacked.member member)).2
  rwa [stacked.represents.total] at bounds

theorem Stacked.length (stacked : Stacked heap live blocks) :
    (BlockList.live headerSize heapBase blocks).length = live.length := by
  have lengths := stacked.perm.length_eq
  rw [List.length_map, inUse, List.length_map] at lengths
  exact lengths.symm

theorem Stacked.nodup (stacked : Stacked heap live blocks) : live.Nodup :=
  List.Nodup.of_map _ (stacked.perm.nodup_iff.mpr (inUse_nodup blocks))

/-- An allocation returns. It fails when all cells are in use, and otherwise adds a stack. -/
theorem Stacked.kmalloc (stacked : Stacked heap live blocks) :
    (live.length = stackCells ∧ Mem.kmalloc taskStackSize heap = some (0, heap)) ∨
    live.length ≠ stackCells ∧ ∃ ptr after carved,
      Mem.kmalloc taskStackSize heap = some (ptr, after) ∧ ptr ≠ 0 ∧
        Stacked after (ptr :: live) carved := by
  have full := stacked.cells.allocate_eq_none_iff (by decide : splitSlack < 1024) (by decide)
    heapBase
  rw [stacked.length] at full
  rcases kmalloc_represents stacked.represents taskStackSize with ⟨none, failed⟩ |
    ⟨offset, carved, memory, allocated, returned, spelled, _⟩
  · rw [alignUp_taskStackSize] at none
    exact Or.inl ⟨full.mp none, failed⟩
  · have place := kmalloc_position spelled allocated
    obtain ⟨size, _, perm⟩ := allocate_live heapBase allocated
    rw [alignUp_taskStackSize] at allocated
    refine Or.inr ⟨fun every => ?_, _, _, carved, returned, place.1, spelled,
      stacked.cells.allocate (by decide) (by decide) allocated, ?_⟩
    · rw [full.mpr every] at allocated
      cases allocated
    · have pointer := (place.2.map Prod.fst)
      rw [List.map_cons] at pointer
      exact (stacked.perm.cons _).trans pointer.symm

theorem Stacked.store {later : Memory} (stacked : Stacked heap live blocks) (member : ptr ∈ live)
    (same : Set.EqOn later heap.memory (region ptr.toNat (ptr.toNat + taskStackSize.toNat))ᶜ) :
    Stacked { heap with memory := later } live blocks :=
  ⟨stacked.represents.store (stacked.member member) same, stacked.cells, stacked.perm⟩

theorem Stacked.kfree (stacked : Stacked heap live blocks) (member : ptr ∈ live) :
    ∃ released, Stacked (kfree ptr heap) (live.erase ptr) released := by
  obtain ⟨offset, place, found⟩ := blockAt_of_mem_live (by decide) (stacked.member member)
  have pointer : ptr = BitVec.ofNat 32 (heapBase + offset + headerSize) := by
    rw [← place, BitVec.ofNat_toNat, BitVec.setWidth_eq]
  refine ⟨_, pointer ▸ kfree_represents stacked.represents found, stacked.cells.release found, ?_⟩
  have removed := (release_live heapBase found rfl).map Prod.fst
  rw [List.map_cons, ← place] at removed
  have erased := (List.perm_cons_erase member).map BitVec.toNat
  rw [List.map_cons] at erased
  exact (erased.symm.trans (stacked.perm.trans removed)).cons_inv

end Stacked

theorem StackRun.stacked {heap : Heap} {live : List Word} (run : StackRun heap live) :
    ∃ blocks, Stacked heap live blocks := by
  induction run with
  | init memory =>
      exact ⟨_, heapInit_represents memory, heapInit_stackCells, List.Perm.refl _⟩
  | kmalloc _ allocated ih =>
      obtain ⟨blocks, stacked⟩ := ih
      rcases stacked.kmalloc with ⟨_, failed⟩ | ⟨_, ptr, after, carved, returned, valid, more⟩
      · obtain ⟨rfl, rfl⟩ := Prod.mk.inj (Option.some.inj (allocated.symm.trans failed))
        rw [if_pos rfl]
        exact ⟨blocks, stacked⟩
      · obtain ⟨rfl, rfl⟩ := Prod.mk.inj (Option.some.inj (allocated.symm.trans returned))
        rw [if_neg valid]
        exact ⟨carved, more⟩
  | store _ member same ih =>
      obtain ⟨blocks, stacked⟩ := ih
      exact ⟨blocks, stacked.store member same⟩
  | kfree _ member ih =>
      obtain ⟨blocks, stacked⟩ := ih
      exact stacked.kfree member

/-! ### The kernel's use of the heap -/

/-- The heap is cut into cells, some of which are stacks in use. -/
def Cellular (heap : Heap) : Prop := ∃ live blocks, Stacked heap live blocks

/-- The live stacks are the blocks that have an owner. -/
theorem Stacked.mem_iff {heap : Heap} {live : List Word} {blocks : List Block} {owned : Set Nat}
    (stacked : Stacked heap live blocks) (owns : Owns heap owned) (ptr : Word) :
    ptr ∈ live ↔ ptr.toNat ∈ owned := by
  obtain ⟨others, represents, exactly⟩ := owns
  rw [exactly, inUse, represents.live_eq stacked.represents, ← inUse, ← stacked.perm.mem_iff]
  constructor
  · intro member
    exact List.mem_map.mpr ⟨ptr, member, rfl⟩
  · intro member
    obtain ⟨other, inLive, same⟩ := List.mem_map.mp member
    exact BitVec.eq_of_toNat_eq same ▸ inLive

theorem Cellular.kmalloc {heap after : Heap} {ptr : Word} (cellular : Cellular heap)
    (allocated : kmalloc taskStackSize heap = some (ptr, after)) :
    if ptr = 0 then Cellular after
    else ∃ live blocks, Stacked after (ptr :: live) blocks := by
  obtain ⟨live, blocks, stacked⟩ := cellular
  rcases stacked.kmalloc with ⟨_, failed⟩ | ⟨_, ptr, after, carved, returned, valid, more⟩
  · obtain ⟨rfl, rfl⟩ := Prod.mk.inj (Option.some.inj (allocated.symm.trans failed))
    rw [if_pos rfl]
    exact ⟨live, blocks, stacked⟩
  · obtain ⟨rfl, rfl⟩ := Prod.mk.inj (Option.some.inj (allocated.symm.trans returned))
    rw [if_neg valid]
    exact ⟨live, carved, more⟩

section Kernel

variable {layout : Layout} {kernel after : Kernel}

/-- The initial frame is pushed on a stack that was just allocated. -/
theorem Stacked.install {heap : Heap} {ptr : Word} {live : List Word} {blocks : List Block}
    (stacked : Stacked heap (ptr :: live) blocks) (pid : Fin 16) {frame : List Word}
    (short : 4 * frame.length ≤ taskStackSize.toNat) (name : Word) (space : Option (Fin 6))
    (kernel : Kernel) (pages : Pages) :
    Cellular (installTask pid ptr frame name space
      { kernel with heap := heap, pages := pages }).heap := by
  obtain ⟨later, stored, written⟩ := installTask_heap pid (stacked.room (List.mem_cons_self ..))
    short name space { kernel with heap := heap, pages := pages }
  rw [stored]
  exact ⟨_, _, stacked.store (List.mem_cons_self ..) written⟩

theorem Cellular.createTask {entry name : Word} {result : Option (Fin 16)}
    (cellular : Cellular kernel.heap)
    (created : createTask layout entry name kernel = some (result, after)) :
    Cellular after.heap := by
  unfold Sched.createTask at created
  split at created
  · cases created
    exact cellular
  · split at created
    · cases created
      exact cellular
    · next pid _ =>
        cases allocated : Mem.kmalloc taskStackSize kernel.heap with
        | none =>
            rw [allocated] at created
            cases created
        | some found =>
            obtain ⟨ptr, heap⟩ := found
            have taken := cellular.kmalloc allocated
            simp only [allocated] at created
            split at created
            · next null =>
                cases created
                rwa [if_pos null] at taken
            · next valid =>
                cases created
                rw [if_neg valid] at taken
                obtain ⟨live, blocks, stacked⟩ := taken
                exact stacked.install pid (by simp) name none kernel kernel.pages

theorem Cellular.createUserTaskArgv {task : UserTask} {result : Option (Fin 16)}
    (cellular : Cellular kernel.heap)
    (created : createUserTaskArgv layout task kernel = some (result, after)) :
    Cellular after.heap := by
  unfold Sched.createUserTaskArgv at created
  split at created
  · cases created
    exact cellular
  · split at created
    · cases created
      exact cellular
    · next pid _ =>
        cases allocated : Mem.kmalloc taskStackSize kernel.heap with
        | none =>
            rw [allocated] at created
            cases created
        | some found =>
            obtain ⟨ptr, heap⟩ := found
            have taken := cellular.kmalloc allocated
            simp only [allocated] at created
            split at created
            · next null =>
                cases created
                rwa [if_pos null] at taken
            · next valid =>
                rw [if_neg valid] at taken
                obtain ⟨live, blocks, stacked⟩ := taken
                split at created
                · cases created
                  exact ⟨_, stacked.kfree (List.mem_cons_self ..)⟩
                · next space pages _ =>
                    cases created
                    exact stacked.install pid (by simp) task.name (some space) kernel pages

theorem Cellular.releaseTask (owned : Owned kernel) (cellular : Cellular kernel.heap)
    {pid : Fin 16} (differ : pid ≠ 0) (active : (kernel.tasks pid).active = true) :
    Cellular (releaseTask pid kernel).heap := by
  obtain ⟨live, blocks, stacked⟩ := cellular
  have member : (kernel.tasks pid).stackBase ∈ live :=
    (stacked.mem_iff owned.blocks _).mpr ⟨pid, differ, active, rfl⟩
  have freed : (Sched.releaseTask pid kernel).heap =
      Mem.kfree (kernel.tasks pid).stackBase kernel.heap :=
    if_pos (owned.stackBase_ne_zero differ active)
  rw [freed]
  exact ⟨_, stacked.kfree member⟩

theorem Cellular.taskExitCurrent (owned : Owned kernel) (cellular : Cellular kernel.heap)
    (notShell : kernel.currentTask ≠ 0) : Cellular (taskExitCurrent kernel).heap := by
  unfold Sched.taskExitCurrent
  split
  · next active => exact cellular.releaseTask owned notShell active
  · exact cellular

/-- Every operation of the kernel on the heap allocates, fills or frees a stack. -/
theorem Cellular.perform {op : Op} {outcome : Outcome} (owned : Owned kernel)
    (cellular : Cellular kernel.heap) (allowed : op.Allowed kernel)
    (performed : op.perform layout kernel = some (outcome, after)) : Cellular after.heap := by
  cases op with
  | createTask entry name =>
      obtain ⟨⟨result, created⟩, returned, same⟩ := Option.map_eq_some_iff.mp performed
      obtain ⟨rfl, rfl⟩ := Prod.mk.inj same
      exact cellular.createTask returned
  | createUserTaskArgv task =>
      obtain ⟨⟨result, created⟩, returned, same⟩ := Option.map_eq_some_iff.mp performed
      obtain ⟨rfl, rfl⟩ := Prod.mk.inj same
      exact cellular.createUserTaskArgv returned
  | schedule lastEsp =>
      obtain ⟨esp, _, scheduled⟩ := Op.reschedules rfl performed
      rw [(schedule_switched scheduled).heap]
      exact cellular
  | sleepAndReschedule ms currentEsp =>
      obtain ⟨esp, _, scheduled⟩ := Op.reschedules rfl performed
      rw [(schedule_switched scheduled).heap]
      exact cellular
  | exitCurrent =>
      obtain ⟨rfl, rfl⟩ := Prod.mk.inj (Option.some.inj performed)
      exact cellular.taskExitCurrent owned allowed.2
  | exitAndReschedule currentEsp =>
      obtain ⟨esp, _, scheduled⟩ := Op.reschedules rfl performed
      rw [(schedule_switched scheduled).heap]
      exact cellular.taskExitCurrent owned allowed.2
  | kill target =>
      obtain ⟨rfl, rfl⟩ := Prod.mk.inj (Option.some.inj performed)
      change Cellular (taskKill target kernel).2.heap
      unfold taskKill
      cases found : kernel.activePid target with
      | none => exact cellular
      | some pid =>
          simp only
          split
          · exact cellular
          · next differ =>
              have notShell : pid ≠ 0 := fun shell => differ (shell.trans allowed.symm)
              exact cellular.releaseTask owned notShell (Kernel.activePid_eq_some.mp found).2
  | setPriority target priority =>
      obtain ⟨rfl, rfl⟩ := Prod.mk.inj (Option.some.inj performed)
      unfold taskSetPriority
      split
      · exact cellular
      · exact cellular
  | send target payload len =>
      obtain ⟨rfl, rfl⟩ := Prod.mk.inj (Option.some.inj performed)
      change Cellular (ipcSend (supply payload) target len kernel ()).2.1.heap
      unfold ipcSend
      split
      · exact cellular
      · exact cellular
  | recv =>
      obtain ⟨rfl, rfl⟩ := Prod.mk.inj (Option.some.inj performed)
      exact cellular

theorem heapInit_cellular (memory : Memory) : Cellular (heapInit 0x100000 0x100000 memory) :=
  ⟨[], _, heapInit_represents memory, heapInit_stackCells, List.Perm.refl _⟩

theorem Reachable.cellular (reachable : Reachable layout kernel) : Cellular kernel.heap := by
  induction reachable with
  | start memory frequency => exact heapInit_cellular memory
  | step op earlier allowed performed ih => exact ih.perform earlier.owned allowed performed

/-- The kernel has at most as many stacks as tasks. -/
theorem Stacked.length_le {live : List Word} {blocks : List Block} (owned : Owned kernel)
    (stacked : Stacked kernel.heap live blocks) : live.length ≤ maxTasks := by
  have owners : live.toFinset ⊆ Finset.univ.image fun pid => (kernel.tasks pid).stackBase := by
    intro ptr member
    obtain ⟨pid, _, _, place⟩ :=
      (stacked.mem_iff owned.blocks ptr).mp (List.mem_toFinset.mp member)
    exact Finset.mem_image.mpr ⟨pid, Finset.mem_univ pid, BitVec.eq_of_toNat_eq place⟩
  calc live.length = live.toFinset.card := (List.toFinset_card_of_nodup stacked.nodup).symm
    _ ≤ (Finset.univ.image fun pid => (kernel.tasks pid).stackBase).card :=
        Finset.card_le_card owners
    _ ≤ (Finset.univ : Finset (Fin 16)).card := Finset.card_image_le
    _ = maxTasks := rfl

end Kernel

/-- From `heap_init` on, whatever stacks were allocated and freed, an allocation of a stack
returns, and it returns `NULL` if and only if 255 stacks are live; in the kernel, which has at
most 16, it never does. -/
theorem stacks_never_fragment :
    (∀ heap live, StackRun heap live → ∃ ptr after,
      kmalloc taskStackSize heap = some (ptr, after) ∧ (ptr = 0 ↔ live.length = 255)) ∧
    ∀ layout kernel, Reachable layout kernel →
      ∃ ptr after, kmalloc taskStackSize kernel.heap = some (ptr, after) ∧ ptr ≠ 0 := by
  constructor
  · intro heap live run
    obtain ⟨blocks, stacked⟩ := run.stacked
    rcases stacked.kmalloc with ⟨full, failed⟩ | ⟨room, ptr, after, _, returned, valid, _⟩
    · exact ⟨0, heap, failed, fun _ => full, fun _ => rfl⟩
    · exact ⟨ptr, after, returned, fun null => absurd null valid, fun full => absurd full room⟩
  · intro layout kernel reachable
    obtain ⟨live, blocks, stacked⟩ := reachable.cellular
    rcases stacked.kmalloc with ⟨full, _⟩ | ⟨_, ptr, after, _, returned, valid, _⟩
    · have few := stacked.length_le reachable.owned
      simp only [stackCells, maxTasks] at full few
      omega
    · exact ⟨ptr, after, returned, valid⟩

end MxOS.Sched
