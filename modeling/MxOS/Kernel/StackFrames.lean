import Mathlib.Data.List.Pairwise
import MxOS.Kernel.HeapStacks

/-! # What the kernel leaves of a stack

Creating and ending tasks rewrites the headers of the heap, which lie between the stacks.
The bytes of a stack that stays in use are not touched, and neither is anything outside
the heap.
-/

namespace MxOS.Mem

open ByteMemory BlockList

/-! ### Blocks in use -/

/-- The `kmalloc` walk writes inside one free block at most. -/
theorem kmallocLoop_within {size : Word} {memory later : Memory} {address fuel : Nat}
    {blocks : List Block} {ptr : Word} (chain : Chain memory address blocks) (high : 16 ≤ address)
    (bounded : address + extent headerSize blocks ≤ 2 ^ 32)
    (walked : kmallocLoop size fuel (link address blocks) memory = some (ptr, later)) :
    later = memory ∨ ∃ offset block, blockAt headerSize offset blocks = some block ∧
      block.free = true ∧
      Set.EqOn later memory
        (region (address + offset) (address + offset + (headerSize + block.size)))ᶜ := by
  induction blocks generalizing address fuel with
  | nil =>
      cases fuel with
      | zero => cases walked
      | succ fuel =>
          simp only [kmallocLoop, link, ↓reduceIte, Option.some.injEq, Prod.mk.injEq] at walked
          exact Or.inl walked.2.symm
  | cons block rest ih =>
      cases fuel with
      | zero => cases walked
      | succ fuel =>
          rw [extent_cons] at bounded
          simp only [headerSize] at bounded
          obtain ⟨header, tail⟩ := chain
          rw [link_cons, kmallocLoop, if_neg (ofNat_ne_zero (by omega) (by omega)), header]
            at walked
          by_cases fits : block.free = true ∧ size.toNat ≤ block.size
          · rw [if_pos ((fits_iff (by omega)).mpr fits)] at walked
            obtain ⟨_, rfl⟩ := Prod.mk.inj (Option.some.inj walked)
            have taken := Chain.take_head ⟨header, tail⟩ high
              (by simp only [extent_cons, headerSize]; omega) fits.2
            exact Or.inr ⟨0, block, rfl, fits.1, taken.2⟩
          · rw [if_neg ((fits_iff (by omega)).not.mpr fits)] at walked
            rcases ih tail (by omega) (by simp only [headerSize]; omega) walked with
              same | ⟨offset, chosen, found, free, framed⟩
            · exact Or.inl same
            · have shifted : headerSize + block.size + offset =
                  headerSize + block.size + offset - 1 + 1 := by
                simp only [headerSize]
                omega
              refine Or.inr ⟨headerSize + block.size + offset, chosen, ?_, free, ?_⟩
              · rw [shifted, blockAt, if_pos (by omega), ← shifted, Nat.add_sub_cancel_left, found]
              · rwa [show address + (headerSize + block.size + offset) =
                  address + headerSize + block.size + offset by omega]

/-- An allocation leaves the payloads in use alone. -/
theorem Represents.kmalloc_eqOn {heap after : Heap} {blocks : List Block}
    (represents : Represents heap blocks) {size ptr : Word}
    (allocated : kmalloc size heap = some (ptr, after)) {entry : Nat × Nat}
    (member : entry ∈ live headerSize heapBase blocks) :
    Set.EqOn after.memory heap.memory (region entry.1 (entry.1 + entry.2)) := by
  have started : heap.heapStart ≠ 0 := by
    rw [represents.start]
    decide
  rw [kmalloc, if_neg started, represents.link_start] at allocated
  obtain ⟨⟨_, later⟩, walked, same⟩ := Option.map_eq_some_iff.mp allocated
  obtain ⟨rfl, rfl⟩ := Prod.mk.inj same
  obtain ⟨offset, place, used⟩ := blockAt_of_mem_live (by decide) member
  rcases kmallocLoop_within represents.chain (by decide) represents.bounded walked with
    same | ⟨other, chosen, found, free, framed⟩
  · simp only [same]
    exact Set.eqOn_refl ..
  · refine framed.mono ?_
    rintro query ⟨lower, upper⟩ ⟨above, below⟩
    have differ : offset ≠ other := by
      rintro rfl
      obtain rfl := Option.some.inj (used.symm.trans found)
      exact Bool.false_ne_true free
    rcases Nat.lt_or_gt_of_ne differ with before | behind
    · have order := blockAt_apart used found before
      simp only at order
      omega
    · have order := blockAt_apart found used behind
      omega

/-- Freeing a block leaves the payloads in use alone, its own bytes included. -/
theorem kfree_eqOn (heap : Heap) {blocks : List Block} {ptr : Word}
    (owned : ptr.toNat ∈ inUse blocks) {entry : Nat × Nat}
    (member : entry ∈ live headerSize heapBase blocks) :
    Set.EqOn (kfree ptr heap).memory heap.memory (region entry.1 (entry.1 + entry.2)) := by
  obtain ⟨⟨position, size⟩, inLive, same⟩ := List.mem_map.mp owned
  obtain ⟨offset, place, found⟩ := blockAt_of_mem_live (by decide) inLive
  obtain ⟨other, place', found'⟩ := blockAt_of_mem_live (by decide) member
  have header : ptr.toNat = heapBase + offset + headerSize := same.symm.trans place
  have present : ptr ≠ 0 := by
    rintro rfl
    exact absurd header (by simp [headerSize])
  replace header : (ptr - 12).toNat = heapBase + offset := by
    simp only [headerSize] at header
    bv_omega
  rw [kfree, if_neg present]
  refine (freeBlock_eqOn heap.memory (ptr - 12)).mono ?_
  rintro query ⟨lower, upper⟩ within
  have small : (ptr - 12).toNat + headerSize ≤ 2 ^ 32 := by
    have bounded := ptr.isLt
    simp only [headerSize]
    bv_omega
  rw [mem_span_iff small, header] at within
  rcases Nat.lt_trichotomy offset other with before | rfl | behind
  · have order := blockAt_apart found found' before
    omega
  · omega
  · have order := blockAt_apart found' found behind
    simp only at order
    omega

theorem Represents.kmalloc_outside {heap after : Heap} {blocks : List Block}
    (represents : Represents heap blocks) {size ptr : Word}
    (allocated : kmalloc size heap = some (ptr, after)) :
    Set.EqOn after.memory heap.memory (region heapBase (heapBase + heapLength))ᶜ := by
  rcases kmalloc_represents represents size with ⟨_, failed⟩ | ⟨_, _, later, _, returned, _, framed⟩
  · obtain ⟨_, rfl⟩ := Prod.mk.inj (Option.some.inj (allocated.symm.trans failed))
    exact Set.eqOn_refl ..
  · obtain ⟨_, rfl⟩ := Prod.mk.inj (Option.some.inj (allocated.symm.trans returned))
    exact framed

theorem Represents.kfree_outside {heap : Heap} {blocks : List Block}
    (represents : Represents heap blocks) {ptr : Word} (owned : ptr.toNat ∈ inUse blocks) :
    Set.EqOn (kfree ptr heap).memory heap.memory (region heapBase (heapBase + heapLength))ᶜ := by
  obtain ⟨⟨position, size⟩, inLive, same⟩ := List.mem_map.mp owned
  have bounds := live_bounds inLive
  rw [represents.total] at bounds
  simp only at same bounds
  unfold kfree
  split
  · exact Set.eqOn_refl ..
  · refine (freeBlock_eqOn heap.memory (ptr - 12)).mono ?_
    apply Set.compl_subset_compl.mpr
    intro query within
    rw [mem_span] at within
    simp only [headerSize, heapBase, heapLength] at bounds within
    simp only [region, heapBase, heapLength, Set.mem_ofPred_eq]
    constructor
    · bv_omega
    · bv_omega

/-- The payloads in use may be written to. -/
theorem Represents.write {heap : Heap} {blocks : List Block} (represents : Represents heap blocks)
    {later : Memory}
    (same : Set.EqOn later heap.memory {address | address ∈ region heapBase (heapBase + heapLength) ∧
      ∀ entry ∈ live headerSize heapBase blocks, address ∉ region entry.1 (entry.1 + entry.2)}) :
    Represents { heap with memory := later } blocks where
  start := represents.start
  chain := by
    refine represents.chain.congr_headers fun position inside => same.mono ?_
    obtain ⟨lower, upper⟩ := headers_bounds inside
    rw [represents.total] at upper
    intro query inHeader
    rw [mem_span_iff (by simp only [headerSize, heapBase, heapLength] at lower upper ⊢; bv_omega)]
      at inHeader
    have place : (BitVec.ofNat 32 position).toNat = position := by
      simp only [headerSize, heapBase, heapLength] at lower upper
      rw [BitVec.toNat_ofNat]
      omega
    rw [place] at inHeader
    refine ⟨⟨by omega, by omega⟩, fun entry member => ?_⟩
    rintro ⟨above, below⟩
    have apart := header_disjoint_live inside member
    omega
  total := represents.total
  aligned := represents.aligned

end MxOS.Mem

namespace MxOS.Sched

open ByteMemory Mem Paging Ipc BlockList

/-! ### Stacks of tasks -/

/-- The bytes of a task's kernel stack. -/
def kernelStack (task : Task) : Set Word :=
  region task.stackBase.toNat (task.stackBase.toNat + taskStackSize.toNat)

/-- An operation of the kernel keeps the tasks that live on, with their stacks, and what is
outside the heap. -/
structure Keeps (kernel after : Kernel) : Prop where
  outside : Set.EqOn after.heap.memory kernel.heap.memory
    (region heapBase (heapBase + heapLength))ᶜ
  task : ∀ pid, (kernel.tasks pid).active = true → (after.tasks pid).active = true →
    (after.tasks pid).esp = (kernel.tasks pid).esp ∧
      (after.tasks pid).stackBase = (kernel.tasks pid).stackBase ∧
      (after.tasks pid).addrSpace = (kernel.tasks pid).addrSpace
  stack : ∀ pid, pid ≠ 0 → (kernel.tasks pid).active = true → (after.tasks pid).active = true →
    Set.EqOn after.heap.memory kernel.heap.memory (kernelStack (kernel.tasks pid))

/-- Tasks may change otherwise, as long as memory does not. -/
theorem Keeps.of_heap {kernel after : Kernel} (heap : after.heap = kernel.heap)
    (task : ∀ pid, (kernel.tasks pid).active = true → (after.tasks pid).active = true →
      (after.tasks pid).esp = (kernel.tasks pid).esp ∧
        (after.tasks pid).stackBase = (kernel.tasks pid).stackBase ∧
        (after.tasks pid).addrSpace = (kernel.tasks pid).addrSpace) : Keeps kernel after where
  outside := by
    rw [heap]
    exact Set.eqOn_refl ..
  task := task
  stack := by
    intro pid _ _ _
    rw [heap]
    exact Set.eqOn_refl ..

theorem Keeps.refl (kernel : Kernel) : Keeps kernel kernel :=
  .of_heap rfl fun _ _ _ => ⟨rfl, rfl, rfl⟩

theorem Keeps.setTask (kernel : Kernel) (pid : Fin 16) {task : Task}
    (esp : task.esp = (kernel.tasks pid).esp)
    (stackBase : task.stackBase = (kernel.tasks pid).stackBase)
    (addrSpace : task.addrSpace = (kernel.tasks pid).addrSpace) :
    Keeps kernel (kernel.setTask pid task) :=
  .of_heap rfl fun other _ _ => ⟨kernel.setTask_part (·.esp) pid esp other,
    kernel.setTask_part (·.stackBase) pid stackBase other,
    kernel.setTask_part (·.addrSpace) pid addrSpace other⟩

/-- Two operations, the second of which starts no task. -/
theorem Keeps.trans {kernel middle after : Kernel} (first : Keeps kernel middle)
    (second : Keeps middle after)
    (alive : ∀ pid, (after.tasks pid).active = true → (middle.tasks pid).active = true) :
    Keeps kernel after where
  outside := second.outside.trans first.outside
  task := by
    intro pid before later
    obtain ⟨esp, stackBase, addrSpace⟩ := first.task pid before (alive pid later)
    obtain ⟨esp', stackBase', addrSpace'⟩ := second.task pid (alive pid later) later
    exact ⟨esp'.trans esp, stackBase'.trans stackBase, addrSpace'.trans addrSpace⟩
  stack := by
    intro pid notShell before later
    have base := (first.task pid before (alive pid later)).2.1
    have kept := second.stack pid notShell (alive pid later) later
    rw [kernelStack, base] at kept
    exact kept.trans (first.stack pid notShell before (alive pid later))

section Areas

variable {kernel : Kernel} {live : List Word} {blocks : List Block}

/-- The stack of an active task is the payload of a block in use. -/
theorem Owned.stack_live (owned : Owned kernel) (stacked : Stacked kernel.heap live blocks)
    {pid : Fin 16} (notShell : pid ≠ 0) (active : (kernel.tasks pid).active = true) :
    ((kernel.tasks pid).stackBase.toNat, taskStackSize.toNat) ∈
      BlockList.live headerSize heapBase blocks :=
  stacked.member ((stacked.mem_iff owned.blocks _).mpr ⟨pid, notShell, active, rfl⟩)

theorem Owned.kernelStack_heap (owned : Owned kernel) (stacked : Stacked kernel.heap live blocks)
    {pid : Fin 16} (notShell : pid ≠ 0) (active : (kernel.tasks pid).active = true) :
    kernelStack (kernel.tasks pid) ⊆ region heapBase (heapBase + heapLength) := by
  have bounds := live_bounds (owned.stack_live stacked notShell active)
  rw [stacked.represents.total] at bounds
  rintro query ⟨lower, upper⟩
  simp only [headerSize] at bounds
  exact ⟨by omega, by omega⟩

/-- Payloads of different blocks do not overlap. -/
theorem live_disjoint {first second : Nat × Nat}
    (one : first ∈ BlockList.live headerSize heapBase blocks)
    (two : second ∈ BlockList.live headerSize heapBase blocks) (differ : first.1 ≠ second.1) :
    Disjoint (region first.1 (first.1 + first.2)) (region second.1 (second.1 + second.2)) := by
  let Apart (first second : Nat × Nat) : Prop := first.1 ≠ second.1 →
    first.1 + first.2 ≤ second.1 ∨ second.1 + second.2 ≤ first.1
  have pairwise : (BlockList.live headerSize heapBase blocks).Pairwise Apart :=
    live_pairwise.imp fun below _ => Or.inl (by omega)
  have symmetric : Std.Symm Apart := ⟨fun _ _ apart differ => (apart (Ne.symm differ)).symm⟩
  have apart := pairwise.forall_of_forall (fun _ _ same => absurd rfl same) one two differ
  refine Set.disjoint_left.mpr ?_
  rintro query ⟨lower, upper⟩ ⟨above, below⟩
  omega

theorem Owned.kernelStack_disjoint (owned : Owned kernel)
    (stacked : Stacked kernel.heap live blocks) {first second : Fin 16} (one : first ≠ 0)
    (two : second ≠ 0) (firstActive : (kernel.tasks first).active = true)
    (secondActive : (kernel.tasks second).active = true) (differ : first ≠ second) :
    Disjoint (kernelStack (kernel.tasks first)) (kernelStack (kernel.tasks second)) := by
  refine live_disjoint (owned.stack_live stacked one firstActive)
    (owned.stack_live stacked two secondActive) fun same => differ ?_
  exact owned.distinct first second one two firstActive secondActive (BitVec.eq_of_toNat_eq same)

/-- The bytes of the heap that belong to no task's stack. -/
def heapRest (kernel : Kernel) : Set Word :=
  {address | address ∈ region heapBase (heapBase + heapLength) ∧
    ∀ pid, pid ≠ 0 → (kernel.tasks pid).active = true → address ∉ kernelStack (kernel.tasks pid)}

theorem Stacked.write (owned : Owned kernel) (stacked : Stacked kernel.heap live blocks)
    {later : Memory} (same : Set.EqOn later kernel.heap.memory (heapRest kernel)) :
    Stacked { kernel.heap with memory := later } live blocks := by
  refine ⟨stacked.represents.write (same.mono ?_), stacked.cells, stacked.perm⟩
  rintro address ⟨inside, elsewhere⟩
  refine ⟨inside, fun pid notShell active => ?_⟩
  exact elsewhere _ (owned.stack_live stacked notShell active)

theorem Cellular.write (owned : Owned kernel) (cellular : Cellular kernel.heap) {later : Memory}
    (same : Set.EqOn later kernel.heap.memory (heapRest kernel)) :
    Cellular { kernel.heap with memory := later } := by
  obtain ⟨live, blocks, stacked⟩ := cellular
  exact ⟨live, blocks, stacked.write owned same⟩

/-- Tasks may write to their stacks and outside the heap. -/
theorem Owned.write (owned : Owned kernel) (cellular : Cellular kernel.heap) {later : Memory}
    (same : Set.EqOn later kernel.heap.memory (heapRest kernel)) :
    Owned { kernel with heap.memory := later } := by
  obtain ⟨live, blocks, stacked⟩ := cellular
  have written := stacked.write owned same
  refine ⟨owned.enabled, owned.shell, owned.count, owned.idle, ⟨blocks, written.represents, ?_⟩,
    owned.distinct, owned.used, owned.apart⟩
  obtain ⟨others, represents, exactly⟩ := owned.blocks
  intro position
  rw [exactly, inUse, represents.live_eq stacked.represents]
  rfl

end Areas

/-! ### Operations -/

section Operations

variable {layout : Layout} {kernel after : Kernel}

/-- A new task gets a stack apart from the others, and its frame is written there. -/
theorem Keeps.installTask (owned : Owned kernel) (cellular : Cellular kernel.heap) {ptr : Word}
    {heap : Heap} (allocated : kmalloc taskStackSize kernel.heap = some (ptr, heap))
    (valid : ptr ≠ 0) {pid : Fin 16} (inactive : (kernel.tasks pid).active = false)
    {frame : List Word} (short : 4 * frame.length ≤ taskStackSize.toNat) (name : Word)
    (space : Option (Fin 6)) (pages : Pages) :
    Keeps kernel (installTask pid ptr frame name space
      { kernel with heap := heap, pages := pages }) := by
  obtain ⟨live, blocks, stacked⟩ := cellular
  rcases stacked.kmalloc with ⟨_, failed⟩ | ⟨_, other, later, carved, returned, _, more⟩
  · exact absurd (Prod.mk.inj (Option.some.inj (allocated.symm.trans failed))).1 valid
  obtain ⟨rfl, rfl⟩ := Prod.mk.inj (Option.some.inj (allocated.symm.trans returned))
  have here := more.member (List.mem_cons_self ..)
  obtain ⟨written, stored, framed⟩ := installTask_heap pid (more.room (List.mem_cons_self ..))
    short name space { kernel with heap := heap, pages := pages }
  have bounds := live_bounds here
  rw [more.represents.total] at bounds
  have memory : (Sched.installTask pid ptr frame name space
      { kernel with heap := heap, pages := pages }).heap.memory = written :=
    congrArg Heap.memory stored
  have elsewhere : ∀ query, (kernel.tasks query).active = true → query ≠ pid := by
    rintro query active rfl
    exact Bool.false_ne_true (inactive.symm.trans active)
  refine ⟨?_, fun query active _ => ?_, fun query notShell active _ => ?_⟩
  · rw [memory]
    refine (framed.mono ?_).trans (stacked.represents.kmalloc_outside allocated)
    apply Set.compl_subset_compl.mpr
    rintro query ⟨lower, upper⟩
    simp only [headerSize] at bounds
    exact ⟨by omega, by omega⟩
  · rw [installTask_of_ne (elsewhere query active)]
    exact ⟨rfl, rfl, rfl⟩
  · have member : (kernel.tasks query).stackBase ∈ live :=
      (stacked.mem_iff owned.blocks _).mpr ⟨query, notShell, active, rfl⟩
    have differ : (kernel.tasks query).stackBase.toNat ≠ ptr.toNat := by
      intro same
      exact (List.nodup_cons.mp more.nodup).1 (BitVec.eq_of_toNat_eq same ▸ member)
    rw [memory]
    refine (framed.mono ?_).trans
      (stacked.represents.kmalloc_eqOn allocated (stacked.member member))
    exact (live_disjoint (more.member (List.mem_cons_of_mem _ member)) here
      differ).subset_compl_right

/-- A stack that is allocated and given back at once. -/
theorem Keeps.withHeap (owned : Owned kernel) (cellular : Cellular kernel.heap) {ptr : Word}
    {heap : Heap} (allocated : kmalloc taskStackSize kernel.heap = some (ptr, heap)) :
    Keeps kernel { kernel with heap := if ptr = 0 then heap else kfree ptr heap } := by
  obtain ⟨live, blocks, stacked⟩ := cellular
  have taken := stacked.represents.kmalloc_outside allocated
  rcases stacked.kmalloc with ⟨_, failed⟩ | ⟨_, other, later, carved, returned, valid, more⟩
  · obtain ⟨rfl, rfl⟩ := Prod.mk.inj (Option.some.inj (allocated.symm.trans failed))
    rw [if_pos rfl]
    exact ⟨taken, fun _ _ _ => ⟨rfl, rfl, rfl⟩, fun _ _ _ _ => Set.eqOn_refl ..⟩
  obtain ⟨rfl, rfl⟩ := Prod.mk.inj (Option.some.inj (allocated.symm.trans returned))
  rw [if_neg valid]
  have used : ptr.toNat ∈ inUse carved :=
    more.perm.mem_iff.mp (List.mem_map.mpr ⟨ptr, List.mem_cons_self .., rfl⟩)
  refine ⟨(more.represents.kfree_outside used).trans taken, fun _ _ _ => ⟨rfl, rfl, rfl⟩,
    fun query notShell active _ => ?_⟩
  have member : (kernel.tasks query).stackBase ∈ live :=
    (stacked.mem_iff owned.blocks _).mpr ⟨query, notShell, active, rfl⟩
  refine Set.EqOn.trans ?_
    (stacked.represents.kmalloc_eqOn allocated (stacked.member member))
  exact kfree_eqOn heap used (more.member (List.mem_cons_of_mem _ member))

theorem createTask_keeps (owned : Owned kernel) (cellular : Cellular kernel.heap)
    {entry name : Word} {result : Option (Fin 16)}
    (created : createTask layout entry name kernel = some (result, after)) :
    Keeps kernel after := by
  unfold createTask at created
  split at created
  · cases created
    exact .refl kernel
  · split at created
    · cases created
      exact .refl kernel
    · next pid free =>
        cases allocated : kmalloc taskStackSize kernel.heap with
        | none =>
            rw [allocated] at created
            cases created
        | some found =>
            obtain ⟨ptr, heap⟩ := found
            simp only [allocated] at created
            split at created
            · next null =>
                cases created
                have kept := Keeps.withHeap owned cellular allocated
                rwa [if_pos null] at kept
            · next valid =>
                cases created
                exact Keeps.installTask owned cellular allocated valid (freePid_inactive free)
                  (by simp) name none kernel.pages

theorem createUserTaskArgv_keeps (owned : Owned kernel) (cellular : Cellular kernel.heap)
    {task : UserTask} {result : Option (Fin 16)}
    (created : createUserTaskArgv layout task kernel = some (result, after)) :
    Keeps kernel after := by
  unfold createUserTaskArgv at created
  split at created
  · cases created
    exact .refl kernel
  · split at created
    · cases created
      exact .refl kernel
    · next pid free =>
        cases allocated : kmalloc taskStackSize kernel.heap with
        | none =>
            rw [allocated] at created
            cases created
        | some found =>
            obtain ⟨ptr, heap⟩ := found
            have kept := Keeps.withHeap owned cellular allocated
            simp only [allocated] at created
            split at created
            · next null =>
                cases created
                rwa [if_pos null] at kept
            · next valid =>
                rw [if_neg valid] at kept
                split at created
                · next pages refused =>
                    cases created
                    exact ⟨kept.outside, kept.task, kept.stack⟩
                · next space pages _ =>
                    cases created
                    exact Keeps.installTask owned cellular allocated valid (freePid_inactive free)
                      (by simp) task.name (some space) pages

theorem releaseTask_keeps (owned : Owned kernel) (cellular : Cellular kernel.heap)
    {pid : Fin 16} (differ : pid ≠ 0) (active : (kernel.tasks pid).active = true) :
    Keeps kernel (releaseTask pid kernel) := by
  obtain ⟨live, blocks, stacked⟩ := cellular
  have freed : (releaseTask pid kernel).heap =
      Mem.kfree (kernel.tasks pid).stackBase kernel.heap :=
    if_pos (owned.stackBase_ne_zero differ active)
  have used : (kernel.tasks pid).stackBase.toNat ∈ inUse blocks :=
    List.mem_map.mpr ⟨_, owned.stack_live stacked differ active, rfl⟩
  refine ⟨?_, fun query _ alive => ?_, fun query notShell was _ => ?_⟩
  · rw [freed]
    exact stacked.represents.kfree_outside used
  · rw [releaseTask_of_ne (ne_of_releaseTask_active alive)]
    exact ⟨rfl, rfl, rfl⟩
  · rw [freed]
    exact kfree_eqOn kernel.heap used (owned.stack_live stacked notShell was)

theorem taskKill_keeps (owned : Owned kernel) (cellular : Cellular kernel.heap)
    (shellCurrent : kernel.currentTask = 0) (target : Int) :
    Keeps kernel (taskKill target kernel).2 := by
  unfold taskKill
  cases found : kernel.activePid target with
  | none => exact .refl kernel
  | some pid =>
      simp only
      split
      · exact .refl kernel
      · next differ =>
          have active := (Kernel.activePid_eq_some.mp found).2
          have kept := releaseTask_keeps owned cellular (shellCurrent ▸ differ) active
          have reset : Steady (releaseTask pid kernel)
              ((releaseTask pid kernel).resetMailbox pid) := Steady.setTask _ pid rfl rfl rfl
          exact kept.trans (.setTask _ pid rfl rfl rfl) fun other alive =>
            (reset.active other).symm.trans alive

end Operations

end MxOS.Sched
