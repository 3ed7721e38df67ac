import MxOS.Kernel.ExecSlots
import MxOS.Kernel.HeapStacks
import MxOS.Kernel.SchedSleep

/-! # Programs that cannot be started

`exec_run` can fail at six places: no slot, no file, no valid program, no task number, no
stack and no address space. Only the last comes after something was taken, the stack, and
it is given back. What a failed launch leaves behind is confined to memory outside the
heap: the window of the slot, the arguments and the buffer for files.
-/

namespace MxOS.Exec

open ByteMemory Paging Sched Mem BlockList

/-- The addresses of the heap. -/
def heapRegion : Set Word := region heapBase (heapBase + heapLength)

/-- The linker places the stacks of the slots below the heap, with the rest of the static
memory. -/
def ExecLayout.Low (layout : ExecLayout) : Prop := layout.execStacks.toNat + 4 * 4096 ≤ heapBase

theorem window_apart (slot : Fin 4) : heapRegion ⊆ (window slot)ᶜ := by
  rintro address ⟨_, below⟩ inside
  have above := (mem_window.mp inside).1
  simp only [heapBase, heapLength] at below
  omega

theorem ExecLayout.Low.argvArea_apart {layout : ExecLayout} (low : layout.Low) (slot : Fin 4) :
    heapRegion ⊆ (argvArea layout slot)ᶜ := by
  rintro address ⟨above, _⟩ inside
  have size : argvAreaSize.toNat = 512 := rfl
  have bound := layout.stacksNoWrap
  have small := slot.isLt
  rw [argvArea, mem_span_iff (by rw [execStack_toNat, size]; omega), execStack_toNat, size]
    at inside
  unfold ExecLayout.Low at low
  omega

/-- `exec_run` is called with at most 8 arguments, and none is longer than an `int` can tell. -/
def Command.Admissible (command : Command) : Prop :=
  command.argv.length ≤ 8 ∧ ∀ argument ∈ command.argv, argument.bytes.length < 2 ^ 31

theorem Command.Admissible.fits {command : Command} (admissible : command.Admissible) :
    command.Fits :=
  ⟨Nat.lt_of_le_of_lt admissible.1 (by decide), admissible.2⟩

/-- The file that `exec_run` reads, with the window cleared. -/
def Command.loaded (command : Command) (drive : Ata.Drive) (machine : Machine) : Fs.Loaded :=
  Fs.fsLoadFile drive (some command.name) (some machine.elfStaging) userProgMaxSize machine.fs

/-- The request of `exec_run` to the loader. -/
def Command.request (command : Command) (drive : Ata.Drive) (slot : Fin 4) (machine : Machine) :
    Elf.Request :=
  let loaded := command.loaded drive machine
  loadRequest slot loaded.dest (loaded.outSize.getD 0)

theorem launch_eq (layout : ExecLayout) (drive : Ata.Drive) (command : Command) (slot : Fin 4)
    (machine : Machine) :
    launch layout drive command slot machine =
      let read : Machine :=
        { machine.setMemory (clearWindow (slotBase slot) machine.memory) with
          fs := (command.loaded drive machine).fs
          elfStaging := (command.loaded drive machine).dest }
      if !(command.loaded drive machine).ok then some (none, read)
      else
        finishLaunch layout command slot read
          (Elf.elfLoad (command.request drive slot machine)
            (clearWindow (slotBase slot) machine.memory)) := by
  have read : ∀ memory, Fs.fsLoadFile drive (some command.name)
      (some (machine.setMemory memory).elfStaging) userProgMaxSize
      (machine.setMemory memory).fs = command.loaded drive machine := fun _ => rfl
  unfold launch Command.request
  simp only [read]
  generalize command.loaded drive machine = loaded
  rfl

/-- If the file is read, loading the program writes to the window of its slot only. -/
def Command.Confined (command : Command) (drive : Ata.Drive) (machine : Machine) : Prop :=
  ∀ slot, findFreeSlot machine = some slot → (command.loaded drive machine).ok = true →
    let cleared := clearWindow (slotBase slot) machine.memory
    Set.EqOn (Elf.elfLoad (command.request drive slot machine) cleared).2.bus.memory cleared
      (window slot)ᶜ

/-! ### What precedes the creation of the task -/

/-- The machines differ at most in files and in memory outside the heap. -/
structure Prepared (before after : Machine) : Prop where
  slotPid : after.slotPid = before.slotPid
  kernel : ∃ later, after.kernel = { before.kernel with heap.memory := later } ∧
    Set.EqOn later before.memory heapRegion

theorem Prepared.refl (machine : Machine) : Prepared machine machine :=
  ⟨rfl, machine.memory, rfl, Set.eqOn_refl ..⟩

theorem Prepared.memory {before after : Machine} (prepared : Prepared before after) :
    Set.EqOn after.memory before.memory heapRegion := by
  obtain ⟨later, same, agree⟩ := prepared.kernel
  rw [Machine.memory, same]
  exact agree

theorem Prepared.setMemory {before after : Machine} (prepared : Prepared before after)
    {later : Memory} (agree : Set.EqOn later after.memory heapRegion) :
    Prepared before (after.setMemory later) := by
  obtain ⟨memory, same, _⟩ := prepared.kernel
  refine ⟨prepared.slotPid, later, ?_, agree.trans prepared.memory⟩
  simp only [Machine.setMemory, same]

theorem Prepared.files {before after : Machine} (prepared : Prepared before after)
    (fs : Fs.State) (elfStaging : Nat → Byte) :
    Prepared before { after with fs := fs, elfStaging := elfStaging } :=
  ⟨prepared.slotPid, prepared.kernel⟩

theorem Prepared.print {before after : Machine} (prepared : Prepared before after)
    (text : String) : Prepared before (after.print text) :=
  ⟨prepared.slotPid, prepared.kernel⟩

/-- The numbers remembered after the task was created, or was not. -/
def storePid (slotPid : Fin 4 → Int) (slot : Fin 4) : Option (Fin 16) → Fin 4 → Int
  | none => slotPid
  | some pid => Function.update slotPid slot pid.val

section ExecRun

variable {layout : ExecLayout} (low : layout.Low) {drive : Ata.Drive} {command : Command}
  (admissible : command.Admissible) {machine after : Machine}
  (confined : command.Confined drive machine) {result : Option (Fin 16)}

include low admissible in
theorem startTask_cases {slot : Fin 4} {entry : Word} {ready : Machine}
    (prepared : Prepared machine ready)
    (started : startTask layout command slot entry ready = some (result, after)) :
    ∃ built, Prepared machine built ∧
      createUserTaskArgv layout.toLayout (userTask layout command slot entry) built.kernel =
        some (result, after.kernel) ∧
      after.slotPid = storePid machine.slotPid slot result := by
  have built : Prepared machine (ready.setMemory
      (buildArgv (layout.execStack slot) command.argv ready.memory)) :=
    prepared.setMemory ((buildArgv_eqOn layout slot admissible.fits ready.memory).mono
      (low.argvArea_apart slot))
  refine ⟨_, built, ?_⟩
  unfold startTask at started
  simp only at started
  split at started
  · cases started
  · next refused =>
      cases started
      exact ⟨refused, built.slotPid⟩
  · next created =>
      cases started
      exact ⟨created, by rw [storePid, ← built.slotPid]⟩

include low admissible confined in
/-- `exec_run` stops before it creates a task, or it ends as the creation does. -/
theorem execRun_cases
    (ran : execRun layout drive command machine = some (result, after)) :
    (result = none ∧ Prepared machine after) ∨
    ∃ slot entry built, findFreeSlot machine = some slot ∧ Prepared machine built ∧
      createUserTaskArgv layout.toLayout (userTask layout command slot entry) built.kernel =
        some (result, after.kernel) ∧
      after.slotPid = storePid machine.slotPid slot result := by
  unfold execRun at ran
  cases found : findFreeSlot machine with
  | none =>
      rw [found] at ran
      cases ran
      exact Or.inl ⟨rfl, (Prepared.refl machine).print _⟩
  | some slot =>
      rw [found] at ran
      simp only [launch_eq] at ran
      have cleared : Prepared machine
          (machine.setMemory (clearWindow (slotBase slot) machine.memory)) :=
        (Prepared.refl machine).setMemory
          ((clearWindow_eqOn slot machine.memory).mono (window_apart slot))
      have read := cleared.files (command.loaded drive machine).fs
        (command.loaded drive machine).dest
      split at ran
      · cases ran
        exact Or.inl ⟨rfl, read⟩
      · next ok =>
        have within := (confined slot found (by simpa using ok)).mono (window_apart slot)
        generalize Elf.elfLoad _ (clearWindow (slotBase slot) machine.memory) = answer
          at ran within
        have loaded := read.setMemory within
        obtain ⟨reason | entry, loader⟩ := answer
        · cases ran
          exact Or.inl ⟨rfl, loaded.print _⟩
        · obtain ⟨built, prepared, created, slots⟩ := startTask_cases low admissible loaded ran
          exact Or.inr ⟨slot, entry, built, rfl, prepared, created, slots⟩

end ExecRun

/-! ### The stack that is given back -/

/-- Address and size of the payloads in use, as a walk over the heap finds them. -/
def liveBlocks (heap : Heap) : Option (List (Nat × Nat)) :=
  (walk heap).map fun visited =>
    (visited.filter fun entry => entry.2.isFree = 0).map fun entry =>
      (entry.1.toNat + headerSize, entry.2.size.toNat)

theorem liveBlocks_represents {heap : Heap} {blocks : List Block}
    (represents : Represents heap blocks) :
    liveBlocks heap = some (live headerSize heapBase blocks) := by
  have bounded : heapBase + extent headerSize blocks < 2 ^ 32 := by
    rw [represents.total]
    decide
  rw [liveBlocks, walk_represents represents, Option.map_some, visit_live bounded]

/-- Freeing a block that was just allocated leaves the blocks that were in use. -/
theorem kmalloc_kfree_live {heap after : Heap} {blocks : List Block} {size ptr : Word}
    (represents : Represents heap blocks) (allocated : kmalloc size heap = some (ptr, after))
    (valid : ptr ≠ 0) : liveBlocks (kfree ptr after) = liveBlocks heap := by
  rcases kmalloc_represents represents size with ⟨_, failed⟩ |
    ⟨offset, carved, memory, found, returned, spelled, _⟩
  · obtain ⟨rfl, _⟩ := Prod.mk.inj (Option.some.inj (allocated.symm.trans failed))
    exact absurd rfl valid
  · obtain ⟨rfl, rfl⟩ := Prod.mk.inj (Option.some.inj (allocated.symm.trans returned))
    obtain ⟨length, _, added⟩ := allocate_live heapBase found
    have member := added.mem_iff.mpr (List.mem_cons_self ..)
    obtain ⟨place, same, block⟩ := blockAt_of_mem_live (by decide) member
    obtain rfl : place = offset := by omega
    have removed := release_live heapBase block rfl
    have perm := (removed.symm.trans added).cons_inv
    have equal := perm.eq_of_pairwise (fun first second _ _ below above => by
      simp only [headerSize] at below above
      omega) live_pairwise live_pairwise
    rw [liveBlocks_represents (kfree_represents spelled block), liveBlocks_represents represents,
      equal]

/-- A task that cannot be created leaves the blocks in use, and all but the heap as it was. -/
theorem createUserTaskArgv_failed {layout : Layout} {task : UserTask} {kernel after : Kernel}
    {blocks : List Block} (represents : Represents kernel.heap blocks)
    (failed : createUserTaskArgv layout task kernel = some (none, after)) :
    (∃ heap, after = { kernel with heap := heap }) ∧
      liveBlocks after.heap = liveBlocks kernel.heap := by
  refine ⟨createUserTaskArgv_refused failed, ?_⟩
  unfold createUserTaskArgv at failed
  split at failed
  · cases failed
    rfl
  · split at failed
    · cases failed
      rfl
    · cases allocated : kmalloc taskStackSize kernel.heap with
      | none =>
          rw [allocated] at failed
          cases failed
      | some found =>
          obtain ⟨ptr, heap⟩ := found
          simp only [allocated] at failed
          split at failed
          · next null =>
              cases failed
              rcases kmalloc_represents represents taskStackSize with ⟨_, unchanged⟩ |
                ⟨_, _, _, exhausted, returned, spelled, _⟩
              · obtain ⟨_, rfl⟩ := Prod.mk.inj (Option.some.inj (allocated.symm.trans unchanged))
                rfl
              · obtain ⟨rfl, _⟩ := Prod.mk.inj (Option.some.inj (allocated.symm.trans returned))
                exact absurd null (kmalloc_position spelled exhausted).1
          · next valid =>
              split at failed
              · cases failed
                exact kmalloc_kfree_live represents allocated valid
              · cases failed

/-! ### States of the machine -/

/-- What happens to the machine: tasks act, programs are started, files and the memory outside
the heap change, and a task writes to its own stack. -/
inductive Running (layout : ExecLayout) (drive : Ata.Drive) : Machine → Prop where
  | start (memory : Memory) (frequency : Word) (fs : Fs.State) (elfStaging : Nat → Byte) :
      Running layout drive (started layout memory frequency fs elfStaging).machine
  | act {machine : Machine} {kernel : Kernel} (act : Act) :
      Running layout drive machine → act.Allowed machine.kernel →
      act.step layout.toLayout machine.kernel = some kernel →
      Running layout drive { machine with kernel := kernel }
  | exec {machine after : Machine} {result : Option (Fin 16)} (command : Command) :
      Running layout drive machine → command.Admissible → command.Confined drive machine →
      execRun layout drive command machine = some (result, after) → Running layout drive after
  | elsewhere {machine : Machine} {later : Memory} (fs : Fs.State) :
      Running layout drive machine → Set.EqOn later machine.memory heapRegion →
      Running layout drive { machine.setMemory later with fs := fs }
  | stack {machine : Machine} {later : Memory} {pid : Fin 16} :
      Running layout drive machine → pid ≠ 0 → (machine.kernel.tasks pid).active = true →
      Set.EqOn later machine.memory
        (region (machine.kernel.tasks pid).stackBase.toNat
          ((machine.kernel.tasks pid).stackBase.toNat + taskStackSize.toNat))ᶜ →
      Running layout drive (machine.setMemory later)

/-- The stacks on the heap are those of the tasks, and the heap is cut into cells of their size. -/
structure Sound (kernel : Kernel) : Prop where
  owned : Owned kernel
  cellular : Cellular kernel.heap

/-- Memory of the heap changes such that the same blocks are there. -/
theorem Sound.setMemory {kernel : Kernel} (sound : Sound kernel) {later : Memory}
    (kept : ∀ blocks, Represents kernel.heap blocks →
      Represents { kernel.heap with memory := later } blocks) :
    Sound { kernel with heap.memory := later } := by
  obtain ⟨owned, live, blocks, represents, cells, perm⟩ := sound
  obtain ⟨others, stored, exactly⟩ := owned.blocks
  refine ⟨⟨owned.enabled, owned.shell, owned.count, owned.idle, ⟨others, kept _ stored, exactly⟩,
    owned.distinct, owned.used, owned.apart⟩, live, blocks, kept _ represents, cells, perm⟩

theorem Sound.act {layout : Layout} {act : Act} {kernel after : Kernel} (sound : Sound kernel)
    (allowed : act.Allowed kernel) (stepped : act.step layout kernel = some after) :
    Sound after := by
  cases act with
  | perform op =>
      obtain ⟨⟨outcome, reached⟩, performed, rfl⟩ := Option.map_eq_some_iff.mp stepped
      obtain ⟨_, _, same, owned⟩ := sound.owned.perform layout op allowed.1
      obtain ⟨rfl, rfl⟩ := Prod.mk.inj (Option.some.inj (performed.symm.trans same))
      exact ⟨owned, sound.cellular.perform sound.owned allowed.1 performed⟩
  | sleep ms =>
      obtain rfl := Option.some.inj stepped
      exact ⟨sound.owned.steady (Steady.setTask kernel _ rfl rfl rfl), sound.cellular⟩

theorem Prepared.sound {before after : Machine} (prepared : Prepared before after)
    (sound : Sound before.kernel) : Sound after.kernel := by
  obtain ⟨later, same, agree⟩ := prepared.kernel
  rw [same]
  exact sound.setMemory fun blocks represents => represents.congr agree

/-- The stack of a task may be written to. -/
theorem Sound.stack {kernel : Kernel} (sound : Sound kernel) {pid : Fin 16} (differ : pid ≠ 0)
    (active : (kernel.tasks pid).active = true) {later : Memory}
    (written : Set.EqOn later kernel.heap.memory
      (region (kernel.tasks pid).stackBase.toNat
        ((kernel.tasks pid).stackBase.toNat + taskStackSize.toNat))ᶜ) :
    Sound { kernel with heap.memory := later } := by
  obtain ⟨live, blocks, stacked⟩ := sound.cellular
  have member := stacked.member
    ((stacked.mem_iff sound.owned.blocks _).mpr ⟨pid, differ, active, rfl⟩)
  refine sound.setMemory fun others represents => ?_
  rw [stacked.represents.live_eq represents] at member
  exact represents.store member written

theorem Running.sound {layout : ExecLayout} (low : layout.Low) {drive : Ata.Drive}
    {machine : Machine} (running : Running layout drive machine) : Sound machine.kernel := by
  induction running with
  | start memory frequency fs elfStaging =>
      have reachable : Reachable layout.toLayout
          (initMultitasking layout.toLayout (booted memory frequency)) := .start memory frequency
      exact ⟨reachable.owned, reachable.cellular⟩
  | act act _ allowed stepped sound => exact sound.act allowed stepped
  | exec command _ admissible confined ran sound =>
      rcases execRun_cases low admissible confined ran with ⟨_, prepared⟩ |
        ⟨slot, entry, built, _, prepared, created, _⟩
      · exact prepared.sound sound
      · have ready := prepared.sound sound
        obtain ⟨_, _, same, owned⟩ := ready.owned.createUserTaskArgv layout.toLayout
          (userTask layout command slot entry)
        obtain ⟨rfl, rfl⟩ := Prod.mk.inj (Option.some.inj (created.symm.trans same))
        exact ⟨owned, ready.cellular.createUserTaskArgv created⟩
  | elsewhere fs _ agree sound =>
      exact sound.setMemory fun blocks represents => represents.congr agree
  | stack _ differ active written sound => exact sound.stack differ active written

/-- If `exec_run` fails, then the numbers of the slots, the task table, the number of tasks, the
pool of address spaces and the blocks in use are what they were. -/
theorem failed_exec_unchanged (layout : ExecLayout) (low : layout.Low) (drive : Ata.Drive)
    (machine after : Machine) (running : Running layout drive machine) (command : Command)
    (admissible : command.Admissible) (confined : command.Confined drive machine)
    (failed : execRun layout drive command machine = some (none, after)) :
    after.slotPid = machine.slotPid ∧ after.kernel.tasks = machine.kernel.tasks ∧
      after.kernel.taskCount = machine.kernel.taskCount ∧
      after.kernel.pages.taskDirUsed = machine.kernel.pages.taskDirUsed ∧
      ∃ blocks, liveBlocks machine.kernel.heap = some blocks ∧
        liveBlocks after.kernel.heap = some blocks := by
  obtain ⟨blocks, represents, _⟩ := (running.sound low).owned.blocks
  have spelled := liveBlocks_represents represents
  rcases execRun_cases low admissible confined failed with ⟨_, prepared⟩ |
    ⟨slot, entry, built, _, prepared, refused, slots⟩
  · obtain ⟨later, same, agree⟩ := prepared.kernel
    rw [same]
    exact ⟨prepared.slotPid, rfl, rfl, rfl, _, spelled,
      liveBlocks_represents (represents.congr agree)⟩
  · obtain ⟨later, same, agree⟩ := prepared.kernel
    have represented : Represents built.kernel.heap blocks := by
      rw [same]
      exact represents.congr agree
    obtain ⟨⟨heap, rest⟩, kept⟩ := createUserTaskArgv_failed represented refused
    rw [rest] at kept ⊢
    rw [same]
    exact ⟨slots, rfl, rfl, rfl, _, spelled, kept.trans (liveBlocks_represents represented)⟩

/-- A program that is not on the disk is asked for while another task runs. -/
theorem missing_program_unchanged :
    let machine : Machine := (started unalignedStacks (fun _ => 0) 100 helloDisk fun _ => 0).machine
    let missing : Fs.CString := ⟨[0x78], by decide⟩
    ∃ kernel after,
      (Act.perform (.createTask 0x9100 0xF010)).step unalignedStacks.toLayout machine.kernel =
        some kernel ∧
      execRun unalignedStacks Ata.readyDrive ⟨missing, 0x7000, [missing, hello]⟩
        { machine with kernel := kernel } = some (none, after) ∧
      after.kernel.taskCount = 2 ∧ after.kernel.taskCount = kernel.taskCount ∧
      ∃ blocks, liveBlocks kernel.heap = some blocks ∧
        liveBlocks after.kernel.heap = some blocks := by
  intro machine missing
  have performed : ((Act.perform (.createTask 0x9100 0xF010)).step unalignedStacks.toLayout
      machine.kernel).any (fun kernel => kernel.taskCount = 2 ∧
        (execRun unalignedStacks Ata.readyDrive ⟨missing, 0x7000, [missing, hello]⟩
          { machine with kernel := kernel }).any (fun answer => answer.1.isNone) ∧
        (Command.loaded ⟨missing, 0x7000, [missing, hello]⟩ Ata.readyDrive
          { machine with kernel := kernel }).ok = false) = true := by decide +kernel
  obtain ⟨kernel, stepped, facts⟩ := (Option.any_eq_true ..).mp performed
  simp only [decide_eq_true_eq] at facts
  obtain ⟨two, ends, unread⟩ := facts
  obtain ⟨⟨result, after⟩, ran, refused⟩ := (Option.any_eq_true ..).mp ends
  obtain rfl := Option.isNone_iff_eq_none.mp refused
  have running : Running unalignedStacks Ata.readyDrive { machine with kernel := kernel } :=
    .act _ (.start (fun _ => 0) 100 helloDisk fun _ => 0) (by decide +kernel) stepped
  have low : unalignedStacks.Low := by
    unfold ExecLayout.Low
    decide
  obtain ⟨_, _, count, _, blocks, before, later⟩ := failed_exec_unchanged unalignedStacks low
    Ata.readyDrive _ after running _ ⟨by decide, by decide⟩
    (fun _ _ ok => absurd (unread.symm.trans ok) Bool.false_ne_true) ran
  exact ⟨kernel, after, stepped, ran, count.trans two, count, blocks, before, later⟩

end MxOS.Exec
