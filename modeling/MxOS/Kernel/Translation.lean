import MxOS.Kernel.ExecIsolation
import MxOS.Kernel.SchedContext
import MxOS.Lib.PageWalk
import Mathlib.Tactic.FinCases

/-! # What the address spaces map

The page tables of `kernel/paging.c` as the processor walks them. Every address space maps
the first 4 MiB to themselves, so the kernel finds the same memory whichever task's
directory is loaded, and lets ring 3 reach the shared image and the windows that its task
was created with.
-/

namespace MxOS.Paging

open ByteMemory PageWalk
open Exec (PageMeets)

/-- The linker places the other tables too, all at pages. -/
structure PagingLayout extends Layout where
  pageDirectory : Word
  firstPageTable : Word
  taskDirectories : Fin 6 → Word
  directoryAligned : frame pageDirectory = pageDirectory
  tableAligned : frame firstPageTable = firstPageTable
  spacesAligned : ∀ space, frame (taskDirectories space) = taskDirectories space
  spaceTablesAligned : ∀ space, frame (taskTable space) = taskTable space

/-- The tables of the kernel, `page_directory` and `first_page_table`. -/
structure KernelPages where
  pageDirectory : Entries
  firstPageTable : Entries

/-- The tables that `paging_init` fills before it turns paging on. -/
def pagingInit (layout : PagingLayout) : KernelPages where
  pageDirectory := fun index =>
    if index = 0 then layout.firstPageTable ||| 7 else 0x00000002
  firstPageTable := fillIdentityTable layout.toLayout 0 0 0 0

def pagingKernelDirectoryPhys (layout : PagingLayout) : Word := layout.pageDirectory

def pagingTaskDirectoryPhys (layout : PagingLayout) (idx : Int) : Word :=
  if idx < 0 ∨ idx ≥ maxAddrSpaces then pagingKernelDirectoryPhys layout
  else layout.taskDirectories (Fin.ofNat 6 idx.toNat)

/-- What `schedule` passes to `paging_switch_directory` for the directory. -/
def PageDirectory.phys (layout : PagingLayout) : PageDirectory → Word
  | .kernel => pagingKernelDirectoryPhys layout
  | .task space => pagingTaskDirectoryPhys layout space.val

@[simp] theorem PageDirectory.phys_task (layout : PagingLayout) (space : Fin 6) :
    (PageDirectory.task space).phys layout = layout.taskDirectories space := by
  have small := space.isLt
  rw [phys, pagingTaskDirectoryPhys, if_neg (by simp only [maxAddrSpaces]; omega),
    Int.toNat_natCast, Fin.ofNat_eq_cast, Fin.cast_val_eq_self]

/-- Memory holds the tables. -/
structure Holds (layout : PagingLayout) (pages : Pages) (memory : Memory) : Prop where
  kernelDirectory : Table memory layout.pageDirectory (pagingInit layout).pageDirectory
  kernelTable : Table memory layout.firstPageTable (pagingInit layout).firstPageTable
  directories : ∀ space, Table memory (layout.taskDirectories space) (pages.taskDirectories space)
  tables : ∀ space, Table memory (layout.taskTable space) (pages.taskTables space)

/-- The pages of memory that hold the tables. -/
def tableArea (layout : PagingLayout) : Set Word :=
  span layout.pageDirectory 4096 ∪ span layout.firstPageTable 4096 ∪
    ⋃ space, span (layout.taskDirectories space) 4096 ∪ span (layout.taskTable space) 4096

theorem Holds.congr {layout : PagingLayout} {pages : Pages} {memory later : Memory}
    (holds : Holds layout pages memory) (same : Set.EqOn later memory (tableArea layout)) :
    Holds layout pages later where
  kernelDirectory := holds.kernelDirectory.congr
    (same.mono fun _ member => Or.inl (Or.inl member))
  kernelTable := holds.kernelTable.congr (same.mono fun _ member => Or.inl (Or.inr member))
  directories := fun space => (holds.directories space).congr
    (same.mono fun _ member => Or.inr (Set.mem_iUnion.mpr ⟨space, Or.inl member⟩))
  tables := fun space => (holds.tables space).congr
    (same.mono fun _ member => Or.inr (Set.mem_iUnion.mpr ⟨space, Or.inr member⟩))

/-! ### The flags of a page -/

/-- A window of the code that fills the table, and the page of an address. -/
def Windowed (start stop : Word) (address : Word) : Prop :=
  start ≠ stop ∧ PageMeets address start.toNat stop.toNat

/-- The page of an address in the shared image. -/
def Shared (layout : Layout) (address : Word) : Prop :=
  PageMeets address layout.textStart.toNat layout.roEnd.toNat

/-- The flags of an entry of `fill_identity_table`. -/
def identityFlags (layout : Layout) (userStart userEnd codeStart codeEnd : Word) : Entries :=
  fun page =>
    let phys := pageAddress page
    if codeStart ≠ codeEnd ∧ phys + 4096 > codeStart ∧ phys < codeEnd then 7
    else if userStart ≠ userEnd ∧ phys + 4096 > userStart ∧ phys < userEnd then 7
    else if phys + 4096 > layout.textStart ∧ phys < layout.roEnd then 7
    else 3

theorem fillIdentityTable_eq (layout : Layout) (userStart userEnd codeStart codeEnd : Word)
    (page : Fin 1024) : fillIdentityTable layout userStart userEnd codeStart codeEnd page =
      pageAddress page ||| identityFlags layout userStart userEnd codeStart codeEnd page := rfl

theorem page_meets {address : Word} (small : address.toNat < 0x400000) (low high : Word) :
    (pageAddress (pageOf address) + 4096 > low ∧ pageAddress (pageOf address) < high) ↔
      PageMeets address low.toNat high.toNat := by
  have page : (pageAddress (pageOf address)).toNat = address.toNat / 4096 * 4096 := by
    rw [pageAddress, pageOf, indexOf_val, BitVec.toNat_ofNat, BitVec.toNat_ushiftRight,
      Nat.shiftRight_eq_div_pow]
    omega
  unfold PageMeets
  bv_omega

/-- A page has the flags of a user page if it meets one of the windows or the shared image. -/
theorem identityFlags_cases (layout : Layout) (userStart userEnd codeStart codeEnd : Word)
    {address : Word} (small : address.toNat < 0x400000) :
    let flags := identityFlags layout userStart userEnd codeStart codeEnd (pageOf address)
    let userPage := Windowed codeStart codeEnd address ∨ Windowed userStart userEnd address ∨
      Shared layout address
    flags = 7 ∧ userPage ∨ flags = 3 ∧ ¬ userPage := by
  intro flags userPage
  have window : ∀ start stop : Word,
      (start ≠ stop ∧ pageAddress (pageOf address) + 4096 > start ∧
        pageAddress (pageOf address) < stop) ↔ Windowed start stop address := fun start stop =>
    and_congr_right fun _ => page_meets small start stop
  have image := page_meets small layout.textStart layout.roEnd
  simp only [flags, userPage, identityFlags]
  split
  · next code => exact Or.inl ⟨rfl, Or.inl ((window _ _).mp code)⟩
  · next noCode =>
      split
      · next stack => exact Or.inl ⟨rfl, Or.inr (Or.inl ((window _ _).mp stack))⟩
      · next noStack =>
          split
          · next shared => exact Or.inl ⟨rfl, Or.inr (Or.inr (image.mp shared))⟩
          · next noImage =>
              refine Or.inr ⟨rfl, ?_⟩
              rintro (code | stack | shared)
              · exact noCode ((window _ _).mpr code)
              · exact noStack ((window _ _).mpr stack)
              · exact noImage (image.mpr shared)

/-- A directory whose first entry leads to such a table. -/
theorem maps_of_tables {layout : Layout} {memory : Memory} {root base : Word}
    {directory table : Entries} {userStart userEnd codeStart codeEnd : Word}
    (upper : Table memory root directory) (lower : Table memory base table)
    (first : directory = fun index => if index = 0 then base ||| 7 else 0x00000002)
    (filled : table = fillIdentityTable layout userStart userEnd codeStart codeEnd) :
    Maps memory root fun address => Windowed codeStart codeEnd address ∨
      Windowed userStart userEnd address ∨ Shared layout address := by
  have identity : IdentityMap memory root
      (identityFlags layout userStart userEnd codeStart codeEnd) := by
    refine ⟨⟨base, directory, table, upper, lower, ?_, ?_, ?_⟩, ?_⟩
    · rw [first]
      exact if_pos rfl
    · intro index other
      rw [first]
      exact (congrArg (BitVec.getLsbD · 0) (if_neg other)).trans rfl
    · intro page
      rw [filled]
      exact fillIdentityTable_eq ..
    · intro page
      simp only [identityFlags]
      split
      · rfl
      · split
        · rfl
        · split <;> rfl
  refine identity.maps fun access address small => ?_
  obtain ⟨user, write⟩ := access
  obtain ⟨flags, meets⟩ | ⟨flags, misses⟩ :=
    identityFlags_cases layout userStart userEnd codeStart codeEnd small
  · rw [flags]
    refine iff_of_true ?_ fun _ => meets
    cases user <;> cases write <;> decide
  · rw [flags]
    cases user with
    | false => exact iff_of_true (by cases write <;> decide) fun fromUser => (nomatch fromUser)
    | true => exact iff_of_false (by cases write <;> decide) fun holds => misses (holds rfl)

theorem Holds.kernel_maps {layout : PagingLayout} {pages : Pages} {memory : Memory}
    (holds : Holds layout pages memory) :
    Maps memory (PageDirectory.kernel.phys layout) (Shared layout.toLayout) := by
  have maps := maps_of_tables holds.kernelDirectory holds.kernelTable rfl
    (show (pagingInit layout).firstPageTable = fillIdentityTable layout.toLayout 0 0 0 0 from rfl)
  have none : ∀ address, ¬ Windowed 0 0 address := fun _ window => window.1 rfl
  simp only [none, false_or] at maps
  exact maps

/-- A layout such as `linker.ld` gives, with the tables behind the image. -/
def imagePaging : PagingLayout :=
  { imageLayout with
    pageDirectory := 0x30000
    firstPageTable := 0x31000
    taskDirectories := fun space => BitVec.ofNat 32 (0x32000 + 0x1000 * space.val)
    directoryAligned := by decide
    tableAligned := by decide
    spacesAligned := by decide
    spaceTablesAligned := by decide }

/-- What the pages of the tables hold in that layout. -/
def imageTables (pages : Pages) (page : Word) : Entries :=
  if page = 0x30 then (pagingInit imagePaging).pageDirectory
  else if page = 0x31 then (pagingInit imagePaging).firstPageTable
  else if page.toNat < 0x30 then pages.taskTables (Fin.ofNat 6 (page.toNat - 0x20))
  else pages.taskDirectories (Fin.ofNat 6 (page.toNat - 0x32))

theorem imagePaging_holds (pages : Pages) :
    Holds imagePaging pages (pagedMemory (imageTables pages)) where
  kernelDirectory := pagedMemory_table imagePaging.directoryAligned
  kernelTable := pagedMemory_table imagePaging.tableAligned
  directories := by
    intro space
    have held : imageTables pages (imagePaging.taskDirectories space >>> 12) =
        pages.taskDirectories space := by
      fin_cases space <;> rfl
    rw [← held]
    exact pagedMemory_table (imagePaging.spacesAligned space)
  tables := by
    intro space
    have held : imageTables pages (imagePaging.taskTable space >>> 12) =
        pages.taskTables space := by
      fin_cases space <;> rfl
    rw [← held]
    exact pagedMemory_table (imagePaging.spaceTablesAligned space)

end MxOS.Paging

namespace MxOS.Sched

open ByteMemory Mem Paging PageWalk

/-! ### What the address spaces were made for -/

/-- The page directory of a task. -/
def Task.directory (task : Task) : PageDirectory :=
  match task.addrSpace with
  | some space => .task space
  | none => .kernel

def Op.userTask : Op → Option UserTask
  | .createUserTaskArgv task => some task
  | _ => none

/-- The arguments of the ring-3 tasks after an operation. -/
def Op.grant (op : Op) (outcome : Outcome) (grants : Fin 16 → Option UserTask) :
    Fin 16 → Option UserTask :=
  match outcome.createdPid with
  | some pid => Function.update grants pid op.userTask
  | none => grants

/-- The states of the kernel, with the arguments that the ring-3 tasks were created with. -/
inductive Granted (layout : Layout) : Kernel → (Fin 16 → Option UserTask) → Prop where
  | start (memory : Memory) (frequency : Word) :
      Granted layout (initMultitasking layout (booted memory frequency)) fun _ => none
  | step {kernel after : Kernel} {grants : Fin 16 → Option UserTask} (op : Op)
      {outcome : Outcome} :
      Granted layout kernel grants → op.Allowed kernel →
      op.perform layout kernel = some (outcome, after) →
      Granted layout after (op.grant outcome grants)

theorem Granted.reachable {layout : Layout} {kernel : Kernel}
    {grants : Fin 16 → Option UserTask} (granted : Granted layout kernel grants) :
    Reachable layout kernel := by
  induction granted with
  | start memory frequency => exact .start memory frequency
  | step op _ allowed performed ih => exact .step op ih allowed performed

/-- The page of the address meets the shared image or a window of the task. -/
def UserTask.UserPage (layout : Layout) (task : UserTask) (address : Word) : Prop :=
  Windowed task.codeBase (task.codeBase + task.codeSize) address ∨
    Windowed (task.userStackTop - task.userStackSize)
      (task.userStackTop - task.userStackSize + task.userStackSize) address ∨
    Shared layout address

/-- The pages open to ring 3 in the address space of a task. -/
def openPages (layout : Layout) : Option UserTask → Word → Prop
  | some task => task.UserPage layout
  | none => Shared layout

/-- The tables of the space are those made for the task. -/
structure Formed (layout : Layout) (pages : Pages) (space : Fin 6) (task : UserTask) : Prop where
  table : pages.taskTables space = fillIdentityTable layout
    (task.userStackTop - task.userStackSize)
    (task.userStackTop - task.userStackSize + task.userStackSize)
    task.codeBase (task.codeBase + task.codeSize)
  directory : pages.taskDirectories space = taskDirectory layout space

/-- A task created for ring 3 has an address space made for it, the others have none. -/
inductive Placed (layout : Layout) (pages : Pages) : Option UserTask → Option (Fin 6) → Prop where
  | kernel : Placed layout pages none none
  | user {task : UserTask} {space : Fin 6} :
      Formed layout pages space task → Placed layout pages (some task) (some space)

variable {layout : Layout} {kernel after : Kernel} {grants : Fin 16 → Option UserTask}

theorem Formed.congr {pages later : Pages} {space : Fin 6} {task : UserTask}
    (formed : Formed layout pages space task)
    (tables : later.taskTables space = pages.taskTables space)
    (directories : later.taskDirectories space = pages.taskDirectories space) :
    Formed layout later space task :=
  ⟨tables.trans formed.table, directories.trans formed.directory⟩

theorem Placed.congr {pages later : Pages} {grant : Option UserTask} {space : Option (Fin 6)}
    (placed : Placed layout pages grant space)
    (tables : ∀ own, space = some own → later.taskTables own = pages.taskTables own)
    (directories : ∀ own, space = some own →
      later.taskDirectories own = pages.taskDirectories own) : Placed layout later grant space := by
  cases placed with
  | kernel => exact .kernel
  | user formed => exact .user (formed.congr (tables _ rfl) (directories _ rfl))

/-- A new task is placed. Who creates it is active. -/
theorem Op.placed {op : Op} {outcome : Outcome} {pid : Fin 16}
    (performed : op.perform layout kernel = some (outcome, after))
    (created : outcome.createdPid = some pid) :
    ∃ space, Entered kernel pid space after ∧ Placed layout after.pages op.userTask space ∧
      (op.Allowed kernel → (kernel.tasks kernel.currentTask).active = true) := by
  cases op with
  | createTask entry name =>
      obtain ⟨⟨result, later⟩, ran, same⟩ := Option.map_eq_some_iff.mp performed
      obtain ⟨rfl, rfl⟩ := Prod.mk.inj same
      obtain rfl : result = some pid := created
      exact ⟨none, createTask_entered ran, .kernel, id⟩
  | createUserTaskArgv task =>
      obtain ⟨⟨result, later⟩, ran, same⟩ := Option.map_eq_some_iff.mp performed
      obtain ⟨rfl, rfl⟩ := Prod.mk.inj same
      obtain rfl : result = some pid := created
      obtain ⟨space, entered, table, directory⟩ := createUserTaskArgv_entered ran
      exact ⟨some space, entered, .user ⟨table, directory⟩, id⟩
  | schedule lastEsp =>
      obtain ⟨_, _, same⟩ := Option.map_eq_some_iff.mp performed
      obtain ⟨rfl, rfl⟩ := Prod.mk.inj same
      cases created
  | sleepAndReschedule ms currentEsp =>
      obtain ⟨_, _, same⟩ := Option.map_eq_some_iff.mp performed
      obtain ⟨rfl, rfl⟩ := Prod.mk.inj same
      cases created
  | exitAndReschedule currentEsp =>
      obtain ⟨_, _, same⟩ := Option.map_eq_some_iff.mp performed
      obtain ⟨rfl, rfl⟩ := Prod.mk.inj same
      cases created
  | _ =>
      obtain ⟨rfl, rfl⟩ := Prod.mk.inj (Option.some.inj performed)
      cases created

/-! ### Runs -/

/-- Every active task is placed. -/
def Placements (layout : Layout) (kernel : Kernel) (grants : Fin 16 → Option UserTask) : Prop :=
  ∀ pid, (kernel.tasks pid).active = true →
    Placed layout kernel.pages (grants pid) (kernel.tasks pid).addrSpace

theorem Placements.perform (placements : Placements layout kernel grants) (owned : Owned kernel)
    {op : Op} {outcome : Outcome}
    (performed : op.perform layout kernel = some (outcome, after)) :
    Placements layout after (op.grant outcome grants) := by
  intro pid active
  cases Op.change performed with
  | unmoved nothing unmoved =>
      rw [unmoved.active] at active
      rw [Op.grant, nothing, unmoved.addrSpace, unmoved.pages]
      exact placements pid active
  | released ended nothing _ unmoved =>
      rw [unmoved.active] at active
      have differ := ne_of_releaseTask_active active
      obtain ⟨tables, directories⟩ := Exec.releaseTask_tables ended kernel
      rw [Op.grant, nothing, unmoved.addrSpace, unmoved.pages]
      rw [releaseTask_of_ne differ] at active ⊢
      exact (placements pid active).congr (fun own _ => congrFun tables own)
        fun own _ => congrFun directories own
  | entered fresh _ _ =>
      obtain ⟨space, entered, placed, _⟩ := Op.placed performed rfl
      change Placed layout after.pages (Function.update grants fresh op.userTask pid) _
      by_cases here : pid = fresh
      · rw [here, Function.update_self, entered.addrSpace]
        exact placed
      · rw [entered.others pid here] at active ⊢
        rw [Function.update_of_ne here]
        -- The space of the other task is in use, the new one was not.
        have apart : ∀ own, (kernel.tasks pid).addrSpace = some own → space ≠ some own := by
          intro own held same
          have used := (owned.used own).mpr ⟨pid, held⟩
          rw [entered.unused own same] at used
          cases used
        exact (placements pid active).congr (fun own held => entered.tables own (apart own held))
          fun own held => entered.directories own (apart own held)

/-- A directory that is well formed stays so, even when it is made anew. -/
theorem formed_perform {op : Op} {outcome : Outcome} {space : Fin 6} {task : UserTask}
    (formed : Formed layout kernel.pages space task)
    (performed : op.perform layout kernel = some (outcome, after)) :
    ∃ later, Formed layout after.pages space later := by
  cases Op.change performed with
  | unmoved _ unmoved =>
      rw [unmoved.pages]
      exact ⟨task, formed⟩
  | released ended _ _ unmoved =>
      obtain ⟨tables, directories⟩ := Exec.releaseTask_tables ended kernel
      rw [unmoved.pages]
      exact ⟨task, formed.congr (congrFun tables space) (congrFun directories space)⟩
  | entered fresh _ _ =>
      obtain ⟨new, entered, placed, _⟩ := Op.placed performed rfl
      by_cases here : new = some space
      · rw [here] at placed
        generalize op.userTask = grant at placed
        cases placed with
        | user made => exact ⟨_, made⟩
      · exact ⟨task, formed.congr (entered.tables space here) (entered.directories space here)⟩

/-- An operation leaves the directory loaded and the task running, or runs an active task with its
own directory. -/
theorem Op.register {op : Op} {outcome : Outcome} (enabled : kernel.multitaskingEnabled = true)
    (performed : op.perform layout kernel = some (outcome, after)) :
    after.cr3 = kernel.cr3 ∧ after.currentTask = kernel.currentTask ∨
      after.cr3 = (after.tasks after.currentTask).directory ∧
        (after.tasks after.currentTask).active = true := by
  cases passed : op.passedEsp with
  | some lastEsp =>
      obtain ⟨esp, rfl, scheduled⟩ := op.reschedules passed performed
      have entered := (op.entering_enabled kernel).trans enabled
      have spec := schedule_spec lastEsp entered
      rw [scheduled] at spec
      refine Or.inr ⟨(schedule_loaded entered scheduled).1.cr3, ?_⟩
      rw [spec.1.active]
      exact spec.2
  | none =>
      refine Or.inl ?_
      cases op with
      | createTask entry name =>
          obtain ⟨⟨result, later⟩, ran, same⟩ := Option.map_eq_some_iff.mp performed
          obtain ⟨rfl, rfl⟩ := Prod.mk.inj same
          cases result with
          | none =>
              obtain ⟨heap, rfl⟩ := createTask_refused ran
              exact ⟨rfl, rfl⟩
          | some pid =>
              obtain ⟨_, stackAddress, heap, rfl⟩ := createTask_eq_some ran
              exact ⟨rfl, rfl⟩
      | createUserTaskArgv task =>
          obtain ⟨⟨result, later⟩, ran, same⟩ := Option.map_eq_some_iff.mp performed
          obtain ⟨rfl, rfl⟩ := Prod.mk.inj same
          cases result with
          | none =>
              obtain ⟨heap, rfl⟩ := createUserTaskArgv_refused ran
              exact ⟨rfl, rfl⟩
          | some pid =>
              obtain ⟨_, stackAddress, heap, space, pages, _, rfl⟩ := createUserTaskArgv_eq_some ran
              exact ⟨rfl, rfl⟩
      | exitCurrent =>
          obtain ⟨rfl, rfl⟩ := Prod.mk.inj (Option.some.inj performed)
          unfold taskExitCurrent
          split <;> exact ⟨rfl, rfl⟩
      | kill target =>
          obtain ⟨rfl, rfl⟩ := Prod.mk.inj (Option.some.inj performed)
          change (taskKill target kernel).2.cr3 = _ ∧ (taskKill target kernel).2.currentTask = _
          unfold taskKill
          cases kernel.activePid target with
          | none => exact ⟨rfl, rfl⟩
          | some pid =>
              simp only
              split <;> exact ⟨rfl, rfl⟩
      | setPriority target priority =>
          obtain ⟨rfl, rfl⟩ := Prod.mk.inj (Option.some.inj performed)
          unfold taskSetPriority
          split <;> exact ⟨rfl, rfl⟩
      | send target payload len =>
          obtain ⟨rfl, rfl⟩ := Prod.mk.inj (Option.some.inj performed)
          change (ipcSend (Ipc.supply payload) target len kernel ()).2.1.cr3 = _ ∧
            (ipcSend (Ipc.supply payload) target len kernel ()).2.1.currentTask = _
          unfold ipcSend
          cases kernel.activePid target with
          | none => exact ⟨rfl, rfl⟩
          | some pid => exact ⟨rfl, rfl⟩
      | recv =>
          obtain ⟨rfl, rfl⟩ := Prod.mk.inj (Option.some.inj performed)
          exact ⟨rfl, rfl⟩
      | _ => cases passed

/-- A task that is active afterwards and not new was active before, in the same address space. -/
theorem Change.active_before {outcome : Outcome} (change : Change kernel outcome after)
    {pid : Fin 16} (active : (after.tasks pid).active = true)
    (old : (kernel.tasks pid).active = false → outcome.createdPid ≠ some pid) :
    (kernel.tasks pid).active = true ∧
      (after.tasks pid).addrSpace = (kernel.tasks pid).addrSpace := by
  cases change with
  | unmoved _ unmoved =>
      rw [unmoved.active] at active
      exact ⟨active, unmoved.addrSpace pid⟩
  | released ended _ _ unmoved =>
      rw [unmoved.active] at active
      have differ := ne_of_releaseTask_active active
      rw [releaseTask_of_ne differ] at active
      rw [unmoved.addrSpace, releaseTask_of_ne differ]
      exact ⟨active, rfl⟩
  | entered fresh _ entered =>
      have differ : pid ≠ fresh := fun same =>
        old (same ▸ freePid_inactive entered.free) (congrArg some same.symm)
      rw [entered.others pid differ] at active ⊢
      exact ⟨active, rfl⟩

/-- What holds of the address spaces in every state: also the directory that is loaded after its
task has ended is well formed. -/
structure Mapped (layout : Layout) (kernel : Kernel) (grants : Fin 16 → Option UserTask) :
    Prop where
  placements : Placements layout kernel grants
  loaded : ∀ space, kernel.cr3 = .task space → ∃ task, Formed layout kernel.pages space task
  running : (kernel.tasks kernel.currentTask).active = true →
    kernel.cr3 = (kernel.tasks kernel.currentTask).directory

theorem Placements.formed (placements : Placements layout kernel grants) {pid : Fin 16}
    (active : (kernel.tasks pid).active = true) {space : Fin 6}
    (directory : (kernel.tasks pid).directory = .task space) :
    ∃ task, Formed layout kernel.pages space task := by
  have placed := placements pid active
  unfold Task.directory at directory
  generalize (kernel.tasks pid).addrSpace = own at placed directory
  generalize grants pid = grant at placed
  cases placed with
  | kernel => cases directory
  | user formed =>
      obtain rfl := PageDirectory.task.inj directory
      exact ⟨_, formed⟩

theorem Mapped.perform (mapped : Mapped layout kernel grants) (owned : Owned kernel) {op : Op}
    {outcome : Outcome} (allowed : op.Allowed kernel)
    (performed : op.perform layout kernel = some (outcome, after)) :
    Mapped layout after (op.grant outcome grants) := by
  have placements := mapped.placements.perform owned performed
  obtain ⟨register, current⟩ | ⟨register, active⟩ := Op.register owned.enabled performed
  · refine ⟨placements, fun space holds => ?_, fun active => ?_⟩
    · obtain ⟨task, formed⟩ := mapped.loaded space (register.symm.trans holds)
      exact formed_perform formed performed
    · -- The running task is not the new one: who creates a task is active.
      have old : (kernel.tasks after.currentTask).active = false →
          outcome.createdPid ≠ some after.currentTask := by
        intro idle created
        obtain ⟨_, _, _, creator⟩ := Op.placed performed created
        rw [current, creator allowed] at idle
        cases idle
      obtain ⟨before, same⟩ := (Op.change performed).active_before active old
      rw [current] at before same
      rw [register, mapped.running before, current, Task.directory, Task.directory, same]
  · refine ⟨placements, fun space holds => ?_, fun _ => register⟩
    exact placements.formed active (register.symm.trans holds)

theorem Granted.mapped (granted : Granted layout kernel grants) : Mapped layout kernel grants := by
  induction granted with
  | start memory frequency =>
      refine ⟨fun pid active => ?_, fun space holds => (nomatch holds), fun _ => rfl⟩
      by_cases shell : pid = 0
      · subst shell
        exact .kernel
      · simp only [initMultitasking, Function.update_of_ne shell] at active
        exact absurd active Bool.false_ne_true
  | step op earlier allowed performed ih =>
      exact ih.perform earlier.reachable.owned allowed performed

/-! ### What the processor finds -/

variable {paging : PagingLayout} {memory : Memory}

theorem Formed.maps {pages : Pages} {space : Fin 6} {task : UserTask}
    (formed : Formed paging.toLayout pages space task) (holds : Holds paging pages memory) :
    Maps memory ((PageDirectory.task space).phys paging) (task.UserPage paging.toLayout) := by
  rw [PageDirectory.phys_task]
  exact maps_of_tables (holds.directories space) (holds.tables space) formed.directory formed.table

/-- `UserAccessible` is what the walk of the processor answers. -/
theorem Formed.userAccessible_iff_walk {pages : Pages} {space : Fin 6} {task : UserTask}
    (formed : Formed paging.toLayout pages space task) (holds : Holds paging pages memory)
    (write : Bool) (address : Word) :
    pages.UserAccessible space address = true ↔
      walk memory ((PageDirectory.task space).phys paging) ⟨true, write⟩ address =
        some address := by
  rw [formed.maps holds, Pages.UserAccessible, formed.table, formed.directory, Bool.and_eq_true,
    Exec.userEntry_taskDirectory]
  simp only [true_and, forall_const]
  refine and_congr_right fun small => ?_
  rw [fillIdentityTable_eq]
  change userEntry (pageAddress (pageOf address) ||| identityFlags paging.toLayout _ _ _ _
    (pageOf address)) = true ↔ _
  obtain ⟨flags, opened⟩ | ⟨flags, closed⟩ :=
    identityFlags_cases paging.toLayout (task.userStackTop - task.userStackSize)
      (task.userStackTop - task.userStackSize + task.userStackSize) task.codeBase
      (task.codeBase + task.codeSize) small
  · rw [flags]
    exact iff_of_true (Exec.userEntry_flags _).2 opened
  · rw [flags]
    exact iff_of_false (Bool.eq_false_iff.mp (Exec.userEntry_flags _).1) closed

theorem Placements.maps (placements : Placements paging.toLayout kernel grants)
    (holds : Holds paging kernel.pages memory) {pid : Fin 16}
    (active : (kernel.tasks pid).active = true) :
    Maps memory ((kernel.tasks pid).directory.phys paging)
      (openPages paging.toLayout (grants pid)) := by
  have placed := placements pid active
  unfold Task.directory
  generalize (kernel.tasks pid).addrSpace = own at placed
  generalize grants pid = grant at placed
  cases placed with
  | kernel => exact holds.kernel_maps
  | user formed => exact formed.maps holds

/-- In every state the first 4 MiB are mapped to themselves by the directory that is loaded, also
when its task has just ended. The directory of an active task opens to ring 3 the image and the
windows that this task was created with, and it is the one loaded while the task runs. What ring 3
stores leaves all page tables as they are, unless a window of its task reaches one. -/
theorem address_spaces_map (layout : PagingLayout) (kernel : Kernel)
    (grants : Fin 16 → Option UserTask) (granted : Granted layout.toLayout kernel grants)
    (memory : Memory) (holds : Holds layout kernel.pages memory) :
    (∃ userPage, Maps memory (kernel.cr3.phys layout) userPage) ∧
    (∀ pid, (kernel.tasks pid).active = true →
      Maps memory ((kernel.tasks pid).directory.phys layout)
        (openPages layout.toLayout (grants pid))) ∧
    ((kernel.tasks kernel.currentTask).active = true →
      kernel.cr3 = (kernel.tasks kernel.currentTask).directory) ∧
    ∀ pid, (kernel.tasks pid).active = true →
      (∀ address ∈ tableArea layout, ¬ openPages layout.toLayout (grants pid) address) →
      ∀ later : Memory, (∀ physical, (∀ address, walk memory
          ((kernel.tasks pid).directory.phys layout) ⟨true, true⟩ address ≠ some physical) →
        later physical = memory physical) → Holds layout kernel.pages later := by
  have mapped := granted.mapped
  refine ⟨?_, fun pid active => mapped.placements.maps holds active, mapped.running, ?_⟩
  · cases directory : kernel.cr3 with
    | kernel => exact ⟨_, holds.kernel_maps⟩
    | task space =>
        obtain ⟨task, formed⟩ := mapped.loaded space directory
        exact ⟨_, formed.maps holds⟩
  · intro pid active apart later kept
    refine holds.congr fun physical table => kept physical fun address reached => ?_
    obtain ⟨rfl, _, opened⟩ := (mapped.placements.maps holds active _ _ _).mp reached
    exact apart physical table (opened rfl)

/-- A ring-3 task is created with a stack behind the tables, and runs. -/
theorem address_spaces_map_user : ∃ kernel grants memory,
    Granted imagePaging.toLayout kernel grants ∧ Holds imagePaging kernel.pages memory ∧
    kernel.cr3 = .task 0 ∧
    walk memory (kernel.cr3.phys imagePaging) ⟨true, true⟩ 0x40010 = some 0x40010 ∧
    walk memory (kernel.cr3.phys imagePaging) ⟨true, false⟩ 0x30000 = none ∧
    walk memory (kernel.cr3.phys imagePaging) ⟨false, true⟩ 0x30000 = some 0x30000 := by
  have start : Granted imagePaging.toLayout _ _ := Granted.start (fun _ => 0) 100
  have created := Granted.step
    (.createUserTaskArgv ⟨0x9200, 0xF020, 0x41000, 0x1000, 0, 0, 0, 0⟩) start rfl rfl
  have scheduled := Granted.step (.schedule 0x7000) created trivial rfl
  obtain ⟨kernel, grants, granted, active, current, grant, loaded⟩ : ∃ kernel grants,
      Granted imagePaging.toLayout kernel grants ∧ (kernel.tasks 1).active = true ∧
      kernel.currentTask = 1 ∧
      grants 1 = some ⟨0x9200, 0xF020, 0x41000, 0x1000, 0, 0, 0, 0⟩ ∧ kernel.cr3 = .task 0 :=
    ⟨_, _, scheduled, rfl, rfl, rfl, rfl⟩
  have holds := imagePaging_holds kernel.pages
  obtain ⟨_, maps, running, _⟩ := address_spaces_map imagePaging kernel grants granted _ holds
  have opened := maps 1 active
  rw [current] at running
  rw [← running active, grant] at opened
  refine ⟨kernel, grants, _, granted, holds, loaded, ?_, ?_, ?_⟩
  · refine (opened _ _ _).mpr ⟨rfl, by decide, fun _ => Or.inr (Or.inl ⟨by decide, ?_⟩)⟩
    exact ⟨by decide, by decide⟩
  · refine Option.eq_none_iff_forall_ne_some.mpr fun physical found => ?_
    obtain ⟨_, _, page⟩ := (opened _ _ _).mp found
    obtain code | stack | image := page rfl
    · exact absurd rfl code.1
    · exact absurd stack.2.1 (by decide)
    · exact absurd image.2 (by decide)
  · exact (opened _ _ _).mpr ⟨rfl, by decide, fun fromUser => (nomatch fromUser)⟩

end MxOS.Sched
