import MxOS.Lib.Memory

/-! # Address spaces

`kernel/paging.c`: every ring-3 task has a page directory whose first entry points to
a page table of its own. The table maps the first 4 MiB to themselves; the shared
image of the kernel and the task's two windows are user pages, everything else is
reserved to the supervisor.
-/

namespace MxOS.Paging

open ByteMemory

/-- Addresses the linker chooses: the shared image from `__text_start` to `__ro_end`, the code
and the text that task creation refers to, and the page tables, which are aligned to pages. -/
structure Layout where
  textStart : Word
  roEnd : Word
  taskExit : Word
  shellName : Word
  taskTable : Fin 6 → Word
  aligned : ∀ space, taskTable space &&& 0xFFF = 0

/-- A layout such as `linker.ld` gives: the image starts at `0x8000`, the page tables lie in
the static memory behind it. -/
def imageLayout : Layout where
  textStart := 0x8000
  roEnd := 0x10000
  taskExit := 0x9000
  shellName := 0xF000
  taskTable := fun space => BitVec.ofNat 32 (0x20000 + 0x1000 * space.val)
  aligned := by decide

/-- `MAX_ADDR_SPACES` -/
abbrev maxAddrSpaces : Nat := 6

instance addrSpacesNeZero : NeZero 6 := ⟨by decide⟩

instance tableEntriesNeZero : NeZero 1024 := ⟨by decide⟩

structure Pages where
  taskDirectories : Fin 6 → Fin 1024 → Word
  taskTables : Fin 6 → Fin 1024 → Word
  taskDirUsed : Fin 6 → Bool

/-- One entry of the table `fill_identity_table` fills. -/
def identityEntry (layout : Layout) (userStart userEnd codeStart codeEnd : Word)
    (index : Fin 1024) : Word :=
  let phys : Word := BitVec.ofNat 32 (index.val * 4096)
  let flags : Word := 3
  let flags := if phys + 4096 > layout.textStart ∧ phys < layout.roEnd then 7 else flags
  let flags :=
    if userStart ≠ userEnd ∧ phys + 4096 > userStart ∧ phys < userEnd then 7 else flags
  let flags :=
    if codeStart ≠ codeEnd ∧ phys + 4096 > codeStart ∧ phys < codeEnd then 7 else flags
  phys ||| flags

def fillIdentityTable (layout : Layout) (userStart userEnd codeStart codeEnd : Word) :
    Fin 1024 → Word :=
  identityEntry layout userStart userEnd codeStart codeEnd

/-- The index of the new address space, or `none` for the result -1. -/
def pagingCreateTaskDirectoryEx (layout : Layout)
    (codeBase codeSize userStackBase userStackSize : Word) (pages : Pages) :
    Option (Fin 6) × Pages :=
  match (List.finRange maxAddrSpaces).find? fun space => !pages.taskDirUsed space with
  | none => (none, pages)
  | some space =>
      let directory := fun index : Fin 1024 =>
        if index = 0 then layout.taskTable space ||| 7 else 0x00000002
      let table := fillIdentityTable layout userStackBase (userStackBase + userStackSize)
        codeBase (codeBase + codeSize)
      (some space,
        { taskDirectories := Function.update pages.taskDirectories space directory
          taskTables := Function.update pages.taskTables space table
          taskDirUsed := Function.update pages.taskDirUsed space true })

def pagingFreeTaskDirectory (space : Fin 6) (pages : Pages) : Pages :=
  { pages with taskDirUsed := Function.update pages.taskDirUsed space false }

/-- The page directory that `CR3` points to. -/
inductive PageDirectory where
  | kernel
  | task (space : Fin 6)
  deriving DecidableEq

/-- An entry with the flags of a present, writable user page. -/
def userEntry (entry : Word) : Bool := entry &&& 7 = 7

/-- A ring-3 access to the address is permitted in the address space: the entry of the page
directory and that of the page table both permit it. The only present entry of a task's
directory points to the task's own table. -/
def Pages.UserAccessible (pages : Pages) (space : Fin 6) (address : Word) : Bool :=
  userEntry (pages.taskDirectories space (Fin.ofNat 1024 (address >>> 22).toNat)) &&
    userEntry (pages.taskTables space (Fin.ofNat 1024 (address >>> 12).toNat))

/-- The directory of a task: its only present entry points to the task's own table. -/
def taskDirectory (layout : Layout) (space : Fin 6) : Fin 1024 → Word := fun index =>
  if index = 0 then layout.taskTable space ||| 7 else 0x00000002

/-- A new address space was not in use before and is the only one changed. -/
theorem pagingCreateTaskDirectoryEx_some {layout : Layout}
    {codeBase codeSize userStackBase userStackSize : Word} {pages after : Pages} {space : Fin 6}
    (created : pagingCreateTaskDirectoryEx layout codeBase codeSize userStackBase userStackSize
      pages = (some space, after)) :
    pages.taskDirUsed space = false ∧ after =
      { taskDirectories :=
          Function.update pages.taskDirectories space (taskDirectory layout space)
        taskTables := Function.update pages.taskTables space
          (fillIdentityTable layout userStackBase (userStackBase + userStackSize)
            codeBase (codeBase + codeSize))
        taskDirUsed := Function.update pages.taskDirUsed space true } := by
  unfold pagingCreateTaskDirectoryEx at created
  split at created
  · exact absurd (congrArg Prod.fst created) (Option.some_ne_none _ ·.symm)
  · next found search =>
      have unused := List.find?_some search
      obtain rfl : found = space := Option.some.inj (congrArg Prod.fst created)
      obtain rfl := congrArg Prod.snd created
      exact ⟨by simpa using unused, rfl⟩

theorem taskDirUsed_update (used : Fin 6 → Bool) (space query : Fin 6) :
    Function.update used space true query = true ↔ used query = true ∨ some space = some query := by
  by_cases here : query = space
  · simp [here]
  · simp [here, Ne.symm here]

theorem pagingCreateTaskDirectoryEx_none {layout : Layout}
    {codeBase codeSize userStackBase userStackSize : Word} {pages after : Pages}
    (failed : pagingCreateTaskDirectoryEx layout codeBase codeSize userStackBase userStackSize
      pages = (none, after)) : after = pages := by
  unfold pagingCreateTaskDirectoryEx at failed
  split at failed
  · exact (congrArg Prod.snd failed).symm
  · exact absurd (congrArg Prod.fst failed) (Option.some_ne_none _)

end MxOS.Paging
