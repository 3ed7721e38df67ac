import MxOS.Kernel.HeapStacks

/-! # When tasks can be created

The heap has room for the stack of every task of the table, so a creation fails only when
the table is full or, for a ring-3 task, when all address spaces are in use. A task is
given the least process number that is not in use, and the least address space.
-/

namespace MxOS.Sched

open ByteMemory Mem Paging

theorem find?_finRange_eq_none_iff {count : Nat} {kind : Fin count → Bool} :
    (List.finRange count).find? kind = none ↔ ∀ index, kind index = false := by
  rw [List.find?_eq_none]
  constructor
  · intro fails index
    exact Bool.eq_false_iff.mpr (fails index (List.mem_finRange index))
  · intro fails index _
    rw [fails index]
    exact Bool.false_ne_true

/-- The first index of a kind. -/
def IsFirst {count : Nat} (kind : Fin count → Prop) (index : Fin count) : Prop :=
  kind index ∧ ∀ earlier < index, ¬ kind earlier

theorem find?_finRange_isFirst {count : Nat} {kind : Fin count → Bool} {index : Fin count}
    (found : (List.finRange count).find? kind = some index) :
    IsFirst (fun index => kind index = true) index := by
  obtain ⟨holds, first, later, parts, before⟩ := List.find?_eq_some_iff_append.mp found
  refine ⟨holds, fun earlier less kept => ?_⟩
  have sorted : (List.finRange count).Pairwise (· < ·) := List.pairwise_lt_finRange count
  have member := List.mem_finRange earlier
  rw [parts] at sorted member
  rcases List.mem_append.mp member with inFirst | inRest
  · have fails := before earlier inFirst
    rw [kept] at fails
    exact absurd fails Bool.false_ne_true
  · rcases List.mem_cons.mp inRest with rfl | inLater
    · exact lt_irrefl _ less
    · have above := List.rel_of_pairwise_cons (List.pairwise_append.mp sorted).2.1 inLater
      exact absurd (less.trans above) (lt_irrefl _)

variable {layout : Layout} {kernel : Kernel}

/-- The number of tasks is below the size of the table exactly if an entry is unused. -/
theorem Owned.full_iff (owned : Owned kernel) :
    kernel.taskCount ≥ maxTasks ↔ ∀ pid, (kernel.tasks pid).active = true := by
  rw [owned.count, show maxTasks = (Finset.univ : Finset (Fin 16)).card from rfl]
  constructor
  · intro enough pid
    have every := Finset.eq_of_subset_of_card_le (Finset.subset_univ (activePids kernel.tasks))
      enough
    have member := Finset.mem_univ pid
    rw [← every] at member
    exact (Finset.mem_filter.mp member).2
  · intro every
    refine Finset.card_le_card fun pid _ => Finset.mem_filter.mpr ⟨Finset.mem_univ pid, every pid⟩

/-- The search for a table entry. -/
theorem Owned.freePid_cases (owned : Owned kernel) :
    (kernel.taskCount ≥ maxTasks ∧ ∀ pid, (kernel.tasks pid).active = true) ∨
    ∃ pid, ¬ kernel.taskCount ≥ maxTasks ∧ kernel.freePid = some pid ∧
      IsFirst (fun pid => (kernel.tasks pid).active = false) pid := by
  cases found : kernel.freePid with
  | none =>
      have every : ∀ pid, (kernel.tasks pid).active = true := fun pid => by
        simpa using find?_finRange_eq_none_iff.mp found pid
      exact Or.inl ⟨owned.full_iff.mpr every, every⟩
  | some pid =>
      have first := find?_finRange_isFirst found
      simp only [Bool.not_eq_true'] at first
      refine Or.inr ⟨pid, fun full => ?_, rfl, first⟩
      have active := owned.full_iff.mp full pid
      rw [first.1] at active
      exact Bool.false_ne_true active

/-- There is always room for one more stack. -/
theorem Reachable.kmalloc_stack (reachable : Reachable layout kernel) :
    ∃ ptr heap, kmalloc taskStackSize kernel.heap = some (ptr, heap) ∧ ptr ≠ 0 := by
  obtain ⟨live, blocks, stacked⟩ := reachable.cellular
  rcases stacked.kmalloc with ⟨full, _⟩ | ⟨_, ptr, heap, _, returned, valid, _⟩
  · have few := stacked.length_le reachable.owned
    simp only [stackCells, maxTasks] at full few
    omega
  · exact ⟨ptr, heap, returned, valid⟩

/-- A creation that fails for want of a table entry changes nothing. -/
theorem Reachable.createTask_cases (reachable : Reachable layout kernel) (entry name : Word) :
    (∀ pid, (kernel.tasks pid).active = true) ∧
        createTask layout entry name kernel = some (none, kernel) ∨
      ∃ pid after, IsFirst (fun pid => (kernel.tasks pid).active = false) pid ∧
        createTask layout entry name kernel = some (some pid, after) := by
  unfold createTask
  rcases reachable.owned.freePid_cases with ⟨full, every⟩ | ⟨pid, room, found, first⟩
  · rw [if_pos full]
    exact Or.inl ⟨every, rfl⟩
  · obtain ⟨ptr, heap, allocated, valid⟩ := reachable.kmalloc_stack
    rw [if_neg room, found]
    simp only [allocated, valid, ↓reduceIte]
    exact Or.inr ⟨pid, _, first, rfl⟩

theorem Reachable.createUserTaskArgv_cases (reachable : Reachable layout kernel)
    (task : UserTask) :
    (∃ after, createUserTaskArgv layout task kernel = some (none, after) ∧
      after.tasks = kernel.tasks ∧ after.pages = kernel.pages ∧
      after.taskCount = kernel.taskCount ∧
      ((∀ pid, (kernel.tasks pid).active = true) ∨
        ∀ space, kernel.pages.taskDirUsed space = true)) ∨
    ∃ pid after space, createUserTaskArgv layout task kernel = some (some pid, after) ∧
      IsFirst (fun pid => (kernel.tasks pid).active = false) pid ∧
      IsFirst (fun space => kernel.pages.taskDirUsed space = false) space ∧
      (after.tasks pid).addrSpace = some space := by
  unfold createUserTaskArgv
  rcases reachable.owned.freePid_cases with ⟨full, every⟩ | ⟨pid, room, found, first⟩
  · rw [if_pos full]
    exact Or.inl ⟨kernel, rfl, rfl, rfl, rfl, Or.inl every⟩
  · obtain ⟨ptr, heap, allocated, valid⟩ := reachable.kmalloc_stack
    rw [if_neg room, found]
    simp only [allocated, valid, ↓reduceIte]
    unfold pagingCreateTaskDirectoryEx
    cases search : (List.finRange maxAddrSpaces).find?
        fun space => !kernel.pages.taskDirUsed space with
    | none =>
        have used : ∀ space, kernel.pages.taskDirUsed space = true := fun space => by
          simpa using find?_finRange_eq_none_iff.mp search space
        exact Or.inl ⟨_, rfl, rfl, rfl, rfl, Or.inr used⟩
    | some space =>
        have unused := find?_finRange_isFirst search
        simp only [Bool.not_eq_true'] at unused
        refine Or.inr ⟨pid, _, space, rfl, first, unused, ?_⟩
        simp only [installTask, Function.update_self]

/-- A task is refused only for want of a table entry or, in ring 3, of an address space: in every
reachable state `create_task` returns, and it returns -1 if and only if all sixteen entries are
active, and `create_user_task_argv` returns, and it returns -1 if and only if all sixteen entries
are active or all six address spaces are in use. Otherwise the task has the least process number
and the least address space that were not in use. A refusal leaves the table and the address
spaces as they were. -/
theorem creation_refused_iff (layout : Layout) (kernel : Kernel)
    (reachable : Reachable layout kernel) :
    (∀ entry name, ∃ result after, createTask layout entry name kernel = some (result, after) ∧
      (result = none ↔ ∀ pid, (kernel.tasks pid).active = true) ∧
      (result = none → after = kernel) ∧
      ∀ pid, result = some pid → IsFirst (fun pid => (kernel.tasks pid).active = false) pid) ∧
    ∀ task, ∃ result after, createUserTaskArgv layout task kernel = some (result, after) ∧
      (result = none ↔ (∀ pid, (kernel.tasks pid).active = true) ∨
        ∀ space, kernel.pages.taskDirUsed space = true) ∧
      (result = none → after.tasks = kernel.tasks ∧ after.pages = kernel.pages ∧
        after.taskCount = kernel.taskCount) ∧
      ∀ pid, result = some pid →
        IsFirst (fun pid => (kernel.tasks pid).active = false) pid ∧
        ∃ space, IsFirst (fun space => kernel.pages.taskDirUsed space = false) space ∧
          (after.tasks pid).addrSpace = some space := by
  constructor
  · intro entry name
    rcases reachable.createTask_cases entry name with ⟨every, refused⟩ | ⟨pid, after, first, made⟩
    · exact ⟨none, kernel, refused, ⟨fun _ => every, fun _ => rfl⟩, fun _ => rfl,
        fun _ same => absurd same (Option.some_ne_none _ ·.symm)⟩
    · refine ⟨some pid, after, made, ⟨fun same => absurd same (Option.some_ne_none _),
        fun every => ?_⟩, fun same => absurd same (Option.some_ne_none _), fun other same => ?_⟩
      · exact absurd ((every pid).symm.trans first.1) (by decide)
      · obtain rfl := Option.some.inj same
        exact first
  · intro task
    rcases reachable.createUserTaskArgv_cases task with
      ⟨after, refused, tasks, pages, count, why⟩ | ⟨pid, after, space, made, first, unused, has⟩
    · exact ⟨none, after, refused, ⟨fun _ => why, fun _ => rfl⟩, fun _ => ⟨tasks, pages, count⟩,
        fun _ same => absurd same (Option.some_ne_none _ ·.symm)⟩
    · refine ⟨some pid, after, made, ⟨fun same => absurd same (Option.some_ne_none _),
        fun why => ?_⟩, fun same => absurd same (Option.some_ne_none _), fun other same => ?_⟩
      · rcases why with every | used
        · exact absurd ((every pid).symm.trans first.1) (by decide)
        · exact absurd ((used space).symm.trans unused.1) (by decide)
      · obtain rfl := Option.some.inj same
        exact ⟨first, space, unused, has⟩

/-- The first task that is created gets number 1. -/
theorem creation_refused_iff_start :
    ∃ after, createTask imageLayout 0x9100 0xF010
      (initMultitasking imageLayout (booted (fun _ => 0) 100)) = some (some 1, after) := by
  have start : Reachable imageLayout _ := Reachable.start (fun _ => 0) 100
  obtain ⟨result, after, made, refused, _, first⟩ :=
    (creation_refused_iff imageLayout _ start).1 0x9100 0xF010
  cases result with
  | none => exact absurd (refused.mp rfl 1) (by decide)
  | some pid =>
      have least := first pid rfl
      have number : pid = 1 := by
        obtain ⟨inactive, below⟩ := least
        have positive : pid ≠ 0 := by
          rintro rfl
          exact absurd inactive (by decide)
        by_contra other
        exact below 1 (by omega) (by decide)
      exact ⟨after, number ▸ made⟩

end MxOS.Sched
