import MxOS.Kernel.ExecSlots
import MxOS.Kernel.SchedOwnership

/-! # Isolation between programs

The window and the stack of a program are given to its address space in bytes, but the
page table protects pages. Windows start at pages; the stacks are only aligned to 16
bytes, so that two neighbouring stacks may share a page, which is then open to both
programs.
-/

namespace MxOS.Exec

open ByteMemory Paging Sched

/-- The stack of a slot. -/
def stackArea (layout : ExecLayout) (slot : Fin 4) : Set Word :=
  span (layout.execStack slot) execStackSize.toNat

theorem mem_stackArea {layout : ExecLayout} {slot : Fin 4} {address : Word} :
    address ∈ stackArea layout slot ↔
      layout.execStacks.toNat + slot.val * 4096 ≤ address.toNat ∧
        address.toNat < layout.execStacks.toNat + slot.val * 4096 + 4096 := by
  have bound := layout.stacksNoWrap
  have size : execStackSize.toNat = 4096 := rfl
  rw [stackArea, mem_span_iff (by rw [execStack_toNat, size]; omega), execStack_toNat, size]

/-! ### Pages -/

/-- The page of the address reaches into the given range. -/
def PageMeets (address : Word) (low high : Nat) : Prop :=
  low < address.toNat / 4096 * 4096 + 4096 ∧ address.toNat / 4096 * 4096 < high

theorem userEntry_flags (index : Fin 1024) :
    userEntry (BitVec.ofNat 32 (index.val * 4096) ||| 3) = false ∧
      userEntry (BitVec.ofNat 32 (index.val * 4096) ||| 7) = true := by
  revert index
  decide +kernel

theorem userEntry_ite (index : Fin 1024) (test : Prop) [Decidable test] (flags : Word) :
    userEntry (BitVec.ofNat 32 (index.val * 4096) ||| if test then 7 else flags) = true ↔
      test ∨ userEntry (BitVec.ofNat 32 (index.val * 4096) ||| flags) = true := by
  by_cases holds : test
  · simp only [holds, ↓reduceIte, (userEntry_flags index).2, true_or]
  · simp only [holds, ↓reduceIte, false_or]

/-- A page is a user page if it reaches into the shared image or one of the two windows. -/
theorem userEntry_identityEntry (layout : Layout) {userStart userEnd codeStart codeEnd : Word}
    (stack : userStart ≠ userEnd) (code : codeStart ≠ codeEnd) (address : Word)
    (mapped : address.toNat < 0x400000) :
    userEntry (identityEntry layout userStart userEnd codeStart codeEnd
        (Fin.ofNat 1024 (address >>> 12).toNat)) = true ↔
      PageMeets address codeStart.toNat codeEnd.toNat ∨
        PageMeets address userStart.toNat userEnd.toNat ∨
        PageMeets address layout.textStart.toNat layout.roEnd.toNat := by
  have page : (Fin.ofNat 1024 (address >>> 12).toNat).val = address.toNat / 4096 := by
    rw [Fin.val_ofNat, BitVec.toNat_ushiftRight, Nat.shiftRight_eq_div_pow]
    omega
  have meets : ∀ low high : Word,
      (BitVec.ofNat 32 (address.toNat / 4096 * 4096) + 4096 > low ∧
        BitVec.ofNat 32 (address.toNat / 4096 * 4096) < high) ↔
      PageMeets address low.toNat high.toNat := by
    intro low high
    unfold PageMeets
    bv_omega
  unfold identityEntry
  simp only
  rw [userEntry_ite, userEntry_ite, userEntry_ite, page, meets, meets, meets]
  have none := (userEntry_flags (Fin.ofNat 1024 (address >>> 12).toNat)).1
  rw [page] at none
  simp only [stack, code, ne_eq, not_false_eq_true, true_and, none, Bool.false_eq_true, or_false]

theorem userEntry_taskDirectory (layout : Layout) (space : Fin 6) (address : Word) :
    userEntry (taskDirectory layout space (Fin.ofNat 1024 (address >>> 22).toNat)) = true ↔
      address.toNat < 0x400000 := by
  have index : (Fin.ofNat 1024 (address >>> 22).toNat).val = address.toNat / 0x400000 := by
    rw [Fin.val_ofNat, BitVec.toNat_ushiftRight, Nat.shiftRight_eq_div_pow]
    omega
  unfold taskDirectory
  by_cases first : Fin.ofNat 1024 (address >>> 22).toNat = 0
  · have absorbed : (layout.taskTable space ||| 7) &&& 7 = (7 : Word) := by
      apply BitVec.eq_of_getLsbD_eq
      intro bit bound
      simp only [BitVec.getLsbD_and, BitVec.getLsbD_or]
      cases (7 : Word).getLsbD bit <;> simp
    rw [if_pos first, userEntry, absorbed]
    rw [first, Fin.val_zero] at index
    exact iff_of_true rfl (by omega)
  · rw [if_neg first]
    refine iff_of_false (by decide) fun mapped => first (Fin.ext ?_)
    rw [index, Fin.val_zero]
    omega

/-- The address space of a program in the slot. -/
theorem Windows.userAccessible_iff {layout : ExecLayout} {pages : Pages} {space : Fin 6}
    {slot : Fin 4} (windows : Windows layout pages space slot) (address : Word) :
    pages.UserAccessible space address = true ↔ address.toNat < 0x400000 ∧
      (PageMeets address (0x300000 + slot.val * 0x30000) (0x300000 + slot.val * 0x30000 + 0x20000) ∨
        PageMeets address (layout.execStacks.toNat + slot.val * 4096)
          (layout.execStacks.toNat + slot.val * 4096 + 4096) ∨
        PageMeets address layout.textStart.toNat layout.roEnd.toNat) := by
  have small := slot.isLt
  have bound := layout.stacksNoWrap
  have stack := execStack_toNat layout slot
  have code := slotBase_toNat slot
  have stackEnd : (layout.execStack slot + execStackSize).toNat =
      layout.execStacks.toNat + slot.val * 4096 + 4096 := by
    rw [BitVec.toNat_add, stack, show execStackSize.toNat = 4096 from rfl]
    omega
  have codeEnd : (slotBase slot + userProgMaxSize).toNat =
      0x300000 + slot.val * 0x30000 + 0x20000 := by
    rw [BitVec.toNat_add, code, show userProgMaxSize.toNat = 0x20000 from rfl]
    omega
  rw [Pages.UserAccessible, windows.table, windows.directory, Bool.and_eq_true,
    userEntry_taskDirectory]
  refine and_congr_right fun mapped => ?_
  rw [fillIdentityTable, userEntry_identityEntry layout.toLayout ?_ ?_ address mapped, stack, code,
    stackEnd, codeEnd]
  · intro same
    have := congrArg BitVec.toNat same
    omega
  · intro same
    have := congrArg BitVec.toNat same
    omega

/-! ### Address spaces along a run -/

/-- Address spaces that tasks hold are in use, each by one task. -/
structure Spaces (kernel : Kernel) : Prop where
  used : ∀ pid space, (kernel.tasks pid).addrSpace = some space →
    kernel.pages.taskDirUsed space = true
  apart : ∀ first second space, (kernel.tasks first).addrSpace = some space →
    (kernel.tasks second).addrSpace = some space → first = second

theorem Spaces.unmoved {kernel after : Kernel} (spaces : Spaces kernel)
    (unmoved : Unmoved kernel after) : Spaces after where
  used := by
    simp only [unmoved.addrSpace, unmoved.pages]
    exact spaces.used
  apart := by
    simp only [unmoved.addrSpace]
    exact spaces.apart

theorem releaseTask_addrSpace {pid other : Fin 16} {kernel : Kernel} {space : Fin 6}
    (held : ((releaseTask pid kernel).tasks other).addrSpace = some space) :
    other ≠ pid ∧ (kernel.tasks other).addrSpace = some space := by
  by_cases here : other = pid
  · subst here
    rw [releaseTask_self] at held
    cases held
  · rw [releaseTask_of_ne here] at held
    exact ⟨here, held⟩

theorem Spaces.releaseTask {kernel : Kernel} (spaces : Spaces kernel) (pid : Fin 16) :
    Spaces (releaseTask pid kernel) where
  used := by
    intro other space held
    obtain ⟨differ, before⟩ := releaseTask_addrSpace held
    refine (releaseTask_used pid kernel space).mpr ⟨spaces.used other space before, ?_⟩
    exact fun own => differ (spaces.apart other pid space before own)
  apart := by
    intro first second space one two
    exact spaces.apart first second space (releaseTask_addrSpace one).2
      (releaseTask_addrSpace two).2

theorem Spaces.entered {kernel after : Kernel} (spaces : Spaces kernel) {pid : Fin 16}
    {space : Option (Fin 6)} (entered : Entered kernel pid space after) : Spaces after where
  used := by
    intro other held has
    rw [entered.used]
    by_cases here : other = pid
    · exact Or.inr (entered.addrSpace.symm.trans (here ▸ has))
    · rw [entered.others other here] at has
      exact Or.inl (spaces.used other held has)
  apart := by
    -- The new task's space was unused, so no other task holds it.
    have fresh : ∀ other held, other ≠ pid → (after.tasks other).addrSpace = some held →
        space ≠ some held := by
      intro other held differ has new
      rw [entered.others other differ] at has
      have used := spaces.used other held has
      rw [entered.unused held new] at used
      cases used
    intro first second held one two
    by_cases isFirst : first = pid
    · by_cases isSecond : second = pid
      · rw [isFirst, isSecond]
      · exact absurd (entered.addrSpace.symm.trans (isFirst ▸ one)) (fresh second held isSecond two)
    · by_cases isSecond : second = pid
      · exact absurd (entered.addrSpace.symm.trans (isSecond ▸ two)) (fresh first held isFirst one)
      · rw [entered.others first isFirst] at one
        rw [entered.others second isSecond] at two
        exact spaces.apart first second held one two

/-- Every active program has the address space that was made for its slot. -/
structure Enclosed (layout : ExecLayout) (session : Session) : Prop where
  spaces : Spaces session.machine.kernel
  windows : ∀ pid slot, session.Occupies pid slot → ∃ space,
    (session.machine.kernel.tasks pid).addrSpace = some space ∧
      Windows layout session.machine.kernel.pages space slot

theorem releaseTask_tables (pid : Fin 16) (kernel : Kernel) :
    (releaseTask pid kernel).pages.taskTables = kernel.pages.taskTables ∧
      (releaseTask pid kernel).pages.taskDirectories = kernel.pages.taskDirectories := by
  simp only [releaseTask]
  cases (kernel.tasks pid).addrSpace with
  | none => exact ⟨rfl, rfl⟩
  | some own => exact ⟨rfl, rfl⟩

theorem Enclosed.turn {layout : ExecLayout} {event : Event} {session after : Session}
    {created : Option (Fin 16)} (enclosed : Enclosed layout session)
    (turn : Turn layout event session created after) : Enclosed layout after := by
  cases turn with
  | unmoved unmoved _ same =>
      refine ⟨enclosed.spaces.unmoved unmoved, fun pid slot occupies => ?_⟩
      obtain ⟨active, launched⟩ := occupies
      rw [unmoved.active] at active
      rw [same] at launched
      rw [unmoved.addrSpace, unmoved.pages]
      exact enclosed.windows pid slot ⟨active, launched⟩
  | released pid unmoved _ same =>
      refine ⟨(enclosed.spaces.releaseTask pid).unmoved unmoved, fun other slot occupies => ?_⟩
      obtain ⟨active, launched⟩ := occupies
      obtain ⟨differ, active⟩ := active_of_released unmoved active
      rw [same] at launched
      obtain ⟨space, held, windows⟩ := enclosed.windows other slot ⟨active, launched⟩
      obtain ⟨tables, directories⟩ := releaseTask_tables pid session.machine.kernel
      refine ⟨space, ?_, ?_, ?_⟩
      · rw [unmoved.addrSpace, releaseTask_of_ne differ]
        exact held
      · rw [unmoved.pages, tables]
        exact windows.table
      · rw [unmoved.pages, directories]
        exact windows.directory
  | created pid space entered _ same made =>
      refine ⟨enclosed.spaces.entered entered, fun other slot occupies => ?_⟩
      obtain ⟨active, launched⟩ := occupies
      rw [same] at launched
      by_cases here : other = pid
      · subst here
        rw [Function.update_self] at launched
        obtain ⟨own, rfl, windows⟩ := made slot launched
        exact ⟨own, entered.addrSpace, windows⟩
      · rw [Function.update_of_ne here] at launched
        rw [entered.others other here] at active ⊢
        obtain ⟨held, has, windows⟩ := enclosed.windows other slot ⟨active, launched⟩
        have differ : space ≠ some held := by
          intro new
          have used := enclosed.spaces.used other held has
          rw [entered.unused held new] at used
          cases used
        refine ⟨held, has, ?_, ?_⟩
        · rw [entered.tables held differ]
          exact windows.table
        · rw [entered.directories held differ]
          exact windows.directory

theorem run_enclosed {layout : ExecLayout} {drive : Ata.Drive} {memory : Memory}
    {frequency : Word} {fs : Fs.State} {elfStaging : Nat → Byte} {events : List Event}
    {session : Session}
    (ran : run layout drive events (started layout memory frequency fs elfStaging) =
      some session) : Enclosed layout session := by
  refine EventRun.run_invariant (fun enclosed stepped => ?_) ?_ ran
  · obtain ⟨created, _, turn⟩ := Event.turn stepped
    exact enclosed.turn turn
  · have noSpace : ∀ pid, ((initMultitasking layout.toLayout
        (booted memory frequency)).tasks pid).addrSpace = none := by
      intro pid
      by_cases shell : pid = 0
      · subst shell
        rfl
      · simp only [initMultitasking, Function.update_of_ne shell]
    refine ⟨⟨fun pid space held => ?_, fun pid _ space held => ?_⟩, fun pid slot occupies => ?_⟩
    · cases (noSpace pid).symm.trans held
    · cases (noSpace pid).symm.trans held
    · cases occupies.2

/-! ### Shared pages -/

/-- The stacks and the windows lie outside the pages of the shared image. -/
def ExecLayout.Unshared (layout : ExecLayout) : Prop :=
  ∀ slot, ∀ address ∈ stackArea layout slot ∪ window slot,
    ¬ PageMeets address layout.textStart.toNat layout.roEnd.toNat

/-- The two stacks share no mapped page, and neither of them lies in the other's window. -/
def ExecLayout.Separates (layout : ExecLayout) (first second : Fin 4) : Prop :=
  (layout.execStacks.toNat % 4096 = 0 ∨ (first.val + 1 ≠ second.val ∧ second.val + 1 ≠ first.val) ∨
    0x400000 ≤ layout.execStacks.toNat + max first.val second.val * 4096) ∧
  Disjoint (stackArea layout first) (window second) ∧
  Disjoint (stackArea layout second) (window first)

/-- A byte of the second slot in a page that meets the stack or the window of the first. -/
def ExecLayout.Exposed (layout : ExecLayout) (first second : Fin 4) (address : Word) : Prop :=
  address ∈ stackArea layout second ∪ window second ∧ address.toNat < 0x400000 ∧
    (PageMeets address (0x300000 + first.val * 0x30000)
        (0x300000 + first.val * 0x30000 + 0x20000) ∨
      PageMeets address (layout.execStacks.toNat + first.val * 4096)
        (layout.execStacks.toNat + first.val * 4096 + 4096))

theorem ExecLayout.Separates.not_exposed {layout : ExecLayout} {first second : Fin 4}
    (separates : layout.Separates first second) (differ : first ≠ second) (address : Word) :
    ¬ layout.Exposed first second address := by
  obtain ⟨pages, firstApart, secondApart⟩ := separates
  have distinct : first.val ≠ second.val := fun same => differ (Fin.ext same)
  have bound := layout.stacksNoWrap
  rintro ⟨inStack | inWindow, mapped, meetsWindow | meetsStack⟩
  · -- Windows consist of whole pages, so the byte itself is in the first window.
    refine Set.disjoint_left.mp secondApart inStack (mem_window.mpr ?_)
    unfold PageMeets at meetsWindow
    omega
  · rw [mem_stackArea] at inStack
    unfold PageMeets at meetsStack
    omega
  · rw [mem_window] at inWindow
    unfold PageMeets at meetsWindow
    omega
  · -- The page lies in the second window, and the first stack reaches into it.
    rw [mem_window] at inWindow
    unfold PageMeets at meetsStack
    let low := max (address.toNat / 4096 * 4096) (layout.execStacks.toNat + first.val * 4096)
    have value : (BitVec.ofNat 32 low).toNat = low := by
      rw [BitVec.toNat_ofNat, Nat.mod_eq_of_lt]
      omega
    have common : BitVec.ofNat 32 low ∈ stackArea layout first := by
      rw [mem_stackArea, value]
      omega
    refine Set.disjoint_left.mp firstApart common (mem_window.mpr ?_)
    rw [value]
    omega

theorem ExecLayout.separates_of_not_exposed {layout : ExecLayout} {first second : Fin 4}
    (hidden : ∀ address, ¬ layout.Exposed first second address) :
    layout.Separates first second := by
  have bound := layout.stacksNoWrap
  refine ⟨?_, ?_, ?_⟩
  · by_contra shares
    -- The byte of the second stack next to the boundary with the first is in a common page.
    let boundary := layout.execStacks.toNat + max first.val second.val * 4096
    obtain ⟨byte, here⟩ : ∃ byte,
        (first.val < second.val ∧ byte = boundary) ∨
          (second.val < first.val ∧ byte = boundary - 1) := by
      by_cases below : first.val < second.val
      · exact ⟨boundary, Or.inl ⟨below, rfl⟩⟩
      · exact ⟨boundary - 1, Or.inr ⟨by omega, rfl⟩⟩
    have value : (BitVec.ofNat 32 byte).toNat = byte := by
      rw [BitVec.toNat_ofNat, Nat.mod_eq_of_lt]
      omega
    apply hidden (BitVec.ofNat 32 byte)
    refine ⟨Or.inl (mem_stackArea.mpr ?_), ?_, Or.inr ?_⟩
    · rw [value]
      omega
    · rw [value]
      omega
    · unfold PageMeets
      rw [value]
      omega
  · refine Set.disjoint_left.mpr fun address inStack inWindow => ?_
    apply hidden address
    rw [mem_stackArea] at inStack
    refine ⟨Or.inr inWindow, ?_, Or.inr ?_⟩
    · rw [mem_window] at inWindow
      omega
    · unfold PageMeets
      omega
  · refine Set.disjoint_left.mpr fun address inStack inWindow => ?_
    apply hidden address
    rw [mem_window] at inWindow
    refine ⟨Or.inl inStack, by omega, Or.inl ?_⟩
    unfold PageMeets
    omega

/-- In every reachable state with two active programs: no byte of the second one's stack and
window is in a user page of the first one's page table, if and only if the placement of the
stacks separates their slots. -/
theorem programs_isolated_iff (layout : ExecLayout) (drive : Ata.Drive) (memory : Memory)
    (frequency : Word) (fs : Fs.State) (elfStaging : Nat → Byte) (events : List Event)
    (session : Session)
    (ran : run layout drive events (started layout memory frequency fs elfStaging) =
      some session)
    (unshared : layout.Unshared) (first second : Fin 16) (firstSlot secondSlot : Fin 4)
    (differ : first ≠ second) (one : session.Occupies first firstSlot)
    (two : session.Occupies second secondSlot) :
    (∃ space, (session.machine.kernel.tasks first).addrSpace = some space ∧
      ∀ address ∈ stackArea layout secondSlot ∪ window secondSlot,
        session.machine.kernel.pages.UserAccessible space address = false) ↔
    layout.Separates firstSlot secondSlot := by
  obtain ⟨space, held, windows⟩ := (run_enclosed ran).windows first firstSlot one
  have slots : firstSlot ≠ secondSlot := by
    rintro rfl
    exact differ ((run_remembered ran).occupies_inj one two)
  have exposed : ∀ address ∈ stackArea layout secondSlot ∪ window secondSlot,
      (session.machine.kernel.pages.UserAccessible space address = true ↔
        layout.Exposed firstSlot secondSlot address) := by
    intro address inside
    have image := unshared secondSlot address inside
    rw [windows.userAccessible_iff]
    simp only [image, or_false, ExecLayout.Exposed, inside, true_and]
  constructor
  · rintro ⟨own, has, closed⟩
    obtain rfl : space = own := Option.some.inj (held.symm.trans has)
    refine ExecLayout.separates_of_not_exposed fun address shown => ?_
    have accessible := (exposed address shown.1).mpr shown
    exact Bool.false_ne_true ((closed address shown.1).symm.trans accessible)
  · intro separates
    refine ⟨space, held, fun address inside => Bool.eq_false_iff.mpr fun accessible => ?_⟩
    exact separates.not_exposed slots address ((exposed address inside).mp accessible)

/-- The stacks at a page behind the image of the kernel. -/
def pagedStacks : ExecLayout :=
  { imageLayout with
    execStacks := 0x1A000
    stacksAligned := by decide
    stacksNoWrap := by decide }

theorem unshared_of_behind {layout : ExecLayout} (image : layout.roEnd.toNat ≤ 0x10000)
    (behind : 0x10000 ≤ layout.execStacks.toNat) : layout.Unshared := by
  rintro slot address (inStack | inWindow) ⟨_, meets⟩
  · rw [mem_stackArea] at inStack
    omega
  · rw [mem_window] at inWindow
    omega

/-- Two programs with stacks at pages of their own. -/
theorem programs_isolated_paged : ∃ session,
    helloRun pagedStacks [execHello, execHello] = some session ∧
    session.Occupies 1 0 ∧ session.Occupies 2 1 ∧
    ∃ space, (session.machine.kernel.tasks 1).addrSpace = some space ∧
      ∀ address ∈ stackArea pagedStacks 1 ∪ window 1,
        session.machine.kernel.pages.UserAccessible space address = false := by
  have evaluated : (helloRun pagedStacks [execHello, execHello]).map (fun session =>
      ((session.machine.kernel.tasks 1).active, session.launched 1,
        (session.machine.kernel.tasks 2).active, session.launched 2)) =
      some (true, some 0, true, some 1) := by decide +kernel
  obtain ⟨session, ran, values⟩ := Option.map_eq_some_iff.mp evaluated
  simp only [Prod.mk.injEq] at values
  obtain ⟨firstActive, first, secondActive, second⟩ := values
  have unshared : pagedStacks.Unshared := unshared_of_behind (by decide) (by decide)
  have separates : pagedStacks.Separates 0 1 := by
    refine ⟨Or.inl (by decide), ?_, ?_⟩ <;>
    · refine Set.disjoint_left.mpr fun address inStack inWindow => ?_
      rw [mem_stackArea] at inStack
      rw [mem_window] at inWindow
      have base : pagedStacks.execStacks.toNat = 0x1A000 := rfl
      simp only [base, Fin.val_zero, Fin.val_one] at inStack inWindow
      omega
  exact ⟨session, ran, ⟨firstActive, first⟩, ⟨secondActive, second⟩,
    (programs_isolated_iff _ _ _ _ _ _ _ session ran unshared 1 2 0 1 (by decide)
      ⟨firstActive, first⟩ ⟨secondActive, second⟩).mpr separates⟩

/-- With stacks at `0x1A010` the lowest byte of the second stack is in a user page of the first
program. -/
theorem neighbouring_stack_exposed : unalignedStacks.Unshared ∧ ∃ session,
    helloRun unalignedStacks [execHello, execHello] = some session ∧
    session.Occupies 1 0 ∧ session.Occupies 2 1 ∧ 0x1B010 ∈ stackArea unalignedStacks 1 ∧
    (∃ space, (session.machine.kernel.tasks 1).addrSpace = some space ∧
      session.machine.kernel.pages.UserAccessible space 0x1B010 = true) ∧
    ¬ ∃ space, (session.machine.kernel.tasks 1).addrSpace = some space ∧
      ∀ address ∈ stackArea unalignedStacks 1 ∪ window 1,
        session.machine.kernel.pages.UserAccessible space address = false := by
  have evaluated : (helloRun unalignedStacks [execHello, execHello]).map (fun session =>
      (((session.machine.kernel.tasks 1).active, session.launched 1),
        ((session.machine.kernel.tasks 2).active, session.launched 2),
        (session.machine.kernel.tasks 1).addrSpace,
        session.machine.kernel.pages.UserAccessible 0 0x1B010)) =
      some ((true, some 0), (true, some 1), some 0, true) := by decide +kernel
  obtain ⟨session, ran, values⟩ := Option.map_eq_some_iff.mp evaluated
  simp only [Prod.mk.injEq] at values
  obtain ⟨⟨firstActive, first⟩, ⟨secondActive, second⟩, held, accessible⟩ := values
  have byte : 0x1B010 ∈ stackArea unalignedStacks 1 := by
    rw [mem_stackArea]
    decide
  refine ⟨unshared_of_behind (by decide) (by decide), session, ran, ⟨firstActive, first⟩,
    ⟨secondActive, second⟩, byte, ⟨0, held, accessible⟩, ?_⟩
  rintro ⟨space, has, closed⟩
  obtain rfl : 0 = space := Option.some.inj (held.symm.trans has)
  exact Bool.false_ne_true ((closed 0x1B010 (Or.inl byte)).symm.trans accessible)

end MxOS.Exec
