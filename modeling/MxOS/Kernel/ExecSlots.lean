import Mathlib.Data.Finset.Card
import Mathlib.Data.Fintype.Card
import MxOS.Kernel.ExecWindows
import MxOS.Kernel.SchedSteps
import MxOS.Lib.EventRun

/-! # Which program is in which slot

A slot remembers only the number of its last task, and numbers are used again. Sessions
carry besides, for every number, the slot into which the last task of that number was
launched.

An active program is always the one its slot remembers, so that a slot that is taken
anew holds no active program. The converse fails: a number that a slot remembers may
have gone to a task elsewhere, and the slot then looks occupied until that task ends.
-/

namespace MxOS.Exec

open ByteMemory Paging Sched

structure Session where
  machine : Machine
  launched : Fin 16 → Option (Fin 4)

/-- The program of an active task is in the slot. -/
def Session.Occupies (session : Session) (pid : Fin 16) (slot : Fin 4) : Prop :=
  (session.machine.kernel.tasks pid).active = true ∧ session.launched pid = some slot

/-- An operation of the scheduler, a command, or whatever changes memory and files otherwise. -/
inductive Event where
  | sched (op : Op)
  | exec (command : Command)
  | elsewhere (memory : Memory) (fs : Fs.State)

section Sessions

variable (layout : ExecLayout) (drive : Ata.Drive)

/-- The number of the task that the event creates, if any, and the machine afterwards. -/
def Event.perform : Event → Machine → Option (Option (Fin 16) × Machine)
  | .sched op, machine =>
      (op.perform layout.toLayout machine.kernel).map fun (outcome, kernel) =>
        (outcome.createdPid, { machine with kernel := kernel })
  | .exec command, machine => execRun layout drive command machine
  | .elsewhere memory fs, machine => some (none, { machine.setMemory memory with fs := fs })

/-- The slot that a new task of the event is launched into. -/
def Event.slot : Event → Machine → Option (Fin 4)
  | .exec _, machine => findFreeSlot machine
  | _, _ => none

def Event.step (event : Event) (session : Session) : Option Session :=
  (event.perform layout drive session.machine).map fun (created, machine) =>
    { machine := machine
      launched :=
        match created with
        | none => session.launched
        | some pid => Function.update session.launched pid (event.slot session.machine) }

/-- The machine when multitasking has just been enabled. -/
def started (memory : Memory) (frequency : Word) (fs : Fs.State) (elfStaging : Nat → Byte) :
    Session where
  machine :=
    { kernel := initMultitasking layout.toLayout (booted memory frequency)
      fs := fs
      elfStaging := elfStaging
      slotPid := fun _ => -1 }
  launched := fun _ => none

end Sessions

/-! ### What a step changes -/

/-- The machines differ at most in memory, files and the buffer for files. -/
structure Aside (before after : Machine) : Prop where
  slotPid : after.slotPid = before.slotPid
  kernel : ∃ heap, after.kernel = { before.kernel with heap := heap }

namespace Aside

variable {before after : Machine}

theorem refl (machine : Machine) : Aside machine machine := ⟨rfl, _, rfl⟩

theorem setMemory (aside : Aside before after) (memory : Memory) :
    Aside before (after.setMemory memory) := by
  obtain ⟨heap, same⟩ := aside.kernel
  refine ⟨aside.slotPid, { after.kernel.heap with memory := memory }, ?_⟩
  simp only [Machine.setMemory, same]

theorem print (aside : Aside before after) (text : String) : Aside before (after.print text) :=
  ⟨aside.slotPid, aside.kernel⟩

theorem files (aside : Aside before after) (fs : Fs.State) (elfStaging : Nat → Byte) :
    Aside before { after with fs := fs, elfStaging := elfStaging } :=
  ⟨aside.slotPid, aside.kernel⟩

theorem withHeap (aside : Aside before after) (heap : Mem.Heap) :
    Aside before { after with kernel := { after.kernel with heap := heap } } := by
  obtain ⟨other, same⟩ := aside.kernel
  refine ⟨aside.slotPid, heap, ?_⟩
  simp only [same]

theorem unmoved (aside : Aside before after) : Unmoved before.kernel after.kernel := by
  obtain ⟨heap, same⟩ := aside.kernel
  rw [same]
  exact Unmoved.withHeap before.kernel heap

end Aside

/-- Nothing is started, or a task is created and its number stored with the slot. -/
inductive Launch (layout : ExecLayout) (command : Command) (slot : Fin 4) (machine : Machine) :
    Option (Fin 16) → Machine → Prop where
  | failed {after : Machine} : Aside machine after → Launch layout command slot machine none after
  | started {after : Machine} (pid : Fin 16) (entry : Word) (heap : Mem.Heap) :
      createUserTaskArgv layout.toLayout (userTask layout command slot entry)
        { machine.kernel with heap := heap } = some (some pid, after.kernel) →
      after.slotPid = Function.update machine.slotPid slot pid.val →
      Launch layout command slot machine (some pid) after

theorem startTask_launch {layout : ExecLayout} {command : Command} {slot : Fin 4} {entry : Word}
    {machine prepared after : Machine} {result : Option (Fin 16)} (aside : Aside machine prepared)
    (started : startTask layout command slot entry prepared = some (result, after)) :
    Launch layout command slot machine result after := by
  unfold startTask at started
  have built := aside.setMemory
    (buildArgv (layout.execStack slot) command.argv prepared.memory)
  generalize prepared.setMemory
    (buildArgv (layout.execStack slot) command.argv prepared.memory) = ready at started built
  simp only at started
  split at started
  · cases started
  · next refused =>
      cases started
      obtain ⟨heap, rfl⟩ := createUserTaskArgv_refused refused
      exact .failed ((built.withHeap heap).print _)
  · next pid kernel created =>
      cases started
      obtain ⟨heap, same⟩ := built.kernel
      rw [same] at created
      exact .started pid entry heap created (by rw [built.slotPid])

theorem launch_launch {layout : ExecLayout} {drive : Ata.Drive} {command : Command}
    {slot : Fin 4} {machine after : Machine} {result : Option (Fin 16)}
    (launched : launch layout drive command slot machine = some (result, after)) :
    Launch layout command slot machine result after := by
  unfold launch at launched
  simp only at launched
  generalize Fs.fsLoadFile drive (some command.name) _ userProgMaxSize _ = loaded at launched
  have read := (((Aside.refl machine).setMemory (clearWindow (slotBase slot) machine.memory)).files
    loaded.fs loaded.dest)
  split at launched
  · cases launched
    exact .failed read
  · generalize Elf.elfLoad _ _ = outcome at launched
    obtain ⟨reason | entry, loader⟩ := outcome
    · cases launched
      exact .failed ((read.setMemory loader.bus.memory).print reason.text)
    · exact startTask_launch (read.setMemory loader.bus.memory) launched

/-- The address space is the one `exec_run` makes for the slot. -/
structure Windows (layout : ExecLayout) (pages : Pages) (space : Fin 6) (slot : Fin 4) : Prop where
  table : pages.taskTables space = fillIdentityTable layout.toLayout (layout.execStack slot)
    (layout.execStack slot + execStackSize) (slotBase slot) (slotBase slot + userProgMaxSize)
  directory : pages.taskDirectories space = taskDirectory layout.toLayout space

/-- The numbers remembered once a task is in the slot, if it is in one. -/
def remember (slotPid : Fin 4 → Int) (slot : Option (Fin 4)) (pid : Fin 16) : Fin 4 → Int :=
  match slot with
  | none => slotPid
  | some slot => Function.update slotPid slot pid.val

theorem remember_of_eq {slotPid : Fin 4 → Int} {slot : Option (Fin 4)} {pid : Fin 16}
    {query : Fin 4} (here : slot = some query) : remember slotPid slot pid query = pid.val := by
  subst here
  exact Function.update_self ..

theorem remember_of_ne {slotPid : Fin 4 → Int} {slot : Option (Fin 4)} {pid : Fin 16}
    {query : Fin 4} (differ : slot ≠ some query) :
    remember slotPid slot pid query = slotPid query := by
  cases slot with
  | none => rfl
  | some slot => exact Function.update_of_ne (fun same => differ (congrArg some same.symm)) ..

/-- What an event does to the table of tasks and to the slots. -/
inductive Turn (layout : ExecLayout) (event : Event) (session : Session) :
    Option (Fin 16) → Session → Prop where
  | unmoved {after : Session} :
      Unmoved session.machine.kernel after.machine.kernel →
      after.machine.slotPid = session.machine.slotPid → after.launched = session.launched →
      Turn layout event session none after
  | released {after : Session} (pid : Fin 16) :
      Unmoved (releaseTask pid session.machine.kernel) after.machine.kernel →
      after.machine.slotPid = session.machine.slotPid → after.launched = session.launched →
      Turn layout event session none after
  | created {after : Session} (pid : Fin 16) (space : Option (Fin 6)) :
      Entered session.machine.kernel pid space after.machine.kernel →
      after.machine.slotPid =
        remember session.machine.slotPid (event.slot session.machine) pid →
      after.launched = Function.update session.launched pid (event.slot session.machine) →
      (∀ slot, event.slot session.machine = some slot →
        ∃ own, space = some own ∧ Windows layout after.machine.kernel.pages own slot) →
      Turn layout event session (some pid) after

theorem Event.turn {layout : ExecLayout} {drive : Ata.Drive} {event : Event}
    {session after : Session} (stepped : event.step layout drive session = some after) :
    ∃ created, event.perform layout drive session.machine = some (created, after.machine) ∧
      Turn layout event session created after := by
  obtain ⟨⟨created, machine⟩, performed, rfl⟩ := Option.map_eq_some_iff.mp stepped
  refine ⟨created, performed, ?_⟩
  cases event with
  | sched op =>
      obtain ⟨⟨outcome, kernel⟩, result, same⟩ := Option.map_eq_some_iff.mp performed
      obtain ⟨rfl, rfl⟩ := Prod.mk.inj same
      cases Op.change result with
      | unmoved nothing unmoved =>
          rw [nothing]
          exact .unmoved unmoved rfl rfl
      | released pid nothing _ unmoved =>
          rw [nothing]
          exact .released pid unmoved rfl rfl
      | entered pid space entered =>
          exact .created pid space entered rfl rfl fun _ none => (nomatch none)
  | exec command =>
      change execRun layout drive command session.machine = _ at performed
      unfold execRun at performed
      split at performed
      · cases performed
        exact .unmoved ⟨rfl, fun _ => rfl, fun _ => rfl⟩ rfl rfl
      · next slot found =>
          cases launch_launch performed with
          | failed aside => exact .unmoved aside.unmoved aside.slotPid rfl
          | started pid entry heap created slots =>
              obtain ⟨space, entered, table, directory⟩ := createUserTaskArgv_entered created
              have base : layout.execStack slot + execStackSize - execStackSize =
                  layout.execStack slot := by bv_omega
              refine .created pid (some space) entered.ofHeap ?_ rfl fun other same =>
                ⟨space, rfl, ?_⟩
              · simp only [Event.slot, found, remember, slots]
              · obtain rfl : slot = other := Option.some.inj (found.symm.trans same)
                exact ⟨by simpa only [userTask, base] using table, directory⟩
  | elsewhere memory fs =>
      obtain ⟨rfl, rfl⟩ := Prod.mk.inj (Option.some.inj performed)
      exact .unmoved ⟨rfl, fun _ => rfl, fun _ => rfl⟩ rfl rfl

/-! ### The remembered number -/

theorem Machine.slotFree_eq_false {machine : Machine} {slot : Fin 4} :
    machine.slotFree slot = false ↔
      ∃ pid : Fin 16, machine.slotPid slot = pid.val ∧
        (machine.kernel.tasks pid).active = true := by
  unfold Machine.slotFree taskIsActive
  rw [Bool.or_eq_false_iff, Bool.not_eq_false_eq_eq_true, Option.isSome_iff_exists]
  constructor
  · rintro ⟨_, pid, found⟩
    exact ⟨pid, Kernel.activePid_eq_some.mp found⟩
  · rintro ⟨pid, number, active⟩
    refine ⟨?_, pid, Kernel.activePid_eq_some.mpr ⟨number, active⟩⟩
    rw [number]
    exact decide_eq_false (by omega)

theorem Event.slot_free {event : Event} {machine : Machine} {slot : Fin 4}
    (chosen : event.slot machine = some slot) : machine.slotFree slot = true := by
  cases event with
  | exec command => exact List.find?_some chosen
  | _ => cases chosen

/-- A task that is active after another ended was active before. -/
theorem active_of_released {pid other : Fin 16} {kernel after : Kernel}
    (unmoved : Unmoved (releaseTask pid kernel) after)
    (active : (after.tasks other).active = true) :
    other ≠ pid ∧ (kernel.tasks other).active = true := by
  rw [unmoved.active] at active
  by_cases here : other = pid
  · subst here
    rw [releaseTask_self] at active
    cases active
  · rw [releaseTask_of_ne here] at active
    exact ⟨here, active⟩

/-- An active program is the one that its slot remembers. -/
def Remembered (session : Session) : Prop :=
  ∀ pid slot, session.Occupies pid slot → session.machine.slotPid slot = pid.val

theorem Remembered.turn {layout : ExecLayout} {event : Event} {session after : Session}
    {created : Option (Fin 16)} (remembered : Remembered session)
    (turn : Turn layout event session created after) : Remembered after := by
  rintro other slot ⟨active, launched⟩
  cases turn with
  | unmoved unmoved slots same =>
      rw [unmoved.active] at active
      rw [same] at launched
      rw [slots]
      exact remembered other slot ⟨active, launched⟩
  | released pid unmoved slots same =>
      rw [same] at launched
      rw [slots]
      exact remembered other slot ⟨(active_of_released unmoved active).2, launched⟩
  | created pid space entered slots same _ =>
      rw [same] at launched
      rw [slots]
      by_cases here : other = pid
      · subst here
        rw [Function.update_self] at launched
        exact remember_of_eq launched
      · rw [Function.update_of_ne here] at launched
        rw [entered.others other here] at active
        have before := remembered other slot ⟨active, launched⟩
        -- The slot chosen is not one whose number is that of an active task.
        have elsewhere : event.slot session.machine ≠ some slot := by
          intro chosen
          have occupied := Machine.slotFree_eq_false.mpr ⟨other, before, active⟩
          exact Bool.false_ne_true (occupied.symm.trans (Event.slot_free chosen))
        rw [remember_of_ne elsewhere]
        exact before

section Runs

variable (layout : ExecLayout) (drive : Ata.Drive)

/-- The session after the given events. -/
def run (events : List Event) (session : Session) : Option Session :=
  EventRun.run (Event.step layout drive) events session

variable {layout drive}

theorem run_remembered {memory : Memory} {frequency : Word} {fs : Fs.State}
    {elfStaging : Nat → Byte} {events : List Event} {session : Session}
    (ran : run layout drive events (started layout memory frequency fs elfStaging) =
      some session) : Remembered session := by
  refine EventRun.run_invariant (fun remembered stepped => ?_) ?_ ran
  · obtain ⟨created, _, turn⟩ := Event.turn stepped
    exact remembered.turn turn
  · rintro pid slot ⟨_, launched⟩
    cases launched

end Runs

/-- Active programs are in different slots. -/
theorem Remembered.occupies_inj {session : Session} (remembered : Remembered session)
    {first second : Fin 16} {slot : Fin 4} (one : session.Occupies first slot)
    (two : session.Occupies second slot) : first = second := by
  have same := (remembered first slot one).symm.trans (remembered second slot two)
  exact Fin.ext (Int.ofNat.inj same)

/-- The stacks at a multiple of 16 behind the image of the kernel. -/
def unalignedStacks : ExecLayout :=
  { imageLayout with
    execStacks := 0x1A010
    stacksAligned := by decide
    stacksNoWrap := by decide }

def hello : Fs.CString := ⟨[0x68, 0x65, 0x6C, 0x6C, 0x6F], by decide⟩

/-- A disk with one file of one sector, a program that consists of a single segment. -/
def helloDisk : Fs.State where
  disk :=
    { sectors := fun _ index =>
        Elf.smallImage 0x300000 2 4 0x300000 (BitVec.ofNat 32 index.val)
      polls := 0
      reads := []
      writes := [] }
  root :=
    { magic := Fs.fsMagic
      files := Function.update (fun _ => Fs.FileEntry.empty) 0
        ⟨Fs.copyName (fun _ => 0) hello, Fs.fsDataLba, 1⟩
      nextFreeLba := Fs.fsDataLba
      reserved := fun _ => 0 }
  bitmap := fun _ => 0
  console := []

def execHello : Event := .exec ⟨hello, 0x7000, [hello]⟩

/-- The run of the events on a machine with that disk. -/
def helloRun (layout : ExecLayout) (events : List Event) : Option Session :=
  run layout Ata.readyDrive events (started layout (fun _ => 0) 100 helloDisk fun _ => 0)

/-- `exec_run` refuses only while there are four active programs, and a slot without active
program is free. -/
def Session.Available (session : Session) : Prop :=
  (findFreeSlot session.machine = none →
    maxExecSlots ≤ (Finset.univ.filter fun pid : Fin 16 =>
      (session.machine.kernel.tasks pid).active = true ∧
        (session.launched pid).isSome = true).card) ∧
  ∀ slot, (∀ pid, ¬ session.Occupies pid slot) → session.machine.slotFree slot = true

/-- A number in use that a slot remembers is that of the program in it. -/
def Exact (session : Session) : Prop :=
  ∀ (slot : Fin 4) (pid : Fin 16), session.machine.slotPid slot = pid.val →
    (session.machine.kernel.tasks pid).active = true → session.launched pid = some slot

theorem Exact.available {session : Session} (exactly : Exact session) : session.Available := by
  have free : ∀ slot, (∀ pid, ¬ session.Occupies pid slot) →
      session.machine.slotFree slot = true := by
    intro slot vacant
    by_contra occupied
    obtain ⟨pid, number, active⟩ :=
      Machine.slotFree_eq_false.mp (Bool.eq_false_iff.mpr occupied)
    exact vacant pid ⟨active, exactly slot pid number active⟩
  refine ⟨fun refused => ?_, free⟩
  have occupied : ∀ slot, ∃ pid, session.Occupies pid slot := by
    intro slot
    by_contra vacant
    exact List.find?_eq_none.mp refused slot (List.mem_finRange slot)
      (free slot (not_exists.mp vacant))
  choose occupant occupies using occupied
  have distinct : Function.Injective occupant := by
    intro first second same
    have launched := (occupies first).2
    rw [same, (occupies second).2] at launched
    exact (Option.some.inj launched).symm
  calc maxExecSlots = (Finset.univ.image occupant).card := by
        rw [Finset.card_image_of_injective _ distinct, Finset.card_univ, Fintype.card_fin]
    _ ≤ _ := by
        refine Finset.card_le_card fun pid member => ?_
        obtain ⟨slot, _, rfl⟩ := Finset.mem_image.mp member
        refine Finset.mem_filter.mpr ⟨Finset.mem_univ _, (occupies slot).1, ?_⟩
        rw [(occupies slot).2]
        rfl

section Fresh

variable (layout : ExecLayout) (drive : Ata.Drive)

/-- A task is created. -/
def Event.Creates (event : Event) (session : Session) : Prop :=
  ∃ pid machine, event.perform layout drive session.machine = some (some pid, machine)

/-- If the event creates a task, then no slot but the one it fills remembers the number that the
task gets: the lowest one that is not in use. -/
def Event.Fresh (event : Event) (session : Session) : Prop :=
  event.Creates layout drive session →
    ∀ (pid : Fin 16) (slot : Fin 4), session.machine.kernel.freePid = some pid →
      session.machine.slotPid slot = pid.val → event.slot session.machine = some slot

end Fresh

theorem Exact.turn {layout : ExecLayout} {drive : Ata.Drive} {event : Event}
    {session after : Session} (exactly : Exact session)
    (fresh : event.Fresh layout drive session)
    (stepped : event.step layout drive session = some after) : Exact after := by
  intro slot other number active
  obtain ⟨created, performed, turn⟩ := Event.turn stepped
  cases turn with
  | unmoved unmoved slots same =>
      rw [slots] at number
      rw [unmoved.active] at active
      rw [same]
      exact exactly slot other number active
  | released pid unmoved slots same =>
      rw [slots] at number
      rw [same]
      exact exactly slot other number (active_of_released unmoved active).2
  | created pid space entered slots same _ =>
      rw [slots] at number
      rw [same]
      by_cases filled : event.slot session.machine = some slot
      · rw [remember_of_eq filled] at number
        obtain rfl : pid = other := Fin.ext (Int.ofNat.inj number)
        rw [Function.update_self, filled]
      · rw [remember_of_ne filled] at number
        have differ : other ≠ pid := by
          rintro rfl
          exact filled (fresh ⟨other, _, performed⟩ other slot entered.free number)
        rw [entered.others other differ] at active
        rw [Function.update_of_ne differ]
        exact exactly slot other number active

/-- A number given out that a slot still remembers makes that slot look occupied. -/
theorem Remembered.fresh_of_available {layout : ExecLayout} {drive : Ata.Drive} {event : Event}
    {session after : Session} (remembered : Remembered session)
    (stepped : event.step layout drive session = some after) (available : after.Available) :
    event.Fresh layout drive session := by
  rintro ⟨named, machine, creates⟩ pid slot free number
  obtain ⟨created, performed, turn⟩ := Event.turn stepped
  have later := remembered.turn turn
  obtain ⟨rfl, rfl⟩ := Prod.mk.inj (Option.some.inj (creates.symm.trans performed))
  by_contra elsewhere
  cases turn with
  | created _ space entered slots same _ =>
      obtain rfl : named = pid := Option.some.inj (entered.free.symm.trans free)
      have remembers : after.machine.slotPid slot = named.val := by
        rw [slots, remember_of_ne elsewhere]
        exact number
      have vacant : ∀ other, ¬ after.Occupies other slot := by
        intro other occupies
        obtain rfl : other = named :=
          Fin.ext (Int.ofNat.inj ((later other slot occupies).symm.trans remembers))
        have launched := occupies.2
        rw [same, Function.update_self] at launched
        exact elsewhere launched
      have taken := Machine.slotFree_eq_false.mpr ⟨named, remembers, entered.active⟩
      exact Bool.false_ne_true (taken.symm.trans (available.2 slot vacant))

/-- Slots are available at every state of a run if and only if each of its steps that creates a
task gives it a number that no slot remembers but the one the task is launched into. -/
theorem slots_available_iff (layout : ExecLayout) (drive : Ata.Drive) (memory : Memory)
    (frequency : Word) (fs : Fs.State) (elfStaging : Nat → Byte) (events : List Event) :
    (∀ earlier later, events = earlier ++ later → ∀ session,
      run layout drive earlier (started layout memory frequency fs elfStaging) = some session →
      session.Available) ↔
    EventRun.Along (Event.step layout drive) (Event.Fresh layout drive) events
      (started layout memory frequency fs elfStaging) := by
  constructor
  · rintro available earlier event later rfl session ran creates
    have created := creates
    obtain ⟨pid, machine, performed⟩ := created
    have stepped : ∃ after, event.step layout drive session = some after :=
      ⟨_, congrArg (Option.map _) performed⟩
    obtain ⟨after, stepped⟩ := stepped
    have reached : run layout drive (earlier ++ [event]) _ = some after :=
      (EventRun.run_snoc_eq_some _).mpr ⟨session, ran, stepped⟩
    have afterwards := available (earlier ++ [event]) later (by simp) after reached
    exact (run_remembered ran).fresh_of_available stepped afterwards creates
  · rintro fresh earlier later rfl session ran
    have exactly : Exact session := by
      refine fresh.within.invariant (fun exactly fresh => exactly.turn fresh) ?_ ran
      intro slot pid number
      exact absurd number (by simp only [started]; omega)
    exact exactly.available

/-- A kernel task has number 1. The first program gets number 2 in slot 0; then number 1 is free
and the second program gets it in slot 1. Both end. The third program gets number 1 in slot 0,
and slot 1, where no program is, counts as occupied. -/
def staleEvents : List Event :=
  [.sched (.createTask 0x9100 0xF010), execHello, .sched (.kill 1), execHello,
    .sched (.kill 1), .sched (.kill 2), execHello]

theorem stale_slot_unavailable :
    (∃ session, helloRun unalignedStacks staleEvents = some session ∧
      session.machine.slotFree 1 = false ∧
      ∀ pid, ¬ session.Occupies pid 1) ∧
    ¬ ∀ earlier later, staleEvents = earlier ++ later → ∀ session,
      helloRun unalignedStacks earlier = some session → session.Available := by
  have evaluated : (helloRun unalignedStacks staleEvents).map (fun session =>
      (session.machine.slotFree 1,
        (List.finRange 16).any fun pid =>
          (session.machine.kernel.tasks pid).active && session.launched pid == some 1)) =
      some (false, false) := by decide +kernel
  obtain ⟨session, ran, values⟩ := Option.map_eq_some_iff.mp evaluated
  simp only [Prod.mk.injEq] at values
  obtain ⟨occupied, none⟩ := values
  have vacant : ∀ pid, ¬ session.Occupies pid 1 := by
    rintro pid ⟨active, launched⟩
    have absent := List.any_eq_false.mp none pid (List.mem_finRange pid)
    simp [active, launched] at absent
  refine ⟨⟨session, ran, occupied, vacant⟩, fun available => ?_⟩
  have free := (available staleEvents [] (by simp) session ran).2 1 vacant
  exact Bool.false_ne_true (occupied.symm.trans free)

end MxOS.Exec
