import MxOS.Kernel.SchedSteps

/-! # Messages between tasks

A ledger records, for every process number, the messages accepted for it and the
messages it received since the task that has the number was created. The mailboxes are
first-in, first-out channels: what a task has not yet received is what its mailbox holds.
A task that was killed has lost its mailbox and receives nothing more; one that exited
keeps its mailbox until the number is given to a new task, whose ledger and mailbox start
empty.
-/

namespace MxOS.Sched

open ByteMemory Mem Paging Ipc Fifo

abbrev Ledger := Fin 16 → Channel Message

/-- The ledger after an operation with the given outcome. -/
def Ledger.record (ledger : Ledger) (before : Kernel) : Op → Outcome → Ledger
  | .send targetPid payload len, .sent 1 =>
      let target : Fin 16 := Fin.ofNat 16 targetPid.toNat
      Function.update ledger target
        ((ledger target).send (Message.ofPayload payload len before.currentTask.val))
  | .recv, .received (some message) =>
      Function.update ledger before.currentTask ((ledger before.currentTask).receive message)
  | _, .created (some pid) => Function.update ledger pid Channel.empty
  | _, _ => ledger

/-- The states of the kernel from the start of the scheduler on, each with its ledger. The
operations run in any order. -/
inductive Traced (layout : Layout) : Kernel → Ledger → Prop where
  | start (kernel : Kernel) :
      Traced layout (initMultitasking layout kernel) fun _ => Channel.empty
  | step {kernel after : Kernel} {ledger : Ledger} (op : Op) {outcome : Outcome} :
      Traced layout kernel ledger → op.perform layout kernel = some (outcome, after) →
      Traced layout after (ledger.record kernel op outcome)

/-- A process number that can receive messages: its task is active, or it is the current one,
which may have just exited. -/
def Kernel.Listening (kernel : Kernel) (pid : Fin 16) : Prop :=
  (kernel.tasks pid).active = true ∨ pid = kernel.currentTask

structure Conserved (kernel : Kernel) (ledger : Ledger) : Prop where
  enabled : kernel.multitaskingEnabled = true
  delivers : ∀ pid, kernel.Listening pid →
    (ledger pid).Delivers (kernel.tasks pid).mailbox.pending
  received : ∀ pid, (ledger pid).received <+: (ledger pid).sent

theorem initMultitasking_conserved (layout : Layout) (kernel : Kernel) :
    Conserved (initMultitasking layout kernel) fun _ => Channel.empty where
  enabled := rfl
  delivers := by
    intro pid _
    have nothing : ((initMultitasking layout kernel).tasks pid).mailbox.pending = [] := by
      by_cases shell : pid = 0
      · subst shell
        rfl
      · simp only [initMultitasking, Function.update_of_ne shell]
        rfl
    rw [nothing]
    rfl
  received := fun _ => List.prefix_rfl

/-- Who listens afterwards listened before, with the same mailbox. -/
theorem Conserved.frame {kernel after : Kernel} {ledger : Ledger}
    (conserved : Conserved kernel ledger)
    (enabled : after.multitaskingEnabled = kernel.multitaskingEnabled)
    (kept : ∀ pid, after.Listening pid →
      kernel.Listening pid ∧ (after.tasks pid).mailbox = (kernel.tasks pid).mailbox) :
    Conserved after ledger where
  enabled := enabled.trans conserved.enabled
  delivers := by
    intro pid listening
    obtain ⟨before, same⟩ := kept pid listening
    rw [same]
    exact conserved.delivers pid before
  received := conserved.received

theorem Conserved.schedule {kernel after : Kernel} {ledger : Ledger}
    (conserved : Conserved kernel ledger) {lastEsp esp : Word}
    (scheduled : schedule lastEsp kernel = some (esp, after)) : Conserved after ledger := by
  have spec := schedule_spec lastEsp conserved.enabled
  simp only [scheduled] at spec
  obtain ⟨switched, active⟩ := spec
  refine conserved.frame switched.enabled ?_
  rintro pid (alive | rfl)
  · exact ⟨Or.inl ((switched.active pid).symm.trans alive), switched.mailbox pid⟩
  · exact ⟨Or.inl active, switched.mailbox _⟩

/-- An entry of the table is replaced by one with the same mailbox, active only if it was. -/
theorem Conserved.update {kernel after : Kernel} {ledger : Ledger}
    (conserved : Conserved kernel ledger) {pid : Fin 16} {task : Task}
    (enabled : after.multitaskingEnabled = kernel.multitaskingEnabled)
    (current : after.currentTask = kernel.currentTask)
    (table : after.tasks = Function.update kernel.tasks pid task)
    (mailbox : task.mailbox = (kernel.tasks pid).mailbox)
    (active : task.active = true → (kernel.tasks pid).active = true) :
    Conserved after ledger := by
  refine conserved.frame enabled fun other listening => ?_
  simp only [Kernel.Listening, table, current] at listening ⊢
  by_cases here : other = pid
  · subst here
    rw [Function.update_self] at listening ⊢
    exact ⟨listening.imp_left active, mailbox⟩
  · rw [Function.update_of_ne here] at listening ⊢
    exact ⟨listening, rfl⟩

theorem Conserved.taskExitCurrent {kernel : Kernel} {ledger : Ledger}
    (conserved : Conserved kernel ledger) : Conserved (taskExitCurrent kernel) ledger := by
  unfold Sched.taskExitCurrent
  split
  · next active => exact conserved.update rfl rfl rfl rfl fun _ => active
  · exact conserved

theorem Conserved.taskKill {kernel : Kernel} {ledger : Ledger}
    (conserved : Conserved kernel ledger) (target : Int) :
    Conserved (taskKill target kernel).2 ledger := by
  unfold Sched.taskKill
  cases kernel.activePid target with
  | none => exact conserved
  | some pid =>
      simp only
      split
      · exact conserved
      · next differ =>
          -- The killed task does not listen any more: it is neither active nor current.
          refine conserved.frame rfl fun other listening => ?_
          have elsewhere : other ≠ pid := by
            rintro rfl
            rcases listening with alive | here
            · rw [Kernel.resetMailbox, Kernel.setTask_self, releaseTask_self] at alive
              exact Bool.false_ne_true alive
            · exact differ here
          have same : ((releaseTask pid kernel).resetMailbox pid).tasks other =
              kernel.tasks other :=
            (Kernel.setTask_of_ne _ _ elsewhere).trans (releaseTask_of_ne elsewhere kernel)
          rw [Kernel.Listening, same] at listening
          exact ⟨listening, congrArg Task.mailbox same⟩

theorem Conserved.notCreated {kernel after : Kernel} {ledger : Ledger}
    (conserved : Conserved kernel ledger) (created : Created kernel none after) :
    Conserved after ledger := by
  refine conserved.frame created.enabled fun pid listening => ?_
  have table : after.tasks = kernel.tasks := created.tasks
  rw [Kernel.Listening, table, created.currentTask] at listening
  exact ⟨listening, by rw [table]⟩

theorem Conserved.created {kernel after : Kernel} {ledger : Ledger}
    (conserved : Conserved kernel ledger) {pid : Fin 16}
    (created : Created kernel (some pid) after) :
    Conserved after (Function.update ledger pid Channel.empty) := by
  obtain ⟨task, table, mailbox⟩ := created.tasks
  refine ⟨created.enabled.trans conserved.enabled, fun other listening => ?_, fun other => ?_⟩
  · by_cases here : other = pid
    · subst here
      rw [table, Function.update_self, Function.update_self, mailbox, pending_mailboxReset]
      rfl
    · simp only [Kernel.Listening, created.currentTask, table, Function.update_of_ne here]
        at listening ⊢
      exact conserved.delivers other listening
  · by_cases here : other = pid
    · subst here
      rw [Function.update_self]
      exact List.prefix_rfl
    · rw [Function.update_of_ne here]
      exact conserved.received other

/-- A mailbox and its channel change together. -/
theorem Conserved.mailbox {kernel : Kernel} {ledger : Ledger} (conserved : Conserved kernel ledger)
    (pid : Fin 16) {mailbox : Mailbox} {channel : Channel Message}
    (delivers : channel.Delivers mailbox.pending) :
    Conserved (kernel.setTask pid { kernel.tasks pid with mailbox := mailbox })
      (Function.update ledger pid channel) := by
  refine ⟨conserved.enabled, fun other listening => ?_, fun other => ?_⟩
  · by_cases here : other = pid
    · subst here
      rw [Kernel.setTask_self, Function.update_self]
      exact delivers
    · rw [Kernel.Listening, Kernel.setTask_of_ne _ _ here] at listening
      rw [Kernel.setTask_of_ne _ _ here, Function.update_of_ne here]
      exact conserved.delivers other listening
  · by_cases here : other = pid
    · subst here
      rw [Function.update_self]
      exact delivers.received_prefix
    · rw [Function.update_of_ne here]
      exact conserved.received other

/-- Sending fails at an unknown or inactive task and at a full mailbox, else it queues the
message. -/
theorem ipcSend_cases (payload : Nat → Byte) (target : Int) (len : Word) (kernel : Kernel) :
    (kernel.activePid target = none ∧
      ipcSend (supply payload) target len kernel () = (-1, kernel, ())) ∨
    ∃ pid, kernel.activePid target = some pid ∧
      (((kernel.tasks pid).mailbox.pending.length = 4 ∧
        ipcSend (supply payload) target len kernel () =
          (0, kernel.setTask pid (kernel.tasks pid), ())) ∨
      ∃ mailbox, (kernel.tasks pid).mailbox.pending.length < 4 ∧
        ipcSend (supply payload) target len kernel () =
          (1, kernel.setTask pid { kernel.tasks pid with mailbox := mailbox }, ()) ∧
        mailbox.pending = (kernel.tasks pid).mailbox.pending ++
          [Message.ofPayload payload len kernel.currentTask.val]) := by
  unfold ipcSend
  cases found : kernel.activePid target with
  | none => exact Or.inl ⟨rfl, rfl⟩
  | some pid =>
      right
      refine ⟨pid, rfl, ?_⟩
      rw [length_pending]
      by_cases room : (kernel.tasks pid).mailbox.count.val < 4
      · right
        obtain ⟨mailbox, deposited, queued⟩ :=
          deposit_pending room payload len kernel.currentTask.val
        exact ⟨mailbox, room, by simp only [deposited], queued⟩
      · left
        have full : (kernel.tasks pid).mailbox.count.val ≥ mailboxQueueSize := Nat.not_lt.mp room
        refine ⟨by omega, ?_⟩
        simp only [Mailbox.deposit, full, ↓reduceIte]

/-- Receiving takes the oldest message off the mailbox of the current task. -/
theorem ipcRecv_cases (kernel : Kernel) (buffer : Nat → Byte) :
    ((kernel.tasks kernel.currentTask).mailbox.pending = [] ∧
      ipcRecv fill kernel buffer =
        (none, kernel.setTask kernel.currentTask (kernel.tasks kernel.currentTask), buffer)) ∨
    ∃ len sender mailbox filled,
      ipcRecv fill kernel buffer = (some (len, sender), kernel.setTask kernel.currentTask
        { kernel.tasks kernel.currentTask with mailbox := mailbox }, filled) ∧
      (kernel.tasks kernel.currentTask).mailbox.pending =
        Message.ofBuffer filled len sender :: mailbox.pending := by
  unfold ipcRecv
  by_cases nothing : (kernel.tasks kernel.currentTask).mailbox.count.val = 0
  · left
    refine ⟨List.eq_nil_of_length_eq_zero ((length_pending _).trans nothing), ?_⟩
    simp only [Mailbox.withdraw, nothing, ↓reduceIte]
  · right
    obtain ⟨len, sender, mailbox, filled, withdrawn, oldest⟩ := withdraw_pending nothing buffer
    exact ⟨len, sender, mailbox, filled, by simp only [withdrawn], oldest⟩

theorem Conserved.send {layout : Layout} {kernel after : Kernel} {ledger : Ledger}
    (conserved : Conserved kernel ledger) (target : Int) (payload : Nat → Byte) (len : Word)
    {outcome : Outcome}
    (performed : (Op.send target payload len).perform layout kernel = some (outcome, after)) :
    Conserved after (ledger.record kernel (.send target payload len) outcome) := by
  have result : Outcome.sent (ipcSend (supply payload) target len kernel ()).1 = outcome ∧
      (ipcSend (supply payload) target len kernel ()).2.1 = after :=
    Prod.mk.inj (Option.some.inj performed)
  rcases ipcSend_cases payload target len kernel with ⟨_, sent⟩ |
    ⟨pid, found, ⟨_, sent⟩ | ⟨mailbox, _, sent, queued⟩⟩
  · rw [sent] at result
    obtain ⟨rfl, rfl⟩ := result
    exact conserved
  · rw [sent] at result
    obtain ⟨rfl, rfl⟩ := result
    rw [Kernel.setTask_eq_self rfl]
    exact conserved
  · rw [sent] at result
    obtain ⟨rfl, rfl⟩ := result
    obtain ⟨rfl, active⟩ := Kernel.activePid_eq_some.mp found
    have delivers := (conserved.delivers pid (Or.inl active)).send
      (Message.ofPayload payload len kernel.currentTask.val)
    rw [← queued] at delivers
    have recorded := conserved.mailbox pid delivers
    have same : Fin.ofNat 16 (pid.val : Int).toNat = pid := by
      rw [Int.toNat_natCast, Fin.ofNat_eq_cast, Fin.cast_val_eq_self]
    simp only [Ledger.record, same]
    exact recorded

theorem Conserved.recv {layout : Layout} {kernel after : Kernel} {ledger : Ledger}
    (conserved : Conserved kernel ledger) {outcome : Outcome}
    (performed : Op.recv.perform layout kernel = some (outcome, after)) :
    Conserved after (ledger.record kernel .recv outcome) := by
  have result : Outcome.received ((ipcRecv fill kernel fun _ => 0).1.map fun report =>
        Message.ofBuffer (ipcRecv fill kernel fun _ => 0).2.2 report.1 report.2) = outcome ∧
      (ipcRecv fill kernel fun _ => 0).2.1 = after :=
    Prod.mk.inj (Option.some.inj performed)
  rcases ipcRecv_cases kernel fun _ => 0 with ⟨_, received⟩ |
    ⟨len, sender, mailbox, filled, received, oldest⟩
  · rw [received] at result
    obtain ⟨rfl, rfl⟩ := result
    rw [Kernel.setTask_eq_self rfl]
    exact conserved
  · rw [received] at result
    obtain ⟨rfl, rfl⟩ := result
    have delivers := conserved.delivers kernel.currentTask (Or.inr rfl)
    rw [oldest] at delivers
    exact conserved.mailbox kernel.currentTask delivers.receive

/-- Every operation keeps the mailboxes in step with the ledger. -/
theorem Conserved.perform {layout : Layout} {kernel after : Kernel} {ledger : Ledger}
    (conserved : Conserved kernel ledger) (op : Op) {outcome : Outcome}
    (performed : op.perform layout kernel = some (outcome, after)) :
    Conserved after (ledger.record kernel op outcome) := by
  cases op with
  | createTask entry name =>
      obtain ⟨⟨pid, later⟩, created, same⟩ := Option.map_eq_some_iff.mp performed
      obtain ⟨rfl, rfl⟩ := Prod.mk.inj same
      have spec := createTask_created created
      cases pid with
      | none => exact conserved.notCreated spec
      | some pid => exact conserved.created spec
  | createUserTaskArgv task =>
      obtain ⟨⟨pid, later⟩, created, same⟩ := Option.map_eq_some_iff.mp performed
      obtain ⟨rfl, rfl⟩ := Prod.mk.inj same
      have spec := createUserTaskArgv_created created
      cases pid with
      | none => exact conserved.notCreated spec
      | some pid => exact conserved.created spec
  | schedule lastEsp =>
      obtain ⟨⟨esp, later⟩, scheduled, same⟩ := Option.map_eq_some_iff.mp performed
      obtain ⟨rfl, rfl⟩ := Prod.mk.inj same
      exact conserved.schedule scheduled
  | sleepAndReschedule ms currentEsp =>
      obtain ⟨⟨esp, later⟩, scheduled, same⟩ := Option.map_eq_some_iff.mp performed
      obtain ⟨rfl, rfl⟩ := Prod.mk.inj same
      unfold taskSleepAndReschedule at scheduled
      refine Conserved.schedule ?_ scheduled
      exact conserved.update rfl rfl rfl rfl id
  | exitCurrent =>
      obtain ⟨rfl, rfl⟩ := Prod.mk.inj (Option.some.inj performed)
      exact conserved.taskExitCurrent
  | exitAndReschedule currentEsp =>
      obtain ⟨⟨esp, later⟩, scheduled, same⟩ := Option.map_eq_some_iff.mp performed
      obtain ⟨rfl, rfl⟩ := Prod.mk.inj same
      unfold taskExitAndReschedule at scheduled
      simp only at scheduled
      split at scheduled
      · cases scheduled
      · exact conserved.taskExitCurrent.schedule scheduled
  | kill target =>
      obtain ⟨rfl, rfl⟩ := Prod.mk.inj (Option.some.inj performed)
      exact conserved.taskKill target
  | setPriority target priority =>
      obtain ⟨rfl, rfl⟩ := Prod.mk.inj (Option.some.inj performed)
      change Conserved (taskSetPriority target priority kernel) ledger
      unfold taskSetPriority
      cases kernel.activePid target with
      | none => exact conserved
      | some pid => exact conserved.update rfl rfl rfl rfl id
  | send target payload len => exact conserved.send target payload len performed
  | recv => exact conserved.recv performed

theorem Traced.conserved {layout : Layout} {kernel : Kernel} {ledger : Ledger}
    (traced : Traced layout kernel ledger) : Conserved kernel ledger := by
  induction traced with
  | start kernel => exact initMultitasking_conserved layout kernel
  | step op _ performed ih => exact ih.perform op performed

/-- In every run, what a task received since its creation is, in order, the beginning of what
was accepted for it. What is left is at most four messages; receiving takes the next one, and
sending succeeds unless the target is unknown or inactive or has four messages left. -/
theorem mailboxes_fifo (layout : Layout) (kernel : Kernel) (ledger : Ledger)
    (traced : Traced layout kernel ledger) :
    (∀ pid, (ledger pid).received <+: (ledger pid).sent) ∧
    (∀ pid, (kernel.tasks pid).active = true →
      (ledger pid).sent.length ≤ (ledger pid).received.length + 4) ∧
    (∃ after, Op.recv.perform layout kernel =
      some (.received ((ledger kernel.currentTask).sent[(ledger
        kernel.currentTask).received.length]?), after)) ∧
    ∀ target payload len, ∃ result after,
      (Op.send target payload len).perform layout kernel = some (.sent result, after) ∧
      (result = -1 ↔ ¬ ∃ pid : Fin 16, target = pid.val ∧ (kernel.tasks pid).active = true) ∧
      (result = 0 ↔ ∃ pid : Fin 16, target = pid.val ∧ (kernel.tasks pid).active = true ∧
        (ledger pid).sent.length = (ledger pid).received.length + 4) ∧
      (result ≠ -1 → result ≠ 0 → result = 1) := by
  have conserved := traced.conserved
  have pendingLength : ∀ pid, (kernel.tasks pid).active = true →
      (ledger pid).sent.length =
        (ledger pid).received.length + (kernel.tasks pid).mailbox.pending.length :=
    fun pid active => (conserved.delivers pid (Or.inl active)).length
  refine ⟨conserved.received, fun pid active => ?_, ?_, fun target payload len => ?_⟩
  · rw [pendingLength pid active, length_pending]
    omega
  · rw [(conserved.delivers kernel.currentTask (Or.inr rfl)).head?]
    rcases ipcRecv_cases kernel fun _ => 0 with ⟨nothing, received⟩ |
      ⟨len, sender, mailbox, filled, received, oldest⟩
    · rw [nothing]
      exact ⟨_, by simp only [Op.perform, received]; rfl⟩
    · rw [oldest]
      exact ⟨_, by simp only [Op.perform, received]; rfl⟩
  · rcases ipcSend_cases payload target len kernel with ⟨unknown, sent⟩ |
      ⟨pid, found, ⟨full, sent⟩ | ⟨mailbox, room, sent, _⟩⟩
    · have absent : ¬ ∃ pid : Fin 16, target = pid.val ∧ (kernel.tasks pid).active = true := by
        rintro ⟨pid, known⟩
        exact Option.some_ne_none _ ((Kernel.activePid_eq_some.mpr known).symm.trans unknown)
      refine ⟨-1, _, by simp only [Op.perform, sent]; rfl, iff_of_true rfl absent, ?_, by decide⟩
      exact iff_of_false (by decide) fun ⟨pid, same, active, _⟩ => absent ⟨pid, same, active⟩
    · obtain ⟨rfl, active⟩ := Kernel.activePid_eq_some.mp found
      refine ⟨0, _, by simp only [Op.perform, sent]; rfl,
        iff_of_false (by decide) (not_not.mpr ⟨pid, rfl, active⟩), iff_of_true rfl ?_, by decide⟩
      exact ⟨pid, rfl, active, full ▸ pendingLength pid active⟩
    · obtain ⟨rfl, active⟩ := Kernel.activePid_eq_some.mp found
      refine ⟨1, _, by simp only [Op.perform, sent]; rfl,
        iff_of_false (by decide) (not_not.mpr ⟨pid, rfl, active⟩), iff_of_false (by decide) ?_,
        fun _ _ => rfl⟩
      rintro ⟨other, same, _, four⟩
      obtain rfl : pid = other := Fin.ext (Int.ofNat.inj same)
      have length := pendingLength pid active
      omega

/-- A task sends two messages to the Shell, which receives the first one. -/
theorem mailboxes_fifo_two_messages : ∃ kernel ledger, Traced imageLayout kernel ledger ∧
    (ledger 0).received = [⟨[7, 8], 1⟩] ∧ (ledger 0).sent = [⟨[7, 8], 1⟩, ⟨[9], 1⟩] ∧
    (ledger 0).received <+: (ledger 0).sent ∧
    ∃ after, Op.recv.perform imageLayout kernel = some (.received (some ⟨[9], 1⟩), after) := by
  have start : Traced imageLayout _ _ := Traced.start (booted (fun _ => 0) 100)
  have created := Traced.step (.createTask 0x9100 0xF010) start rfl
  have scheduled := Traced.step (.schedule 0x7000) created rfl
  have first := Traced.step (.send 0 (fun index => BitVec.ofNat 8 (7 + index)) 2) scheduled rfl
  have second := Traced.step (.send 0 (fun index => BitVec.ofNat 8 (9 + index)) 1) first rfl
  have shell := Traced.step (.schedule 0x101000) second rfl
  have received := Traced.step .recv shell rfl
  obtain ⟨beginning, _, next, _⟩ := mailboxes_fifo imageLayout _ _ received
  exact ⟨_, _, received, by decide, by decide, beginning 0, next⟩

end MxOS.Sched
