import MxOS.Drivers.AtaPorts
import MxOS.Lib.EventRun

/-! # The protocol of the drive

A monitor that sees only the accesses of `drivers/ata.c` to the ports, and refuses those that
the drive does not expect. Registers and commands are for a drive that has just said that it
is not busy, words for one that has asked for them, as many as a sector has. The flush of the
cache is the one command that needs no poll, but all the words of a sector before it.
-/

namespace MxOS.Ata

open ByteMemory

structure Monitor where
  /-- The last status read since the last command. -/
  status : Option Byte
  /-- The last command, with the number of words that are still to be moved. -/
  command : Option (Byte × Nat)

namespace Monitor

def start : Monitor := ⟨none, none⟩

def idle (status : Byte) : Bool := status &&& 0x01 = 0 ∧ status &&& 0x80 = 0

def asks (status : Byte) : Bool := idle status ∧ status &&& 0x08 ≠ 0

def isRegister (port : Port) : Bool :=
  port ∈ [ataSectorCnt, ataLbaLow, ataLbaMid, ataLbaHigh, ataDriveSel]

/-- A word of the sector that the command is about. -/
def word (command : Byte) (monitor : Monitor) : Option Monitor :=
  match monitor.command with
  | some (begun, left + 1) =>
      if begun = command ∧ monitor.status.any asks then
        some { monitor with command := some (begun, left) }
      else none
  | _ => none

def step : Access → Monitor → Option Monitor
  | .status value, monitor => some { monitor with status := some value }
  | .inw _, monitor => monitor.word ataCmdRead
  | .outw _, monitor => monitor.word ataCmdWrite
  | .outb port value, monitor =>
      if port = ataCommand ∧ value = cacheFlush then
        if monitor.command = some (ataCmdWrite, 0) then some start else none
      else if monitor.status.any idle then
        if isRegister port then some monitor
        else if port = ataCommand ∧ (value = ataCmdRead ∨ value = ataCmdWrite) then
          some ⟨none, some (value, 256)⟩
        else none
      else none

end Monitor

def Access.isStatus : Access → Bool
  | .status _ => true
  | _ => false

/-- The device has logged accesses that lead the monitor on, among them at most so many polls. -/
def Observed (polls : Nat) (device after : Device) (before final : Monitor) : Prop :=
  ∃ log, after.trace = device.trace ++ log ∧ EventRun.run Monitor.step log before = some final ∧
    log.countP Access.isStatus ≤ polls

theorem Observed.refl (device : Device) (before : Monitor) :
    Observed 0 device device before before :=
  ⟨[], (List.append_nil _).symm, rfl, Nat.le_refl 0⟩

theorem Observed.trans {first second : Nat} {device middle after : Device}
    {before between final : Monitor} (one : Observed first device middle before between)
    (two : Observed second middle after between final) :
    Observed (first + second) device after before final := by
  obtain ⟨early, logged, ran, few⟩ := one
  obtain ⟨late, logged', ran', few'⟩ := two
  refine ⟨early ++ late, ?_, ?_, ?_⟩
  · rw [logged', logged, List.append_assoc]
  · rw [EventRun.run_append, ran]
    exact ran'
  · rw [List.countP_append]
    exact Nat.add_le_add few few'

theorem Observed.mono {polls more : Nat} {device after : Device} {before final : Monitor}
    (observed : Observed polls device after before final) (le : polls ≤ more) :
    Observed more device after before final := by
  obtain ⟨log, logged, ran, few⟩ := observed
  exact ⟨log, logged, ran, Nat.le_trans few le⟩

/-- One access. -/
theorem Observed.single {device after : Device} {before final : Monitor} {access : Access}
    (logged : after.trace = device.trace ++ [access])
    (steps : Monitor.step access before = some final) :
    Observed (if access.isStatus then 1 else 0) device after before final := by
  refine ⟨[access], logged, ?_, ?_⟩
  · rw [EventRun.run_cons, steps]
    rfl
  · rw [List.countP_singleton]

/-! ### The accesses of the driver -/

theorem Device.command_trace (value : Byte) (device : Device) :
    (device.command value).trace = device.trace := by
  rw [Device.command]
  split
  · rfl
  · split
    · rfl
    · split <;> rfl

theorem Device.outb_trace (port : Port) (value : Byte) (device : Device) :
    (device.outb port value).trace = device.trace ++ [.outb port value] := by
  simp only [Device.outb]
  repeat' split
  all_goals first | rfl | exact Device.command_trace ..

theorem Device.inw_trace (device : Device) :
    ∃ value, device.inw.2.trace = device.trace ++ [.inw value] := by
  rw [Device.inw]
  split
  · exact ⟨_, rfl⟩
  · exact ⟨_, rfl⟩

theorem Device.outw_trace (value : Half) (device : Device) :
    (device.outw value).trace = device.trace ++ [.outw value] := by
  simp only [Device.outw]
  split
  · split <;> rfl
  · rfl

/-- A wait only polls, and where it succeeds the drive has just reported what is awaited. -/
theorem wait_observed (drive : Drive) (awaited : Byte → Bool) (timeout : Nat) (device : Device)
    (before : Monitor) :
    ∃ final, Observed timeout device (Ports.wait drive awaited timeout device).2 before final ∧
      final.command = before.command ∧
      ((Ports.wait drive awaited timeout device).1 = true →
        ∃ status, final.status = some status ∧ status &&& 0x01 = 0 ∧ awaited status = true) := by
  induction timeout generalizing device before with
  | zero => exact ⟨before, Observed.refl .., rfl, fun failed => (nomatch failed)⟩
  | succ timeout ih =>
      let status := drive.status device.disk.polls
      have poll : Observed 1 device (device.polled drive) before
          { before with status := some status } :=
        @Observed.single _ _ _ _ (.status status) rfl rfl
      rw [Ports.wait_succ]
      by_cases error : drive.status device.disk.polls &&& 0x01 ≠ 0
      · rw [if_pos error]
        exact ⟨_, poll.mono (Nat.le_add_left ..), rfl, fun failed => (nomatch failed)⟩
      · rw [if_neg error]
        by_cases reached : awaited (drive.status device.disk.polls) = true
        · rw [if_pos reached]
          exact ⟨_, poll.mono (Nat.le_add_left ..), rfl,
            fun _ => ⟨status, rfl, not_not.mp error, reached⟩⟩
        · rw [if_neg reached]
          obtain ⟨final, later, same, done⟩ :=
            ih (device.polled drive) { before with status := some status }
          exact ⟨final, (poll.trans later).mono (Nat.add_comm 1 timeout).le, same, done⟩

theorem Monitor.step_register {port : Port} {monitor : Monitor} (value : Byte)
    (register : Monitor.isRegister port = true) (free : monitor.status.any Monitor.idle = true) :
    Monitor.step (.outb port value) monitor = some monitor := by
  have other : port ≠ ataCommand := by
    rintro rfl
    exact absurd register (by decide)
  rw [Monitor.step, if_neg (fun flush => other flush.1), if_pos free, if_pos register]

theorem Monitor.step_command {value : Byte} {monitor : Monitor}
    (known : value = ataCmdRead ∨ value = ataCmdWrite)
    (free : monitor.status.any Monitor.idle = true) :
    Monitor.step (.outb ataCommand value) monitor = some ⟨none, some (value, 256)⟩ := by
  have flush : value ≠ cacheFlush := by
    rcases known with rfl | rfl <;> decide
  have register : ¬ Monitor.isRegister ataCommand = true := by decide
  rw [Monitor.step, if_neg (fun both => flush both.2), if_pos free, if_neg register,
    if_pos ⟨rfl, known⟩]

theorem select_observed (lba : Word) {command : Byte} (device : Device) {before : Monitor}
    (known : command = ataCmdRead ∨ command = ataCmdWrite)
    (free : before.status.any Monitor.idle = true) :
    Observed 0 device (Ports.select lba command device) before
      ⟨none, some (command, 256)⟩ := by
  have register : ∀ (port : Port) (value : Byte) (device : Device),
      Monitor.isRegister port = true → Observed 0 device (device.outb port value) before before :=
    fun port value device register =>
      Observed.single (Device.outb_trace ..) (Monitor.step_register value register free)
  have last : ∀ device : Device,
      Observed 0 device (device.outb ataCommand command) before ⟨none, some (command, 256)⟩ :=
    fun device => Observed.single (Device.outb_trace ..) (Monitor.step_command known free)
  have drive := register ataDriveSel ((0xE0 : Byte) ||| ((lba >>> 24) &&& 0x0F).setWidth 8) device
    (by decide)
  have count := drive.trans (register ataSectorCnt 1 _ (by decide))
  have low := count.trans (register ataLbaLow (lba.setWidth 8) _ (by decide))
  have mid := low.trans (register ataLbaMid ((lba >>> 8).setWidth 8) _ (by decide))
  have high := mid.trans (register ataLbaHigh ((lba >>> 16).setWidth 8) _ (by decide))
  exact high.trans (last _)

/-- The access moves a word of the sector that the command is about. -/
def Access.Moves (command : Byte) : Access → Prop
  | .inw _ => command = ataCmdRead
  | .outw _ => command = ataCmdWrite
  | _ => False

theorem Access.Moves.step {command status : Byte} {access : Access}
    (moves : access.Moves command) (asked : Monitor.asks status = true) (left : Nat) :
    Monitor.step access ⟨some status, some (command, left + 1)⟩ =
      some ⟨some status, some (command, left)⟩ := by
  cases access with
  | inw value =>
      obtain rfl := moves
      exact if_pos ⟨rfl, asked⟩
  | outw value =>
      obtain rfl := moves
      exact if_pos ⟨rfl, asked⟩
  | status value => exact moves.elim
  | outb port value => exact moves.elim

theorem Access.Moves.isStatus {command : Byte} {access : Access} (moves : access.Moves command) :
    access.isStatus = false := by
  cases access with
  | status value => exact moves.elim
  | _ => rfl

/-- A loop of which every round moves a word. -/
theorem words_observed {State : Type} (device : State → Device)
    (round : State → Fin 256 → State) {command status : Byte}
    (moves : ∀ state i, ∃ access : Access, access.Moves command ∧
      (device (round state i)).trace = (device state).trace ++ [access])
    (asked : Monitor.asks status = true) (left : Nat) (indices : List (Fin 256)) (state : State) :
    Observed 0 (device state) (device (indices.foldl round state))
      ⟨some status, some (command, left + indices.length)⟩
      ⟨some status, some (command, left)⟩ := by
  induction indices generalizing state with
  | nil => exact Observed.refl ..
  | cons i indices ih =>
      obtain ⟨access, moved, logged⟩ := moves state i
      have one := Observed.single logged (moved.step asked (left + indices.length))
      rw [moved.isStatus] at one
      exact one.trans (ih (round state i))

theorem readWords_observed (buffer : Sector) (device : Device) {status : Byte}
    (asked : Monitor.asks status = true) :
    Observed 0 device (Ports.readWords buffer device).2 ⟨some status, some (ataCmdRead, 256)⟩
      ⟨some status, some (ataCmdRead, 0)⟩ := by
  have moves : ∀ (state : Sector × Device) (i : Fin 256), ∃ access : Access,
      access.Moves ataCmdRead ∧
        (Ports.readHalf state i).2.trace = state.2.trace ++ [access] := by
    intro state i
    obtain ⟨value, logged⟩ := state.2.inw_trace
    exact ⟨.inw value, rfl, logged⟩
  have all := words_observed Prod.snd Ports.readHalf moves asked 0 (List.finRange 256)
    (buffer, device)
  rw [List.length_finRange] at all
  exact all

theorem writeWords_observed (buffer : Sector) (device : Device) {status : Byte}
    (asked : Monitor.asks status = true) :
    Observed 0 device (Ports.writeWords buffer device) ⟨some status, some (ataCmdWrite, 256)⟩
      ⟨some status, some (ataCmdWrite, 0)⟩ := by
  have moves : ∀ (device : Device) (i : Fin 256), ∃ access : Access,
      access.Moves ataCmdWrite ∧
        (Ports.writeHalf buffer device i).trace = device.trace ++ [access] :=
    fun device i => ⟨.outw (halfAt buffer i), rfl, device.outw_trace _⟩
  have all := words_observed id (Ports.writeHalf buffer) moves asked 0 (List.finRange 256) device
  rw [List.length_finRange] at all
  exact all

/-! ### Calls of the driver -/

theorem ataWaitBsyClear_observed (drive : Drive) (device : Device) (before : Monitor) :
    ∃ final, Observed 1000000 device (Ports.ataWaitBsyClear drive device).2 before final ∧
      ((Ports.ataWaitBsyClear drive device).1 = true →
        final.status.any Monitor.idle = true) := by
  obtain ⟨final, observed, _, done⟩ := wait_observed drive
    (fun status => status &&& 0x80 = 0) 1000000 device before
  refine ⟨final, observed, fun reached => ?_⟩
  obtain ⟨status, last, sound, clear⟩ := done reached
  rw [last]
  exact decide_eq_true ⟨sound, of_decide_eq_true clear⟩

theorem ataWaitReady_observed (drive : Drive) (device : Device) (before : Monitor) :
    ∃ final, Observed 1000000 device (Ports.ataWaitReady drive device).2 before final ∧
      ((Ports.ataWaitReady drive device).1 = true →
        ∃ status, final = ⟨some status, before.command⟩ ∧ Monitor.asks status = true) := by
  obtain ⟨final, observed, same, done⟩ := wait_observed drive
    (fun status => status &&& 0x80 = 0 ∧ status &&& 0x08 ≠ 0) 1000000 device before
  refine ⟨final, observed, fun reached => ?_⟩
  obtain ⟨status, last, sound, ready⟩ := done reached
  obtain ⟨clear, data⟩ := of_decide_eq_true ready
  refine ⟨status, ?_, decide_eq_true ⟨decide_eq_true ⟨sound, clear⟩, data⟩⟩
  rw [← last, ← same]

section Waits

/- How long the waits poll does not matter. -/
variable {portsClear portsReady : Device → Bool × Device} {limit : Nat}
  (clears : ∀ device before, ∃ final, Observed limit device (portsClear device).2 before final ∧
    ((portsClear device).1 = true → final.status.any Monitor.idle = true))
  (readies : ∀ device before, ∃ final, Observed limit device (portsReady device).2 before final ∧
    ((portsReady device).1 = true →
      ∃ status, final = ⟨some status, before.command⟩ ∧ Monitor.asks status = true))

include clears readies

theorem readSectorOnce_observed (lba : Word) (buffer : Sector) (device : Device)
    (before : Monitor) :
    ∃ final, Observed (limit + limit) device
      (match portsClear device with
      | (false, device) => (false, buffer, device)
      | (true, device) =>
          match portsReady (Ports.select lba ataCmdRead device) with
          | (false, device) => (false, buffer, device)
          | (true, device) => (true, Ports.readWords buffer device)).2.2 before final := by
  obtain ⟨cleared, polls, free⟩ := clears device before
  generalize portsClear device = answer at polls free ⊢
  obtain ⟨_ | _, idle⟩ := answer
  · exact ⟨cleared, polls.mono (Nat.le_add_left ..)⟩
  · have selects := select_observed lba idle (Or.inl rfl) (free rfl)
    obtain ⟨ready, again, asked⟩ :=
      readies (Ports.select lba ataCmdRead idle) ⟨none, some (ataCmdRead, 256)⟩
    dsimp only
    generalize portsReady (Ports.select lba ataCmdRead idle) = answer at again asked ⊢
    have polled := (polls.trans selects).trans again
    obtain ⟨_ | _, loaded⟩ := answer
    · exact ⟨ready, polled⟩
    · obtain ⟨status, rfl, asks⟩ := asked rfl
      exact ⟨_, polled.trans (readWords_observed buffer loaded asks)⟩

theorem writeSectorOnce_observed (lba : Word) (buffer : Sector) (device : Device)
    (before : Monitor) :
    ∃ final, Observed (limit + limit + limit) device
      (match portsClear device with
      | (false, device) => (false, device)
      | (true, device) =>
          match portsReady (Ports.select lba ataCmdWrite device) with
          | (false, device) => (false, device)
          | (true, device) =>
              portsClear ((Ports.writeWords buffer device).outb ataCommand cacheFlush)).2
        before final := by
  obtain ⟨cleared, polls, free⟩ := clears device before
  generalize portsClear device = answer at polls free ⊢
  obtain ⟨_ | _, idle⟩ := answer
  · exact ⟨cleared, polls.mono (by omega)⟩
  · have selects := select_observed lba idle (Or.inr rfl) (free rfl)
    obtain ⟨ready, again, asked⟩ :=
      readies (Ports.select lba ataCmdWrite idle) ⟨none, some (ataCmdWrite, 256)⟩
    dsimp only
    generalize portsReady (Ports.select lba ataCmdWrite idle) = answer at again asked ⊢
    have polled := (polls.trans selects).trans again
    obtain ⟨_ | _, loaded⟩ := answer
    · exact ⟨ready, polled.mono (Nat.le_add_right ..)⟩
    · obtain ⟨status, rfl, asks⟩ := asked rfl
      have written := polled.trans (writeWords_observed buffer loaded asks)
      have flushed : Observed 0 (Ports.writeWords buffer loaded)
          ((Ports.writeWords buffer loaded).outb ataCommand cacheFlush)
          ⟨some status, some (ataCmdWrite, 0)⟩ Monitor.start :=
        Observed.single (Device.outb_trace ..) rfl
      obtain ⟨final, last, _⟩ :=
        clears ((Ports.writeWords buffer loaded).outb ataCommand cacheFlush) Monitor.start
      exact ⟨final, (written.trans flushed).trans last⟩

end Waits

theorem ataReadSectorOnce_observed (drive : Drive) (lba : Word) (buffer : Sector)
    (device : Device) (before : Monitor) :
    ∃ final, Observed (1000000 + 1000000) device
      (Ports.ataReadSectorOnce drive lba buffer device).2.2 before final :=
  readSectorOnce_observed (ataWaitBsyClear_observed drive) (ataWaitReady_observed drive) lba buffer
    device before

theorem ataWriteSectorOnce_observed (drive : Drive) (lba : Word) (buffer : Sector)
    (device : Device) (before : Monitor) :
    ∃ final, Observed (1000000 + 1000000 + 1000000) device
      (Ports.ataWriteSectorOnce drive lba buffer device).2 before final :=
  writeSectorOnce_observed (ataWaitBsyClear_observed drive) (ataWaitReady_observed drive) lba buffer
    device before

/-- What one attempt may do, several may. -/
theorem readAttempts_observed (drive : Drive) (lba : Word) (attempts : Nat) (buffer : Sector)
    (device : Device) (before : Monitor) :
    ∃ final, Observed (attempts * 3000000) device
      (Ports.readAttempts drive lba buffer attempts device).2.2 before final := by
  induction attempts generalizing buffer device before with
  | zero => exact ⟨before, (Observed.refl ..).mono (Nat.zero_le _)⟩
  | succ attempts ih =>
      obtain ⟨middle, once⟩ := ataReadSectorOnce_observed drive lba buffer device before
      rw [Ports.readAttempts]
      generalize Ports.ataReadSectorOnce drive lba buffer device = answer at once ⊢
      obtain ⟨_ | _, content, after⟩ := answer
      · obtain ⟨final, again⟩ := ih content after middle
        exact ⟨final, (once.trans again).mono (by omega)⟩
      · exact ⟨middle, once.mono (by omega)⟩

theorem writeAttempts_observed (drive : Drive) (lba : Word) (buffer : Sector) (attempts : Nat)
    (device : Device) (before : Monitor) :
    ∃ final, Observed (attempts * 3000000) device
      (Ports.writeAttempts drive lba buffer attempts device).2 before final := by
  induction attempts generalizing device before with
  | zero => exact ⟨before, (Observed.refl ..).mono (Nat.zero_le _)⟩
  | succ attempts ih =>
      obtain ⟨middle, once⟩ := ataWriteSectorOnce_observed drive lba buffer device before
      rw [Ports.writeAttempts]
      generalize Ports.ataWriteSectorOnce drive lba buffer device = answer at once ⊢
      obtain ⟨_ | _, after⟩ := answer
      · obtain ⟨final, again⟩ := ih after middle
        exact ⟨final, (once.trans again).mono (by omega)⟩
      · exact ⟨middle, once.mono (by omega)⟩

theorem Request.atPorts_observed (drive : Drive) (request : Request) (device : Device)
    (before : Monitor) :
    ∃ final, Observed (ataMaxRetries * 3000000) device (request.atPorts drive device).2 before
      final := by
  cases request with
  | read lba buffer => exact readAttempts_observed drive lba ataMaxRetries buffer device before
  | write lba buffer => exact writeAttempts_observed drive lba buffer ataMaxRetries device before

/-- Whatever the drive reports, the driver keeps to its protocol over every sequence of calls, and
each call ends after at most nine million polls. -/
theorem drive_protocol_kept (drive : Drive) (requests : List Request) (device : Device) :
    ∃ log final, (serve (Request.atPorts drive) requests device).2.trace = device.trace ++ log ∧
      EventRun.run Monitor.step log Monitor.start = some final ∧
      log.countP Access.isStatus ≤ requests.length * (ataMaxRetries * 3000000) := by
  suffices kept : ∀ before : Monitor, ∃ final,
      Observed (requests.length * (ataMaxRetries * 3000000)) device
        (serve (Request.atPorts drive) requests device).2 before final by
    obtain ⟨final, log, logged, ran, few⟩ := kept Monitor.start
    exact ⟨log, final, logged, ran, few⟩
  induction requests generalizing device with
  | nil => exact fun before => ⟨before, (Observed.refl ..).mono (Nat.zero_le _)⟩
  | cons request rest ih =>
      intro before
      obtain ⟨middle, once⟩ := request.atPorts_observed drive device before
      obtain ⟨final, later⟩ := ih (request.atPorts drive device).2 middle
      refine ⟨final, (once.trans later).mono ?_⟩
      rw [List.length_cons, Nat.succ_mul, Nat.add_comm]

end MxOS.Ata
