import MxOS.Kernel.KeyboardQueue
import MxOS.Kernel.ShellArguments

/-! # From the keys to the Shell

`shell_poll` reads the queue that `keyboard_handler` fills, one statement at a time, and
passes every character to `shell_update`; the two share no other variable. However the
scancodes arrive between the statements, and whatever other tasks do meanwhile, the Shell
gets the characters typed.
-/

namespace MxOS.Input

open ByteMemory

/-- The characters that scancodes stand for, by the state of Shift and of the prefix. -/
def spelled : List Byte → Keyboard → List Byte
  | [], _ => []
  | sc :: rest, keyboard => (decode sc keyboard).1.toList ++ spelled rest (decode sc keyboard).2

/-- The two decode the next scancode alike. -/
structure SameModifiers (first second : Keyboard) : Prop where
  shift : first.shiftPressed = second.shiftPressed
  extended : first.extendedPrefix = second.extendedPrefix

theorem SameModifiers.decode {first second : Keyboard} (same : SameModifiers first second)
    (sc : Byte) :
    (Input.decode sc first).1 = (Input.decode sc second).1 ∧
      SameModifiers (Input.decode sc first).2 (Input.decode sc second).2 := by
  obtain ⟨shift, extended⟩ := same
  simp only [Input.decode, shift, extended]
  split
  · exact ⟨rfl, rfl, rfl⟩
  · split
    · split
      · split
        · exact ⟨rfl, rfl, rfl⟩
        · split <;> exact ⟨rfl, rfl, rfl⟩
      · exact ⟨rfl, rfl, rfl⟩
    · split
      · exact ⟨rfl, rfl, rfl⟩
      · split
        · exact ⟨rfl, rfl, rfl⟩
        · split <;> exact ⟨rfl, shift, extended⟩

theorem SameModifiers.spelled {first second : Keyboard} (same : SameModifiers first second)
    (scancodes : List Byte) : Input.spelled scancodes first = Input.spelled scancodes second := by
  induction scancodes generalizing first second with
  | nil => rfl
  | cons sc rest ih =>
      obtain ⟨char, after⟩ := same.decode sc
      rw [Input.spelled, Input.spelled, char, ih after]

theorem Session.read_modifiers (session : Session) :
    SameModifiers session.read.keyboard session.keyboard := by
  unfold Session.read
  split
  · split <;> exact ⟨rfl, rfl⟩
  · exact ⟨rfl, rfl⟩
  · exact ⟨rfl, rfl⟩

theorem Session.read_sent (session : Session) :
    session.read.channel.sent = session.channel.sent := by
  unfold Session.read
  split
  · split <;> rfl
  · rfl
  · rfl

theorem Session.read_received {session : Session}
    (reading : session.next ≠ .advance) :
    session.read.channel.received = session.channel.received := by
  unfold Session.read
  split
  · split <;> rfl
  · rfl
  · next advances => exact absurd advances reading

/-- A scancode that finds room, if it stands for a character. -/
theorem Session.interrupt_sent {session : Session} {sc : Byte}
    (room : (Input.decode sc session.keyboard).1.isSome → session.keyboard.accepts = true) :
    (session.interrupt sc).channel =
        { session.channel with
          sent := session.channel.sent ++ (Input.decode sc session.keyboard).1.toList } ∧
      SameModifiers (session.interrupt sc).keyboard (Input.decode sc session.keyboard).2 := by
  obtain ⟨shiftPressed, extendedPrefix, decoded⟩ := decode_queue sc session.keyboard
  unfold Session.interrupt
  generalize Input.decode sc session.keyboard = answer at room decoded ⊢
  obtain ⟨_ | char, keyboard⟩ := answer
  · refine ⟨?_, rfl, rfl⟩
    simp only [Option.toList_none, List.append_nil]
  · obtain rfl := decoded
    have accepts := room rfl
    have still : Keyboard.accepts
        { session.keyboard with
          shiftPressed := shiftPressed, extendedPrefix := extendedPrefix } = true := accepts
    simp only [Session.push, queuePush, still, ↓reduceIte]
    exact ⟨rfl, rfl, rfl⟩

end MxOS.Input

namespace MxOS.Shell

open ByteMemory Sched Fs

/-- The Shell at a statement of its loop, with the queue of the keyboard. -/
structure Console where
  input : Input.Session
  system : System

/-- What may happen next: an interrupt of the keyboard, a statement of the loop, or what the loop
does not do itself. -/
inductive Signal where
  | interrupt (sc : Byte)
  | statement
  | act (action : Act)
  | elsewhere (memory : Memory) (fs : State)

/-- The statement that completes a call of `keyboard_read_char` is followed by `shell_update`. -/
def Console.poll (layout : ShellLayout) (drive : Ata.Drive) (console : Console) : Option Console :=
  match console.input.next with
  | .advance =>
      (shellUpdate layout drive console.input.out console.system).map fun system =>
        ⟨console.input.read, system⟩
  | _ => some { console with input := console.input.read }

def Signal.step (layout : ShellLayout) (drive : Ata.Drive) : Signal → Console → Option Console
  | .interrupt sc, console => some { console with input := console.input.interrupt sc }
  | .statement, console => console.poll layout drive
  | .act action, console =>
      ((Event.act action).step layout drive console.system).map fun system =>
        { console with system := system }
  | .elsewhere memory fs, console =>
      ((Event.elsewhere memory fs).step layout drive console.system).map fun system =>
        { console with system := system }

/-- A character that is typed finds room in the queue. -/
def Signal.FindsRoom (signal : Signal) (console : Console) : Prop :=
  match signal with
  | .interrupt sc =>
      (Input.decode sc console.input.keyboard).1.isSome → console.input.keyboard.accepts = true
  | _ => True

def Signal.scancode : Signal → Option Byte
  | .interrupt sc => some sc
  | _ => none

/-- What happens to the Shell besides the keys. -/
def Signal.other : Signal → Option Event
  | .act action => some (.act action)
  | .elsewhere memory fs => some (.elsewhere memory fs)
  | _ => none

def Event.char : Event → Option Byte
  | .key c => some c
  | _ => none

def Event.other : Event → Option Event
  | .key _ => none
  | event => some event

/-- The Shell has gone through the events, and has got the characters from the queue. -/
structure Console.Went (layout : ShellLayout) (drive : Ata.Drive) (signals : List Signal)
    (start last : Console) (events : List Event) : Prop where
  ran : EventRun.run (Event.step layout drive) events start.system = some last.system
  received : last.input.channel.received =
    start.input.channel.received ++ events.filterMap Event.char
  sent : last.input.channel.sent = start.input.channel.sent ++
    Input.spelled (signals.filterMap Signal.scancode) start.input.keyboard
  others : events.filterMap Event.other = signals.filterMap Signal.other

section Polling

variable {layout : ShellLayout} {drive : Ata.Drive}

theorem Console.went (signals : List Signal) {start last : Console}
    (room : EventRun.Along (Signal.step layout drive) Signal.FindsRoom signals start)
    (ran : EventRun.run (Signal.step layout drive) signals start = some last) :
    ∃ events, Console.Went layout drive signals start last events := by
  induction signals generalizing start with
  | nil =>
      obtain rfl := Option.some.inj ran
      exact ⟨[], rfl, (List.append_nil _).symm, (List.append_nil _).symm, rfl⟩
  | cons signal rest ih =>
      obtain ⟨next, stepped, later⟩ := Option.bind_eq_some_iff.mp ran
      obtain ⟨finds, ahead⟩ := EventRun.along_cons.mp room
      obtain ⟨events, went⟩ := ih (ahead next stepped) later
      cases signal with
      | interrupt sc =>
          obtain rfl := Option.some.inj stepped
          obtain ⟨channel, same⟩ := Input.Session.interrupt_sent finds
          refine ⟨events, went.ran, ?_, ?_, went.others⟩
          · rw [went.received, channel]
          · rw [went.sent, channel, same.spelled, List.append_assoc]
            rfl
      | statement =>
          have modifiers := (start.input.read_modifiers).spelled (rest.filterMap Signal.scancode)
          by_cases reading : start.input.next = .advance
          · simp only [Signal.step, Console.poll, reading, Option.map_eq_some_iff] at stepped
            obtain ⟨system, updated, rfl⟩ := stepped
            refine ⟨.key start.input.out :: events, ?_, ?_, ?_, went.others⟩
            · rw [EventRun.run_cons, Event.step, updated]
              exact went.ran
            · rw [went.received]
              have read : start.input.read.channel.received =
                  start.input.channel.received ++ [start.input.out] := by
                rw [Input.Session.read, reading]
                rfl
              rw [read, List.append_assoc]
              rfl
            · rw [went.sent, modifiers, Input.Session.read_sent]
              rfl
          · have stays : next = { start with input := start.input.read } := by
              have moved : Console.poll layout drive start =
                  some { start with input := start.input.read } := by
                rw [Console.poll]
                split
                · next advances => exact absurd advances reading
                · rfl
              exact (Option.some.inj (moved.symm.trans stepped)).symm
            subst stays
            refine ⟨events, went.ran, ?_, ?_, went.others⟩
            · rw [went.received, Input.Session.read_received reading]
            · rw [went.sent, modifiers, Input.Session.read_sent]
              rfl
      | act action =>
          obtain ⟨system, acted, rfl⟩ := Option.map_eq_some_iff.mp stepped
          refine ⟨.act action :: events, ?_, went.received, went.sent, ?_⟩
          · rw [EventRun.run_cons, acted]
            exact went.ran
          · exact congrArg (Event.act action :: ·) went.others
      | elsewhere memory fs =>
          simp only [Signal.step, Option.map_eq_some_iff] at stepped
          obtain ⟨system, acted, rfl⟩ := stepped
          refine ⟨.elsewhere memory fs :: events, ?_, went.received, went.sent, ?_⟩
          · rw [EventRun.run_cons, acted]
            exact went.ran
          · exact congrArg (Event.elsewhere memory fs :: ·) went.others

theorem Console.sound {signals : List Signal} {start last : Console}
    (ran : EventRun.run (Signal.step layout drive) signals start = some last)
    (sound : start.input.Sound) : last.input.Sound := by
  have preserved : ∀ {signal : Signal} {console after : Console}, console.input.Sound →
      signal.step layout drive console = some after → after.input.Sound := by
    intro signal console after sound stepped
    cases signal with
    | interrupt sc => exact Option.some.inj stepped ▸ sound.interrupt sc
    | statement =>
        rw [Signal.step, Console.poll] at stepped
        split at stepped
        · obtain ⟨system, updated, rfl⟩ := Option.map_eq_some_iff.mp stepped
          exact sound.read
        · exact Option.some.inj stepped ▸ sound.read
    | act action =>
        obtain ⟨system, acted, rfl⟩ := Option.map_eq_some_iff.mp stepped
        exact sound
    | elsewhere memory fs =>
        simp only [Signal.step, Option.map_eq_some_iff] at stepped
        obtain ⟨system, acted, rfl⟩ := stepped
        exact sound
  exact EventRun.run_invariant preserved sound ran

/-- The Shell does what the characters typed make it do, whenever it comes to read them: while the
queue never overflows, it has gone through a run in which it gets exactly the characters that the
scancodes stand for, in order and each once, but for those still in the queue, and in which
everything else happens as it did. -/
theorem typed_keys_reach_shell {signals : List Signal} {system : System} {last : Console}
    (room : EventRun.Along (Signal.step layout drive) Signal.FindsRoom signals
      ⟨Input.Session.boot, system⟩)
    (ran : EventRun.run (Signal.step layout drive) signals ⟨Input.Session.boot, system⟩ =
      some last) :
    ∃ events, EventRun.run (Event.step layout drive) events system = some last.system ∧
      events.filterMap Event.char ++ last.input.keyboard.pending =
        Input.spelled (signals.filterMap Signal.scancode) Input.Keyboard.boot ∧
      events.filterMap Event.other = signals.filterMap Signal.other := by
  obtain ⟨events, went⟩ := Console.went signals room ran
  refine ⟨events, went.ran, ?_, went.others⟩
  have delivers := (Console.sound ran Input.Session.boot_sound).delivers
  have received : last.input.channel.received = events.filterMap Event.char := went.received
  have sent : last.input.channel.sent =
      Input.spelled (signals.filterMap Signal.scancode) Input.Keyboard.boot := went.sent
  rw [← received, ← sent]
  exact delivers.symm

end Polling

instance Signal.FindsRoom.decidable (signal : Signal) (console : Console) :
    Decidable (signal.FindsRoom console) :=
  match signal with
  | .interrupt sc =>
      inferInstanceAs (Decidable ((Input.decode sc console.input.keyboard).1.isSome → _ = true))
  | .statement => inferInstanceAs (Decidable True)
  | .act _ => inferInstanceAs (Decidable True)
  | .elsewhere .. => inferInstanceAs (Decidable True)

/-- The keys of `a` and `b`; the second one is pressed while the Shell reads the first. -/
def pressingTwo : List Signal :=
  [.interrupt 0x1E, .statement, .statement, .interrupt 0x30, .statement, .interrupt 0xB0]

theorem typed_keys_reach_shell_two : ∃ last events,
    EventRun.run (Event.step imageShell Ata.readyDrive) events (typing []) =
        some (Console.system last) ∧
      events.filterMap Event.char ++ last.input.keyboard.pending = literal "ab" ∧
      events.filterMap Event.other = [] := by
  have done : (EventRun.run (Signal.step imageShell Ata.readyDrive) pressingTwo
      ⟨Input.Session.boot, typing []⟩).isSome = true := by decide +kernel
  have room : EventRun.Along (Signal.step imageShell Ata.readyDrive) Signal.FindsRoom pressingTwo
      ⟨Input.Session.boot, typing []⟩ := by decide +kernel
  obtain ⟨last, ran⟩ := Option.isSome_iff_exists.mp done
  obtain ⟨events, went, chars, others⟩ := typed_keys_reach_shell room ran
  refine ⟨last, events, went, chars.trans ?_, others⟩
  decide +kernel

end MxOS.Shell
