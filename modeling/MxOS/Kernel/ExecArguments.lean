import Mathlib.Algebra.BigOperators.Group.List.Basic
import MxOS.Kernel.ExecFailure

/-! # What a program finds at its start

`build_argv` lays out a table of pointers at the bottom of the new stack, followed by the
strings, and the initial frame of the task holds the number of arguments and the address
of the table where `popal` puts them into EBX and ECX.
-/

namespace MxOS.Exec

open ByteMemory Paging Sched Mem BlockList Fs

/-! ### Layout of the arguments -/

/-- The room the strings take with their terminators. -/
def stringsSize (argv : List CString) : Nat :=
  (argv.map fun argument => argument.bytes.length + 1).sum

theorem stringsSize_cons (argument : CString) (rest : List CString) :
    stringsSize (argument :: rest) = argument.bytes.length + 1 + stringsSize rest := by
  rw [stringsSize, List.map_cons, List.sum_cons]
  rfl

section Relative

variable {stackBase : Word} {memory other : Memory}

theorem read32_offset_congr {offset : Nat}
    (same : ∀ place < 4, other (stackBase + BitVec.ofNat 32 (offset + place)) =
      memory (stackBase + BitVec.ofNat 32 (offset + place))) :
    other.read32 (stackBase + BitVec.ofNat 32 offset) =
      memory.read32 (stackBase + BitVec.ofNat 32 offset) := by
  apply wordOf_congr
  intro place inside
  have address : stackBase + BitVec.ofNat 32 offset + BitVec.ofNat 32 place =
      stackBase + BitVec.ofNat 32 (offset + place) := by bv_omega
  rw [address, same place inside]

end Relative

/-! ### The loop -/

/-- What the loop over the arguments leaves: pointers from number `index` on, strings from `used`
on, and everything else. -/
structure LoopResult (stackBase : Word) (argv : List CString) (index used : Nat)
    (before after : Memory) : Prop where
  others : ∀ offset < 512, offset < 4 * index ∨
      4 * (index + argv.length) ≤ offset ∧ offset < used ∨ used + stringsSize argv ≤ offset →
    after (stackBase + BitVec.ofNat 32 offset) = before (stackBase + BitVec.ofNat 32 offset)
  pointers : ∀ number argument, argv[number]? = some argument →
    after.read32 (stackBase + BitVec.ofNat 32 (4 * (index + number))) =
      stackBase + BitVec.ofNat 32 (used + stringsSize (argv.take number))
  strings : ∀ number argument, argv[number]? = some argument →
    ∀ place c, (argument.bytes ++ [0])[place]? = some c →
      after (stackBase + BitVec.ofNat 32 (used + stringsSize (argv.take number) + place)) = c

/-- The later turns leave what one turn has written. -/
theorem LoopResult.cons {stackBase : Word} {argument : CString} {rest : List CString}
    {index used : Nat} {before middle after : Memory}
    (pointers : 4 * (index + (rest.length + 1)) ≤ used)
    (room : used + stringsSize (argument :: rest) ≤ 512)
    (turn : LoopResult stackBase [argument] index used before middle)
    (others : LoopResult stackBase rest (index + 1) (used + (argument.bytes.length + 1)) middle
      after) : LoopResult stackBase (argument :: rest) index used before after := by
  have size : stringsSize [argument] = argument.bytes.length + 1 := stringsSize_cons argument []
  have taken : ∀ number, used + stringsSize ((argument :: rest).take (number + 1)) =
      used + (argument.bytes.length + 1) + stringsSize (rest.take number) := by
    intro number
    rw [List.take_succ_cons, stringsSize_cons]
    omega
  rw [stringsSize_cons] at room
  refine ⟨fun offset small outside => ?_, fun number found same => ?_,
    fun number found same place c here => ?_⟩
  · rw [stringsSize_cons, List.length_cons] at outside
    rw [others.others offset small (by omega),
      turn.others offset small (by rw [size, List.length_singleton]; omega)]
  · cases number with
    | zero =>
        obtain rfl := Option.some.inj same
        refine Eq.trans ?_ (turn.pointers 0 argument rfl)
        refine read32_offset_congr fun place inside => ?_
        exact others.others _ (by omega) (by omega)
    | succ number =>
        rw [taken, ← others.pointers number found same]
        congr 3
        omega
  · cases number with
    | zero =>
        obtain rfl := Option.some.inj same
        have inside := (List.getElem?_eq_some_iff.mp here).1
        rw [List.length_append, List.length_singleton] at inside
        rw [← turn.strings 0 argument rfl place c here]
        change after (stackBase + BitVec.ofNat 32 (used + 0 + place)) = _
        exact others.others _ (by omega) (by omega)
    | succ number =>
        rw [taken]
        exact others.strings number found same place c here

/-- The registers after `popal` and an `iret` to ring 3. -/
structure UserContext where
  edi : Word
  esi : Word
  ebp : Word
  ebx : Word
  edx : Word
  ecx : Word
  eax : Word
  eip : Word
  cs : Word
  eflags : Word
  esp : Word
  ss : Word

/-- `popal` skips the stack pointer; an `iret` to another ring pops one besides. -/
def popalIret (esp : Word) (memory : Memory) : UserContext :=
  let word := fun index => memory.read32 (esp + BitVec.ofNat 32 (4 * index))
  { edi := word 0
    esi := word 1
    ebp := word 2
    ebx := word 4
    edx := word 5
    ecx := word 6
    eax := word 7
    eip := word 8
    cs := word 9
    eflags := word 10
    esp := word 11
    ss := word 12 }

/-- The words of a frame are read back, the last one pushed first. -/
theorem read_pushed {frame : List Word} (short : frame.length ≤ 2 ^ 29) (top : Word)
    (memory : Memory) {index : Nat} {value : Word}
    (found : frame.reverse[index]? = some value) :
    (frame.foldl push (top, memory)).2.read32
      ((frame.foldl push (top, memory)).1 + BitVec.ofNat 32 (4 * index)) = value := by
  induction frame using List.reverseRecOn generalizing index with
  | nil => cases found
  | append_singleton frame last ih =>
      rw [List.length_append, List.length_singleton] at short
      rw [List.reverse_append, List.reverse_singleton, List.singleton_append] at found
      rw [List.foldl_append, List.foldl_cons, List.foldl_nil, push]
      generalize frame.foldl push (top, memory) = stack at ih ⊢
      cases index with
      | zero =>
          obtain rfl := Option.some.inj found
          rw [Nat.mul_zero, BitVec.add_zero, Memory.read32_write32_self]
      | succ index =>
          rw [List.getElem?_cons_succ] at found
          have inside := (List.getElem?_eq_some_iff.mp found).1
          rw [List.length_reverse] at inside
          have place : stack.1 - 4 + BitVec.ofNat 32 (4 * (index + 1)) =
              stack.1 + BitVec.ofNat 32 (4 * index) := by bv_omega
          rw [place, ← ih (by omega) found]
          refine Memory.read32_congr fun address within => Memory.write32_eqOn last ?_
          rw [mem_span] at within
          rw [Set.mem_compl_iff, mem_span]
          bv_omega

/-- The registers that `create_user_task_argv` prepares for the task it creates. -/
theorem createUserTaskArgv_context {layout : Layout} {task : UserTask} {kernel after : Kernel}
    {pid : Fin 16} (created : createUserTaskArgv layout task kernel = some (some pid, after)) :
    popalIret (after.tasks pid).esp after.heap.memory =
      { edi := 0, esi := 0, ebp := 0, ebx := task.initEbx, edx := 0, ecx := task.initEcx,
        eax := 0, eip := task.entry, cs := 0x1B, eflags := 0x202, esp := task.userStackTop,
        ss := 0x23 } := by
  obtain ⟨_, stackAddress, heap, space, pages, _, rfl⟩ := createUserTaskArgv_eq_some created
  have short : task.frame.length ≤ 2 ^ 29 := (by decide : 13 ≤ 2 ^ 29)
  have word : ∀ index value, task.frame.reverse[index]? = some value →
      (task.frame.foldl push (stackAddress + taskStackSize, heap.memory)).2.read32
        ((task.frame.foldl push (stackAddress + taskStackSize, heap.memory)).1 +
          BitVec.ofNat 32 (4 * index)) = value :=
    fun index value found => read_pushed short _ _ found
  have esp : ((installTask pid stackAddress task.frame task.name (some space)
      { kernel with heap := heap, pages := pages }).tasks pid).esp =
      (task.frame.foldl push (stackAddress + taskStackSize, heap.memory)).1 := by
    rw [installTask_self]
  have memory : (installTask pid stackAddress task.frame task.name (some space)
      { kernel with heap := heap, pages := pages }).heap.memory =
      (task.frame.foldl push (stackAddress + taskStackSize, heap.memory)).2 := rfl
  rw [esp, memory]
  generalize task.frame.foldl push (stackAddress + taskStackSize, heap.memory) = stack at word
  simp only [popalIret, UserContext.mk.injEq]
  exact ⟨word 0 _ rfl, word 1 _ rfl, word 2 _ rfl, word 4 _ rfl, word 5 _ rfl, word 6 _ rfl,
    word 7 _ rfl, word 8 _ rfl, word 9 _ rfl, word 10 _ rfl, word 11 _ rfl, word 12 _ rfl⟩

end MxOS.Exec
