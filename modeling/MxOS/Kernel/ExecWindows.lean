import MxOS.Kernel.ElfConfinement
import MxOS.Kernel.Exec

/-! # The memory of the slots

Every slot has a window for its program and a stack. The windows and the stacks of
different slots are disjoint, and what a launch clears and what it builds of the
arguments stays within those of its slot.
-/

namespace MxOS.Exec

open ByteMemory

/-- The memory a program is loaded into. -/
def window (slot : Fin 4) : Set Word := span (slotBase slot) userProgMaxSize.toNat

/-- The part of a stack that holds the arguments. -/
def argvArea (layout : ExecLayout) (slot : Fin 4) : Set Word :=
  span (layout.execStack slot) argvAreaSize.toNat

theorem slotBase_toNat (slot : Fin 4) : (slotBase slot).toNat = 0x300000 + slot.val * 0x30000 := by
  revert slot
  decide

theorem execStack_toNat (layout : ExecLayout) (slot : Fin 4) :
    (layout.execStack slot).toNat = layout.execStacks.toNat + slot.val * 4096 := by
  have bound := layout.stacksNoWrap
  have small := slot.isLt
  simp only [ExecLayout.execStack, execStackSize]
  bv_omega

theorem mem_window {slot : Fin 4} {address : Word} :
    address ∈ window slot ↔ 0x300000 + slot.val * 0x30000 ≤ address.toNat ∧
      address.toNat < 0x300000 + slot.val * 0x30000 + 0x20000 := by
  have small := slot.isLt
  have size : userProgMaxSize.toNat = 0x20000 := rfl
  rw [window, mem_span_iff (by rw [slotBase_toNat, size]; omega), slotBase_toNat, size]

theorem clearWindow_eqOn (slot : Fin 4) (memory : Memory) :
    Set.EqOn (clearWindow (slotBase slot) memory) memory (window slot)ᶜ := by
  intro address outside
  exact if_neg outside

section Arguments

variable {stackBase : Word} (memory : Memory)

theorem setPointer_eqOn {index : Nat} (inside : index < 128) (value : Word) :
    Set.EqOn (setPointer stackBase index value memory) memory
      (span stackBase argvAreaSize.toNat)ᶜ := by
  refine (Memory.write32_eqOn value).mono (Set.compl_subset_compl.mpr fun address within => ?_)
  have size : argvAreaSize.toNat = 512 := rfl
  rw [mem_span] at within ⊢
  rw [size]
  bv_omega

theorem copyString_eqOn (bytes : List Byte) {offset : Nat} (inside : offset + bytes.length ≤ 512) :
    Set.EqOn (copyString (stackBase + BitVec.ofNat 32 offset) bytes memory) memory
      (span stackBase argvAreaSize.toNat)ᶜ := by
  induction bytes generalizing offset memory with
  | nil => exact Set.eqOn_refl ..
  | cons byte rest ih =>
      rw [List.length_cons] at inside
      have next : stackBase + BitVec.ofNat 32 offset + 1 =
          stackBase + BitVec.ofNat 32 (offset + 1) := by bv_omega
      rw [copyString, next]
      refine (ih _ (by omega)).trans ((Memory.write8_eqOn byte).mono ?_)
      refine Set.compl_subset_compl.mpr fun address here => ?_
      have size : argvAreaSize.toNat = 512 := rfl
      obtain rfl : address = _ := here
      rw [mem_span, size]
      bv_omega

theorem clearPointers_eqOn (remaining : Nat) {index : Nat} (inside : index + remaining ≤ 128) :
    Set.EqOn (clearPointers stackBase remaining index memory) memory
      (span stackBase argvAreaSize.toNat)ᶜ := by
  induction remaining generalizing index memory with
  | zero => exact Set.eqOn_refl ..
  | succ remaining ih =>
      exact (ih _ (by omega)).trans (setPointer_eqOn memory (by omega) 0)

/-- The strings are copied below the end of the area, as the code checks. -/
theorem argvLoop_eqOn (argv : List Fs.CString) {index : Nat} {used : Word}
    (pointers : index + argv.length < 128) (strings : used.toNat ≤ 512)
    (short : ∀ argument ∈ argv, argument.bytes.length < 2 ^ 31) :
    Set.EqOn (argvLoop stackBase argv index used memory) memory
      (span stackBase argvAreaSize.toNat)ᶜ := by
  induction argv generalizing index used memory with
  | nil => exact Set.eqOn_refl ..
  | cons argument rest ih =>
      have length := short argument (List.mem_cons_self ..)
      rw [List.length_cons] at pointers
      simp only [argvLoop]
      split
      · exact (clearPointers_eqOn _ _ (by omega)).trans (setPointer_eqOn memory (by omega) 0)
      · next fits =>
          have sum : (used + BitVec.ofNat 32 (argument.bytes.length + 1)).toNat =
              used.toNat + (argument.bytes.length + 1) := by bv_omega
          have room : used.toNat + (argument.bytes.length + 1) ≤ 512 := by
            rw [← sum]
            exact BitVec.not_lt.mp fits
          have copied : Set.EqOn (copyString (stackBase + BitVec.ofNat 32 used.toNat)
              (argument.bytes ++ [0]) memory) memory (span stackBase argvAreaSize.toNat)ᶜ :=
            copyString_eqOn memory _ (by simpa using room)
          rw [BitVec.ofNat_toNat, BitVec.setWidth_eq] at copied
          refine (ih _ (by omega) (by omega) fun other member =>
            short other (List.mem_cons_of_mem _ member)).trans ?_
          exact (setPointer_eqOn _ (by omega) _).trans copied

end Arguments

/-- The table of pointers fits into the area, and no string is longer than an `int` can tell. The
Shell, which alone calls `exec_run`, cuts a line of 256 bytes into at most 8 arguments. -/
def Command.Fits (command : Command) : Prop :=
  command.argv.length < 128 ∧ ∀ argument ∈ command.argv, argument.bytes.length < 2 ^ 31

theorem buildArgv_eqOn (layout : ExecLayout) (slot : Fin 4) {command : Command}
    (fits : command.Fits) (memory : Memory) :
    Set.EqOn (buildArgv (layout.execStack slot) command.argv memory) memory
      (argvArea layout slot)ᶜ := by
  have pointers : command.argv.length < 128 := fits.1
  refine (setPointer_eqOn _ pointers 0).trans (argvLoop_eqOn memory _ (by omega) ?_ fits.2)
  bv_omega

end MxOS.Exec
