import Mathlib.Tactic.Common

/-! # First fit by scanning for a run

One pass over numbered positions, remembering the run of free positions that ends
at the current one. The pass stops at the first run of the wanted length, and that
run is the lowest one.
-/

namespace RunScan

variable (free : Nat → Bool) (count : Nat)

/-- Scan `remaining` positions from `index` on, after `runLength` consecutive free ones
that started at `runStart`. -/
def scan : Nat → Nat → Nat → Nat → Option Nat
  | 0, _, _, _ => none
  | remaining + 1, index, runStart, runLength =>
      if free index then
        let runStart := if runLength = 0 then index else runStart
        let runLength := runLength + 1
        if count ≤ runLength then some runStart
        else scan remaining (index + 1) runStart runLength
      else scan remaining (index + 1) runStart 0

/-- `count` consecutive free positions from `start` on. -/
def IsRun (start : Nat) : Prop := ∀ offset < count, free (start + offset) = true

/-- What the scan knows before looking at `index`: the free run that ends there is the
longest one, and no run of the wanted length has ended yet. -/
structure Scanned (index runStart runLength : Nat) : Prop where
  fits : runLength ≤ index
  starts : runLength ≠ 0 → runStart + runLength = index
  run : ∀ position < index, index - runLength ≤ position → free position = true
  longest : runLength < index → free (index - runLength - 1) = false
  none_yet : ∀ start, IsRun free count start → index < start + count

variable {free count} {index runStart runLength : Nat}

theorem scan_lt {remaining start : Nat} (before : runStart ≤ index)
    (found : scan free count remaining index runStart runLength = some start) :
    start < index + remaining := by
  induction remaining generalizing index runStart runLength with
  | zero => exact absurd found (Option.some_ne_none _ ·.symm)
  | succ remaining ih =>
      have start_le : (if runLength = 0 then index else runStart) ≤ index := by
        split
        · exact Nat.le_refl _
        · exact before
      rw [scan] at found
      split at found
      · simp only at found
        split at found
        · obtain rfl := Option.some.inj found
          omega
        · have below := ih (Nat.le_succ_of_le start_le) found
          omega
      · have below := ih (Nat.le_succ_of_le before) found
        omega

theorem Scanned.initial (positive : 0 < count) : Scanned free count 0 0 0 where
  fits := Nat.le_refl _
  starts := fun nonempty => absurd rfl nonempty
  run := fun _ below => absurd below (Nat.not_lt_zero _)
  longest := fun below => absurd below (Nat.lt_irrefl _)
  none_yet := fun _ _ => by omega

/-- The pending run is still too short. -/
theorem Scanned.short (scanned : Scanned free count index runStart runLength) :
    runLength < count := by
  by_contra long
  have fits := scanned.fits
  have ends := scanned.none_yet (index - count) fun offset inside =>
    scanned.run _ (by omega) (by omega)
  omega

/-- A free position that does not complete a run extends the pending one. -/
theorem Scanned.extend (scanned : Scanned free count index runStart runLength)
    (available : free index = true) (short : runLength + 1 < count) :
    Scanned free count (index + 1) (if runLength = 0 then index else runStart)
      (runLength + 1) where
  fits := Nat.succ_le_succ scanned.fits
  starts := by
    intro _
    split
    · omega
    · have starts := scanned.starts ‹_›
      omega
  run := by
    intro position below inside
    by_cases last : position = index
    · rw [last, available]
    · exact scanned.run position (by omega) (by omega)
  longest := by
    intro below
    have longest := scanned.longest (by omega)
    rwa [show index + 1 - (runLength + 1) - 1 = index - runLength - 1 by omega]
  none_yet := by
    intro start run
    have later := scanned.none_yet start run
    by_contra ends
    have taken := scanned.longest (by omega)
    have available := run (index - runLength - 1 - start) (by omega)
    rw [show start + (index - runLength - 1 - start) = index - runLength - 1 by omega,
      taken] at available
    exact absurd available (by decide)

/-- A taken position ends the pending run. -/
theorem Scanned.reset (scanned : Scanned free count index runStart runLength)
    (taken : free index = false) (positive : 0 < count) :
    Scanned free count (index + 1) runStart 0 where
  fits := Nat.zero_le _
  starts := fun nonempty => absurd rfl nonempty
  run := fun position below inside => by omega
  longest := fun _ => taken
  none_yet := by
    intro start run
    have later := scanned.none_yet start run
    by_contra ends
    have available := run (index - start) (by omega)
    rw [show start + (index - start) = index by omega, taken] at available
    exact absurd available (by decide)

/-- The scan returns the lowest run that ends in the scanned range, if there is one. -/
theorem scan_spec {remaining : Nat} (positive : 0 < count)
    (scanned : Scanned free count index runStart runLength) :
    match scan free count remaining index runStart runLength with
    | some start =>
        IsRun free count start ∧ start + count ≤ index + remaining ∧
          ∀ other, IsRun free count other → start ≤ other
    | none => ∀ other, IsRun free count other → index + remaining < other + count := by
  induction remaining generalizing index runStart runLength with
  | zero => exact scanned.none_yet
  | succ remaining ih =>
      rw [scan]
      by_cases available : free index = true
      · rw [if_pos available]
        by_cases enough : count ≤ runLength + 1
        · rw [if_pos enough]
          have short := scanned.short
          have fits := scanned.fits
          have start_eq : (if runLength = 0 then index else runStart) = index - runLength := by
            split
            · omega
            · have starts := scanned.starts ‹_›
              omega
          simp only [start_eq]
          refine ⟨fun offset inside => ?_, by omega, fun other run => ?_⟩
          · by_cases last : index - runLength + offset = index
            · rw [last, available]
            · exact scanned.run _ (by omega) (by omega)
          · have later := scanned.none_yet other run
            omega
        · rw [if_neg enough]
          have rest := ih (scanned.extend available (by omega))
          rwa [show index + (remaining + 1) = index + 1 + remaining by omega]
      · rw [if_neg available]
        have rest := ih (scanned.reset (by simpa using available) positive)
        rwa [show index + (remaining + 1) = index + 1 + remaining by omega]

end RunScan
