import MxOS.Drivers.FsInvariant

/-! # Names in the directory

Names are compared in full, but a directory entry stores only their first 23 bytes. A
lookup therefore never finds a longer name, and a file of that name is neither replaced
by a second write nor seen afterwards. Without such names the entries have different
names, and lookups see exactly what was written and not deleted.
-/

namespace MxOS.Fs

open ByteMemory Ata

variable {root : RootDirectory} {bitmap : Sector}

/-! ### Lookups -/

theorem named_iff {name : CString} {slot : Fin 32} :
    root.named name slot = true ↔
      root.Live slot ∧ storedBytes (root.files slot).name = name.bytes := by
  unfold RootDirectory.named
  rw [Bool.and_eq_true, decide_eq_true_eq,
    mStrcmp_eq_zero_iff (storedBytes_nulFree _) name.nulFree]
  rfl

theorem lookup_eq_some {name : CString} {slot : Fin 32} (found : root.lookup name = some slot) :
    root.Live slot ∧ storedBytes (root.files slot).name = name.bytes :=
  named_iff.mp (List.find?_some found)

theorem lookup_eq_none {name : CString} (missing : root.lookup name = none) (slot : Fin 32)
    (live : root.Live slot) : storedBytes (root.files slot).name ≠ name.bytes := by
  intro same
  have unnamed := List.find?_eq_none.mp missing slot (List.mem_finRange slot)
  exact unnamed (named_iff.mpr ⟨live, same⟩)

theorem lookup_ne_none {name : CString} {slot : Fin 32} (live : root.Live slot)
    (same : storedBytes (root.files slot).name = name.bytes) : root.lookup name ≠ none :=
  fun missing => lookup_eq_none missing slot live same

theorem fsFileExists_eq_false {fs : State} {name : CString} (missing : fs.root.lookup name = none) :
    fsFileExists fs (some name) = false := by
  unfold fsFileExists
  split
  · rfl
  · next found =>
      obtain ⟨given, _⟩ := usable_eq_some found
      obtain rfl := Option.some.inj given
      rw [missing, Option.isSome_none]

theorem fsFileExists_eq_true {fs : State} {name : CString} (nonempty : name.bytes ≠ [])
    (found : fs.root.lookup name ≠ none) : fsFileExists fs (some name) = true := by
  simp only [fsFileExists, usable_some nonempty]
  exact Option.isSome_iff_ne_none.mpr found

theorem length_storedBytes (name : Fin 24 → Byte) (valid : validName name = true) :
    (storedBytes name).length ≤ 23 := by
  obtain ⟨_, index, ends⟩ := validName_iff.mp valid
  have start : storedBytes name <+: List.ofFn name := List.takeWhile_prefix _
  have bound := start.length_le
  rw [List.length_ofFn] at bound
  by_contra long
  -- A name of 24 bytes would be the whole field, which has a zero byte.
  have all : storedBytes name = List.ofFn name :=
    start.eq_of_length (by rw [List.length_ofFn]; omega)
  exact storedBytes_nulFree name (all ▸ List.mem_ofFn.mpr ⟨index, ends⟩)

/-- A name of more than 23 bytes is never found. -/
theorem lookup_long {name : CString} (long : 23 < name.bytes.length) : root.lookup name = none := by
  by_contra found
  obtain ⟨slot, found⟩ := Option.ne_none_iff_exists'.mp found
  obtain ⟨live, same⟩ := lookup_eq_some found
  have short := length_storedBytes _ live
  rw [same] at short
  omega

/-! ### Different names -/

/-- At most one live entry stores the name. -/
def RootDirectory.Unique (root : RootDirectory) (name : List Byte) : Prop :=
  ∀ first second, root.Live first → root.Live second →
    storedBytes (root.files first).name = name → storedBytes (root.files second).name = name →
    first = second

/-- No two live entries have the same stored name. -/
def RootDirectory.DistinctNames (root : RootDirectory) : Prop :=
  ∀ first second, root.Live first → root.Live second →
    storedBytes (root.files first).name = storedBytes (root.files second).name → first = second

theorem RootDirectory.distinctNames_iff : root.DistinctNames ↔ ∀ name, root.Unique name :=
  ⟨fun distinct _ first second live₁ live₂ same₁ same₂ =>
      distinct first second live₁ live₂ (same₁.trans same₂.symm),
    fun unique first second live₁ live₂ same => unique _ first second live₁ live₂ same rfl⟩

theorem RootDirectory.Unique.setFile_empty {name : List Byte} (unique : root.Unique name)
    (slot : Fin 32) : (root.setFile slot .empty).Unique name := by
  intro first second live₁ live₂ same₁ same₂
  obtain ⟨differ₁, before₁⟩ := live_setFile_empty live₁
  obtain ⟨differ₂, before₂⟩ := live_setFile_empty live₂
  rw [root.setFile_of_ne _ differ₁] at same₁
  rw [root.setFile_of_ne _ differ₂] at same₂
  exact unique first second before₁ before₂ same₁ same₂

theorem RootDirectory.Unique.setFile {name : List Byte} (unique : root.Unique name)
    {slot : Fin 32} {entry : FileEntry}
    (fresh : storedBytes entry.name = name → ∀ other, root.Live other →
      storedBytes (root.files other).name ≠ name) :
    (root.setFile slot entry).Unique name := by
  intro first second live₁ live₂ same₁ same₂
  by_cases here₁ : first = slot
  · by_cases here₂ : second = slot
    · rw [here₁, here₂]
    · rw [RootDirectory.live_setFile_of_ne here₂] at live₂
      rw [here₁, root.setFile_self] at same₁
      rw [root.setFile_of_ne _ here₂] at same₂
      exact absurd same₂ (fresh same₁ second live₂)
  · rw [RootDirectory.live_setFile_of_ne here₁] at live₁
    rw [root.setFile_of_ne _ here₁] at same₁
    by_cases here₂ : second = slot
    · rw [here₂, root.setFile_self] at same₂
      exact absurd same₁ (fresh same₂ first live₁)
    · rw [RootDirectory.live_setFile_of_ne here₂] at live₂
      rw [root.setFile_of_ne _ here₂] at same₂
      exact unique first second live₁ live₂ same₁ same₂

theorem RootDirectory.DistinctNames.setFile_empty (distinct : root.DistinctNames) (slot : Fin 32) :
    (root.setFile slot .empty).DistinctNames := by
  rw [RootDirectory.distinctNames_iff] at distinct ⊢
  exact fun name => (distinct name).setFile_empty slot

theorem RootDirectory.DistinctNames.setFile (distinct : root.DistinctNames) {slot : Fin 32}
    {entry : FileEntry}
    (fresh : ∀ other, root.Live other →
      storedBytes (root.files other).name ≠ storedBytes entry.name) :
    (root.setFile slot entry).DistinctNames := by
  rw [RootDirectory.distinctNames_iff] at distinct ⊢
  refine fun name => (distinct name).setFile ?_
  rintro rfl
  exact fresh

/-! ### Calls -/

theorem RootDirectory.Unique.delete {query : List Byte} (unique : root.Unique query)
    (bitmap : Sector) (name : CString) : (Plan.delete root bitmap name).root.Unique query := by
  unfold Plan.delete
  cases root.lookup name with
  | none => exact unique
  | some slot =>
      rw [Plan.erase_root]
      exact unique.setFile_empty slot

/-- Deleting leaves no entry of the name. -/
theorem RootDirectory.Unique.lookup_delete {name : CString} (unique : root.Unique name.bytes)
    (bitmap : Sector) : (Plan.delete root bitmap name).root.lookup name = none := by
  unfold Plan.delete
  cases found : root.lookup name with
  | none => exact found
  | some slot =>
      obtain ⟨live, same⟩ := lookup_eq_some found
      rw [Plan.erase_root]
      by_contra again
      obtain ⟨other, again⟩ := Option.ne_none_iff_exists'.mp again
      obtain ⟨liveAfter, sameAfter⟩ := lookup_eq_some again
      obtain ⟨differ, liveBefore⟩ := live_setFile_empty liveAfter
      rw [root.setFile_of_ne _ differ] at sameAfter
      exact differ (unique other slot liveBefore live sameAfter same)

theorem RootDirectory.DistinctNames.delete (distinct : root.DistinctNames)
    (bitmap : Sector) (name : CString) :
    (Plan.delete root bitmap name).root.DistinctNames ∧
      (Plan.delete root bitmap name).root.lookup name = none := by
  rw [RootDirectory.distinctNames_iff] at distinct ⊢
  exact ⟨fun query => (distinct query).delete bitmap name, (distinct _).lookup_delete bitmap⟩

/-- A write stores an entry of the cut name in a free slot, or leaves the directory alone. -/
theorem Plan.store_root (root : RootDirectory) (bitmap : Sector) (name : CString)
    (data : Nat → Byte) (sizeBytes : Word) :
    ((Plan.store root bitmap name data sizeBytes).ok = false ∧
      (Plan.store root bitmap name data sizeBytes).root = root ∧
      (bitmapFindFreeRun bitmap ((sizeBytes + 511) / 512) = 0 ∨ root.freeSlot = none)) ∨
    ∃ slot, root.freeSlot = some slot ∧
      bitmapFindFreeRun bitmap ((sizeBytes + 511) / 512) ≠ 0 ∧
      (Plan.store root bitmap name data sizeBytes).ok = true ∧
      ∃ startLba sizeSect, (Plan.store root bitmap name data sizeBytes).root =
        root.setFile slot ⟨copyName (root.files slot).name name, startLba, sizeSect⟩ := by
  unfold Plan.store
  by_cases full : bitmapFindFreeRun bitmap ((sizeBytes + 511) / 512) = 0
  · simp only [full, ↓reduceIte]
    exact Or.inl ⟨rfl, rfl, Or.inl trivial⟩
  · simp only [full, ↓reduceIte]
    cases free : root.freeSlot with
    | none => exact Or.inl ⟨rfl, rfl, Or.inr rfl⟩
    | some slot => exact Or.inr ⟨slot, rfl, full, rfl, _, _, rfl⟩

theorem RootDirectory.DistinctNames.store (distinct : root.DistinctNames) (bitmap : Sector)
    {name : CString} (nonempty : name.bytes ≠ []) (short : name.bytes.length ≤ 23)
    (missing : root.lookup name = none) (data : Nat → Byte) (sizeBytes : Word) :
    (Plan.store root bitmap name data sizeBytes).root.DistinctNames ∧
      ((Plan.store root bitmap name data sizeBytes).ok = true →
        (Plan.store root bitmap name data sizeBytes).root.lookup name ≠ none) := by
  obtain ⟨refused, same, _⟩ | ⟨slot, free, _, _, startLba, sizeSect, stored⟩ :=
    Plan.store_root root bitmap name data sizeBytes
  · rw [same, refused]
    exact ⟨distinct, fun ok => absurd ok Bool.false_ne_true⟩
  · have kept : storedBytes (copyName (root.files slot).name name) = name.bytes := by
      rw [storedBytes_copyName, List.take_of_length_le short]
    rw [stored]
    refine ⟨distinct.setFile fun other live same => ?_, fun _ => ?_⟩
    · exact lookup_eq_none missing other live (same.trans kept)
    · apply lookup_ne_none
      · unfold RootDirectory.Live
        rw [root.setFile_self]
        exact validName_copyName _ nonempty
      · rw [root.setFile_self]
        exact kept

/-! ### Runs -/

/-- Lookups agree with what the call returned, and the names are different. -/
def Call.Agrees (drive : Drive) (fs : State) (call : Call) : Prop :=
  let (ok, after) := call.perform drive fs
  after.root.DistinctNames ∧ (ok = true →
    match call with
    | .write name _ _ | .writeSilent name _ _ => fsFileExists after name = true
    | .delete name | .deleteSilent name => fsFileExists after name = false)

/-- No name of more than 23 bytes is stored: the request writes a shorter one, or there is no
space or no free entry for it. -/
def Request.Harmless (fs : State) : Request → Prop
  | .write name _ sizeBytes => name.bytes.length ≤ 23 ∨
      bitmapFindFreeRun fs.bitmap ((sizeBytes + 511) / 512) = 0 ∨ fs.root.freeSlot = none
  | .delete _ | .invalid => True

def Call.Harmless (fs : State) (call : Call) : Prop := call.request.Harmless fs

theorem Request.ofDelete_harmless (given : Option CString) (fs : State) :
    (Request.ofDelete given).Harmless fs := by
  unfold Request.ofDelete
  cases usable given with
  | none => trivial
  | some name => trivial

/-- The property holds of every call of a run, in the state in which it is made. -/
def Along (drive : Drive) (property : State → Call → Prop) : State → List Call → Prop
  | _, [] => True
  | fs, call :: rest => property fs call ∧ Along drive property (call.perform drive fs).2 rest

section Reliable

variable {drive : Drive} (reliable : drive.Reliable) {fs : State}
include reliable

theorem fsDelete_agrees (distinct : fs.root.DistinctNames) (given : Option CString)
    (verbose : Bool) :
    (fsDeleteFileImpl drive given verbose fs).2.root.DistinctNames ∧
      ((fsDeleteFileImpl drive given verbose fs).1 = true →
        fsFileExists (fsDeleteFileImpl drive given verbose fs).2 given = false) := by
  have performs := fsDelete_request reliable given verbose fs
  generalize fsDeleteFileImpl drive given verbose fs = result at performs ⊢
  cases valid : usable given with
  | none =>
      simp only [Request.ofDelete, valid, Request.plan] at performs
      rw [performs.root, performs.ok]
      exact ⟨distinct, fun ok => absurd ok Bool.false_ne_true⟩
  | some name =>
      simp only [Request.ofDelete, valid, Request.plan] at performs
      obtain ⟨kept, missing⟩ := distinct.delete fs.bitmap name
      obtain ⟨rfl, _⟩ := usable_eq_some valid
      rw [← performs.root] at kept missing
      exact ⟨kept, fun _ => fsFileExists_eq_false missing⟩

/-- A long name that is stored is not found afterwards; otherwise a write agrees. -/
theorem fsWrite_agrees_iff (distinct : fs.root.DistinctNames) (given : Option CString)
    (data : Option (Nat → Byte)) (sizeBytes : Word) (verbose : Bool) :
    ((fsWriteFileImpl drive given data sizeBytes verbose fs).2.root.DistinctNames ∧
      ((fsWriteFileImpl drive given data sizeBytes verbose fs).1 = true →
        fsFileExists (fsWriteFileImpl drive given data sizeBytes verbose fs).2 given = true)) ↔
    (Request.ofWrite given data sizeBytes).Harmless fs := by
  have performs := fsWrite_request reliable given data sizeBytes verbose fs
  generalize fsWriteFileImpl drive given data sizeBytes verbose fs = result at performs ⊢
  rcases Request.ofWrite_cases given data sizeBytes with
    invalid | ⟨name, content, rfl, _, nonempty, _, request⟩
  · rw [invalid] at performs ⊢
    rw [performs.root, performs.ok]
    exact iff_of_true ⟨distinct, fun ok => absurd ok Bool.false_ne_true⟩ trivial
  · rw [request] at performs ⊢
    obtain ⟨kept, missing⟩ := distinct.delete fs.bitmap name
    by_cases short : name.bytes.length ≤ 23
    · obtain ⟨stored, found⟩ := kept.store (Plan.delete fs.root fs.bitmap name).bitmap
        nonempty short missing content sizeBytes
      have root : result.2.root = (Plan.store _ _ name content sizeBytes).root := performs.root
      have ok : result.1 = (Plan.store _ _ name content sizeBytes).ok := performs.ok
      rw [← root] at stored found
      rw [← ok] at found
      exact iff_of_true ⟨stored, fun done => fsFileExists_eq_true nonempty (found done)⟩
        (Or.inl short)
    · -- A long name is not found before the write either, so nothing is deleted.
      have untouched : Plan.delete fs.root fs.bitmap name = .reject fs.root fs.bitmap := by
        have absent : fs.root.lookup name = none := lookup_long (Nat.not_le.mp short)
        simp only [Plan.delete, absent]
      have ok := performs.ok
      have root := performs.root
      simp only [Request.plan, Plan.write, untouched, Plan.andThen, Plan.reject] at ok root
      have unseen : fsFileExists result.2 (some name) = false :=
        fsFileExists_eq_false (lookup_long (Nat.not_le.mp short))
      rcases Plan.store_root fs.root fs.bitmap name content sizeBytes with
        ⟨refused, same, why⟩ | ⟨slot, free, space, done, _⟩
      · rw [ok, root, same, refused]
        exact iff_of_true ⟨distinct, fun done => absurd done Bool.false_ne_true⟩ (Or.inr why)
      · rw [unseen, ok, done]
        refine iff_of_false (fun agrees => absurd (agrees.2 rfl) Bool.false_ne_true) ?_
        rintro (fits | full | none)
        · exact short fits
        · exact space full
        · exact Option.some_ne_none slot (free.symm.trans none)

theorem Call.agrees_iff (distinct : fs.root.DistinctNames) (call : Call) :
    call.Agrees drive fs ↔ call.Harmless fs := by
  cases call with
  | write name data sizeBytes => exact fsWrite_agrees_iff reliable distinct name data sizeBytes true
  | writeSilent name data sizeBytes =>
      exact fsWrite_agrees_iff reliable distinct name data sizeBytes false
  | delete name =>
      exact iff_of_true (fsDelete_agrees reliable distinct name true)
        (Request.ofDelete_harmless name fs)
  | deleteSilent name =>
      exact iff_of_true (fsDelete_agrees reliable distinct name false)
        (Request.ofDelete_harmless name fs)

/-- In a run without disk errors, lookups agree with every call if and only if no call stores a
name of more than 23 bytes. -/
theorem lookups_agree_iff (distinct : fs.root.DistinctNames) (calls : List Call) :
    Along drive (fun fs call => call.Agrees drive fs) fs calls ↔
      Along drive (fun fs call => call.Harmless fs) fs calls := by
  induction calls generalizing fs with
  | nil => exact Iff.rfl
  | cons call rest ih =>
      refine ⟨fun ⟨agrees, later⟩ => ?_, fun ⟨harmless, later⟩ => ?_⟩
      · exact ⟨(call.agrees_iff reliable distinct).mp agrees, (ih agrees.1).mp later⟩
      · have agrees := (call.agrees_iff reliable distinct).mpr harmless
        exact ⟨agrees, (ih agrees.1).mpr later⟩

end Reliable

theorem RootDirectory.DistinctNames.blank (empty : ∀ slot, root.files slot = .empty) :
    root.DistinctNames :=
  fun first _ live => absurd live (not_live_of_empty (empty first))

/-- A file of a name of one byte is written and deleted again. -/
theorem lookups_agree_short_name :
    let name : CString := ⟨[0x61], by decide⟩
    let calls := [Call.write (some name) (some fun _ => 0x78) 1, .delete (some name)]
    Along readyDrive (fun fs call => call.Agrees readyDrive fs) (fsInit readyDrive blankBoot)
      calls := by
  intro name calls
  have distinct : (fsInit readyDrive blankBoot).root.DistinctNames :=
    .blank (fsInit_blank readyDrive_reliable blankBoot_fresh).1
  exact (lookups_agree_iff readyDrive_reliable distinct calls).mpr
    ⟨Or.inl (by decide), trivial, trivial⟩

/-- A file of a name of 24 bytes is written twice: it is not found after the first time, and
listed twice after the second. -/
theorem long_name_not_found :
    let name : CString := ⟨List.replicate 24 0x61, by decide⟩
    let call := Call.write (some name) (some fun _ => 0x78) 1
    let once := call.perform readyDrive (fsInit readyDrive blankBoot)
    let twice := call.perform readyDrive once.2
    once.1 = true ∧ fsFileExists once.2 (some name) = false ∧ twice.1 = true ∧
      twice.2.root.Live 0 ∧ twice.2.root.Live 1 ∧
      storedBytes (twice.2.root.files 0).name = storedBytes (twice.2.root.files 1).name ∧
      ¬ Along readyDrive (fun fs call => call.Agrees readyDrive fs) (fsInit readyDrive blankBoot)
        [call] := by
  intro name call once twice
  have written : once.1 = true := by decide +kernel
  have missing : fsFileExists once.2 (some name) = false := by decide +kernel
  refine ⟨written, missing, by decide +kernel, ?_, ?_, by decide +kernel, fun agree => ?_⟩
  · unfold RootDirectory.Live
    decide +kernel
  · unfold RootDirectory.Live
    decide +kernel
  · exact Bool.false_ne_true (missing.symm.trans (agree.1.2 written))

end MxOS.Fs
