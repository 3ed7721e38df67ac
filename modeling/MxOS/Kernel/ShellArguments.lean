import MxOS.Kernel.ExecArguments
import MxOS.Kernel.ShellRefinement

/-! # The arguments of a command

`shell_execute` cuts the arguments of `exec` out of the input buffer by writing zeros
over the spaces behind them. The pointers it collects then point to the words of the
line, as many as there is room for.
-/

namespace MxOS.Shell

open ByteMemory Ata Fs Lines Input Sched Exec

/-! ### Text in the buffer -/

/-- The buffer holds the text from a place on. -/
structure HoldsAt (buffer : Buffer) (p : Nat) (text : List Byte) : Prop where
  fits : p + text.length ≤ 256
  bytes : ∀ index c, text[index]? = some c → byteAt buffer (p + index) = c

namespace HoldsAt

variable {buffer : Buffer} {p : Nat} {text first second : List Byte}

theorem bytesFrom (holds : HoldsAt buffer p text) :
    Shell.bytesFrom buffer p = text ++ Shell.bytesFrom buffer (p + text.length) := by
  have fits := holds.fits
  have here : slice (byteAt buffer) p text.length = text := by
    apply List.ext_getElem?
    intro index
    by_cases inside : index < text.length
    · rw [getElem?_slice _ inside, List.getElem?_eq_getElem inside,
        holds.bytes index _ (List.getElem?_eq_getElem inside)]
    · rw [List.getElem?_eq_none (by rw [length_slice]; omega),
        List.getElem?_eq_none (by omega)]
  rw [Shell.bytesFrom, Shell.bytesFrom,
    show 256 - p = text.length + (256 - (p + text.length)) by omega, slice_add, here]

theorem left (holds : HoldsAt buffer p (first ++ second)) : HoldsAt buffer p first where
  fits := by
    have fits := holds.fits
    rw [List.length_append] at fits
    omega
  bytes := by
    intro index c found
    have inside := (List.getElem?_eq_some_iff.mp found).1
    exact holds.bytes index c (by rw [List.getElem?_append_left inside, found])

theorem right (holds : HoldsAt buffer p (first ++ second)) :
    HoldsAt buffer (p + first.length) second where
  fits := by
    have fits := holds.fits
    rw [List.length_append] at fits
    omega
  bytes := by
    intro index c found
    rw [Nat.add_assoc]
    refine holds.bytes _ c ?_
    rw [List.getElem?_append_right (Nat.le_add_right ..), Nat.add_sub_cancel_left, found]

theorem head {c : Byte} (holds : HoldsAt buffer p (c :: text)) : byteAt buffer p = c :=
  holds.bytes 0 c rfl

theorem first_ne_zero (holds : HoldsAt buffer p text) (nonempty : text ≠ [])
    (nulFree : 0 ∉ text) : byteAt buffer p ≠ 0 := by
  obtain ⟨c, others, rfl⟩ := List.exists_cons_of_ne_nil nonempty
  rw [holds.head]
  exact fun zero => nulFree (zero ▸ List.mem_cons_self ..)

/-- The text depends on the bytes where it stands only. -/
theorem congr {other : Buffer} (holds : HoldsAt buffer p text)
    (same : ∀ index < p + text.length, p ≤ index → byteAt other index = byteAt buffer index) :
    HoldsAt other p text where
  fits := holds.fits
  bytes := by
    intro index c found
    have inside := (List.getElem?_eq_some_iff.mp found).1
    rw [same (p + index) (by omega) (by omega), holds.bytes index c found]

/-- A loop over the text stops at the first byte that fails its test. -/
theorem scanWhile {test : Byte → Bool} {c : Byte} (holds : HoldsAt buffer p (text ++ [c]))
    (passes : ∀ d ∈ text, test d = true) (fails : test c = false) :
    Shell.scanWhile test buffer p = p + text.length := by
  rw [Shell.scanWhile, holds.bytesFrom, List.append_assoc, List.takeWhile_append_of_pos passes,
    List.singleton_append, List.takeWhile_cons_of_neg (by rw [fails]; decide), List.append_nil]

/-- A loop over a text that does not pass its terminator. -/
theorem scan {test : Byte → Bool} (holds : HoldsAt buffer p (text ++ [0]))
    (stops : test 0 = false) :
    (Shell.bytesFrom buffer p).takeWhile test = text.takeWhile test ∧
      HoldsAt buffer (Shell.scanWhile test buffer p) (text.dropWhile test ++ [0]) := by
  have passed : (Shell.bytesFrom buffer p).takeWhile test = text.takeWhile test := by
    rw [holds.bytesFrom, List.append_assoc, List.takeWhile_append, List.singleton_append,
      List.takeWhile_cons_of_neg (by rw [stops]; exact Bool.false_ne_true), List.append_nil]
    split
    · next whole => exact ((List.takeWhile_prefix test).eq_of_length whole).symm
    · rfl
  refine ⟨passed, ?_⟩
  have parts : text ++ [0] = text.takeWhile test ++ (text.dropWhile test ++ [0]) := by
    rw [← List.append_assoc, List.takeWhile_append_dropWhile]
  rw [Shell.scanWhile, passed]
  rw [parts] at holds
  exact holds.right

/-- A text with its terminator is a string. -/
theorem textAt (holds : HoldsAt buffer p (text ++ [0])) (nulFree : 0 ∉ text) :
    (Shell.textAt buffer p).bytes = text := by
  have passes : ∀ d ∈ text, decide (d ≠ 0) = true := by
    intro d member
    exact decide_eq_true fun zero => nulFree (zero ▸ member)
  rw [Shell.textAt]
  simp only
  rw [holds.bytesFrom, List.append_assoc, List.takeWhile_append_of_pos passes,
    List.singleton_append, List.takeWhile_cons_of_neg (by decide), List.append_nil]

end HoldsAt

theorem holdsAt_of_bytesFrom {buffer : Buffer} {p : Nat} {text more : List Byte}
    (inside : p ≤ 256) (spelled : bytesFrom buffer p = text ++ more) :
    HoldsAt buffer p text := by
  have length := congrArg List.length spelled
  rw [bytesFrom, length_slice, List.length_append] at length
  refine ⟨by omega, fun index c found => ?_⟩
  have below := (List.getElem?_eq_some_iff.mp found).1
  have whole : (bytesFrom buffer p)[index]? = some c := by
    rw [spelled, List.getElem?_append_left below, found]
  rw [bytesFrom, getElem?_slice _ (by omega)] at whole
  exact Option.some.inj whole

/-- A string ends before any zero behind its start. -/
theorem length_textAt_le {buffer : Buffer} {p place : Nat} (below : p ≤ place)
    (inside : place < 256) (zero : byteAt buffer place = 0) :
    p + (textAt buffer p).bytes.length ≤ place := by
  have holds : HoldsAt buffer p (textAt buffer p).bytes :=
    holdsAt_of_bytesFrom (by omega) List.takeWhile_append_dropWhile.symm
  by_contra longer
  have found := List.getElem?_eq_getElem
    (show place - p < (textAt buffer p).bytes.length by omega)
  have byte := holds.bytes _ _ found
  rw [show p + (place - p) = place by omega, zero] at byte
  exact (textAt buffer p).nulFree (byte ▸ List.getElem_mem _)

/-- A text that fits is the string at a place if and only if it stands there with its
terminator. -/
theorem holdsAt_iff_textAt {buffer : Buffer} {p : Nat} {text : List Byte}
    (room : p + text.length < 256) (nulFree : 0 ∉ text) :
    HoldsAt buffer p (text ++ [0]) ↔ (textAt buffer p).bytes = text := by
  refine ⟨fun holds => holds.textAt nulFree, fun same => ?_⟩
  have spelled : bytesFrom buffer p = text ++ (bytesFrom buffer p).dropWhile (· ≠ 0) := by
    rw [← same]
    exact List.takeWhile_append_dropWhile.symm
  cases rest : (bytesFrom buffer p).dropWhile (· ≠ 0) with
  | nil =>
      have length := congrArg List.length spelled
      rw [rest, List.append_nil, bytesFrom, length_slice] at length
      omega
  | cons c more =>
      have stops := List.head_dropWhile_not (fun c : Byte => decide (c ≠ 0))
        (l := bytesFrom buffer p) (by rw [rest]; exact List.cons_ne_nil c more)
      simp only [rest, List.head_cons] at stops
      obtain rfl : c = 0 := by simpa using stops
      rw [rest, ← List.singleton_append, ← List.append_assoc] at spelled
      exact holdsAt_of_bytesFrom (by omega) spelled

theorem byteAt_update {buffer : Buffer} {place index : Nat} (inside : place < 256)
    (query : index < 256) (c : Byte) :
    byteAt (Function.update buffer (Fin.ofNat 256 place) c) index =
      if index = place then c else byteAt buffer index := by
  unfold byteAt
  split
  · next here =>
      rw [here]
      exact Function.update_self ..
  · next differ =>
      refine Function.update_of_ne (fun same => differ ?_) ..
      have values := congrArg Fin.val same
      simp only [Fin.val_ofNat] at values
      omega

/-! ### Splitting -/

/-- A text that does not start with a space starts with its first word. -/
theorem first_word {text : List Byte} (nonempty : text ≠ [])
    (start : text.head? ≠ some space) :
    ∃ word rest, text = word ++ rest ∧ word ≠ [] ∧ space ∉ word ∧
      (rest = [] ∨ ∃ more, rest = space :: more) := by
  refine ⟨text.takeWhile (· ≠ space), text.dropWhile (· ≠ space),
    List.takeWhile_append_dropWhile.symm, ?_, ?_, ?_⟩
  · obtain ⟨c, others, rfl⟩ := List.exists_cons_of_ne_nil nonempty
    have differ : c ≠ space := fun same => start (by rw [same]; rfl)
    rw [List.takeWhile_cons_of_pos (by simpa using differ)]
    exact List.cons_ne_nil _ _
  · intro member
    have passes := List.mem_takeWhile_imp member
    simp at passes
  · cases rest : text.dropWhile (· ≠ space) with
    | nil => exact Or.inl rfl
    | cons c more =>
        have stops := List.head_dropWhile_not (fun c : Byte => decide (c ≠ space))
          (l := text) (by rw [rest]; exact List.cons_ne_nil c more)
        simp only [rest, List.head_cons] at stops
        exact Or.inr ⟨more, by rw [show c = space by simpa using stops]⟩

/-- A word of the text and the space behind it, over which a terminator is written. -/
theorem HoldsAt.terminate {buffer : Buffer} {p : Nat} {word more : List Byte}
    (holds : HoldsAt buffer p (word ++ space :: more)) :
    let ended := Function.update buffer (Fin.ofNat 256 (p + word.length)) 0
    HoldsAt ended p (word ++ [0]) ∧ HoldsAt ended (p + word.length + 1) more := by
  intro ended
  have fits := holds.fits
  rw [List.length_append, List.length_cons] at fits
  have elsewhere : ∀ index < 256, index ≠ p + word.length →
      byteAt ended index = byteAt buffer index := by
    intro index inside differ
    rw [byteAt_update (by omega) inside, if_neg differ]
  constructor
  · refine ⟨by rw [List.length_append, List.length_singleton]; omega, fun index c found => ?_⟩
    have inside := (List.getElem?_eq_some_iff.mp found).1
    rw [List.length_append, List.length_singleton] at inside
    by_cases last : index = word.length
    · rw [last, List.getElem?_concat_length] at found
      rw [last, ← Option.some.inj found, byteAt_update (by omega) (by omega), if_pos rfl]
    · rw [List.getElem?_append_left (by omega)] at found
      rw [elsewhere _ (by omega) (by omega)]
      exact holds.left.bytes index c found
  · have tail := holds.right
    rw [← List.singleton_append] at tail
    refine tail.right.congr fun index below above => elsewhere index ?_ ?_
    · simp only [List.length_singleton] at below
      omega
    · rw [List.length_singleton] at above
      omega

/-- Spaces in front of a text that is followed by a terminator. -/
theorem HoldsAt.skipSpaces {buffer : Buffer} {p : Nat} {text : List Byte}
    (holds : HoldsAt buffer p (text ++ [0])) :
    ∃ spaces, Shell.scanWhile (· = space) buffer p = p + spaces ∧
      spaces + (text.dropWhile (· = space)).length = text.length ∧
      HoldsAt buffer (p + spaces) (text.dropWhile (· = space) ++ [0]) ∧
      (text.dropWhile (· = space)).head? ≠ some space := by
  obtain ⟨passed, behind⟩ := @HoldsAt.scan _ _ _ (fun c => decide (c = space)) holds rfl
  have parts := congrArg List.length
    (@List.takeWhile_append_dropWhile _ (fun c : Byte => decide (c = space)) text)
  rw [List.length_append] at parts
  rw [Shell.scanWhile, passed] at behind
  refine ⟨(text.takeWhile (· = space)).length, ?_, parts, behind, ?_⟩
  · rw [Shell.scanWhile, passed]
  · intro found
    have fails := List.head?_dropWhile_not (fun c : Byte => decide (c = space)) text
    rw [found] at fails
    simp at fails

/-- Arguments are terminated where a space was. -/
theorem splitArguments_bytes (remaining p : Nat) (buffer : Buffer) (place : Nat)
    (kept : byteAt buffer place ≠ space) :
    byteAt (splitArguments remaining p buffer).2 place = byteAt buffer place := by
  induction remaining generalizing p buffer with
  | zero => rfl
  | succ remaining ih =>
      rw [splitArguments]
      split
      · rfl
      · simp only
        generalize scanWhile (fun c => decide (c ≠ 0 ∧ c ≠ space)) buffer p = stop
        split
        · next ends =>
            have same : byteAt (Function.update buffer (Fin.ofNat 256 stop) 0) place =
                byteAt buffer place := by
              refine Function.update_of_ne (fun here => kept ?_) ..
              rw [← ends]
              exact congrArg buffer here
            rw [← same] at kept
            rw [ih _ _ kept, same]
        · exact ih stop buffer kept

theorem execArguments_bytes (buffer : Buffer) {place : Nat} (kept : byteAt buffer place ≠ space) :
    byteAt (execArguments buffer).2 place = byteAt buffer place :=
  splitArguments_bytes execMaxArgs _ buffer place kept

theorem splitArguments_first {remaining p name : Nat} {buffer : Buffer} {others : List Nat}
    (split : (splitArguments remaining p buffer).1 = name :: others) : name = p := by
  cases remaining with
  | zero => cases split
  | succ remaining =>
      rw [splitArguments] at split
      split at split
      · cases split
      · simp only at split
        split at split
        · exact (List.cons.inj split).1.symm
        · exact (List.cons.inj split).1.symm

/-- The loop at the last word of the text. -/
theorem splitArguments_last {buffer : Buffer} {p : Nat} {word : List Byte} (nonempty : word ≠ [])
    (spaceFree : space ∉ word) (nulFree : 0 ∉ word) (holds : HoldsAt buffer p (word ++ [0]))
    (remaining : Nat) :
    splitArguments (remaining + 1) p buffer =
      (p :: (splitArguments remaining (p + word.length) buffer).1,
        (splitArguments remaining (p + word.length) buffer).2) := by
  have passes : ∀ c ∈ word, decide (c ≠ 0 ∧ c ≠ space) = true := by
    intro c member
    exact decide_eq_true ⟨fun zero => nulFree (zero ▸ member),
      fun same => spaceFree (same ▸ member)⟩
  have stop := holds.scanWhile passes (by decide)
  have zero : byteAt buffer (p + word.length) = 0 := holds.right.head
  rw [splitArguments, if_neg (holds.left.first_ne_zero nonempty nulFree)]
  simp only
  rw [stop, if_neg (by rw [zero]; decide)]

/-- The loop at a word that a space follows. -/
theorem splitArguments_more {buffer : Buffer} {p : Nat} {word more : List Byte}
    (nonempty : word ≠ []) (spaceFree : space ∉ word) (nulFree : 0 ∉ word)
    (holds : HoldsAt buffer p (word ++ space :: more)) (remaining : Nat) :
    let ended := Function.update buffer (Fin.ofNat 256 (p + word.length)) 0
    let rest := splitArguments remaining (scanWhile (· = space) ended (p + word.length + 1)) ended
    splitArguments (remaining + 1) p buffer = (p :: rest.1, rest.2) := by
  intro ended rest
  have passes : ∀ c ∈ word, decide (c ≠ 0 ∧ c ≠ space) = true := by
    intro c member
    exact decide_eq_true ⟨fun zero => nulFree (zero ▸ member),
      fun same => spaceFree (same ▸ member)⟩
  have stop : scanWhile (fun c => c ≠ 0 ∧ c ≠ space) buffer p = p + word.length := by
    have upTo := holds
    rw [← List.singleton_append, ← List.append_assoc] at upTo
    exact upTo.left.scanWhile passes (by decide)
  have here : byteAt buffer (p + word.length) = space := holds.right.head
  rw [splitArguments, if_neg (holds.left.first_ne_zero nonempty nulFree)]
  simp only
  rw [stop, if_pos here]

/-- The pointers collected point to the first words of the text, and only bytes of the text are
written over. -/
theorem splitArguments_spec (remaining : Nat) {p : Nat} {buffer : Buffer} {text : List Byte}
    (holds : HoldsAt buffer p (text ++ [0])) (nulFree : 0 ∉ text)
    (start : text.head? ≠ some space) :
    ((splitArguments remaining p buffer).1.map fun place =>
        (textAt (splitArguments remaining p buffer).2 place).bytes) =
      (pieces space text []).take remaining ∧
    ∀ index < 256, index < p ∨ p + text.length ≤ index →
      byteAt (splitArguments remaining p buffer).2 index = byteAt buffer index := by
  induction remaining generalizing p buffer text with
  | zero => exact ⟨rfl, fun _ _ _ => rfl⟩
  | succ remaining ih =>
      by_cases empty : text = []
      · subst empty
        have zero : byteAt buffer p = 0 := holds.head
        rw [splitArguments, if_pos zero]
        exact ⟨rfl, fun _ _ _ => rfl⟩
      · obtain ⟨word, rest, rfl, nonempty, spaceFree, ends⟩ := first_word empty start
        have wordNulFree : 0 ∉ word := fun member => nulFree (List.mem_append_left _ member)
        rcases ends with rfl | ⟨more, rfl⟩
        · -- The word is the last one, and the loop ends at the terminator behind it.
          rw [List.append_nil] at holds ⊢
          rw [splitArguments_last nonempty spaceFree wordNulFree holds]
          have finished : HoldsAt buffer (p + word.length) ([] ++ [0]) := holds.right
          obtain ⟨none, same⟩ := ih finished List.not_mem_nil (by decide)
          rw [List.length_nil, Nat.add_zero] at same
          have fits := holds.fits
          have text : (textAt (splitArguments remaining (p + word.length) buffer).2 p).bytes =
              word :=
            HoldsAt.textAt (holds.congr fun index below _ => same index (by omega) (by omega))
              wordNulFree
          have single : pieces space word [] = [word] := by
            have found := pieces_append space spaceFree [] []
            rwa [List.append_nil, List.nil_append, pieces, if_neg nonempty] at found
          refine ⟨?_, fun index inside _ => same index inside (by omega)⟩
          rw [List.map_cons, text, none, single]
          simp [pieces]
        · -- A terminator is written over the space, and the spaces behind it are skipped.
          rw [List.append_assoc, List.cons_append] at holds
          rw [splitArguments_more nonempty spaceFree wordNulFree holds]
          obtain ⟨wordHeld, moreHeld⟩ := holds.terminate
          have fits := wordHeld.fits
          rw [List.length_append, List.length_singleton] at fits
          have others : ∀ index < 256, index ≠ p + word.length →
              byteAt (Function.update buffer (Fin.ofNat 256 (p + word.length)) 0) index =
                byteAt buffer index := by
            intro index inside differ
            rw [byteAt_update (by omega) inside, if_neg differ]
          generalize Function.update buffer (Fin.ofNat 256 (p + word.length)) 0 = ended at *
          obtain ⟨spaces, skipped, length, restHeld, restStart⟩ := moreHeld.skipSpaces
          have moreNulFree : 0 ∉ more.dropWhile (· = space) := fun member => nulFree
            (List.mem_append_right _ (List.mem_cons_of_mem _
              ((List.dropWhile_sublist _).subset member)))
          obtain ⟨later, same⟩ := ih restHeld moreNulFree restStart
          rw [← skipped] at later same
          have text : (textAt (splitArguments remaining
              (scanWhile (· = space) ended (p + word.length + 1)) ended).2 p).bytes = word := by
            refine HoldsAt.textAt (wordHeld.congr fun index below _ => ?_) wordNulFree
            rw [List.length_append, List.length_singleton] at below
            exact same index (by omega) (by omega)
          have found : pieces space (word ++ space :: more) [] =
              word :: pieces space (more.dropWhile (· = space)) [] := by
            rw [pieces_append space spaceFree, List.nil_append, pieces, if_pos rfl,
              if_neg nonempty, pieces_dropWhile, List.singleton_append]
          refine ⟨?_, fun index inside outside => ?_⟩
          · rw [List.map_cons, text, later, found, List.take_succ_cons]
          · rw [List.length_append, List.length_cons] at outside
            rw [same index inside (by omega), others index inside (by omega)]

/-! ### The command line -/

/-- The words of a command line after `exec`. -/
def execWords (line : List Byte) : List (List Byte) := pieces space (line.drop 5) []

/-- The arguments that `shell_execute` passes to `exec_run` are the first words of the line. -/
theorem execArguments_spec {buffer : Buffer} {line : List Byte}
    (holds : HoldsAt buffer 0 (line ++ [0])) (nulFree : 0 ∉ line)
    (command : literal "exec " <+: line) :
    ((execArguments buffer).1.map fun place => (textAt (execArguments buffer).2 place).bytes) =
      (execWords line).take execMaxArgs := by
  obtain ⟨rest, rfl⟩ := command
  have dropped : (literal "exec " ++ rest).drop 5 = rest := rfl
  have behind : HoldsAt buffer 5 (rest ++ [0]) := by
    rw [List.append_assoc] at holds
    exact holds.right
  obtain ⟨spaces, skipped, _, held, start⟩ := behind.skipSpaces
  have restNulFree : 0 ∉ rest.dropWhile (· = space) := fun member => nulFree
    (List.mem_append_right _ ((List.dropWhile_sublist _).subset member))
  have split := (splitArguments_spec execMaxArgs held restNulFree start).1
  rw [← skipped, pieces_dropWhile] at split
  rw [execWords, dropped]
  exact split

theorem mStrncmp_self (word rest : List Byte) :
    mStrncmp (word ++ rest) word word.length = 0 := by
  induction word with
  | nil => cases rest <;> rfl
  | cons c word ih =>
      rw [List.cons_append, List.length_cons, mStrncmp, if_pos rfl]
      exact ih

section Dispatch

variable {buffer : Buffer} {c : Byte} {rest : List Byte}

/-- A line is no command that starts with another letter. -/
theorem isCommand_of_ne (text : (textAt buffer 0).bytes = c :: rest) (command : String)
    (differ : (literal command).head?.any (· ≠ c) = true) : isCommand buffer command = false := by
  obtain ⟨d, head, other⟩ := (Option.any_eq_true ..).mp differ
  obtain ⟨more, word⟩ := List.head?_eq_some_iff.mp head
  have values : c.toNat ≠ d.toNat := fun same =>
    of_decide_eq_true other (BitVec.eq_of_toNat_eq same).symm
  rw [isCommand, text, word, mStrcmp, if_neg fun same => values (congrArg BitVec.toNat same)]
  exact decide_eq_false (by omega)

theorem startsCommand_of_ne (text : (textAt buffer 0).bytes = c :: rest) (command : String)
    (differ : (literal command).head?.any (· ≠ c) = true) :
    startsCommand buffer command = false := by
  obtain ⟨d, head, other⟩ := (Option.any_eq_true ..).mp differ
  obtain ⟨more, word⟩ := List.head?_eq_some_iff.mp head
  have values : c.toNat ≠ d.toNat := fun same =>
    of_decide_eq_true other (BitVec.eq_of_toNat_eq same).symm
  have length : command.length = more.length + 1 := by
    rw [← List.length_cons, ← word, literal, List.length_map]
    exact String.length_toList.symm
  rw [startsCommand, text, word, length, mStrncmp,
    if_neg fun same => values (congrArg BitVec.toNat same)]
  exact decide_eq_false (by omega)

theorem startsCommand_self (command : String)
    (text : (textAt buffer 0).bytes = literal command ++ rest) :
    startsCommand buffer command = true := by
  have length : command.length = (literal command).length := by
    rw [literal, List.length_map, String.length_toList]
  rw [startsCommand, text, length]
  exact decide_eq_true (mStrncmp_self (literal command) rest)

variable {layout : ShellLayout} {drive : Drive} {system : System}

/-- A line with another first letter than the commands before `exec` is compared with the
commands about tasks. -/
theorem runCommand_tasks (text : (textAt system.editor.inputBuffer 0).bytes = c :: rest)
    (differ : ∀ word ∈ ["help", "clear", "ver", "ls", "cat ", "rm "],
      (literal word).head?.any (· ≠ c) = true) :
    ∃ dump others, runCommand layout drive system =
      if startsCommand system.editor.inputBuffer "exec " then runExec layout drive system
      else if isCommand system.editor.inputBuffer "ps" then dump
      else if startsCommand system.editor.inputBuffer "kill " then some (runKill system)
      else if startsCommand system.editor.inputBuffer "priority " then some (runPriority system)
      else others := by
  simp only [List.forall_mem_cons] at differ
  obtain ⟨help, clear, ver, ls, cat, rm, _⟩ := differ
  unfold runCommand
  simp only
  rw [isCommand_of_ne text _ help, if_neg Bool.false_ne_true,
    isCommand_of_ne text _ clear, if_neg Bool.false_ne_true,
    isCommand_of_ne text _ ver, if_neg Bool.false_ne_true,
    isCommand_of_ne text _ ls, if_neg Bool.false_ne_true,
    startsCommand_of_ne text _ cat, if_neg Bool.false_ne_true,
    startsCommand_of_ne text _ rm, if_neg Bool.false_ne_true]
  exact ⟨_, _, rfl⟩

/-- A line that starts with `exec` starts a program. -/
theorem runCommand_exec
    (text : (textAt system.editor.inputBuffer 0).bytes = literal "exec " ++ rest) :
    runCommand layout drive system = runExec layout drive system := by
  have spelled : (textAt system.editor.inputBuffer 0).bytes =
      0x65 :: (literal "xec " ++ rest) := text
  obtain ⟨dump, others, run⟩ := @runCommand_tasks _ _ layout drive system spelled (by decide)
  rw [run, startsCommand_self "exec " text, if_pos rfl]

end Dispatch

/-- The buffer in which the commands are compared with the line. -/
theorem enter_holds {system : System} {line : List Byte} (short : line.length ≤ 255)
    (typed : system.editor.inputLine = line) (drive : Drive) :
    HoldsAt (system.enter drive).editor.inputBuffer 0 (line ++ [0]) := by
  have length : system.editor.bufferIdx = line.length := by
    rw [← typed, Session.inputLine, length_slice]
  have buffer : (system.enter drive).editor.inputBuffer =
      Function.update system.editor.inputBuffer (Fin.ofNat 256 line.length) 0 := by
    rw [← length]
    exact enterLine_inputBuffer drive system.editor _
  refine ⟨by rw [List.length_append, List.length_singleton]; omega, fun index c found => ?_⟩
  have inside := (List.getElem?_eq_some_iff.mp found).1
  rw [List.length_append, List.length_singleton] at inside
  rw [buffer, Nat.zero_add, byteAt_update (by omega) (by omega)]
  by_cases last : index = line.length
  · rw [last, List.getElem?_concat_length] at found
    rw [if_pos last, ← Option.some.inj found]
  · rw [List.getElem?_append_left (by omega), ← typed, Session.inputLine, length,
      getElem?_slice _ (by omega), Nat.zero_add] at found
    rw [if_neg last]
    exact Option.some.inj found

/-- A shell in which the line has been typed, on a machine with one program on its disk. -/
def typing (line : List Byte) : System where
  machine := (started imageShell.toExecLayout (fun _ => 0) 100
    { helloDisk with bitmap := fun index => if index.val = 0 then 1 else 0 } fun _ => 0).machine
  editor :=
    { Editor.initial with
      inputBuffer := fun index => line.getD index.val 0
      bufferIdx := line.length }
  cleared := 0

end MxOS.Shell
