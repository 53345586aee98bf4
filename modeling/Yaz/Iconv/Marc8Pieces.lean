import Yaz.Iconv.Pieces

/-! Where a piece of MARC-8 may end: not behind a combining character and not in a character of
more octets. Behind an escape sequence it may end, though the next character is then read without
the octets of the sequence.
-/

set_option autoImplicit false

namespace Yaz.Iconv
open List

/-! ### Escape sequences -/


def CombData.withModes (data : CombData) (g0 g1 : Option UInt8) : CombData :=
  { data with g0Mode := g0.getD data.g0Mode, g1Mode := g1.getD data.g1Mode }

variable (data : CombData)

theorem CombData.withModes_twice (g0 g1 : Option UInt8) :
    (data.withModes g0 g1).withModes g0 g1 = data.withModes g0 g1 := by
  cases g0 <;> cases g1 <;> rfl

theorem CombData.setMode_withModes (g1 : Bool) (final : UInt8) (m0 m1 : Option UInt8) :
    (data.setMode g1 final).withModes m0 m1 =
      data.withModes (m0.or (if g1 then none else some final)) (m1.or (if g1 then some final else none)) := by
  cases g1 <;> cases m0 <;> cases m1 <;> rfl

variable {inp : List UInt8}

theorem skipOctet_more (p : UInt8 → Bool) (some : inp ≠ []) (more : List UInt8) :
    skipOctet p (inp ++ more) = skipOctet p inp ++ more := by
  cases inp with
  | nil => exact absurd rfl some
  | cons =>
    rw [cons_append, skipOctet, skipOctet]
    split <;> rfl

theorem skipOctet_ne_nil {p : UInt8 → Bool} (some : skipOctet p inp ≠ []) : inp ≠ [] := by
  rintro rfl
  exact some rfl

variable {inp rest : List UInt8}

theorem escapeSequence_more {g1 : Bool} {final : UInt8} (read : escapeSequence inp = some (g1, final, rest))
    (more : List UInt8) : escapeSequence (inp ++ more) = some (g1, final, rest ++ more) := by
  rw [escapeSequence] at read ⊢
  split at read
  · simp at read
  next final' rest' left =>
    have third : skipOctet (fun c => c = 40 || c = 44 || c = 41 || c = 45) (skipOctet (· = 36) inp) ≠ [] :=
      skipOctet_ne_nil (p := (· = 33)) (by rw [left]; simp)
    have second : skipOctet (· = 36) inp ≠ [] := skipOctet_ne_nil third
    have first : inp ≠ [] := skipOctet_ne_nil second
    rw [skipOctet_more _ first, skipOctet_more _ second, skipOctet_more _ third, left, head?_append_of_ne_nil _ second]
    obtain ⟨rfl, rfl, rfl⟩ := read
    rfl

def IsTail (tail : List UInt8) : Prop :=
  tail = [] ∨ (∃ c rest, tail = c :: rest ∧ c ≠ 27) ∨ ∃ rest, tail = 27 :: rest ∧ escapeSequence rest = none

theorem skipEscapes_escape {g1 : Bool} {final : UInt8} (read : escapeSequence inp = some (g1, final, rest))
    (data : CombData) : skipEscapes data (27 :: inp) = skipEscapes (data.setMode g1 final) rest := by
  rw [skipEscapes, if_pos rfl]
  split
  next none =>
    rw [read] at none
    simp at none
  next again =>
    rw [read] at again
    obtain ⟨rfl, rfl, rfl⟩ := again
    rfl

theorem skipEscapes_front (inp : List UInt8) :
    ∃ g0 g1 tail, IsTail tail ∧ tail.length ≤ inp.length ∧
      ∀ data more, skipEscapes data (inp ++ more) = skipEscapes (data.withModes g0 g1) (tail ++ more) := by
  generalize bound : inp.length = n
  induction n using Nat.strong_induction_on generalizing inp with
  | _ n ih =>
    cases inp with
    | nil => exact ⟨none, none, [], .inl rfl, Nat.zero_le _, fun data more => rfl⟩
    | cons c rest =>
      by_cases escape : c = 27
      · subst escape
        cases read : escapeSequence rest with
        | none => exact ⟨none, none, 27 :: rest, .inr (.inr ⟨rest, rfl, read⟩), by omega, fun data more => rfl⟩
        | some found =>
          obtain ⟨g1, final, after⟩ := found
          have less := escapeSequence_length read
          simp only [length_cons] at bound
          obtain ⟨m0, m1, tail, isTail, within, same⟩ := ih after.length (by omega) after rfl
          refine ⟨m0.or (if g1 then none else some final), m1.or (if g1 then some final else none), tail, isTail, by omega, ?_⟩
          intro data more
          rw [cons_append, skipEscapes_escape (escapeSequence_more read more), same, CombData.setMode_withModes]
      · exact ⟨none, none, c :: rest, .inr (.inl ⟨c, rest, rfl, escape⟩), by omega, fun data more => rfl⟩

variable {c : UInt8}

theorem skipEscapes_char (notEscape : c ≠ 27) (data : CombData) (rest : List UInt8) :
    skipEscapes data (c :: rest) = (data, some (c :: rest)) := by
  rw [skipEscapes, if_neg notEscape]

theorem skipEscapes_none : skipEscapes data [] = (data, some []) := by rw [skipEscapes]

theorem skipEscapes_incomplete (none : escapeSequence rest = none) (data : CombData) :
    skipEscapes data (27 :: rest) = (data, Option.none) := by
  rw [skipEscapes, if_pos rfl]
  split
  · rfl
  next again =>
    rw [none] at again
    simp at again

/-! ### Characters -/

section
variable (tables : Tables)

def charUncut (data : CombData) (c : UInt8) (rest more : List UInt8) : Bool :=
  c = 32 || (c < 32 && data.controlMode) ||
    match tables (if c < 128 then data.g0Mode else data.g1Mode) with
    | none => true
    | some table => table.conv (c :: rest) = table.conv (c :: rest ++ more)

variable {data : CombData}

theorem readChar_more {more : List UInt8} (skipped : Nat) (uncut : charUncut tables data c rest more = true) :
    readChar tables data skipped c (rest ++ more) = readChar tables data skipped c rest := by
  simp only [charUncut, Bool.or_eq_true, Bool.and_eq_true, decide_eq_true_eq] at uncut
  rw [readChar, readChar]
  by_cases blank : c = 32
  · rw [if_pos blank, if_pos blank]
  by_cases control : c < 32 ∧ data.controlMode
  · rw [if_neg blank, if_neg blank, if_pos control, if_pos control]
  · rw [if_neg blank, if_neg blank, if_neg control, if_neg control]
    cases found : tables (if c < 128 then data.g0Mode else data.g1Mode) with
    | none => rfl
    | some table =>
      have same : table.conv (c :: rest) = table.conv (c :: rest ++ more) := by
        simpa [blank, control, found] using uncut
      dsimp only
      rw [← cons_append, same]

variable {data data' : CombData}

theorem yazReadMarc8Comb_char (front : skipEscapes data inp = (data', some (c :: rest))) :
    yazReadMarc8Comb tables data inp = readChar tables data' (inp.length - (rest.length + 1)) c rest := by
  rw [yazReadMarc8Comb, front]

theorem yazReadMarc8Comb_more {more : List UInt8}
    (front : skipEscapes data inp = (data', some (c :: rest))) (behind : skipEscapes data (inp ++ more) =
      (data', some (c :: (rest ++ more))))
    (uncut : charUncut tables data' c rest more = true) :
    yazReadMarc8Comb tables data (inp ++ more) = yazReadMarc8Comb tables data inp := by
  have length := skipEscapes_length front
  have skipped : (inp ++ more).length - ((rest ++ more).length + 1) = inp.length - (rest.length + 1) := by
    simp only [length_append]
    omega
  rw [yazReadMarc8Comb_char tables front, yazReadMarc8Comb_char tables behind, skipped, readChar_more tables _ uncut]

/-- No combining character and its letter is cut, and no character of more octets. Behind a combining character
(`first` is not set) there has to be another character. -/
def marc8Uncut : Nat → Bool → CombData → List UInt8 → List UInt8 → Bool
  | 0, _, _, _, _ => false
  | rounds + 1, first, data, inp, more =>
    match skipEscapes data inp with
    | (_, none) => first
    | (data', some []) => if first then !startsCombining tables 8 data' more else more = [] && inp ≠ []
    | (data', some (c :: rest)) =>
      charUncut tables data' c rest more &&
        match yazReadMarc8Comb tables data inp with
        | (read, comb) => !comb || read.x = 0 || marc8Uncut rounds false read.data (inp.drop read.noRead) more

theorem charUncut_comb (comb : List (Nat × Nat)) (c : UInt8) (rest more : List UInt8) :
    charUncut tables { data with comb := comb } c rest more = charUncut tables data c rest more := rfl

theorem marc8Uncut_comb (rounds : Nat) (first : Bool) (data : CombData) (comb : List (Nat × Nat)) (inp more : List UInt8) :
    marc8Uncut tables rounds first { data with comb := comb } inp more = marc8Uncut tables rounds first data inp more := by
  induction rounds generalizing first data inp with
  | zero => rfl
  | succ _ ih =>
    rw [marc8Uncut, marc8Uncut, skipEscapes_comb, yazReadMarc8Comb_comb]
    rcases skipEscapes data inp with ⟨data', _ | _ | ⟨c, rest⟩⟩
    · rfl
    · dsimp only
      rw [startsCombining_comb]
    · dsimp only
      rw [charUncut_comb, ih]

variable {rounds : Nat} {inp more : List UInt8}

theorem marc8Uncut_notFull {first : Bool}
    (uncut : marc8Uncut tables rounds first data inp more = true) : startsCombining tables rounds data inp = false := by
  induction rounds generalizing first data inp with
  | zero => simp [marc8Uncut] at uncut
  | succ _ ih =>
    rw [marc8Uncut] at uncut
    rw [startsCombining]
    rcases front : skipEscapes data inp with ⟨data', _ | _ | ⟨c, rest⟩⟩
    · simp [yazReadMarc8Comb, front]
    · simp [yazReadMarc8Comb, front]
    · rw [front] at uncut
      generalize yazReadMarc8Comb tables data inp = result at uncut ⊢
      simp only [Bool.and_eq_true, Bool.or_eq_true, Bool.not_eq_true', decide_eq_true_eq] at uncut
      rcases uncut.2 with (other | none) | later
      · simp [other]
      · simp [none]
      · simp [ih later]

def CharFront (data : CombData) (inp : List UInt8) : Prop := ∃ data' c rest, skipEscapes data inp = (data', some (c :: rest))

theorem skipEscapes_charMore (front : skipEscapes data inp = (data', some (c :: rest)))
    (more : List UInt8) : skipEscapes data (inp ++ more) = (data', some (c :: (rest ++ more))) := by
  obtain ⟨g0, g1, tail, isTail, -, same⟩ := skipEscapes_front inp
  have alone := same data []
  rw [append_nil, append_nil, front] at alone
  rw [same]
  rcases isTail with rfl | ⟨d, others, rfl, notEscape⟩ | ⟨others, rfl, incomplete⟩
  · rw [skipEscapes_none] at alone
    simp at alone
  · rw [skipEscapes_char notEscape] at alone
    simp only [Prod.mk.injEq, Option.some.injEq] at alone
    rw [← alone.2, cons_append, skipEscapes_char, ← alone.1]
    rw [(List.cons.inj alone.2).1]
    exact notEscape
  · rw [skipEscapes_incomplete incomplete] at alone
    simp at alone

theorem readChar_stuck {skipped : Nat}
    (none : (readChar tables data skipped c rest).1.noRead = 0) :
    (readChar tables data skipped c rest).1.errno = some .eilseq ∧ (readChar tables data skipped c rest).1.x = 0 := by
  unfold readChar at none ⊢
  by_cases blank : c = 32
  · simp [blank] at none
  by_cases control : c < 32 ∧ data.controlMode
  · simp [blank, control] at none
  · rw [if_neg blank, if_neg control] at none ⊢
    cases found : tables (if c < 128 then data.g0Mode else data.g1Mode) with
    | none => exact ⟨rfl, rfl⟩
    | some table =>
      rw [found] at none
      have positive := table.noRead_pos (c :: rest)
      dsimp only at none
      omega

theorem combLoop_read (notMissing : ¬ (inp = [] ∧ data.comb ≠ [])) :
    combLoop tables (rounds + 1) data inp =
      if ¬ (yazReadMarc8Comb tables data inp).2 ∨ (yazReadMarc8Comb tables data inp).1.x = 0 then (yazReadMarc8Comb tables data inp).1
      else
        combLoop tables rounds
          { (yazReadMarc8Comb tables data inp).1.data with
            comb := data.comb ++ [((yazReadMarc8Comb tables data inp).1.x, (yazReadMarc8Comb tables data inp).1.noRead)] }
          (inp.drop (yazReadMarc8Comb tables data inp).1.noRead) := by
  rw [combLoop, if_neg notMissing]

/-- A letter and the combining characters before it are read in the same way when more follows, unless they are cut. -/
theorem combLoop_more {first : Bool}
    (uncut : marc8Uncut tables rounds first data inp more = true) (front : first = true → CharFront data inp)
    (behind : first = false → data.comb ≠ []) :
    combLoop tables rounds data (inp ++ more) = combLoop tables rounds data inp ∧
      ((combLoop tables rounds data inp).noRead = 0 →
        (combLoop tables rounds data inp).errno = some .eilseq ∧ (combLoop tables rounds data inp).x = 0) := by
  induction rounds generalizing first data inp with
  | zero => simp [marc8Uncut] at uncut
  | succ rounds ih =>
    rw [marc8Uncut] at uncut
    rcases skipped : skipEscapes data inp with ⟨data', _ | _ | ⟨c, rest⟩⟩
    · rw [skipped] at uncut
      obtain ⟨_, _, _, found⟩ := front uncut
      rw [skipped] at found
      simp at found
    · rw [skipped] at uncut
      cases first with
      | true =>
        obtain ⟨_, _, _, found⟩ := front rfl
        rw [skipped] at found
        simp at found
      | false =>
        -- escape sequences to the end of the whole input
        simp only [Bool.false_eq_true, if_false, Bool.and_eq_true, decide_eq_true_eq] at uncut
        obtain ⟨rfl, some⟩ := uncut
        rw [append_nil]
        refine ⟨rfl, ?_⟩
        have read : yazReadMarc8Comb tables data inp = ({ x := 0, noRead := inp.length, data := data' }, false) := by
          rw [yazReadMarc8Comb, skipped]
        rw [combLoop_read tables (fun missing => some missing.1), read]
        intro none
        simp [some] at none
    · rw [skipped] at uncut
      simp only [Bool.and_eq_true] at uncut
      have some : inp ≠ [] := by
        rintro rfl
        rw [skipEscapes_none] at skipped
        simp at skipped
      have same := yazReadMarc8Comb_more tables skipped (skipEscapes_charMore skipped more) uncut.1
      have within := yazReadMarc8Comb_noRead tables data inp
      have stuck : (yazReadMarc8Comb tables data inp).1.noRead = 0 →
          (yazReadMarc8Comb tables data inp).1.errno = Option.some .eilseq ∧ (yazReadMarc8Comb tables data inp).1.x = 0 := by
        rw [yazReadMarc8Comb_char tables skipped]
        exact readChar_stuck tables
      rw [combLoop_read tables (fun missing => some missing.1), combLoop_read tables (by simp [some]), same]
      split
      · exact ⟨rfl, stuck⟩
      next combining =>
        simp only [not_or, Decidable.not_not] at combining
        have later : marc8Uncut tables rounds false (yazReadMarc8Comb tables data inp).1.data
            (inp.drop (yazReadMarc8Comb tables data inp).1.noRead) more = true := by
          simpa [combining] using uncut.2
        rw [drop_append_of_le_length within]
        rw [← marc8Uncut_comb tables rounds false _ (data.comb ++ [_])] at later
        exact ih later (by simp) (by simp)

/-! ### Decoders -/

/-- `read_marc8s` puts a letter and its mark together behind `read_marc8`. -/
def composeRead (read : Read CombData) : Read CombData :=
  match read.data.comb with
  | [(mark, noRead)] =>
    match if read.x = 0 then none else yazIso88591LookupX12 read.x mark with
    | some y => { read with x := y, noRead := read.noRead + noRead, data := { read.data with comb := [] } }
    | none => read
  | _ => read

/-- `read_marc8s`, or `read_marc8`. -/
def readMarc8Or (compose : Bool) (data : CombData) (inp : List UInt8) : Read CombData :=
  if compose then composeRead (readMarc8 tables data inp) else readMarc8 tables data inp

theorem readMarc8_start (none : data.comb.drop data.combOffset = []) (inp : List UInt8) :
    readMarc8 tables data inp = combLoop tables 8 { data with combOffset := 0, comb := [] } inp := by
  rw [readMarc8, none]

theorem readMarc8Or_ahead (compose : Bool) {entry : Nat × Nat} {others : List (Nat × Nat)}
    (ahead : data.comb.drop data.combOffset = entry :: others) (inp : List UInt8) :
    readMarc8Or tables compose data inp = { x := entry.1, noRead := entry.2, data := { data with combOffset := data.combOffset + 1 } } := by
  have read : readMarc8 tables data inp = { x := entry.1, noRead := entry.2, data := { data with combOffset := data.combOffset + 1 } } := by
    rw [readMarc8, ahead]
  cases compose with
  | false => exact read
  | true =>
    rw [readMarc8Or, if_pos rfl, read, composeRead]
    split
    next mark noRead one =>
      have same : entry = (mark, noRead) := by
        rw [one] at ahead
        cases offset : data.combOffset with
        | zero =>
          rw [offset] at ahead
          simp only [drop_zero, List.cons.injEq] at ahead
          exact ahead.1.symm
        | succ =>
          rw [offset] at ahead
          simp at ahead
      rw [same, lookupX12_self]
      simp
    · rfl

theorem composeRead_zero {read : Read CombData} (zero : read.x = 0) : composeRead read = read := by
  rw [composeRead]
  split
  · rw [if_pos zero]
  · rfl

variable (compose controlMode : Bool)

def marc8Decoder : Decoder CombData := { initHandle := initMarc8 controlMode, readHandle := readMarc8Or tables compose }

theorem readMarc8Or_noRead (owed : combPending data ≤ inp.length)
    (notFull : eightCombining tables data inp = false) :
    (readMarc8Or tables compose data inp).noRead + combPending (readMarc8Or tables compose data inp).data ≤ inp.length := by
  cases compose with
  | false => exact readMarc8_noRead tables owed notFull
  | true => exact readMarc8s_noRead tables owed notFull

def CombValid (data : CombData) : Prop := ∀ entry ∈ data.comb, entry.2 ≠ 0

def CombData.fresh (data : CombData) : CombData := { data with combOffset := 0, comb := [] }

theorem readMarc8Or_fresh (none : data.comb.drop data.combOffset = []) (inp : List UInt8) :
    readMarc8Or tables compose data.fresh inp = readMarc8Or tables compose data inp := by
  have same : readMarc8 tables data.fresh inp = readMarc8 tables data inp := by
    rw [readMarc8_start tables none, readMarc8_start tables rfl]
    rfl
  rw [readMarc8Or, readMarc8Or, same]

/-- The characters that were read ahead come first, and their octets are taken. -/
theorem codesOf_ahead (valid : CombValid data) (owed : combPending data ≤ inp.length) :
    codesOf (marc8Decoder tables compose controlMode) data inp =
      (data.comb.drop data.combOffset).flatMap (fun entry => handed entry.1) ++
        codesOf (marc8Decoder tables compose controlMode) data.fresh (inp.drop (combPending data)) := by
  generalize pending : data.comb.drop data.combOffset = ahead
  induction ahead generalizing data inp with
  | nil =>
    have nothing : combPending data = 0 := by
      rw [combPending, pending]
      rfl
    rw [nothing, drop_zero, flatMap_nil, nil_append]
    exact (codesOf_congr (readMarc8Or_fresh tables compose pending inp)).symm
  | cons entry others ih =>
    have sum : combPending data = entry.2 + combSum others := by
      rw [combPending, pending]
      simp [combSum]
    have positive : entry.2 ≠ 0 := by
      apply valid entry
      apply mem_of_mem_drop (i := data.combOffset)
      rw [pending]
      simp
    have later : data.comb.drop (data.combOffset + 1) = others := by
      rw [← drop_drop, pending]
      rfl
    have some : inp ≠ [] := by
      rintro rfl
      simp only [length_nil] at owed
      omega
    have read : (marc8Decoder tables compose controlMode).readHandle data inp =
        { x := entry.1, noRead := entry.2, data := { data with combOffset := data.combOffset + 1 } } :=
      readMarc8Or_ahead tables compose pending inp
    have left : combPending { data with combOffset := data.combOffset + 1 } = combSum others := by
      rw [combPending]
      rw [later]
    have next : codesOf (marc8Decoder tables compose controlMode) { data with combOffset := data.combOffset + 1 } (inp.drop entry.2) =
        others.flatMap (fun entry => handed entry.1) ++
          codesOf (marc8Decoder tables compose controlMode) data.fresh ((inp.drop entry.2).drop (combSum others)) := by
      rw [← left]
      apply ih
      · exact valid
      · rw [left, length_drop]
        omega
      · exact later
    rw [codesOf_step some (by rw [read]; exact positive) (by rw [read]; dsimp only; omega), read]
    rw [next, drop_drop, sum, flatMap_cons, append_assoc]

theorem codesOf_group (some : inp ≠ [])
    (taken : (readMarc8Or tables compose data inp).noRead ≠ 0) (valid : CombValid (readMarc8Or tables compose data inp).data)
    (within : (readMarc8Or tables compose data inp).noRead + combPending (readMarc8Or tables compose data inp).data ≤ inp.length) :
    codesOf (marc8Decoder tables compose controlMode) data inp =
      handed (readMarc8Or tables compose data inp).x ++
        (((readMarc8Or tables compose data inp).data.comb.drop (readMarc8Or tables compose data inp).data.combOffset).flatMap
          (fun entry => handed entry.1) ++
        codesOf (marc8Decoder tables compose controlMode) (readMarc8Or tables compose data inp).data.fresh
          (inp.drop ((readMarc8Or tables compose data inp).noRead + combPending (readMarc8Or tables compose data inp).data))) := by
  have read : (marc8Decoder tables compose controlMode).readHandle data inp = readMarc8Or tables compose data inp := rfl
  rw [codesOf_step some (by rw [read]; exact taken) (by rw [read]; omega), read,
    codesOf_ahead tables compose controlMode valid (by rw [length_drop]; omega), drop_drop]

/-! ### A cut behind an escape sequence -/

/-- Two reads of the same characters, the first of which took `skipped` octets more. -/
structure Shifted (skipped : Nat) (read read' : Read CombData) : Prop where
  x : read.x = read'.x
  none : read'.noRead = 0 → read'.x = 0
  stuck : read.noRead = 0 ↔ read'.noRead = 0
  fresh : read.data.fresh = read'.data.fresh
  start : read.data.combOffset = 0 ∧ read'.data.combOffset = 0
  codes : read.data.comb.map Prod.fst = read'.data.comb.map Prod.fst
  total : read'.noRead ≠ 0 → read.noRead + combSum read.data.comb = skipped + (read'.noRead + combSum read'.data.comb)
  valid : CombValid read.data ∧ CombValid read'.data

def Read.behind (skipped : Nat) (read : Read CombData) : Read CombData :=
  { read with noRead := if read.noRead = 0 then 0 else skipped + read.noRead }

theorem readChar_behind (before skipped : Nat) (c : UInt8) (rest : List UInt8) :
    readChar tables data (before + skipped) c rest =
      ((readChar tables data skipped c rest).1.behind before, (readChar tables data skipped c rest).2) := by
  rw [readChar, readChar]
  split
  · simp [Read.behind, Nat.add_assoc]
  · split
    · simp [Read.behind, Nat.add_assoc]
    · split
      · simp [Read.behind]
      next table _ =>
        have positive := table.noRead_pos (c :: rest)
        have notZero : skipped + (table.conv (c :: rest)).noRead ≠ 0 := by omega
        simp only [Read.behind, if_neg notZero, Nat.add_assoc]

theorem yazReadMarc8Comb_behind (some : more ≠ [])
    (same : skipEscapes data (inp ++ more) = skipEscapes data' more) :
    yazReadMarc8Comb tables data (inp ++ more) =
      ((yazReadMarc8Comb tables data' more).1.behind inp.length, (yazReadMarc8Comb tables data' more).2) := by
  rw [yazReadMarc8Comb, yazReadMarc8Comb, same]
  rcases skipped : skipEscapes data' more with ⟨data'', _ | _ | ⟨c, rest⟩⟩
  · rfl
  · have notZero : more.length ≠ 0 := by
      rw [ne_eq, length_eq_zero_iff]
      exact some
    simp only [Read.behind, if_neg notZero, length_append]
  · have length := skipEscapes_length skipped
    rw [length_cons] at length
    dsimp only
    rw [length_append, show inp.length + more.length - (rest.length + 1) = inp.length + (more.length - (rest.length + 1)) by omega,
      readChar_behind]

theorem yazReadMarc8Comb_stuck (none : (yazReadMarc8Comb tables data inp).1.noRead = 0) :
    (yazReadMarc8Comb tables data inp).1.x = 0 := by
  rw [yazReadMarc8Comb] at none ⊢
  rcases skipped : skipEscapes data inp with ⟨data', _ | _ | ⟨c, rest⟩⟩
  · rfl
  · rfl
  · rw [skipped] at none
    exact (readChar_stuck tables none).2

structure Continued (comb comb' : List (Nat × Nat)) (read read' : Read CombData) : Prop where
  x : read.x = read'.x
  none : read'.noRead = 0 → read'.x = 0
  noRead : read.noRead = read'.noRead
  fresh : read.data.fresh = read'.data.fresh
  comb : ∃ new, (∀ entry ∈ new, entry.2 ≠ 0) ∧ read.data.comb = comb ++ new ∧ read'.data.comb = comb' ++ new

theorem combLoop_comb {comb comb' : List (Nat × Nat)} (some : comb ≠ []) (some' : comb' ≠ [])
    (notFull : startsCombining tables rounds data inp = false) :
    Continued comb comb' (combLoop tables rounds { data with comb := comb } inp)
      (combLoop tables rounds { data with comb := comb' } inp) := by
  induction rounds generalizing data inp comb comb' with
  | zero => simp [startsCombining] at notFull
  | succ rounds ih =>
    by_cases empty : inp = []
    · rw [combLoop, combLoop, if_pos ⟨empty, some⟩, if_pos ⟨empty, some'⟩]
      exact ⟨rfl, fun _ => rfl, rfl, rfl, [], by simp, by simp, by simp⟩
    · have positive : (yazReadMarc8Comb tables data inp).1.noRead = 0 → (yazReadMarc8Comb tables data inp).1.x = 0 :=
        yazReadMarc8Comb_stuck tables
      rw [combLoop_read tables (fun missing => empty missing.1), combLoop_read tables (fun missing => empty missing.1)]
      rw [yazReadMarc8Comb_comb tables data comb, yazReadMarc8Comb_comb tables data comb']
      rw [startsCombining] at notFull
      generalize yazReadMarc8Comb tables data inp = result at notFull positive ⊢
      obtain ⟨read, isComb⟩ := result
      split
      · exact ⟨rfl, positive, rfl, rfl, [], by simp, by simp, by simp⟩
      next combining =>
        simp only [not_or, Decidable.not_not] at combining
        have later : startsCombining tables rounds read.data (inp.drop read.noRead) = false := by
          simpa [combining] using notFull
        have continued : Continued (comb ++ [(read.x, read.noRead)]) (comb' ++ [(read.x, read.noRead)]) _ _ :=
          ih (by simp) (by simp) later
        obtain ⟨new, valid, one, two⟩ := continued.comb
        refine ⟨continued.x, continued.none, continued.noRead, continued.fresh, (read.x, read.noRead) :: new, ?_, ?_, ?_⟩
        · intro entry inside
          rcases mem_cons.mp inside with rfl | others
          · exact fun none => combining.2 (positive none)
          · exact valid entry others
        · rw [one, append_assoc]
          rfl
        · rw [two, append_assoc]
          rfl

/-- Behind escape sequences, a letter and the combining characters before it are read as they are without. -/
theorem combLoop_behind (some : more ≠ []) (start : data.comb = [] ∧ data.combOffset = 0)
    (start' : data'.comb = [] ∧ data'.combOffset = 0) (same : skipEscapes data (inp ++ more) = skipEscapes data' more)
    (notFull : startsCombining tables 8 data' more = false) :
    Shifted inp.length (combLoop tables 8 data (inp ++ more)) (combLoop tables 8 data' more) := by
  have offset := combLoop_offset tables 8 data (inp ++ more)
  have offset' := combLoop_offset tables 8 data' more
  have kept := yazReadMarc8Comb_kept tables data' more
  have positive : (yazReadMarc8Comb tables data' more).1.noRead = 0 → (yazReadMarc8Comb tables data' more).1.x = 0 :=
    yazReadMarc8Comb_stuck tables
  have whole : combLoop tables 8 data (inp ++ more) = _ := combLoop_read tables (fun missing => missing.2 start.1)
  have part : combLoop tables 8 data' more = _ := combLoop_read tables (fun missing => missing.2 start'.1)
  rw [yazReadMarc8Comb_behind tables some same] at whole
  rw [startsCombining] at notFull
  rw [start.1] at whole
  rw [start'.1] at kept part
  rw [start.2] at offset
  rw [start'.2] at offset'
  generalize yazReadMarc8Comb tables data' more = result at whole part kept positive notFull
  obtain ⟨read, comb⟩ := result
  dsimp only [Read.behind] at whole part kept positive notFull
  by_cases single : ¬ comb ∨ read.x = 0
  · replace whole := whole.trans (if_pos single)
    replace part := part.trans (if_pos single)
    rw [whole] at offset ⊢
    rw [part] at offset' ⊢
    have none : CombValid read.data := by
      rw [CombValid, kept]
      simp
    refine ⟨rfl, positive, ?_, rfl, ⟨offset, offset'⟩, rfl, ?_, none, none⟩
    · dsimp only
      split
      next zero => simp [zero]
      next notZero => simp [notZero]
    · intro notZero
      rw [if_neg notZero, Nat.add_assoc]
  · have notZero : read.noRead ≠ 0 := fun zero => single (.inr (positive zero))
    replace whole := whole.trans (if_neg single)
    replace part := part.trans (if_neg single)
    rw [if_neg notZero, drop_append, drop_of_length_le (by omega), Nat.add_sub_cancel_left, nil_append] at whole
    simp only [not_or, Decidable.not_not] at single
    have later : startsCombining tables 7 read.data (more.drop read.noRead) = false := by simpa [single] using notFull
    have continued : Continued [(read.x, inp.length + read.noRead)] [(read.x, read.noRead)] _ _ :=
      combLoop_comb tables (by simp) (by simp) later
    rw [nil_append] at whole part
    rw [← whole, ← part] at continued
    obtain ⟨new, valid, one, two⟩ := continued.comb
    refine ⟨continued.x, continued.none, by rw [continued.noRead], continued.fresh, ⟨offset, offset'⟩, ?_, ?_, ?_, ?_⟩
    · rw [one, two]
      rfl
    · intro _
      rw [one, two, continued.noRead]
      simp only [combSum, cons_append, nil_append, map_cons, sum_cons]
      omega
    · rw [CombValid, one]
      intro entry inside
      rcases mem_cons.mp inside with rfl | others
      · dsimp only
        omega
      · exact valid entry others
    · rw [CombValid, two]
      intro entry inside
      rcases mem_cons.mp inside with rfl | others
      · exact notZero
      · exact valid entry others

theorem composeRead_shifted {skipped : Nat} {read read' : Read CombData} (shifted : Shifted skipped read read') :
    Shifted skipped (composeRead read) (composeRead read') := by
  have codes := shifted.codes
  rw [composeRead, composeRead]
  rcases comb : read.data.comb with _ | ⟨⟨mark, noRead⟩, _ | _⟩ <;> rcases comb' : read'.data.comb with _ | ⟨⟨mark', noRead'⟩, _ | _⟩ <;>
    rw [comb, comb'] at codes <;> simp only [map_cons, map_nil, List.cons.injEq, reduceCtorEq, and_false, and_true] at codes <;>
    try exact shifted
  -- one mark, which both have
  subst codes
  dsimp only
  rw [shifted.x]
  split
  next y found =>
    have some : read'.x ≠ 0 := by
      intro zero
      simp [zero] at found
    have taken : read'.noRead ≠ 0 := fun zero => some (shifted.none zero)
    have total := shifted.total taken
    rw [comb, comb'] at total
    simp only [combSum, map_cons, map_nil, sum_cons, sum_nil, Nat.add_zero] at total
    refine ⟨rfl, ?_, ?_, shifted.fresh, shifted.start, rfl, ?_, ?_, ?_⟩
    · dsimp only
      omega
    · dsimp only
      omega
    · intro _
      simpa [combSum] using total
    · simp [CombValid]
    · simp [CombValid]
  · exact shifted

theorem CombData.fresh_of_start (start : data.comb = [] ∧ data.combOffset = 0) : data.fresh = data := by
  obtain ⟨g0Mode, g1Mode, combOffset, comb, controlMode⟩ := data
  obtain ⟨rfl, rfl⟩ := start
  rfl

theorem readMarc8Or_start (start : data.comb = [] ∧ data.combOffset = 0) (inp : List UInt8) :
    readMarc8Or tables compose data inp =
      if compose then composeRead (combLoop tables 8 data inp) else combLoop tables 8 data inp := by
  have read : readMarc8 tables data inp = combLoop tables 8 data inp := by
    rw [readMarc8_start tables (by rw [start.1, drop_nil])]
    exact congrArg (combLoop tables 8 · inp) (CombData.fresh_of_start start)
  rw [readMarc8Or, read]

theorem readMarc8Or_shifted (some : more ≠ []) (start : data.comb = [] ∧ data.combOffset = 0)
    (start' : data'.comb = [] ∧ data'.combOffset = 0) (same : skipEscapes data (inp ++ more) = skipEscapes data' more)
    (notFull : startsCombining tables 8 data' more = false) :
    Shifted inp.length (readMarc8Or tables compose data (inp ++ more)) (readMarc8Or tables compose data' more) := by
  have shifted := combLoop_behind tables some start start' same notFull
  rw [readMarc8Or_start tables compose start, readMarc8Or_start tables compose start']
  cases compose with
  | false => exact shifted
  | true => exact composeRead_shifted shifted

theorem codesOf_shifted (some : more ≠ []) (start : data.comb = [] ∧ data.combOffset = 0)
    (start' : data'.comb = [] ∧ data'.combOffset = 0) (same : skipEscapes data (inp ++ more) = skipEscapes data' more)
    (notFull : startsCombining tables 8 data' more = false) :
    codesOf (marc8Decoder tables compose controlMode) data' more =
      codesOf (marc8Decoder tables compose controlMode) data (inp ++ more) := by
  have shifted := readMarc8Or_shifted tables compose some start start' same notFull
  by_cases stuck : (readMarc8Or tables compose data' more).noRead = 0
  · rw [codesOf_stuck stuck, codesOf_stuck (shifted.stuck.mpr stuck)]
  · have taken : (readMarc8Or tables compose data (inp ++ more)).noRead ≠ 0 := fun zero => stuck (shifted.stuck.mp zero)
    have nothing : combPending data' = 0 := by
      rw [combPending, start'.1, drop_nil]
      rfl
    have notEight : eightCombining tables data' more = false := by
      have same : { data' with combOffset := 0 } = data' := by
        rw [← start'.2]
      rw [eightCombining, same, notFull, Bool.and_false]
    have within := readMarc8Or_noRead tables compose (by omega) notEight
    have total := shifted.total stuck
    have pending : combPending (readMarc8Or tables compose data (inp ++ more)).data =
        combSum (readMarc8Or tables compose data (inp ++ more)).data.comb := by
      rw [combPending, shifted.start.1, drop_zero]
    have pending' : combPending (readMarc8Or tables compose data' more).data =
      combSum (readMarc8Or tables compose data' more).data.comb := by
      rw [combPending, shifted.start.2, drop_zero]
    have behind : (inp ++ more).drop ((readMarc8Or tables compose data (inp ++ more)).noRead +
          combPending (readMarc8Or tables compose data (inp ++ more)).data) =
        more.drop ((readMarc8Or tables compose data' more).noRead + combPending (readMarc8Or tables compose data' more).data) := by
      rw [pending, pending', total, drop_append, drop_of_length_le (by omega), Nat.add_sub_cancel_left, nil_append]
    have codes : (readMarc8Or tables compose data (inp ++ more)).data.comb.flatMap (fun entry => handed entry.1) =
        (readMarc8Or tables compose data' more).data.comb.flatMap (fun entry => handed entry.1) := by
      have image (comb : List (Nat × Nat)) : comb.flatMap (fun entry => handed entry.1) = (comb.map Prod.fst).flatMap handed := by
        rw [flatMap_map]
      rw [image, image, shifted.codes]
    rw [codesOf_group tables compose controlMode some stuck shifted.valid.2 within,
      codesOf_group tables compose controlMode (by simp [some]) taken shifted.valid.1 (by rw [length_append]; omega),
      behind, shifted.fresh, shifted.x, shifted.start.1, shifted.start.2, drop_zero, drop_zero, codes]

theorem combLoop_valid (valid : CombValid data) :
    CombValid (combLoop tables rounds data inp).data := by
  induction rounds generalizing data inp with
  | zero => exact valid
  | succ _ ih =>
    have positive : (yazReadMarc8Comb tables data inp).1.noRead = 0 → (yazReadMarc8Comb tables data inp).1.x = 0 :=
      yazReadMarc8Comb_stuck tables
    have kept := yazReadMarc8Comb_kept tables data inp
    rw [combLoop]
    split
    · exact valid
    · dsimp only
      split
      · rw [CombValid, kept]
        exact valid
      next combining =>
        apply ih
        intro entry inside
        rcases mem_append.mp inside with before | new
        · exact valid entry before
        · rw [mem_singleton.mp new]
          exact fun none => combining (.inr (positive none))

theorem composeRead_valid {read : Read CombData} (valid : CombValid read.data) : CombValid (composeRead read).data := by
  rw [composeRead]
  split
  · split
    · simp [CombValid]
    · exact valid
  · exact valid

theorem readMarc8Or_valid (valid : CombValid data) :
    CombValid (readMarc8Or tables compose data inp).data := by
  have plain : CombValid (readMarc8 tables data inp).data := by
    rw [readMarc8]
    split
    · exact valid
    · exact combLoop_valid tables (by simp [CombValid])
  cases compose with
  | false => exact plain
  | true => exact composeRead_valid plain

theorem skipEscapes_cases (inp : List UInt8) (start : data.comb = [] ∧ data.combOffset = 0) :
    (∃ data', skipEscapes data inp = (data', none) ∧
      readMarc8Or tables compose data inp = { x := 0, noRead := 0, data := data', errno := some .einval } ∧
      ∀ more, readMarc8Or tables compose data' (inp ++ more) = readMarc8Or tables compose data (inp ++ more)) ∨
    (∃ data', skipEscapes data inp = (data', some []) ∧ (data'.comb = [] ∧ data'.combOffset = 0) ∧
      readMarc8Or tables compose data inp = { x := 0, noRead := inp.length, data := data' } ∧
      ∀ more, skipEscapes data (inp ++ more) = skipEscapes data' more) ∨
    CharFront data inp := by
  obtain ⟨g0, g1, tail, isTail, -, same⟩ := skipEscapes_front inp
  have start' : (data.withModes g0 g1).comb = [] ∧ (data.withModes g0 g1).combOffset = 0 := start
  have alone : skipEscapes data inp = skipEscapes (data.withModes g0 g1) tail := by
    have found := same data []
    rwa [append_nil, append_nil] at found
  have first (data : CombData) (start : data.comb = [] ∧ data.combOffset = 0) (inp : List UInt8) : combLoop tables 8 data inp = _ :=
    combLoop_read tables (fun missing => missing.2 start.1)
  rcases isTail with rfl | ⟨c, rest, rfl, notEscape⟩ | ⟨rest, rfl, incomplete⟩
  · rw [skipEscapes_none] at alone
    refine .inr (.inl ⟨_, alone, start', ?_, same data⟩)
    have read : combLoop tables 8 data inp = { x := 0, noRead := inp.length, data := data.withModes g0 g1 } := by
      rw [first data start, yazReadMarc8Comb, alone]
      rfl
    rw [readMarc8Or_start tables compose start, read, composeRead_zero rfl, ite_self]
  · rw [skipEscapes_char notEscape] at alone
    exact .inr (.inr ⟨_, c, rest, alone⟩)
  · rw [skipEscapes_incomplete incomplete] at alone
    refine .inl ⟨_, alone, ?_, ?_⟩
    · have read : combLoop tables 8 data inp = { x := 0, noRead := 0, data := data.withModes g0 g1, errno := some .einval } := by
        rw [first data start, yazReadMarc8Comb, alone]
        rfl
      rw [readMarc8Or_start tables compose start, read, composeRead_zero rfl, ite_self]
    · -- the sequences that were complete are read once more, and set the same modes
      intro more
      have again : skipEscapes (data.withModes g0 g1) (inp ++ more) = skipEscapes data (inp ++ more) := by
        rw [same, same, CombData.withModes_twice]
      rw [readMarc8Or_start tables compose start, readMarc8Or_start tables compose start', first data start, first _ start',
        yazReadMarc8Comb, yazReadMarc8Comb, again, start.1, start'.1]

theorem readMarc8Or_char (start : data.comb = [] ∧ data.combOffset = 0) (front : CharFront data inp)
    (uncut : marc8Uncut tables 8 true data inp more = true) :
    readMarc8Or tables compose data (inp ++ more) = readMarc8Or tables compose data inp ∧
      ((readMarc8Or tables compose data inp).noRead = 0 → (readMarc8Or tables compose data inp).errno = some .eilseq) := by
  obtain ⟨same, stuck⟩ := combLoop_more tables uncut (fun _ => front) (by simp)
  rw [readMarc8Or_start tables compose start, readMarc8Or_start tables compose start, same]
  refine ⟨rfl, ?_⟩
  cases compose with
  | false => exact fun none => (stuck none).1
  | true =>
    rw [if_pos rfl]
    intro none
    have nothing : (combLoop tables 8 data inp).noRead = 0 := by
      rw [composeRead] at none
      split at none
      · split at none
        · dsimp only at none
          omega
        · exact none
      · exact none
    rw [composeRead_zero (stuck nothing).2]
    exact (stuck nothing).1

def marc8Whole (data : CombData) (inp more : List UInt8) : Bool :=
  data.comb.drop data.combOffset ≠ [] || marc8Uncut tables 8 true data.fresh inp more

section
variable {tables compose controlMode}
variable {data : CombData} {inp more : List UInt8}

theorem marc8Whole_fresh (whole : marc8Whole tables data inp more = true) (none : data.comb.drop data.combOffset = []) :
    marc8Uncut tables 8 true data.fresh inp more = true := by
  simpa [marc8Whole, none] using whole

theorem marc8Whole_notFull (whole : marc8Whole tables data inp more = true) : eightCombining tables data inp = false := by
  rw [eightCombining]
  by_cases none : data.comb.drop data.combOffset = []
  · have notFull := marc8Uncut_notFull tables (marc8Whole_fresh whole none)
    have same : startsCombining tables 8 data.fresh inp = startsCombining tables 8 { data with combOffset := 0 } inp :=
      startsCombining_comb tables 8 { data with combOffset := 0 } [] inp
    rw [← same, notFull, Bool.and_false]
  · rw [drop_eq_nil_iff] at none
    simp [none]

theorem marc8Whole_stuck (some : inp ≠ []) (valid : CombValid data) (whole : marc8Whole tables data inp more = true)
    (nothing : (readMarc8Or tables compose data inp).noRead = 0) :
    (readMarc8Or tables compose data inp).errno = Option.some .eilseq ∧ (readMarc8Or tables compose data (inp ++ more)).noRead = 0 ∨
    (readMarc8Or tables compose data inp).errno = Option.some .einval ∧
      codesOf (marc8Decoder tables compose controlMode) (readMarc8Or tables compose data inp).data (inp ++ more) =
        codesOf (marc8Decoder tables compose controlMode) data (inp ++ more) := by
  rcases ahead : data.comb.drop data.combOffset with _ | ⟨entry, others⟩
  · have uncut := marc8Whole_fresh whole ahead
    have fresh (inp : List UInt8) := readMarc8Or_fresh tables compose ahead inp
    rw [← fresh] at nothing ⊢
    rcases skipEscapes_cases tables compose inp (show data.fresh.comb = [] ∧ data.fresh.combOffset = 0 from ⟨rfl, rfl⟩) with
      ⟨data', -, read, again⟩ | ⟨data', -, -, read, -⟩ | front
    · right
      rw [read]
      exact ⟨rfl, codesOf_congr ((again more).trans (fresh (inp ++ more)))⟩
    · rw [read] at nothing
      simp [some] at nothing
    · left
      obtain ⟨same, illegal⟩ := readMarc8Or_char tables compose ⟨rfl, rfl⟩ front uncut
      rw [← fresh, same]
      exact ⟨illegal nothing, nothing⟩
  · -- what was read ahead is never empty
    rw [readMarc8Or_ahead tables compose ahead] at nothing
    have inside : entry ∈ data.comb := mem_of_mem_drop (by rw [ahead]; simp)
    exact absurd nothing (valid entry inside)

theorem codesOf_same (same : readMarc8Or tables compose data (inp ++ more) = readMarc8Or tables compose data inp) (some : inp ≠ [])
    (taken : (readMarc8Or tables compose data inp).noRead ≠ 0) (within : (readMarc8Or tables compose data inp).noRead ≤ inp.length) :
    handed (readMarc8Or tables compose data inp).x ++
        codesOf (marc8Decoder tables compose controlMode) (readMarc8Or tables compose data inp).data
          ((inp ++ more).drop (readMarc8Or tables compose data inp).noRead) =
      codesOf (marc8Decoder tables compose controlMode) data (inp ++ more) :=
  @codesOf_more _ (marc8Decoder tables compose controlMode) data inp more same some taken within

theorem marc8Whole_goesOn (some : inp ≠ []) (owed : combPending data ≤ inp.length) (whole : marc8Whole tables data inp more = true)
    (taken : (readMarc8Or tables compose data inp).noRead ≠ 0) :
    handed (readMarc8Or tables compose data inp).x ++
        codesOf (marc8Decoder tables compose controlMode) (readMarc8Or tables compose data inp).data
          ((inp ++ more).drop (readMarc8Or tables compose data inp).noRead) =
      codesOf (marc8Decoder tables compose controlMode) data (inp ++ more) := by
  have kept := readMarc8Or_noRead tables compose owed (marc8Whole_notFull whole)
  rcases ahead : data.comb.drop data.combOffset with _ | ⟨entry, others⟩
  · have uncut := marc8Whole_fresh whole ahead
    have fresh (inp : List UInt8) := readMarc8Or_fresh tables compose ahead inp
    have codes : codesOf (marc8Decoder tables compose controlMode) data.fresh (inp ++ more) =
        codesOf (marc8Decoder tables compose controlMode) data (inp ++ more) := codesOf_congr (fresh (inp ++ more))
    rw [← fresh] at kept taken ⊢
    rw [← codes]
    rcases skipEscapes_cases tables compose inp (show data.fresh.comb = [] ∧ data.fresh.combOffset = 0 from ⟨rfl, rfl⟩) with
      ⟨data', -, read, -⟩ | ⟨data', front, start, read, same⟩ | front
    · rw [read] at taken
      exact absurd rfl taken
    · by_cases last : more = []
      · apply codesOf_same _ some taken (by omega)
        rw [last, append_nil]
      · rw [marc8Uncut, front] at uncut
        rw [read]
        rw [drop_left, handed, if_pos rfl, nil_append]
        exact codesOf_shifted tables compose controlMode last ⟨rfl, rfl⟩ start (same more) (by simpa using uncut)
    · obtain ⟨same, -⟩ := readMarc8Or_char tables compose ⟨rfl, rfl⟩ front uncut
      exact codesOf_same same some taken (by omega)
  · apply codesOf_same _ some taken (by omega)
    exact (readMarc8Or_ahead tables compose ahead _).trans (readMarc8Or_ahead tables compose ahead _).symm

end

def marc8Splits : Splits (marc8Accounts controlMode (readMarc8Or_noRead tables compose)) :=
  { valid := CombValid
    uncut := marc8Whole tables
    initValid := by
      intro d data inp noRead ready
      simp only [initMarc8, Init.ready.injEq] at ready
      rw [← ready.1]
      simp [CombValid]
    readValid := fun valid => readMarc8Or_valid tables compose valid
    initMore := fun _ ready => ready
    notFull := marc8Whole_notFull
    stuck := marc8Whole_stuck
    goesOn := fun some owed _ whole taken => marc8Whole_goesOn some owed whole taken }

end

def Fromcode.whole (generated : Generated) (junk : Junk) : (code : Fromcode) → code.Data → List UInt8 → List UInt8 → Bool
  | .marc8 | .marc8s | .marc8c => marc8Whole generated.marc8.tables
  | .iso5426 => marc8Whole generated.iso5426.tables
  | .danmarc => danmarcWhole junk
  | .utf8 => fun _ _ _ => true
  | .ucs4 | .ucs4le | .iso88591 | .iso5428 | .advancegreek | .wchar => fun _ _ _ => false

/-- The decoders that `whole` is about. -/
def Fromcode.inPieces : Fromcode → Bool
  | .marc8 | .marc8s | .marc8c | .iso5426 | .danmarc | .utf8 => true
  | .ucs4 | .ucs4le | .iso88591 | .iso5428 | .advancegreek | .wchar => false

theorem Fromcode.splits (generated : Generated) (junk : Junk) {code : Fromcode} (inPieces : code.inPieces = true) :
    ∃ (accounts : Accounts (code.decoder generated junk)) (splits : Splits accounts), splits.uncut = code.whole generated junk := by
  cases code with
  | marc8 => exact ⟨_, marc8Splits generated.marc8.tables false false, rfl⟩
  | marc8s => exact ⟨_, marc8Splits generated.marc8.tables true false, rfl⟩
  | marc8c => exact ⟨_, marc8Splits generated.marc8.tables false true, rfl⟩
  | iso5426 => exact ⟨_, marc8Splits generated.iso5426.tables false false, rfl⟩
  | danmarc => exact ⟨_, danmarcSplits junk, rfl⟩
  | utf8 => exact ⟨_, utf8Splits, rfl⟩
  | ucs4 | ucs4le | iso88591 | iso5428 | advancegreek | wchar => simp [Fromcode.inPieces] at inPieces

/-- An input in pieces, each behind what was left of those before, gives the codes that it gives as a whole. -/
theorem present_whole {E : Type} (generated : Generated) (junk : Junk) (encoder : Encoder E) {code : Fromcode}
    (inPieces : code.inPieces = true)
    {cd : Cd code.Data E} (opened : cd.initFlag = true) {pieces : List (List UInt8 × Nat)} {outbytesleft : Nat} (some : pieces ≠ [])
    (uncut : Uncut (code.decoder generated junk) encoder (code.whole generated junk) cd [] pieces)
    (room : ∀ call ∈ (present (code.decoder generated junk) encoder cd [] pieces).2, ¬ call.refused)
    (wholeRoom : ¬ (yazIconv (code.decoder generated junk) encoder cd (Option.some (pieces.flatMap Prod.fst))
      (Option.some outbytesleft)).refused) :
    (present (code.decoder generated junk) encoder cd [] pieces).1 =
      (yazIconv (code.decoder generated junk) encoder cd (Option.some (pieces.flatMap Prod.fst)) (Option.some outbytesleft)).codes := by
  obtain ⟨accounts, splits, same⟩ := Fromcode.splits generated junk inPieces
  rw [← same] at uncut
  have begun : cd.initFlag ≠ false := by
    rw [opened]
    simp
  rw [yazIconv_last encoder wholeRoom]
  exact present_codes encoder splits some (absurd · begun) (absurd · begun) uncut room

def openedCd : Cd Fromcode.marc8.Data Unit := (Session.opened noCombData ()).cd

def samplePieces : List (List UInt8 × Nat) := [([0xe1, 0x61, 27, 40], 10), ([66, 0x62], 10)]

theorem present_samplePieces :
    (present (Fromcode.marc8.decoder sampleGenerated 0) utf8Encoder openedCd [] samplePieces).1 =
      (yazIconv (Fromcode.marc8.decoder sampleGenerated 0) utf8Encoder openedCd (some (samplePieces.flatMap Prod.fst)) (some 10)).codes :=
  present_whole sampleGenerated 0 utf8Encoder rfl rfl (by decide) (by decide +kernel) (by decide +kernel) (by decide +kernel)

/-- A mark and its letter in two pieces: the mark comes first. -/
theorem present_markCut :
    (present (Fromcode.marc8.decoder sampleGenerated 0) utf8Encoder openedCd [] [([0xe1], 10), ([0x61], 10)]).1 = [0x300, 0x61] ∧
      (yazIconv (Fromcode.marc8.decoder sampleGenerated 0) utf8Encoder openedCd (some [0xe1, 0x61]) (some 10)).codes = [0x61, 0x300] := by
  decide +kernel

end Yaz.Iconv
