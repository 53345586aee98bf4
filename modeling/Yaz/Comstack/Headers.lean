import Yaz.Comstack.Scan

/-! The header section of a message, line by line.

The scan of `cs_complete_http` goes from one line end to the next. What stands there is told here by the text alone, without
the guards against the end of the buffer.
-/

set_option autoImplicit false

namespace Yaz.Comstack
open List Yaz.Ber

variable {mem : List UInt8}

/-! ### Octets without a line end -/

variable {c : UInt8} {rest : List UInt8}

/-- No line end starts in the first `j` octets. -/
def Plain (j : Nat) (mem : List UInt8) : Prop := ∀ p < j, skipCrlf (mem.drop p) = 0

theorem Plain.add {j k : Nat} (front : Plain j mem) (back : Plain k (mem.drop j)) :
    Plain (j + k) mem := by
  intro p below
  by_cases first : p < j
  · exact front p first
  · have later := back (p - j) (by omega)
    rwa [drop_drop, show j + (p - j) = p by omega] at later

theorem plain_one (none : skipCrlf mem = 0) : Plain 1 mem := by
  intro p below
  obtain rfl : p = 0 := by omega
  exact none

theorem Plain.drop {j k : Nat} (plain : Plain (j + k) mem) : Plain k (mem.drop j) := by
  intro p below
  rw [drop_drop]
  exact plain (j + p) (by omega)

theorem skipCrlf_eq_zero (notLf : c ≠ 10) (notCr : c ≠ 13) : skipCrlf (c :: rest) = 0 := by
  unfold skipCrlf
  rw [if_neg, if_neg]
  · simpa using notLf
  · intro crlf
    cases rest with
    | nil => simp at crlf
    | cons => simp [notCr] at crlf

variable {j : Nat}

theorem plain_cons (notLf : c ≠ 10) (notCr : c ≠ 13) (plain : Plain j rest) :
    Plain (j + 1) (c :: rest) := by
  intro p below
  cases p with
  | zero => exact skipCrlf_eq_zero notLf notCr
  | succ p => exact plain p (by omega)

theorem plain_spaces (mem : List UInt8) : Plain (spaces mem) mem := by
  unfold spaces
  induction mem with
  | nil => intro p below; simp at below
  | cons c _ ih =>
    rw [takeWhile_cons]
    split
    next blank =>
      have space : c = 32 := by simpa using blank
      subst space
      exact plain_cons (by decide) (by decide) ih
    next => intro p below; simp at below

theorem plain_of_hasPrefix {text : List UInt8} (named : hasPrefix text mem = true)
    (plain : ∀ c ∈ text, toLower c ≠ 10 ∧ toLower c ≠ 13) : Plain text.length mem := by
  unfold hasPrefix at named
  rw [decide_eq_true_eq] at named
  induction text generalizing mem with
  | nil => intro p below; simp at below
  | cons d _ ih =>
    cases mem with
    | nil => simp at named
    | cons =>
      simp only [length_cons, take_succ_cons, map_cons, List.cons.injEq] at named
      obtain ⟨same, later⟩ := named
      obtain ⟨notLf, notCr⟩ := plain d (by simp)
      rw [← same] at notLf notCr
      refine plain_cons ?_ ?_ (ih later fun e inside => plain e (by simp [inside]))
      · rintro rfl
        exact notLf (by decide)
      · rintro rfl
        exact notCr (by decide)

theorem plain_of_digits {base i val v : Nat} (read : yazAtoul base mem i val = some (j, v)) :
    Plain (j - i) mem := by
  induction mem generalizing i val with
  | nil =>
    simp only [yazAtoul, Option.some.injEq, Prod.mk.injEq] at read
    intro p below
    omega
  | cons _ _ ih =>
    have order := (yazAtoul_agree read).1
    by_cases empty : j = i
    · intro p below
      omega
    · rw [yazAtoul] at read
      split at read
      · simp only [Option.some.injEq, Prod.mk.injEq] at read
        omega
      next digit isDigit =>
        split at read
        · simp only [Option.some.injEq, Prod.mk.injEq] at read
          omega
        · split at read
          · simp at read
          · rw [show j - i = j - (i + 1) + 1 by omega]
            refine plain_cons ?_ ?_ (ih read)
            · rintro rfl
              simp [show digitValue 10 = none by decide] at isDigit
            · rintro rfl
              simp [show digitValue 13 = none by decide] at isDigit

theorem plain_of_yazAtoi {base n v : Nat} (read : yazAtoi base mem = some (n, v)) : Plain n mem := by
  unfold yazAtoi at read
  split at read
  · simp at read
  next ret value scan =>
    split at read
    · simp at read
    next small =>
      obtain ⟨rfl, rfl⟩ := read
      exact plain_of_digits scan

variable {line : List UInt8}

theorem plain_encoding (named : hasPrefix (ascii "Transfer-Encoding:") line = true) :
    Plain (18 + spaces (line.drop 18)) line :=
  (plain_of_hasPrefix named (by decide)).add (plain_spaces _)

theorem plain_length (named : hasPrefix (ascii "Content-Length:") line = true) :
    Plain (15 + spaces (line.drop 15)) line :=
  (plain_of_hasPrefix named (by decide)).add (plain_spaces _)

/-! ### Header lines -/

/-- What a header line makes of `chunked` and `content_len`; `none` for a `Content-Length` without a number that fits. -/
def headerLine (line : List UInt8) (told : Bool × Int) : Option (Bool × Int) :=
  if hasPrefix (ascii "Transfer-Encoding:") line = true then
    some (told.1 || hasPrefix (ascii "chunked") (line.drop (18 + spaces (line.drop 18))), told.2)
  else if hasPrefix (ascii "Content-Length:") line = true then
    match yazAtoi 10 (line.drop (15 + spaces (line.drop 15))) with
    | none => none
    | some (noRead, len) => if noRead = 0 then none else some (told.1, len)
  else some told

/-- Header lines lead from the octets `mem` to `rest`, and what they tell from `told` to `told'`. -/
inductive Reads : List UInt8 → Bool × Int → List UInt8 → Bool × Int → Prop where
  | here {mem : List UInt8} {told : Bool × Int} : Reads mem told mem told
  | octet {c : UInt8} {mem rest : List UInt8} {told told' : Bool × Int} (none : skipCrlf (c :: mem) = 0)
      (later : Reads mem told rest told') :
      Reads (c :: mem) told rest told'
  | line {mem rest : List UInt8} {told toldThen told' : Bool × Int} (ended : skipCrlf mem ≠ 0)
      (header : skipCrlf (mem.drop (skipCrlf mem)) = 0)
      (is : headerLine (mem.drop (skipCrlf mem)) told = some toldThen) (later : Reads (mem.drop (skipCrlf mem)) toldThen rest told') :
      Reads mem told rest told'

section
variable {told toldThen told' : Bool × Int} {line : List UInt8}

theorem headerLine_encoding (named : hasPrefix (ascii "Transfer-Encoding:") line = true) :
    headerLine line told = some (told.1 || hasPrefix (ascii "chunked") (line.drop (18 + spaces (line.drop 18))), told.2) := by
  rw [headerLine, if_pos named]

theorem headerLine_length (named : hasPrefix (ascii "Content-Length:") line = true) {noRead len : Nat}
    (scan : yazAtoi 10 (line.drop (15 + spaces (line.drop 15))) = some (noRead, len)) (digits : noRead ≠ 0) :
    headerLine line told = some (told.1, (len : Int)) := by
  rw [headerLine, if_neg (by simp [not_both_prefixes named]), if_pos named, scan]
  exact if_neg digits

theorem headerLine_other (notEncoding : ¬ hasPrefix (ascii "Transfer-Encoding:") line = true)
    (notLength : ¬ hasPrefix (ascii "Content-Length:") line = true) : headerLine line told = some told := by
  rw [headerLine, if_neg notEncoding, if_neg notLength]

theorem Reads.trans (reads : Reads mem told line toldThen) (later : Reads line toldThen rest told') : Reads mem told rest told' := by
  induction reads with
  | here => exact later
  | octet none _ ih => exact .octet none (ih later)
  | line ended header is _ ih => exact .line ended header is (ih later)

theorem Plain.reads (plain : Plain j mem) (inside : j ≤ mem.length) : Reads mem told (mem.drop j) told := by
  induction j generalizing mem with
  | zero => exact .here
  | succ j ih =>
    cases mem with
    | nil => simp at inside
    | cons c rest => exact .octet (plain 0 (by omega)) (ih (Nat.add_comm j 1 ▸ plain).drop (by simpa using inside))

theorem Reads.length (reads : Reads mem told rest told') : rest.length ≤ mem.length := by
  induction reads with
  | here => exact Nat.le_refl _
  | octet _ _ ih => exact Nat.le_succ_of_le ih
  | line _ _ _ _ ih => exact Nat.le_trans ih (length_drop ▸ Nat.sub_le _ _)

theorem Reads.drop_eq (reads : Reads mem told rest told') : mem.drop (mem.length - rest.length) = rest := by
  induction reads with
  | here => rw [Nat.sub_self, drop_zero]
  | octet _ later ih =>
    have := later.length
    rw [length_cons, Nat.sub_add_comm this, drop_succ_cons, ih]
  | @line mem rest _ _ _ ended _ _ later ih =>
    have shorter := later.length
    have inside := skipCrlf_le_length mem
    rw [drop_drop, length_drop] at ih
    rw [length_drop] at shorter
    conv_rhs => rw [← ih]
    congr 1
    omega

/-- Where no line end starts, nothing but octets is read. -/
theorem Reads.skip (reads : Reads mem told rest told') (ended : skipCrlf rest ≠ 0) (plain : Plain j mem) :
    Reads (mem.drop j) told rest told' := by
  induction j generalizing mem with
  | zero => exact reads
  | succ j ih =>
    have first := plain 0 (Nat.succ_pos j)
    cases reads with
    | here => exact absurd first ended
    | octet _ later => exact ih later (Nat.add_comm j 1 ▸ plain).drop
    | line here => exact absurd first here

/-- The next line end. -/
theorem Reads.next (reads : Reads mem told rest told') (ended : skipCrlf rest ≠ 0) :
    ∃ k, Plain k mem ∧ skipCrlf (mem.drop k) ≠ 0 ∧ rest.length ≤ (mem.drop k).length := by
  induction reads with
  | here => exact ⟨0, fun _ below => absurd below (Nat.not_lt_zero _), ended, Nat.le_refl _⟩
  | octet none _ ih =>
    obtain ⟨k, plain, found, inside⟩ := ih ended
    refine ⟨k + 1, fun p below => ?_, found, inside⟩
    cases p with
    | zero => exact none
    | succ p => exact plain p (by omega)
  | line here _ _ later => exact ⟨0, fun _ below => absurd below (Nat.not_lt_zero _), here,
      Nat.le_trans later.length (length_drop ▸ Nat.sub_le _ _)⟩

theorem Plain.le_of_ended {k : Nat} (plain : Plain j mem) (ended : skipCrlf (mem.drop k) ≠ 0) : j ≤ k := by
  by_contra beyond
  exact ended (plain k (by omega))

end

/-! ### Texts that agree up to a line end -/

section
variable {mem' : List UInt8} {k n : Nat} {line line' : List UInt8}

theorem hasPrefix_agree (text : List UInt8) (agree : Agree (k + 2) line line') (ended : skipCrlf (line.drop k) ≠ 0)
    (plain : ∀ c ∈ text, toLower c ≠ 10 ∧ toLower c ≠ 13) :
    hasPrefix text line' = hasPrefix text line := by
  by_cases inside : text.length ≤ k
  · exact agree.hasPrefix (by omega)
  · have ended' : skipCrlf (line'.drop k) ≠ 0 := by
      rwa [(agree.drop k).skipCrlf (by omega)]
    rw [Bool.eq_iff_iff]
    constructor
    · exact fun named => absurd ((plain_of_hasPrefix named plain).le_of_ended ended') inside
    · exact fun named => absurd ((plain_of_hasPrefix named plain).le_of_ended ended) inside

theorem headerLine_agree {told toldThen : Bool × Int} (agree : Agree (k + 2) line line') (ended : skipCrlf (line.drop k) ≠ 0)
    (is : headerLine line told = some toldThen) : headerLine line' told = some toldThen := by
  have encoding := hasPrefix_agree (ascii "Transfer-Encoding:") agree ended (by decide)
  have length := hasPrefix_agree (ascii "Content-Length:") agree ended (by decide)
  by_cases named : hasPrefix (ascii "Transfer-Encoding:") line = true
  · have seen := (plain_encoding named).le_of_ended ended
    have same : spaces (line'.drop 18) = spaces (line.drop 18) := (agree.drop 18).spaces (by omega)
    have value := hasPrefix_agree (k := k - (18 + spaces (line.drop 18))) (ascii "chunked")
      ((agree.drop (18 + spaces (line.drop 18))).mono (by omega)) (by rwa [drop_drop, Nat.add_sub_cancel' seen]) (by decide)
    rw [headerLine_encoding named] at is
    rw [headerLine_encoding (encoding.trans named), same, value, is]
  · by_cases named' : hasPrefix (ascii "Content-Length:") line = true
    · have seen := (plain_length named').le_of_ended ended
      have same : spaces (line'.drop 15) = spaces (line.drop 15) := (agree.drop 15).spaces (by omega)
      cases scan : yazAtoi 10 (line.drop (15 + spaces (line.drop 15))) with
      | none =>
        rw [headerLine, if_neg named, if_pos named', scan] at is
        cases is
      | some number =>
        obtain ⟨noRead, len⟩ := number
        have digits : noRead ≠ 0 := by
          rintro rfl
          rw [headerLine, if_neg named, if_pos named', scan] at is
          cases is
        have whole := (plain_length named').add (plain_of_yazAtoi scan)
        have far := whole.le_of_ended ended
        obtain ⟨-, -, scanLocal⟩ := yazAtoi_agree scan
        rw [headerLine_length named' scan digits] at is
        rw [headerLine_length (length.trans named') (by rw [same]; exact scanLocal _ ((agree.drop _).mono (by omega))) digits, is]
    · rw [headerLine_other named named'] at is
      rw [headerLine_other (encoding ▸ named) (length ▸ named'), is]

theorem Reads.agree {told told' : Bool × Int} (reads : Reads mem told rest told') (ended : skipCrlf rest ≠ 0)
    (agree : Agree n mem mem') (enough : mem.length + 2 ≤ n + rest.length) :
      Reads mem' told (mem'.drop (mem.length - rest.length)) told' := by
  induction reads generalizing n mem' with
  | here =>
    rw [Nat.sub_self, drop_zero]
    exact .here
  | @octet c mem rest _ _ none later ih =>
    have shorter := later.length
    rw [length_cons] at enough
    have same := agree.skipCrlf (by omega)
    obtain ⟨n, rfl⟩ : ∃ fewer, n = fewer + 1 := ⟨n - 1, by omega⟩
    obtain ⟨mem', rfl, agrees⟩ := agree.cons
    rw [length_cons, Nat.sub_add_comm shorter, drop_succ_cons]
    exact .octet (same.trans none) (ih ended agrees (by omega))
  | @line mem rest _ _ _ here header is later ih =>
    have shorter := later.length
    have inside := skipCrlf_le_length mem
    obtain ⟨k, plain, found, more⟩ := later.next ended
    rw [length_drop, length_drop] at more
    rw [length_drop] at shorter
    have positive : 0 < rest.length := by
      rw [length_pos_iff]
      rintro rfl
      exact ended rfl
    have same := agree.skipCrlf (by omega)
    have agrees := agree.drop (skipCrlf mem)
    have later' := ih ended agrees (by rw [length_drop]; omega)
    rw [drop_drop, length_drop] at later'
    rw [show skipCrlf mem + (mem.length - skipCrlf mem - rest.length) = mem.length - rest.length by omega] at later'
    have header' := (agrees.skipCrlf (by omega)).trans header
    rw [← same] at agrees later' header'
    exact .line (same ▸ here) header' (headerLine_agree (agrees.mono (by omega)) (same ▸ found) (same ▸ is)) later'

end

/-! ### The line in front of an empty line -/

/-- A `Transfer-Encoding` line from its line end on, with `k` octets of value in front of `rest`. -/
structure EncodingLine (mem rest : List UInt8) (told told' : Bool × Int) (k : Nat) (value : List UInt8) : Prop where
  ended : skipCrlf mem ≠ 0
  named : hasPrefix (ascii "Transfer-Encoding:") (mem.drop (skipCrlf mem)) = true
  isValue : (mem.drop (skipCrlf mem)).drop (18 + spaces ((mem.drop (skipCrlf mem)).drop 18)) = value
  plain : Plain k value
  isRest : value.drop k = rest
  told : told' = (told.1 || hasPrefix (ascii "chunked") value, told.2)

/-- The last header line in front of `rest` is a `Transfer-Encoding`. -/
def AfterEncoding (mem : List UInt8) (told : Bool × Int) (rest : List UInt8) (told' : Bool × Int) : Prop :=
  ∃ mid toldThen k value, Reads mem told mid toldThen ∧ EncodingLine mid rest toldThen told' k value

section
variable {mem' mid rest value : List UInt8} {told toldThen told' : Bool × Int} {k n : Nat}

theorem EncodingLine.header (line : EncodingLine mem rest told told' k value) : skipCrlf (mem.drop (skipCrlf mem)) = 0 :=
  plain_of_hasPrefix line.named (by decide) 0 (by decide)

theorem EncodingLine.length (line : EncodingLine mem rest told told' k value) (ended : skipCrlf rest ≠ 0) :
    mem.length = skipCrlf mem + (18 + spaces ((mem.drop (skipCrlf mem)).drop 18) + k + rest.length) ∧ value.length = k + rest.length := by
  have positive : 0 < rest.length := by
    rw [length_pos_iff]
    rintro rfl
    exact ended rfl
  have back := congrArg List.length line.isRest
  have whole := congrArg List.length line.isValue
  rw [length_drop] at back
  rw [length_drop, length_drop] at whole
  omega

theorem EncodingLine.reads (line : EncodingLine mem rest told told' k value) (ended : skipCrlf rest ≠ 0) : Reads mem told rest told' := by
  obtain ⟨length, -⟩ := line.length ended
  have plain := (plain_encoding line.named).add (line.isValue ▸ line.plain)
  have reads : Reads _ told' _ told' := plain.reads (by rw [length_drop]; omega)
  rw [← drop_drop, line.isValue, line.isRest] at reads
  exact .line line.ended line.header (by rw [headerLine_encoding line.named, line.isValue, line.told]) reads

theorem AfterEncoding.reads (line : AfterEncoding mem told rest told') (ended : skipCrlf rest ≠ 0) : Reads mem told rest told' := by
  obtain ⟨mid, toldThen, k, value, front, line⟩ := line
  exact front.trans (line.reads ended)

theorem AfterEncoding.of_reads (reads : Reads mem told mid toldThen) (line : AfterEncoding mid toldThen rest told') :
    AfterEncoding mem told rest told' := by
  obtain ⟨final, toldLast, k, value, later, line⟩ := line
  exact ⟨final, toldLast, k, value, reads.trans later, line⟩

theorem EncodingLine.agree (line : EncodingLine mem rest told told' k value) (ended : skipCrlf rest ≠ 0) (agree : Agree n mem mem')
    (enough : mem.length + 2 ≤ n + rest.length) :
    ∃ value', EncodingLine mem' (mem'.drop (mem.length - rest.length)) told told' k value' := by
  obtain ⟨length, -⟩ := line.length ended
  have same := agree.skipCrlf (by omega)
  have lineAgrees := agree.drop (skipCrlf mem)
  have sameSpaces := (lineAgrees.drop 18).spaces (by omega)
  have valueAgrees := lineAgrees.drop (18 + spaces ((mem.drop (skipCrlf mem)).drop 18))
  rw [line.isValue] at valueAgrees
  refine ⟨_, same ▸ line.ended, ?_, rfl, fun p below => ?_, ?_, ?_⟩
  · rw [same]
    exact (lineAgrees.hasPrefix (show (ascii "Transfer-Encoding:").length ≤ _ from show 18 ≤ _ by omega)).trans line.named
  · rw [same, sameSpaces, (valueAgrees.drop p).skipCrlf (by omega)]
    exact line.plain p below
  · rw [same, sameSpaces, drop_drop, drop_drop]
    congr 1
    omega
  · rw [same, sameSpaces, hasPrefix_agree _ (valueAgrees.mono (show k + 2 ≤ _ by omega)) (by rw [line.isRest]; exact ended)
      (by decide), line.told]

theorem AfterEncoding.agree (line : AfterEncoding mem told rest told') (ended : skipCrlf rest ≠ 0) (agree : Agree n mem mem')
    (enough : mem.length + 2 ≤ n + rest.length) : AfterEncoding mem' told (mem'.drop (mem.length - rest.length)) told' := by
  obtain ⟨mid, toldThen, k, value, reads, line⟩ := line
  have shorter := reads.length
  obtain ⟨length, -⟩ := line.length ended
  have agrees := agree.drop (mem.length - mid.length)
  rw [reads.drop_eq] at agrees
  obtain ⟨value', line'⟩ := line.agree ended agrees (by omega)
  rw [drop_drop, show mem.length - mid.length + (mid.length - rest.length) = mem.length - rest.length by omega] at line'
  exact ⟨_, toldThen, k, value', reads.agree line.ended agree (by omega), line'⟩

end

/-! ### The scan follows the lines -/

theorem Plain.of_drop {k : Nat} (plain : Plain k mem) (seen : j ≤ k) : Plain (k - j) (mem.drop j) := by
  rw [← Nat.add_sub_cancel' seen] at plain
  exact plain.drop

section
variable {token value : List UInt8} {k : Nat} {chunked : Bool}

theorem encodingValue_eq_none : encodingValue token mem k chunked = none ↔ Plain (mem.length - 2) mem := by
  induction mem generalizing k chunked with
  | nil => exact iff_of_true rfl fun _ below => absurd below (Nat.not_lt_zero _)
  | cons c rest ih =>
    rw [encodingValue]
    by_cases short : (c :: rest).length ≤ 2
    · rw [if_pos short, Nat.sub_eq_zero_of_le short]
      exact iff_of_true rfl fun _ below => absurd below (Nat.not_lt_zero _)
    · rw [if_neg short]
      rw [length_cons] at short
      dsimp only
      have more : (c :: rest).length - 2 = rest.length - 2 + 1 := by
        rw [length_cons]
        omega
      split
      next ended => exact iff_of_false (by simp) fun plain => ended (plain 0 (by omega))
      next none =>
        rw [ih, more]
        constructor
        · intro plain p below
          cases p with
          | zero => exact not_not.mp none
          | succ p => exact plain p (by omega)
        · exact fun plain => (Nat.add_comm _ 1 ▸ plain).drop

theorem encodingValue_plain (plain : Plain j mem) (ended : skipCrlf (mem.drop j) ≠ 0) (three : 3 ≤ (mem.drop j).length) :
    encodingValue token mem k chunked = some (k + j, chunked || (decide (k ≤ 7 ∧ 7 ≤ k + j) && hasPrefix (ascii "chunked") token)) := by
  induction mem generalizing j k chunked with
  | nil => simp at three
  | cons c rest ih =>
    rw [length_drop] at three
    rw [encodingValue, if_neg (by omega)]
    dsimp only
    cases j with
    | zero =>
      rw [drop_zero] at ended
      rw [if_pos ended]
      have same : k = 7 ↔ k ≤ 7 ∧ 7 ≤ k := by omega
      simp [same]
    | succ j =>
      have none := plain 0 (Nat.succ_pos j)
      rw [drop_zero] at none
      rw [if_neg (not_not.mpr none), ih (Nat.add_comm j 1 ▸ plain).drop ended (by rw [length_drop]; rw [length_cons] at three; omega)]
      have sameEnd : k + 1 + j = k + (j + 1) := by omega
      rw [sameEnd, Bool.or_assoc, ← Bool.and_or_distrib_right]
      congr 4
      rw [Bool.eq_iff_iff]
      simp only [Bool.or_eq_true, decide_eq_true_eq]
      omega

theorem encodingValue_line (chunked : Bool) (plain : Plain k value) (ended : skipCrlf (value.drop k) ≠ 0)
    (three : 3 ≤ (value.drop k).length) :
    encodingValue value value 0 chunked = some (k, chunked || hasPrefix (ascii "chunked") value) := by
  rw [encodingValue_plain plain ended three]
  have seen (named : hasPrefix (ascii "chunked") value = true) : 7 ≤ k :=
    (show Plain 7 value from plain_of_hasPrefix named (by decide)).le_of_ended ended
  cases named : hasPrefix (ascii "chunked") value with
  | false => simp
  | true => simp [seen named]

end

theorem Reads.httpLoop {headOnly : Bool} {told told' : Bool × Int} {i : Nat} (reads : Reads mem told rest told') (ended : skipCrlf rest ≠ 0)
    (room : 3 ≤ rest.length ∨ 2 ≤ rest.length ∧ ∀ told'', ¬ AfterEncoding mem told rest told'')
      (limit : i + (mem.length - rest.length) ≤ 8192) :
    Comstack.httpLoop headOnly mem i told.1 told.2 =
      Comstack.httpLoop headOnly rest (i + (mem.length - rest.length)) told'.1 told'.2 := by
  induction size : mem.length using Nat.strong_induction_on generalizing mem told i with
  | _ bound ih =>
    have inside := reads.length
    have two' : 2 ≤ rest.length := by
      rcases room with three | both
      · exact Nat.le_of_succ_le three
      · exact both.1
    have later' {mid : List UInt8} {toldThen : Bool × Int} (front : Reads mem told mid toldThen) :
        3 ≤ rest.length ∨ 2 ≤ rest.length ∧ ∀ told'', ¬ AfterEncoding mid toldThen rest told'' :=
      room.imp_right fun both => ⟨both.1, fun told'' last => both.2 told'' (last.of_reads front)⟩
    cases reads with
    | here => rw [← size, Nat.sub_self, Nat.add_zero]
    | @octet c mem _ _ _ none later =>
      have shorter := later.length
      rw [length_cons] at size limit
      rw [httpLoop_skip (by rw [length_cons]; omega) (by omega) none, drop_one, tail_cons,
        ih mem.length (by omega) later (later' (.octet none .here)) (by omega) rfl]
      congr 1
      omega
    | @line _ _ _ toldThen _ here header is later =>
      have shorter := later.length
      rw [length_drop] at shorter
      have two : 2 ≤ mem.length := by omega
      have within : i ≤ 8192 := by omega
      -- from any octet of the line that no line end is in front of
      have goesOn {j : Nat} (plain : Plain j (mem.drop (skipCrlf mem))) :
          Comstack.httpLoop headOnly ((mem.drop (skipCrlf mem)).drop j) (i + skipCrlf mem + j) toldThen.1 toldThen.2 =
            Comstack.httpLoop headOnly rest (i + (bound - rest.length)) told'.1 told'.2 := by
        have reads := later.skip ended plain
        have shorter := reads.length
        rw [length_drop, length_drop] at shorter
        rw [ih _ (by rw [length_drop, length_drop]; omega) reads
          (later' (.line here header is (plain.reads (by rw [length_drop]; omega))))
            (by rw [length_drop, length_drop]; omega) rfl, length_drop, length_drop]
        congr 1
        omega
      obtain ⟨k, plain, found, more⟩ := later.next ended
      rw [length_drop, length_drop] at more
      generalize isLine : mem.drop (skipCrlf mem) = line at *
      have length : line.length = mem.length - skipCrlf mem := by rw [← isLine, length_drop]
      by_cases encoding : hasPrefix (ascii "Transfer-Encoding:") line = true
      · have seen := (plain_encoding encoding).le_of_ended found
        have three : 3 ≤ line.length - k := by
          rcases room with three | ⟨two, notLast⟩
          · omega
          · by_contra short
            have reads := later.skip ended plain
            have whole := reads.drop_eq
            rw [length_drop, show line.length - k - rest.length = 0 by omega, drop_zero] at whole
            refine notLast _ ⟨mem, told, _, _, .here, here, by rw [isLine]; exact encoding, by rw [isLine], plain.of_drop seen, ?_, rfl⟩
            rw [drop_drop, Nat.add_sub_cancel' seen, whole]
        have value := encodingValue_line told.1 (plain.of_drop seen)
          (by rwa [drop_drop, Nat.add_sub_cancel' seen]) (by rw [length_drop, length_drop]; omega)
        rw [headerLine_encoding encoding] at is
        rw [httpLoop_encoding two within here isLine header (by omega) encoding rfl value, drop_drop, Nat.add_sub_cancel' seen,
          ← goesOn plain, ← Option.some.inj is]
        congr 1
        omega
      · by_cases length' : hasPrefix (ascii "Content-Length:") line = true
        · cases scan : yazAtoi 10 (line.drop (15 + spaces (line.drop 15))) with
          | none =>
            rw [headerLine, if_neg encoding, if_pos length', scan] at is
            cases is
          | some number =>
            obtain ⟨noRead, len⟩ := number
            have digits : noRead ≠ 0 := by
              rintro rfl
              rw [headerLine, if_neg encoding, if_pos length', scan] at is
              cases is
            have whole := (plain_length length').add (plain_of_yazAtoi scan)
            have seen := whole.le_of_ended found
            rw [headerLine_length length' scan digits] at is
            rw [httpLoop_length two within here isLine header (by omega) length' rfl
              (by rw [← length_pos_iff, length_drop]; omega) scan digits, drop_drop, ← goesOn whole, ← Option.some.inj is]
            congr 1
            omega
        · rw [headerLine_other encoding length'] at is
          rw [httpLoop_other two within here isLine header (fun both => encoding both.2) (fun both => length' both.2),
            ← goesOn (plain_one header), ← Option.some.inj is]

section
variable {headOnly chunked : Bool} {contentLen : Int} {told told' : Bool × Int} {i : Nat} {line value : List UInt8}

theorem httpLoop_encoding_open (two : 2 ≤ mem.length) (limit : i ≤ 8192)
    (ended : skipCrlf mem ≠ 0) (isLine : mem.drop (skipCrlf mem) = line) (header : skipCrlf line = 0) (long : 19 < line.length)
    (named : hasPrefix (ascii "Transfer-Encoding:") line = true) (isValue : line.drop (18 + spaces (line.drop 18)) = value)
    (isOpen : Plain (value.length - 2) value) : Comstack.httpLoop headOnly mem i chunked contentLen = .incomplete := by
  rw [Comstack.httpLoop, if_neg (by omega), if_neg (by omega)]
  dsimp only
  rw [if_neg ended, isLine, if_neg (not_not.mpr header), if_pos ⟨long, named⟩, isValue, encodingValue_eq_none.mpr isOpen]

/-- The guard gives up when nothing is behind the bare line ends. -/
theorem AfterEncoding.httpLoop (line : AfterEncoding mem told rest told') (ended : skipCrlf rest ≠ 0) (two : rest.length = 2)
    (limit : i + (mem.length - rest.length) ≤ 8192) : Comstack.httpLoop headOnly mem i told.1 told.2 = .incomplete := by
  obtain ⟨mid, toldThen, k, value, reads, line⟩ := line
  have shorter := reads.length
  obtain ⟨length, back⟩ := line.length ended
  rw [reads.httpLoop line.ended (.inl (by omega)) (by omega)]
  refine httpLoop_encoding_open (by omega) (by omega) line.ended rfl line.header (by rw [length_drop]; omega) line.named line.isValue ?_
  rw [back, two, Nat.add_sub_cancel]
  exact line.plain

end

end Yaz.Comstack
