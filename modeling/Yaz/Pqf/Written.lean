import Yaz.Pqf.Printer

/-! How the parser reads the pieces that the printer writes: numbers, terms, attributes and
operators.
-/

set_option autoImplicit false

namespace Yaz.Pqf
open List Yaz.Comstack Yaz.Http Yaz.Json
attribute [local simp] digitsValue tokenLength escapeString

/-! ### Decimal numbers -/

theorem isDigit_ofNat {n : Nat} (small : n < 10) : isDigit (UInt8.ofNat (48 + n)) = true := by
  rw [isDigit, UInt8.toNat_ofNat_of_lt' (by simp [UInt8.size]; omega)]
  simp only [Bool.and_eq_true, decide_eq_true_eq]
  omega

theorem decimal_digits (n : Nat) : ∀ c ∈ decimal n, isDigit c = true := by
  fun_induction decimal n with
  | case1 n small =>
    intro c inside
    rw [mem_singleton.mp inside]
    exact isDigit_ofNat small
  | case2 n large ih =>
    intro c inside
    rcases mem_append.mp inside with front | last
    · exact ih c front
    · rw [mem_singleton.mp last]
      exact isDigit_ofNat (Nat.mod_lt n (by omega))

theorem decimal_ne_nil (n : Nat) : decimal n ≠ [] := by
  rw [decimal]
  split <;> simp

theorem decimal_head (n : Nat) : ∃ c rest, decimal n = c :: rest ∧ isDigit c = true := by
  cases digits : decimal n with
  | nil => exact absurd digits (decimal_ne_nil n)
  | cons c rest => exact ⟨c, rest, rfl, decimal_digits n c (by simp [digits])⟩

variable {c : UInt8}

theorem digitsValue_cons (digit : isDigit c = true) (rest : List UInt8) (value : Nat) :
    digitsValue 10 (c :: rest) value = digitsValue 10 rest (value * 10 + (c.toNat - 48)) := by
  have range : 48 ≤ c.toNat ∧ c.toNat ≤ 57 := by simpa [isDigit] using digit
  rw [digitsValue, digitValue, if_pos digit]
  dsimp only
  rw [if_pos (by omega)]

theorem digitsValue_append {digits : List UInt8} (all : ∀ c ∈ digits, isDigit c = true) (rest : List UInt8) (value : Nat) :
    digitsValue 10 (digits ++ rest) value = digitsValue 10 rest (digitsValue 10 digits value) := by
  induction digits generalizing value with
  | nil => rfl
  | cons c _ ih =>
    rw [cons_append, digitsValue_cons (all c (by simp)), digitsValue_cons (all c (by simp))]
    exact ih (fun d inside => all d (by simp [inside])) _

theorem digitsValue_decimal (n : Nat) : digitsValue 10 (decimal n) 0 = n := by
  fun_induction decimal n with
  | case1 n small =>
    rw [digitsValue_cons (isDigit_ofNat small), UInt8.toNat_ofNat_of_lt' (by simp [UInt8.size]; omega)]
    simp only [digitsValue]
    omega
  | case2 n large ih =>
    have last : n % 10 < 10 := Nat.mod_lt n (by omega)
    rw [digitsValue_append (decimal_digits (n / 10)), ih, digitsValue_cons (isDigit_ofNat last),
      UInt8.toNat_ofNat_of_lt' (by simp [UInt8.size]; omega)]
    simp only [digitsValue]
    omega

def NoDigit (rest : List UInt8) : Prop := ∀ c ∈ rest.head?, isDigit c = false

variable {rest : List UInt8}

theorem digitsValue_stop (stops : NoDigit rest) (value : Nat) : digitsValue 10 rest value = value := by
  cases rest with
  | nil => rfl
  | cons c =>
    have notDigit := stops c rfl
    rw [digitsValue, digitValue, notDigit]
    simp only [Bool.false_eq_true, if_false]
    split
    next digit isLetter =>
      split at isLetter
      next upper =>
        have range : 65 ≤ c.toNat ∧ c.toNat ≤ 90 := by simpa [isUpper] using upper
        simp only [Option.some.injEq] at isLetter
        rw [if_neg (by omega)]
      · split at isLetter
        next lower =>
          have range : 97 ≤ c.toNat ∧ c.toNat ≤ 122 := by simpa [isLower] using lower
          simp only [Option.some.injEq] at isLetter
          rw [if_neg (by omega)]
        · simp at isLetter
    · rfl

theorem scanInt_digit {mem : List UInt8} (digit : mem.head?.any isDigit = true) : scanInt 10 mem = digitsValue 10 mem 0 := by
  cases mem with
  | nil => simp at digit
  | cons c =>
    have isDigit' : isDigit c = true := digit
    have range : 48 ≤ c.toNat ∧ c.toNat ≤ 57 := by simpa [isDigit] using isDigit'
    have other : ∀ d : UInt8, d.toNat < 48 → c ≠ d := by
      rintro d small rfl
      omega
    have notSpace : isSpace c = false := by
      simp only [isSpace, Bool.or_eq_false_iff, decide_eq_false_iff_not, Bool.and_eq_false_imp, decide_eq_true_eq]
      exact ⟨other 32 (by decide), by omega⟩
    simp only [scanInt, dropWhile_cons, notSpace, Bool.false_eq_true, if_false, head?_cons, Option.some.injEq,
      other 43 (by decide), other 45 (by decide)]
    rw [if_neg (by simp)]

theorem scanInt_decimal (n : Nat) (stops : NoDigit rest) : scanInt 10 (decimal n ++ rest) = n := by
  have value : digitsValue 10 (decimal n ++ rest) 0 = n := by
    rw [digitsValue_append (decimal_digits n), digitsValue_decimal, digitsValue_stop stops]
  have starts : (decimal n ++ rest).head?.any isDigit = true := by
    obtain ⟨c, others, digits, digit⟩ := decimal_head n
    rw [digits]
    exact digit
  rw [scanInt_digit starts, value]

theorem scanInt_negative (n : Nat) : scanInt 10 (45 :: decimal n) = - n := by
  have value : digitsValue 10 (decimal n) 0 = n := digitsValue_decimal n
  simp [scanInt, isSpace, value]

theorem odrAtoi_of_scanInt {mem : List UInt8} {n : Int64} (scanned : scanInt 10 mem = n.toInt) : odrAtoi mem = n := by
  have low := n.le_toInt
  have high := n.toInt_lt
  have inside : max (-2 ^ 63) (min (2 ^ 63 - 1) n.toInt) = n.toInt := by omega
  rw [odrAtoi, scanned, inside, Int64.ofInt_toInt]

theorem odrAtoi_intText {n : Int64} (positive : 0 ≤ n.toInt) (stops : NoDigit rest) :
    odrAtoi (intText n.toInt ++ rest) = n := by
  apply odrAtoi_of_scanInt
  rw [intText, if_neg (by omega), scanInt_decimal _ stops]
  omega

theorem scanInt_intText (n : Int) : scanInt 10 (intText n) = n := by
  rw [intText]
  split
  · rw [scanInt_negative]
    omega
  · have stops : NoDigit [] := by simp [NoDigit]
    rw [← append_nil (decimal n.toNat), scanInt_decimal _ stops]
    omega

theorem intText_injective {m n : Int} (same : intText m = intText n) : m = n := by
  rw [← scanInt_intText m, same, scanInt_intText]

theorem odrAtoi_signed (n : Int64) : odrAtoi (intText n.toInt) = n := odrAtoi_of_scanInt (scanInt_intText n.toInt)

/-! ### Tokens of printed text -/

def lexAt (li : Parser) (text : List UInt8) : Parser := lex { li with queryPtr := text }

def Separated (rest : List UInt8) : Prop := rest = [] ∨ rest.head? = some 32

theorem lex_eq_lexAt (li : Parser) : lex li = lexAt li li.queryPtr := rfl

theorem lexAt_separated (li : Parser) (separated : Separated rest) :
    lexAt li rest = lexAt li (rest.drop 1) := by
  cases rest with
  | nil => rfl
  | cons =>
    rcases separated with empty | blank
    · simp at empty
    · simp only [head?_cons, Option.some.injEq] at blank
      rw [blank]
      rfl

theorem tokenLength_sep (sepChar : UInt8) (rest : List UInt8) : tokenLength sepChar (sepChar :: rest) = 0 := by
  cases rest <;> rw [tokenLength, if_pos rfl]

theorem tokenLength_plain {sepChar : UInt8} (notSep : c ≠ sepChar) (notBackslash : c ≠ 92) (rest : List UInt8) :
    tokenLength sepChar (c :: rest) = tokenLength sepChar rest + 1 := by
  cases rest with
  | nil => simp [tokenLength, notSep]
  | cons => rw [tokenLength, if_neg notSep, if_neg notBackslash]

theorem tokenLength_escaped {sepChar : UInt8} (notBackslash : sepChar ≠ 92) (c : UInt8) (rest : List UInt8) :
    tokenLength sepChar (92 :: c :: rest) = tokenLength sepChar rest + 2 := by
  rw [tokenLength, if_neg (Ne.symm notBackslash), if_pos rfl]

theorem tokenLength_separated (separated : Separated rest) : tokenLength 32 rest = 0 := by
  rcases separated with rfl | blank
  · rfl
  · cases rest with
    | nil => rfl
    | cons =>
      simp only [head?_cons, Option.some.injEq] at blank
      rw [blank, tokenLength_sep]

theorem tokenLength_word {word : List UInt8} (plain : ∀ c ∈ word, c ≠ 32 ∧ c ≠ 92) (separated : Separated rest) :
    tokenLength 32 (word ++ rest) = word.length := by
  induction word with
  | nil => exact tokenLength_separated separated
  | cons c _ ih =>
    have first := plain c (by simp)
    rw [cons_append, tokenLength_plain first.1 first.2, ih fun d inside => plain d (by simp [inside])]
    rfl

theorem lexAt_token (li : Parser) {word : List UInt8} {others : List UInt8} (starts : word = c :: others)
    (notSpace : c ≠ 32) (noQuote : c ≠ 123 ∧ c ≠ 34) (noDigit : c = 64 → (others ++ rest).head?.any isDigit = false)
    (length : tokenLength 32 (word ++ rest) = word.length) :
    lexAt li (word ++ rest) =
      { li with
        queryPtr := rest.drop 1, lexBuf := word ++ rest, lexLen := word.length
        queryLook := if c = 64 then keyword { yazPqfCreate with lexBuf := word ++ rest, lexLen := word.length } else .text } := by
  subst starts
  have opened : openSep (c :: (others ++ rest)) = (32, c :: (others ++ rest)) := by
    unfold openSep
    split
    next same => exact absurd (List.cons.inj same).1 noQuote.1
    next same => exact absurd (List.cons.inj same).1 noQuote.2
    · rfl
  have dropped : (c :: (others ++ rest)).drop ((c :: others).length + 1) = rest.drop 1 := by
    rw [← cons_append, ← drop_drop, drop_left]
  have notAttr : ¬ ((c :: (others ++ rest)).head? = some 64 ∧ ((c :: (others ++ rest)).drop 1).head?.any isDigit = true) := by
    rintro ⟨isAt, digit⟩
    simp only [head?_cons, Option.some.injEq] at isAt
    rw [drop_succ_cons, drop_zero, noDigit isAt] at digit
    simp at digit
  have start : (c :: (others ++ rest)).dropWhile (· = 32) = c :: (others ++ rest) := by
    rw [dropWhile_cons, if_neg (by simpa using notSpace)]
  rw [cons_append] at length ⊢
  have read := lex_token { li with queryPtr := c :: (others ++ rest) } (by rw [start]; simp) (by rw [start, opened]) notAttr
  rw [lexAt, read, tokenLook, length, dropped]
  by_cases isAt : c = 64
  · rw [if_pos isAt, if_pos ⟨rfl, by simp, by simp [isAt]⟩]
  · rw [if_neg isAt, if_neg (by simp [isAt])]

def Kept (li next : Parser) : Prop := next.termType = li.termType ∧ next.error = li.error

theorem Kept.trans {first second third : Parser} (one : Kept first second) (two : Kept second third) : Kept first third :=
  ⟨two.1.trans one.1, two.2.trans one.2⟩

/-- The parser `next` has read a token and will go on with `rest`. -/
structure HasRead (li next : Parser) (look : Look) (rest : List UInt8) : Prop where
  look : next.queryLook = look
  ptr : ∀ other, lexAt other next.queryPtr = lexAt other rest
  kept : Kept li next

theorem HasRead.lex {li next : Parser} {look : Look} (read : HasRead li next look rest) :
    lex next = lexAt next rest := read.ptr next

theorem lexAt_word (li : Parser) {word : List UInt8} {others : List UInt8} (starts : word = c :: others)
    (plain : ∀ d ∈ word, d ≠ 32 ∧ d ≠ 92) (first : c ≠ 123 ∧ c ≠ 34 ∧ c ≠ 64) (separated : Separated rest) :
    HasRead li (lexAt li (word ++ rest)) .text (rest.drop 1) ∧ (lexAt li (word ++ rest)).lexBuf = word ++ rest ∧
      (lexAt li (word ++ rest)).lexLen = word.length := by
  have notSpace := (plain c (by simp [starts])).1
  rw [lexAt_token li starts notSpace ⟨first.1, first.2.1⟩ (fun isAt => absurd isAt first.2.2) (tokenLength_word plain separated),
    if_neg first.2.2]
  exact ⟨⟨rfl, fun _ => rfl, rfl, rfl⟩, rfl, rfl⟩

theorem lexAt_quoted (li : Parser) {word : List UInt8} (rest : List UInt8)
    (noDigit : ¬ ((word ++ 34 :: rest).head? = some 64 ∧ ((word ++ 34 :: rest).drop 1).head?.any isDigit))
    (length : tokenLength 34 (word ++ 34 :: rest) = word.length) :
    lexAt li (34 :: (word ++ 34 :: rest)) =
      { li with queryPtr := rest, lexBuf := word ++ 34 :: rest, lexLen := word.length, queryLook := .text } := by
  have start : (34 :: (word ++ 34 :: rest)).dropWhile (· = 32) = 34 :: (word ++ 34 :: rest) := rfl
  have dropped : (word ++ 34 :: rest).drop (word.length + 1) = rest := by
    rw [← drop_drop, drop_left]
    rfl
  have read := lex_token { li with queryPtr := 34 :: (word ++ 34 :: rest) } (by rw [start]; simp) (by rw [start]; rfl) noDigit
  have quote : ¬ ((34 : UInt8) = 32 ∧ 1 ≤ word.length ∧ (word ++ 34 :: rest).head? = some 64) := fun both => absurd both.1 (by decide)
  rw [lexAt, read, tokenLook, length, dropped, if_neg quote]

/-! ### Terms -/

def Bare (term : List UInt8) : Prop := term ≠ [] ∧ ¬ term.any needsQuotes

instance (term : List UInt8) : Decidable (Bare term) := inferInstanceAs (Decidable (_ ∧ _))

def rawText (term : List UInt8) : List UInt8 :=
  if Bare term then (if term.head? = some 64 then [92] else []) ++ term.flatMap fun c => if c = 92 then [92, c] else [c]
  else term.flatMap fun c => if c = 34 ∨ c = 92 then [92, c] else [c]

def termText (term : List UInt8) : List UInt8 := if Bare term then rawText term else 34 :: (rawText term ++ [34])

theorem yazEncodePqfTerm_eq (term : List UInt8) : yazEncodePqfTerm term = termText term ++ [32] := by
  rw [yazEncodePqfTerm, termText, rawText]
  by_cases bare : term ≠ [] ∧ ¬ term.any needsQuotes
  · rw [if_pos bare, if_pos (show Bare term from bare), if_pos (show Bare term from bare)]
  · rw [if_neg bare, if_neg (show ¬ Bare term from bare), if_neg (show ¬ Bare term from bare)]
    simp

theorem escapeString_plain (notBackslash : c ≠ 92) (rest : List UInt8) :
    escapeString (c :: rest) = c :: escapeString rest := by
  cases rest with
  | nil => simp [escapeString]
  | cons => rw [escapeString] <;> simp [notBackslash]

theorem escapeString_escaped (special : c = 34 ∨ c = 64 ∨ c = 92) (rest : List UInt8) :
    escapeString (92 :: c :: rest) = c :: escapeString rest := by
  -- the octal escapes look two characters ahead
  rcases special with rfl | rfl | rfl <;> rcases rest with _ | ⟨a, _ | ⟨b, rest⟩⟩ <;> simp [escapeString]

theorem escapeString_flatMap {special : UInt8 → Prop} [DecidablePred special] (known : ∀ c, special c → c = 34 ∨ c = 64 ∨ c = 92)
    (backslash : special 92) (term : List UInt8) :
    escapeString (term.flatMap fun c => if special c then [92, c] else [c]) = term := by
  induction term with
  | nil => rfl
  | cons c _ ih =>
    rw [flatMap_cons]
    split
    next isSpecial => rw [cons_append, cons_append, nil_append, escapeString_escaped (known c isSpecial), ih]
    next other =>
      rw [cons_append, nil_append, escapeString_plain _, ih]
      rintro rfl
      exact other backslash

theorem escapeString_rawText (term : List UInt8) : escapeString (rawText term) = term := by
  have bare : ∀ c : UInt8, c = 92 → c = 34 ∨ c = 64 ∨ c = 92 := fun c backslash => .inr (.inr backslash)
  unfold rawText
  split
  · split
    next isAt =>
      cases term with
      | nil => simp at isAt
      | cons =>
        simp only [head?_cons, Option.some.injEq] at isAt
        subst isAt
        rw [flatMap_cons, if_neg (by decide), cons_append, nil_append, cons_append, nil_append,
          escapeString_escaped (by simp), escapeString_flatMap bare rfl]
    · rw [nil_append, escapeString_flatMap bare rfl]
  · rw [escapeString_flatMap (by grind) (.inr rfl)]

theorem rawText_eq_self {name : List UInt8} (noEscape : 34 ∉ name ∧ 92 ∉ name) (noAt : Bare name → name.head? ≠ some 64) :
    rawText name = name := by
  have same : ∀ special : UInt8 → Prop, [DecidablePred special] → (∀ c ∈ name, ¬ special c) →
      (name.flatMap fun c => if special c then [92, c] else [c]) = name := by
    intro special _ none
    clear noEscape noAt
    induction name with
    | nil => rfl
    | cons c _ ih =>
      rw [flatMap_cons, if_neg (none c (by simp)), ih fun d inside => none d (by simp [inside])]
      rfl
  unfold rawText
  split
  next bare =>
    rw [if_neg (noAt bare), nil_append]
    apply same
    rintro c inside rfl
    exact noEscape.2 inside
  · apply same
    rintro c inside (rfl | rfl)
    · exact noEscape.1 inside
    · exact noEscape.2 inside

/-- A term with `@` and a digit at its front must not be in quotes. -/
def termReadable (term : List UInt8) : Bool :=
  !term.any needsQuotes || !(term.head? = some 64 && (term.drop 1).head?.any isDigit)

variable {term : List UInt8}

theorem tokenLength_flatMap {sepChar : UInt8} (special : UInt8 → Prop) [DecidablePred special] (notBackslash : sepChar ≠ 92)
    (backslash : special 92) (plain : ∀ c ∈ term, ¬ special c → c ≠ sepChar) (rest : List UInt8) :
    tokenLength sepChar ((term.flatMap fun c => if special c then [92, c] else [c]) ++ rest) =
      (term.flatMap fun c => if special c then [92, c] else [c]).length + tokenLength sepChar rest := by
  induction term with
  | nil => simp
  | cons c _ ih =>
    have later := ih fun d inside => plain d (by simp [inside])
    rw [flatMap_cons, append_assoc, length_append]
    split
    next isSpecial =>
      rw [cons_append, cons_append, nil_append, tokenLength_escaped notBackslash, later]
      simp only [length_cons, length_nil]
      omega
    next other =>
      rw [cons_append, nil_append, tokenLength_plain (plain c (by simp) other) _, later]
      · simp only [length_cons, length_nil]
        omega
      · rintro rfl
        exact other backslash

theorem needsQuotes_of_bare (bare : Bare term) : ∀ c ∈ term, c ≠ 32 ∧ c ≠ 34 ∧ c ≠ 123 := by
  intro c inside
  have plain := bare.2
  simp only [any_eq_true, not_exists, not_and] at plain
  have none := plain c inside
  simp only [needsQuotes, Bool.or_eq_true, decide_eq_true_eq, not_or] at none
  exact ⟨none.1.1.1, none.1.1.2, none.1.2⟩

theorem bare_head (bare : Bare term) :
    ∃ c others, rawText term = c :: others ∧ c ≠ 32 ∧ c ≠ 123 ∧ c ≠ 34 ∧ c ≠ 64 := by
  have plain := needsQuotes_of_bare bare
  cases term with
  | nil => exact absurd rfl bare.1
  | cons c =>
    rw [rawText, if_pos bare]
    by_cases isAt : c = 64
    · rw [if_pos (by simp [isAt])]
      exact ⟨92, _, rfl, by decide, by decide, by decide, by decide⟩
    · have first := plain c (by simp)
      rw [if_neg (by simpa using isAt), nil_append, flatMap_cons]
      split
      · exact ⟨92, _, rfl, by decide, by decide, by decide, by decide⟩
      · exact ⟨c, _, rfl, first.1, first.2.2, first.2.1, isAt⟩

theorem tokenLength_bare (bare : Bare term) (separated : Separated rest) :
    tokenLength 32 (rawText term ++ rest) = (rawText term).length := by
  have plain := needsQuotes_of_bare bare
  have body : ∀ t : List UInt8, (∀ c ∈ t, c ≠ 32) →
      tokenLength 32 ((t.flatMap fun c => if c = 92 then [92, c] else [c]) ++ rest) =
        (t.flatMap fun c => if c = 92 then [92, c] else [c]).length := by
    intro t noSpace
    rw [tokenLength_flatMap (· = 92) (by decide) rfl fun c inside _ => noSpace c inside, tokenLength_separated separated]
    rfl
  rw [rawText, if_pos bare]
  split
  next isAt =>
    cases term with
    | nil => simp at isAt
    | cons c term =>
      simp only [head?_cons, Option.some.injEq] at isAt
      subst isAt
      rw [flatMap_cons, if_neg (by decide)]
      simp only [cons_append, nil_append, length_cons]
      rw [tokenLength_escaped (by decide), body term fun c inside => (plain c (by simp [inside])).1]
  · exact body term fun c inside => (plain c inside).1

theorem quoted_noDigit (quoted : ¬ Bare term) (readable : termReadable term = true) (rest : List UInt8) :
    ¬ ((rawText term ++ 34 :: rest).head? = some 64 ∧ ((rawText term ++ 34 :: rest).drop 1).head?.any isDigit) := by
  rw [rawText, if_neg quoted]
  cases term with
  | nil =>
    rintro ⟨isAt, -⟩
    simp at isAt
  | cons c term =>
    have mustQuote : (c :: term).any needsQuotes = true := by
      by_contra none
      exact quoted ⟨by simp, none⟩
    simp only [termReadable, mustQuote, Bool.not_true, Bool.false_or, Bool.not_eq_true', Bool.and_eq_false_imp,
      decide_eq_true_eq, head?_cons, Option.some.injEq, drop_succ_cons, drop_zero] at readable
    rw [flatMap_cons]
    split
    · rintro ⟨isAt, -⟩
      simp at isAt
    · rintro ⟨isAt, digit⟩
      simp only [cons_append, nil_append, head?_cons, Option.some.injEq] at isAt
      have noDigit := readable isAt
      cases term with
      | nil => simp [isDigit] at digit
      | cons =>
        rw [flatMap_cons] at digit
        split at digit
        · simp [isDigit] at digit
        · simp only [cons_append, nil_append, drop_succ_cons, drop_zero, head?_cons, Option.any_some]
            at digit noDigit
          rw [noDigit] at digit
          simp at digit

theorem tokenLength_quoted (quoted : ¬ Bare term) (rest : List UInt8) :
    tokenLength 34 (rawText term ++ 34 :: rest) = (rawText term).length := by
  rw [rawText, if_neg quoted, tokenLength_flatMap (fun c => c = 34 ∨ c = 92) (by decide) (.inr rfl), tokenLength_sep]
  · rfl
  · rintro c - other rfl
    exact other (.inl rfl)

theorem lexAt_term (li : Parser) (readable : termReadable term = true) (separated : Separated rest) :
    HasRead li (lexAt li (termText term ++ rest)) .text (rest.drop 1) ∧
      (lexAt li (termText term ++ rest)).lexeme = rawText term := by
  by_cases bare : Bare term
  · obtain ⟨c, others, starts, notSpace, notBrace, notQuote, notAt⟩ := bare_head bare
    rw [termText, if_pos bare, lexAt_token li starts notSpace ⟨notBrace, notQuote⟩ (fun isAt => absurd isAt notAt)
      (tokenLength_bare bare separated), if_neg notAt]
    exact ⟨⟨rfl, fun _ => rfl, rfl, rfl⟩, take_left⟩
  · rw [termText, if_neg bare, cons_append, append_assoc, cons_append, nil_append,
      lexAt_quoted li rest (quoted_noDigit bare readable rest) (tokenLength_quoted bare rest)]
    exact ⟨⟨rfl, fun other => lexAt_separated other separated, rfl, rfl⟩, take_left⟩

/-! ### Keywords and attributes -/

theorem separated_space (rest : List UInt8) : Separated (32 :: rest) := .inr rfl

theorem lexAt_keyword (li : Parser) (c : UInt8) (name rest : List UInt8) {look : Look} (noDigit : isDigit c = false)
    (plain : ∀ d ∈ c :: name, d ≠ 32 ∧ d ≠ 92)
    (known : keyword { yazPqfCreate with lexBuf := 64 :: c :: name ++ 32 :: rest, lexLen := name.length + 2 } = look) :
    HasRead li (lexAt li (64 :: c :: name ++ 32 :: rest)) look rest := by
  have length : tokenLength 32 (64 :: c :: name ++ 32 :: rest) = (64 :: c :: name).length := by
    apply tokenLength_word _ (separated_space rest)
    intro d inside
    rcases mem_cons.mp inside with rfl | later
    · decide
    · exact plain d later
  rw [lexAt_token li rfl (by decide) (by decide) (fun _ => by simpa using noDigit) length, if_pos rfl]
  exact ⟨known, fun _ => rfl, rfl, rfl⟩

theorem noDigit_separated (separated : Separated rest) : NoDigit rest := by
  intro c first
  rcases separated with rfl | blank
  · simp at first
  · rw [blank, Option.mem_some_iff] at first
    rw [← first]
    decide

theorem splitEquals_append {before : List UInt8} (bare : 61 ∉ before) (value : List UInt8) :
    splitEquals (before ++ 61 :: value) = some (before.length, value) := by
  have inside : ∀ c ∈ before, decide (c ≠ 61) = true := fun c member => decide_eq_true fun is => bare (is ▸ member)
  rw [splitEquals, if_pos (by simp), takeWhile_append_of_pos inside, dropWhile_append_of_pos inside,
    takeWhile_cons_of_neg (by decide), dropWhile_cons_of_neg (by decide), append_nil]
  rfl

theorem intText_digits {n : Int} (positive : 0 ≤ n) : (∀ c ∈ intText n, isDigit c = true) ∧ intText n ≠ [] := by
  rw [intText, if_neg (by omega)]
  exact ⟨decimal_digits _, decimal_ne_nil _⟩

theorem digit_plain (digit : isDigit c = true) : c ≠ 32 ∧ c ≠ 92 ∧ c ≠ 61 ∧ c ≠ 123 ∧ c ≠ 34 ∧ c ≠ 64 := by
  refine ⟨?_, ?_, ?_, ?_, ?_, ?_⟩ <;>
  · rintro rfl
    exact absurd digit (by decide)

section
variable {Oid : Type} (attset : List UInt8 → Option Oid)

def numericAttr (type value : Int64) : Attr Oid := { type := type, value := value, text := none, set := none }

theorem parseAttr_numeric {li : Parser} {type value : Int64} {attrs : List (Attr Oid)}
    (typePositive : 0 ≤ type.toInt) (valuePositive : 0 ≤ value.toInt) (noSet : attrs.getLast?.bind (·.set) = none)
    (separated : Separated rest) (buf : li.lexBuf = intText type.toInt ++ 61 :: (intText value.toInt ++ rest))
    (len : li.lexLen = (intText type.toInt ++ 61 :: intText value.toInt).length) :
    pQueryParseAttr attset li attrs = (some (numericAttr type value), li) := by
  obtain ⟨typeDigits, typeSome⟩ := intText_digits typePositive
  obtain ⟨valueDigits, -⟩ := intText_digits valuePositive
  have bare : 61 ∉ intText type.toInt := fun inside => (digit_plain (typeDigits 61 inside)).2.2.1 rfl
  have split : splitEquals li.lexBuf = some ((intText type.toInt).length, intText value.toInt ++ rest) := by
    rw [buf, splitEquals_append bare]
  have stops : NoDigit (61 :: (intText value.toInt ++ rest)) := by
    intro c first
    simp only [head?_cons, Option.mem_def, Option.some.injEq] at first
    rw [← first]
    decide
  have typeRead : odrAtoi li.lexBuf = type := by rw [buf, odrAtoi_intText typePositive stops]
  have valueRead : odrAtoi (intText value.toInt ++ rest) = value := odrAtoi_intText valuePositive (noDigit_separated separated)
  have starts : li.lexBuf.head?.any isDigit = true := by
    rw [buf]
    cases digits : intText type.toInt with
    | nil => exact absurd digits typeSome
    | cons c => simpa using typeDigits c (by simp [digits])
  have inside : (intText value.toInt ++ rest).take (li.lexLen - ((intText type.toInt).length + 1)) = intText value.toInt := by
    rw [len, length_append, length_cons, show (intText type.toInt).length + ((intText value.toInt).length + 1) -
      ((intText type.toInt).length + 1) = (intText value.toInt).length by omega, take_left]
  have within : ¬ (intText type.toInt).length > li.lexLen := by
    rw [len, length_append]
    omega
  rw [pQueryParseAttr, split]
  dsimp only
  rw [if_neg within, parseTypeValue, if_neg (by simp [starts])]
  rw [inside, if_pos (by simpa using valueDigits), typeRead, valueRead, noSet]
  rfl

/-- `@attr` and what follows it. -/
def attrText (type value : Int64) : List UInt8 := ascii "@attr " ++ (intText type.toInt ++ 61 :: intText value.toInt) ++ [32]

theorem rpnAttr_numeric (li : Parser) {type value : Int64} {attrs : List (Attr Oid)} (rest : List UInt8)
    (typePositive : 0 ≤ type.toInt) (valuePositive : 0 ≤ value.toInt) (noSet : attrs.getLast?.bind (·.set) = none)
    (few : attrs.length < maxAttr) :
    (lexAt li (attrText type value ++ rest)).queryLook = .attr ∧ ∃ next, Kept li next ∧
      rpnAttr attset (lexAt li (attrText type value ++ rest)) attrs =
        (some (attrs ++ [numericAttr type value]), lexAt next rest) := by
  obtain ⟨typeDigits, typeSome⟩ := intText_digits typePositive
  obtain ⟨valueDigits, -⟩ := intText_digits valuePositive
  have shape : attrText type value ++ rest =
      64 :: 97 :: [116, 116, 114] ++ 32 :: (intText type.toInt ++ 61 :: intText value.toInt ++ 32 :: rest) := by
    simp [attrText, ascii]
  have opened := lexAt_keyword li 97 [116, 116, 114] (intText type.toInt ++ 61 :: intText value.toInt ++ 32 :: rest)
    (by decide) (by decide) (show keyword _ = .attr from rfl)
  rw [← shape] at opened
  have plain : ∀ d ∈ intText type.toInt ++ 61 :: intText value.toInt, d ≠ 32 ∧ d ≠ 92 := by
    intro d inside
    rcases mem_append.mp inside with front | back
    · exact ⟨(digit_plain (typeDigits d front)).1, (digit_plain (typeDigits d front)).2.1⟩
    · rcases mem_cons.mp back with rfl | later
      · decide
      · exact ⟨(digit_plain (valueDigits d later)).1, (digit_plain (valueDigits d later)).2.1⟩
  obtain ⟨c, others, starts, digit⟩ : ∃ c others, intText type.toInt ++ 61 :: intText value.toInt = c :: others ∧
      isDigit c = true := by
    cases word : intText type.toInt with
    | nil => exact absurd word typeSome
    | cons c => exact ⟨c, _, rfl, typeDigits c (by simp [word])⟩
  have first := digit_plain digit
  obtain ⟨word, buf, len⟩ := lexAt_word (lexAt li (attrText type value ++ rest)) starts plain
    ⟨first.2.2.2.1, first.2.2.2.2.1, first.2.2.2.2.2⟩ (separated_space rest)
  refine ⟨opened.look, _, opened.kept.trans word.kept, ?_⟩
  rw [rpnAttr, opened.lex]
  rw [if_neg (by rw [word.look]; simp), if_neg (by omega), parseAttr_numeric attset typePositive valuePositive noSet
    (separated_space rest) (by rw [buf]; simp) len]
  dsimp only
  rw [word.lex]
  rfl

theorem rpnStructure_attributes {attributes : List (Int64 × Int64)} (rest : List UInt8) (rounds : Nat)
    (positive : ∀ a ∈ attributes, 0 ≤ a.1.toInt ∧ 0 ≤ a.2.toInt) (li : Parser) (attrs : List (Attr Oid))
    (noSet : ∀ attr ∈ attrs, attr.set = none) (few : attrs.length + attributes.length ≤ maxAttr) :
    ∃ next, Kept li next ∧
      rpnStructure attset (rounds + attributes.length) (lexAt li (attributes.flatMap (fun a => attrText a.1 a.2) ++ rest)) attrs =
        rpnStructure attset rounds (lexAt next rest) (attrs ++ attributes.map fun a => numericAttr a.1 a.2) := by
  induction attributes generalizing li attrs with
  | nil => exact ⟨li, ⟨rfl, rfl⟩, by simp⟩
  | cons a attributes ih =>
    have lastSet : attrs.getLast?.bind (·.set) = none := by
      cases last : attrs.getLast? with
      | none => rfl
      | some attr => exact noSet attr (mem_of_getLast? last)
    simp only [length_cons] at few
    obtain ⟨typePositive, valuePositive⟩ := positive a (by simp)
    obtain ⟨look, next, kept, read⟩ := rpnAttr_numeric attset li
      (attributes.flatMap (fun a => attrText a.1 a.2) ++ rest) typePositive valuePositive lastSet (by omega)
    have setless : ∀ attr ∈ attrs ++ [numericAttr a.1 a.2], attr.set = none := by
      intro attr inside
      rcases mem_append.mp inside with before | new
      · exact noSet attr before
      · rw [mem_singleton.mp new]
        rfl
    obtain ⟨last, kept', later⟩ := ih (fun b inside => positive b (by simp [inside])) next (attrs ++ [numericAttr a.1 a.2]) setless
      (by simp only [length_append, length_singleton]; omega)
    refine ⟨last, kept.trans kept', ?_⟩
    rw [flatMap_cons, append_assoc, length_cons, ← Nat.add_assoc, rpnStructure_attr attset look read, later]
    simp

theorem lastOfType_distinct {attrs : List (Attr Oid)} {seen : List Int64} (distinct : (attrs.map (·.type)).Nodup)
    (unseen : ∀ attr ∈ attrs, attr.type ∉ seen) : lastOfType attrs seen = attrs.map Attr.element := by
  induction attrs generalizing seen with
  | nil => rfl
  | cons attr _ ih =>
    rw [map_cons, nodup_cons] at distinct
    rw [lastOfType, if_neg (unseen attr (by simp)), map_cons, ih distinct.2]
    intro other inside
    rw [mem_cons, not_or]
    constructor
    · intro same
      exact distinct.1 (mem_map.mpr ⟨other, inside, same⟩)
    · exact unseen other (by simp [inside])

theorem getAttributeList_numeric {attributes : List (Int64 × Int64)} (distinct : (attributes.map (·.1)).Nodup) :
    getAttributeList (attributes.map fun a => (numericAttr a.1 a.2 : Attr Oid)) =
      (attributes.map fun a => (⟨none, a.1, .numeric a.2⟩ : AttributeElement Oid)).reverse := by
  rw [getAttributeList, ← map_reverse, lastOfType_distinct]
  · rw [map_map, map_reverse]
    rfl
  · rw [map_map, map_reverse]
    exact nodup_reverse.mpr distinct
  · simp

theorem rpnStructure_typed (li : Parser) (termType : TermType) (c : UInt8) (others rest : List UInt8) (attrs : List (Attr Oid))
    (rounds : Nat) (plain : ∀ d ∈ c :: others, d ≠ 32 ∧ d ≠ 92) (first : c ≠ 123 ∧ c ≠ 34 ∧ c ≠ 64)
    (known : ∀ next : Parser, next.lexBuf = c :: others ++ 32 :: rest → next.lexLen = (c :: others).length →
      next.queryLook ≠ .ends → rpnTermType next = lex { next with termType := termType }) :
    ∃ next, next.termType = termType ∧ next.error = li.error ∧
      rpnStructure attset (rounds + 1) (lexAt li (ascii "@term " ++ (c :: others ++ 32 :: rest))) attrs =
        rpnStructure attset rounds (lexAt next rest) attrs := by
  have opened := lexAt_keyword li 116 [101, 114, 109] (c :: others ++ 32 :: rest) (by decide) (by decide)
    (show keyword _ = .termType from rfl)
  obtain ⟨word, buf, len⟩ := lexAt_word (lexAt li (ascii "@term " ++ (c :: others ++ 32 :: rest))) rfl plain first
    (separated_space rest)
  have look := opened.look
  have shape : ascii "@term " ++ (c :: others ++ 32 :: rest) = 64 :: 116 :: [101, 114, 109] ++ 32 :: (c :: others ++ 32 :: rest) := rfl
  rw [← shape] at opened look
  have step := opened.lex
  have kept := opened.kept.trans word.kept
  generalize lexAt (lexAt li (ascii "@term " ++ (c :: others ++ 32 :: rest))) (c :: others ++ 32 :: rest) = second
    at word buf len step kept
  refine ⟨{ second with termType := termType }, rfl, kept.2, ?_⟩
  rw [rpnStructure_termType attset look, step, known second buf len (by rw [word.look]; simp), lex_eq_lexAt]
  rw [word.ptr]
  rfl

theorem rpnStructure_text (li : Parser) (attrs : List (Attr Oid)) (rounds : Nat)
    (readable : termReadable term = true) (separated : Separated rest) :
    ∃ next, Kept li next ∧
      rpnStructure attset (rounds + 1) (lexAt li (termText term ++ rest)) attrs =
        (some (.apt ⟨some (getAttributeList attrs), zTermCreate li.termType term⟩), lexAt next (rest.drop 1)) := by
  obtain ⟨read, lexeme⟩ := lexAt_term li readable separated
  refine ⟨_, read.kept, ?_⟩
  rw [rpnStructure_simple attset (.inl read.look), rpnSimple, read.look]
  rw [rpnTermAttributes, lexeme, escapeString_rawText, read.kept.1, read.lex]

theorem rpnStructure_set (li : Parser) {name : List UInt8} (attrs : List (Attr Oid)) (rounds : Nat)
    (readable : termReadable name = true) (separated : Separated rest) :
    ∃ next, Kept li next ∧
      rpnStructure attset (rounds + 1) (lexAt li (ascii "@set " ++ (termText name ++ rest))) attrs =
        (some (.resultSet (rawText name)), lexAt next (rest.drop 1)) := by
  have opened := lexAt_keyword li 115 [101, 116] (termText name ++ rest) (by decide) (by decide) (show keyword _ = .set from rfl)
  have shape : ascii "@set " ++ (termText name ++ rest) = 64 :: 115 :: [101, 116] ++ 32 :: (termText name ++ rest) := rfl
  rw [← shape] at opened
  obtain ⟨read, lexeme⟩ := lexAt_term (lexAt li (ascii "@set " ++ (termText name ++ rest))) readable separated
  refine ⟨_, opened.kept.trans read.kept, ?_⟩
  rw [rpnStructure_simple attset (.inr opened.look), rpnSimple, opened.look]
  rw [opened.lex, if_neg (by rw [read.look]; simp), lexeme, read.lex]

end

def unsigned (n : Int64) : Bool := 0 ≤ n.toInt

def Proximity.readable (prox : Proximity) : Bool :=
  (prox.exclusion = none || prox.exclusion = some 0 || prox.exclusion = some 1) && (prox.ordered = 0 || prox.ordered = 1) &&
    unsigned prox.distance && unsigned prox.relationType && unsigned prox.unit

def Operator.readable : Operator → Bool
  | .prox proximity => proximity.readable
  | _ => true

section
variable {li next : Parser} {look : Look} {rest : List UInt8}

theorem HasRead.word {others : List UInt8} (read : HasRead li next look (c :: others ++ 32 :: rest))
    (plain : ∀ d ∈ c :: others, d ≠ 32 ∧ d ≠ 92) (first : c ≠ 123 ∧ c ≠ 34 ∧ c ≠ 64) :
    HasRead next (Pqf.lex next) .text rest ∧ (Pqf.lex next).lexBuf = c :: others ++ 32 :: rest := by
  obtain ⟨word, buf, -⟩ := lexAt_word next rfl plain first (separated_space rest)
  rw [read.lex]
  exact ⟨word, buf⟩

theorem proxInteger_read {n : Int64} (read : HasRead li next look (intText n.toInt ++ 32 :: rest)) (positive : unsigned n = true) :
    ∃ last, HasRead next last .text rest ∧ proxInteger next = (some n, last) := by
  have notNegative : 0 ≤ n.toInt := by simpa [unsigned] using positive
  obtain ⟨digits, notEmpty⟩ := intText_digits notNegative
  have number := odrAtoi_intText notNegative (noDigit_separated (separated_space rest))
  cases text : intText n.toInt with
  | nil => exact absurd text notEmpty
  | cons c =>
    rw [text] at read digits number
    have digit := digits c (by simp)
    have plain := digit_plain digit
    obtain ⟨word, buf⟩ := read.word (fun d inside => ⟨(digit_plain (digits d inside)).1, (digit_plain (digits d inside)).2.1⟩)
      ⟨plain.2.2.2.1, plain.2.2.2.2.1, plain.2.2.2.2.2⟩
    refine ⟨Pqf.lex next, word, ?_⟩
    rw [proxInteger]
    rw [if_neg (by rw [word.look]; simp), buf, if_pos (by simpa using digit), number]

theorem HasRead.letter (read : HasRead li next look ([c] ++ 32 :: rest)) (plain : c ≠ 32 ∧ c ≠ 92)
    (first : c ≠ 123 ∧ c ≠ 34 ∧ c ≠ 64) :
    HasRead next (Pqf.lex next) .text rest ∧ (Pqf.lex next).lexBuf.head? = some c := by
  obtain ⟨word, buf⟩ := read.word (fun d inside => by rw [mem_singleton.mp inside]; exact plain) first
  exact ⟨word, by rw [buf]; rfl⟩

theorem proxExclusion_read {exclusion : Option Int32} (read : HasRead li next look (exclusionText exclusion ++ 32 :: rest))
    (known : exclusion = none ∨ exclusion = some 0 ∨ exclusion = some 1) :
    ∃ last, HasRead next last .text rest ∧ proxExclusion next = (some exclusion, last) := by
  refine ⟨Pqf.lex next, ?_⟩
  rcases known with rfl | rfl | rfl
  · obtain ⟨word, head⟩ := read.letter (c := 110) (by decide) (by decide)
    exact ⟨word, by simp [proxExclusion, word.look, head]⟩
  · obtain ⟨word, head⟩ := read.letter (c := 48) (by decide) (by decide)
    exact ⟨word, by simp [proxExclusion, word.look, head]⟩
  · obtain ⟨word, head⟩ := read.letter (c := 49) (by decide) (by decide)
    exact ⟨word, by simp [proxExclusion, word.look, head]⟩

theorem proxOrdered_read {ordered : Int32} (read : HasRead li next look (intText ordered.toInt ++ 32 :: rest))
    (known : ordered = 0 ∨ ordered = 1) : ∃ last, HasRead next last .text rest ∧ proxOrdered next = (some ordered, last) := by
  refine ⟨Pqf.lex next, ?_⟩
  rcases known with rfl | rfl
  · have text : intText (0 : Int32).toInt = [48] := by decide +kernel
    rw [text] at read
    obtain ⟨word, head⟩ := read.letter (by decide) (by decide)
    exact ⟨word, by simp [proxOrdered, word.look, head]⟩
  · have text : intText (1 : Int32).toInt = [49] := by decide +kernel
    rw [text] at read
    obtain ⟨word, head⟩ := read.letter (by decide) (by decide)
    exact ⟨word, by simp [proxOrdered, word.look, head]⟩

theorem proxWhich_read {which : ProximityUnit} (read : HasRead li next look (which.text ++ 32 :: rest)) :
    ∃ last, HasRead next last .text rest ∧ proxWhich next = (some which, last) := by
  refine ⟨Pqf.lex next, ?_⟩
  cases which with
  | known =>
    obtain ⟨word, head⟩ := read.letter (c := 107) (by decide) (by decide)
    exact ⟨word, by simp [proxWhich, word.look, head]⟩
  | zprivate =>
    obtain ⟨word, head⟩ := read.letter (c := 112) (by decide) (by decide)
    exact ⟨word, by simp [proxWhich, word.look, head]⟩

theorem rpnProximity_read {prox : Proximity} (read : HasRead li next look (prox.text ++ rest)) (readable : prox.readable = true) :
    ∃ last, HasRead next last .text rest ∧ rpnProximity next = (some prox, last) := by
  simp only [Proximity.readable, Bool.and_eq_true, Bool.or_eq_true, decide_eq_true_eq] at readable
  obtain ⟨⟨⟨⟨exclusionKnown, orderedKnown⟩, distancePositive⟩, relationPositive⟩, unitPositive⟩ := readable
  simp only [Proximity.text, append_assoc, cons_append, nil_append] at read
  obtain ⟨li₁, one, exclusion⟩ := proxExclusion_read read (by simpa [or_assoc] using exclusionKnown)
  obtain ⟨li₂, two, distance⟩ := proxInteger_read one distancePositive
  obtain ⟨li₃, three, ordered⟩ := proxOrdered_read two orderedKnown
  obtain ⟨li₄, four, relation⟩ := proxInteger_read three relationPositive
  obtain ⟨li₅, five, which⟩ := proxWhich_read four
  obtain ⟨li₆, six, unit⟩ := proxInteger_read five unitPositive
  have kept := ((((one.kept.trans two.kept).trans three.kept).trans four.kept).trans five.kept).trans six.kept
  refine ⟨li₆, ⟨six.look, six.ptr, kept⟩, ?_⟩
  simp only [rpnProximity, exclusion, distance, ordered, relation, which, unit]

end

theorem rpnOperator_read (li : Parser) {op : Operator} (rest : List UInt8) (readable : op.readable = true) :
    ((lexAt li (op.text ++ rest)).queryLook = .and ∨ (lexAt li (op.text ++ rest)).queryLook = .or ∨
      (lexAt li (op.text ++ rest)).queryLook = .not ∨ (lexAt li (op.text ++ rest)).queryLook = .prox) ∧
    ∃ next, Kept li next ∧ lex next = lexAt next rest ∧ rpnOperator (lexAt li (op.text ++ rest)) = (some op, next) := by
  cases op with
  | and =>
    have read : HasRead li (lexAt li (Operator.and.text ++ rest)) .and rest :=
      lexAt_keyword li 97 [110, 100] rest (by decide) (by decide) rfl
    exact ⟨.inl read.look, _, read.kept, read.lex, by simp only [rpnOperator, read.look]⟩
  | or =>
    have read : HasRead li (lexAt li (Operator.or.text ++ rest)) .or rest :=
      lexAt_keyword li 111 [114] rest (by decide) (by decide) rfl
    exact ⟨.inr (.inl read.look), _, read.kept, read.lex, by simp only [rpnOperator, read.look]⟩
  | andNot =>
    have read : HasRead li (lexAt li (Operator.andNot.text ++ rest)) .not rest :=
      lexAt_keyword li 110 [111, 116] rest (by decide) (by decide) rfl
    exact ⟨.inr (.inr (.inl read.look)), _, read.kept, read.lex, by simp only [rpnOperator, read.look]⟩
  | prox proximity =>
    have shape : (Operator.prox proximity).text ++ rest = 64 :: 112 :: [114, 111, 120] ++ 32 :: (proximity.text ++ rest) := by
      simp [Operator.text, complexOpName, ascii]
    have read : HasRead li (lexAt li ((Operator.prox proximity).text ++ rest)) .prox (proximity.text ++ rest) := by
      rw [shape]
      exact lexAt_keyword li 112 [114, 111, 120] (proximity.text ++ rest) (by decide) (by decide) rfl
    obtain ⟨last, later, parsed⟩ := rpnProximity_read read readable
    exact ⟨.inr (.inr (.inr read.look)), last, read.kept.trans later.kept, later.lex, by simp only [rpnOperator, read.look, parsed]⟩

end Yaz.Pqf
