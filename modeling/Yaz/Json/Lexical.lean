import Yaz.Json.Grammar

/-! Strings and numbers, as the grammar and the parser see them. -/

set_option autoImplicit false

namespace Yaz.Json
open List Yaz.Comstack
attribute [local simp] hexDigits jsonOneChar

def beforeQuote (mem : List UInt8) : List UInt8 := mem.takeWhile (· ≠ 34)

theorem beforeQuote_append (front rest rest' : List UInt8) :
    beforeQuote (front ++ 34 :: rest) = beforeQuote (front ++ 34 :: rest') := by
  unfold beforeQuote
  induction front with
  | nil => rfl
  | cons _ _ ih =>
    rw [cons_append, cons_append, takeWhile_cons, takeWhile_cons, ih]

variable {c : UInt8}

theorem head?_beforeQuote (other : c ≠ 34) (mem : List UInt8) :
    (beforeQuote mem).head? = some c ↔ mem.head? = some c := by
  cases mem with
  | nil => rfl
  | cons d =>
    unfold beforeQuote
    rw [takeWhile_cons]
    split
    · rfl
    next quote =>
      have same : d = 34 := by simpa using quote
      subst same
      simp only [head?_nil, head?_cons, Option.some.injEq]
      constructor
      · intro impossible
        simp at impossible
      · intro same
        exact absurd same.symm other

theorem drop_beforeQuote {mem : List UInt8} {n : Nat} (plain : ∀ c ∈ mem.take n, c ≠ 34) :
    (beforeQuote mem).drop n = beforeQuote (mem.drop n) := by
  unfold beforeQuote
  induction n generalizing mem with
  | zero => rfl
  | succ _ ih =>
    cases mem with
    | nil => rfl
    | cons c =>
      have first := plain c (by simp)
      rw [takeWhile_cons, if_pos (by simpa using first), drop_succ_cons, drop_succ_cons]
      exact ih fun d inside => plain d (by simp [inside])

theorem drop_one_beforeQuote {mem : List UInt8} (first : mem.head? = some c) (other : c ≠ 34) :
    (beforeQuote mem).drop 1 = beforeQuote (mem.drop 1) := by
  apply drop_beforeQuote
  intro d inside
  cases mem with
  | nil => simp at first
  | cons =>
    simp only [head?_cons, Option.some.injEq] at first
    simp only [take_succ_cons, take_zero, mem_singleton] at inside
    rw [inside, first]
    exact other

theorem hexDigits_beforeQuote (width : Nat) (mem : List UInt8) (value : Nat) :
    hexDigits width (beforeQuote mem) value = hexDigits width mem value := by
  unfold beforeQuote
  induction width generalizing mem value with
  | zero => simp [hexDigits]
  | succ _ ih =>
    cases mem with
    | nil => rfl
    | cons c =>
      by_cases quote : c = 34
      · subst quote
        rfl
      · rw [takeWhile_cons, if_pos (by simpa using quote), hexDigits, hexDigits]
        cases hexValue c with
        | none => rfl
        | some =>
          dsimp only
          rw [ih]

theorem scanMagnitude_beforeQuote (width : Nat) (mem : List UInt8) :
    scanMagnitude width (beforeQuote mem) = scanMagnitude width mem := by
  unfold scanMagnitude scanDigits
  rw [hexDigits_beforeQuote]
  by_cases zero : mem.head? = some 48
  · have behind := drop_one_beforeQuote zero (by decide)
    have quote : (48 : UInt8) ≠ 34 ∧ (120 : UInt8) ≠ 34 ∧ (88 : UInt8) ≠ 34 := by decide
    simp only [behind, head?_beforeQuote quote.1, head?_beforeQuote quote.2.1, head?_beforeQuote quote.2.2]
    split
    next marked =>
      have further : (beforeQuote mem).drop 2 = beforeQuote (mem.drop 2) := by
        rw [show 2 = 1 + 1 from rfl, ← drop_drop, ← drop_drop, behind]
        rcases marked.2 with lower | upper
        · exact drop_one_beforeQuote lower (by decide)
        · exact drop_one_beforeQuote upper (by decide)
      rw [further, hexDigits_beforeQuote]
    · rfl
  · have zero' : (beforeQuote mem).head? ≠ some 48 := fun same => zero ((head?_beforeQuote (by decide) mem).mp same)
    simp only [zero, zero', false_and, if_false]

theorem scanUnsigned_beforeQuote (mem : List UInt8) : scanUnsigned (beforeQuote mem) = scanUnsigned mem := by
  unfold scanUnsigned
  have quote : (43 : UInt8) ≠ 34 ∧ (45 : UInt8) ≠ 34 := by decide
  simp only [head?_beforeQuote quote.1, head?_beforeQuote quote.2, scanMagnitude_beforeQuote]
  split
  next plus => rw [drop_one_beforeQuote plus (by decide), scanMagnitude_beforeQuote]
  next =>
    split
    next minus => rw [drop_one_beforeQuote minus (by decide), scanMagnitude_beforeQuote]
    · rfl

theorem scanHex4_beforeQuote (mem : List UInt8) : scanHex4 (beforeQuote mem) = scanHex4 mem := by
  have spaces : (beforeQuote mem).takeWhile isSpace = mem.takeWhile isSpace ∧
      (beforeQuote mem).dropWhile isSpace = beforeQuote (mem.dropWhile isSpace) := by
    unfold beforeQuote
    induction mem with
    | nil => exact ⟨rfl, rfl⟩
    | cons c _ ih =>
      by_cases quote : c = 34
      · subst quote
        exact ⟨rfl, rfl⟩
      · rw [takeWhile_cons, if_pos (by simpa using quote), takeWhile_cons, takeWhile_cons,
          dropWhile_cons, dropWhile_cons]
        by_cases space : isSpace c = true
        · rw [if_pos space, if_pos space, if_pos space, if_pos space, ih.1]
          exact ⟨rfl, ih.2⟩
        · rw [if_neg space, if_neg space, if_neg space, if_neg space, takeWhile_cons, if_pos (by simpa using quote)]
          exact ⟨rfl, rfl⟩
  rw [scanHex4, scanHex4, spaces.1, spaces.2, scanUnsigned_beforeQuote]

theorem unicodeEscape_quote {four : List UInt8} (length : four.length = 4) (body rest : List UInt8) :
    unicodeEscape (four ++ (body ++ 34 :: rest)) = unicodeEscape (four ++ (body ++ [34])) := by
  unfold unicodeEscape
  rw [← scanHex4_beforeQuote, ← scanHex4_beforeQuote (four ++ (body ++ [34])), ← append_assoc, ← append_assoc,
    beforeQuote_append (four ++ body) rest [], append_assoc, append_assoc,
    take_append_of_le_length (by omega), take_append_of_le_length (by omega)]
  have long : 4 ≤ (four ++ (body ++ 34 :: rest)).length ∧ 4 ≤ (four ++ (body ++ [34])).length := by
    simp only [length_append]
    omega
  simp only [long.1, long.2, true_and]

theorem stringChars_quote (rest : List UInt8) : stringChars (34 :: rest) = .ok ([], rest) := by
  rw [stringChars, if_pos rfl]

variable {mem out rest : List UInt8}

theorem stringChars_step (notQuote : c ≠ 34)
    (read : jsonOneChar (c :: mem) = some (out, rest)) :
    stringChars (c :: mem) =
      match stringChars rest with
      | .error message => .error message
      | .ok (octets, rest) => .ok (out ++ octets, rest) := by
  rw [stringChars, if_neg notQuote]
  split
  next none =>
    rw [read] at none
    simp at none
  next out' rest' same =>
    rw [read] at same
    obtain ⟨rfl, rfl⟩ := same
    rfl

theorem jsonOneChar_plain (rest : List UInt8) (visible : 32 ≤ c.toNat) (notBackslash : c ≠ 92) :
    jsonOneChar (c :: rest) = some ([c], rest) := by
  unfold jsonOneChar
  split
  · simp at *
  next same => exact absurd (List.cons.inj same).1 notBackslash
  next c' rest' _ same =>
    obtain ⟨rfl, rfl⟩ := List.cons.inj same
    rw [if_neg (by omega)]

theorem jsonOneChar_escape {d : UInt8} (rest : List UInt8) (escaped : simpleEscape c = some d) :
    jsonOneChar (92 :: c :: rest) = some ([d], rest) := by
  rw [jsonOneChar, escaped]

theorem jsonOneChar_unicode {character : List UInt8} (escaped : unicodeEscape mem = some character) :
    jsonOneChar (92 :: 117 :: mem) = some (character, mem.drop 4) := by
  rw [jsonOneChar, show simpleEscape 117 = none by decide]
  rw [if_pos rfl, escaped]
  rfl

theorem Chars.read {body : List UInt8} (chars : Chars unicodeEscape body out) (rest : List UInt8) :
    stringChars (body ++ 34 :: rest) = .ok (out, rest) := by
  induction chars with
  | nil => exact stringChars_quote rest
  | plain visible notQuote notBackslash _ ih =>
    rw [cons_append, stringChars_step notQuote (jsonOneChar_plain _ visible notBackslash), ih]
    rfl
  | escape escaped _ ih =>
    rw [cons_append, cons_append, stringChars_step (by decide) (jsonOneChar_escape _ escaped), ih]
    rfl
  | @unicode four character body out length escaped _ ih =>
    rw [← unicodeEscape_quote length body rest] at escaped
    rw [cons_append, cons_append, append_assoc, stringChars_step (by decide) (jsonOneChar_unicode escaped),
      drop_left' length, ih]

theorem jsonOneChar_cases (read : jsonOneChar (c :: mem) = some (out, rest)) :
    (c ≠ 92 ∧ ¬ (0 < c.toNat ∧ c.toNat ≤ 31) ∧ out = [c] ∧ rest = mem) ∨ (c = 92 ∧ mem = [] ∧ rest = []) ∨
      (∃ d e, c = 92 ∧ mem = d :: rest ∧ simpleEscape d = some e ∧ out = [e]) ∨
      ∃ behind, c = 92 ∧ mem = 117 :: behind ∧ unicodeEscape behind = some out ∧ rest = behind.drop 4 := by
  by_cases backslash : c = 92
  · subst backslash
    cases mem with
    | nil =>
      rw [jsonOneChar, if_neg (by decide)] at read
      · simp only [Option.some.injEq, Prod.mk.injEq] at read
        exact .inr (.inl ⟨rfl, rfl, read.2.symm⟩)
      · intro d others _ same
        simp at same
    | cons d mem =>
      rw [jsonOneChar] at read
      split at read
      next e escaped =>
        simp only [Option.some.injEq, Prod.mk.injEq] at read
        exact .inr (.inr (.inl ⟨d, e, rfl, by rw [read.2], escaped, read.1.symm⟩))
      next =>
        split at read
        next isU =>
          rw [Option.map_eq_some_iff] at read
          obtain ⟨character, escaped, same⟩ := read
          simp only [Prod.mk.injEq] at same
          exact .inr (.inr (.inr ⟨mem, rfl, by rw [isU], by rw [escaped, same.1], same.2.symm⟩))
        · simp at read
  · left
    unfold jsonOneChar at read
    split at read
    · simp at *
    next same => exact absurd (List.cons.inj same).1 backslash
    next c' rest' _ same =>
      obtain ⟨rfl, rfl⟩ := List.cons.inj same
      split at read
      · simp at read
      next visible =>
        simp only [Option.some.injEq, Prod.mk.injEq] at read
        exact ⟨backslash, visible, read.1.symm, read.2.symm⟩

theorem unicodeEscape_long {character : List UInt8} (escaped : unicodeEscape mem = some character) : 4 ≤ mem.length := by
  unfold unicodeEscape at escaped
  split at escaped
  next long => exact long.1
  · simp at escaped

theorem chars_of_stringChars (read : stringChars mem = .ok (out, rest)) (plain : 0 ∉ mem) :
    ∃ body, mem = body ++ 34 :: rest ∧ Chars unicodeEscape body out := by
  fun_induction stringChars mem generalizing out with
  | case1 => simp at read
  | case2 rest' =>
    obtain ⟨rfl, rfl⟩ := read
    exact ⟨[], rfl, .nil⟩
  | case3 => simp at read
  | case4 => simp at read
  | case5 c mem notQuote out' rest' one octets rest'' later ih =>
    simp only [Except.ok.injEq, Prod.mk.injEq] at read
    obtain ⟨rfl, rfl⟩ := read
    rcases jsonOneChar_cases one with ⟨notBackslash, visible, rfl, rfl⟩ | ⟨rfl, rfl, rfl⟩ |
      ⟨d, e, rfl, rfl, escaped, rfl⟩ | ⟨behind, rfl, rfl, escaped, rfl⟩
    · obtain ⟨body, rfl, chars⟩ := ih later fun inside => plain (mem_cons_of_mem _ inside)
      have notNul : c.toNat ≠ 0 := by
        intro zero
        apply plain
        rw [show c = 0 from UInt8.toNat_inj.mp (by simpa using zero)]
        simp
      exact ⟨c :: body, rfl, .plain (by omega) notQuote notBackslash chars⟩
    · simp [stringChars] at later
    · obtain ⟨body, rfl, chars⟩ := ih later fun inside => plain (by simp [inside])
      exact ⟨92 :: d :: body, rfl, .escape escaped chars⟩
    · have long := unicodeEscape_long escaped
      obtain ⟨body, same, chars⟩ := ih later fun inside => plain (by simp [mem_of_mem_drop inside])
      have length : (behind.take 4).length = 4 := by
        rw [List.length_take]
        omega
      have whole : behind = behind.take 4 ++ (body ++ 34 :: rest'') := by rw [← same, take_append_drop]
      refine ⟨92 :: 117 :: (behind.take 4 ++ body), ?_, .unicode length ?_ chars⟩
      · rw [cons_append, cons_append, append_assoc, ← whole]
      · rw [← unicodeEscape_quote length body rest'', ← whole]
        exact escaped

/-! ### Numbers -/

def Delimited (rest : List UInt8) : Prop := ∀ c ∈ rest.head?, isBlank c = true ∨ c = 44 ∨ c = 93 ∨ c = 125

theorem Delimited.forall_head (delimited : Delimited rest) {holds : UInt8 → Prop}
    (all : ∀ c ∈ [32, 9, 13, 10, 44, 93, 125], holds c) : ∀ c ∈ rest.head?, holds c := by
  intro c first
  apply all
  rcases delimited c first with blank | rfl | rfl | rfl
  · simp only [isBlank, Bool.or_eq_true, decide_eq_true_eq] at blank
    rcases blank with ((rfl | rfl) | rfl) | rfl <;> decide
  · decide
  · decide
  · decide

theorem Delimited.others (delimited : Delimited rest) :
    ∀ c ∈ rest.head?, isDigit c = false ∧ c ≠ 46 ∧ c ≠ 101 ∧ c ≠ 69 := delimited.forall_head (by decide)

theorem dropWhile_digits {digits : List UInt8} (all : ∀ c ∈ digits, isDigit c = true)
    (ends : ∀ c ∈ rest.head?, isDigit c = false) : (digits ++ rest).dropWhile isDigit = rest := by
  rw [dropWhile_append_of_pos all]
  cases rest with
  | nil => rfl
  | cons c => rw [dropWhile_cons, if_neg (by simp [ends c rfl])]

theorem someDigits_append {digits : List UInt8} (isDigits : Digits digits)
    (ends : ∀ c ∈ rest.head?, isDigit c = false) : someDigits (digits ++ rest) = some rest := by
  obtain ⟨notEmpty, all⟩ := isDigits
  cases digits with
  | nil => exact absurd rfl notEmpty
  | cons c =>
    rw [someDigits, dropWhile_digits all ends, if_pos]
    simpa using all c (by simp)

variable {mem rest : List UInt8}

theorem digits_of_someDigits (read : someDigits mem = some rest) :
    ∃ digits, mem = digits ++ rest ∧ Digits digits := by
  unfold someDigits at read
  split at read
  next first =>
    simp only [Option.some.injEq] at read
    refine ⟨mem.takeWhile isDigit, by rw [← read, takeWhile_append_dropWhile], ?_, fun c inside => ?_⟩
    · cases mem with
      | nil => simp at first
      | cons =>
        rw [takeWhile_cons, if_pos (by simpa using first)]
        simp
    · exact all_eq_true.mp all_takeWhile c inside
  · simp at read

theorem integerPart_append {integer : List UInt8} (isInteger : IsInteger integer)
    (ends : ∀ c ∈ rest.head?, isDigit c = false) : integerPart (integer ++ rest) = some rest := by
  rcases isInteger with rfl | ⟨c, digits, rfl, digit, notZero, all⟩
  · rfl
  · have step : integerPart (c :: digits ++ rest) = someDigits (c :: digits ++ rest) := by
      unfold integerPart
      split
      next same => exact absurd (List.cons.inj same).1 notZero
      · rfl
    rw [step]
    apply someDigits_append _ ends
    constructor
    · simp
    · intro d inside
      rcases mem_cons.mp inside with rfl | later
      · exact digit
      · exact all d later

theorem integer_of_integerPart (read : integerPart mem = some rest) :
    ∃ integer, mem = integer ++ rest ∧ IsInteger integer := by
  unfold integerPart at read
  split at read
  next rest' =>
    simp only [Option.some.injEq] at read
    exact ⟨[48], by rw [read]; rfl, .inl rfl⟩
  next notZero =>
    obtain ⟨digits, rfl, notEmpty, all⟩ := digits_of_someDigits read
    cases digits with
    | nil => exact absurd rfl notEmpty
    | cons c digits =>
      refine ⟨c :: digits, rfl, .inr ⟨c, digits, rfl, all c (by simp), ?_, fun d inside => all d (by simp [inside])⟩⟩
      rintro rfl
      exact notZero _ rfl

theorem fractionPart_append {fraction : List UInt8} (isFraction : IsFraction fraction)
    (ends : ∀ c ∈ rest.head?, isDigit c = false ∧ c ≠ 46) : fractionPart (fraction ++ rest) = some rest := by
  rcases isFraction with rfl | ⟨digits, rfl, isDigits⟩
  · cases rest with
    | nil => rfl
    | cons c =>
      rw [nil_append, fractionPart]
      intro others same
      exact (ends c rfl).2 (List.cons.inj same).1
  · exact someDigits_append isDigits fun c first => (ends c first).1

theorem fraction_of_fractionPart (read : fractionPart mem = some rest) :
    ∃ fraction, mem = fraction ++ rest ∧ IsFraction fraction := by
  unfold fractionPart at read
  split at read
  · obtain ⟨digits, rfl, isDigits⟩ := digits_of_someDigits read
    exact ⟨46 :: digits, rfl, .inr ⟨digits, rfl, isDigits⟩⟩
  · simp only [Option.some.injEq] at read
    exact ⟨[], read, .inl rfl⟩

theorem exponentPart_append {exponent : List UInt8} (isExponent : IsExponent exponent)
    (ends : ∀ c ∈ rest.head?, isDigit c = false ∧ c ≠ 101 ∧ c ≠ 69) : exponentPart (exponent ++ rest) = some rest := by
  rcases isExponent with rfl | ⟨e, sign, digits, rfl, isE, isSign, isDigits⟩
  · cases rest with
    | nil => rfl
    | cons c =>
      rw [nil_append, exponentPart, if_neg]
      rintro (lower | upper)
      · exact (ends c rfl).2.1 lower
      · exact (ends c rfl).2.2 upper
  · have read := someDigits_append isDigits fun c first => (ends c first).1
    rw [cons_append, exponentPart, if_pos isE]
    rcases isSign with rfl | rfl | rfl
    · -- without a sign the first octet is a digit
      obtain ⟨notEmpty, all⟩ := isDigits
      cases digits with
      | nil => exact absurd rfl notEmpty
      | cons c =>
        have digit := all c (by simp)
        rw [nil_append, if_neg, read]
        rintro (plus | minus)
        · simp only [cons_append, head?_cons, Option.some.injEq] at plus
          rw [plus] at digit
          exact absurd digit (by decide)
        · simp only [cons_append, head?_cons, Option.some.injEq] at minus
          rw [minus] at digit
          exact absurd digit (by decide)
    · exact read
    · exact read

theorem exponent_of_exponentPart (read : exponentPart mem = some rest) :
    ∃ exponent, mem = exponent ++ rest ∧ IsExponent exponent := by
  unfold exponentPart at read
  split at read
  · simp only [Option.some.injEq] at read
    exact ⟨[], read, .inl rfl⟩
  next c mem =>
    split at read
    next isE =>
      obtain ⟨digits, same, isDigits⟩ := digits_of_someDigits read
      split at same
      next signed =>
        cases mem with
        | nil => simp at signed
        | cons d =>
          simp only [head?_cons, Option.some.injEq] at signed
          rw [drop_succ_cons, drop_zero] at same
          refine ⟨c :: ([d] ++ digits), by rw [same]; rfl, .inr ⟨c, [d], digits, rfl, isE, ?_, isDigits⟩⟩
          rcases signed with rfl | rfl
          · exact .inr (.inl rfl)
          · exact .inr (.inr rfl)
      · exact ⟨c :: ([] ++ digits), by rw [same]; rfl, .inr ⟨c, [], digits, rfl, isE, .inl rfl, isDigits⟩⟩
    · simp only [Option.some.injEq] at read
      exact ⟨[], read, .inl rfl⟩

theorem IsExponent.ends {exponent : List UInt8} (isExponent : IsExponent exponent) (delimited : Delimited rest) :
    ∀ c ∈ (exponent ++ rest).head?, isDigit c = false ∧ c ≠ 46 := by
  rcases isExponent with rfl | ⟨e, sign, digits, rfl, isE, -, -⟩
  · intro c first
    exact ⟨(delimited.others c first).1, (delimited.others c first).2.1⟩
  · intro c first
    simp only [cons_append, head?_cons, Option.mem_def, Option.some.injEq] at first
    rw [← first]
    rcases isE with rfl | rfl <;> decide

theorem IsFraction.ends {fraction : List UInt8} (isFraction : IsFraction fraction)
    (behind : ∀ c ∈ rest.head?, isDigit c = false) : ∀ c ∈ (fraction ++ rest).head?, isDigit c = false := by
  rcases isFraction with rfl | ⟨digits, rfl, -⟩
  · exact behind
  · intro c first
    simp only [cons_append, head?_cons, Option.mem_def, Option.some.injEq] at first
    rw [← first]
    decide

theorem IsInteger.head {integer : List UInt8} (isInteger : IsInteger integer) :
    ∃ c rest, integer = c :: rest ∧ isDigit c = true := by
  rcases isInteger with rfl | ⟨c, rest, same, digit, -, -⟩
  · exact ⟨48, [], rfl, by decide⟩
  · exact ⟨c, rest, same, digit⟩

theorem IsNumber.head {octets : List UInt8} (isNumber : IsNumber octets) :
    ∃ c rest, octets = c :: rest ∧ (isDigit c || c = 45) = true := by
  obtain ⟨sign, integer, fraction, exponent, rfl, isSign, isInteger, -, -⟩ := isNumber
  rcases isSign with rfl | rfl
  · obtain ⟨c, rest, rfl, digit⟩ := isInteger.head
    exact ⟨c, _, rfl, by simp [digit]⟩
  · exact ⟨45, _, rfl, by decide⟩

theorem IsNumber.numberEnd {octets : List UInt8} (isNumber : IsNumber octets) (delimited : Delimited rest) :
    numberEnd (octets ++ rest) = some rest := by
  obtain ⟨sign, integer, fraction, exponent, rfl, isSign, isInteger, isFraction, isExponent⟩ := isNumber
  have behindFraction := isExponent.ends delimited
  have behindInteger := isFraction.ends fun c first => (behindFraction c first).1
  have unsigned : (if (sign ++ (integer ++ (fraction ++ exponent)) ++ rest).head? = some 45 then
      (sign ++ (integer ++ (fraction ++ exponent)) ++ rest).drop 1 else sign ++ (integer ++ (fraction ++ exponent)) ++ rest) =
      integer ++ (fraction ++ (exponent ++ rest)) := by
    rcases isSign with rfl | rfl
    · obtain ⟨c, digits, rfl, digit⟩ := isInteger.head
      rw [if_neg]
      · simp
      · simp only [nil_append, cons_append, head?_cons, Option.some.injEq]
        rintro rfl
        exact absurd digit (by decide)
    · simp
  rw [Json.numberEnd, unsigned, integerPart_append isInteger behindInteger]
  dsimp only [Option.bind_eq_bind, Option.bind_some]
  rw [fractionPart_append isFraction behindFraction]
  apply exponentPart_append isExponent
  intro c first
  exact ⟨(delimited.others c first).1, (delimited.others c first).2.2⟩

theorem number_of_numberEnd (read : numberEnd mem = some rest) :
    ∃ octets, mem = octets ++ rest ∧ IsNumber octets := by
  simp only [numberEnd, Option.bind_eq_bind, Option.bind_eq_some_iff] at read
  obtain ⟨behindInteger, readInteger, behindFraction, readFraction, readExponent⟩ := read
  obtain ⟨integer, unsigned, isInteger⟩ := integer_of_integerPart readInteger
  obtain ⟨fraction, rfl, isFraction⟩ := fraction_of_fractionPart readFraction
  obtain ⟨exponent, rfl, isExponent⟩ := exponent_of_exponentPart readExponent
  split at unsigned
  next signed =>
    cases mem with
    | nil => simp at signed
    | cons =>
      simp only [head?_cons, Option.some.injEq] at signed
      rw [drop_succ_cons, drop_zero] at unsigned
      refine ⟨_, ?_, [45], integer, fraction, exponent, rfl, .inr rfl, isInteger, isFraction, isExponent⟩
      rw [signed, unsigned]
      simp
  · refine ⟨_, ?_, [], integer, fraction, exponent, rfl, .inl rfl, isInteger, isFraction, isExponent⟩
    rw [unsigned]
    simp

end Yaz.Json
