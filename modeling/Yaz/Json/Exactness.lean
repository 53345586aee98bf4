import Yaz.Json.Deriving

/-! When the parser accepts exactly the texts of RFC 8259.

Two things keep them apart: `sscanf` takes blanks, a sign or `0x` behind `\u`, and an empty
array counts as a level of nesting where an empty object does not.
-/

set_option autoImplicit false

variable {text : List UInt8}

namespace Yaz.Json
open List Yaz.Comstack

/-- Inside of strings, four hexadecimal digits follow every `\u`. -/
def escapesOk : Bool → List UInt8 → Bool
  | _, [] => true
  | false, c :: rest => escapesOk (c == 34) rest
  | true, [_] => true
  | true, c :: d :: rest =>
    if c = 34 then escapesOk false (d :: rest)
    else if c = 92 then (d ≠ 117 || (4 ≤ rest.length && (rest.take 4).all fun c => (hexValue c).isSome)) && escapesOk true rest
    else escapesOk true (d :: rest)

variable (rest : List UInt8)

theorem escapesOk_quote : escapesOk true (34 :: rest) = escapesOk false rest := by
  cases rest with
  | nil => rfl
  | cons => rw [escapesOk.eq_4, if_pos rfl]

theorem escapesOk_plain {c : UInt8} (notQuote : c ≠ 34) (notBackslash : c ≠ 92) :
    escapesOk true (c :: rest) = escapesOk true rest := by
  cases rest with
  | nil => rfl
  | cons => rw [escapesOk, if_neg notQuote, if_neg notBackslash]

theorem escapesOk_outside {octets : List UInt8} (noQuote : 34 ∉ octets) :
    escapesOk false (octets ++ rest) = escapesOk false rest := by
  induction octets with
  | nil => rfl
  | cons c _ ih =>
    have notQuote : (c == 34) = false := by
      rw [beq_eq_false_iff_ne]
      rintro rfl
      exact noQuote (by simp)
    rw [cons_append, escapesOk, notQuote]
    exact ih fun inside => noQuote (by simp [inside])

theorem hexValue_cases {c : UInt8} (hex : (hexValue c).isSome = true) :
    (48 ≤ c.toNat ∧ c.toNat ≤ 57) ∨ (65 ≤ c.toNat ∧ c.toNat ≤ 70) ∨ (97 ≤ c.toNat ∧ c.toNat ≤ 102) := by
  unfold hexValue digitValue isDigit isUpper isLower at hex
  grind

theorem escapesOk_hex {four : List UInt8} (hex : four.all (fun c => (hexValue c).isSome) = true) :
    escapesOk true (four ++ rest) = escapesOk true rest := by
  induction four with
  | nil => rfl
  | cons _ _ ih =>
    rw [all_cons, Bool.and_eq_true] at hex
    have range := hexValue_cases hex.1
    rw [cons_append, escapesOk_plain]
    · exact ih hex.2
    · rintro rfl
      simp at range
    · rintro rfl
      simp at range

theorem scanHex4_hex {mem : List UInt8} (long : 4 ≤ mem.length)
    (hex : (mem.take 4).all (fun c => (hexValue c).isSome) = true) : scanHex4 mem = some (4, (hexDigits 4 mem 0).2) := by
  match mem, long with
  | a :: b :: c :: d :: rest, _ =>
    simp only [take_succ_cons, take_zero, all_cons, all_nil, Bool.and_true, Bool.and_eq_true] at hex
    obtain ⟨hexA, hexB, hexC, hexD⟩ := hex
    have first := hexValue_cases hexA
    have second := hexValue_cases hexB
    have noSpace : isSpace a = false := by
      unfold isSpace
      simp only [Bool.or_eq_false_iff, decide_eq_false_iff_not, Bool.and_eq_false_imp, decide_eq_true_eq]
      refine ⟨?_, by omega⟩
      rintro rfl
      simp at first
    have noSign : a ≠ 43 ∧ a ≠ 45 := by
      constructor
      · rintro rfl
        simp at first
      · rintro rfl
        simp at first
    have noPrefix : b ≠ 120 ∧ b ≠ 88 := by
      constructor
      · rintro rfl
        simp at second
      · rintro rfl
        simp at second
    obtain ⟨a', valueA⟩ := Option.isSome_iff_exists.mp hexA
    obtain ⟨b', valueB⟩ := Option.isSome_iff_exists.mp hexB
    obtain ⟨c', valueC⟩ := Option.isSome_iff_exists.mp hexC
    obtain ⟨d', valueD⟩ := Option.isSome_iff_exists.mp hexD
    simp [scanHex4, noSpace, scanUnsigned, noSign, scanMagnitude, noPrefix, scanDigits,
      hexDigits, valueA, valueB, valueC, valueD]

theorem unicodeEscape_hex {mem : List UInt8} (long : 4 ≤ mem.length)
    (hex : (mem.take 4).all (fun c => (hexValue c).isSome) = true) : unicodeEscape mem = fourHex mem := by
  have positive : (mem.take 4).all isPositive = true := by
    rw [all_eq_true] at hex ⊢
    intro c inside
    have range := hexValue_cases (hex c inside)
    simp only [isPositive, Bool.and_eq_true, decide_eq_true_eq]
    omega
  rw [unicodeEscape, fourHex, if_pos ⟨long, positive⟩, if_pos ⟨long, hex⟩, scanHex4_hex long hex]
  rfl

theorem fourHex_hex {mem character : List UInt8} (escaped : fourHex mem = some character) :
    4 ≤ mem.length ∧ (mem.take 4).all (fun c => (hexValue c).isSome) = true := by
  unfold fourHex at escaped
  split at escaped
  next both => exact both
  · simp at escaped

theorem unicodeEscape_of_fourHex {mem character : List UInt8} (escaped : fourHex mem = some character) :
    unicodeEscape mem = some character := by
  obtain ⟨long, hex⟩ := fourHex_hex escaped
  rw [unicodeEscape_hex long hex, escaped]

theorem escapesOk_escape {c d : UInt8} (escaped : simpleEscape c = some d) :
    escapesOk true (92 :: c :: rest) = escapesOk true rest := by
  have notU : c ≠ 117 := by
    rintro rfl
    simp [simpleEscape] at escaped
  rw [escapesOk, if_neg (by decide), if_pos rfl]
  simp [notU]

theorem escapesOk_unicode :
    escapesOk true (92 :: 117 :: rest) =
      ((4 ≤ rest.length && (rest.take 4).all fun c => (hexValue c).isSome) && escapesOk true rest) := by
  rw [escapesOk, if_neg (by decide), if_pos rfl]
  simp

theorem Chars.escapesOk {body out : List UInt8} (chars : Chars fourHex body out) (rest : List UInt8) :
    escapesOk true (body ++ 34 :: rest) = escapesOk false rest := by
  induction chars with
  | nil => exact escapesOk_quote rest
  | plain _ notQuote notBackslash _ ih => rw [cons_append, escapesOk_plain _ notQuote notBackslash, ih]
  | escape escaped _ ih => rw [cons_append, cons_append, escapesOk_escape _ escaped, ih]
  | @unicode four character body out length escaped _ ih =>
    obtain ⟨-, hex⟩ := fourHex_hex escaped
    rw [take_left' length] at hex
    rw [cons_append, cons_append, append_assoc, escapesOk_unicode, take_left' length, hex,
      escapesOk_hex _ hex, ih]
    simp [length]

theorem Chars.strict {body out : List UInt8} (chars : Chars unicodeEscape body out) (rest : List UInt8)
    (ok : Json.escapesOk true (body ++ 34 :: rest) = true) : Chars fourHex body out ∧ Json.escapesOk false rest = true := by
  induction chars with
  | nil => exact ⟨.nil, by rw [← ok]; exact (escapesOk_quote rest).symm⟩
  | plain visible notQuote notBackslash _ ih =>
    rw [cons_append, escapesOk_plain _ notQuote notBackslash] at ok
    exact ⟨.plain visible notQuote notBackslash (ih ok).1, (ih ok).2⟩
  | escape escaped _ ih =>
    rw [cons_append, cons_append, escapesOk_escape _ escaped] at ok
    exact ⟨.escape escaped (ih ok).1, (ih ok).2⟩
  | @unicode four character body out length escaped _ ih =>
    rw [cons_append, cons_append, append_assoc, escapesOk_unicode, take_left' length] at ok
    simp only [Bool.and_eq_true] at ok
    obtain ⟨⟨-, hex⟩, later⟩ := ok
    rw [escapesOk_hex _ hex] at later
    refine ⟨.unicode length ?_ (ih later).1, (ih later).2⟩
    rw [← unicodeEscape_hex, escaped]
    · simp [length]
    · rw [take_left' length, hex]

/-! ### Values -/

theorem AllBlank.noQuote {blank : List UInt8} (allBlank : AllBlank blank) : 34 ∉ blank :=
  fun inside => absurd (allBlank 34 inside) (by decide)

theorem Digits.noQuote {digits : List UInt8} (isDigits : Digits digits) : 34 ∉ digits :=
  fun inside => absurd (isDigits.2 34 inside) (by decide)

theorem IsNumber.noQuote {octets : List UInt8} (isNumber : IsNumber octets) : 34 ∉ octets := by
  obtain ⟨sign, integer, fraction, exponent, rfl, isSign, isInteger, isFraction, isExponent⟩ := isNumber
  simp only [mem_append, not_or]
  refine ⟨?_, ?_, ?_, ?_⟩
  · rcases isSign with rfl | rfl <;> decide
  · rcases isInteger with rfl | ⟨c, rest, rfl, digit, -, all⟩
    · decide
    · intro inside
      rcases mem_cons.mp inside with rfl | later
      · exact absurd digit (by decide)
      · exact absurd (all 34 later) (by decide)
  · rcases isFraction with rfl | ⟨digits, rfl, isDigits⟩
    · simp
    · simp [isDigits.noQuote]
  · rcases isExponent with rfl | ⟨e, sign, digits, rfl, isE, isSign, isDigits⟩
    · simp
    · have notE : (34 : UInt8) ≠ e := by rcases isE with rfl | rfl <;> decide
      have notSign : (34 : UInt8) ∉ sign := by rcases isSign with rfl | rfl | rfl <;> decide
      simp [notE, notSign, isDigits.noQuote]

theorem escapesOk_blank {blank : List UInt8} (allBlank : AllBlank blank) :
    escapesOk false (blank ++ rest) = escapesOk false rest := escapesOk_outside rest allBlank.noQuote

theorem escapesOk_other {c : UInt8} (notQuote : c ≠ 34) :
    escapesOk false (c :: rest) = escapesOk false rest := by
  rw [escapesOk, beq_eq_false_iff_ne.mpr notQuote]

theorem escapesOk_quoted (body rest : List UInt8) :
    escapesOk false (quoted body ++ rest) = escapesOk true (body ++ 34 :: rest) := by
  rw [quoted, cons_append, escapesOk, append_assoc]
  rfl

/-- What `scan` says of a text stays the same behind octets without quotes, and behind a string. -/
structure Skips (unicode : List UInt8 → Option (List UInt8)) (scan : List UInt8 → Bool) : Prop where
  outside : ∀ {octets : List UInt8} (rest : List UInt8), 34 ∉ octets → scan (octets ++ rest) = scan rest
  string : ∀ {body out : List UInt8} (rest : List UInt8), Chars unicode body out → scan (quoted body ++ rest) = scan rest

theorem Skips.blank {unicode : List UInt8 → Option (List UInt8)} {scan : List UInt8 → Bool} (skips : Skips unicode scan)
    {blank : List UInt8}
    (rest : List UInt8) (allBlank : AllBlank blank) : scan (blank ++ rest) = scan rest :=
  skips.outside rest allBlank.noQuote

theorem Skips.other {unicode : List UInt8 → Option (List UInt8)} {scan : List UInt8 → Bool} (skips : Skips unicode scan) {c : UInt8}
    (rest : List UInt8) (notQuote : 34 ≠ c) : scan (c :: rest) = scan rest := by
  have skipped : scan ([c] ++ rest) = scan rest := skips.outside rest (by simpa using notQuote)
  exact skipped

theorem skips_escapesOk : Skips fourHex (escapesOk false) where
  outside := fun rest noQuote => escapesOk_outside rest noQuote
  string := by
    intro body out rest chars
    rw [escapesOk_quoted, chars.escapesOk]

section
variable {Number : Type} {rules : Rules Number} {scan : List UInt8 → Bool}

mutual

theorem Value.skipped (skips : Skips rules.unicode scan) {levels : Nat} {text : List UInt8} (rest : List UInt8) :
    (node : Node Number) → Value rules levels text node → scan (text ++ rest) = scan rest
  | .true, .true => skips.outside rest (by decide)
  | .false, .false => skips.outside rest (by decide)
  | .null, .null => skips.outside rest (by decide)
  | .number _, .number isNumber _ => skips.outside rest isNumber.noQuote
  | .string _, .string chars => skips.string rest chars
  | .object .nil, .emptyObject isBlank => by
    rw [cons_append, append_assoc, skips.other _ (by decide), skips.blank _ isBlank]
    exact skips.other rest (by decide)
  | .object (.cons _ value members), .object before chars between after isValue isTail behind => by
    simp only [cons_append, append_assoc]
    rw [skips.other _ (by decide), skips.blank _ before, skips.string _ chars, skips.blank _ between,
      skips.other _ (by decide), skips.blank _ after, Value.skipped skips _ value isValue,
      MembersTail.skipped skips _ members isTail, skips.blank _ behind]
    exact skips.other rest (by decide)
  | .array .nil, .emptyArray isBlank _ => by
    rw [cons_append, append_assoc, skips.other _ (by decide), skips.blank _ isBlank]
    exact skips.other rest (by decide)
  | .array (.cons value elements), .array before isValue isTail behind => by
    simp only [cons_append, append_assoc]
    rw [skips.other _ (by decide), skips.blank _ before, Value.skipped skips _ value isValue,
      ElementsTail.skipped skips _ elements isTail, skips.blank _ behind]
    exact skips.other rest (by decide)

theorem MembersTail.skipped (skips : Skips rules.unicode scan) {levels : Nat} {tail : List UInt8} (rest : List UInt8) :
    (members : Members Number) → MembersTail rules levels tail members → scan (tail ++ rest) = scan rest
  | .nil, .nil => rfl
  | .cons _ value members, .cons before behind chars between after isValue isTail => by
    simp only [cons_append, append_assoc]
    rw [skips.blank _ before, skips.other _ (by decide), skips.blank _ behind, skips.string _ chars,
      skips.blank _ between, skips.other _ (by decide), skips.blank _ after, Value.skipped skips _ value isValue,
      MembersTail.skipped skips _ members isTail]

theorem ElementsTail.skipped (skips : Skips rules.unicode scan) {levels : Nat} {tail : List UInt8} (rest : List UInt8) :
    (elements : Elements Number) → ElementsTail rules levels tail elements → scan (tail ++ rest) = scan rest
  | .nil, .nil => rfl
  | .cons value elements, .cons before behind isValue isTail => by
    simp only [cons_append, append_assoc]
    rw [skips.blank _ before, skips.other _ (by decide), skips.blank _ behind, Value.skipped skips _ value isValue,
      ElementsTail.skipped skips _ elements isTail]

end

theorem IsText.skipped (skips : Skips rules.unicode scan) {levels : Nat} {node : Node Number}
    (isText : IsText rules levels text node) : scan text = scan [] := by
  obtain ⟨before, value, behind, rfl, blankBefore, blankBehind, isValue⟩ := isText
  rw [skips.blank _ blankBefore, Value.skipped skips _ node isValue, ← append_nil behind, skips.blank _ blankBehind]

/-- The same rules with four hexadecimal digits behind `\u`. -/
def Rules.strict (rules : Rules Number) : Rules Number := { rules with unicode := fourHex }

mutual

theorem Value.strict (scanned : rules.unicode = unicodeEscape) {levels : Nat} {text : List UInt8} (rest : List UInt8) :
    (node : Node Number) → Value rules levels text node → Json.escapesOk false (text ++ rest) = true →
      Value rules.strict levels text node ∧ Json.escapesOk false rest = true
  | .true, .true => fun ok => ⟨.true, by rwa [escapesOk_outside rest (by decide)] at ok⟩
  | .false, .false => fun ok => ⟨.false, by rwa [escapesOk_outside rest (by decide)] at ok⟩
  | .null, .null => fun ok => ⟨.null, by rwa [escapesOk_outside rest (by decide)] at ok⟩
  | .number _, .number isNumber denotes => fun ok =>
    ⟨.number isNumber denotes, by rwa [escapesOk_outside rest isNumber.noQuote] at ok⟩
  | .string _, .string chars => fun ok => by
    rw [scanned] at chars
    rw [escapesOk_quoted] at ok
    obtain ⟨chars', ok⟩ := chars.strict rest ok
    exact ⟨.string chars', ok⟩
  | .object .nil, .emptyObject isBlank => fun ok => by
    rw [cons_append, append_assoc, escapesOk_other _ (by decide), escapesOk_blank _ isBlank] at ok
    exact ⟨.emptyObject isBlank, by rwa [cons_append, escapesOk_other _ (by decide)] at ok⟩
  | .object (.cons _ value members), .object before chars between after isValue isTail behind => fun ok => by
    rw [scanned] at chars
    simp only [cons_append, append_assoc] at ok
    rw [escapesOk_other _ (by decide), escapesOk_blank _ before, escapesOk_quoted] at ok
    obtain ⟨chars', ok⟩ := chars.strict _ ok
    rw [escapesOk_blank _ between, escapesOk_other _ (by decide), escapesOk_blank _ after] at ok
    obtain ⟨isValue', ok⟩ := Value.strict scanned _ value isValue ok
    obtain ⟨isTail', ok⟩ := MembersTail.strict scanned _ members isTail ok
    rw [escapesOk_blank _ behind, escapesOk_other _ (by decide), nil_append] at ok
    exact ⟨.object before chars' between after isValue' isTail' behind, ok⟩
  | .array .nil, .emptyArray isBlank room => fun ok => by
    rw [cons_append, append_assoc, escapesOk_other _ (by decide), escapesOk_blank _ isBlank] at ok
    exact ⟨.emptyArray isBlank room, by rwa [cons_append, escapesOk_other _ (by decide)] at ok⟩
  | .array (.cons value elements), .array before isValue isTail behind => fun ok => by
    simp only [cons_append, append_assoc] at ok
    rw [escapesOk_other _ (by decide), escapesOk_blank _ before] at ok
    obtain ⟨isValue', ok⟩ := Value.strict scanned _ value isValue ok
    obtain ⟨isTail', ok⟩ := ElementsTail.strict scanned _ elements isTail ok
    rw [escapesOk_blank _ behind, escapesOk_other _ (by decide), nil_append] at ok
    exact ⟨.array before isValue' isTail' behind, ok⟩

theorem MembersTail.strict (scanned : rules.unicode = unicodeEscape) {levels : Nat} {tail : List UInt8} (rest : List UInt8) :
    (members : Members Number) → MembersTail rules levels tail members → Json.escapesOk false (tail ++ rest) = true →
      MembersTail rules.strict levels tail members ∧ Json.escapesOk false rest = true
  | .nil, .nil => fun ok => ⟨.nil, ok⟩
  | .cons _ value members, .cons before behind chars between after isValue isTail => fun ok => by
    rw [scanned] at chars
    simp only [cons_append, append_assoc] at ok
    rw [escapesOk_blank _ before, escapesOk_other _ (by decide), escapesOk_blank _ behind, escapesOk_quoted] at ok
    obtain ⟨chars', ok⟩ := chars.strict _ ok
    rw [escapesOk_blank _ between, escapesOk_other _ (by decide), escapesOk_blank _ after] at ok
    obtain ⟨isValue', ok⟩ := Value.strict scanned _ value isValue ok
    obtain ⟨isTail', ok⟩ := MembersTail.strict scanned _ members isTail ok
    exact ⟨.cons before behind chars' between after isValue' isTail', ok⟩

theorem ElementsTail.strict (scanned : rules.unicode = unicodeEscape) {levels : Nat} {tail : List UInt8} (rest : List UInt8) :
    (elements : Elements Number) → ElementsTail rules levels tail elements → Json.escapesOk false (tail ++ rest) = true →
      ElementsTail rules.strict levels tail elements ∧ Json.escapesOk false rest = true
  | .nil, .nil => fun ok => ⟨.nil, ok⟩
  | .cons value elements, .cons before behind isValue isTail => fun ok => by
    simp only [cons_append, append_assoc] at ok
    rw [escapesOk_blank _ before, escapesOk_other _ (by decide), escapesOk_blank _ behind] at ok
    obtain ⟨isValue', ok⟩ := Value.strict scanned _ value isValue ok
    obtain ⟨isTail', ok⟩ := ElementsTail.strict scanned _ elements isTail ok
    exact ⟨.cons before behind isValue' isTail', ok⟩

end

end

/-! ### Acceptance -/

/-- A JSON text, its numbers apart from their values: what may follow `\u`, and whether an empty array is a level. -/
def IsJson (unicode : List UInt8 → Option (List UInt8)) (emptyArrayNests : Bool) (text : List UInt8) : Prop :=
  ∃ node : Node Unit, IsText { unicode := unicode, number := fun _ _ => True, emptyArrayNests := emptyArrayNests } maxLevel text node

def IsRfcText (text : List UInt8) : Prop := IsJson fourHex false text

theorem IsText.escapesOk {Number : Type} {rules : Rules Number} {levels : Nat} {node : Node Number}
    (hex : rules.unicode = fourHex) (isText : IsText rules levels text node) : Json.escapesOk false text = true :=
  isText.skipped (hex ▸ skips_escapesOk)

theorem IsJson.strict {emptyArrayNests : Bool} (isJson : IsJson unicodeEscape emptyArrayNests text)
    (ok : Json.escapesOk false text = true) : IsJson fourHex emptyArrayNests text := by
  obtain ⟨node, before, value, behind, rfl, blankBefore, blankBehind, isValue⟩ := isJson
  rw [escapesOk_blank _ blankBefore] at ok
  exact ⟨node, before, value, behind, rfl, blankBefore, blankBehind, (isValue.strict rfl behind node ok).1⟩

theorem IsText.mono {Number Number' : Type} {rules : Rules Number} {rules' : Rules Number'} {levels : Nat}
    {node : Node Number} (isText : IsText rules levels text node) (loosens : rules.Loosens rules') :
    ∃ node', IsText rules' levels text node' := by
  obtain ⟨before, value, behind, same, blankBefore, blankBehind, isValue⟩ := isText
  obtain ⟨node', isValue'⟩ := Value.mono loosens node isValue
  exact ⟨node', before, value, behind, same, blankBefore, blankBehind, isValue'⟩

section
variable {Number : Type} {strtod : List UInt8 → Nat × Number} {subst : List (Int × Node Number)} {text : List UInt8}

theorem isJson_of_parsed (plain : Plain subst text) (accepted : (jsonParserParse strtod subst text).isSome = true) :
    IsJson unicodeEscape true text := by
  have outcome : Outcome subst (Spaced (looseRules Number) maxLevel) ⟨text, none⟩
      (jsonParseValue strtod subst maxLevel ⟨text, none⟩) := jsonParseValue_outcome strtod maxLevel ⟨text, none⟩
  unfold jsonParserParse at accepted
  split at accepted
  · simp at accepted
  next node p read =>
    split at accepted
    · simp at accepted
    next noError =>
      split at accepted
      · simp at accepted
      next ended =>
        rw [read] at outcome
        obtain ⟨-, node', same, derived⟩ := outcome (by simpa using noError)
        obtain ⟨front, whole, blank, value, rfl, isBlank, isValue⟩ := derived plain
        obtain ⟨behind, blankBehind, last⟩ := cp_look p
        have none : p.look.cp = [] := by simpa using ended
        rw [none, append_nil] at last
        have isText : IsText (looseRules Number) maxLevel text node' :=
          ⟨blank, value, behind, by rw [← last, ← append_assoc]; exact whole, isBlank, blankBehind, isValue⟩
        exact isText.mono ⟨fun _ _ escaped => escaped, fun _ _ _ => ⟨(), trivial⟩, fun nests => nests⟩

/-- `strtod` reads a number up to its end, and its value depends on the number only. -/
def ReadsExactly (strtod : List UInt8 → Nat × Number) (denotes : List UInt8 → Number) : Prop :=
  ∀ octets rest, IsNumber octets → Delimited rest → strtod (octets ++ rest) = (octets.length, denotes octets)

theorem parsed_of_isJson {denotes : List UInt8 → Number} (reads : ReadsExactly strtod denotes)
    (isJson : IsJson unicodeEscape true text) : (jsonParserParse strtod subst text).isSome = true := by
  obtain ⟨node, isText⟩ := isJson
  have numbers : ∀ octets (value : Unit), True → ∃ value', value' = denotes octets := fun _ _ _ => ⟨_, rfl⟩
  obtain ⟨node', isText'⟩ : ∃ node', IsText (codeRules fun octets value => value = denotes octets) maxLevel text node' :=
    isText.mono ⟨fun _ _ escaped => escaped, numbers, fun nests => nests⟩
  have readsNumbers : ReadsNumbers strtod fun octets value => value = denotes octets := by
    rintro octets value rest isNumber rfl delimited
    exact reads octets rest isNumber delimited
  rw [isText'.parsed readsNumbers]
  rfl

/-- The parser and RFC 8259 agree on a text unless it is JSON but for an escape that only `sscanf` accepts, or has
an empty array inside of 1000 levels. -/
theorem jsonParserParse_exact_iff {denotes : List UInt8 → Number} (reads : ReadsExactly strtod denotes)
    (plain : Plain subst text) :
    ((jsonParserParse strtod subst text).isSome = true ↔ IsRfcText text) ↔
      (IsJson unicodeEscape true text → escapesOk false text = true) ∧ (IsRfcText text → IsJson fourHex true text) := by
  have accepted : (jsonParserParse strtod subst text).isSome = true ↔ IsJson unicodeEscape true text :=
    ⟨isJson_of_parsed plain, parsed_of_isJson reads⟩
  rw [accepted]
  constructor
  · intro agree
    constructor
    · intro isJson
      obtain ⟨node, isText⟩ := agree.mp isJson
      exact isText.escapesOk rfl
    · intro isRfc
      obtain ⟨node, isText⟩ := isRfc
      exact (agree.mpr ⟨node, isText⟩).strict (isText.escapesOk rfl)
  · rintro ⟨ordered, shallow⟩
    constructor
    · intro isJson
      obtain ⟨node, isText⟩ := isJson.strict (ordered isJson)
      exact isText.mono ⟨fun _ _ escaped => escaped, fun _ _ _ => ⟨(), trivial⟩, fun nests => absurd nests (by simp)⟩
    · intro isRfc
      obtain ⟨node, isText⟩ := shallow isRfc
      exact isText.mono ⟨fun _ _ escaped => unicodeEscape_of_fourHex escaped, fun _ _ _ => ⟨(), trivial⟩, fun nests => nests⟩

end

/-- A `strtod` that keeps the octets of the number for its value. -/
def strtodText (mem : List UInt8) : Nat × List UInt8 :=
  match numberEnd mem with
  | some rest => (mem.length - rest.length, mem.take (mem.length - rest.length))
  | none => (0, [])

theorem strtodText_exactly : ReadsExactly strtodText id := by
  intro octets rest isNumber delimited
  have used : (octets ++ rest).length - rest.length = octets.length := by simp
  rw [strtodText, isNumber.numberEnd delimited]
  dsimp only [id]
  rw [used, take_left]

theorem jsonParserParse_exact_pair :
    ((jsonParserParse strtodText [] (ascii "[\"\\u00e9\", -1.5e3]")).isSome = true ↔
      IsRfcText (ascii "[\"\\u00e9\", -1.5e3]")) ↔
      (IsJson unicodeEscape true (ascii "[\"\\u00e9\", -1.5e3]") → escapesOk false (ascii "[\"\\u00e9\", -1.5e3]") = true) ∧
        (IsRfcText (ascii "[\"\\u00e9\", -1.5e3]") → IsJson fourHex true (ascii "[\"\\u00e9\", -1.5e3]")) :=
  jsonParserParse_exact_iff strtodText_exactly ⟨by decide, .inl rfl⟩

/-- `"\u 123"` is accepted. -/
theorem jsonParserParse_blank_escape :
    ¬ ((jsonParserParse strtodText [] (ascii "\"\\u 123\"")).isSome = true ↔ IsRfcText (ascii "\"\\u 123\"")) := by
  intro agree
  have accepted : (jsonParserParse strtodText [] (ascii "\"\\u 123\"")).isSome = true := by rw [ascii_ofList]; decide +kernel
  obtain ⟨node, isText⟩ := agree.mp accepted
  have ordered := isText.escapesOk rfl
  exact absurd ordered (by decide)

end Yaz.Json
