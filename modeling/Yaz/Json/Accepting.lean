import Yaz.Json.Lexical

/-! What the grammar derives is accepted by the parser.

The rules are those of the code: `sscanf` decides what may follow `\u`, and an empty array
is a level of nesting.
-/

set_option autoImplicit false

namespace Yaz.Json
open List Yaz.Comstack

section
variable {Number : Type}

def codeRules (number : List UInt8 → Number → Prop) : Rules Number :=
  { unicode := unicodeEscape, number := number, emptyArrayNests := true }

/-- `strtod` reads every number of the rules, up to its end and no further. -/
def ReadsNumbers (strtod : List UInt8 → Nat × Number) (number : List UInt8 → Number → Prop) : Prop :=
  ∀ octets value rest, IsNumber octets → number octets value → Delimited rest →
    strtod (octets ++ rest) = (octets.length, value)

end

theorem allBlank_nil : AllBlank [] := by simp [AllBlank]

variable {blank : List UInt8} {c : UInt8} (mem : List UInt8)

theorem dropWhile_blank (allBlank : AllBlank blank)
    (notBlank : isBlank c = false) : (blank ++ c :: mem).dropWhile isBlank = c :: mem := by
  rw [dropWhile_append_of_pos allBlank, dropWhile_cons, if_neg (by simp [notBlank])]

theorem look_blank (errMsg : Option String)
    (allBlank : AllBlank blank) (notBlank : isBlank c = false) :
    Parser.look ⟨blank ++ c :: mem, errMsg⟩ = ⟨c :: mem, errMsg⟩ := by
  rw [Parser.look]
  rw [dropWhile_blank mem allBlank notBlank]

theorem look_cons (errMsg : Option String) (notBlank : isBlank c = false) :
    Parser.look ⟨c :: mem, errMsg⟩ = ⟨c :: mem, errMsg⟩ :=
  look_blank mem errMsg allBlank_nil notBlank

theorem look_look (p : Parser) : p.look.look = p.look := by
  simp only [Parser.look, Parser.mk.injEq, and_true]
  induction p.cp with
  | nil => rfl
  | cons c _ ih =>
    by_cases blank : isBlank c = true
    · rw [dropWhile_cons, if_pos blank]
      exact ih
    · rw [dropWhile_cons, if_neg blank, dropWhile_cons, if_neg blank]

theorem delimited_blank {blank rest : List UInt8} (allBlank : AllBlank blank) (delimited : Delimited rest) :
    Delimited (blank ++ rest) := by
  cases blank with
  | nil => exact delimited
  | cons c =>
    intro d first
    simp only [cons_append, head?_cons, Option.mem_def, Option.some.injEq] at first
    exact .inl (first ▸ allBlank c (by simp))

theorem delimited_nil : Delimited [] := by simp [Delimited]

theorem delimited_cons (rest : List UInt8) (stops : c = 44 ∨ c = 93 ∨ c = 125) : Delimited (c :: rest) := by
  intro d first
  simp only [head?_cons, Option.mem_def, Option.some.injEq] at first
  exact .inr (first ▸ stops)

section
variable {Number : Type} (strtod : List UInt8 → Nat × Number) (subst : List (Int × Node Number))

def innerValue : Nat → Option (Parser → Option (Node Number) × Parser)
  | 0 => none
  | levels + 1 => some (jsonParseValue strtod subst levels)

variable (levels : Nat)

theorem jsonParseValue_eq (p : Parser) :
    jsonParseValue strtod subst levels p =
      if p.look.cp.head? = some 34 then
        match jsonParseString p.look with
        | (none, p) => (none, p)
        | (some octets, p) => (some (.string octets), p)
      else if p.look.cp.head?.all (fun c => isDigit c || c = 45) then jsonParseNumber strtod p.look
      else if p.look.cp.head? = some 123 then jsonParseObject (innerValue strtod subst levels) p.look
      else if p.look.cp.head? = some 91 then jsonParseArray (innerValue strtod subst levels) p.look
      else jsonParseToken subst p.look := by
  cases levels <;> rfl

theorem jsonParseValue_look (p : Parser) :
    jsonParseValue strtod subst levels p = jsonParseValue strtod subst levels p.look := by
  rw [jsonParseValue_eq, jsonParseValue_eq, look_look]

theorem jsonParseValue_string (mem : List UInt8) (errMsg : Option String) :
    jsonParseValue strtod subst levels ⟨34 :: mem, errMsg⟩ =
      match jsonParseString ⟨34 :: mem, errMsg⟩ with
      | (none, p) => (none, p)
      | (some octets, p) => (some (.string octets), p) := by
  rw [jsonParseValue_eq, look_cons mem errMsg (by decide)]
  rfl

theorem jsonParseValue_number (mem : List UInt8) (errMsg : Option String)
    (first : (isDigit c || c = 45) = true) :
    jsonParseValue strtod subst levels ⟨c :: mem, errMsg⟩ = jsonParseNumber strtod ⟨c :: mem, errMsg⟩ := by
  have notBlank : isBlank c = false ∧ c ≠ 34 := by
    constructor
    · by_contra blank
      simp only [isBlank, Bool.not_eq_false, Bool.or_eq_true, decide_eq_true_eq] at blank
      rcases blank with ((rfl | rfl) | rfl) | rfl <;> exact absurd first (by decide)
    · rintro rfl
      exact absurd first (by decide)
  rw [jsonParseValue_eq, look_cons mem errMsg notBlank.1]
  rw [if_neg (by simpa using notBlank.2), if_pos (by simpa using first)]

theorem jsonParseValue_object (mem : List UInt8) (errMsg : Option String) :
    jsonParseValue strtod subst levels ⟨123 :: mem, errMsg⟩ =
      jsonParseObject (innerValue strtod subst levels) ⟨123 :: mem, errMsg⟩ := by
  rw [jsonParseValue_eq, look_cons mem errMsg (by decide)]
  rfl

theorem jsonParseValue_array (mem : List UInt8) (errMsg : Option String) :
    jsonParseValue strtod subst levels ⟨91 :: mem, errMsg⟩ =
      jsonParseArray (innerValue strtod subst levels) ⟨91 :: mem, errMsg⟩ := by
  rw [jsonParseValue_eq, look_cons mem errMsg (by decide)]
  rfl

theorem jsonParseValue_token (mem : List UInt8) (errMsg : Option String)
    (lower : isLower c = true) :
    jsonParseValue strtod subst levels ⟨c :: mem, errMsg⟩ = jsonParseToken subst ⟨c :: mem, errMsg⟩ := by
  have between : 97 ≤ c.toNat ∧ c.toNat ≤ 122 := by simpa [isLower] using lower
  have other : ∀ n : Nat, n < 97 ∨ 122 < n → n < 256 → c ≠ UInt8.ofNat n := by
    rintro n outside small rfl
    rw [UInt8.toNat_ofNat_of_lt' small] at between
    omega
  have notBlank : isBlank c = false := by
    simp only [isBlank, Bool.or_eq_false_iff, decide_eq_false_iff_not]
    exact ⟨⟨⟨other 32 (by omega) (by omega), other 9 (by omega) (by omega)⟩, other 13 (by omega) (by omega)⟩,
      other 10 (by omega) (by omega)⟩
  have notDigit : (isDigit c || decide (c = 45)) = false := by
    simp only [isDigit, Bool.or_eq_false_iff, Bool.and_eq_false_imp, decide_eq_true_eq, decide_eq_false_iff_not]
    exact ⟨fun _ => by omega, other 45 (by omega) (by omega)⟩
  rw [jsonParseValue_eq, look_cons mem errMsg notBlank]
  rw [if_neg (by simpa using other 34 (by omega) (by omega)), if_neg (by simp [notDigit]),
    if_neg (by simpa using other 123 (by omega) (by omega)), if_neg (by simpa using other 91 (by omega) (by omega))]

end

section
variable {Number : Type} {strtod : List UInt8 → Nat × Number} {subst : List (Int × Node Number)}
  {number : List UInt8 → Number → Prop}

theorem takeWhile_word {word rest : List UInt8} (lower : ∀ c ∈ word, isLower c = true)
    (ends : ∀ c ∈ rest.head?, isLower c = false) : (word ++ rest).takeWhile isLower = word := by
  rw [takeWhile_append_of_pos lower]
  cases rest with
  | nil => simp
  | cons c => rw [takeWhile_cons, if_neg (by simp [ends c rfl]), append_nil]

theorem Delimited.notLower {rest : List UInt8} (delimited : Delimited rest) : ∀ c ∈ rest.head?, isLower c = false :=
  delimited.forall_head (by decide)

theorem jsonParseToken_word (word : List UInt8) {rest : List UInt8} (errMsg : Option String) (short : word.length ≤ 7)
    (lower : ∀ c ∈ word, isLower c = true) (notEmpty : word ≠ []) (delimited : Delimited rest) :
    jsonParseToken subst ⟨word ++ rest, errMsg⟩ =
      if word = ascii "true" then (some .true, ⟨rest, errMsg⟩)
      else if word = ascii "false" then (some .false, ⟨rest, errMsg⟩)
      else if word = ascii "null" then (some .null, ⟨rest, errMsg⟩)
      else (none, ⟨rest, some "bad token"⟩) := by
  have whole : ((word ++ rest).takeWhile isLower).take 7 = word := by
    rw [takeWhile_word lower delimited.notLower, take_of_length_le short]
  have notPercent : (word ++ rest).head? ≠ some 37 := by
    cases word with
    | nil => exact absurd rfl notEmpty
    | cons =>
      simp only [cons_append, head?_cons, ne_eq, Option.some.injEq]
      rintro rfl
      exact absurd (lower 37 (by simp)) (by decide)
  rw [jsonParseToken]
  dsimp only
  rw [if_neg notPercent, whole, drop_left]
  rfl

theorem jsonParseString_quoted {body out : List UInt8} (chars : Chars unicodeEscape body out) (rest : List UInt8)
    (errMsg : Option String) : jsonParseString ⟨quoted body ++ rest, errMsg⟩ = (some out, ⟨rest, errMsg⟩) := by
  have shape : quoted body ++ rest = 34 :: (body ++ 34 :: rest) := by simp [quoted]
  rw [shape, jsonParseString, look_cons _ errMsg (by decide)]
  dsimp only
  rw [if_neg (by simp), Parser.move]
  rw [drop_succ_cons, drop_zero, chars.read rest]

theorem jsonParseNumber_number {octets rest : List UInt8} {value : Number} (reads : ReadsNumbers strtod number)
    (isNumber : IsNumber octets) (denotes : number octets value) (delimited : Delimited rest) (errMsg : Option String) :
    jsonParseNumber strtod ⟨octets ++ rest, errMsg⟩ = (some (.number value), ⟨rest, errMsg⟩) := by
  have notEmpty : octets.length ≠ 0 := by
    obtain ⟨c, others, rfl, -⟩ := isNumber.head
    simp
  have used : octets.length = (octets ++ rest).length - rest.length := by simp
  rw [jsonParseNumber, isNumber.numberEnd delimited, reads octets value rest isNumber denotes delimited]
  dsimp only
  rw [if_neg notEmpty, if_neg (fun different => different used)]

/-! ### Containers -/

variable {rules : Rules Number} {node : Node Number}

theorem Value.head {levels : Nat} {text : List UInt8}
    (isValue : Value rules levels text node) : ∃ c mem, text = c :: mem ∧ Json.isBlank c = .false ∧ c ≠ 93 := by
  cases isValue with
  | number isNumber =>
    obtain ⟨c, mem, rfl, first⟩ := isNumber.head
    refine ⟨c, mem, rfl, ?_, ?_⟩
    · by_contra blank
      simp only [Json.isBlank, Bool.not_eq_false, Bool.or_eq_true, decide_eq_true_eq] at blank
      rcases blank with ((rfl | rfl) | rfl) | rfl <;> exact absurd first (by decide)
    · rintro rfl
      exact absurd first (by decide)
  | _ => exact ⟨_, _, rfl, by decide, by decide⟩

theorem ElementsTail.delimited {levels : Nat} {tail rest : List UInt8} {elements : Elements Number}
    (isTail : ElementsTail rules levels tail elements) (delimited : Delimited rest) : Delimited (tail ++ rest) := by
  cases isTail with
  | nil => exact delimited
  | cons before =>
    rw [append_assoc]
    exact delimited_blank before (delimited_cons _ (.inl rfl))

theorem MembersTail.delimited {levels : Nat} {tail rest : List UInt8} {members : Members Number}
    (isTail : MembersTail rules levels tail members) (delimited : Delimited rest) : Delimited (tail ++ rest) := by
  cases isTail with
  | nil => exact delimited
  | cons before =>
    rw [append_assoc]
    exact delimited_blank before (delimited_cons _ (.inl rfl))

theorem jsonParseArray_empty (value : Parser → Option (Node Number) × Parser) (rest : List UInt8)
    (errMsg : Option String) (allBlank : AllBlank blank) :
    jsonParseArray (some value) ⟨91 :: (blank ++ 93 :: rest), errMsg⟩ = (some (.array .nil), ⟨rest, errMsg⟩) := by
  have opened := look_cons (blank ++ 93 :: rest) errMsg (c := 91) (by decide)
  have closed := look_cons rest errMsg (c := 93) (by decide)
  simp [jsonParseArray, Parser.move, opened, look_blank rest errMsg allBlank (c := 93) (by decide), closed]

variable {value : Parser → Option (Node Number) × Parser} {errMsg : Option String}

theorem jsonParseArray_list {before mem rest : List UInt8}
    {elements : Elements Number} {p : Parser} (blankBefore : AllBlank before)
    (notBlank : isBlank c = false) (notEnd : c ≠ 93)
    (list : jsonParseElementList value ⟨c :: mem, errMsg⟩ = (some elements, p)) (ends : p.look = ⟨93 :: rest, errMsg⟩) :
    jsonParseArray (some value) ⟨91 :: (before ++ c :: mem), errMsg⟩ = (some (.array elements), ⟨rest, errMsg⟩) := by
  have opened := look_cons (before ++ c :: mem) errMsg (c := 91) (by decide)
  simp [jsonParseArray, Parser.move, opened, look_blank mem errMsg blankBefore notBlank, notEnd, list, ends]

theorem jsonParseObject_empty (value : Option (Parser → Option (Node Number) × Parser))
    (rest : List UInt8) (errMsg : Option String) (allBlank : AllBlank blank) :
    jsonParseObject value ⟨123 :: (blank ++ 125 :: rest), errMsg⟩ = (some (.object .nil), ⟨rest, errMsg⟩) := by
  have opened := look_cons (blank ++ 125 :: rest) errMsg (c := 123) (by decide)
  have closed := look_cons rest errMsg (c := 125) (by decide)
  simp [jsonParseObject, Parser.move, opened, look_blank rest errMsg allBlank (c := 125) (by decide), closed]

theorem jsonParseObject_list {before mem rest : List UInt8}
    {members : Members Number} {p : Parser} (blankBefore : AllBlank before)
    (list : jsonParseMemberList value ⟨34 :: mem, errMsg⟩ = (some members, p)) (ends : p.look = ⟨125 :: rest, errMsg⟩) :
    jsonParseObject (some value) ⟨123 :: (before ++ 34 :: mem), errMsg⟩ = (some (.object members), ⟨rest, errMsg⟩) := by
  have opened := look_cons (before ++ 34 :: mem) errMsg (c := 123) (by decide)
  simp [jsonParseObject, Parser.move, opened, look_blank mem errMsg blankBefore (c := 34) (by decide), list, ends]

theorem jsonParsePair_quoted {before body between mem key : List UInt8} {p : Parser} (blankBefore : AllBlank before)
    (chars : Chars unicodeEscape body key) (blankBetween : AllBlank between)
    (read : value ⟨mem, errMsg⟩ = (some node, p)) :
    jsonParsePair value ⟨before ++ (quoted body ++ (between ++ 58 :: mem)), errMsg⟩ = (some (key, node), p) := by
  have looked : jsonParseString ⟨before ++ (quoted body ++ (between ++ 58 :: mem)), errMsg⟩ =
      jsonParseString ⟨quoted body ++ (between ++ 58 :: mem), errMsg⟩ := by
    rw [quoted, cons_append, jsonParseString, jsonParseString, look_blank _ errMsg blankBefore (by decide),
      look_cons _ errMsg (by decide)]
  rw [jsonParsePair, looked, jsonParseString_quoted chars]
  dsimp only
  rw [look_blank mem errMsg blankBetween (by decide), if_neg (by simp)]
  dsimp only [Parser.move]
  rw [drop_succ_cons, drop_zero, read]

theorem jsonParseValue_spaced (strtod : List UInt8 → Nat × Number) (subst : List (Int × Node Number)) (outer : Nat)
    {levels : Nat} {blank text : List UInt8}
    (isValue : Value rules levels text node) (allBlank : AllBlank blank) (rest : List UInt8) (errMsg : Option String) :
    jsonParseValue strtod subst outer ⟨blank ++ (text ++ rest), errMsg⟩ =
      jsonParseValue strtod subst outer ⟨text ++ rest, errMsg⟩ := by
  obtain ⟨c, mem, rfl, notBlank, -⟩ := isValue.head
  rw [cons_append, jsonParseValue_look, look_blank (mem ++ rest) errMsg allBlank notBlank]

mutual

/-- A text of the rules is read up to what follows it, and gives its value. -/
theorem Value.parse (reads : ReadsNumbers strtod number) {levels : Nat} {text : List UInt8} :
    (node : Node Number) → Value (codeRules number) levels text node → ∀ rest errMsg, Delimited rest →
      jsonParseValue strtod subst levels ⟨text ++ rest, errMsg⟩ = (some node, ⟨rest, errMsg⟩)
  | .true, .true => fun rest errMsg delimited => by
    rw [show ascii "true" ++ rest = 116 :: (ascii "rue" ++ rest) from rfl, jsonParseValue_token _ _ _ _ _ (by decide)]
    exact jsonParseToken_word (ascii "true") errMsg (by decide) (by decide) (by decide) delimited
  | .false, .false => fun rest errMsg delimited => by
    rw [show ascii "false" ++ rest = 102 :: (ascii "alse" ++ rest) from rfl, jsonParseValue_token _ _ _ _ _ (by decide)]
    exact jsonParseToken_word (ascii "false") errMsg (by decide) (by decide) (by decide) delimited
  | .null, .null => fun rest errMsg delimited => by
    rw [show ascii "null" ++ rest = 110 :: (ascii "ull" ++ rest) from rfl, jsonParseValue_token _ _ _ _ _ (by decide)]
    exact jsonParseToken_word (ascii "null") errMsg (by decide) (by decide) (by decide) delimited
  | .number _, .number isNumber denotes => fun rest errMsg delimited => by
    have read := jsonParseNumber_number reads isNumber denotes delimited errMsg
    obtain ⟨c, mem, rfl, first⟩ := isNumber.head
    rw [cons_append, jsonParseValue_number _ _ _ _ _ first]
    exact read
  | .string _, .string chars => fun rest errMsg _ => by
    have read := jsonParseString_quoted chars rest errMsg
    rw [quoted, cons_append] at read ⊢
    rw [jsonParseValue_string, read]
  | .object .nil, .emptyObject isBlank => fun rest errMsg _ => by
    rw [cons_append, append_assoc, jsonParseValue_object]
    exact jsonParseObject_empty _ rest errMsg isBlank
  | .object (.cons key value members), isObject => by
    intro rest errMsg _
    cases isObject with
    | @object levels before body between after text tail behind _ _ _ blankBefore chars blankBetween blankAfter isValue
        isTail blankBehind =>
      have delimited : Delimited (tail ++ (behind ++ 125 :: rest)) :=
        isTail.delimited (delimited_blank blankBehind (delimited_cons rest (by simp)))
      have first := Value.parse reads value isValue (tail ++ (behind ++ 125 :: rest)) errMsg delimited
      obtain ⟨p, later, ends⟩ := MembersTail.parse reads members isTail behind rest errMsg
        (tail ++ (behind ++ 125 :: rest)).length blankBehind (by simp)
      have spaced := jsonParseValue_spaced strtod subst levels isValue blankAfter (tail ++ (behind ++ 125 :: rest)) errMsg
      have list : jsonParseMemberList (jsonParseValue strtod subst levels)
          ⟨34 :: (body ++ 34 :: (between ++ 58 :: (after ++ (text ++ (tail ++ (behind ++ 125 :: rest)))))), errMsg⟩ =
          (some (.cons key value members), p) := by
        have pair := jsonParsePair_quoted allBlank_nil chars blankBetween (spaced.trans first)
        have shape : [] ++ (quoted body ++ (between ++ 58 :: (after ++ (text ++ (tail ++ (behind ++ 125 :: rest)))))) =
            34 :: (body ++ 34 :: (between ++ 58 :: (after ++ (text ++ (tail ++ (behind ++ 125 :: rest)))))) := by
          simp [quoted]
        rw [shape] at pair
        rw [jsonParseMemberList, pair]
        dsimp only
        rw [later]
      have shape : 123 :: (before ++ (quoted body ++ (between ++ 58 :: (after ++ (text ++ (tail ++ (behind ++ [125]))))))) ++
          rest = 123 :: (before ++ 34 :: (body ++ 34 :: (between ++ 58 :: (after ++ (text ++ (tail ++ (behind ++ 125 :: rest))))))) := by
        simp [quoted]
      rw [shape, jsonParseValue_object]
      exact jsonParseObject_list blankBefore list ends
  | .array .nil, .emptyArray isBlank room => fun rest errMsg _ => by
    obtain ⟨levels, rfl⟩ := Nat.exists_eq_succ_of_ne_zero (Nat.ne_of_gt (room rfl))
    rw [cons_append, append_assoc, jsonParseValue_array]
    exact jsonParseArray_empty _ rest errMsg isBlank
  | .array (.cons value elements), isArray => by
    intro rest errMsg _
    cases isArray with
    | @array levels before text tail behind _ _ blankBefore isValue isTail blankBehind =>
      have delimited : Delimited (tail ++ (behind ++ 93 :: rest)) :=
        isTail.delimited (delimited_blank blankBehind (delimited_cons rest (by simp)))
      have first := Value.parse reads value isValue (tail ++ (behind ++ 93 :: rest)) errMsg delimited
      obtain ⟨p, later, ends⟩ := ElementsTail.parse reads elements isTail behind rest errMsg
        (tail ++ (behind ++ 93 :: rest)).length blankBehind (by simp)
      have list : jsonParseElementList (jsonParseValue strtod subst levels)
          ⟨text ++ (tail ++ (behind ++ 93 :: rest)), errMsg⟩ = (some (.cons value elements), p) := by
        rw [jsonParseElementList, first]
        dsimp only
        rw [later]
      obtain ⟨c, mem, rfl, notBlank, notEnd⟩ := isValue.head
      have shape : 91 :: (before ++ (c :: mem ++ (tail ++ (behind ++ [93])))) ++ rest =
          91 :: (before ++ c :: (mem ++ (tail ++ (behind ++ 93 :: rest)))) := by simp
      rw [shape, jsonParseValue_array]
      exact jsonParseArray_list blankBefore notBlank notEnd list ends

theorem MembersTail.parse (reads : ReadsNumbers strtod number) {levels : Nat} {tail : List UInt8} :
    (members : Members Number) → MembersTail (codeRules number) levels tail members →
      ∀ behind rest errMsg rounds, AllBlank behind → tail.length ≤ rounds →
        ∃ p, jsonParseMembers (jsonParseValue strtod subst levels) rounds ⟨tail ++ (behind ++ 125 :: rest), errMsg⟩ =
          (some members, p) ∧ p.look = ⟨125 :: rest, errMsg⟩
  | .nil, .nil => by
    intro behind rest errMsg rounds blankBehind _
    have ends := look_blank rest errMsg blankBehind (c := 125) (by decide)
    cases rounds with
    | zero => exact ⟨_, rfl, ends⟩
    | succ =>
      refine ⟨_, ?_, look_cons rest errMsg (by decide)⟩
      rw [nil_append, jsonParseMembers, ends]
      rfl
  | .cons key value members, isTail => by
    intro behind rest errMsg rounds blankBehind enough
    cases isTail with
    | @cons _ before behindComma body between after text tail _ _ _ blankBefore blankComma chars blankBetween blankAfter
        isValue isTail =>
      cases rounds with
      | zero => simp at enough
      | succ rounds =>
        have delimited : Delimited (tail ++ (behind ++ 125 :: rest)) :=
          isTail.delimited (delimited_blank blankBehind (delimited_cons rest (by simp)))
        have first := Value.parse reads value isValue (tail ++ (behind ++ 125 :: rest)) errMsg delimited
        have spaced := jsonParseValue_spaced strtod subst levels isValue blankAfter (tail ++ (behind ++ 125 :: rest)) errMsg
        have pair := jsonParsePair_quoted blankComma chars blankBetween (spaced.trans first)
        obtain ⟨p, later, ends⟩ := MembersTail.parse reads members isTail behind rest errMsg rounds blankBehind (by
          simp only [length_append, length_cons] at enough
          omega)
        refine ⟨p, ?_, ends⟩
        have shape : before ++ 44 :: (behindComma ++ (quoted body ++ (between ++ 58 :: (after ++ (text ++ tail))))) ++
            (behind ++ 125 :: rest) =
            before ++ 44 :: (behindComma ++
              (quoted body ++ (between ++ 58 :: (after ++ (text ++ (tail ++ (behind ++ 125 :: rest))))))) := by
          simp
        rw [shape, jsonParseMembers, look_blank _ errMsg blankBefore (by decide)]
        dsimp only [Parser.move]
        rw [head?_cons, if_pos rfl, drop_succ_cons, drop_zero, pair]
        dsimp only
        rw [later]

theorem ElementsTail.parse (reads : ReadsNumbers strtod number) {levels : Nat} {tail : List UInt8} :
    (elements : Elements Number) → ElementsTail (codeRules number) levels tail elements →
      ∀ behind rest errMsg rounds, AllBlank behind → tail.length ≤ rounds →
        ∃ p, jsonParseElements (jsonParseValue strtod subst levels) rounds ⟨tail ++ (behind ++ 93 :: rest), errMsg⟩ =
          (some elements, p) ∧ p.look = ⟨93 :: rest, errMsg⟩
  | .nil, .nil => by
    intro behind rest errMsg rounds blankBehind _
    have ends := look_blank rest errMsg blankBehind (c := 93) (by decide)
    cases rounds with
    | zero => exact ⟨_, rfl, ends⟩
    | succ =>
      refine ⟨_, ?_, look_cons rest errMsg (by decide)⟩
      rw [nil_append, jsonParseElements, ends]
      rfl
  | .cons value elements, isTail => by
    intro behind rest errMsg rounds blankBehind enough
    cases isTail with
    | @cons _ before behindComma text tail _ _ blankBefore blankComma isValue isTail =>
      cases rounds with
      | zero => simp at enough
      | succ rounds =>
        have delimited : Delimited (tail ++ (behind ++ 93 :: rest)) :=
          isTail.delimited (delimited_blank blankBehind (delimited_cons rest (by simp)))
        have first := Value.parse reads value isValue (tail ++ (behind ++ 93 :: rest)) errMsg delimited
        have spaced := jsonParseValue_spaced strtod subst levels isValue blankComma (tail ++ (behind ++ 93 :: rest)) errMsg
        obtain ⟨p, later, ends⟩ := ElementsTail.parse reads elements isTail behind rest errMsg rounds blankBehind (by
          simp only [length_append, length_cons] at enough
          omega)
        refine ⟨p, ?_, ends⟩
        have shape : before ++ 44 :: (behindComma ++ (text ++ tail)) ++ (behind ++ 93 :: rest) =
            before ++ 44 :: (behindComma ++ (text ++ (tail ++ (behind ++ 93 :: rest)))) := by simp
        rw [shape, jsonParseElements, look_blank _ errMsg blankBefore (by decide)]
        dsimp only [Parser.move]
        rw [head?_cons, if_pos rfl, drop_succ_cons, drop_zero, spaced, first]
        dsimp only
        rw [later]

end

theorem IsText.parsed (reads : ReadsNumbers strtod number) {text : List UInt8}
    (isText : IsText (codeRules number) maxLevel text node) : jsonParserParse strtod subst text = some node := by
  obtain ⟨before, value, behind, rfl, blankBefore, blankBehind, isValue⟩ := isText
  have delimited : Delimited behind := by
    have blank := delimited_blank blankBehind delimited_nil
    rwa [append_nil] at blank
  have spaced := jsonParseValue_spaced strtod subst maxLevel isValue blankBefore behind none
  have ends : behind.dropWhile isBlank = [] := by
    rw [← append_nil behind, dropWhile_append_of_pos blankBehind]
    rfl
  rw [jsonParserParse, spaced, Value.parse reads node isValue behind none delimited]
  simp [Parser.look, ends]

end

end Yaz.Json
