import Yaz.Json.Value

/-! The grammar of JSON texts, after RFC 8259.

The rules are kept apart from three choices: what may follow `\u`, which octets denote a
number, and whether an empty array is a level of nesting. The nesting that is left is an
index of the derivations.
-/

set_option autoImplicit false

namespace Yaz.Json
open Yaz.Comstack Yaz.Iconv

structure Rules (Number : Type) where
  unicode : List UInt8 → Option (List UInt8)
  number : List UInt8 → Number → Prop
  emptyArrayNests : Bool

def AllBlank (octets : List UInt8) : Prop := ∀ c ∈ octets, isBlank c = true

inductive Chars (unicode : List UInt8 → Option (List UInt8)) : List UInt8 → List UInt8 → Prop where
  | nil : Chars unicode [] []
  | plain {c : UInt8} {body out : List UInt8} (visible : 32 ≤ c.toNat) (notQuote : c ≠ 34) (notBackslash : c ≠ 92)
      (rest : Chars unicode body out) : Chars unicode (c :: body) (c :: out)
  | escape {c d : UInt8} {body out : List UInt8} (escaped : simpleEscape c = some d) (rest : Chars unicode body out) :
      Chars unicode (92 :: c :: body) (d :: out)
  | unicode {four character body out : List UInt8} (length : four.length = 4)
      (escaped : unicode (four ++ (body ++ [34])) = some character) (rest : Chars unicode body out) :
      Chars unicode (92 :: 117 :: (four ++ body)) (character ++ out)

def fourHex (mem : List UInt8) : Option (List UInt8) :=
  if 4 ≤ mem.length ∧ (mem.take 4).all fun c => (hexValue c).isSome then yazWriteUTF8Char (hexDigits 4 mem 0).2 6 else none

def quoted (body : List UInt8) : List UInt8 := 34 :: (body ++ [34])

def Digits (octets : List UInt8) : Prop := octets ≠ [] ∧ ∀ c ∈ octets, isDigit c = true

def IsInteger (octets : List UInt8) : Prop :=
  octets = [48] ∨ ∃ c rest, octets = c :: rest ∧ isDigit c = true ∧ c ≠ 48 ∧ ∀ d ∈ rest, isDigit d = true

def IsFraction (octets : List UInt8) : Prop := octets = [] ∨ ∃ digits, octets = 46 :: digits ∧ Digits digits

def IsExponent (octets : List UInt8) : Prop :=
  octets = [] ∨ ∃ e sign digits, octets = e :: (sign ++ digits) ∧ (e = 101 ∨ e = 69) ∧
    (sign = [] ∨ sign = [43] ∨ sign = [45]) ∧ Digits digits

def IsNumber (octets : List UInt8) : Prop :=
  ∃ sign integer fraction exponent, octets = sign ++ (integer ++ (fraction ++ exponent)) ∧ (sign = [] ∨ sign = [45]) ∧
    IsInteger integer ∧ IsFraction fraction ∧ IsExponent exponent

section
variable {Number : Type}

mutual

inductive Value (rules : Rules Number) : Nat → List UInt8 → Node Number → Prop where
  | true {levels : Nat} : Value rules levels (ascii "true") .true
  | false {levels : Nat} : Value rules levels (ascii "false") .false
  | null {levels : Nat} : Value rules levels (ascii "null") .null
  | number {levels : Nat} {octets : List UInt8} {value : Number} (isNumber : IsNumber octets)
      (denotes : rules.number octets value) : Value rules levels octets (.number value)
  | string {levels : Nat} {body out : List UInt8} (chars : Chars rules.unicode body out) :
      Value rules levels (quoted body) (.string out)
  | emptyObject {levels : Nat} {blank : List UInt8} (isBlank : AllBlank blank) :
      Value rules levels (123 :: (blank ++ [125])) (.object .nil)
  | object {levels : Nat} {before body between after text tail behind key : List UInt8} {value : Node Number}
      {rest : Members Number} (blankBefore : AllBlank before) (chars : Chars rules.unicode body key)
      (blankBetween : AllBlank between) (blankAfter : AllBlank after) (isValue : Value rules levels text value)
      (isTail : MembersTail rules levels tail rest) (blankBehind : AllBlank behind) :
      Value rules (levels + 1)
        (123 :: (before ++ (quoted body ++ (between ++ 58 :: (after ++ (text ++ (tail ++ (behind ++ [125]))))))))
        (.object (.cons key value rest))
  | emptyArray {levels : Nat} {blank : List UInt8} (isBlank : AllBlank blank)
      (room : rules.emptyArrayNests = true → 0 < levels) : Value rules levels (91 :: (blank ++ [93])) (.array .nil)
  | array {levels : Nat} {before text tail behind : List UInt8} {value : Node Number} {rest : Elements Number}
      (blankBefore : AllBlank before) (isValue : Value rules levels text value)
      (isTail : ElementsTail rules levels tail rest) (blankBehind : AllBlank behind) :
      Value rules (levels + 1) (91 :: (before ++ (text ++ (tail ++ (behind ++ [93]))))) (.array (.cons value rest))

inductive MembersTail (rules : Rules Number) : Nat → List UInt8 → Members Number → Prop where
  | nil {levels : Nat} : MembersTail rules levels [] .nil
  | cons {levels : Nat} {before behind body between after text tail key : List UInt8} {value : Node Number}
      {rest : Members Number} (blankBefore : AllBlank before) (blankBehind : AllBlank behind)
      (chars : Chars rules.unicode body key) (blankBetween : AllBlank between) (blankAfter : AllBlank after)
      (isValue : Value rules levels text value) (isTail : MembersTail rules levels tail rest) :
      MembersTail rules levels
        (before ++ 44 :: (behind ++ (quoted body ++ (between ++ 58 :: (after ++ (text ++ tail))))))
        (.cons key value rest)

inductive ElementsTail (rules : Rules Number) : Nat → List UInt8 → Elements Number → Prop where
  | nil {levels : Nat} : ElementsTail rules levels [] .nil
  | cons {levels : Nat} {before behind text tail : List UInt8} {value : Node Number} {rest : Elements Number}
      (blankBefore : AllBlank before) (blankBehind : AllBlank behind) (isValue : Value rules levels text value)
      (isTail : ElementsTail rules levels tail rest) :
      ElementsTail rules levels (before ++ 44 :: (behind ++ (text ++ tail))) (.cons value rest)

end

/-- `JSON-text = ws value ws`. -/
def IsText (rules : Rules Number) (levels : Nat) (text : List UInt8) (node : Node Number) : Prop :=
  ∃ before value behind, text = before ++ (value ++ behind) ∧ AllBlank before ∧ AllBlank behind ∧
    Value rules levels value node

end

theorem Chars.mono {unicode unicode' : List UInt8 → Option (List UInt8)} {body out : List UInt8}
    (more : ∀ mem character, unicode mem = some character → unicode' mem = some character)
    (chars : Chars unicode body out) : Chars unicode' body out := by
  induction chars with
  | nil => exact .nil
  | plain visible notQuote notBackslash _ ih => exact .plain visible notQuote notBackslash ih
  | escape escaped _ ih => exact .escape escaped ih
  | unicode length escaped _ ih => exact .unicode length (more _ _ escaped) ih

section
variable {Number Number' : Type} {rules : Rules Number} {rules' : Rules Number'}

/-- What `rules` takes, `rules'` takes. -/
structure Rules.Loosens (rules : Rules Number) (rules' : Rules Number') : Prop where
  more : ∀ mem character, rules.unicode mem = some character → rules'.unicode mem = some character
  numbers : ∀ octets value, rules.number octets value → ∃ value', rules'.number octets value'
  nests : rules'.emptyArrayNests = true → rules.emptyArrayNests = true

mutual

theorem Value.mono (loosens : rules.Loosens rules') {levels : Nat} {text : List UInt8} :
    (node : Node Number) → Value rules levels text node → ∃ node', Value rules' levels text node'
  | .true, .true => ⟨.true, .true⟩
  | .false, .false => ⟨.false, .false⟩
  | .null, .null => ⟨.null, .null⟩
  | .number value, .number isNumber denotes =>
    (loosens.numbers _ value denotes).elim fun _ denotes' => ⟨_, .number isNumber denotes'⟩
  | .string _, .string chars => ⟨_, .string (chars.mono loosens.more)⟩
  | .object .nil, .emptyObject isBlank => ⟨_, .emptyObject isBlank⟩
  | .object (.cons _ value rest), .object before chars between after isValue isTail behind => by
    obtain ⟨value', isValue'⟩ := Value.mono loosens value isValue
    obtain ⟨rest', isTail'⟩ := MembersTail.mono loosens rest isTail
    exact ⟨_, .object before (chars.mono loosens.more) between after isValue' isTail' behind⟩
  | .array .nil, .emptyArray isBlank room => ⟨_, .emptyArray isBlank fun nest => room (loosens.nests nest)⟩
  | .array (.cons value rest), .array before isValue isTail behind => by
    obtain ⟨value', isValue'⟩ := Value.mono loosens value isValue
    obtain ⟨rest', isTail'⟩ := ElementsTail.mono loosens rest isTail
    exact ⟨_, .array before isValue' isTail' behind⟩

theorem MembersTail.mono (loosens : rules.Loosens rules') {levels : Nat} {text : List UInt8} :
    (members : Members Number) → MembersTail rules levels text members → ∃ members', MembersTail rules' levels text members'
  | .nil, .nil => ⟨.nil, .nil⟩
  | .cons _ value rest, .cons before behind chars between after isValue isTail => by
    obtain ⟨value', isValue'⟩ := Value.mono loosens value isValue
    obtain ⟨rest', isTail'⟩ := MembersTail.mono loosens rest isTail
    exact ⟨_, .cons before behind (chars.mono loosens.more) between after isValue' isTail'⟩

theorem ElementsTail.mono (loosens : rules.Loosens rules') {levels : Nat} {text : List UInt8} :
    (elements : Elements Number) → ElementsTail rules levels text elements →
      ∃ elements', ElementsTail rules' levels text elements'
  | .nil, .nil => ⟨.nil, .nil⟩
  | .cons value rest, .cons before behind isValue isTail => by
    obtain ⟨value', isValue'⟩ := Value.mono loosens value isValue
    obtain ⟨rest', isTail'⟩ := ElementsTail.mono loosens rest isTail
    exact ⟨_, .cons before behind isValue' isTail'⟩

end

end

end Yaz.Json
