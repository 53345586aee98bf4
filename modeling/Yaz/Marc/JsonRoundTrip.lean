import Yaz.Json.Truncated
import Yaz.Marc.JsonFormat
import Yaz.Marc.Numbers

/-! A record that is written as JSON is read again, where each data field has subfields, and the tree of a text is read where
no list is missing that the reader looks into.
-/

set_option autoImplicit false

open List

variable {indicatorLength : Nat}

namespace Yaz.Json
open Yaz.Comstack (ascii)

section
variable {Number : Type}

def Members.ofList : List (List UInt8 × Node Number) → Members Number
  | [] => .nil
  | (key, value) :: pairs => .cons key value (Members.ofList pairs)

def Elements.ofList : List (Node Number) → Elements Number
  | [] => .nil
  | value :: values => .cons value (Elements.ofList values)

theorem Members.toList_ofList (pairs : List (List UInt8 × Node Number)) : (Members.ofList pairs).toList = pairs := by
  induction pairs with
  | nil => rfl
  | cons _ _ ih => rw [Members.ofList, Members.toList, ih]

theorem Elements.toList_ofList (values : List (Node Number)) : (Elements.ofList values).toList = values := by
  induction values with
  | nil => rfl
  | cons _ _ ih => rw [Elements.ofList, Elements.toList, ih]

end

theorem blank_ascii {chars : List Char} (all : (chars.map fun c => UInt8.ofNat c.toNat).all isBlank = true) :
    AllBlank (ascii (String.ofList chars)) := by
  rw [Comstack.ascii_ofList]
  exact all_eq_true.mp all

end Yaz.Json

namespace Yaz.Marc
open Yaz.Comstack
open Yaz.Http (cString decimal)
open Yaz.Json (Chars Value MembersTail ElementsTail IsText quoted AllBlank blank_ascii allBlank_nil chars_written codeRules unicodeEscape
  Leads Cut leads_written cut_written jsonParse_cut)

/-! ### Links -/

section
variable {Number : Type}

/-- The array of each member `subfields` has elements, and none is an object without members. -/
def SubfieldsLinked (pairs : List (List UInt8 × Json.Node Number)) : Prop :=
  ∀ key elements, (key, Json.Node.array elements) ∈ pairs → cString key = ascii "subfields" →
    elements.toList ≠ [] ∧ Json.Node.object .nil ∉ elements.toList

def FieldLinked (value : Json.Node Number) : Prop :=
  value ≠ .object .nil ∧ ∀ members, value = .object members → SubfieldsLinked members.toList

def Linked (n : Json.Node Number) : Prop :=
  ∀ members, n = .object members → ∀ key elements, (key, Json.Node.array elements) ∈ members.toList → cString key = ascii "fields" →
    ∀ pairs, Json.Node.object pairs ∈ elements.toList → ∀ pair ∈ pairs.toList, FieldLinked pair.2

theorem parseSubfieldValues_isSome (values : List (Json.Node Number)) :
    (parseSubfieldValues values).isSome = true ↔ Json.Node.object .nil ∉ values := by
  induction values with
  | nil => simp [parseSubfieldValues]
  | cons value _ ih =>
    cases value with
    | object members =>
      cases members with
      | nil => simp [parseSubfieldValues]
      | cons => simp [parseSubfieldValues, ih]
    | _ => simp [parseSubfieldValues, ih]

theorem parseSubfields_isSome (elements : Json.Elements Number) :
    (parseSubfields elements).isSome = true ↔ elements.toList ≠ [] ∧ Json.Node.object .nil ∉ elements.toList := by
  cases elements with
  | nil => simp [parseSubfields, Json.Elements.toList]
  | cons =>
    rw [parseSubfields, parseSubfieldValues_isSome]
    simp [Json.Elements.toList]

theorem bind_append_isSome {α : Type} {first rest : Option (List α)} :
    (do let one ← first; let more ← rest; return one ++ more : Option (List α)).isSome = true ↔
      first.isSome = true ∧ rest.isSome = true := by
  cases first <;> cases rest <;> simp

theorem forall_arrays_cons {name key : List UInt8} {value : Json.Node Number} {pairs : List (List UInt8 × Json.Node Number)}
    {holds : Json.Elements Number → Prop} :
    (∀ key' elements, (key', Json.Node.array elements) ∈ (key, value) :: pairs → cString key' = name → holds elements) ↔
      (∀ elements, value = .array elements → cString key = name → holds elements) ∧
        ∀ key' elements, (key', Json.Node.array elements) ∈ pairs → cString key' = name → holds elements := by
  constructor
  · intro all
    refine ⟨?_, fun key' elements inside => all key' elements (mem_cons_of_mem _ inside)⟩
    rintro elements rfl
    exact all key elements mem_cons_self
  · rintro ⟨first, rest⟩ key' elements inside
    rcases mem_cons.mp inside with same | inside
    · obtain ⟨rfl, isArray⟩ := Prod.mk.inj same
      exact first elements isArray.symm
    · exact rest key' elements inside

theorem memberSubfields_isSome (pairs : List (List UInt8 × Json.Node Number)) :
    (memberSubfields pairs).isSome = true ↔ SubfieldsLinked pairs := by
  induction pairs with
  | nil => simp [memberSubfields, SubfieldsLinked]
  | cons pair _ ih =>
    obtain ⟨key, value⟩ := pair
    rw [SubfieldsLinked, forall_arrays_cons]
    cases value with
    | array =>
      rw [memberSubfields]
      by_cases named : cString key = ascii "subfields"
      · rw [if_pos named, bind_append_isSome, parseSubfields_isSome, ih]
        simp [named, SubfieldsLinked]
      · rw [if_neg named, ih]
        simp [named, SubfieldsLinked]
    | _ => simp [memberSubfields, ih, SubfieldsLinked]

variable (indicatorLength : Nat)

theorem parseField_isSome (key : List UInt8) (value : Json.Node Number) :
    (parseField indicatorLength key value).isSome = true ↔ FieldLinked value := by
  cases value with
  | object members =>
    cases members with
    | nil => simp [parseField, FieldLinked]
    | cons first value rest =>
      have same := memberSubfields_isSome (Json.Members.cons first value rest).toList
      have linked : FieldLinked (.object (.cons first value rest)) ↔ SubfieldsLinked (Json.Members.cons first value rest).toList := by
        constructor
        · intro both
          exact both.2 _ rfl
        · intro linked
          refine ⟨by simp, ?_⟩
          intro members is
          cases Json.Node.object.inj is
          exact linked
      rw [parseField, linked, ← same]
      cases memberSubfields (Json.Members.cons first value rest).toList <;> simp
  | _ => simp [parseField, FieldLinked]

theorem parsePairs_isSome (pairs : List (List UInt8 × Json.Node Number)) :
    (parsePairs indicatorLength pairs).isSome = true ↔ ∀ pair ∈ pairs, FieldLinked pair.2 := by
  induction pairs with
  | nil => simp [parsePairs]
  | cons pair _ ih =>
    rw [parsePairs, bind_append_isSome, parseField_isSome, ih, forall_mem_cons]

theorem parseFieldValues_isSome (values : List (Json.Node Number)) :
    (parseFieldValues indicatorLength values).isSome = true ↔
      ∀ pairs, Json.Node.object pairs ∈ values → ∀ pair ∈ pairs.toList, FieldLinked pair.2 := by
  induction values with
  | nil => simp [parseFieldValues]
  | cons value _ ih =>
    cases value with
    | object members =>
      rw [parseFieldValues, bind_append_isSome, parsePairs_isSome, ih]
      constructor
      · rintro ⟨first, rest⟩ pairs inside
        rcases mem_cons.mp inside with same | inside
        · cases Json.Node.object.inj same
          exact first
        · exact rest pairs inside
      · intro all
        exact ⟨all members mem_cons_self, fun pairs inside => all pairs (mem_cons_of_mem _ inside)⟩
    | _ => simp [parseFieldValues, ih]

def FieldsLinked (pairs : List (List UInt8 × Json.Node Number)) : Prop :=
  ∀ key elements, (key, Json.Node.array elements) ∈ pairs → cString key = ascii "fields" →
    ∀ fieldPairs, Json.Node.object fieldPairs ∈ elements.toList → ∀ pair ∈ fieldPairs.toList, FieldLinked pair.2

theorem parseFieldArrays_isSome (pairs : List (List UInt8 × Json.Node Number)) :
    (parseFieldArrays indicatorLength pairs).isSome = true ↔ FieldsLinked pairs := by
  induction pairs with
  | nil => simp [parseFieldArrays, FieldsLinked]
  | cons pair _ ih =>
    obtain ⟨key, value⟩ := pair
    rw [FieldsLinked, forall_arrays_cons]
    cases value with
    | array =>
      rw [parseFieldArrays]
      by_cases named : cString key = ascii "fields"
      · rw [if_pos named, bind_append_isSome, parseFieldValues_isSome, ih]
        simp [named, FieldsLinked]
      · rw [if_neg named, ih]
        simp [named, FieldsLinked]
    | _ => simp [parseFieldArrays, ih, FieldsLinked]

theorem readJsonNode_isSome (n : Json.Node Number) : (readJsonNode n).isSome = true ↔ Linked n := by
  cases n with
  | object members =>
    have linked : Linked (.object members) ↔ FieldsLinked members.toList := by
      constructor
      · intro all
        exact all members rfl
      · intro linked members' is
        cases Json.Node.object.inj is
        exact linked
    rw [linked, ← parseFieldArrays_isSome (setLeader ((jsonLeader members.toList).getD fakeLeader)).1.indicatorLength, readJsonNode]
    dsimp only
    cases parseFieldArrays (setLeader ((jsonLeader members.toList).getD fakeLeader)).1.indicatorLength members.toList <;> rfl
  | _ => simp [readJsonNode, Linked]

end

def codeLength (identifierLength : Nat) : Nat := if 2 < identifierLength then identifierLength - 1 else 1

section
variable {Number : Type}

def subfieldTree (identifierLength : Nat) (s : List UInt8) : Json.Node Number :=
  .object (.cons (s.take (codeLength identifierLength)) (.string (s.drop (codeLength identifierLength))) .nil)

def indicatorPairs : (i : Nat) → (indicator : List UInt8) → List (List UInt8 × Json.Node Number)
  | _, [] => []
  | i, c :: indicator => (ascii "ind" ++ decimal (i + 1), .string [c]) :: indicatorPairs (i + 1) indicator

def fieldTree (identifierLength : Nat) : Node → Json.Node Number
  | .controlfield tag data => .object (.cons tag (.string data) .nil)
  | .datafield tag indicator subfields =>
    .object (.cons tag
      (.object (.cons (ascii "subfields") (.array (Json.Elements.ofList (subfields.map (subfieldTree identifierLength))))
        (Json.Members.ofList (indicatorPairs 0 indicator)))) .nil)
  | _ => .null

def recordTree (identifierLength : Nat) (leader : List UInt8) (fs : List Node) : Json.Node Number :=
  .object (.cons (ascii "leader") (.string leader)
    (.cons (ascii "fields") (.array (Json.Elements.ofList (fs.map (fieldTree identifierLength)))) .nil))

end

def IsJsonSubfield (s : List UInt8) : Prop := ∃ code data, s = code :: data ∧ code ≠ 0 ∧ code ≤ 127 ∧ 0 ∉ data

variable {s : List UInt8}

theorem IsJsonSubfield.noNul (is : IsJsonSubfield s) : 0 ∉ s := by
  obtain ⟨code, data, rfl, notNul, -, noNul⟩ := is
  rw [mem_cons, not_or]
  exact ⟨Ne.symm notNul, noNul⟩

def JsonField (indicatorLength : Nat) : Node → Prop
  | .controlfield tag data => 0 ∉ tag ∧ 0 ∉ data
  | .datafield tag indicator subfields =>
    0 ∉ tag ∧ indicator.length = indicatorLength ∧ (∀ c ∈ indicator, c ≠ 0 ∧ c ≤ 127) ∧ ∀ s ∈ subfields, IsJsonSubfield s
  | _ => False

def CodesFit (identifierLength : Nat) : Node → Prop
  | .datafield _ _ subfields => ∀ s ∈ subfields, codeLength identifierLength ≤ s.length
  | _ => True

def HasSubfields : Node → Prop
  | .datafield _ _ subfields => subfields ≠ []
  | _ => True

structure JsonRecord (leader : List UInt8) (fs : List Node) : Prop where
  length : leader.length = 24
  ascii : ∀ c ∈ leader, c ≠ 0 ∧ c ≤ 127
  fields : ∀ n ∈ fs, JsonField (setLeader leader).1.indicatorLength n

theorem getSubfieldLen_code {code : UInt8} (low : code ≤ 127) (rest : List UInt8) (identifierLength : Nat) :
    getSubfieldLen (code :: rest) identifierLength = codeLength identifierLength := by
  rw [getSubfieldLen, codeLength, cdataOneCharacter_ascii low]

variable {identifierLength : Nat}

theorem writeJsonSubfield_eq (is : IsJsonSubfield s) (beyond : List UInt8 → List UInt8)
    (fits : codeLength identifierLength ≤ s.length) :
    writeJsonSubfield beyond identifierLength s =
      ascii "          \x7b\n            \"" ++ jsonWrite (s.take (codeLength identifierLength)) ++ ascii "\": \"" ++
        jsonWrite (s.drop (codeLength identifierLength)) ++ ascii "\"\n          \x7d" := by
  have noNul := is.noNul
  obtain ⟨code, data, rfl, -, low, -⟩ := is
  have len : getSubfieldLen (code :: data ++ 0 :: beyond (code :: data)) identifierLength = codeLength identifierLength :=
    getSubfieldLen_code low _ _
  have dropped : cString ((code :: data ++ 0 :: beyond (code :: data)).drop (codeLength identifierLength)) =
      (code :: data).drop (codeLength identifierLength) := by
    rw [drop_append_of_le_length fits]
    exact cString_append_nul (fun inside => noNul (mem_of_mem_drop inside)) _
  rw [writeJsonSubfield, len, take_append_of_le_length fits, dropped]

theorem writeJsonIndicators_cons (rounds i : Nat) {c : UInt8} (low : c ≤ 127) (indicator : List UInt8) :
    writeJsonIndicators (rounds + 1) i (c :: indicator) =
      ascii ",\n        \"ind" ++ decimal (i + 1) ++ ascii "\": \"" ++ jsonWrite [c] ++ ascii "\"" ++
        writeJsonIndicators rounds (i + 1) indicator := by
  rw [writeJsonIndicators, cdataOneCharacter_ascii low, take_succ_cons, take_zero, drop_succ_cons, drop_zero]

/-! ### The text of a record -/

section
variable {Number : Type} {number : List UInt8 → Number → Prop}

theorem chars_plain {octets : List UInt8} (all : octets.all (fun c => 32 ≤ c.toNat && c != 34 && c != 92) = true) :
    Chars unicodeEscape octets octets := by
  induction octets with
  | nil => exact .nil
  | cons _ _ ih =>
    simp only [all_cons, Bool.and_eq_true, decide_eq_true_eq, bne_iff_ne] at all
    exact .plain all.1.1.1 all.1.1.2 all.1.2 (ih all.2)

variable (levels : Nat)

theorem subfield_value (noNul : 0 ∉ s) (identifierLength : Nat) :
    Value (codeRules number) (levels + 1)
      (ascii "\x7b\n            \"" ++ jsonWrite (s.take (codeLength identifierLength)) ++ ascii "\": \"" ++
        jsonWrite (s.drop (codeLength identifierLength)) ++ ascii "\"\n          \x7d")
      (subfieldTree identifierLength s) := by
  have code : Chars unicodeEscape (jsonWrite (s.take (codeLength identifierLength))) (s.take (codeLength identifierLength)) :=
    chars_written fun inside => noNul (mem_of_mem_take inside)
  have data : Chars unicodeEscape (jsonWrite (s.drop (codeLength identifierLength))) (s.drop (codeLength identifierLength)) :=
    chars_written fun inside => noNul (mem_of_mem_drop inside)
  have before : AllBlank (ascii "\n            ") := blank_ascii rfl
  have after : AllBlank (ascii " ") := blank_ascii rfl
  have behind : AllBlank (ascii "\n          ") := blank_ascii rfl
  have whole : Value (codeRules number) (levels + 1) _ (subfieldTree identifierLength s) :=
    .object before code allBlank_nil after (.string data) .nil behind
  have parts : ∀ code data : List UInt8,
      ascii "\x7b\n            \"" ++ code ++ ascii "\": \"" ++ data ++ ascii "\"\n          \x7d" =
        123 :: (ascii "\n            " ++ (quoted code ++ ([] ++ 58 :: (ascii " " ++ (quoted data ++ ([] ++
          (ascii "\n          " ++ [125]))))))) := by
    intro code data
    simp only [quoted, append_assoc, cons_append, nil_append]
    repeat rw [ascii_ofList]
    rfl
  rw [parts]
  exact whole

variable {subfields : List (List UInt8)}

theorem subfields_tail (valid : ∀ s ∈ subfields, IsJsonSubfield s) (beyond : List UInt8 → List UInt8)
    (fit : ∀ s ∈ subfields, codeLength identifierLength ≤ s.length) :
    ElementsTail (codeRules number) (levels + 1) (writeJsonSubfields beyond identifierLength (ascii ",\n") subfields)
      (Json.Elements.ofList (subfields.map (subfieldTree identifierLength))) := by
  induction subfields with
  | nil => exact .nil
  | cons s subfields ih =>
    rw [forall_mem_cons] at valid fit
    have behind : AllBlank (ascii "\n          ") := blank_ascii rfl
    have whole : ElementsTail (codeRules number) (levels + 1) _
        (Json.Elements.ofList ((s :: subfields).map (subfieldTree identifierLength))) :=
      .cons allBlank_nil behind (subfield_value levels valid.1.noNul identifierLength) (ih valid.2 fit.2)
    rw [writeJsonSubfields, writeJsonSubfield_eq valid.1 beyond fit.1]
    simp only [append_assoc] at whole ⊢
    repeat rw [ascii_ofList] at whole
    repeat rw [ascii_ofList]
    exact whole

theorem subfields_value (valid : ∀ s ∈ subfields, IsJsonSubfield s)
    (beyond : List UInt8 → List UInt8) (fit : ∀ s ∈ subfields, codeLength identifierLength ≤ s.length) :
    Value (codeRules number) (levels + 2)
      (ascii "[\n" ++ writeJsonSubfields beyond identifierLength [] subfields ++ ascii "\n        ]")
      (.array (Json.Elements.ofList (subfields.map (subfieldTree identifierLength)))) := by
  cases subfields with
  | nil =>
    have blank : AllBlank (ascii "\n\n        ") := blank_ascii rfl
    exact .emptyArray blank fun _ => Nat.succ_pos _
  | cons s subfields =>
    rw [forall_mem_cons] at valid fit
    have before : AllBlank (ascii "\n          ") := blank_ascii rfl
    have behind : AllBlank (ascii "\n        ") := blank_ascii rfl
    have whole : Value (codeRules number) (levels + 2) _
        (.array (Json.Elements.ofList ((s :: subfields).map (subfieldTree identifierLength)))) :=
      .array before (subfield_value levels valid.1.noNul identifierLength) (subfields_tail levels valid.2 beyond fit.2) behind
    rw [writeJsonSubfields, writeJsonSubfield_eq valid.1 beyond fit.1]
    simp only [append_assoc] at whole ⊢
    repeat rw [ascii_ofList] at whole
    repeat rw [ascii_ofList]
    exact whole

variable {i : Nat}

theorem decimal_digit (small : i < 9) : decimal (i + 1) = [UInt8.ofNat (49 + i)] := by
  rw [decimal, if_pos (by omega), show 48 + (i + 1) = 49 + i by omega]

theorem chars_indicator (small : i < 9) :
    Chars unicodeEscape (ascii "ind" ++ decimal (i + 1)) (ascii "ind" ++ decimal (i + 1)) := by
  have all : ∀ i < 9, (ascii "ind" ++ [UInt8.ofNat (49 + i)]).all (fun c => 32 ≤ c.toNat && c != 34 && c != 92) = true := by decide
  rw [decimal_digit small]
  exact chars_plain (all i small)

variable {indicator : List UInt8}

theorem indicators_tail (small : i + indicator.length ≤ 9)
    (valid : ∀ c ∈ indicator, c ≠ 0 ∧ c ≤ 127) :
    MembersTail (codeRules number) levels (writeJsonIndicators indicator.length i indicator)
      (Json.Members.ofList (indicatorPairs i indicator)) := by
  induction indicator generalizing i with
  | nil => exact .nil
  | cons c indicator ih =>
    rw [forall_mem_cons] at valid
    rw [length_cons] at small
    have behind : AllBlank (ascii "\n        ") := blank_ascii rfl
    have after : AllBlank (ascii " ") := blank_ascii rfl
    have written : Chars unicodeEscape (jsonWrite [c]) [c] := chars_written (by simpa using Ne.symm valid.1.1)
    have key : Chars (codeRules number).unicode (ascii "ind" ++ decimal (i + 1)) (ascii "ind" ++ decimal (i + 1)) :=
      chars_indicator (by omega)
    have whole : MembersTail (codeRules number) levels _ (Json.Members.ofList (indicatorPairs i (c :: indicator))) :=
      .cons allBlank_nil behind key allBlank_nil after (.string written) (ih (by omega) valid.2)
    rw [length_cons, writeJsonIndicators_cons _ _ valid.1.2]
    simp only [quoted, append_assoc, cons_append, nil_append] at whole ⊢
    repeat rw [ascii_ofList] at whole
    repeat rw [ascii_ofList]
    exact whole

variable (number) in
theorem field_value (small : indicatorLength ≤ 9) {n : Node} (valid : JsonField indicatorLength n)
    (beyond : List UInt8 → List UInt8) (fit : CodesFit identifierLength n) :
    ∃ text, writeJsonField beyond identifierLength n = ascii "\n    " ++ text ∧
      Value (codeRules number) (levels + 4) text (fieldTree identifierLength n) := by
  have before : AllBlank (ascii "\n      ") := blank_ascii rfl
  have inner : AllBlank (ascii "\n        ") := blank_ascii rfl
  have after : AllBlank (ascii " ") := blank_ascii rfl
  have behind : AllBlank (ascii "\n    ") := blank_ascii rfl
  cases n with
  | comment => cases valid
  | leader => cases valid
  | controlfield tag data =>
    have key : Chars (codeRules number).unicode (jsonWrite tag) tag := chars_written valid.1
    have whole : Value (codeRules number) (levels + 4) _ (fieldTree identifierLength (.controlfield tag data)) :=
      .object before key allBlank_nil after (.string (chars_written valid.2)) .nil behind
    refine ⟨_, ?_, whole⟩
    rw [writeJsonField, cString_eq_self valid.1, cString_eq_self valid.2]
    simp only [quoted, append_assoc, cons_append, nil_append]
    repeat rw [ascii_ofList]
    rfl
  | datafield tag indicator subfields =>
    obtain ⟨tagNoNul, length, codes, areSubfields⟩ := valid
    have indicatorNoNul : 0 ∉ indicator := fun inside => (codes 0 inside).1 rfl
    have key : Chars (codeRules number).unicode (jsonWrite tag) tag := chars_written tagNoNul
    have name : Chars (codeRules number).unicode (ascii "subfields") (ascii "subfields") :=
      chars_plain (by rw [ascii_ofList]; decide)
    have members : Value (codeRules number) (levels + 3) _
        (.object (.cons (ascii "subfields") (.array (Json.Elements.ofList (subfields.map (subfieldTree identifierLength))))
          (Json.Members.ofList (indicatorPairs 0 indicator)))) :=
      .object inner name allBlank_nil after (subfields_value levels areSubfields beyond fit)
        (indicators_tail (levels + 2) (by omega) codes) before
    have whole : Value (codeRules number) (levels + 4) _ (fieldTree identifierLength (.datafield tag indicator subfields)) :=
      .object before key allBlank_nil after members .nil behind
    refine ⟨_, ?_, whole⟩
    rw [writeJsonField, cString_eq_self tagNoNul, cString_eq_self indicatorNoNul]
    simp only [quoted, append_assoc, cons_append, nil_append]
    repeat rw [ascii_ofList]
    rfl

theorem isField_of_jsonField {n : Node} (valid : JsonField indicatorLength n) : n.isField = true := by
  cases n with
  | comment => cases valid
  | leader => cases valid
  | controlfield => rfl
  | datafield => rfl

variable (number) in
theorem fields_tail (small : indicatorLength ≤ 9) {fs : List Node}
    (valid : ∀ n ∈ fs, JsonField indicatorLength n) (beyond : List UInt8 → List UInt8)
    (fit : ∀ n ∈ fs, CodesFit identifierLength n) :
    ∃ text, writeJsonFields beyond identifierLength false fs = text ++ ascii "\n  " ∧
      ElementsTail (codeRules number) (levels + 4) text (Json.Elements.ofList (fs.map (fieldTree identifierLength))) := by
  induction fs with
  | nil => exact ⟨[], rfl, .nil⟩
  | cons n _ ih =>
    rw [forall_mem_cons] at valid fit
    obtain ⟨tail, written, isTail⟩ := ih valid.2 fit.2
    obtain ⟨text, fieldWritten, isValue⟩ := field_value number levels small valid.1 beyond fit.1
    have behind : AllBlank (ascii "\n    ") := blank_ascii rfl
    refine ⟨_, ?_, .cons allBlank_nil behind isValue isTail⟩
    rw [writeJsonFields, if_pos (isField_of_jsonField valid.1), written, fieldWritten]
    simp only [append_assoc, cons_append, nil_append]
    repeat rw [ascii_ofList]
    rfl

variable (number) in
theorem fields_value (small : indicatorLength ≤ 9) {fs : List Node}
    (valid : ∀ n ∈ fs, JsonField indicatorLength n) (beyond : List UInt8 → List UInt8)
    (fit : ∀ n ∈ fs, CodesFit identifierLength n) :
    Value (codeRules number) (levels + 5) (ascii "[" ++ writeJsonFields beyond identifierLength true fs ++ ascii "]")
      (.array (Json.Elements.ofList (fs.map (fieldTree identifierLength)))) := by
  cases fs with
  | nil => exact .emptyArray allBlank_nil fun _ => Nat.succ_pos _
  | cons n fs =>
    rw [forall_mem_cons] at valid fit
    obtain ⟨tail, written, isTail⟩ := fields_tail number levels small valid.2 beyond fit.2
    obtain ⟨text, fieldWritten, isValue⟩ := field_value number levels small valid.1 beyond fit.1
    have before : AllBlank (ascii "\n    ") := blank_ascii rfl
    have behind : AllBlank (ascii "\n  ") := blank_ascii rfl
    have whole : Value (codeRules number) (levels + 5) _ (.array (Json.Elements.ofList ((n :: fs).map (fieldTree identifierLength)))) :=
      .array before isValue isTail behind
    rw [writeJsonFields, if_pos (isField_of_jsonField valid.1), written, fieldWritten]
    simp only [append_assoc] at whole ⊢
    repeat rw [ascii_ofList] at whole
    repeat rw [ascii_ofList]
    exact whole

def recordText (beyond : List UInt8 → List UInt8) (identifierLength : Nat) (leader : List UInt8) (fs : List Node) : List UInt8 :=
  ascii "\x7b\n  \"leader\": \"" ++ (jsonWrite leader ++ (ascii "\",\n  \"fields\": [" ++
    (writeJsonFields beyond identifierLength true fs ++ ascii "]\n\x7d\n")))

variable {leader : List UInt8}

theorem writeJson_eq (beyond : List UInt8 → List UInt8) {fs : List Node} (areFields : ∀ n ∈ fs, n.isField = true)
    (noNul : 0 ∉ leader) :
    writeJson beyond (.leader leader :: fs) = (atoiNCheck ((leader.drop 11).take 1)).map fun identifierLength =>
      recordText beyond identifierLength leader fs := by
  have noLeader : ∀ leaderOf : Node → Option (List UInt8), (∀ n, n.isField = true → leaderOf n = none) → fs.filterMap leaderOf = [] := by
    intro leaderOf none
    rw [filterMap_eq_nil_iff]
    exact fun n inside => none n (areFields n inside)
  rw [writeJson, filterMap_cons]
  rw [noLeader _ (by intro n isField; cases n <;> first | rfl | cases isField), getLast?_singleton]
  rw [Option.bind_eq_bind, Option.bind_some]
  cases atoiNCheck ((leader.drop 11).take 1) with
  | none => rfl
  | some =>
    simp only [Option.bind_eq_bind, Option.bind_some, Option.pure_def, cString_eq_self noNul, writeJsonFields, Node.isField,
      Bool.false_eq_true, if_false, append_assoc, Option.map_some]
    rfl

theorem record_parsed (strtod : List UInt8 → Nat × Number) {fs : List Node} (record : JsonRecord leader fs)
    (beyond : List UInt8 → List UInt8) (fit : ∀ n ∈ fs, CodesFit identifierLength n) :
    Json.jsonParse strtod (recordText beyond identifierLength leader fs) = some (recordTree identifierLength leader fs) := by
  have noNul : 0 ∉ leader := fun inside => (record.ascii 0 inside).1 rfl
  have before : AllBlank (ascii "\n  ") := blank_ascii rfl
  have after : AllBlank (ascii " ") := blank_ascii rfl
  have behind : AllBlank (ascii "\n") := blank_ascii rfl
  have name : Chars (codeRules fun _ (_ : Number) => False).unicode (ascii "leader") (ascii "leader") :=
      chars_plain (by rw [ascii_ofList]; decide)
  have name' : Chars (codeRules fun _ (_ : Number) => False).unicode (ascii "fields") (ascii "fields") :=
      chars_plain (by rw [ascii_ofList]; decide)
  have isValue := fields_value (fun _ (_ : Number) => False) 994 (setLeader_indicatorLength_le leader) record.fields beyond fit
  have whole : Value (codeRules fun _ (_ : Number) => False) Json.maxLevel _ (recordTree identifierLength leader fs) :=
    .object before name allBlank_nil after (.string (chars_written noNul))
      (.cons allBlank_nil before name' allBlank_nil after isValue .nil) behind
  have isText : IsText (codeRules fun _ (_ : Number) => False) Json.maxLevel _ (recordTree identifierLength leader fs) :=
    ⟨[], _, ascii "\n", rfl, allBlank_nil, behind, whole⟩
  -- there are no numbers in the tree, and `strtod` is never asked
  have parsed : Json.jsonParse strtod _ = _ := isText.parsed fun _ _ _ _ impossible _ => impossible.elim
  rw [← parsed, recordText]
  congr 1
  simp only [quoted, append_assoc, cons_append, nil_append]
  repeat rw [ascii_ofList]
  rfl

/-! ### What is read of the tree -/

theorem cString_indicator (small : i < 9) :
    cString (ascii "ind" ++ decimal (i + 1)) = ascii "ind" ++ [UInt8.ofNat (49 + i)] := by
  have noNul : ∀ i < 9, 0 ∉ ascii "ind" ++ [UInt8.ofNat (49 + i)] := by decide
  rw [decimal_digit small, cString_eq_self (noNul i small)]

theorem indicatorOf_cons (key : List UInt8) (value : Json.Node Number) (pairs : List (List UInt8 × Json.Node Number)) (j : Nat) :
    indicatorOf ((key, value) :: pairs) j =
      (if (cString key).take 3 = ascii "ind" ∧ ((cString key).getD 3 0).toNat = 48 + j then (nodeString value).getD [] else []) ++
        indicatorOf pairs j := by
  rw [indicatorOf, filterMap_cons, indicatorOf]
  split
  next none =>
    dsimp only at none
    split at none
    next named => rw [if_pos named, none, Option.getD_none, nil_append]
    next other => rw [if_neg other, nil_append]
  next octets some =>
    dsimp only at some
    split at some
    next named => rw [if_pos named, some, Option.getD_some, flatten_cons]
    · cases some

theorem indicatorOf_pair {j : Nat} (small : i < 9) {c : UInt8} (notNul : c ≠ 0) (pairs : List (List UInt8 × Json.Node Number)) :
    indicatorOf ((ascii "ind" ++ decimal (i + 1), .string [c]) :: pairs) j = (if j = i + 1 then [c] else []) ++ indicatorOf pairs j := by
  have digit : ((ascii "ind" ++ [UInt8.ofNat (49 + i)]).getD 3 0).toNat = 49 + i := by
    have all : ∀ i < 9, ((ascii "ind" ++ [UInt8.ofNat (49 + i)]).getD 3 0).toNat = 49 + i := by decide
    exact all i small
  have read : (nodeString (Json.Node.string [c] : Json.Node Number)).getD [] = [c] := by
    rw [nodeString, cString_eq_self (by simpa using Ne.symm notNul)]
    rfl
  rw [indicatorOf_cons, cString_indicator small, digit, read]
  by_cases same : j = i + 1
  · rw [if_pos same, if_pos ⟨rfl, by omega⟩]
  · rw [if_neg same, if_neg fun both => same (by omega)]

theorem indicatorOf_low {j : Nat} (low : j ≤ i) (small : i + indicator.length ≤ 9) (noNul : 0 ∉ indicator) :
    indicatorOf (indicatorPairs i indicator : List (List UInt8 × Json.Node Number)) j = [] := by
  induction indicator generalizing i with
  | nil => rfl
  | cons _ _ ih =>
    rw [mem_cons, not_or] at noNul
    rw [length_cons] at small
    rw [indicatorPairs, indicatorOf_pair (by omega) (Ne.symm noNul.1), if_neg (by omega), nil_append]
    exact ih (by omega) (by omega) noNul.2

variable (Number) in
theorem indicators_read (small : i + indicator.length ≤ 9) (noNul : 0 ∉ indicator) :
    ((List.range' i indicator.length).map fun j =>
      indicatorOf (indicatorPairs i indicator : List (List UInt8 × Json.Node Number)) (j + 1)).flatten =
      indicator := by
  induction indicator generalizing i with
  | nil => rfl
  | cons c indicator ih =>
    rw [mem_cons, not_or] at noNul
    rw [length_cons] at small
    rw [length_cons, List.range'_succ, map_cons, flatten_cons, indicatorPairs,
      indicatorOf_pair (by omega) (Ne.symm noNul.1), if_pos rfl, indicatorOf_low (by omega) (by omega) noNul.2]
    have behind : ((List.range' (i + 1) indicator.length).map fun j =>
        indicatorOf ((ascii "ind" ++ decimal (i + 1), .string [c]) ::
          indicatorPairs (i + 1) indicator : List (List UInt8 × Json.Node Number)) (j + 1)) =
        (List.range' (i + 1) indicator.length).map fun j =>
          indicatorOf (indicatorPairs (i + 1) indicator : List (List UInt8 × Json.Node Number)) (j + 1) := by
      apply map_congr_left
      intro j inside
      have above := (mem_range'_1.mp inside).1
      rw [indicatorOf_pair (by omega) (Ne.symm noNul.1), if_neg (by omega), nil_append]
    rw [behind, ih (by omega) noNul.2]
    rfl

variable (Number) in
theorem subfields_read (noNul : ∀ s ∈ subfields, 0 ∉ s) (identifierLength : Nat) :
    parseSubfieldValues (subfields.map (subfieldTree identifierLength : List UInt8 → Json.Node Number)) = some subfields := by
  induction subfields with
  | nil => rfl
  | cons s _ ih =>
    rw [forall_mem_cons] at noNul
    have code : 0 ∉ s.take (codeLength identifierLength) := fun inside => noNul.1 (mem_of_mem_take inside)
    have data : 0 ∉ s.drop (codeLength identifierLength) := fun inside => noNul.1 (mem_of_mem_drop inside)
    rw [map_cons, subfieldTree, parseSubfieldValues, ih noNul.2]
    simp only [Option.map_some, Json.Members.toList, pairSubfields, filterMap_cons, filterMap_nil, nodeString, cString_eq_self code,
      cString_eq_self data, take_append_drop, cons_append, nil_append]

theorem memberSubfields_indicators (i : Nat) (indicator : List UInt8) :
    memberSubfields (indicatorPairs i indicator : List (List UInt8 × Json.Node Number)) = some [] := by
  induction indicator generalizing i with
  | nil => rfl
  | cons _ _ ih =>
    rw [indicatorPairs, memberSubfields, ih]
    exact fun _ _ is => nomatch is

variable (Number) in
theorem field_read (small : indicatorLength ≤ 9) {n : Node} (valid : JsonField indicatorLength n)
    (some : HasSubfields n) (identifierLength : Nat) :
    ∃ members, (fieldTree identifierLength n : Json.Node Number) = .object members ∧
      parsePairs indicatorLength members.toList = .some [n] := by
  cases n with
  | comment => cases valid
  | leader => cases valid
  | controlfield =>
    refine ⟨_, rfl, ?_⟩
    rw [Json.Members.toList, Json.Members.toList, parsePairs, parseField, cString_eq_self valid.1, cString_eq_self valid.2]
    rfl
  | datafield _ indicator subfields =>
    obtain ⟨tagNoNul, length, codes, areSubfields⟩ := valid
    have noNul : 0 ∉ indicator := fun inside => (codes 0 inside).1 rfl
    have values : parseSubfields (Json.Elements.ofList (subfields.map (subfieldTree identifierLength : List UInt8 → Json.Node Number))) =
        .some subfields := by
      have read := subfields_read Number (fun s inside => (areSubfields s inside).noNul) identifierLength
      cases subfields with
      | nil => exact absurd rfl some
      | cons =>
        rw [map_cons, Json.Elements.ofList, parseSubfields, Json.Elements.toList, Json.Elements.toList_ofList]
        exact read
    have name : cString (ascii "subfields") = ascii "subfields" := cString_eq_self (by decide)
    refine ⟨_, rfl, ?_⟩
    have members : memberSubfields
      ((ascii "subfields", Json.Node.array (Json.Elements.ofList (subfields.map (subfieldTree identifierLength)))) ::
        (indicatorPairs 0 indicator : List (List UInt8 × Json.Node Number))) = .some subfields := by
      rw [memberSubfields, if_pos name, values, memberSubfields_indicators]
      exact congrArg Option.some (append_nil _)
    have indicators : ((List.range indicatorLength).map fun j => indicatorOf
        ((ascii "subfields", Json.Node.array (Json.Elements.ofList (subfields.map (subfieldTree identifierLength)))) ::
          (indicatorPairs 0 indicator : List (List UInt8 × Json.Node Number))) (j + 1)).flatten = indicator := by
      have read := indicators_read Number (i := 0) (by omega) noNul
      rw [range_eq_range', ← length]
      refine Eq.trans (congrArg List.flatten (map_congr_left fun j _ => ?_)) read
      rw [indicatorOf_cons, if_neg fun both => ?_, nil_append]
      exact absurd both.1 (by decide)
    rw [Json.Members.toList, Json.Members.toList, parsePairs, parseField, Json.Members.toList, Json.Members.toList_ofList,
      members, indicators, cString_eq_self tagNoNul]
    rfl

variable (Number) in
theorem fields_read (small : indicatorLength ≤ 9) {fs : List Node} (valid : ∀ n ∈ fs, JsonField indicatorLength n)
    (some : ∀ n ∈ fs, HasSubfields n) (identifierLength : Nat) :
    parseFieldValues indicatorLength (fs.map (fieldTree identifierLength : Node → Json.Node Number)) = .some fs := by
  induction fs with
  | nil => rfl
  | cons _ _ ih =>
    rw [forall_mem_cons] at valid some
    obtain ⟨members, is, read⟩ := field_read Number small valid.1 some.1 identifierLength
    rw [map_cons, is, parseFieldValues, read, ih valid.2 some.2]
    rfl

variable (Number) in
theorem field_empty {n : Node} (none : ¬HasSubfields n) (identifierLength : Nat) :
    ∃ members, (fieldTree identifierLength n : Json.Node Number) = .object members ∧ ∃ pair ∈ members.toList, ¬FieldLinked pair.2 := by
  cases n with
  | datafield _ _ subfields =>
    have empty : subfields = [] := Classical.byContradiction none
    subst empty
    refine ⟨_, rfl, _, mem_cons_self, fun linked => ?_⟩
    have whole := linked.2 _ rfl (ascii "subfields") .nil mem_cons_self (by decide)
    exact whole.1 rfl
  | _ => exact absurd trivial none

theorem readJsonNode_record {fs : List Node} (record : JsonRecord leader fs) (some : ∀ n ∈ fs, HasSubfields n)
    (identifierLength : Nat) :
    readJsonNode (recordTree identifierLength leader fs : Json.Node Number) = .some (0, (setLeader leader).2 ++ fs) := by
  have noNul : cString leader = leader := cString_eq_self fun inside => (record.ascii 0 inside).1 rfl
  have found : jsonLeader [(ascii "leader", .string leader),
      (ascii "fields", (.array (Json.Elements.ofList (fs.map (fieldTree identifierLength))) : Json.Node Number))] = .some leader := by
    rw [jsonLeader, filterMap_cons, filterMap_cons, filterMap_nil]
    dsimp only
    rw [if_pos (by decide), if_neg (by decide), nodeString, noNul, Option.filter_some, if_pos (by rw [record.length]; rfl)]
    rfl
  have arrays : ∀ indicatorLength, parseFieldArrays indicatorLength [(ascii "leader", .string leader),
      (ascii "fields", (.array (Json.Elements.ofList (fs.map (fieldTree identifierLength))) : Json.Node Number))] =
      parseFieldValues indicatorLength (fs.map (fieldTree identifierLength : Node → Json.Node Number)) := by
    intro indicatorLength
    rw [parseFieldArrays, parseFieldArrays, if_pos (by decide), parseFieldArrays, Json.Elements.toList_ofList]
    · cases parseFieldValues indicatorLength (fs.map (fieldTree identifierLength : Node → Json.Node Number)) with
      | none => rfl
      | some nodes => exact congrArg Option.some (append_nil nodes)
    · exact fun _ _ is => nomatch is
  have read := fields_read Number (setLeader_indicatorLength_le leader) record.fields some identifierLength
  rw [recordTree, readJsonNode]
  simp only [Json.Members.toList, found, Option.isSome_some, if_true, Option.getD_some, arrays, read, Option.bind_eq_bind, Option.bind_some,
    Option.pure_def, nil_append]

theorem readJsonNode_empty {fs : List Node} {n : Node} (inside : n ∈ fs) (none : ¬HasSubfields n) (identifierLength : Nat) :
    readJsonNode (recordTree identifierLength leader fs : Json.Node Number) = .none := by
  have notLinked : ¬Linked (recordTree identifierLength leader fs : Json.Node Number) := by
    intro linked
    obtain ⟨members, is, pair, isPair, missing⟩ := field_empty Number none identifierLength
    have isField : Json.Node.object members ∈
      (Json.Elements.ofList (fs.map (fieldTree identifierLength : Node → Json.Node Number))).toList := by
      rw [Json.Elements.toList_ofList, ← is]
      exact mem_map_of_mem inside
    exact missing (linked _ rfl (ascii "fields") _ (mem_cons_of_mem _ mem_cons_self) (by decide) members isField pair isPair)
  rw [← readJsonNode_isSome] at notLinked
  exact Option.not_isSome_iff_eq_none.mp notLinked

end

/-! ### Codes that do not fit -/

theorem leads_subfield (is : IsJsonSubfield s) (beyond : List UInt8 → List UInt8)
    (fits : codeLength identifierLength ≤ s.length) : Leads .outside (writeJsonSubfield beyond identifierLength s) .outside := by
  have noNul := is.noNul
  have code : Leads .inside (jsonWrite (s.take (codeLength identifierLength))) .inside :=
    leads_written fun inside => noNul (mem_of_mem_take inside)
  have data : Leads .inside (jsonWrite (s.drop (codeLength identifierLength))) .inside :=
    leads_written fun inside => noNul (mem_of_mem_drop inside)
  have opens : Leads .outside (ascii "          \x7b\n            \"") .inside := by rw [ascii_ofList]; decide
  have between : Leads .inside (ascii "\": \"") .inside := by rw [ascii_ofList]; decide
  have closes : Leads .inside (ascii "\"\n          \x7d") .outside := by rw [ascii_ofList]; decide
  rw [writeJsonSubfield_eq is beyond fits]
  exact (((opens.append code).append between).append data).append closes

theorem cut_subfield (is : IsJsonSubfield s) (beyond : List UInt8 → List UInt8)
    (long : s.length < codeLength identifierLength) : Cut .outside (writeJsonSubfield beyond identifierLength s) := by
  obtain ⟨code, data, rfl, -, low, -⟩ := is
  have len : getSubfieldLen (code :: data ++ 0 :: beyond (code :: data)) identifierLength = codeLength identifierLength :=
    getSubfieldLen_code low _ _
  have nul : 0 ∈ (code :: data ++ 0 :: beyond (code :: data)).take (codeLength identifierLength) := by
    have more : codeLength identifierLength - (code :: data).length =
      codeLength identifierLength - (code :: data).length - 1 + 1 := by omega
    rw [take_append, more, take_succ_cons]
    exact mem_append_right _ mem_cons_self
  have opens : Leads .outside (ascii "          \x7b\n            \"") .inside := by rw [ascii_ofList]; decide
  rw [writeJsonSubfield, len]
  exact (((Cut.behind opens (cut_written nul)).append _).append _).append _

theorem leads_subfields {subfields : List (List UInt8)} (valid : ∀ s ∈ subfields, IsJsonSubfield s)
    (beyond : List UInt8 → List UInt8) (fit : ∀ s ∈ subfields, codeLength identifierLength ≤ s.length) (sep : List UInt8)
      (separates : Leads .outside sep .outside) :
    Leads .outside (writeJsonSubfields beyond identifierLength sep subfields) .outside := by
  induction subfields generalizing sep with
  | nil => exact ⟨not_mem_nil, rfl⟩
  | cons _ _ ih =>
    rw [forall_mem_cons] at valid fit
    exact (separates.append (leads_subfield valid.1 beyond fit.1)).append (ih valid.2 fit.2 _ (by decide))

theorem cut_subfields {subfields : List (List UInt8)} (valid : ∀ s ∈ subfields, IsJsonSubfield s)
    (beyond : List UInt8 → List UInt8) (long : ¬∀ s ∈ subfields, codeLength identifierLength ≤ s.length) (sep : List UInt8)
    (separates : Leads .outside sep .outside) : Cut .outside (writeJsonSubfields beyond identifierLength sep subfields) := by
  induction subfields generalizing sep with
  | nil => exact absurd (fun s inside => absurd inside not_mem_nil) long
  | cons s _ ih =>
    rw [forall_mem_cons] at valid long
    by_cases fits : codeLength identifierLength ≤ s.length
    · have isCut := ih valid.2 (fun all => long ⟨fits, all⟩) (ascii ",\n") (by decide)
      exact Cut.behind (separates.append (leads_subfield valid.1 beyond fits)) isCut
    · exact (Cut.behind separates (cut_subfield valid.1 beyond (by omega))).append _

theorem leads_indicators {i : Nat} {indicator : List UInt8} (small : i + indicator.length ≤ 9) (valid : ∀ c ∈ indicator, c ≠ 0 ∧ c ≤ 127) :
    Leads .outside (writeJsonIndicators indicator.length i indicator) .outside := by
  induction indicator generalizing i with
  | nil => exact ⟨not_mem_nil, rfl⟩
  | cons c _ ih =>
    rw [forall_mem_cons] at valid
    rw [length_cons] at small
    have opens : Leads .outside (ascii ",\n        \"ind") .inside := by rw [ascii_ofList]; decide
    have digit : Leads .inside (decimal (i + 1)) .inside := by
      have all : ∀ i < 9, Leads .inside [UInt8.ofNat (49 + i)] .inside := by decide
      rw [decimal_digit (by omega)]
      exact all i (by omega)
    have between : Leads .inside (ascii "\": \"") .inside := by rw [ascii_ofList]; decide
    have character : Leads .inside (jsonWrite [c]) .inside := leads_written (by simpa using Ne.symm valid.1.1)
    have closes : Leads .inside (ascii "\"") .outside := by decide
    rw [length_cons, writeJsonIndicators_cons _ _ valid.1.2]
    exact ((((opens.append digit).append between).append character).append closes).append (ih (by omega) valid.2)

theorem leads_field (small : indicatorLength ≤ 9) {n : Node} (valid : JsonField indicatorLength n)
    (beyond : List UInt8 → List UInt8) (fit : CodesFit identifierLength n) :
    Leads .outside (writeJsonField beyond identifierLength n) .outside := by
  have opens : Leads .outside (ascii "\n    \x7b\n      \"") .inside := by rw [ascii_ofList]; decide
  cases n with
  | comment => cases valid
  | leader => cases valid
  | controlfield =>
    have between : Leads .inside (ascii "\": \"") .inside := by rw [ascii_ofList]; decide
    have closes : Leads .inside (ascii "\"\n    \x7d") .outside := by rw [ascii_ofList]; decide
    rw [writeJsonField, cString_eq_self valid.1, cString_eq_self valid.2]
    exact (((opens.append (leads_written valid.1)).append between).append (leads_written valid.2)).append closes
  | datafield _ indicator subfields =>
    obtain ⟨tagNoNul, length, codes, areSubfields⟩ := valid
    have indicatorNoNul : 0 ∉ indicator := fun inside => (codes 0 inside).1 rfl
    have begins : Leads .inside (ascii "\": \x7b\n        \"subfields\": [\n") .outside := by rw [ascii_ofList]; decide
    have ends : Leads .outside (ascii "\n        ]") .outside := by rw [ascii_ofList]; decide
    have closes : Leads .outside (ascii "\n      \x7d") .outside := by rw [ascii_ofList]; decide
    have closes' : Leads .outside (ascii "\n    \x7d") .outside := by rw [ascii_ofList]; decide
    have list := leads_subfields areSubfields beyond fit [] (by decide)
    rw [writeJsonField, cString_eq_self tagNoNul, cString_eq_self indicatorNoNul]
    exact ((((((opens.append (leads_written tagNoNul)).append begins).append list).append ends).append
      (leads_indicators (by omega) codes)).append closes).append closes'

theorem cut_field {n : Node} (valid : JsonField indicatorLength n) (beyond : List UInt8 → List UInt8)
    (long : ¬CodesFit identifierLength n) : Cut .outside (writeJsonField beyond identifierLength n) := by
  cases n with
  | datafield _ _ subfields =>
    obtain ⟨tagNoNul, -, -, areSubfields⟩ := valid
    have opens : Leads .outside (ascii "\n    \x7b\n      \"") .inside := by rw [ascii_ofList]; decide
    have begins : Leads .inside (ascii "\": \x7b\n        \"subfields\": [\n") .outside := by rw [ascii_ofList]; decide
    have isCut := cut_subfields areSubfields beyond long [] (by decide)
    rw [writeJsonField, cString_eq_self tagNoNul]
    exact ((((Cut.behind ((opens.append (leads_written tagNoNul)).append begins) isCut).append _).append _).append _).append _
  | _ => exact absurd trivial long

theorem cut_fields (small : indicatorLength ≤ 9) {fs : List Node} (valid : ∀ n ∈ fs, JsonField indicatorLength n)
    (beyond : List UInt8 → List UInt8) (long : ¬∀ n ∈ fs, CodesFit identifierLength n) (first : Bool) :
    Cut .outside (writeJsonFields beyond identifierLength first fs) := by
  induction fs generalizing first with
  | nil => exact absurd (fun n inside => absurd inside not_mem_nil) long
  | cons n _ ih =>
    rw [forall_mem_cons] at valid long
    have comma : Leads .outside (if first = true then [] else ascii ",") .outside := by cases first <;> decide
    rw [writeJsonFields, if_pos (isField_of_jsonField valid.1)]
    by_cases fit : CodesFit identifierLength n
    · exact Cut.behind (comma.append (leads_field small valid.1 beyond fit)) (ih valid.2 (fun all => long ⟨fit, all⟩) false)
    · exact (Cut.behind comma (cut_field valid.1 beyond fit)).append _

theorem record_cut {Number : Type} (strtod : List UInt8 → Nat × Number) {leader : List UInt8} {fs : List Node}
    (record : JsonRecord leader fs)
    (beyond : List UInt8 → List UInt8) (long : ¬∀ n ∈ fs, CodesFit identifierLength n) :
    Json.jsonParse strtod (cString (recordText beyond identifierLength leader fs)) = none := by
  have noNul : 0 ∉ leader := fun inside => (record.ascii 0 inside).1 rfl
  have opens : Leads .outside (ascii "\x7b\n  \"leader\": \"") .inside := by rw [ascii_ofList]; decide
  have begins : Leads .inside (ascii "\",\n  \"fields\": [") .outside := by rw [ascii_ofList]; decide
  have isCut := cut_fields (setLeader_indicatorLength_le leader) record.fields beyond long true
  obtain ⟨front, behind, whole, leads⟩ :=
    Cut.behind opens (Cut.behind (leads_written noNul) (Cut.behind begins (isCut.append (ascii "]\n\x7d\n"))))
  rw [recordText, show jsonWrite leader = leader.flatMap Json.writeChar from rfl, whole, cString_append_nul leads.1]
  exact jsonParse_cut strtod leads

theorem leads_fields (small : indicatorLength ≤ 9) {fs : List Node} (valid : ∀ n ∈ fs, JsonField indicatorLength n)
    (beyond : List UInt8 → List UInt8) (fit : ∀ n ∈ fs, CodesFit identifierLength n) (first : Bool) :
    Leads .outside (writeJsonFields beyond identifierLength first fs) .outside := by
  induction fs generalizing first with
  | nil =>
    have ends : Leads .outside (ascii "\n  ") .outside := by rw [ascii_ofList]; decide
    cases first with
    | false => exact ends
    | true => exact ⟨not_mem_nil, rfl⟩
  | cons _ _ ih =>
    rw [forall_mem_cons] at valid fit
    have comma : Leads .outside (if first = true then [] else ascii ",") .outside := by cases first <;> decide
    rw [writeJsonFields, if_pos (isField_of_jsonField valid.1)]
    exact (comma.append (leads_field small valid.1 beyond fit.1)).append (ih valid.2 fit.2 false)

theorem record_noNul {leader : List UInt8} {fs : List Node} (record : JsonRecord leader fs) (beyond : List UInt8 → List UInt8)
    (fit : ∀ n ∈ fs, CodesFit identifierLength n) :
    0 ∉ recordText beyond identifierLength leader fs := by
  have noNul : 0 ∉ leader := fun inside => (record.ascii 0 inside).1 rfl
  have opens : Leads .outside (ascii "\x7b\n  \"leader\": \"") .inside := by rw [ascii_ofList]; decide
  have begins : Leads .inside (ascii "\",\n  \"fields\": [") .outside := by rw [ascii_ofList]; decide
  have closes : Leads .outside (ascii "]\n\x7d\n") .outside := by rw [ascii_ofList]; decide
  have list := leads_fields (setLeader_indicatorLength_le leader) record.fields beyond fit true
  exact (opens.append ((leads_written noNul).append (begins.append (list.append closes)))).1

/-- A record comes back from its JSON exactly where nothing in the leader is mended, each data field has subfields and each subfield has the
octets of its code; a tree is read to its end exactly where no null link is followed. -/
theorem json_read_again {Number : Type} (strtod : List UInt8 → Nat × Number) :
    (∀ (beyond : List UInt8 → List UInt8) (leader : List UInt8) (fs : List Node), JsonRecord leader fs →
      ((∃ output tree, writeJson beyond (.leader leader :: fs) = some output ∧ Json.jsonParse strtod (cString output) = some tree ∧
          readJsonNode tree = some (0, .leader leader :: fs)) ↔
        (setLeader leader).2 = [.leader leader] ∧ ∀ n ∈ fs, HasSubfields n ∧ CodesFit (setLeader leader).1.identifierLength n)) ∧
      ∀ tree : Json.Node Number, (readJsonNode tree).isSome = true ↔ Linked tree := by
  constructor
  · intro beyond leader fs record
    have noNul : 0 ∉ leader := fun inside => (record.ascii 0 inside).1 rfl
    have areFields : ∀ n ∈ fs, n.isField = true := fun n inside => isField_of_jsonField (record.fields n inside)
    constructor
    · rintro ⟨output, tree, written, parsed, read⟩
      rw [writeJson_eq beyond areFields noNul] at written
      cases promised : atoiNCheck ((leader.drop 11).take 1) with
      | none =>
        rw [promised] at written
        cases written
      | some identifierLength =>
        rw [promised] at written
        rw [← Option.some.inj written] at parsed
        have fit : ∀ n ∈ fs, CodesFit identifierLength n := by
          apply Classical.byContradiction
          intro long
          rw [record_cut strtod record beyond long] at parsed
          cases parsed
        rw [cString_eq_self (record_noNul record beyond fit), record_parsed strtod record beyond fit] at parsed
        rw [← Option.some.inj parsed] at read
        have some : ∀ n ∈ fs, HasSubfields n := by
          intro n inside
          apply Classical.byContradiction
          intro none
          rw [readJsonNode_empty inside none] at read
          cases read
        rw [readJsonNode_record record some] at read
        have same : (setLeader leader).2 = [.leader leader] := by
          have lists : (setLeader leader).2 ++ fs = [.leader leader] ++ fs := (Prod.mk.inj (Option.some.inj read)).2
          exact append_cancel_right lists
        rw [setLeader_quiet record.length same] at promised
        rw [Option.some.inj promised]
        exact ⟨same, fun n inside => ⟨some n inside, fit n inside⟩⟩
    · rintro ⟨same, all⟩
      have promised := setLeader_quiet record.length same
      have fit : ∀ n ∈ fs, CodesFit (setLeader leader).1.identifierLength n := fun n inside => (all n inside).2
      refine ⟨_, recordTree (setLeader leader).1.identifierLength leader fs,
        (writeJson_eq beyond areFields noNul).trans (congrArg (Option.map _) promised), ?_, ?_⟩
      · rw [cString_eq_self (record_noNul record beyond fit), record_parsed strtod record beyond fit]
      · rw [readJsonNode_record record fun n inside => (all n inside).1, same]
        rfl
  · exact readJsonNode_isSome

def jsonLeaderOctets : List UInt8 := ascii "00084nam a2200049 a 4500"

def jsonFields (subfields : List (List UInt8)) : List Node :=
  [.controlfield (ascii "001") (ascii "42\n"), .datafield (ascii "245") (ascii "1 ") subfields]

theorem jsonFields_read_again :
    (∃ output tree, writeJson (fun _ => []) (.leader jsonLeaderOctets :: jsonFields [ascii "a\"MARC\"", ascii "b"]) = some output ∧
      Json.jsonParse (fun _ => (0, ())) (cString output) = some tree ∧
        readJsonNode tree = some (0, .leader jsonLeaderOctets :: jsonFields [ascii "a\"MARC\"", ascii "b"])) ∧
      ((readJsonNode (.array .nil : Json.Node Unit)).isSome = true ↔ Linked (.array .nil : Json.Node Unit)) := by
  have record : JsonRecord jsonLeaderOctets (jsonFields [ascii "a\"MARC\"", ascii "b"]) := by
    refine ⟨by decide, by decide, ?_⟩
    intro n inside
    simp only [jsonFields, mem_cons, not_mem_nil, or_false] at inside
    rcases inside with rfl | rfl
    · exact ⟨by decide, by decide⟩
    · refine ⟨by decide, by decide, by decide, ?_⟩
      intro s inside
      simp only [mem_cons, not_mem_nil, or_false] at inside
      rcases inside with rfl | rfl
      · exact ⟨97, ascii "\"MARC\"", by decide, by decide, by decide, by decide⟩
      · exact ⟨98, [], by decide, by decide, by decide, by decide⟩
  have both := json_read_again (fun _ => (0, ()))
  refine ⟨(both.1 (fun _ => []) _ _ record).mpr ⟨by decide, ?_⟩, both.2 _⟩
  intro n inside
  simp only [jsonFields, mem_cons, not_mem_nil, or_false] at inside
  rcases inside with rfl | rfl
  · exact ⟨trivial, trivial⟩
  · refine ⟨cons_ne_nil _ _, ?_⟩
    have fit : ∀ s ∈ [ascii "a\"MARC\"", ascii "b"], codeLength (setLeader jsonLeaderOctets).1.identifierLength ≤ s.length := by
      decide
    exact fit

/-- The links that are null: the list of subfields, the pair of a subfield, the pairs of a field. -/
theorem jsonFields_not_read :
    (writeJson (fun _ => []) (.leader jsonLeaderOctets :: jsonFields [])).bind (fun output =>
        (Json.jsonParse (fun _ => (0, ())) (cString output)).map fun tree => (readJsonNode tree).isSome) = some false ∧
      (Json.jsonParse (fun _ => (0, ())) (ascii "\x7b\"fields\":[\x7b\"245\":\x7b\"subfields\":[\x7b\x7d]\x7d\x7d]\x7d")).map
        (fun tree => (readJsonNode tree).isSome) = some false ∧
      (Json.jsonParse (fun _ => (0, ())) (ascii "\x7b\"fields\":[\x7b\"245\":\x7b\x7d\x7d]\x7d")).map
        (fun tree => (readJsonNode tree).isSome) = some false := by
  decide +kernel

end Yaz.Marc
