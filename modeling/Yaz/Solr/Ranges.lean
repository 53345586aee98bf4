import Yaz.Solr.Interference

/-! Which queries for Solr are refused, and written, as their operands are by themselves.

Two comparisons of one index are written as one range. The upper end of it is not looked at as an operand is: neither its truncation nor an
error counts.
-/

set_option autoImplicit false

variable {nested : Bool}

namespace Yaz.Solr
open List
open Yaz.Comstack (ascii)
open Yaz.Pqf (AttributesPlusTerm Operator Rpn Term cString intText)

/-! ### Operands by themselves -/

structure Interval where
  lower : Option (Bool × List UInt8)
  upper : Option (Bool × List UInt8)
  deriving DecidableEq

def Interval.both (first second : Interval) : Interval :=
  { lower := first.lower.or second.lower, upper := first.upper.or second.upper }

def lowerEnd : Option (Bool × List UInt8) → List UInt8
  | none => ascii "[*"
  | some (included, text) => ascii (if included then "[" else "\x7b") ++ text

def upperEnd : Option (Bool × List UInt8) → List UInt8
  | none => ascii "*]"
  | some (included, text) => text ++ ascii (if included then "]" else "\x7d")

def Interval.text (interval : Interval) : List UInt8 := lowerEnd interval.lower ++ ascii " TO " ++ upperEnd interval.upper

def comparison (relation text : List UInt8) : Option Interval :=
  if isLess relation then some { lower := none, upper := some (takesUpper relation, text) }
  else if isGreater relation then some { lower := some (takesLower relation, text), upper := none }
  else none

def truncatedTerm : Term → Int64 → List UInt8
  | .general octets, trunc => emitText octets trunc
  | .characterString octets, trunc => emitText (cString octets) trunc
  | .numeric n, trunc => leading trunc ++ intText n.toInt ++ trailing trunc
  | .null, _ => []

section
variable {Oid : Type} [DecidableEq Oid] (ct : SolrTransform Oid)

def operandText (apt : AttributesPlusTerm Oid) : List UInt8 := truncatedTerm apt.term (getTruncation apt)

def operandInterval (apt : AttributesPlusTerm Oid) : Option Interval :=
  (relationFor ct apt).bind fun relation => comparison relation (operandText apt)

def separate : Rpn Oid → (nested : Bool) → Option (List UInt8)
  | .apt apt, _ => do
    let attr ← (rpn2solrAttr ct apt).toOption
    return attr ++ (operandInterval ct apt).elim (operandText apt) Interval.text
  | .resultSet _, _ => none
  | .complex op s1 s2, nested =>
    match checkRange ct op s1 s2 with
    | some (lower, upper) => do
      let attr ← (rpn2solrAttr ct lower).toOption
      let first ← operandInterval ct lower
      let second ← operandInterval ct upper
      return attr ++ (first.both second).text
    | none => do
      let first ← separate s1 true
      let between ← (operatorText op).toOption
      let second ← separate s2 true
      return (if nested then ascii "(" else []) ++ first ++ between ++ second ++ (if nested then ascii ")" else [])

end

def operands {Oid : Type} : Rpn Oid → List (Rpn Oid)
  | .apt apt => [.apt apt]
  | .resultSet name => [.resultSet name]
  | .complex _ s1 s2 => operands s1 ++ operands s2

section
variable {Oid : Type} [DecidableEq Oid] (ct : SolrTransform Oid)

def Compositional (q : Rpn Oid) : Prop :=
  (∀ operand ∈ operands q, (∃ e, solrTransformRpn2solrWrbuf ct operand = .error e) → ∃ e, solrTransformRpn2solrWrbuf ct q = .error e) ∧
    ∀ out, solrTransformRpn2solrWrbuf ct q = .ok out → separate ct q false = some out

def SupportedTruncation (trunc : Int64) : Prop := (0 ≤ trunc ∧ trunc ≤ 3) ∨ trunc = 100 ∨ trunc = 104

instance (trunc : Int64) : Decidable (SupportedTruncation trunc) := inferInstanceAs (Decidable (_ ∨ _))

/-- An operand has a relation, an index, a truncation and a term that are all supported. -/
structure Supported (apt : AttributesPlusTerm Oid) : Prop where
  relation : (relationFor ct apt).isSome = true
  index : (indexOf ct apt).isSome = true
  truncation : SupportedTruncation (getTruncation apt)
  term : apt.term ≠ .null

instance (apt : AttributesPlusTerm Oid) : Decidable (Supported ct apt) :=
  decidable_of_iff ((relationFor ct apt).isSome = true ∧ (indexOf ct apt).isSome = true ∧ SupportedTruncation (getTruncation apt) ∧
    apt.term ≠ .null) ⟨fun ⟨relation, index, truncation, term⟩ => ⟨relation, index, truncation, term⟩,
      fun ⟨relation, index, truncation, term⟩ => ⟨relation, index, truncation, term⟩⟩

def Refused : Rpn Oid → Prop
  | .apt apt => ¬ Supported ct apt
  | .resultSet _ => True
  | .complex op s1 s2 =>
    match checkRange ct op s1 s2 with
    | some (lower, _) => ¬ Supported ct lower
    | none => Refused s1 ∨ (∃ prox, op = .prox prox) ∨ Refused s2

end

section
variable {Oid : Type} [DecidableEq Oid] {ct : SolrTransform Oid}

theorem emitTerm_ok {term : Term} (supported : term ≠ .null) (trunc : Int64) : ∃ text, emitTerm term trunc = .ok text := by
  cases term with
  | null => exact absurd rfl supported
  | _ => exact ⟨_, rfl⟩

theorem rpn2solrRange_ok_iff {relation1 : List UInt8} {apt : AttributesPlusTerm Oid} {apt2 : Option (AttributesPlusTerm Oid)} :
    (∃ text, rpn2solrRange ct relation1 apt apt2 = .ok text) ↔ apt.term ≠ .null := by
  rw [rpn2solrRange]
  constructor
  · rintro ⟨text, written⟩ null
    rw [null] at written
    cases written
  · intro supported
    obtain ⟨term, emitted⟩ := emitTerm_ok supported (getTruncation apt)
    rw [emitted]
    simp only [bind, Except.bind]
    split_ifs <;> exact ⟨_, rfl⟩

theorem rpn2solrAttr_ok_iff {apt : AttributesPlusTerm Oid} : (∃ text, rpn2solrAttr ct apt = .ok text) ↔ (indexOf ct apt).isSome = true := by
  rw [rpn2solrAttr]
  cases indexOf ct apt with
  | none => simp
  | some =>
    dsimp only
    split_ifs <;> simp

theorem rpn2solrSimple_ok_iff {apt : AttributesPlusTerm Oid} {apt2 : Option (AttributesPlusTerm Oid)} :
    (∃ text, rpn2solrSimple ct apt apt2 = .ok text) ↔ Supported ct apt := by
  constructor
  · rintro ⟨text, written⟩
    obtain ⟨relation, attr, range, related, attrWritten, truncation, rangeWritten, -⟩ := rpn2solrSimple_written written
    exact ⟨by rw [related]; rfl, rpn2solrAttr_ok_iff.mp ⟨attr, attrWritten⟩, truncation, rpn2solrRange_ok_iff.mp ⟨range, rangeWritten⟩⟩
  · intro supported
    obtain ⟨relation1, relation⟩ := Option.isSome_iff_exists.mp supported.relation
    obtain ⟨attrText, attr⟩ := rpn2solrAttr_ok_iff.mpr supported.index
    obtain ⟨rangeText, range⟩ := (@rpn2solrRange_ok_iff _ _ ct relation1 apt apt2).mpr supported.term
    have truncation : (0 ≤ getTruncation apt ∧ getTruncation apt ≤ 3) ∨ getTruncation apt = 100 ∨ getTruncation apt = 104 :=
      supported.truncation
    rw [rpn2solrSimple, relation]
    rw [attr]
    simp only [bind, Except.bind]
    rw [if_pos truncation, range]
    exact ⟨_, rfl⟩

theorem refused_simple_iff {apt : AttributesPlusTerm Oid} {apt2 : Option (AttributesPlusTerm Oid)} :
    (∃ e, rpn2solrSimple ct apt apt2 = .error e) ↔ ¬ Supported ct apt := by
  rw [← @rpn2solrSimple_ok_iff _ _ ct apt apt2]
  cases rpn2solrSimple ct apt apt2 <;> simp

theorem rpn2solrStructure_error_iff (q : Rpn Oid) (nested : Bool) : (∃ e, rpn2solrStructure ct q nested = .error e) ↔ Refused ct q := by
  induction q generalizing nested with
  | apt => exact refused_simple_iff
  | resultSet => exact iff_of_true ⟨_, rfl⟩ trivial
  | complex op s1 s2 ih1 ih2 =>
    rw [rpn2solrStructure, Refused]
    cases checkRange ct op s1 s2 with
    | some => exact refused_simple_iff
    | none =>
      rw [← ih1 true, ← ih2 true]
      cases rpn2solrStructure ct s1 true with
      | error => simp [bind, Except.bind]
      | ok =>
        cases op with
        | prox => simp [operatorText, bind, Except.bind]
        | _ => cases rpn2solrStructure ct s2 true <;> simp [operatorText, bind, Except.bind, pure, Except.pure]

end

/-! ### Truncations -/

def Asterisks (trunc : Int64) : Prop := trunc = 1 ∨ trunc = 2 ∨ trunc = 3

instance (trunc : Int64) : Decidable (Asterisks trunc) := inferInstanceAs (Decidable (_ ∨ _))

/-- A `?` or `#` that is not behind a backslash. -/
def hasWildcard : List UInt8 → Bool
  | [] => false
  | [c] => c = 63 || c = 35
  | c :: d :: rest => if c = 92 then hasWildcard rest else c = 63 || c = 35 || hasWildcard (d :: rest)

theorem emitOctet_congr {trunc : Int64} (truncation : trunc ≠ 104) (c : UInt8) : emitOctet trunc c = emitOctet 0 c := by
  simp [emitOctet, truncation]

theorem emitOctets_congr {trunc : Int64} (truncation : trunc ≠ 104) (octets : List UInt8) :
    emitOctets trunc octets = emitOctets 0 octets := by
  fun_induction emitOctets trunc octets with
  | case1 => rfl
  | case2 c => exact emitOctet_congr truncation c
  | case3 d rest ih => rw [ih, emitOctets, if_pos rfl]
  | case4 c d rest noBackslash ih => rw [ih, emitOctet_congr truncation, emitOctets, if_neg noBackslash]

theorem emitOctet_wildcards {c : UInt8} (plain : (c = 63 || c = 35) = false) : emitOctet 104 c = emitOctet 0 c := by
  simp only [Bool.or_eq_false_iff, decide_eq_false_iff_not] at plain
  simp [emitOctet, plain]

theorem emitOctet_wildcard {c : UInt8} (wildcard : (c = 63 || c = 35) = true) (rest later : List UInt8) :
    emitOctet 0 c ++ rest ≠ emitOctet 104 c ++ later := by
  rcases (Bool.or_eq_true _ _).mp wildcard with is | is
  · rw [of_decide_eq_true is]
    intro same
    cases (List.cons.inj same).1
  · rw [of_decide_eq_true is]
    intro same
    cases (List.cons.inj same).1

theorem emitOctets_wildcards {octets : List UInt8} (plain : hasWildcard octets = false) : emitOctets 104 octets = emitOctets 0 octets := by
  fun_induction hasWildcard octets with
  | case1 => rfl
  | case2 c => exact emitOctet_wildcards plain
  | case3 d rest ih => rw [emitOctets, if_pos rfl, ih plain, emitOctets, if_pos rfl]
  | case4 c d rest noBackslash ih =>
    obtain ⟨one, others⟩ := (Bool.or_eq_false_iff).mp plain
    rw [emitOctets, if_neg noBackslash, emitOctet_wildcards one, ih others, emitOctets, if_neg noBackslash]

theorem emitOctets_wildcard {octets rest later : List UInt8} (same : emitOctets 0 octets ++ rest = emitOctets 104 octets ++ later) :
    hasWildcard octets = false := by
  fun_induction hasWildcard octets with
  | case1 => rfl
  | case2 c =>
    rw [← Bool.not_eq_true]
    intro wildcard
    exact emitOctet_wildcard wildcard rest later same
  | case3 d octets ih =>
    rw [emitOctets, if_pos rfl, emitOctets, if_pos rfl, append_assoc, append_assoc] at same
    exact ih (append_cancel_left same)
  | case4 c d octets noBackslash ih =>
    rw [emitOctets, if_neg noBackslash, emitOctets, if_neg noBackslash, append_assoc, append_assoc] at same
    cases wildcard : (c = 63 || c = 35 : Bool) with
    | true => exact absurd same (emitOctet_wildcard wildcard _ _)
    | false =>
      rw [emitOctet_wildcards wildcard] at same
      rw [Bool.false_or]
      exact ih (append_cancel_left same)

theorem emitOctet_head (c : UInt8) (rest : List UInt8) : (emitOctet 0 c ++ rest).head? ≠ some 42 := by
  rw [emitOctet, if_neg (by simp), if_neg (by simp)]
  split
  · simp
  · next plain =>
    intro star
    cases Option.some.inj star
    exact plain (by decide)

theorem emitOctets_head {octets rest : List UInt8} (noStar : rest.head? ≠ some 42) : (emitOctets 0 octets ++ rest).head? ≠ some 42 := by
  match octets with
  | [] => exact noStar
  | [c] => exact emitOctet_head c rest
  | c :: d :: octets =>
    rw [emitOctets]
    split_ifs with backslash special
    · simp
    · intro star
      cases Option.some.inj star
      exact special (by decide)
    · rw [append_assoc]
      exact emitOctet_head c _

theorem emitText_parts (octets : List UInt8) (trunc : Int64) (rest : List UInt8) : emitText octets trunc ++ rest =
    (if mustQuote octets then ascii "\"" else []) ++
      (leading trunc ++ (emitOctets trunc octets ++ (trailing trunc ++ ((if mustQuote octets then ascii "\"" else []) ++ rest)))) := by
  have star : ascii "*" = [42] := by decide
  simp only [emitText, star, leading, trailing, append_assoc]

theorem emitText_lost {octets rest later : List UInt8} {trunc : Int64} (noStar : rest.head? ≠ some 42)
    (same : emitText octets 0 ++ rest = emitText octets trunc ++ later) :
      ¬ Asterisks trunc ∧ ¬ (trunc = 104 ∧ hasWildcard octets = true) := by
  have closing : ((if mustQuote octets then ascii "\"" else []) ++ rest).head? ≠ some 42 := by
    split
    · intro star
      cases Option.some.inj star
    · exact noStar
  rw [emitText_parts, emitText_parts] at same
  replace same := append_cancel_left same
  have none : leading 0 = [] ∧ trailing 0 = [] := by decide
  rw [none.1, none.2, nil_append, nil_append] at same
  constructor
  · intro asterisks
    have other : trunc ≠ 104 := by
      rcases asterisks with rfl | rfl | rfl <;> decide
    rw [emitOctets_congr other] at same
    by_cases front : trunc = 2 ∨ trunc = 3
    · rw [leading, if_pos front] at same
      apply @emitOctets_head octets _ closing
      rw [same]
      rfl
    · rw [leading, if_neg front, nil_append] at same
      have back : trunc = 1 ∨ trunc = 3 := by
        rcases asterisks with one | two | three
        · exact Or.inl one
        · exact absurd (Or.inl two) front
        · exact Or.inr three
      rw [trailing, if_pos back] at same
      apply closing
      rw [append_cancel_left same]
      rfl
  · rintro ⟨rfl, wildcard⟩
    have plain : leading 104 = [] := by decide
    rw [emitOctets_wildcard same] at wildcard
    cases wildcard

theorem emitText_kept {octets : List UInt8} {trunc : Int64} (noAsterisks : ¬ Asterisks trunc)
    (noWildcards : ¬ (trunc = 104 ∧ hasWildcard octets = true)) : emitText octets 0 = emitText octets trunc := by
  have front : ¬ (trunc = 2 ∨ trunc = 3) := fun is => noAsterisks (Or.inr is)
  have back : ¬ (trunc = 1 ∨ trunc = 3) := fun is => noAsterisks (is.imp id Or.inr)
  have same : emitOctets trunc octets = emitOctets 0 octets := by
    by_cases wildcards : trunc = 104
    · rw [wildcards]
      exact emitOctets_wildcards (Bool.eq_false_iff.mpr fun has => noWildcards ⟨wildcards, has⟩)
    · exact emitOctets_congr wildcards octets
  have noFront : ¬ ((0 : Int64) = 2 ∨ (0 : Int64) = 3) := by decide
  have noBack : ¬ ((0 : Int64) = 1 ∨ (0 : Int64) = 3) := by decide
  rw [emitText, emitText, same, if_neg front, if_neg back, if_neg noFront, if_neg noBack]

theorem intText_lost {n : Int} {trunc : Int64} {rest later : List UInt8} (noStar : rest.head? ≠ some 42)
    (same : intText n ++ rest = leading trunc ++ intText n ++ trailing trunc ++ later) : ¬ Asterisks trunc := by
  intro asterisks
  by_cases front : trunc = 2 ∨ trunc = 3
  · rw [leading, if_pos front] at same
    have head : (intText n ++ rest).head? = some 42 := by
      rw [same]
      rfl
    obtain ⟨c, digits, is⟩ := exists_cons_of_ne_nil (Pqf.intText_ne_nil n)
    rw [is] at head
    cases Option.some.inj head
    exact absurd (is ▸ mem_cons_self) (Pqf.intText_not_mem n (by decide) (by decide))
  · rw [leading, if_neg front, nil_append, append_assoc] at same
    have back : trunc = 1 ∨ trunc = 3 := by
      rcases asterisks with one | two | three
      · exact Or.inl one
      · exact absurd (Or.inl two) front
      · exact Or.inr three
    rw [trailing, if_pos back] at same
    apply noStar
    rw [append_cancel_left same]
    rfl

/-! ### Which queries are written as their operands are -/

def isNumber : Term → Bool
  | .numeric _ => true
  | _ => false

section
variable {Oid : Type}

def OperandKept (apt : AttributesPlusTerm Oid) : Prop :=
  0 ∉ termOctets apt.term ∧ (isNumber apt.term = true → ¬ Asterisks (getTruncation apt))

def UpperKept (apt : AttributesPlusTerm Oid) : Prop :=
  0 ∉ termOctets apt.term ∧ ¬ Asterisks (getTruncation apt) ∧ ¬ (getTruncation apt = 104 ∧ hasWildcard (termOctets apt.term) = true)

variable [DecidableEq Oid] (ct : SolrTransform Oid)

def Kept : Rpn Oid → Prop
  | .apt apt => OperandKept apt
  | .resultSet _ => True
  | .complex op s1 s2 =>
    match checkRange ct op s1 s2 with
    | some (lower, upper) => OperandKept lower ∧ Supported ct upper ∧ UpperKept upper
    | none => Kept s1 ∧ Kept s2

end

theorem truncatedTerm_noNul {term : Term} {trunc : Int64} (noNul : 0 ∉ truncatedTerm term trunc) : 0 ∉ termOctets term := by
  cases term with
  | general =>
    rw [truncatedTerm, emitText_nul] at noNul
    exact noNul
  | characterString octets => exact not_mem_cString octets
  | numeric => exact not_mem_nil
  | null => exact not_mem_nil

theorem emitTerm_tail {term : Term} {trunc : Int64} {text rest later : List UInt8} (emitted : emitTerm term trunc = .ok text)
    (noStar : rest.head? ≠ some 42) (same : text ++ rest = truncatedTerm term trunc ++ later) :
    (isNumber term = true → ¬ Asterisks trunc) ∧ rest = later := by
  cases term with
  | general =>
    cases emitted
    exact ⟨fun number => (Bool.false_ne_true number).elim, append_cancel_left same⟩
  | characterString =>
    cases emitted
    exact ⟨fun number => (Bool.false_ne_true number).elim, append_cancel_left same⟩
  | numeric =>
    cases emitted
    have noAsterisks := intText_lost noStar same
    have front : ¬ (trunc = 2 ∨ trunc = 3) := fun is => noAsterisks (Or.inr is)
    have back : ¬ (trunc = 1 ∨ trunc = 3) := fun is => noAsterisks (is.imp id Or.inr)
    rw [truncatedTerm, leading, if_neg front, trailing, if_neg back, nil_append, append_nil] at same
    exact ⟨fun _ => noAsterisks, append_cancel_left same⟩
  | null => cases emitted

theorem emitTerm_kept {term : Term} {trunc : Int64} {text : List UInt8} (emitted : emitTerm term trunc = .ok text)
    (kept : isNumber term = true → ¬ Asterisks trunc) : text = truncatedTerm term trunc := by
  cases term with
  | general =>
    cases emitted
    rfl
  | characterString =>
    cases emitted
    rfl
  | numeric =>
    cases emitted
    have front : ¬ (trunc = 2 ∨ trunc = 3) := fun is => kept rfl (Or.inr is)
    have back : ¬ (trunc = 1 ∨ trunc = 3) := fun is => kept rfl (is.imp id Or.inr)
    rw [truncatedTerm, leading, if_neg front, trailing, if_neg back, nil_append, append_nil]
  | null => cases emitted

theorem upperTerm_tail {term : Term} {trunc : Int64} {text rest later : List UInt8} (emitted : emitTerm term 0 = .ok text)
    (noStar : rest.head? ≠ some 42) (same : text ++ rest = truncatedTerm term trunc ++ later) :
    ¬ Asterisks trunc ∧ ¬ (trunc = 104 ∧ hasWildcard (termOctets term) = true) := by
  cases term with
  | general =>
    cases emitted
    exact emitText_lost noStar same
  | characterString =>
    cases emitted
    exact emitText_lost noStar same
  | numeric =>
    cases emitted
    exact ⟨intText_lost noStar same, fun ⟨_, impossible⟩ => Bool.false_ne_true impossible⟩
  | null => cases emitted

theorem upperTerm_kept {term : Term} {trunc : Int64} {text : List UInt8} (emitted : emitTerm term 0 = .ok text)
    (noAsterisks : ¬ Asterisks trunc) (noWildcards : ¬ (trunc = 104 ∧ hasWildcard (termOctets term) = true)) :
    text = truncatedTerm term trunc := by
  cases term with
  | general =>
    cases emitted
    exact emitText_kept noAsterisks noWildcards
  | characterString =>
    cases emitted
    exact emitText_kept noAsterisks noWildcards
  | numeric n =>
    cases emitted
    exact @emitTerm_kept (.numeric n) trunc _ rfl fun _ => noAsterisks
  | null => cases emitted

theorem comparison_around (relation : List UInt8) : ∃ front back, (0 ∉ front) ∧ (0 ∉ back) ∧
    (∀ rest : List UInt8, rest.head? ≠ some 42 → (back ++ rest).head? ≠ some 42) ∧
    ∀ text, (comparison relation text).elim text Interval.text = front ++ (text ++ back) := by
  have brackets : ascii "[" = [91] ∧ ascii "]" = [93] ∧ ascii "\x7b" = [123] ∧ ascii "\x7d" = [125] := by decide
  by_cases less : isLess relation = true
  · refine ⟨ascii "[* TO ", ascii (if takesUpper relation then "]" else "\x7d"), by decide, by split <;> decide, ?_, ?_⟩
    · intro rest _
      split <;> simp [brackets]
    · intro text
      rw [comparison, if_pos less]
      rfl
  · by_cases greater : isGreater relation = true
    · refine ⟨ascii (if takesLower relation then "[" else "\x7b"), ascii " TO *]", by split <;> decide, by decide, ?_, ?_⟩
      · intro rest _ star
        cases Option.some.inj star
      · intro text
        rw [comparison, if_neg less, if_pos greater, Option.elim_some, Interval.text, lowerEnd, upperEnd, append_assoc, append_assoc]
        rfl
    · refine ⟨[], [], not_mem_nil, not_mem_nil, fun _ noStar => noStar, ?_⟩
      intro text
      rw [comparison, if_neg less, if_neg greater, append_nil]
      rfl

section
variable {Oid : Type} [DecidableEq Oid] {ct : SolrTransform Oid}

theorem rpn2solrRange_alone {relation range : List UInt8} {apt : AttributesPlusTerm Oid}
    (written : rpn2solrRange ct relation apt none = .ok range) :
    ∃ text, emitTerm apt.term (getTruncation apt) = .ok text ∧ range = (comparison relation text).elim text Interval.text := by
  rw [rpn2solrRange] at written
  cases emitted : emitTerm apt.term (getTruncation apt) with
  | error =>
    rw [emitted] at written
    cases written
  | ok text =>
    rw [emitted] at written
    refine ⟨text, rfl, ?_⟩
    simp only [bind, Except.bind] at written
    by_cases less : isLess relation = true
    · rw [if_pos less] at written
      rw [comparison, if_pos less, ← Except.ok.inj written, Option.elim_some, Interval.text, lowerEnd, upperEnd, ← append_assoc]
      rfl
    · rw [if_neg less] at written
      by_cases greater : isGreater relation = true
      · rw [if_pos greater] at written
        rw [comparison, if_neg less, if_pos greater, ← Except.ok.inj written]
        rfl
      · rw [if_neg greater] at written
        rw [comparison, if_neg less, if_neg greater, ← Except.ok.inj written]
        rfl

theorem rpn2solrRange_ends {relation range relation2 : List UInt8} {apt upper : AttributesPlusTerm Oid}
    (greater : isGreater relation = true)
    (related : relationFor ct upper = some relation2) (written : rpn2solrRange ct relation apt (some upper) = .ok range) :
    ∃ text, emitTerm apt.term (getTruncation apt) = .ok text ∧
      range = ascii (if takesLower relation then "[" else "\x7b") ++ (text ++ (ascii " TO " ++
        ((emitTerm upper.term 0).toOption.getD [] ++ ascii (if takesUpper relation2 then "]" else "\x7d")))) := by
  rw [rpn2solrRange] at written
  cases emitted : emitTerm apt.term (getTruncation apt) with
  | error =>
    rw [emitted] at written
    cases written
  | ok text =>
    rw [emitted] at written
    refine ⟨text, rfl, ?_⟩
    simp only [bind, Except.bind, isLess_of_isGreater greater, Bool.false_eq_true, if_false, greater, if_true] at written
    rw [← Except.ok.inj written, rpn2solrUpper, related, Option.elim_some, append_assoc, append_assoc]

theorem separate_ends {lower upper : AttributesPlusTerm Oid} (range : IsRange ct lower upper) : ∃ relation relation2,
    relationFor ct lower = some relation ∧ isGreater relation = true ∧ relationFor ct upper = some relation2 ∧ isLess relation2 = true ∧
    ∃ first second, operandInterval ct lower = some first ∧ operandInterval ct upper = some second ∧
      (first.both second).text = ascii (if takesLower relation then "[" else "\x7b") ++ (operandText lower ++ (ascii " TO " ++
        (operandText upper ++ ascii (if takesUpper relation2 then "]" else "\x7d")))) := by
  obtain ⟨relation, related, greater⟩ := range.greater
  obtain ⟨relation2, related2, less⟩ := range.less
  refine ⟨relation, relation2, related, greater, related2, less, { lower := some (takesLower relation, operandText lower), upper := none },
    { lower := none, upper := some (takesUpper relation2, operandText upper) }, ?_, ?_, ?_⟩
  · rw [operandInterval, related, Option.bind_some, comparison, isLess_of_isGreater greater, if_neg Bool.false_ne_true, if_pos greater]
  · rw [operandInterval, related2, Option.bind_some, comparison, if_pos less]
  · rw [Interval.text, Interval.both, Option.or_none, Option.none_or, lowerEnd, upperEnd, append_assoc, append_assoc]

variable {out w u v : List UInt8}

theorem operand_tail {apt : AttributesPlusTerm Oid} (written : rpn2solrSimple ct apt none = .ok out)
    (sep : separate ct (.apt apt) false = some w) (noNul : 0 ∉ w) (noStar : u.head? ≠ some 42) (same : out ++ u = w ++ v) :
    OperandKept apt ∧ u = v := by
  obtain ⟨relation, attr, range, related, attrWritten, -, rangeWritten, rfl⟩ := rpn2solrSimple_written written
  obtain ⟨text, emitted, rfl⟩ := rpn2solrRange_alone rangeWritten
  obtain ⟨front, back, noFront, noBack, closes, around⟩ := comparison_around relation
  have whole : w = attr ++ (front ++ (operandText apt ++ back)) := by
    rw [separate, attrWritten] at sep
    rw [← Option.some.inj sep, operandInterval, related, Option.bind_some, around]
  rw [whole] at noNul same
  simp only [mem_append, not_or] at noNul
  have termNoNul : 0 ∉ termOctets apt.term := truncatedTerm_noNul noNul.2.2.1
  have noNulOut : 0 ∉ attr ++ (front ++ (text ++ back)) := by
    simp only [mem_append, not_or]
    exact ⟨noNul.1, noFront, emitTerm_noNul termNoNul emitted, noBack⟩
  rw [around, Pqf.cString_eq_self noNulOut] at same
  simp only [append_assoc] at same
  replace same := append_cancel_left (append_cancel_left same)
  obtain ⟨kept, rest⟩ := emitTerm_tail emitted (closes u noStar) same
  exact ⟨⟨termNoNul, kept⟩, append_cancel_left rest⟩

variable {out : List UInt8}

theorem operand_kept {apt : AttributesPlusTerm Oid} (written : rpn2solrSimple ct apt none = .ok out)
    (kept : OperandKept apt) (nested : Bool) : separate ct (.apt apt) nested = some out := by
  obtain ⟨relation, attr, range, related, attrWritten, -, rangeWritten, rfl⟩ := rpn2solrSimple_written written
  obtain ⟨text, emitted, rfl⟩ := rpn2solrRange_alone rangeWritten
  obtain ⟨front, back, noFront, noBack, -, around⟩ := comparison_around relation
  have noNul : 0 ∉ attr ++ (front ++ (text ++ back)) := by
    simp only [mem_append, not_or]
    exact ⟨rpn2solrAttr_noNul attrWritten, noFront, emitTerm_noNul kept.1 emitted, noBack⟩
  rw [around, Pqf.cString_eq_self noNul, separate, attrWritten, operandInterval, related, Option.bind_some, around, operandText,
    ← emitTerm_kept emitted kept.2]
  rfl

section
variable {op : Operator} {s1 s2 : Rpn Oid} {lower upper : AttributesPlusTerm Oid} (range : checkRange ct op s1 s2 = some (lower, upper))
include range

theorem range_tail (supported : Supported ct upper)
    (written : rpn2solrSimple ct lower (some upper) = .ok out) (sep : separate ct (.complex op s1 s2) nested = some w) (noNul : 0 ∉ w)
    (same : out ++ u = w ++ v) : (OperandKept lower ∧ UpperKept upper) ∧ u = v := by
  obtain ⟨relation, relation2, related, greater, related2, less, first, second, isFirst, isSecond, both⟩ :=
    separate_ends (checkRange_ends range).2.2
  obtain ⟨found, attr, ends, isFound, attrWritten, -, endsWritten, rfl⟩ := rpn2solrSimple_written written
  cases related.symm.trans isFound
  obtain ⟨text, emitted, rfl⟩ := rpn2solrRange_ends greater related2 endsWritten
  obtain ⟨upperText, upperEmitted⟩ := emitTerm_ok supported.term 0
  have whole : w = attr ++ (first.both second).text := by
    rw [separate, range] at sep
    simp only [attrWritten, isFirst, isSecond] at sep
    exact (Option.some.inj sep).symm
  have brackets : ascii "[" = [91] ∧ ascii "]" = [93] ∧ ascii "\x7b" = [123] ∧ ascii "\x7d" = [125] := by decide
  generalize closing : ascii (if takesUpper relation2 = true then "]" else "\x7d") = close at *
  have closes (rest : List UInt8) : (close ++ rest).head? ≠ some 42 ∧ 0 ∉ close := by
    rw [← closing]
    split <;> simp [brackets]
  generalize opening : ascii (if takesLower relation = true then "[" else "\x7b") = opens at *
  have noOpen : 0 ∉ opens := by
    rw [← opening]
    split <;> decide
  have noTo : 0 ∉ ascii " TO " := by decide
  have spaced (rest : List UInt8) : (ascii " TO " ++ rest).head? ≠ some 42 := by
    intro star
    cases Option.some.inj star
  rw [whole, both] at noNul same
  simp only [mem_append, not_or] at noNul
  obtain ⟨noAttr, -, noLower, -, noUpper, -⟩ := noNul
  have lowerNoNul : 0 ∉ termOctets lower.term := truncatedTerm_noNul noLower
  have upperNoNul : 0 ∉ termOctets upper.term := truncatedTerm_noNul noUpper
  rw [upperEmitted] at same
  have noNulOut : 0 ∉ attr ++ (opens ++ (text ++ (ascii " TO " ++ (upperText ++ close)))) := by
    simp only [mem_append, not_or]
    exact ⟨noAttr, noOpen, emitTerm_noNul lowerNoNul emitted, noTo, emitTerm_noNul upperNoNul upperEmitted, (closes []).2⟩
  change cString (attr ++ (opens ++ (text ++ (ascii " TO " ++ (upperText ++ close))))) ++ u = _ at same
  rw [Pqf.cString_eq_self noNulOut] at same
  simp only [append_assoc] at same
  -- The terms are found one behind the other, each with what follows it.
  replace same := append_cancel_left (append_cancel_left same)
  obtain ⟨keptLower, same⟩ := emitTerm_tail emitted (spaced _) same
  replace same := append_cancel_left same
  obtain ⟨noAsterisks, noWildcards⟩ := upperTerm_tail upperEmitted (closes u).1 same
  rw [upperTerm_kept upperEmitted noAsterisks noWildcards] at same
  exact ⟨⟨⟨lowerNoNul, keptLower⟩, upperNoNul, noAsterisks, noWildcards⟩, append_cancel_left (append_cancel_left same)⟩

theorem range_kept (written : rpn2solrSimple ct lower (some upper) = .ok out)
    (keptLower : OperandKept lower) (supported : Supported ct upper) (keptUpper : UpperKept upper) :
    separate ct (.complex op s1 s2) nested = some out := by
  obtain ⟨relation, relation2, related, greater, related2, less, first, second, isFirst, isSecond, both⟩ :=
    separate_ends (checkRange_ends range).2.2
  obtain ⟨found, attr, ends, isFound, attrWritten, -, endsWritten, rfl⟩ := rpn2solrSimple_written written
  cases related.symm.trans isFound
  obtain ⟨text, emitted, rfl⟩ := rpn2solrRange_ends greater related2 endsWritten
  obtain ⟨upperText, upperEmitted⟩ := emitTerm_ok supported.term 0
  have noNul : 0 ∉ attr ++ (ascii (if takesLower relation then "[" else "\x7b") ++ (text ++ (ascii " TO " ++ (upperText ++
      ascii (if takesUpper relation2 then "]" else "\x7d"))))) := by
    simp only [mem_append, not_or]
    exact ⟨rpn2solrAttr_noNul attrWritten, by split <;> decide, emitTerm_noNul keptLower.1 emitted, by decide,
      emitTerm_noNul keptUpper.1 upperEmitted, by split <;> decide⟩
  rw [separate, range, upperEmitted]
  simp only [attrWritten, isFirst, isSecond]
  refine congrArg some ?_
  change attr ++ (first.both second).text = cString (attr ++ (_ ++ (text ++ (ascii " TO " ++ (upperText ++ _)))))
  rw [Pqf.cString_eq_self noNul, both, operandText, operandText, ← emitTerm_kept emitted keptLower.2,
    ← upperTerm_kept upperEmitted keptUpper.2.1 keptUpper.2.2]

end

/-- A query that is written as its operands are keeps all terms, and ends where it should. -/
theorem separate_tail (q : Rpn Oid) (supported : ∀ apt, Rpn.apt apt ∈ operands q → Supported ct apt)
    (written : rpn2solrStructure ct q nested = .ok out) (sep : separate ct q nested = some w) (noNul : 0 ∉ w) (noStar : u.head? ≠ some 42)
    (same : out ++ u = w ++ v) : Kept ct q ∧ u = v := by
  induction q generalizing nested out w u v with
  | apt => exact operand_tail written sep noNul noStar same
  | resultSet => cases written
  | complex op s1 s2 ih1 ih2 =>
    cases range : checkRange ct op s1 s2 with
    | some ends =>
      obtain ⟨lower, upper⟩ := ends
      have upperSupported : Supported ct upper := by
        apply supported
        rcases (checkRange_ends range).2.1 with ⟨rfl, rfl⟩ | ⟨rfl, rfl⟩ <;> simp [operands]
      rw [rpn2solrStructure, range] at written
      obtain ⟨⟨keptLower, keptUpper⟩, rest⟩ := range_tail range upperSupported written sep noNul same
      rw [Kept, range]
      exact ⟨⟨keptLower, upperSupported, keptUpper⟩, rest⟩
    | none =>
      obtain ⟨first, between, second, firstWritten, betweenWritten, secondWritten, rfl⟩ := rpn2solrStructure_complex range written
      rw [separate, range] at sep
      cases sepFirst : separate ct s1 true with
      | none =>
        rw [sepFirst] at sep
        cases sep
      | some w1 =>
        cases sepSecond : separate ct s2 true with
        | none =>
          rw [sepFirst, betweenWritten, sepSecond] at sep
          cases sep
        | some w2 =>
          rw [sepFirst, betweenWritten, sepSecond] at sep
          have whole : w = (if nested then ascii "(" else []) ++ w1 ++ between ++ w2 ++ (if nested then ascii ")" else []) :=
            (Option.some.inj sep).symm
          rw [whole] at noNul same
          simp only [mem_append, not_or] at noNul
          simp only [append_assoc] at same
          replace same := append_cancel_left same
          have spaced (rest : List UInt8) : (between ++ rest).head? ≠ some 42 := by
            intro star
            cases op with
            | prox => cases betweenWritten
            | _ =>
              cases betweenWritten
              cases Option.some.inj star
          have closes : ((if nested then ascii ")" else []) ++ u).head? ≠ some 42 := by
            split
            · intro star
              cases Option.some.inj star
            · exact noStar
          have supportedIn {s : Rpn Oid} (inside : ∀ operand ∈ operands s, operand ∈ operands (.complex op s1 s2))
            (apt : AttributesPlusTerm Oid)
              (among : Rpn.apt apt ∈ operands s) : Supported ct apt := supported apt (inside _ among)
          obtain ⟨kept1, same⟩ := ih1 (supportedIn fun _ => mem_append_left _) firstWritten sepFirst noNul.1.1.1.2 (spaced _) same
          replace same := append_cancel_left same
          obtain ⟨kept2, same⟩ := ih2 (supportedIn fun _ => mem_append_right _) secondWritten sepSecond noNul.1.2 closes same
          rw [Kept, range]
          exact ⟨⟨kept1, kept2⟩, append_cancel_left same⟩

theorem separate_kept (q : Rpn Oid) (written : rpn2solrStructure ct q nested = .ok out)
    (kept : Kept ct q) : separate ct q nested = some out := by
  induction q generalizing nested out with
  | apt => exact operand_kept written kept nested
  | resultSet => cases written
  | complex op s1 s2 ih1 ih2 =>
    cases range : checkRange ct op s1 s2 with
    | some ends =>
      rw [rpn2solrStructure, range] at written
      rw [Kept, range] at kept
      exact range_kept range written kept.1 kept.2.1 kept.2.2
    | none =>
      obtain ⟨first, between, second, firstWritten, betweenWritten, secondWritten, rfl⟩ := rpn2solrStructure_complex range written
      rw [Kept, range] at kept
      rw [separate, range]
      rw [ih1 firstWritten kept.1, betweenWritten, ih2 secondWritten kept.2]
      rfl

theorem operands_supported {q : Rpn Oid} (accepted : ¬ Refused ct q) (kept : Kept ct q) {operand : Rpn Oid}
    (inside : operand ∈ operands q) :
    ∃ apt, operand = .apt apt ∧ Supported ct apt := by
  induction q with
  | apt apt =>
    rw [mem_singleton.mp inside]
    exact ⟨apt, rfl, not_not.mp accepted⟩
  | resultSet => exact absurd trivial accepted
  | complex op s1 s2 ih1 ih2 =>
    rw [Refused] at accepted
    rw [Kept] at kept
    cases range : checkRange ct op s1 s2 with
    | some ends =>
      obtain ⟨lower, upper⟩ := ends
      rw [range] at accepted kept
      have is : operand = .apt lower ∨ operand = .apt upper := by
        rcases (checkRange_ends range).2.1 with ⟨rfl, rfl⟩ | ⟨rfl, rfl⟩
        · simpa [operands] using inside
        · simpa [operands, or_comm] using inside
      rcases is with rfl | rfl
      · exact ⟨lower, rfl, not_not.mp accepted⟩
      · exact ⟨upper, rfl, kept.2.1⟩
    | none =>
      rw [range] at accepted kept
      rcases mem_append.mp inside with inside | inside
      · exact ih1 (fun refused => accepted (Or.inl refused)) kept.1 inside
      · exact ih2 (fun refused => accepted (Or.inr (Or.inr refused))) kept.2 inside

theorem not_mem_rpn2solrStructure (q : Rpn Oid) (written : rpn2solrStructure ct q nested = .ok out) : 0 ∉ out := by
  induction q generalizing nested out with
  | apt =>
    obtain ⟨_, _, _, _, _, _, _, rfl⟩ := rpn2solrSimple_written written
    exact not_mem_cString _
  | resultSet => cases written
  | complex op s1 s2 ih1 ih2 =>
    cases range : checkRange ct op s1 s2 with
    | some =>
      rw [rpn2solrStructure, range] at written
      obtain ⟨_, _, _, _, _, _, _, rfl⟩ := rpn2solrSimple_written written
      exact not_mem_cString _
    | none =>
      obtain ⟨first, between, second, firstWritten, betweenWritten, secondWritten, rfl⟩ := rpn2solrStructure_complex range written
      have noBetween : 0 ∉ between := by
        cases op with
        | prox => cases betweenWritten
        | _ =>
          cases betweenWritten
          decide
      have opening : 0 ∉ if nested then ascii "(" else [] := by split <;> decide
      have closing : 0 ∉ if nested then ascii ")" else [] := by split <;> decide
      simp only [mem_append, not_or]
      exact ⟨⟨⟨⟨opening, ih1 firstWritten⟩, noBetween⟩, ih2 secondWritten⟩, closing⟩

/-- Which queries are refused, or written, as their operands are by themselves. -/
theorem solrTransformRpn2solrWrbuf_compositional_iff (q : Rpn Oid) : Compositional ct q ↔ Refused ct q ∨ Kept ct q := by
  have errors := @rpn2solrStructure_error_iff _ _ ct q false
  constructor
  · rintro ⟨refuses, writes⟩
    cases written : rpn2solrStructure ct q false with
    | error e => exact Or.inl (errors.mp ⟨e, written⟩)
    | ok out =>
      have accepted (operand : Rpn Oid) (inside : operand ∈ operands q) : ¬ ∃ e, solrTransformRpn2solrWrbuf ct operand = .error e := by
        intro refused
        obtain ⟨e, impossible⟩ := refuses operand inside refused
        cases written.symm.trans impossible
      have supported (apt : AttributesPlusTerm Oid) (inside : Rpn.apt apt ∈ operands q) : Supported ct apt := by
        by_contra unsupported
        exact accepted _ inside (refused_simple_iff.mpr unsupported)
      have sep := writes out written
      have noStar : ([] : List UInt8).head? ≠ some 42 := by decide
      exact Or.inr (separate_tail q supported written sep (not_mem_rpn2solrStructure q written) noStar rfl).1
  · intro condition
    by_cases refused : Refused ct q
    · obtain ⟨e, written⟩ := errors.mpr refused
      refine ⟨fun _ _ _ => ⟨e, written⟩, ?_⟩
      intro out isWritten
      cases written.symm.trans isWritten
    · have kept := condition.resolve_left refused
      refine ⟨?_, fun out written => separate_kept q written kept⟩
      rintro operand inside ⟨e, isRefused⟩
      obtain ⟨apt, rfl, supported⟩ := operands_supported refused kept inside
      exact absurd supported (refused_simple_iff.mp ⟨e, isRefused⟩)

end

/-- From `x` on, and up to `y` with a truncation. -/
def fromXUpToY (trunc : Int64) : Rpn Nat :=
  .complex .and
    (.apt { attributes := some [{ attributeSet := none, attributeType := 2, value := .numeric 4 }], term := .general (ascii "x") })
    (.apt { attributes := some [{ attributeSet := none, attributeType := 2, value := .numeric 2 },
                                { attributeSet := none, attributeType := 5, value := .numeric trunc }], term := .general (ascii "y") })

/-- A truncation that is refused is not looked at, and one that is supported is left out. -/
theorem fromXUpToY_not_compositional : ¬ Compositional noEntries (fromXUpToY 101) ∧ ¬ Compositional noEntries (fromXUpToY 1) := by
  constructor
  · rintro ⟨refuses, -⟩
    have written : solrTransformRpn2solrWrbuf noEntries (fromXUpToY 101) = .ok (ascii "[x TO y]") := by decide
    obtain ⟨e, refused⟩ := refuses _ (mem_append_right _ mem_cons_self) ⟨.unsuppTruncationAttribute, by decide⟩
    cases written.symm.trans refused
  · rintro ⟨-, writes⟩
    have written : solrTransformRpn2solrWrbuf noEntries (fromXUpToY 1) = .ok (ascii "[x TO y]") := by decide
    have sep : separate noEntries (fromXUpToY 1) false = some (ascii "[x TO y*]") := by decide
    have same := (writes _ written).symm.trans sep
    exact absurd (Option.some.inj same) (by decide)

end Yaz.Solr
