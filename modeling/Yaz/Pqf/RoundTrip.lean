import Yaz.Pqf.Written

/-! What the printer writes is read back as the same query.

Not always: a null term has no blank behind it, a general term takes the type of the term
before it, and the name of a result set is not unescaped. `Rpn.readable` says of a tree that
it has none of these.
-/

set_option autoImplicit false

namespace Yaz.Pqf
open List Yaz.Comstack Yaz.Json

/-! ### Trees -/

section
variable {Oid : Type}

def AttributeElement.isNumeric (element : AttributeElement Oid) : Bool :=
  element.attributeSet.isNone && match element.value with
    | .numeric _ => true
    | .complex _ => false

def Term.noNul : Term → Bool
  | .general octets => 0 ∉ octets
  | .characterString octets => 0 ∉ octets
  | _ => true

def Rpn.plain : Rpn Oid → Bool
  | .apt ⟨none, _⟩ => false
  | .apt ⟨some attributes, term⟩ =>
    attributes.all AttributeElement.isNumeric && (attributes.map (·.attributeType)).Nodup && term.noNul
  | .resultSet name => 0 ∉ name
  | .complex _ s1 s2 => s1.plain && s2.plain

def Rpn.reversed : Rpn Oid → Rpn Oid
  | .apt operand => .apt { operand with attributes := operand.attributes.map List.reverse }
  | .resultSet name => .resultSet name
  | .complex op s1 s2 => .complex op s1.reversed s2.reversed

def AttributeElement.readable (element : AttributeElement Oid) : Bool :=
  unsigned element.attributeType && match element.value with
    | .numeric value => unsigned value
    | .complex _ => true

def nameReadable (name : List UInt8) : Bool :=
  34 ∉ name && 92 ∉ name && termReadable name && (name.any needsQuotes || name.head? ≠ some 64)

def Rpn.typeAfter (termType : TermType) : Rpn Oid → TermType
  | .apt ⟨_, .general _⟩ => termType
  | .apt ⟨_, .numeric _⟩ => .numeric
  | .apt ⟨_, .characterString _⟩ => .characterString
  | .apt ⟨_, .null⟩ => .null
  | .resultSet _ => termType
  | .complex _ s1 s2 => s2.typeAfter (s1.typeAfter termType)

def Term.readable (termType : TermType) (last : Bool) : Term → Bool
  | .general octets => termType = .general && termReadable octets
  | .characterString octets => termReadable octets
  | .numeric _ => true
  | .null => last

/-- The condition under which a tree is read back, behind terms of `termType`; `last` if nothing follows it. -/
def Rpn.readable (termType : TermType) (last : Bool) : Rpn Oid → Bool
  | .apt operand =>
    (operand.attributes.getD []).all AttributeElement.readable && (operand.attributes.getD []).length ≤ maxAttr &&
      operand.term.readable termType last
  | .resultSet name => nameReadable name
  | .complex op s1 s2 => op.readable && s1.readable termType false && s2.readable (s1.typeAfter termType) last

def AttributeElement.pair (element : AttributeElement Oid) : Int64 × Int64 :=
  (element.attributeType, match element.value with
    | .numeric value => value
    | .complex _ => 0)

theorem AttributeElement.of_pair {element : AttributeElement Oid} (isNumeric : element.isNumeric = true) :
    element = ⟨none, element.pair.1, .numeric element.pair.2⟩ := by
  obtain ⟨set, type, value⟩ := element
  cases set with
  | some => simp [AttributeElement.isNumeric] at isNumeric
  | none =>
    cases value with
    | numeric => rfl
    | complex => simp [AttributeElement.isNumeric] at isNumeric

theorem AttributeElement.unsigned_pair {element : AttributeElement Oid} (isNumeric : element.isNumeric = true)
    (readable : element.readable = true) : 0 ≤ element.pair.1.toInt ∧ 0 ≤ element.pair.2.toInt := by
  have whole := readable
  rw [element.of_pair isNumeric] at whole
  simpa [AttributeElement.readable, unsigned] using whole

def Term.core : Term → List UInt8
  | .general octets => termText octets
  | .characterString octets => ascii "@term string " ++ termText octets
  | .numeric value => ascii "@term numeric " ++ intText value.toInt
  | .null => ascii "@term null x"

variable (oidName : Oid → Option (List UInt8))

def Rpn.core : Rpn Oid → List UInt8
  | .apt operand => yazAttributesToWrbuf oidName (operand.attributes.getD []) ++ operand.term.core
  | .resultSet name => ascii "@set " ++ termText name
  | .complex op s1 s2 => op.text ++ s1.core ++ 32 :: s2.core

variable {last : Bool}

theorem yazRpnstructureToWrbuf_core {termType : TermType} {rpn : Rpn Oid}
    (readable : rpn.readable termType last = true) :
    yazRpnstructureToWrbuf oidName rpn = rpn.core oidName ++ [32] ∨
      (last = true ∧ yazRpnstructureToWrbuf oidName rpn = rpn.core oidName) := by
  induction rpn generalizing termType last with
  | apt operand =>
    rw [yazRpnstructureToWrbuf, yazAptToWrbuf, Rpn.core]
    simp only [Rpn.readable, Bool.and_eq_true] at readable
    cases term : operand.term with
    | general =>
      left
      rw [Term.text, Term.core, yazEncodePqfTerm_eq, append_assoc]
    | characterString =>
      left
      rw [Term.text, Term.core, yazEncodePqfTerm_eq]
      simp
    | numeric =>
      left
      rw [Term.text, Term.core]
      simp
    | null =>
      right
      rw [term] at readable
      exact ⟨readable.2, rfl⟩
  | resultSet =>
    left
    rw [yazRpnstructureToWrbuf, Rpn.core, yazEncodePqfTerm_eq, append_assoc]
  | complex _ _ _ one two =>
    simp only [Rpn.readable, Bool.and_eq_true] at readable
    obtain ⟨⟨-, first⟩, second⟩ := readable
    rw [yazRpnstructureToWrbuf, Rpn.core]
    rcases one first with blank | ⟨impossible, -⟩
    · rw [blank]
      rcases two second with blank' | ⟨isLast, none⟩
      · left
        rw [blank']
        simp
      · right
        rw [none]
        exact ⟨isLast, by simp⟩
    · simp at impossible

theorem yazAttributesToWrbuf_numeric {attributes : List (AttributeElement Oid)}
    (numeric : ∀ element ∈ attributes, element.isNumeric = true) :
    yazAttributesToWrbuf oidName attributes = (attributes.map AttributeElement.pair).flatMap fun a => attrText a.1 a.2 := by
  induction attributes with
  | nil => rfl
  | cons element _ ih =>
    have first : yazAttributeElementToWrbuf oidName element = attrText element.pair.1 element.pair.2 := by
      conv_lhs => rw [element.of_pair (numeric element (by simp))]
      simp [yazAttributeElementToWrbuf, attrText, AttributeValue.text]
    rw [map_cons, flatMap_cons, ← ih fun other inside => numeric other (by simp [inside]), ← first]
    rfl

theorem cString_eq_self {octets : List UInt8} (noNul : 0 ∉ octets) : cString octets = octets := by
  induction octets with
  | nil => rfl
  | cons _ _ ih =>
    rw [mem_cons, not_or] at noNul
    rw [cString, takeWhile_cons, if_pos (by simpa using Ne.symm noNul.1)]
    exact congrArg _ (ih noNul.2)

variable (n : Int)

theorem intText_plain : ∀ c ∈ intText n, c = 45 ∨ isDigit c = true := by
  intro c inside
  rw [intText] at inside
  split at inside
  · rcases mem_cons.mp inside with sign | digits
    · exact .inl sign
    · exact .inr (decimal_digits _ c digits)
  · exact .inr (decimal_digits _ c inside)

theorem intText_not_mem {c : UInt8} (noSign : c ≠ 45) (noDigit : isDigit c = false) : c ∉ intText n := by
  intro inside
  rcases intText_plain n c inside with sign | digit
  · exact noSign sign
  · rw [noDigit] at digit
    simp at digit

theorem intText_ne_nil : intText n ≠ [] := by
  rw [intText]
  split
  · simp
  · exact decimal_ne_nil _

theorem intText_bare : Bare (intText n) := by
  constructor
  · exact intText_ne_nil n
  · rw [any_eq_true]
    rintro ⟨c, inside, quotes⟩
    simp only [needsQuotes, Bool.or_eq_true, decide_eq_true_eq] at quotes
    rcases quotes with ((rfl | rfl) | rfl) | rfl
    all_goals exact intText_not_mem n (by decide) (by decide) inside

theorem termReadable_intText : termReadable (intText n) = true := by
  have bare := (intText_bare n).2
  rw [termReadable]
  simp [bare]

theorem termText_intText : termText (intText n) = intText n := by
  rw [termText, if_pos (intText_bare n), rawText_eq_self]
  · exact ⟨intText_not_mem n (by decide) (by decide), intText_not_mem n (by decide) (by decide)⟩
  · intro _ isAt
    exact intText_not_mem n (by decide) (by decide) (mem_of_head? isAt)

variable (attset : List UInt8 → Option Oid) (li : Parser)

theorem rpnStructure_term {term : Term} {rest : List UInt8} (attrs : List (Attr Oid)) (rounds : Nat)
    (noNul : term.noNul = true) (readable : term.readable li.termType last = true) (separated : Separated rest) :
    ∃ next, next.termType = (Rpn.apt (⟨none, term⟩ : AttributesPlusTerm Oid)).typeAfter li.termType ∧ next.error = li.error ∧
      rpnStructure attset (rounds + 2) (lexAt li (term.core ++ rest)) attrs =
        (some (.apt ⟨some (getAttributeList attrs), term⟩), lexAt next (rest.drop 1)) := by
  cases term with
  | general =>
    simp only [Term.readable, Bool.and_eq_true, decide_eq_true_eq] at readable
    obtain ⟨next, kept, read⟩ := rpnStructure_text attset li attrs (rounds + 1) readable.2 separated
    refine ⟨next, kept.1, kept.2, ?_⟩
    rw [Term.core, read, readable.1, zTermCreate]
  | characterString octets =>
    obtain ⟨typed, isString, sameError, opened⟩ := rpnStructure_typed attset li .characterString 115
      [116, 114, 105, 110, 103] (termText octets ++ rest) attrs (rounds + 1) (by decide) (by decide)
      (by intro next buf len look; simp [rpnTermType, look, compareTerm, ascii, buf, len])
    obtain ⟨next, kept, read⟩ := rpnStructure_text attset typed attrs rounds readable separated
    refine ⟨next, kept.1.trans isString, kept.2.trans sameError, ?_⟩
    have whole : cString octets = octets := cString_eq_self (by simpa [Term.noNul] using noNul)
    have shape : Term.core (.characterString octets) ++ rest =
        ascii "@term " ++ (115 :: [116, 114, 105, 110, 103] ++ 32 :: (termText octets ++ rest)) := by
      simp [Term.core, ascii]
    rw [shape, opened, read, isString, zTermCreate, whole]
  | numeric value =>
    obtain ⟨typed, isNumeric, sameError, opened⟩ := rpnStructure_typed attset li .numeric 110
      [117, 109, 101, 114, 105, 99] (intText value.toInt ++ rest) attrs (rounds + 1) (by decide) (by decide)
      (by intro next buf len look; simp [rpnTermType, look, compareTerm, ascii, buf, len])
    obtain ⟨next, kept, read⟩ := rpnStructure_text attset typed attrs rounds (termReadable_intText value.toInt) separated
    refine ⟨next, kept.1.trans isNumeric, kept.2.trans sameError, ?_⟩
    have shape : Term.core (.numeric value) ++ rest =
        ascii "@term " ++ (110 :: [117, 109, 101, 114, 105, 99] ++ 32 :: (intText value.toInt ++ rest)) := by
      simp [Term.core, ascii]
    rw [termText_intText] at read
    rw [shape, opened, read, isNumeric, zTermCreate, odrAtoi_signed]
  | null =>
    obtain ⟨typed, isNull, sameError, opened⟩ := rpnStructure_typed attset li .null 110
      [117, 108, 108] ([120] ++ rest) attrs (rounds + 1) (by decide) (by decide)
      (by intro next buf len look; simp [rpnTermType, look, compareTerm, ascii, buf, len])
    have letter : termReadable [120] = true := by decide
    obtain ⟨next, kept, read⟩ := rpnStructure_text attset typed attrs rounds letter separated
    refine ⟨next, kept.1.trans isNull, kept.2.trans sameError, ?_⟩
    have word : termText [120] = [120] := by decide
    rw [word] at read
    have shape : Term.core .null ++ rest = ascii "@term " ++ (110 :: [117, 108, 108] ++ 32 :: ([120] ++ rest)) := by
      simp [Term.core, ascii]
    rw [shape, opened, read, isNull, zTermCreate]

def Rpn.rounds : Rpn Oid → Nat
  | .apt operand => (operand.attributes.getD []).length + 2
  | .resultSet _ => 1
  | .complex _ s1 s2 => max s1.rounds s2.rounds + 1

theorem termText_ne_nil (term : List UInt8) : 1 ≤ (termText term).length := by
  rw [termText]
  split
  next bare =>
    obtain ⟨c, others, starts, -⟩ := bare_head bare
    simp [starts]
  · simp

theorem Term.core_length (term : Term) : 1 ≤ term.core.length := by
  cases term with
  | general octets => exact termText_ne_nil octets
  | characterString octets | numeric value | null => simp [Term.core, ascii]

theorem attributes_length (attributes : List (AttributeElement Oid)) :
    attributes.length ≤ (yazAttributesToWrbuf oidName attributes).length := by
  induction attributes with
  | nil => rfl
  | cons element _ ih =>
    rw [yazAttributesToWrbuf] at ih ⊢
    rw [flatMap_cons, length_append, length_cons]
    have some : 1 ≤ (yazAttributeElementToWrbuf oidName element).length := by
      rw [yazAttributeElementToWrbuf, length_append, length_singleton]
      omega
    omega

theorem Rpn.rounds_le (rpn : Rpn Oid) : rpn.rounds ≤ (rpn.core oidName).length + 1 := by
  induction rpn with
  | apt operand =>
    have attributes := attributes_length oidName (operand.attributes.getD [])
    have term := operand.term.core_length
    rw [Rpn.rounds, Rpn.core, length_append]
    omega
  | resultSet =>
    rw [Rpn.rounds]
    omega
  | complex op =>
    rw [Rpn.rounds, Rpn.core]
    simp only [length_append, length_cons]
    omega

/-- A written tree is read back, with what stands behind it left. -/
theorem rpnStructure_core {rpn : Rpn Oid} {rest : List UInt8} {rounds : Nat} (plain : rpn.plain = true)
    (readable : rpn.readable li.termType last = true) (enough : rpn.rounds ≤ rounds) (separated : Separated rest) :
    ∃ next, next.termType = rpn.typeAfter li.termType ∧ next.error = li.error ∧
      rpnStructure attset rounds (lexAt li (rpn.core oidName ++ rest)) [] = (some rpn.reversed, lexAt next (rest.drop 1)) := by
  induction rpn generalizing rest last li rounds with
  | apt operand =>
    obtain ⟨_ | attributes, term⟩ := operand
    · simp [Rpn.plain] at plain
    simp only [Rpn.plain, Bool.and_eq_true, all_eq_true, decide_eq_true_eq] at plain
    simp only [Rpn.readable, Option.getD_some, Bool.and_eq_true, all_eq_true, decide_eq_true_eq] at readable
    simp only [Rpn.rounds, Option.getD_some] at enough
    obtain ⟨⟨numeric, distinct⟩, noNul⟩ := plain
    obtain ⟨⟨signless, few⟩, termReads⟩ := readable
    have positive : ∀ a ∈ attributes.map AttributeElement.pair, 0 ≤ a.1.toInt ∧ 0 ≤ a.2.toInt := by
      intro a inside
      obtain ⟨element, among, rfl⟩ := mem_map.mp inside
      exact AttributeElement.unsigned_pair (numeric element among) (signless element among)
    obtain ⟨middle, kept, read⟩ := rpnStructure_attributes attset (term.core ++ rest) (rounds - attributes.length - 2 + 2) positive li []
      (by simp) (by simpa using few)
    rw [← kept.1] at termReads
    obtain ⟨next, typed, sameError, parsed⟩ := rpnStructure_term attset middle
      ([] ++ (attributes.map AttributeElement.pair).map fun a => numericAttr a.1 a.2)
        (rounds - attributes.length - 2) noNul termReads separated
    refine ⟨next, ?_, sameError.trans kept.2, ?_⟩
    · rw [typed, kept.1]
      cases term <;> rfl
    · have total : rounds - attributes.length - 2 + 2 + (attributes.map AttributeElement.pair).length = rounds := by
        rw [length_map]
        omega
      have types : ((attributes.map AttributeElement.pair).map (·.1)).Nodup := by
        rw [map_map]
        exact distinct
      have elements : (attributes.map AttributeElement.pair).map
        (fun a => (⟨none, a.1, .numeric a.2⟩ : AttributeElement Oid)) = attributes := by
        rw [map_map]
        conv_rhs => rw [← map_id attributes]
        apply map_congr_left
        intro element among
        exact (AttributeElement.of_pair (numeric element among)).symm
      rw [total] at read
      rw [Rpn.core, Option.getD_some, yazAttributesToWrbuf_numeric oidName numeric, append_assoc, read, parsed, nil_append,
        getAttributeList_numeric types, elements]
      rfl
  | resultSet name =>
    simp only [Rpn.readable, nameReadable, Bool.and_eq_true, decide_eq_true_eq, Bool.or_eq_true] at readable
    obtain ⟨⟨⟨noQuote, noBackslash⟩, reads⟩, notAt⟩ := readable
    have raw : rawText name = name := by
      apply rawText_eq_self ⟨noQuote, noBackslash⟩
      intro bare
      rcases notAt with quoted | other
      · exact absurd quoted bare.2
      · exact other
    obtain ⟨next, kept, read⟩ := rpnStructure_set attset li [] (rounds - 1) reads separated
    rw [Rpn.rounds] at enough
    refine ⟨next, kept.1, kept.2, ?_⟩
    rw [Rpn.core, append_assoc, ← Nat.sub_add_cancel enough, read, raw]
    rfl
  | complex op s1 s2 one two =>
    simp only [Rpn.plain, Bool.and_eq_true] at plain
    simp only [Rpn.readable, Bool.and_eq_true] at readable
    obtain ⟨⟨opReads, firstReads⟩, secondReads⟩ := readable
    rw [Rpn.rounds] at enough
    have shape : (Rpn.complex op s1 s2).core oidName ++ rest =
        op.text ++ (s1.core oidName ++ (32 :: (s2.core oidName ++ rest))) := by
      simp [Rpn.core]
    obtain ⟨look, opened, kept, step, operator⟩ := rpnOperator_read li (s1.core oidName ++ (32 :: (s2.core oidName ++ rest))) opReads
    rw [← kept.1] at firstReads
    obtain ⟨middle, typed, sameError, first⟩ := one opened plain.1 firstReads
      (show s1.rounds ≤ rounds - 1 by omega) (separated_space (s2.core oidName ++ rest))
    rw [← kept.1, ← typed] at secondReads
    obtain ⟨next, typed', sameError', second⟩ := two middle plain.2 secondReads (show s2.rounds ≤ rounds - 1 by omega) separated
    refine ⟨next, ?_, sameError'.trans (sameError.trans kept.2), ?_⟩
    · rw [typed', typed, kept.1]
      rfl
    · rw [shape, ← Nat.sub_add_cancel (show 1 ≤ rounds by omega), rpnStructure_complex attset look, rpnComplex, operator]
      dsimp only
      rw [step, first]
      dsimp only
      rw [drop_succ_cons, drop_zero, second]
      rfl

/-! ### Queries -/

def NoBlankLast (text : List UInt8) : Prop := ∃ front c, text = front ++ [c] ∧ c ≠ 32

variable {text : List UInt8}

theorem NoBlankLast.append (noBlank : NoBlankLast text) (front : List UInt8) : NoBlankLast (front ++ text) := by
  rcases noBlank with ⟨before, c, rfl, notBlank⟩
  exact ⟨front ++ before, c, by rw [append_assoc], notBlank⟩

theorem noBlankLast_of_not_mem (notEmpty : text ≠ []) (noBlank : 32 ∉ text) : NoBlankLast text := by
  refine ⟨text.dropLast, text.getLast notEmpty, (dropLast_append_getLast notEmpty).symm, ?_⟩
  intro blank
  rw [← blank] at noBlank
  exact noBlank (getLast_mem notEmpty)

theorem noBlankLast_termText (term : List UInt8) : NoBlankLast (termText term) := by
  rw [termText]
  split
  next bare =>
    obtain ⟨c, others, starts, -⟩ := bare_head bare
    apply noBlankLast_of_not_mem
    · simp [starts]
    · have plain := needsQuotes_of_bare bare
      have body : 32 ∉ term.flatMap fun c => if c = 92 then [92, c] else [c] := by
        rw [mem_flatMap]
        rintro ⟨d, inside, blank⟩
        have notBlank := (plain d inside).1
        split at blank
        · simp [Ne.symm notBlank] at blank
        · simp [Ne.symm notBlank] at blank
      rw [rawText, if_pos bare, mem_append, not_or]
      exact ⟨by split <;> simp, body⟩
  · exact NoBlankLast.append ⟨[], 34, rfl, by decide⟩ (34 :: rawText term)

theorem Term.core_noBlankLast (term : Term) : NoBlankLast term.core := by
  cases term with
  | general octets => exact noBlankLast_termText octets
  | characterString octets => exact (noBlankLast_termText octets).append _
  | numeric =>
    apply NoBlankLast.append
    exact noBlankLast_of_not_mem (intText_ne_nil _) (intText_not_mem _ (by decide) (by decide))
  | null => exact ⟨ascii "@term null ", 120, by decide, by decide⟩

theorem Rpn.core_noBlankLast (rpn : Rpn Oid) : NoBlankLast (rpn.core oidName) := by
  induction rpn with
  | apt operand => exact operand.term.core_noBlankLast.append _
  | resultSet name => exact (noBlankLast_termText name).append _
  | complex op s1 _ _ two =>
    have ends := (two.append [32]).append (op.text ++ s1.core oidName)
    simpa [Rpn.core] using ends

theorem wrbufChopRight_blank (text : List UInt8) : wrbufChopRight (text ++ [32]) = wrbufChopRight text := by
  simp [wrbufChopRight]

theorem wrbufChopRight_noBlank (noBlank : NoBlankLast text) : wrbufChopRight text = text := by
  rcases noBlank with ⟨front, c, rfl, notBlank⟩
  simp [wrbufChopRight, notBlank]

def setText (query : RpnQuery Oid) : List UInt8 :=
  match query.attributeSetId.bind oidName with
  | some name => ascii "@attrset " ++ name ++ [32]
  | none => []

theorem yazRpnqueryToWrbuf_core {query : RpnQuery Oid} (readable : query.rpnStructure.readable .general true = true) :
    yazRpnqueryToWrbuf oidName query = setText oidName query ++ query.rpnStructure.core oidName := by
  have noBlank := (query.rpnStructure.core_noBlankLast oidName).append (setText oidName query)
  have written : yazRpnqueryToWrbuf oidName query =
      wrbufChopRight (setText oidName query ++ yazRpnstructureToWrbuf oidName query.rpnStructure) := rfl
  rw [written]
  rcases yazRpnstructureToWrbuf_core oidName readable with blank | ⟨-, none⟩
  · rw [blank, ← append_assoc, wrbufChopRight_blank, wrbufChopRight_noBlank noBlank]
  · rw [none, wrbufChopRight_noBlank noBlank]

def setWord (name : List UInt8) : Bool :=
  32 ∉ name && 92 ∉ name && name.length < 31 && name.head?.any fun c => c ≠ 123 && c ≠ 34 && c ≠ 64

def writtenSet (bib1 : Oid) (query : RpnQuery Oid) : Option Oid :=
  match query.attributeSetId.bind oidName with
  | some name => if setWord name then attset name else none
  | none => some bib1

theorem topSet_set (bib1 : Oid) {li : Parser} {set : Oid} (look : (lex li).queryLook = .attrset)
    (found : queryOidGetvalbyname attset (lex (lex li)) = some set) : topSet attset bib1 li = (some set, lex (lex (lex li))) := by
  simp only [topSet, look, if_true, found]

theorem topSet_default (bib1 : Oid) {li : Parser} (look : (lex li).queryLook ≠ .attrset) : topSet attset bib1 li = (some bib1, lex li) := by
  simp only [topSet, look, if_false]

theorem topSet_named {name : List UInt8} (rest : List UInt8) {set : Oid} (bib1 : Oid) (word : setWord name = true)
    (found : attset name = some set) :
    ∃ next, Kept li next ∧ topSet attset bib1 { li with queryPtr := ascii "@attrset " ++ (name ++ 32 :: rest) } =
      (some set, lexAt next rest) := by
  simp only [setWord, Bool.and_eq_true, decide_eq_true_eq] at word
  obtain ⟨⟨⟨noBlank, noBackslash⟩, short⟩, starts⟩ := word
  have opened : HasRead li (lexAt li (ascii "@attrset " ++ (name ++ 32 :: rest))) .attrset (name ++ 32 :: rest) :=
    lexAt_keyword li 97 [116, 116, 114, 115, 101, 116] (name ++ 32 :: rest) (by decide) (by decide) rfl
  have plain : ∀ d ∈ name, d ≠ 32 ∧ d ≠ 92 := by
    intro d inside
    constructor
    · rintro rfl
      exact noBlank inside
    · rintro rfl
      exact noBackslash inside
  cases name with
  | nil => simp at starts
  | cons c others =>
    simp only [head?_cons, Option.any_some, Bool.and_eq_true, decide_eq_true_eq] at starts
    obtain ⟨read, buf, len⟩ := lexAt_word (lexAt li (ascii "@attrset " ++ (c :: others ++ 32 :: rest))) rfl plain
      ⟨starts.1.1, starts.1.2, starts.2⟩ (separated_space rest)
    have lexeme : (lexAt (lexAt li (ascii "@attrset " ++ (c :: others ++ 32 :: rest))) (c :: others ++ 32 :: rest)).lexeme =
      c :: others := by
      rw [Parser.lexeme, buf, len, take_left]
    have looked : queryOidGetvalbyname attset
        (lexAt (lexAt li (ascii "@attrset " ++ (c :: others ++ 32 :: rest))) (c :: others ++ 32 :: rest)) = some set := by
      rw [queryOidGetvalbyname, if_neg (by rw [len]; omega), lexeme, found]
    have start : lex { li with queryPtr := ascii "@attrset " ++ (c :: others ++ 32 :: rest) } =
        lexAt li (ascii "@attrset " ++ (c :: others ++ 32 :: rest)) := rfl
    refine ⟨_, opened.kept.trans read.kept, ?_⟩
    rw [← opened.lex] at looked read ⊢
    rw [← start] at looked read opened ⊢
    rw [topSet_set attset bib1 opened.look looked, read.lex]
    rfl

theorem core_notSet {rpn : Rpn Oid} (plain : rpn.plain = true) (readable : rpn.readable li.termType last = true) :
    (lexAt li (rpn.core oidName)).queryLook ≠ .attrset := by
  intro look
  obtain ⟨next, -, -, read⟩ := rpnStructure_core oidName (fun _ => none) li plain readable (Nat.le_succ rpn.rounds) (.inl rfl)
  rw [append_nil] at read
  simp only [rpnStructure, look] at read
  have ended : lexAt li (rpn.core oidName) = lexAt next [] := (Prod.ext_iff.mp read).2
  have ends : (lexAt next []).queryLook = .ends := rfl
  rw [ended, ends] at look
  simp at look

/-- What was written of a query is read back, and so is its attribute set. -/
theorem pQueryRpn_written (bib1 : Oid) {query : RpnQuery Oid} {set : Oid} (plain : query.rpnStructure.plain = true)
    (named : writtenSet oidName attset bib1 query = some set) (readable : query.rpnStructure.readable .general true = true) :
    pQueryRpn attset bib1 (yazRpnqueryToWrbuf oidName query) = some ⟨some set, query.rpnStructure.reversed⟩ := by
  have text := yazRpnqueryToWrbuf_core oidName readable
  have rounds := query.rpnStructure.rounds_le oidName
  -- the type of terms is general up to the tree
  obtain ⟨li, general, top⟩ : ∃ li, li.termType = .general ∧
      topSet attset bib1 (pqfParserBegin yazPqfCreate (yazRpnqueryToWrbuf oidName query)) =
        (some set, lexAt li (query.rpnStructure.core oidName)) := by
    rw [writtenSet] at named
    rw [text, setText]
    cases printed : query.attributeSetId.bind oidName with
    | none =>
      rw [printed] at named
      obtain rfl : bib1 = set := by simpa using named
      exact ⟨yazPqfCreate, rfl, topSet_default attset bib1 (core_notSet oidName yazPqfCreate plain readable)⟩
    | some =>
      rw [printed] at named
      dsimp only at named
      split at named
      next word =>
        obtain ⟨next, kept, top⟩ := topSet_named attset (pqfParserBegin yazPqfCreate [])
          (query.rpnStructure.core oidName) bib1 word named
        refine ⟨next, kept.1, ?_⟩
        rw [← top]
        simp [pqfParserBegin]
      · simp at named
  have reads : query.rpnStructure.readable li.termType true = true := by rw [general, readable]
  obtain ⟨next, -, -, read⟩ := rpnStructure_core oidName attset li plain reads
    (show query.rpnStructure.rounds ≤ (yazRpnqueryToWrbuf oidName query).length + 1 by rw [text, length_append]; omega) (.inl rfl)
  rw [append_nil] at read
  rw [pQueryRpn, yazPqfParse, pQueryRpnMk, top]
  dsimp only [pqfParserBegin]
  rw [read]
  rfl

end

def sampleQuery : RpnQuery Unit :=
  { attributeSetId := some ()
    rpnStructure := .complex
      (.prox { exclusion := none, distance := 2, ordered := 1, relationType := 3, which := .known, unit := 2 })
      (.apt ⟨some [⟨none, 1, .numeric 4⟩, ⟨none, 4, .numeric 1⟩], .general (ascii "a \"b\"")⟩)
      (.apt ⟨some [⟨none, 1, .numeric 1016⟩], .null⟩) }

theorem pQueryRpn_sampleQuery :
    sampleQuery.rpnStructure.plain = true ∧ sampleQuery.rpnStructure.readable .general true = true ∧
      pQueryRpn (fun name => if name = ascii "Bib-1" then some () else none) ()
        (yazRpnqueryToWrbuf (fun _ => some (ascii "Bib-1")) sampleQuery) = some ⟨some (), sampleQuery.rpnStructure.reversed⟩ := by
  refine ⟨by decide, by decide, ?_⟩
  exact pQueryRpn_written (fun _ => some (ascii "Bib-1")) (fun name => if name = ascii "Bib-1" then some () else none) ()
    (by decide) (by decide) (by decide)

def mixedQuery : RpnQuery Unit :=
  { attributeSetId := none
    rpnStructure := .complex .and (.apt ⟨some [], .characterString (ascii "a")⟩) (.apt ⟨some [], .general (ascii "b")⟩) }

theorem pQueryRpn_mixedQuery :
    mixedQuery.rpnStructure.plain = true ∧ yazRpnqueryToWrbuf (fun _ => none) mixedQuery = ascii "@and @term string a b" ∧
      pQueryRpn (fun _ => none) () (yazRpnqueryToWrbuf (fun _ => none) mixedQuery) =
        some ⟨some (), .complex .and (.apt ⟨some [], .characterString (ascii "a")⟩) (.apt ⟨some [], .characterString (ascii "b")⟩)⟩ ∧
      (pQueryRpn (fun _ => none) () (yazRpnqueryToWrbuf (fun _ => none) mixedQuery)).map (·.rpnStructure) ≠
        some mixedQuery.rpnStructure.reversed := by
  decide

end Yaz.Pqf
