import Yaz.Marc.Numbers
import Yaz.Pqf.RoundTrip
import Yaz.Xml.RpnDocument

/-! Which queries come back from their documents: numbers go through `atoi`, the kind of a value is guessed from its digits, and names of
result sets are parsed.
-/

set_option autoImplicit false

namespace Yaz.Xml
open List
open Yaz.Comstack (ascii isDigit)
open Yaz.Oid (attributeSets yazOidToStringBuf yazStringToOidOdr yazStringToOidOdr_name)
open Yaz.Pqf (AttributeElement AttributeValue AttributesPlusTerm Operator Proximity Rpn RpnQuery Term cString intText)
open Yaz.Xml.Decoding hiding RpnQuery

/-- What an `int` holds. -/
def FitsInt (n : Int64) : Prop := -2 ^ 31 ≤ n.toInt ∧ n.toInt < 2 ^ 31

instance (n : Int64) : Decidable (FitsInt n) := inferInstanceAs (Decidable (_ ∧ _))

theorem intVal_fitsInt (str : List UInt8) : FitsInt (intVal str) := by
  rw [FitsInt, intVal, Int32.toInt_toInt64]
  exact ⟨Int32.le_toInt _, Int32.toInt_lt _⟩

theorem intVal_of_scanInt {str : List UInt8} {n : Int64} (fits : FitsInt n) (scanned : Pqf.scanInt 10 str = n.toInt) : intVal str = n := by
  obtain ⟨low, high⟩ := fits
  have inside : max (-2 ^ 63) (min (2 ^ 63 - 1) n.toInt) = n.toInt := by omega
  have size : Int32.size = 2 ^ 32 := rfl
  rw [intVal, Zoom.atoi, scanned, inside]
  apply Int64.toInt_inj.mp
  rw [Int32.toInt_toInt64, Int32.toInt_ofInt, size]
  exact Int.bmod_eq_of_le (by omega) (by omega)

theorem intText_length {n : Int64} (fits : FitsInt n) : (intText n.toInt).length ≤ 11 := by
  obtain ⟨low, high⟩ := fits
  rw [intText]
  split
  · have digits : (Http.decimal n.toInt.natAbs).length ≤ 10 := Marc.decimal_length_le (by decide) (by omega)
    rw [length_cons]
    omega
  · have digits : (Http.decimal n.toInt.toNat).length ≤ 10 := Marc.decimal_length_le (by decide) (by omega)
    omega

theorem intVal_formstr_iff {size : Nat} (room : 12 ≤ size) (n : Int64) : intVal (formstr size n) = n ↔ FitsInt n := by
  constructor
  · intro same
    rw [← same]
    exact intVal_fitsInt _
  · intro fits
    have length := intText_length fits
    apply intVal_of_scanInt fits
    rw [formstr, take_of_length_le (by omega)]
    exact Pqf.scanInt_intText _

theorem formstr_digits {size : Nat} (room : 1 < size) (n : Int64) : (formstr size n).all isDigit = true ↔ 0 ≤ n.toInt := by
  rw [formstr, all_eq_true]
  constructor
  · intro digits
    by_contra negative
    rw [intText, if_pos (by omega)] at digits
    obtain ⟨room', is⟩ : ∃ room', size - 1 = room' + 1 := ⟨size - 2, by omega⟩
    rw [is, take_succ_cons] at digits
    exact absurd (digits 45 mem_cons_self) (by decide)
  · intro positive c inside
    rw [intText, if_neg (by omega)] at inside
    exact Pqf.decimal_digits _ c (mem_of_mem_take inside)

/-! ### Parts of a query

For each part what is read from what is written for it, and when that is the same.
-/

/-- The attributes of a query: a number, or one string that does not look like a number, and no set or one of the table. -/
structure CoveredAttribute (element : AttributeElement Arcs) : Prop where
  set : ∀ oid ∈ element.attributeSet, oid ∈ attributeSets
  value : ∀ list, element.value = .complex list → ∃ octets, list = [.string octets] ∧ octets.all isDigit = false

def valueBack : AttributeValue → AttributeValue
  | .numeric n => if 0 ≤ n.toInt then .numeric (intVal (formstr 30 n)) else .complex [.string (formstr 30 n)]
  | .complex list => .complex list

def attributeBack (element : AttributeElement Arcs) : AttributeElement Arcs :=
  { element with attributeType := intVal (formstr 30 element.attributeType), value := valueBack element.value }

theorem setBack {oids : Option Arcs} (registered : ∀ oid ∈ oids, oid ∈ attributeSets) :
    (oids.map yazOidToStringBuf).bind (yazStringToOidOdr .attset) = oids := by
  cases oids with
  | none => rfl
  | some oid => exact yazStringToOidOdr_name (registered oid rfl)

theorem attributeProperties_read {set : Option Arcs} (registered : ∀ oid ∈ set, oid ∈ attributeSets) (type value : List UInt8) :
    yazXml2queryAttributeElement (set.toList.map (fun oid => xmlNewProp "set" (yazOidToStringBuf oid)) ++
      [xmlNewProp "type" type, xmlNewProp "value" value]) =
    .silent (some { attributeSet := set, attributeType := intVal type
                    value := if value.all isDigit = false then .complex [.string value] else .numeric (intVal value) }) := by
  have back := setBack registered
  have names : ascii "set" ≠ ascii "type" ∧ ascii "set" ≠ ascii "value" ∧ ascii "type" ≠ ascii "value" := by
    rw [Comstack.ascii_ofList, Comstack.ascii_ofList, Comstack.ascii_ofList]; decide
  cases set with
  | none =>
    simp [yazXml2queryAttributeElement, hasBad, textsOf, xmlNewProp, Property.text, names, names.1.symm, names.2.1.symm, names.2.2.symm]
  | some =>
    rw [Option.map_some, Option.bind_some] at back
    simp [yazXml2queryAttributeElement, hasBad, textsOf, xmlNewProp, Property.text, names, names.1.symm, names.2.1.symm,
      names.2.2.symm, back]

theorem attribute_read {element : AttributeElement Arcs} (covered : CoveredAttribute element) : ∃ properties,
    yazQuery2xmlAttributeElement element = [.element (ascii "attr") properties []] ∧
    yazXml2queryAttributeElement properties = .silent (some (attributeBack element)) := by
  cases value : element.value with
  | numeric n =>
    rw [yazQuery2xmlAttributeElement, value]
    refine ⟨_, rfl, ?_⟩
    rw [attributeProperties_read covered.set, attributeBack, value, valueBack]
    by_cases positive : 0 ≤ n.toInt
    · rw [if_pos positive, (formstr_digits (by decide) n).mpr positive, if_neg (by decide)]
    · have sign : (formstr 30 n).all isDigit = false := by
        rw [← Bool.not_eq_true, formstr_digits (by decide)]
        exact positive
      rw [if_neg positive, if_pos sign]
  | complex list =>
    obtain ⟨octets, rfl, text⟩ := covered.value list value
    rw [yazQuery2xmlAttributeElement, value]
    refine ⟨_, rfl, ?_⟩
    rw [attributeProperties_read covered.set, attributeBack, value, valueBack, if_pos text]

structure FittingAttribute (element : AttributeElement Arcs) : Prop where
  type : FitsInt element.attributeType
  value : ∀ n, element.value = .numeric n → 0 ≤ n.toInt ∧ n.toInt < 2 ^ 31

theorem attributeBack_iff (element : AttributeElement Arcs) : attributeBack element = element ↔ FittingAttribute element := by
  obtain ⟨set, type, value⟩ := element
  simp only [attributeBack, AttributeElement.mk.injEq, true_and]
  rw [intVal_formstr_iff (by decide)]
  cases value with
  | complex => exact ⟨fun same => ⟨same.1, nofun⟩, fun fits => ⟨fits.type, rfl⟩⟩
  | numeric n =>
    rw [valueBack]
    by_cases positive : 0 ≤ n.toInt
    · rw [if_pos positive, AttributeValue.numeric.injEq, intVal_formstr_iff (by decide)]
      constructor
      · rintro ⟨typeFits, valueFits⟩
        refine ⟨typeFits, ?_⟩
        rintro _ ⟨⟩
        exact ⟨positive, valueFits.2⟩
      · intro fits
        have range := fits.value n rfl
        exact ⟨fits.type, by omega, range.2⟩
    · rw [if_neg positive]
      constructor
      · rintro ⟨-, ⟨⟩⟩
      · intro fits
        exact absurd (fits.value n rfl).1 positive

def CoveredTerm : Term → Prop
  | .general octets => 0 ∉ octets
  | .characterString octets => 0 ∉ octets
  | .numeric _ => True
  | .null => True

def termBack : Term → Term
  | .numeric n => .numeric (intVal (formstr 20 n))
  | term => term

def FittingTerm (term : Term) : Prop := ∀ n, term = .numeric n → FitsInt n

theorem term_read {term : Term} (covered : CoveredTerm term) : ∃ properties children,
    yazQuery2xmlTerm term = .element (ascii "term") properties children ∧
    yazXml2queryTerm properties children = .silent (some (some (termBack term))) := by
  have types : ascii "numeric" ≠ ascii "general" ∧ ascii "string" ≠ ascii "general" ∧ ascii "string" ≠ ascii "numeric" ∧
    ascii "null" ≠ ascii "general" ∧ ascii "null" ≠ ascii "numeric" ∧ ascii "null" ≠ ascii "string" ∧ ascii "null" ≠ ascii "oid" ∧
    ascii "null" ≠ ascii "dateTime" ∧ ascii "null" ≠ ascii "integerAndUnit" := by decide
  cases term with
  | general octets =>
    refine ⟨_, _, rfl, ?_⟩
    have text : cString octets = octets := Pqf.cString_eq_self covered
    simp [yazXml2queryTerm, hasBad, textsOf, xmlNewProp, Property.text, nmemTextNodeCdata, termBack, text]
  | numeric =>
    refine ⟨_, _, rfl, ?_⟩
    simp [yazXml2queryTerm, hasBad, textsOf, xmlNewProp, Property.text, nmemTextNodeCdata, termBack, types]
  | characterString octets =>
    refine ⟨_, _, rfl, ?_⟩
    have text : cString octets = octets := Pqf.cString_eq_self covered
    simp [yazXml2queryTerm, hasBad, textsOf, xmlNewProp, Property.text, nmemTextNodeCdata, termBack, text, types]
  | null =>
    refine ⟨_, _, rfl, ?_⟩
    simp [yazXml2queryTerm, hasBad, textsOf, xmlNewProp, Property.text, termBack, types]

theorem termBack_iff (term : Term) : termBack term = term ↔ FittingTerm term := by
  cases term with
  | numeric n =>
    rw [termBack, Term.numeric.injEq, intVal_formstr_iff (by decide)]
    exact ⟨fun fits _ is => Term.numeric.inj is ▸ fits, fun fits => fits n rfl⟩
  | _ => exact ⟨fun _ => nofun, fun _ => rfl⟩

def CoveredOperator (op : Operator) : Prop := ∀ prox, op = .prox prox → prox.which = .known

def truth (value : Int32) : Int32 := if value ≠ 0 then 1 else 0

def operatorBack : Operator → Operator
  | .prox prox =>
    .prox { prox with
      exclusion := prox.exclusion.map truth
      distance := intVal (formstr 30 prox.distance)
      ordered := truth prox.ordered
      relationType := intVal (formstr 30 prox.relationType)
      unit := intVal (formstr 30 prox.unit) }
  | op => op

structure FittingProximity (prox : Proximity) : Prop where
  exclusion : ∀ value ∈ prox.exclusion, value = 0 ∨ value = 1
  distance : FitsInt prox.distance
  ordered : prox.ordered = 0 ∨ prox.ordered = 1
  relationType : FitsInt prox.relationType
  unit : FitsInt prox.unit

def FittingOperator (op : Operator) : Prop := ∀ prox, op = .prox prox → FittingProximity prox

theorem boolVal_trueOrFalse (value : Int32) : boolVal (trueOrFalse value) = truth value := by
  have read : boolVal (ascii "true") = 1 ∧ boolVal (ascii "false") = 0 := by rw [Comstack.ascii_ofList, Comstack.ascii_ofList]; decide
  rw [trueOrFalse, truth]
  split
  · exact read.1
  · exact read.2

theorem operator_read {op : Operator} (covered : CoveredOperator op) :
    yazXml2queryOperator (yazQuery2xmlOperator op) = some (.silent (some (some (operatorBack op)))) := by
  have types : ascii "or" ≠ ascii "and" ∧ ascii "not" ≠ ascii "and" ∧ ascii "not" ≠ ascii "or" ∧ ascii "prox" ≠ ascii "and" ∧
    ascii "prox" ≠ ascii "or" ∧ ascii "prox" ≠ ascii "not" := by decide
  cases op with
  | and => simp [yazXml2queryOperator, yazQuery2xmlOperator, yazXmlGetProp, xmlNewProp, operatorBack]
  | or => simp [yazXml2queryOperator, yazQuery2xmlOperator, yazXmlGetProp, xmlNewProp, operatorBack, types]
  | andNot => simp [yazXml2queryOperator, yazQuery2xmlOperator, yazXmlGetProp, xmlNewProp, operatorBack, types]
  | prox prox =>
    have known := covered prox rfl
    have names : ascii "exclusion" ≠ ascii "type" ∧ ascii "distance" ≠ ascii "type" ∧ ascii "distance" ≠ ascii "exclusion" ∧
      ascii "ordered" ≠ ascii "type" ∧ ascii "ordered" ≠ ascii "exclusion" ∧ ascii "ordered" ≠ ascii "distance" := by decide
    have relationType : ascii "relationType" ≠ ascii "type" ∧ ascii "relationType" ≠ ascii "exclusion" ∧
      ascii "relationType" ≠ ascii "distance" ∧ ascii "relationType" ≠ ascii "ordered" := by decide
    have unit : ascii "knownProximityUnit" ≠ ascii "type" ∧ ascii "knownProximityUnit" ≠ ascii "exclusion" ∧
      ascii "knownProximityUnit" ≠ ascii "distance" ∧ ascii "knownProximityUnit" ≠ ascii "ordered" ∧
      ascii "knownProximityUnit" ≠ ascii "relationType" := by decide
    have numbers (pop : Proximity) :
      proxProperties [xmlNewProp "distance" (formstr 30 prox.distance), xmlNewProp "ordered" (trueOrFalse prox.ordered),
        xmlNewProp "relationType" (formstr 30 prox.relationType), xmlNewProp "knownProximityUnit" (formstr 30 prox.unit)] pop =
      some (.silent (some (some (.prox { pop with
        distance := intVal (formstr 30 prox.distance)
        ordered := truth prox.ordered
        relationType := intVal (formstr 30 prox.relationType)
        which := .known
        unit := intVal (formstr 30 prox.unit) })))) := by
      simp [proxProperties, xmlNewProp, names, relationType, unit, boolVal_trueOrFalse]
    have type : yazXml2queryOperator (yazQuery2xmlOperator (.prox prox)) =
        proxProperties (yazQuery2xmlOperator (.prox prox)) defaultProximity := by
      simp [yazXml2queryOperator, yazQuery2xmlOperator, yazXmlGetProp, xmlNewProp, types]
    have first (properties : List Property) (pop : Proximity) :
        proxProperties (xmlNewProp "type" (ascii "prox") :: properties) pop = proxProperties properties pop := by
      simp [proxProperties, xmlNewProp]
    have second (value : List UInt8) (properties : List Property) (pop : Proximity) :
        proxProperties (xmlNewProp "exclusion" value :: properties) pop =
          proxProperties properties { pop with exclusion := some (boolVal value) } := by
      simp [proxProperties, xmlNewProp, names]
    rw [type, yazQuery2xmlOperator, first, known]
    cases exclusion : prox.exclusion with
    | none =>
      rw [Option.toList_none, map_nil, nil_append, numbers, operatorBack, exclusion, known]
      rfl
    | some =>
      rw [Option.toList_some, map_singleton, singleton_append, second, numbers, operatorBack, exclusion, known, boolVal_trueOrFalse]
      rfl

theorem truth_iff (value : Int32) : truth value = value ↔ value = 0 ∨ value = 1 := by
  rw [truth]
  split
  next nonzero => exact ⟨fun is => .inr is.symm, fun is => (is.resolve_left nonzero).symm⟩
  next zero =>
    have zero : value = 0 := by simpa using zero
    exact ⟨fun is => .inl zero, fun _ => zero.symm⟩

theorem operatorBack_iff (op : Operator) : operatorBack op = op ↔ FittingOperator op := by
  cases op with
  | prox prox =>
    obtain ⟨exclusion, distance, ordered, relationType, which, unit⟩ := prox
    simp only [operatorBack, Operator.prox.injEq, Proximity.mk.injEq, true_and, intVal_formstr_iff (show 12 ≤ 30 by decide), truth_iff]
    have option : exclusion.map truth = exclusion ↔ ∀ value ∈ exclusion, value = 0 ∨ value = 1 := by
      cases exclusion with
      | none => simp
      | some => simp [truth_iff]
    rw [option]
    constructor
    · rintro ⟨bool, distanceFits, orderedBool, relationFits, unitFits⟩ _ ⟨⟩
      exact ⟨bool, distanceFits, orderedBool, relationFits, unitFits⟩
    · intro fits
      obtain ⟨bool, distanceFits, orderedBool, relationFits, unitFits⟩ := fits _ rfl
      exact ⟨bool, distanceFits, orderedBool, relationFits, unitFits⟩
  | _ => exact ⟨fun _ => nofun, fun _ => rfl⟩

structure CoveredApt (zapt : AttributesPlusTerm Arcs) : Prop where
  attributes : ∃ attributes, zapt.attributes = some attributes ∧ ∀ element ∈ attributes, CoveredAttribute element
  term : CoveredTerm zapt.term

structure FittingApt (zapt : AttributesPlusTerm Arcs) : Prop where
  attributes : ∀ attributes, zapt.attributes = some attributes → ∀ element ∈ attributes, FittingAttribute element
  term : FittingTerm zapt.term

theorem attributes_read {attributes : List (AttributeElement Arcs)} (covered : ∀ element ∈ attributes, CoveredAttribute element)
    (properties : List Property) (children : List Node) : ∃ all,
      aptContent (attributes.flatMap yazQuery2xmlAttributeElement ++ [.element (ascii "term") properties children]) =
        (all, some { name := ascii "term", properties, children }) ∧
      all.map yazXml2queryAttributeElement = attributes.map fun element => .silent (some (attributeBack element)) := by
  induction attributes with
  | nil =>
    have other : ascii "term" ≠ ascii "attr" := by rw [Comstack.ascii_ofList, Comstack.ascii_ofList]; decide
    refine ⟨[], ?_, rfl⟩
    rw [flatMap_nil, nil_append, aptContent, if_neg other]
  | cons _ _ ih =>
    rw [forall_mem_cons] at covered
    obtain ⟨all, content, read⟩ := ih covered.2
    obtain ⟨first, written, back⟩ := attribute_read covered.1
    refine ⟨first :: all, ?_, ?_⟩
    · rw [flatMap_cons, written, append_assoc, singleton_append, aptContent, if_pos rfl, content]
    · rw [map_cons, back, read, map_cons]

/-- A query whose pointers are all set, with a list of attributes. -/
def structureOf : Rpn Arcs → Structure
  | .apt zapt => .apt ((zapt.attributes.getD []).map some) (some (some zapt.term))
  | .resultSet name => .resultSet (some name)
  | .complex roperator s1 s2 => .complex (some (some roperator)) (structureOf s1) (structureOf s2)

theorem apt_read {zapt : AttributesPlusTerm Arcs} (covered : CoveredApt zapt) : ∃ children,
    yazQuery2xmlApt zapt = .element (ascii "apt") [] children ∧
    yazXml2queryApt children =
      .silent (structureOf (.apt { attributes := zapt.attributes.map (List.map attributeBack), term := termBack zapt.term })) := by
  obtain ⟨attributes, is, each⟩ := covered.attributes
  obtain ⟨properties, children, written, back⟩ := term_read covered.term
  obtain ⟨all, content, read⟩ := attributes_read each properties children
  refine ⟨_, rfl, ?_⟩
  have other : ascii "term" ≠ ascii "diagnostic" := by rw [Comstack.ascii_ofList, Comstack.ascii_ofList]; decide
  rw [is, Option.getD_some, written, yazXml2queryApt, content, read]
  simp [aptTerm, checkDiagnostic, other, back, Left.silent, structureOf, Function.comp_def]

theorem aptBack_iff {zapt : AttributesPlusTerm Arcs} :
    { attributes := zapt.attributes.map (List.map attributeBack), term := termBack zapt.term } = zapt ↔ FittingApt zapt := by
  obtain ⟨attributes, term⟩ := zapt
  rw [AttributesPlusTerm.mk.injEq, termBack_iff]
  have each : attributes.map (List.map attributeBack) = attributes ↔
      ∀ list, attributes = some list → ∀ element ∈ list, FittingAttribute element := by
    cases attributes with
    | none => simp
    | some list =>
      simp only [Option.map_some, Option.some.injEq, forall_eq']
      have identity : list.map attributeBack = list ↔ list.map attributeBack = list.map id := by rw [map_id]
      rw [identity, map_inj_left]
      exact forall₂_congr fun element _ => attributeBack_iff element
  rw [each]
  exact ⟨fun fits => ⟨fits.1, fits.2⟩, fun fits => ⟨fits.attributes, fits.term⟩⟩

theorem structureOf_apt {zapt zapt' : AttributesPlusTerm Arcs} (given : zapt.attributes.isSome = zapt'.attributes.isSome) :
    structureOf (.apt zapt) = structureOf (.apt zapt') ↔ zapt = zapt' := by
  refine ⟨fun same => ?_, fun same => by rw [same]⟩
  obtain ⟨attributes, term⟩ := zapt
  obtain ⟨attributes', term'⟩ := zapt'
  simp only [structureOf, Structure.apt.injEq, Option.some.injEq, map_inj_right fun _ _ => Option.some.inj] at same
  obtain ⟨lists, rfl⟩ := same
  cases attributes <;> cases attributes' <;> simp_all

/-! ### Whole queries -/

/-- What `xmlNewChild` is documented to do with a content: one without an ampersand is kept, and a reference is replaced. -/
structure ParsesReferences (newChildContent : List UInt8 → List Node) : Prop where
  plain : ∀ content, content ≠ [] → 38 ∉ content → newChildContent content = [.text content]
  empty : nmemTextNodeCdata (newChildContent []) = []
  reference : ∀ content, 38 ∈ content → nmemTextNodeCdata (newChildContent content) ≠ content

def CoveredRpn : Rpn Arcs → Prop
  | .apt zapt => CoveredApt zapt
  | .resultSet _ => True
  | .complex op s1 s2 => CoveredOperator op ∧ CoveredRpn s1 ∧ CoveredRpn s2

section
variable (newChildContent : List UInt8 → List Node)

def FittingName (name : List UInt8) : Prop := 38 ∉ name ∧ (name = [] → newChildContent [] ≠ [])

def FittingRpn : Rpn Arcs → Prop
  | .apt zapt => FittingApt zapt
  | .resultSet name => FittingName newChildContent name
  | .complex op s1 s2 => FittingOperator op ∧ FittingRpn s1 ∧ FittingRpn s2

variable {newChildContent}

theorem rset_read_iff (parses : ParsesReferences newChildContent) (name : List UInt8) :
    yazXml2queryRset (newChildContent name) = .silent (structureOf (.resultSet name)) ↔ FittingName newChildContent name := by
  have read (children : List Node) : yazXml2queryRset children = .silent (structureOf (.resultSet name)) ↔
      children ≠ [] ∧ nmemTextNodeCdata children = name := by
    cases children with
    | nil => simp [yazXml2queryRset, Left.failed, Left.silent]
    | cons => simp [yazXml2queryRset, Left.silent, structureOf]
  rw [read, FittingName]
  constructor
  · rintro ⟨some', same⟩
    refine ⟨fun ampersand => parses.reference name ampersand same, ?_⟩
    rintro rfl
    exact some'
  · rintro ⟨noAmpersand, some'⟩
    by_cases empty : name = []
    · subst empty
      exact ⟨some' rfl, parses.empty⟩
    · rw [parses.plain name empty noAmpersand]
      exact ⟨cons_ne_nil _ _, append_nil _⟩

theorem elements_structure (r : Rpn Arcs) (rest : List Node) :
    yazXml2queryElements (yazQuery2xmlRpnstructure newChildContent r :: rest) =
      yazXml2queryElement (yazQuery2xmlRpnstructure newChildContent r) :: yazXml2queryElements rest := by
  cases r <;> rfl

theorem structure_read_iff (parses : ParsesReferences newChildContent) {r : Rpn Arcs} (covered : CoveredRpn r) :
    yazXml2queryElement (yazQuery2xmlRpnstructure newChildContent r) = some (.silent (structureOf r)) ↔ FittingRpn newChildContent r := by
  have names : ascii "operator" ≠ ascii "diagnostic" ∧ ascii "apt" ≠ ascii "diagnostic" ∧ ascii "apt" ≠ ascii "operator" ∧
    ascii "rset" ≠ ascii "diagnostic" ∧ ascii "rset" ≠ ascii "operator" ∧ ascii "rset" ≠ ascii "apt" := by decide
  induction r with
  | apt =>
    obtain ⟨children, written, back⟩ := apt_read covered
    rw [yazQuery2xmlRpnstructure, written, yazXml2queryElement, FittingRpn, ← aptBack_iff, ← structureOf_apt (by simp)]
    simp [checkDiagnostic, names, back, Left.silent]
  | resultSet =>
    rw [yazQuery2xmlRpnstructure, yazXml2queryElement, FittingRpn, ← rset_read_iff parses]
    simp [checkDiagnostic, names]
  | complex op s1 s2 ih1 ih2 =>
    obtain ⟨coveredOp, covered1, covered2⟩ := covered
    have operands := and_congr (ih1 covered1) (ih2 covered2)
    rw [FittingRpn, ← operands, ← operatorBack_iff]
    rw [yazQuery2xmlRpnstructure, yazXml2queryElement, elements_structure, elements_structure, operator_read coveredOp]
    generalize yazXml2queryElement (yazQuery2xmlRpnstructure newChildContent s1) = one
    generalize yazXml2queryElement (yazQuery2xmlRpnstructure newChildContent s2) = other
    simp only [checkDiagnostic, names, if_false, if_true, firstOf, head?_cons, drop_one, tail_cons, Option.getD_some]
    cases one with
    | none => simp
    | some one =>
      cases other with
      | none => simp
      | some other =>
        obtain ⟨value, diagnostics⟩ := one
        obtain ⟨value', diagnostics'⟩ := other
        simp [Left.silent, structureOf, and_assoc, and_left_comm]

structure CoveredQuery (rpn : RpnQuery Arcs) : Prop where
  set : ∀ oid ∈ rpn.attributeSetId, oid ∈ attributeSets
  rpnStructure : CoveredRpn rpn.rpnStructure

/-- `Z_RPNQuery` in memory, as what is read. -/
def queryOf (rpn : RpnQuery Arcs) : Query :=
  some (some { attributeSetId := rpn.attributeSetId, rpnStructure := structureOf rpn.rpnStructure })

/-- A query comes back from its document exactly where its numbers are `int`s, those of attributes not negative, its truth values
are 0 or 1, and the names of its result sets are not parsed. -/
theorem yazXml2query_yazQuery2xml_iff (parses : ParsesReferences newChildContent) (rpn : RpnQuery Arcs) (covered : CoveredQuery rpn) :
    yazXml2query (yazQuery2xml newChildContent rpn) = some (.silent (queryOf rpn)) ↔ FittingRpn newChildContent rpn.rpnStructure := by
  obtain ⟨set, r⟩ := rpn
  have names : ascii "query" ≠ ascii "diagnostic" := by rw [Comstack.ascii_ofList, Comstack.ascii_ofList]; decide
  obtain ⟨found, is, back⟩ :
    ∃ found, yazXmlGetProp (set.toList.map fun oid => xmlNewProp "set" (yazOidToStringBuf oid)) (ascii "set") = some found ∧
      found.bind (yazStringToOidOdr .attset) = set := by
    have registered := setBack covered.set
    cases set with
    | none => exact ⟨none, rfl, rfl⟩
    | some oid => exact ⟨some (yazOidToStringBuf oid), by simp [yazXmlGetProp, xmlNewProp], registered⟩
  rw [← structure_read_iff parses covered.rpnStructure, yazQuery2xml, yazXml2query]
  simp only [checkDiagnostic, names, if_false, firstElement, if_true]
  rw [yazXml2queryRpn, elements_structure, is]
  simp only [firstOf, head?_cons, Option.getD_some]
  generalize yazXml2queryElement (yazQuery2xmlRpnstructure newChildContent r) = read
  cases read with
  | none => simp
  | some read =>
    obtain ⟨value, diagnostics⟩ := read
    simp [Left.silent, queryOf, back]

end

def beforeReference (content : List UInt8) : List Node := [.text (content.takeWhile (· ≠ 38))]

theorem beforeReference_parses : ParsesReferences beforeReference where
  plain content _ noAmpersand := by
    have kept : content.takeWhile (· ≠ 38) = content := by
      rw [takeWhile_eq_self_iff]
      intro c inside
      rw [decide_eq_true_eq]
      rintro rfl
      exact noAmpersand inside
    rw [beforeReference, kept]
  empty := rfl
  reference content ampersand same := by
    have kept : content.takeWhile (· ≠ 38) = content := by simpa [beforeReference, nmemTextNodeCdata] using same
    have other := takeWhile_eq_self_iff.mp kept 38 ampersand
    simp at other

def useQuery (value : Int64) (name : String) : RpnQuery Arcs where
  attributeSetId := some [1, 2, 840, 10003, 3, 1]
  rpnStructure := .complex (.prox { exclusion := some 0, distance := 3, ordered := 1, relationType := 2, which := .known, unit := 2 })
    (.apt { attributes := some [{ attributeSet := none, attributeType := 1, value := .numeric value }], term := .general (ascii "tom & jerry") })
    (.resultSet (ascii name))

theorem useQuery_covered (value : Int64) (name : String) : CoveredQuery (useQuery value name) := by
  have text : 0 ∉ ascii "tom & jerry" := by rw [Comstack.ascii_ofList]; decide
  refine ⟨?_, ?_, ⟨⟨_, rfl, ?_⟩, text⟩, trivial⟩
  · rintro _ ⟨⟩
    decide
  · rintro _ ⟨⟩
    rfl
  · intro element among
    rw [mem_singleton.mp among]
    exact ⟨nofun, nofun⟩

theorem useQuery_back : yazXml2query (yazQuery2xml beforeReference (useQuery 4 "last")) = some (.silent (queryOf (useQuery 4 "last"))) := by
  refine (yazXml2query_yazQuery2xml_iff beforeReference_parses (useQuery 4 "last") (useQuery_covered 4 "last")).mpr ⟨?_, ⟨?_, nofun⟩, ?_⟩
  · rintro _ ⟨⟩
    refine ⟨?_, by decide, by decide, by decide, by decide⟩
    rintro _ ⟨⟩
    decide
  · rintro _ ⟨⟩ element among
    rw [mem_singleton.mp among]
    refine ⟨by decide, ?_⟩
    rintro _ ⟨⟩
    decide
  · exact ⟨by decide, fun empty => absurd empty (by decide)⟩

/-- A value of 2147483648 comes back negative, one of -1 as a string, and a name with an ampersand is cut. -/
theorem useQuery_changed :
    CoveredQuery (useQuery 2147483648 "last") ∧
    yazXml2query (yazQuery2xml beforeReference (useQuery 2147483648 "last")) = some (.silent (queryOf (useQuery (-2147483648) "last"))) ∧
    queryOf (useQuery 2147483648 "last") ≠ queryOf (useQuery (-2147483648) "last") ∧
    CoveredQuery (useQuery (-1) "last") ∧
    yazXml2query (yazQuery2xml beforeReference (useQuery (-1) "last")) ≠ some (.silent (queryOf (useQuery (-1) "last"))) ∧
    CoveredQuery (useQuery 4 "a&b") ∧
    yazXml2query (yazQuery2xml beforeReference (useQuery 4 "a&b")) = some (.silent (queryOf (useQuery 4 "a"))) ∧
    queryOf (useQuery 4 "a&b") ≠ queryOf (useQuery 4 "a") := by
  refine ⟨useQuery_covered _ _, ?_, by decide, useQuery_covered _ _, ?_, useQuery_covered _ _, ?_, by decide⟩ <;> decide +kernel

end Yaz.Xml
