import Yaz.Xml.Decoding

/-! Which defects of a document are reported: the parts of it in the order of reading, with the code that each records.

All parts share one error code, so that only the last defect counts, and a diagnostic may record zero.
-/

set_option autoImplicit false

namespace Yaz.Xml.Decoding
open List
open Yaz.Comstack (ascii)
open Yaz.Pqf (AttributeElement Operator Proximity Term)

attribute [local instance] lawfulText

/-! ### The parts of a document -/

/-- What is read by itself: properties, and a place where another element is expected, or content. -/
inductive Part where
  | rpn (properties : List Property)
  | operator (properties : List Property)
  | attr (properties : List Property)
  | term (properties : List Property)
  | diagnostic (properties : List Property)
  | misplaced
  deriving DecidableEq

def proxNames : List (List UInt8) :=
  [ascii "type", ascii "exclusion", ascii "distance", ascii "ordered", ascii "relationType", ascii "knownProximityUnit",
    ascii "privateProximityUnit"]

def reached : List Property → List Property
  | [] => []
  | attr :: rest => if attr.name ∈ proxNames then attr :: reached rest else [attr]

def contentOf (properties : List Property) (name : List UInt8) : Option (List UInt8) :=
  (properties.find? fun attr => attr.name = name).bind fun attr => attr.children.map Content.content

def lacksChild (properties : List Property) (name : List UInt8) : Bool :=
  (properties.find? fun attr => attr.name = name).any fun attr => attr.children.isNone

def Part.nullChild : Part → Bool
  | .rpn properties => lacksChild properties (ascii "set")
  | .operator properties =>
    lacksChild properties (ascii "type") ||
      contentOf properties (ascii "type") == some (ascii "prox") && (reached properties).any fun attr => attr.children.isNone
  | _ => false

def soundOperator (properties : List Property) : Bool :=
  match contentOf properties (ascii "type") with
  | none => false
  | some type =>
    type ∈ [ascii "and", ascii "or", ascii "not"] || type == ascii "prox" && properties.all fun attr => attr.name ∈ proxNames

def soundAttr (properties : List Property) : Bool :=
  !hasBad properties [ascii "set", ascii "type", ascii "value"] && textsOf properties (ascii "type") ≠ [] &&
    textsOf properties (ascii "value") ≠ []

def soundTerm (properties : List Property) : Bool :=
  !hasBad properties [ascii "type"] &&
    (textsOf properties (ascii "type")).getLast?.getD (ascii "general") ∈ [ascii "general", ascii "numeric", ascii "string", ascii "null"]

def diagnosticCode (properties : List Property) : Int32 :=
  if hasBad properties [ascii "code", ascii "addinfo"] then 1 else ((textsOf properties (ascii "code")).getLast?.map Zoom.atoi).getD 1

def Part.code : Part → Option Int32
  | .rpn _ => none
  | .operator properties => if soundOperator properties then none else some 1
  | .attr properties => if soundAttr properties then none else some 1
  | .term properties => if soundTerm properties then none else some 1
  | .diagnostic properties => some (diagnosticCode properties)
  | .misplaced => some 1

/-- The element behind the attributes of an `apt`. -/
def termParts : Option Element → List Part
  | none => [.misplaced]
  | some element =>
    if element.name = ascii "diagnostic" then [.diagnostic element.properties]
    else if element.name = ascii "term" then [.term element.properties]
    else [.misplaced]

def aptParts (children : List Node) : List Part := (aptContent children).1.map .attr ++ termParts (aptContent children).2

def rsetParts (children : List Node) : List Part := if children.isEmpty then [.misplaced] else []

def firstParts (elements : List (List Part)) : List Part := elements.head?.getD [.misplaced]

mutual

def elementParts : Node → List Part
  | .text _ => [.misplaced]
  | .other => [.misplaced]
  | .element name properties children =>
    if name = ascii "diagnostic" then [.diagnostic properties]
    else if name = ascii "operator" then
      .operator properties :: (firstParts (elementsParts children) ++ firstParts ((elementsParts children).drop 1))
    else if name = ascii "apt" then aptParts children
    else if name = ascii "rset" then rsetParts children
    else [.misplaced]

def elementsParts : List Node → List (List Part)
  | [] => []
  | .text _ :: rest => elementsParts rest
  | .other :: rest => elementsParts rest
  | .element name properties children :: rest => elementParts (.element name properties children) :: elementsParts rest

end

/-- The element inside `query`. -/
def queryParts : Option Element → List Part
  | none => [.misplaced]
  | some element =>
    if element.name = ascii "rpn" then .rpn element.properties :: firstParts (elementsParts element.children) else [.misplaced]

def parts : Node → List Part
  | .text _ => [.misplaced]
  | .other => [.misplaced]
  | .element name properties children =>
    if name = ascii "diagnostic" then [.diagnostic properties]
    else if name = ascii "query" then queryParts (firstElement children)
    else [.misplaced]

/-- A reading of some parts: it stops at a missing child, records the codes of the parts, and sets all if they are sound. -/
structure Reads {α : Type} (whole : α → Prop) (parts : List Part) (read : Option (Left α)) : Prop where
  stops : read = none ↔ ∃ part ∈ parts, part.nullChild = true
  codes : ∀ left, read = some left → left.diagnostics.map Diagnostic.errorCode = parts.filterMap Part.code
  sets : ∀ left, read = some left → (∀ part ∈ parts, part.code = none) → whole left.value
  leaves : ∀ left, read = some left → (∃ part ∈ parts, part.code = some 0) → ¬ whole left.value

section
variable {α β : Type} {whole : α → Prop}

theorem Reads.silent {value : α} {parts : List Part} (set : whole value) (safe : ∀ part ∈ parts, part.nullChild = false)
    (sound : ∀ part ∈ parts, part.code = none) : Reads whole parts (some (.silent value)) where
  stops := by
    constructor
    · intro impossible
      cases impossible
    · rintro ⟨part, inside, null⟩
      rw [safe part inside] at null
      cases null
  codes := by
    rintro left ⟨⟩
    exact (filterMap_eq_nil_iff.mpr sound).symm
  sets := by
    rintro left ⟨⟩ _
    exact set
  leaves := by
    rintro left ⟨⟩ ⟨part, inside, zero⟩
    rw [sound part inside] at zero
    cases zero

theorem Reads.failed {value : α} {part : Part} {diagnostic : Diagnostic} (safe : part.nullChild = false)
    (code : part.code = some diagnostic.errorCode) (unset : diagnostic.errorCode = 0 → ¬ whole value) :
    Reads whole [part] (some (.failed value diagnostic)) where
  stops := by simp [safe]
  codes := by
    rintro left ⟨⟩
    rw [filterMap_cons_some code]
    rfl
  sets := by
    intro left _ sound
    rw [sound part mem_cons_self] at code
    cases code
  leaves := by
    rintro left ⟨⟩ ⟨found, inside, zero⟩
    rw [mem_singleton.mp inside, code] at zero
    exact unset (Option.some.inj zero)

theorem Reads.stopped {part : Part} (null : part.nullChild = true) : Reads whole [part] none where
  stops := by simp [null]
  codes := by
    intro left impossible
    cases impossible
  sets := by
    intro left impossible
    cases impossible
  leaves := by
    intro left impossible
    cases impossible

theorem Reads.of_eq {parts : List Part} {read other : Option (Left α)} (reads : Reads whole parts read) (same : other = read) :
    Reads whole parts other := by
  rw [same]
  exact reads

theorem Reads.both {other : β → Prop} {parts rest : List Part} {first : Option (Left α)} {second : Option (Left β)}
    (reads : Reads whole parts first) (readsRest : Reads other rest second) :
    Reads (fun value : α × β => whole value.1 ∧ other value.2) (parts ++ rest) (first.bind fun left => second.map fun right =>
      { value := (left.value, right.value), diagnostics := left.diagnostics ++ right.diagnostics }) where
  stops := by
    constructor
    · intro none
      cases first with
      | none =>
        obtain ⟨part, inside, null⟩ := reads.stops.mp rfl
        exact ⟨part, mem_append_left _ inside, null⟩
      | some =>
        obtain ⟨part, inside, null⟩ := readsRest.stops.mp (Option.map_eq_none_iff.mp none)
        exact ⟨part, mem_append_right _ inside, null⟩
    · rintro ⟨part, inside, null⟩
      rcases mem_append.mp inside with inside | inside
      · rw [reads.stops.mpr ⟨part, inside, null⟩]
        rfl
      · rw [readsRest.stops.mpr ⟨part, inside, null⟩]
        cases first with
        | none => rfl
        | some => rfl
  codes := by
    intro left found
    obtain ⟨a, isFirst, found⟩ := Option.bind_eq_some_iff.mp found
    obtain ⟨b, isSecond, rfl⟩ := Option.map_eq_some_iff.mp found
    rw [map_append, filterMap_append, reads.codes a isFirst, readsRest.codes b isSecond]
  sets := by
    intro left found sound
    obtain ⟨a, isFirst, found⟩ := Option.bind_eq_some_iff.mp found
    obtain ⟨b, isSecond, rfl⟩ := Option.map_eq_some_iff.mp found
    exact ⟨reads.sets a isFirst fun part inside => sound part (mem_append_left _ inside),
      readsRest.sets b isSecond fun part inside => sound part (mem_append_right _ inside)⟩
  leaves := by
    rintro left found ⟨part, inside, zero⟩ ⟨set, setRest⟩
    obtain ⟨a, isFirst, found⟩ := Option.bind_eq_some_iff.mp found
    obtain ⟨b, isSecond, rfl⟩ := Option.map_eq_some_iff.mp found
    rcases mem_append.mp inside with inside | inside
    · exact reads.leaves a isFirst ⟨part, inside, zero⟩ set
    · exact readsRest.leaves b isSecond ⟨part, inside, zero⟩ setRest

theorem Reads.map {other : β → Prop} {parts : List Part} {read : Option (Left α)} (reads : Reads whole parts read) (f : α → β)
    (same : ∀ value, other (f value) ↔ whole value) :
    Reads other parts (read.map fun left => { value := f left.value, diagnostics := left.diagnostics }) where
  stops := Option.map_eq_none_iff.trans reads.stops
  codes := by
    intro left found
    obtain ⟨a, isRead, rfl⟩ := Option.map_eq_some_iff.mp found
    exact reads.codes a isRead
  sets := by
    intro left found sound
    obtain ⟨a, isRead, rfl⟩ := Option.map_eq_some_iff.mp found
    exact (same a.value).mpr (reads.sets a isRead sound)
  leaves := by
    intro left found zero set
    obtain ⟨a, isRead, rfl⟩ := Option.map_eq_some_iff.mp found
    exact reads.leaves a isRead zero ((same a.value).mp set)

end

/-! ### Each part -/

theorem bad_set {addinfo : String} {set : Prop} (zero : (bad addinfo).errorCode = 0) : ¬ set := by
  cases zero

theorem proxProperties_known {attr : Property} (known : attr.name ∈ proxNames) {child : Content} (present : attr.children = some child)
    (rest : List Property) (pop : Proximity) : ∃ later, proxProperties (attr :: rest) pop = proxProperties rest later := by
  rw [proxProperties, present, Option.bind_some]
  simp only [proxNames, mem_cons, not_mem_nil, or_false] at known
  split_ifs with h1 h2 h3 h4 h5 h6 h7
  all_goals first | exact ⟨_, rfl⟩ | skip
  exact absurd known (by simp [h1, h2, h3, h4, h5, h6, h7])

theorem proxProperties_unknown {attr : Property} (unknown : attr.name ∉ proxNames) {child : Content} (present : attr.children = some child)
    (rest : List Property) (pop : Proximity) :
    proxProperties (attr :: rest) pop = some (.failed (some (some (.prox pop))) (bad "bad proximity attribute")) := by
  simp only [proxNames, mem_cons, not_mem_nil, or_false, not_or] at unknown
  obtain ⟨h1, h2, h3, h4, h5, h6, h7⟩ := unknown
  rw [proxProperties, present, Option.bind_some, if_neg h1, if_neg h2, if_neg h3, if_neg h4, if_neg h5, if_neg h6, if_neg h7]

variable (properties : List Property)

theorem proxProperties_reached (pop : Proximity) :
    (proxProperties properties pop = none ∧ (reached properties).any (fun attr => attr.children.isNone) = true) ∨
    ((reached properties).any (fun attr => attr.children.isNone) = false ∧ ∃ prox, proxProperties properties pop = some
      (if properties.all fun attr => attr.name ∈ proxNames then .silent (some (some (.prox prox)))
        else .failed (some (some (.prox prox))) (bad "bad proximity attribute"))) := by
  induction properties generalizing pop with
  | nil => exact Or.inr ⟨rfl, pop, rfl⟩
  | cons attr rest ih =>
    cases children : attr.children with
    | none =>
      refine Or.inl ⟨by rw [proxProperties, children, Option.bind_none], ?_⟩
      rw [reached]
      split <;> simp [children]
    | some =>
      rw [reached, all_cons]
      by_cases known : attr.name ∈ proxNames
      · obtain ⟨later, step⟩ := proxProperties_known known children rest pop
        rw [step, if_pos known, any_cons, children, decide_eq_true known, Bool.true_and]
        exact ih later
      · rw [proxProperties_unknown known children, if_neg known, decide_eq_false known]
        exact Or.inr ⟨by simp [children], pop, rfl⟩

def IsOperator (roperator : Option OperatorPart) : Prop := ∃ operator, roperator = some (some operator)

theorem operator_reads : Reads IsOperator [.operator properties] (yazXml2queryOperator properties) := by
  have failed {value : Option OperatorPart} {addinfo : String} (safe : (Part.operator properties).nullChild = false)
      (unsound : soundOperator properties = false) : Reads IsOperator [.operator properties] (some (.failed value (bad addinfo))) :=
    Reads.failed safe (by rw [Part.code, unsound]; rfl) bad_set
  have silent {operator : Operator} (safe : (Part.operator properties).nullChild = false) (sound : soundOperator properties = true) :
      Reads IsOperator [.operator properties] (some (.silent (some (some operator)))) :=
    Reads.silent ⟨operator, rfl⟩ (by simpa using safe) (by simp [Part.code, sound])
  rw [yazXml2queryOperator, yazXmlGetProp]
  cases found : properties.find? fun attr => attr.name = ascii "type" with
  | none =>
    apply failed
    · simp [Part.nullChild, lacksChild, contentOf, found]
    · simp [soundOperator, contentOf, found]
  | some attr =>
    dsimp only
    cases children : attr.children with
    | none =>
      rw [Option.map_none, Option.bind_none]
      exact Reads.stopped (by simp [Part.nullChild, lacksChild, found, children])
    | some child =>
      have content : contentOf properties (ascii "type") = some child.content := by rw [contentOf, found, Option.bind_some, children]; rfl
      have lacks : lacksChild properties (ascii "type") = false := by rw [lacksChild, found]; simp [children]
      have safe (other : child.content ≠ ascii "prox") : (Part.operator properties).nullChild = false := by
        simp [Part.nullChild, lacks, content, other]
      rw [Option.map_some, Option.bind_some]
      dsimp only
      split_ifs with isAnd isOr isNot isProx
      · exact silent (safe (by rw [isAnd]; decide)) (by simp [soundOperator, content, isAnd])
      · exact silent (safe (by rw [isOr]; decide)) (by simp [soundOperator, content, isOr])
      · exact silent (safe (by rw [isNot]; decide)) (by simp [soundOperator, content, isNot])
      · have null : (Part.operator properties).nullChild = (reached properties).any fun attr => attr.children.isNone := by
          simp [Part.nullChild, lacks, content, isProx]
        have sound : soundOperator properties = properties.all fun attr => attr.name ∈ proxNames := by
          rw [isProx] at isAnd isOr isNot content
          simp [soundOperator, content, isAnd, isOr, isNot]
        rcases proxProperties_reached properties defaultProximity with ⟨stopped, missing⟩ | ⟨present, prox, read⟩
        · rw [stopped]
          exact Reads.stopped (null.trans missing)
        · rw [read]
          split
          · next known => exact silent (null.trans present) (sound.trans known)
          · next unknown => exact failed (null.trans present) (sound.trans (Bool.eq_false_iff.mpr unknown))
      · exact failed (safe isProx) (by simp [soundOperator, content, isAnd, isOr, isNot, isProx])

theorem attribute_reads :
    Reads (fun element => element.isSome = true) [.attr properties] (some (yazXml2queryAttributeElement properties)) := by
  have failed {addinfo : String} (unsound : soundAttr properties = false) :
      Reads (fun element => element.isSome = true) [.attr properties]
        (some (.failed (none : Option (AttributeElement Arcs)) (bad addinfo))) :=
    Reads.failed rfl (by rw [Part.code, unsound]; rfl) bad_set
  rw [yazXml2queryAttributeElement]
  split_ifs with isBad
  · exact failed (by simp [soundAttr, isBad])
  · split
    · next noType =>
      apply failed
      simp [soundAttr, getLast?_eq_none_iff.mp noType]
    · next type isType =>
      dsimp only
      split
      · next noValue =>
        apply failed
        simp [soundAttr, getLast?_eq_none_iff.mp noValue]
      · next value isValue =>
        apply Reads.silent
        · rfl
        · simp [Part.nullChild]
        · have typed : textsOf properties (ascii "type") ≠ [] := by
            intro empty
            rw [empty] at isType
            cases isType
          have valued : textsOf properties (ascii "value") ≠ [] := by
            intro empty
            rw [empty] at isValue
            cases isValue
          simp [Part.code, soundAttr, isBad, typed, valued]

def IsTerm (term : Option (Option Term)) : Prop := ∃ kind, term = some (some kind)

theorem term_reads (children : List Node) :
    Reads IsTerm [.term properties] (some (yazXml2queryTerm properties children)) := by
  have failed {value : Option (Option Term)} {addinfo : String} (unsound : soundTerm properties = false) :
      Reads IsTerm [.term properties] (some (.failed value (bad addinfo))) :=
    Reads.failed rfl (by rw [Part.code, unsound]; rfl) bad_set
  have silent {kind : Term} (sound : soundTerm properties = true) :
      Reads IsTerm [.term properties] (some (.silent (some (some kind)))) :=
    Reads.silent ⟨kind, rfl⟩ (by simp [Part.nullChild]) (by simp [Part.code, sound])
  rw [yazXml2queryTerm]
  dsimp only
  generalize typed : (textsOf properties (ascii "type")).getLast?.getD (ascii "general") = type
  have sound (good : hasBad properties [ascii "type"] = false) :
      soundTerm properties = decide (type ∈ [ascii "general", ascii "numeric", ascii "string", ascii "null"]) := by
    rw [soundTerm, good, typed]
    rfl
  split_ifs with isBad general numeric string oid dateTime unit null
  · exact failed (by simp [soundTerm, isBad])
  all_goals rw [Bool.not_eq_true] at isBad
  · exact silent (by simp [sound isBad, general])
  · exact silent (by simp [sound isBad, numeric])
  · exact silent (by simp [sound isBad, string])
  · exact failed (by rw [sound isBad, oid]; decide)
  · exact failed (by rw [sound isBad, dateTime]; decide)
  · exact failed (by rw [sound isBad, unit]; decide)
  · exact silent (by simp [sound isBad, null])
  · exact failed (by simp [sound isBad, general, numeric, string, null])

theorem checkDiagnostic_none {name : List UInt8} {properties : List Property} (found : checkDiagnostic name properties = none) :
    name ≠ ascii "diagnostic" := by
  rintro rfl
  rw [checkDiagnostic, if_pos rfl] at found
  split_ifs at found
  split at found <;> cases found

theorem checkDiagnostic_some {name : List UInt8} {properties : List Property} {diagnostic : Diagnostic}
    (found : checkDiagnostic name properties = some diagnostic) :
    name = ascii "diagnostic" ∧ diagnostic.errorCode = diagnosticCode properties := by
  rw [checkDiagnostic] at found
  rw [diagnosticCode]
  split_ifs at found with named isBad
  · cases found
    rw [if_pos isBad]
    exact ⟨named, rfl⟩
  · rw [if_neg isBad]
    split at found
    · next noCode =>
      cases found
      rw [noCode]
      exact ⟨named, rfl⟩
    · next code isCode =>
      cases found
      rw [isCode]
      exact ⟨named, rfl⟩

theorem diagnostic_reads {α : Type} {whole : α → Prop} {value : α} (unset : ¬ whole value) {name : List UInt8} {properties : List Property}
    {diagnostic : Diagnostic} (found : checkDiagnostic name properties = some diagnostic) :
    Reads whole [.diagnostic properties] (some (.failed value diagnostic)) :=
  Reads.failed rfl (by rw [Part.code, (checkDiagnostic_some found).2]) fun _ => unset

theorem misplaced_reads {α : Type} {whole : α → Prop} {value : α} {addinfo : String} :
    Reads whole [.misplaced] (some (.failed value (bad addinfo))) :=
  Reads.failed rfl rfl bad_set

theorem aptTerm_reads (element : Option Element) : Reads IsTerm (termParts element) (some (aptTerm element)) := by
  cases element with
  | none => exact misplaced_reads
  | some element =>
    rw [termParts, aptTerm]
    cases found : checkDiagnostic element.name element.properties with
    | some =>
      rw [if_pos (checkDiagnostic_some found).1]
      apply diagnostic_reads ?_ found
      rintro ⟨kind, impossible⟩
      cases impossible
    | none =>
      rw [if_neg (checkDiagnostic_none found)]
      split_ifs
      · exact term_reads element.properties element.children
      · exact misplaced_reads

theorem attributes_reads (list : List (List Property)) :
    Reads (fun attributes => ∀ element ∈ attributes, element.isSome = true) (list.map .attr)
      (some { value := (list.map yazXml2queryAttributeElement).map Left.value
              diagnostics := (list.map yazXml2queryAttributeElement).flatMap Left.diagnostics }) := by
  induction list with
  | nil =>
    apply Reads.silent
    · simp
    · simp
    · simp
  | cons properties _ ih =>
    have both := (attribute_reads properties).both ih
    exact both.map (fun values => values.1 :: values.2) fun values => forall_mem_cons

theorem apt_reads (children : List Node) : Reads Structure.Whole (aptParts children) (some (yazXml2queryApt children)) := by
  have both := (attributes_reads (aptContent children).1).both (aptTerm_reads (aptContent children).2)
  exact both.map (fun values => Structure.apt values.1 values.2) fun values => Iff.rfl

theorem rset_reads (children : List Node) : Reads Structure.Whole (rsetParts children) (some (yazXml2queryRset children)) := by
  cases children with
  | nil => exact misplaced_reads
  | cons =>
    apply Reads.silent
    · rfl
    · simp [rsetParts]
    · simp [rsetParts]

theorem firstOf_reads {elements : List (List Part)} {read : List (Option (Left Structure))}
    (all : List.Forall₂ (Reads Structure.Whole) elements read) : Reads Structure.Whole (firstParts elements) (firstOf read) := by
  cases all with
  | nil => exact misplaced_reads
  | cons first => exact first

theorem complex_reads {properties : List Property} {elements : List (List Part)} {read : List (Option (Left Structure))}
    (all : List.Forall₂ (Reads Structure.Whole) elements read) :
    Reads Structure.Whole (.operator properties :: (firstParts elements ++ firstParts (elements.drop 1)))
      (do
        let roperator ← yazXml2queryOperator properties
        let s1 ← firstOf read
        let s2 ← firstOf (read.drop 1)
        return {
          value := Structure.complex roperator.value s1.value s2.value
          diagnostics := roperator.diagnostics ++ s1.diagnostics ++ s2.diagnostics }) := by
  have operands := (firstOf_reads all).both (firstOf_reads (forall₂_drop 1 all))
  have reads : Reads Structure.Whole _ _ := ((operator_reads properties).both operands).map
    (fun values => Structure.complex values.1 values.2.1 values.2.2) fun values => Iff.rfl
  refine reads.of_eq ?_
  cases yazXml2queryOperator properties with
  | none => rfl
  | some =>
    cases firstOf read with
    | none => rfl
    | some =>
      cases firstOf (read.drop 1) with
      | none => rfl
      | some => exact congrArg some (congrArg (Left.mk _) (append_assoc _ _ _))

mutual

theorem element_reads : (node : Node) → Reads Structure.Whole (elementParts node) (yazXml2queryElement node)
  | .text _ => misplaced_reads
  | .other => misplaced_reads
  | .element name properties children => by
    rw [elementParts, yazXml2queryElement]
    cases found : checkDiagnostic name properties with
    | some =>
      rw [if_pos (checkDiagnostic_some found).1]
      exact diagnostic_reads id found
    | none =>
      rw [if_neg (checkDiagnostic_none found)]
      split_ifs
      · exact complex_reads (elements_reads children)
      · exact apt_reads children
      · exact rset_reads children
      · exact misplaced_reads

theorem elements_reads : (nodes : List Node) → List.Forall₂ (Reads Structure.Whole) (elementsParts nodes) (yazXml2queryElements nodes)
  | [] => .nil
  | .text _ :: rest => elements_reads rest
  | .other :: rest => elements_reads rest
  | .element name properties children :: rest => .cons (element_reads (.element name properties children)) (elements_reads rest)

end

theorem rpn_reads (children : List Node) :
    Reads (fun rpn : RpnQuery => rpn.rpnStructure.Whole) (.rpn properties :: firstParts (elementsParts children))
      (yazXml2queryRpn properties children) := by
  have set : Reads (fun _ : Option (List UInt8) => True) [.rpn properties]
      ((yazXmlGetProp properties (ascii "set")).map Left.silent) := by
    rw [yazXmlGetProp]
    cases found : properties.find? fun attr => attr.name = ascii "set" with
    | none =>
      apply Reads.silent
      · trivial
      · simp [Part.nullChild, lacksChild, found]
      · simp [Part.code]
    | some attr =>
      dsimp only
      cases children : attr.children with
      | none => exact Reads.stopped (by simp [Part.nullChild, lacksChild, found, children])
      | some =>
        apply Reads.silent
        · trivial
        · simp [Part.nullChild, lacksChild, found, children]
        · simp [Part.code]
  have reads : Reads (fun rpn : RpnQuery => rpn.rpnStructure.Whole) _ _ := (set.both (firstOf_reads (elements_reads children))).map
    (fun values => RpnQuery.mk (values.1.bind (Oid.yazStringToOidOdr .attset)) values.2) fun values => (iff_of_eq (true_and _)).symm
  refine reads.of_eq ?_
  rw [yazXml2queryRpn]
  cases yazXmlGetProp properties (ascii "set") with
  | none => rfl
  | some =>
    cases firstOf (yazXml2queryElements children) with
    | none => rfl
    | some => rfl

theorem not_whole_none : ¬ Whole none := by
  rintro ⟨rpn, impossible, whole⟩
  cases impossible

theorem yazXml2query_reads (node : Node) : Reads Whole (parts node) (yazXml2query node) := by
  cases node with
  | text => exact misplaced_reads
  | other => exact misplaced_reads
  | element name properties children =>
    rw [parts, yazXml2query]
    cases found : checkDiagnostic name properties with
    | some =>
      rw [if_pos (checkDiagnostic_some found).1]
      exact diagnostic_reads not_whole_none found
    | none =>
      rw [if_neg (checkDiagnostic_none found)]
      by_cases query : name = ascii "query"
      · rw [if_pos query, if_pos query]
        cases firstElement children with
        | none => exact misplaced_reads
        | some element =>
          rw [queryParts]
          by_cases rpn : element.name = ascii "rpn"
          · rw [if_pos rpn]
            dsimp only
            rw [if_pos rpn]
            refine (rpn_reads element.properties element.children).map (fun value => some (some value)) fun value => ?_
            constructor
            · rintro ⟨found, same, whole⟩
              cases same
              exact whole
            · intro whole
              exact ⟨value, rfl, whole⟩
          · rw [if_neg rpn]
            dsimp only
            rw [if_neg rpn]
            split_ifs <;> exact misplaced_reads
      · rw [if_neg query, if_neg query]
        exact misplaced_reads

/-- A reading reports its defects: it follows no child that is not there, ends without a code only if every pointer is set, and with one if
one was recorded. -/
def Reports (read : Option (Left Query)) : Prop :=
  ∃ left, read = some left ∧ (left.errorCode = 0 → Whole left.value) ∧
    ((∃ diagnostic ∈ left.diagnostics, diagnostic.errorCode ≠ 0) → left.errorCode ≠ 0)

def Heard (node : Node) : Prop :=
  (∀ part ∈ parts node, part.nullChild = false) ∧ ((parts node).filterMap Part.code).getLast? ≠ some 0

instance (node : Node) : Decidable (Heard node) := inferInstanceAs (Decidable (_ ∧ _))

theorem Reads.errorCode {parts : List Part} {left : Left Query} (reads : Reads Whole parts (some left)) :
    left.errorCode = (parts.filterMap Part.code).getLast?.getD 0 := by
  rw [Left.errorCode, ← reads.codes left rfl, getLast?_map]

/-- Which documents have their defects reported. -/
theorem reports_iff (node : Node) : Reports (yazXml2query node) ↔ Heard node := by
  have reads := yazXml2query_reads node
  constructor
  · rintro ⟨left, isRead, set, kept⟩
    rw [isRead] at reads
    refine ⟨?_, ?_⟩
    · intro part inside
      rw [← Bool.not_eq_true]
      intro null
      cases reads.stops.mpr ⟨part, inside, null⟩
    · intro last
      have zero : left.errorCode = 0 := by rw [reads.errorCode, last]; rfl
      obtain ⟨part, inside, code⟩ := mem_filterMap.mp (mem_of_getLast? last)
      exact reads.leaves left rfl ⟨part, inside, code⟩ (set zero)
  · rintro ⟨safe, last⟩
    cases isRead : yazXml2query node with
    | none =>
      obtain ⟨part, inside, null⟩ := reads.stops.mp isRead
      rw [safe part inside] at null
      cases null
    | some left =>
      rw [isRead] at reads
      refine ⟨left, rfl, ?_, ?_⟩
      · intro zero
        apply reads.sets left rfl
        rw [reads.errorCode] at zero
        cases found : ((parts node).filterMap Part.code).getLast? with
        | none => exact filterMap_eq_nil_iff.mp (getLast?_eq_none_iff.mp found)
        | some =>
          rw [found] at zero last
          exact absurd (congrArg some zero) last
      · rintro ⟨diagnostic, inside, recorded⟩ zero
        have codes := mem_map_of_mem (f := Diagnostic.errorCode) inside
        rw [reads.codes left rfl] at codes
        rw [reads.errorCode] at zero
        cases found : ((parts node).filterMap Part.code).getLast? with
        | none =>
          rw [getLast?_eq_none_iff.mp found] at codes
          cases codes
        | some =>
          rw [found] at zero last
          exact last (congrArg some zero)

def queryOf (content : Node) : Node := .element (ascii "query") [] [.element (ascii "rpn") [] [content]]

def property (name value : String) : Property := { name := ascii name, children := some { isText := true, content := ascii value } }

/-- A proximity operator whose `exclusion` is empty. -/
def emptyExclusion : Node :=
  queryOf (.element (ascii "operator") [property "type" "prox", { name := ascii "exclusion", children := none }] [])

def zeroDiagnostic : Node := queryOf (.element (ascii "diagnostic") [property "code" "0"] [])

/-- An empty property is followed, and a diagnostic with a code of zero leaves no error and nothing set. -/
theorem reports_fails : ¬ Reports (yazXml2query emptyExclusion) ∧ ¬ Reports (yazXml2query zeroDiagnostic) := by
  have null : yazXml2query emptyExclusion = none := by decide
  have zero : yazXml2query zeroDiagnostic = some { value := some (some { attributeSetId := none, rpnStructure := .unset })
                                                   diagnostics := [{ errorCode := 0, addinfo := none }] } := by decide
  constructor
  · rintro ⟨left, read, -⟩
    rw [null] at read
    cases read
  · rintro ⟨left, read, set, -⟩
    rw [zero] at read
    cases read
    obtain ⟨rpn, same, whole⟩ := set rfl
    cases same
    exact whole

end Yaz.Xml.Decoding
