import Yaz.Server.SruFacetFields

/-! When SRU facet parameters come back as they were: what the facets of a request ask for, and how they are encoded again. -/

set_option autoImplicit false

namespace Yaz.Server.SruFacet
open List
open Yaz.Comstack (ascii isDigit)
open Yaz.Http (decimal)
open Yaz.Pqf

def generalWords (start : Option Int32) (sort : Option (List UInt8)) : List AttrWord :=
  ⟨50, intText (sortNumber sort).toInt⟩ :: start.toList.map fun start => ⟨52, intText start.toInt⟩

def fieldWords (start : Option Int32) (sort : Option (List UInt8)) (name : List UInt8) (val : Int32) : List AttrWord :=
  ⟨49, name⟩ :: (generalWords start sort ++ [⟨51, intText val.toInt⟩])

theorem intText_short (n : Int32) : (intText n.toInt).length < 20 := by
  have low := n.le_toInt
  have high := n.toInt_lt
  rw [intText]
  split
  · have digits := @Yaz.Marc.decimal_length_le n.toInt.natAbs 10 (by decide) (by omega)
    rw [length_cons]
    omega
  · have digits := @Yaz.Marc.decimal_length_le n.toInt.toNat 10 (by decide) (by omega)
    omega

theorem numberWord_readable {digit : UInt8} (isType : isDigit digit = true) (n : Int) : (AttrWord.mk digit (intText n)).Readable where
  digit := isType
  some := intText_ne_nil n
  plain c mem := by
    refine ⟨?_, ?_, ?_⟩
    · rintro rfl
      exact intText_not_mem n (by decide) (by decide) mem
    · rintro rfl
      exact intText_not_mem n (by decide) (by decide) mem
    · rintro rfl
      exact intText_not_mem n (by decide) (by decide) mem

theorem generalWords_readable (start : Option Int32) (sort : Option (List UInt8)) : ∀ word ∈ generalWords start sort, word.Readable := by
  intro word mem
  rw [generalWords, mem_cons, mem_map] at mem
  rcases mem with rfl | ⟨s, -, rfl⟩
  · exact numberWord_readable (by decide) _
  · exact numberWord_readable (by decide) _

theorem fieldWords_readable (start : Option Int32) (sort : Option (List UInt8)) {name : List UInt8} (some : name ≠ [])
    (plain : 32 ∉ name ∧ 92 ∉ name ∧ 0 ∉ name) (val : Int32) : ∀ word ∈ fieldWords start sort name val, word.Readable := by
  intro word mem
  rw [fieldWords, mem_cons, mem_append, mem_singleton] at mem
  rcases mem with rfl | mem | rfl
  · refine ⟨rfl, some, fun c mem => ⟨?_, ?_, ?_⟩⟩
    · rintro rfl
      exact plain.1 mem
    · rintro rfl
      exact plain.2.1 mem
    · rintro rfl
      exact plain.2.2 mem
  · exact generalWords_readable start sort word mem
  · exact numberWord_readable (by decide) _

variable (sort : Option (List UInt8))

theorem sortText : intText (sortNumber sort).toInt = if alphanumeric sort then [49] else [48] := by
  rw [sortNumber]
  split
  · simp [intText, decimal]
  · simp [intText, decimal]

/-- The text of a start that is an `int`. -/
def startOf (start : Option Int32) : Option (List UInt8) := start.map fun start => intText start.toInt

theorem generalText_words (start : Option Int32) (sort : Option (List UInt8)) :
    generalText (startOf start) sort (-1) = facetText (generalWords start sort) := by
  have whole : ∀ text : List UInt8, text.length ≤ 4094 → wrbufPrintf text = text := fun _ short => take_of_length_le short
  have order : wrbufPrintf (if alphanumeric sort then ascii " @attr 2=1" else ascii " @attr 2=0") =
      ascii " @attr " ++ (AttrWord.mk 50 (intText (sortNumber sort).toInt)).text := by
    rw [sortText]
    split
    · rfl
    · rfl
  rw [generalText, order, if_neg (not_not.mpr rfl), nil_append, generalWords]
  rw [facetText, flatMap_cons]
  cases start with
  | none => rfl
  | some start =>
    have short := intText_short start
    have nine : (ascii " @attr 4=").length = 9 := rfl
    rw [startOf, Option.map_some, Option.elim_some, whole _ (by rw [length_append, nine]; omega), Option.toList_some, map_singleton,
      flatMap_singleton]
    rfl

theorem fieldText_words (start : Option Int32) (sort : Option (List UInt8)) (field : LimitField) :
    32 :: (ascii "@attr 1=" ++ fieldText (startOf start) sort field) = facetText (fieldWords start sort field.name (limitVal field.n)) := by
  have order : (if alphanumeric sort then ascii "@attr 2=1" else ascii "@attr 2=0") =
      ascii "@attr " ++ (AttrWord.mk 50 (intText (sortNumber sort).toInt)).text := by
    rw [sortText]
    split
    · rfl
    · rfl
  rw [fieldText, fieldBody, fieldAttrs, order, facetText, fieldWords, generalWords]
  cases start with
  | none =>
    simp only [startOf, Option.map_none, Option.elim_none, Option.toList_none, map_nil, nil_append, reverse_cons, reverse_nil,
      cons_append, flatMap_cons, flatMap_nil, append_nil, AttrWord.text]
    rfl
  | some start =>
    rw [startOf, Option.map_some, Option.elim_some, if_pos (intText_short start)]
    simp only [Option.toList_some, map_cons, map_nil, reverse_cons, reverse_nil, nil_append, cons_append,
      flatMap_cons, flatMap_nil, append_nil, append_assoc, AttrWord.text]
    rfl

/-! ### What the words ask for -/

def useName (name : List UInt8) : List UInt8 := if name.all isDigit then intText (odrAtoi name).toInt else name

section
variable {Oid : Type}

def elements (words : List AttrWord) : List (AttributeElement Oid) := words.map fun word => word.attr.element

theorem numberWord_element (digit : UInt8) {n : Int32} (positive : 0 ≤ n.toInt) :
    (AttrWord.mk digit (intText n.toInt)).attr.element =
      ({ attributeSet := none, attributeType := odrAtoi [digit], value := .numeric n.toInt64 } : AttributeElement Oid) := by
  have digits : (intText n.toInt).all isDigit = true := all_eq_true.mpr (intText_digits positive).1
  have value : odrAtoi (intText n.toInt) = n.toInt64 := by
    rw [← Int32.toInt_toInt64 n]
    exact odrAtoi_signed n.toInt64
  rw [AttrWord.attr, Attr.element]
  rw [if_pos digits, if_pos digits, value]

theorem signedWord_element (digit : UInt8) {n : Int32} (negative : n.toInt < 0) :
    (AttrWord.mk digit (intText n.toInt)).attr.element =
      ({ attributeSet := none, attributeType := odrAtoi [digit], value := .complex [.string
        (intText n.toInt)] } : AttributeElement Oid) := by
  have digits : (intText n.toInt).all isDigit ≠ true := by
    rw [intText, if_pos negative, all_cons]
    exact Bool.false_ne_true
  rw [AttrWord.attr, Attr.element]
  rw [if_neg digits, if_neg digits]

theorem getZAttributes_cons {ae : AttributeElement Oid} {rest : List (AttributeElement Oid)} {av : FacetAttr}
    (fine : (facetAttribute ae av).error = none) :
    yazFacetAttrGetZAttributes (ae :: rest) av = yazFacetAttrGetZAttributes rest (facetAttribute ae av) := by
  rw [yazFacetAttrGetZAttributes, fine, if_neg (by simp)]

theorem getZAttributes_error {ae : AttributeElement Oid} {rest : List (AttributeElement Oid)} {av : FacetAttr}
    (fine : (yazFacetAttrGetZAttributes (ae :: rest) av).error = none) :
    (facetAttribute ae av).error = none ∧ (yazFacetAttrGetZAttributes rest (facetAttribute ae av)).error = none := by
  rw [yazFacetAttrGetZAttributes] at fine
  split at fine
  next failed =>
    rw [fine] at failed
    cases failed
  next passed => exact ⟨Option.not_isSome_iff_eq_none.mp passed, fine⟩

theorem numattr_word (digit : UInt8) (n : Int32) {av : FacetAttr} (set : Int32 → FacetAttr) :
    numattr ((AttrWord.mk digit (intText n.toInt)).attr.element : AttributeElement Oid) av set =
      if 0 ≤ n.toInt then set n else { av with error := some (.unsuppAttribute, ascii "non-numeric limit/sort/start attribute") } := by
  rw [numattr]
  by_cases positive : 0 ≤ n.toInt
  · rw [numberWord_element digit positive, if_pos positive]
    dsimp only
    rw [Int32.toInt32_toInt64]
  · rw [signedWord_element digit (by omega), if_neg positive]

theorem limitWord (n : Int32) (av : FacetAttr) :
    facetAttribute ((AttrWord.mk 51 (intText n.toInt)).attr.element : AttributeElement Oid) av =
      if 0 ≤ n.toInt then { av with limit := n }
      else { av with error := some (.unsuppAttribute, ascii "non-numeric limit/sort/start attribute") } := by
  rw [← @numattr_word Oid 51 n av fun limit => { av with limit }]
  rfl

theorem startWord (n : Int32) (av : FacetAttr) :
    facetAttribute ((AttrWord.mk 52 (intText n.toInt)).attr.element : AttributeElement Oid) av =
      if 0 ≤ n.toInt then { av with start := n }
      else { av with error := some (.unsuppAttribute, ascii "non-numeric limit/sort/start attribute") } := by
  rw [← @numattr_word Oid 52 n av fun start => { av with start }]
  rfl

theorem sortWord (av : FacetAttr) :
    facetAttribute ((AttrWord.mk 50 (intText (sortNumber sort).toInt)).attr.element : AttributeElement Oid) av =
      { av with sortorder := sortNumber sort } := by
  have positive : 0 ≤ (sortNumber sort).toInt := by
    rw [sortNumber]
    split
    · decide
    · decide
  have taken := @numattr_word Oid 50 (sortNumber sort) av fun sortorder => { av with sortorder }
  rw [if_pos positive] at taken
  rw [← taken]
  rfl

theorem useWord (name : List UInt8) {av : FacetAttr} (fresh : av.useattr = none) :
    facetAttribute ((AttrWord.mk 49 name).attr.element : AttributeElement Oid) av = { av with useattr := some (useName name) } := by
  have type : ((AttrWord.mk 49 name).attr.element : AttributeElement Oid).attributeType = 1 := rfl
  rw [facetAttribute, if_pos type, useattr, AttrWord.attr, Attr.element, useName]
  by_cases digits : name.all isDigit = true
  · rw [if_pos digits, if_pos digits, if_pos digits]
  · rw [if_neg digits, if_neg digits, if_neg digits]
    dsimp only [stringattr, findSome?_cons]
    rw [fresh]

variable {start : Option Int32}

theorem general_asks (positive : ∀ s ∈ start, 0 ≤ s.toInt) (sort : Option (List UInt8))
    (behind : List (AttributeElement Oid)) {av : FacetAttr} (fine : av.error = none) :
    yazFacetAttrGetZAttributes ((elements (generalWords start sort)).reverse ++ behind) av =
      yazFacetAttrGetZAttributes behind { av with start := start.getD av.start, sortorder := sortNumber sort } := by
  have order : ∀ av : FacetAttr, av.error = none →
      yazFacetAttrGetZAttributes ((AttrWord.mk 50 (intText (sortNumber sort).toInt)).attr.element :: behind) av =
        yazFacetAttrGetZAttributes behind { av with sortorder := sortNumber sort } := by
    intro av fine
    rw [getZAttributes_cons (by rw [sortWord]; exact fine), sortWord]
  rw [generalWords, elements, map_cons, reverse_cons, append_assoc, singleton_append]
  cases start with
  | none => exact order av fine
  | some s =>
    rw [Option.toList_some, map_singleton, map_singleton, reverse_singleton, singleton_append]
    have taken : facetAttribute ((AttrWord.mk 52 (intText s.toInt)).attr.element : AttributeElement Oid) av = { av with start := s } := by
      rw [startWord, if_pos (positive s rfl)]
    rw [getZAttributes_cons (by rw [taken]; exact fine), taken]
    exact order _ fine

theorem general_signs {sort : Option (List UInt8)} {behind : List (AttributeElement Oid)} {av : FacetAttr}
    (fine : (yazFacetAttrGetZAttributes ((elements (generalWords start sort)).reverse ++ behind) av).error = none) :
    ∀ s ∈ start, 0 ≤ s.toInt := by
  rintro s rfl
  rw [generalWords, elements, map_cons, reverse_cons, Option.toList_some, map_singleton, map_singleton, reverse_singleton,
    append_assoc, singleton_append] at fine
  have first := (getZAttributes_error fine).1
  rw [startWord] at first
  by_contra negative
  rw [if_neg negative] at first
  cases first

def facetOf (words : List AttrWord) : FacetField Oid := { attributes := (elements words).reverse, terms := [] }

theorem fieldWords_elements (start : Option Int32) (sort : Option (List UInt8)) (name : List UInt8) (val : Int32) :
    (facetOf (fieldWords start sort name val) : FacetField Oid).attributes =
      (AttrWord.mk 51 (intText val.toInt)).attr.element ::
        ((elements (generalWords start sort)).reverse ++ [(AttrWord.mk 49 name).attr.element]) := by
  rw [facetOf, fieldWords, elements, map_cons, map_append, map_singleton, reverse_cons, reverse_append,
    reverse_singleton, singleton_append, cons_append]
  rfl

theorem field_asks (positive : ∀ s ∈ start, 0 ≤ s.toInt) (sort : Option (List UInt8)) (name : List UInt8)
    {val : Int32} (positive' : 0 ≤ val.toInt) :
    facetAttr (facetOf (fieldWords start sort name val) : FacetField Oid) =
      { useattr := some (useName name), sortorder := sortNumber sort, limit := val, start := start.getD (-1) } := by
  have taken : ∀ av : FacetAttr,
      facetAttribute ((AttrWord.mk 51 (intText val.toInt)).attr.element : AttributeElement Oid) av = { av with limit := val } := by
    intro av
    rw [limitWord, if_pos positive']
  rw [facetAttr, fieldWords_elements, getZAttributes_cons (by rw [taken]), taken, general_asks positive sort _ rfl,
    getZAttributes_cons (by rw [useWord name rfl]), useWord name rfl]
  rfl

theorem field_signs {sort : Option (List UInt8)} {name : List UInt8} {val : Int32}
    (fine : (facetAttr (facetOf (fieldWords start sort name val) : FacetField Oid)).error = none) :
    0 ≤ val.toInt ∧ ∀ s ∈ start, 0 ≤ s.toInt := by
  rw [facetAttr, fieldWords_elements] at fine
  obtain ⟨first, later⟩ := getZAttributes_error fine
  refine ⟨?_, general_signs later⟩
  rw [limitWord] at first
  by_contra negative
  rw [if_neg negative] at first
  cases first

theorem generalFacet_asks (positive : ∀ s ∈ start, 0 ≤ s.toInt) (sort : Option (List UInt8)) :
    facetAttr (facetOf (generalWords start sort) : FacetField Oid) =
      { sortorder := sortNumber sort, limit := -1, start := start.getD (-1) } := by
  have asks := @general_asks Oid start positive sort [] { limit := -1, start := -1, sortorder := -1 } rfl
  rw [append_nil] at asks
  exact asks

variable (attset : List UInt8 → Option Oid) (bib1 : Oid)

theorem parseFacet_field (start : Option Int32) (sort : Option (List UInt8)) {field : LimitField} (some : field.name ≠ [])
    (plain : 32 ∉ field.name ∧ 92 ∉ field.name ∧ 0 ∉ field.name) :
    parseFacet attset bib1 (ascii "@attr 1=" ++ fieldText (startOf start) sort field) =
      Option.some (facetOf (fieldWords start sort field.name (limitVal field.n))) := by
  have short : (fieldWords start sort field.name (limitVal field.n)).length ≤ 4 ∧
      ((fieldWords start sort field.name (limitVal field.n)).map fun word => odrAtoi [word.digit]).Nodup := by
    cases start with
    | none => exact ⟨Nat.le_succ 3, show [odrAtoi [49], odrAtoi [50], odrAtoi [51]].Nodup by decide⟩
    | some => exact ⟨Nat.le_refl 4, show [odrAtoi [49], odrAtoi [50], odrAtoi [52], odrAtoi [51]].Nodup by decide⟩
  have few : (fieldWords start sort field.name (limitVal field.n)).length ≤ maxAttr := short.1.trans (by decide)
  exact parseFacet_words attset bib1 (fieldWords_readable start sort some plain _) (cons_ne_nil _ _) few short.2
    (.inr (fieldText_words start sort field))

theorem parseFacet_general (start : Option Int32) (sort : Option (List UInt8)) :
    parseFacet attset bib1 (generalText (startOf start) sort (-1)) = some (facetOf (generalWords start sort)) := by
  have short : (generalWords start sort).length ≤ 2 ∧ ((generalWords start sort).map fun word => odrAtoi [word.digit]).Nodup := by
    cases start with
    | none => exact ⟨Nat.le_succ 1, show [odrAtoi [50]].Nodup by decide⟩
    | some => exact ⟨Nat.le_refl 2, show [odrAtoi [50], odrAtoi [52]].Nodup by decide⟩
  have few : (generalWords start sort).length ≤ maxAttr := short.1.trans (by decide)
  exact parseFacet_words attset bib1 (generalWords_readable start sort) (cons_ne_nil _ _) few short.2 (.inl (generalText_words start sort))

end

def limitPiece (field : LimitField) : List UInt8 := intText field.n ++ 58 :: field.name

def limitWritten (fields : List LimitField) : List UInt8 := fields.flatMap fun field => wrbufPrintf (limitPiece field) ++ [44]

theorem limitPiece_length (field : LimitField) : 2 ≤ (limitPiece field).length := by
  have some := length_pos_iff.mpr (intText_ne_nil field.n)
  rw [limitPiece, length_append, length_cons]
  omega

theorem listed_cons (field : LimitField) (rest : List LimitField) : listed (field :: rest) = 44 :: (limitPiece field ++ listed rest) := by
  rw [listed, limitPiece, append_assoc, cons_append]

theorem limitWritten_cons (field : LimitField) (rest : List LimitField) :
    limitWritten (field :: rest) = (limitPiece field).take 4094 ++ 44 :: limitWritten rest := by
  rw [limitWritten, flatMap_cons, append_assoc, singleton_append]
  rfl

theorem limitWritten_length (fields : List LimitField) :
    (limitWritten fields).length ≤ (listed fields).length ∧
      ((limitWritten fields).length = (listed fields).length → ∀ field ∈ fields, (limitPiece field).length ≤ 4094) := by
  induction fields with
  | nil => exact ⟨Nat.le_refl _, fun _ _ mem => absurd mem not_mem_nil⟩
  | cons _ _ ih =>
    obtain ⟨less, short⟩ := ih
    rw [limitWritten_cons, listed_cons, length_append, List.length_take, length_cons, length_cons, length_append]
    refine ⟨by omega, fun same other mem => ?_⟩
    rcases mem_cons.mp mem with rfl | mem
    · omega
    · exact short (by omega) other mem

theorem limitWritten_whole {fields : List LimitField} (short : ∀ field ∈ fields, (limitPiece field).length ≤ 4094) :
    44 :: limitWritten fields = listed fields ++ [44] := by
  induction fields with
  | nil => rfl
  | cons field _ ih =>
    rw [limitWritten_cons, listed_cons, take_of_length_le (short field mem_cons_self),
      ih fun other mem => short other (mem_cons_of_mem _ mem)]
    simp only [cons_append, append_assoc]

theorem limitWritten_iff (r : Request) :
    (if 1 < (limitWritten r.fields).length then some (limitWritten r.fields).dropLast else none) = some r.limitText ↔
      ∀ field ∈ r.fields, (limitPiece field).length ≤ 4094 := by
  obtain ⟨field, rest, fields⟩ := exists_cons_of_ne_nil r.present
  have long : 1 < (limitWritten r.fields).length := by
    have two := limitPiece_length field
    rw [fields, limitWritten_cons, length_append, List.length_take, length_cons]
    omega
  rw [if_pos long, Option.some_inj, Request.limitText]
  constructor
  · intro same
    have lengths := congrArg List.length same
    rw [length_dropLast, length_drop] at lengths
    exact (limitWritten_length r.fields).2 (by omega)
  · intro short
    have whole := limitWritten_whole short
    obtain ⟨text, starts⟩ : ∃ text, listed r.fields = 44 :: text := ⟨_, by rw [fields, listed_cons]⟩
    rw [starts, cons_append] at whole
    rw [(List.cons.inj whole).2, dropLast_concat, starts]
    rfl

section
variable {Oid : Type}

/-- An encoding of some fields; the start and the order are those of the request, if they are known. -/
structure Begun (r : Request) (fields : List LimitField) (e : Encoding) : Prop where
  wLimit : e.wLimit = limitWritten fields
  generalLimit : e.generalLimit = -1
  generalStart : e.generalStart = -1 ∨ e.generalStart.toInt = r.start.getD (-1)

structure Encoded (r : Request) (fields : List LimitField) (e : Encoding) : Prop extends Begun r fields e where
  start : e.generalStart.toInt = r.start.getD (-1)
  generalSortorder : e.generalSortorder = sortNumber r.sort

theorem sortNumber_given : sortNumber sort ≠ -1 := by
  rw [sortNumber]
  split
  · decide
  · decide

variable {r : Request}

theorem start_encoded {known given : Int32} (before : known = -1 ∨ known.toInt = r.start.getD (-1))
    (same : given.toInt = r.start.getD (-1)) : (if given ≠ -1 then given else known).toInt = r.start.getD (-1) := by
  split
  · exact same
  next other =>
    obtain rfl := not_not.mp other
    rcases before with rfl | before
    · exact same
    · exact before

theorem encodeFacet_field {done : List LimitField} {e : Encoding} (begun : Begun r done e) {facet : FacetField Oid}
    {field : LimitField} (asks : Asks r facet (some field.name, field.n)) (positive : 0 ≤ field.n) :
    Encoded r (done ++ [field]) (encodeFacet e facet) := by
  have limit : (facetAttr facet).limit ≠ -1 := by
    intro none
    have sign := asks.limit
    rw [none] at sign
    have negative : (-1 : Int32).toInt = -1 := by decide
    omega
  have written : limitWritten (done ++ [field]) = e.wLimit ++ (wrbufPrintf (limitPiece field) ++ [44]) := by
    rw [limitWritten, flatMap_append, flatMap_singleton, begun.wLimit]
    rfl
  have order := sortNumber_given r.sort
  have noError : ¬(facetAttr facet).error.isSome = true := by rw [asks.error]; exact Bool.false_ne_true
  have known := start_encoded begun.generalStart asks.start
  rw [encodeFacet]
  rw [if_neg noError, if_pos limit, asks.useattr, asks.limit, asks.sortorder, if_pos order]
  split
  next given =>
    rw [if_pos given] at known
    exact ⟨⟨written.symm, begun.generalLimit, .inr known⟩, known, rfl⟩
  next none =>
    rw [if_neg none] at known
    exact ⟨⟨written.symm, begun.generalLimit, .inr known⟩, known, rfl⟩

theorem encodeFacet_general {done : List LimitField} {e : Encoding} (encoded : Encoded r done e) {facet : FacetField Oid}
    (asks : Asks r facet (none, -1)) : Encoded r done (encodeFacet e facet) := by
  have limit : (facetAttr facet).limit = -1 := Int32.toInt_inj.mp asks.limit
  have order := sortNumber_given r.sort
  have noError : ¬(facetAttr facet).error.isSome = true := by rw [asks.error]; exact Bool.false_ne_true
  have known := start_encoded encoded.generalStart asks.start
  rw [encodeFacet]
  rw [if_neg noError, if_neg (not_not.mpr limit), asks.sortorder, if_pos order]
  split
  next given =>
    rw [if_pos given] at known
    exact ⟨⟨encoded.wLimit, encoded.generalLimit, .inr known⟩, known, rfl⟩
  next none =>
    rw [if_neg none] at known
    exact ⟨⟨encoded.wLimit, encoded.generalLimit, .inr known⟩, known, rfl⟩

def askedFields (fields : List LimitField) : List (Option (List UInt8) × Int) := fields.map fun field => (some field.name, field.n)

variable {facets : List (FacetField Oid)}

theorem encodeFacet_fields {done fields : List LimitField}
    (asks : List.Forall₂ (Asks r) facets (askedFields fields)) (positive : ∀ field ∈ fields, 0 ≤ field.n) {e : Encoding}
      (encoded : Encoded r done e) :
    Encoded r (done ++ fields) (facets.foldl encodeFacet e) := by
  induction fields generalizing done facets e with
  | nil =>
    obtain rfl := forall₂_nil_right_iff.mp asks
    rw [append_nil]
    exact encoded
  | cons field _ ih =>
    obtain ⟨facet, facets, first, later, rfl⟩ := forall₂_cons_right_iff.mp asks
    have next := ih later (fun other mem => positive other (mem_cons_of_mem _ mem))
      (encodeFacet_field encoded.toBegun first (positive field mem_cons_self))
    rw [append_assoc, singleton_append] at next
    exact next

theorem encodeFacet_request (asks : List.Forall₂ (Asks r) facets r.asked)
    (positive : ∀ field ∈ r.fields, 0 ≤ field.n) : Encoded r r.fields (facets.foldl encodeFacet {}) := by
  obtain ⟨field, rest, fields⟩ := exists_cons_of_ne_nil r.present
  have front := forall₂_take_append facets (askedFields r.fields) _ asks
  have behind := forall₂_drop_append facets (askedFields r.fields) _ asks
  rw [← take_append_drop (askedFields r.fields).length facets, foldl_append]
  generalize facets.take (askedFields r.fields).length = first at front
  generalize facets.drop (askedFields r.fields).length = last at behind
  -- the first field makes the start and the order known, the others keep them
  have encoded : Encoded r r.fields (first.foldl encodeFacet {}) := by
    rw [fields] at front positive ⊢
    obtain ⟨facet, first, here, later, rfl⟩ := forall₂_cons_right_iff.mp front
    have begun : Begun r [] {} := ⟨rfl, rfl, .inl rfl⟩
    exact encodeFacet_fields later (fun other mem => positive other (mem_cons_of_mem _ mem))
      (encodeFacet_field begun here (positive field mem_cons_self))
  split at behind
  · obtain ⟨facet, none, here, later, rfl⟩ := forall₂_cons_right_iff.mp behind
    obtain rfl := forall₂_nil_right_iff.mp later
    exact encodeFacet_general encoded here
  · obtain rfl := forall₂_nil_right_iff.mp behind
    exact encoded

theorem encode_iff (asks : List.Forall₂ (Asks r) facets r.asked)
    (positive : ∀ field ∈ r.fields, 0 ≤ field.n) (positive' : ∀ s ∈ r.start, 0 ≤ s) :
    yazSruFacetRequestEncode (some facets) = { limit := some r.limitText, start := r.startText, sort := r.sort } ↔
      (∀ field ∈ r.fields, (limitPiece field).length ≤ 4094) ∧ (r.sort = none ∨ r.sort = some (ascii "alphanumeric")) := by
  obtain ⟨⟨wLimit, generalLimit, -⟩, start, sort⟩ := encodeFacet_request asks positive
  have start' : (if (facets.foldl encodeFacet {}).generalStart ≠ -1 then
    some (intText (facets.foldl encodeFacet {}).generalStart.toInt) else none) =
      r.startText := by
    rw [Request.startText]
    cases given : r.start with
    | none =>
      rw [given, Option.getD_none] at start
      rw [if_neg (not_not.mpr (Int32.toInt_inj.mp start))]
      rfl
    | some s =>
      rw [given, Option.getD_some] at start
      have positive := positive' s given
      rw [if_pos, start]
      · rfl
      · intro none
        rw [none] at start
        have negative : (-1 : Int32).toInt = -1 := by decide
        omega
  have sort' : (if sortNumber r.sort = 1 then some (ascii "alphanumeric") else none) = r.sort ↔
      r.sort = none ∨ r.sort = some (ascii "alphanumeric") := by
    rw [sortNumber, alphanumeric]
    by_cases known : r.sort = some (ascii "alphanumeric")
    · simp [known]
    · simp [known, eq_comm]
  rw [← limitWritten_iff, ← sort', yazSruFacetRequestEncode]
  rw [if_neg (not_not.mpr generalLimit), start', wLimit, sort, Parameters.mk.injEq]
  exact ⟨fun ⟨limit, _, sort⟩ => ⟨limit, sort⟩, fun ⟨limit, sort⟩ => ⟨limit, rfl, sort⟩⟩

end

section
variable {α β γ : Type}

theorem mapM_eq_some_iff (f : α → Option β) {xs : List α} {ys : List β} :
    xs.mapM f = some ys ↔ List.Forall₂ (fun x y => f x = some y) xs ys := by
  induction xs generalizing ys with
  | nil => simp [eq_comm]
  | cons _ _ ih =>
    rw [mapM_cons, forall₂_cons_left_iff, Option.bind_eq_bind, Option.bind_eq_some_iff]
    constructor
    · rintro ⟨y, first, more⟩
      rw [Option.bind_eq_bind, Option.bind_eq_some_iff] at more
      obtain ⟨ys', later, all⟩ := more
      exact ⟨y, ys', first, ih.mp later, (Option.some.inj all).symm⟩
    · rintro ⟨y, ys', first, later, rfl⟩
      refine ⟨y, first, ?_⟩
      rw [ih.mpr later]
      rfl

theorem forall₂_through {P : α → β → Prop} {Q : β → γ → Prop} {xs : List α} {ys : List β} {zs : List γ} (first : List.Forall₂ P xs ys)
    (second : List.Forall₂ Q ys zs) : List.Forall₂ (fun x z => ∃ y, P x y ∧ Q y z) xs zs := by
  induction first generalizing zs with
  | nil => exact forall₂_nil_left_iff.mp second ▸ .nil
  | @cons x y xs ys here _ ih =>
    obtain ⟨z, zs, there, later, rfl⟩ := forall₂_cons_left_iff.mp second
    exact .cons ⟨y, here, there⟩ (ih later)

theorem forall₂_map_append {δ : Type} {P : β → γ → Prop} (f : δ → β) (g : δ → γ) {list : List δ} {ys : List β} {zs : List γ} :
    List.Forall₂ P (list.map f ++ ys) (list.map g ++ zs) ↔ (∀ x ∈ list, P (f x) (g x)) ∧ List.Forall₂ P ys zs := by
  induction list with
  | nil => simp
  | cons _ _ ih => simp [ih, and_assoc]

end

/-! ### The condition -/

/-- Nothing of the request gets lost: the names are no text of their own for the parser, numerals among them are those that are
written for a number, and the numbers fit in an `int` without a sign. -/
structure Request.Faithful (r : Request) : Prop where
  names : ∀ field ∈ r.fields, 32 ∉ field.name ∧ 92 ∉ field.name
  numerals : ∀ field ∈ r.fields, field.name.all isDigit = true → ∃ n < 2 ^ 63, field.name = decimal n
  limits : ∀ field ∈ r.fields, 0 ≤ field.n ∧ field.n < 2 ^ 31
  short : ∀ field ∈ r.fields, (limitPiece field).length ≤ 4094
  start : ∀ s ∈ r.start, 0 ≤ s ∧ s < 2 ^ 31
  sort : r.sort = none ∨ r.sort = some (ascii "alphanumeric")

theorem useName_iff (name : List UInt8) : useName name = name ↔ (name.all isDigit = true → ∃ n < 2 ^ 63, name = decimal n) := by
  rw [useName]
  split
  next digits =>
    rw [forall_prop_of_true digits]
    constructor
    · intro same
      have high := (odrAtoi name).toInt_lt
      by_cases negative : (odrAtoi name).toInt < 0
      · rw [intText, if_pos negative] at same
        rw [← same, all_cons] at digits
        cases digits
      · rw [intText, if_neg negative] at same
        exact ⟨_, by omega, same.symm⟩
    · rintro ⟨n, small, rfl⟩
      have value : (Int64.ofInt n).toInt = n := Int64.toInt_ofInt_of_le (by omega) (by omega)
      have text : intText (Int64.ofInt n).toInt = decimal n := by
        rw [value, intText, if_neg (by omega), Int.toNat_natCast]
      rw [← text, odrAtoi_signed]
  next other => exact ⟨fun _ digits => absurd digits other, fun _ => rfl⟩

theorem limitVal_iff (n : Int) : (0 ≤ (limitVal n).toInt ∧ (limitVal n).toInt = n) ↔ 0 ≤ n ∧ n < 2 ^ 31 := by
  have high := (limitVal n).toInt_lt
  constructor
  · rintro ⟨positive, same⟩
    omega
  · rintro ⟨low, high⟩
    have inside : max (-2 ^ 63) (min (2 ^ 63 - 1) n) = n := by omega
    have value : (limitVal n).toInt = n := by
      rw [limitVal, inside]
      exact Int32.toInt_ofInt_of_le (by omega) (by omega)
    exact ⟨by omega, value⟩

section
variable {Oid : Type} (attset : List UInt8 → Option Oid) (bib1 : Oid)

def facetsOf (r : Request) (start : Option Int32) : List (FacetField Oid) :=
  r.fields.map (fun field => facetOf (fieldWords start r.sort field.name (limitVal field.n))) ++
    if r.sort.isSome || r.startText.isSome then [facetOf (generalWords start r.sort)] else []

variable {start : Option Int32} {r : Request}

theorem startText_eq (same : r.start = start.map (·.toInt)) : r.startText = startOf start := by
  rw [Request.startText, same, Option.map_map]
  rfl

theorem mapM_parseFacet (same : r.start = start.map (·.toInt))
    (plain : ∀ field ∈ r.fields, 32 ∉ field.name ∧ 92 ∉ field.name) :
    (facetParts r.startText r.sort (r.fields.map (fieldText r.startText r.sort))).mapM (parseFacet attset bib1) =
      some (facetsOf r start) := by
  have text := startText_eq same
  rw [mapM_eq_some_iff, facetParts, facetsOf, map_map]
  rw [forall₂_map_append]
  refine ⟨fun field mem => ?_, ?_⟩
  · obtain ⟨some, -, noNul⟩ := r.named field mem
    obtain ⟨noBlank, noBackslash⟩ := plain field mem
    rw [text]
    exact parseFacet_field attset bib1 start r.sort some ⟨noBlank, noBackslash, noNul⟩
  · split
    · rw [text]
      exact .cons (parseFacet_general attset bib1 start r.sort) .nil
    · exact .nil

theorem asks_iff (same : r.start = start.map (·.toInt)) :
    List.Forall₂ (Asks r) (facetsOf r start : List (FacetField Oid)) r.asked ↔
      (∀ field ∈ r.fields, useName field.name = field.name ∧ 0 ≤ (limitVal field.n).toInt ∧ (limitVal field.n).toInt = field.n) ∧
        ∀ s ∈ start, 0 ≤ s.toInt := by
  have given : (start.getD (-1)).toInt = r.start.getD (-1) := by
    rw [same]
    cases start with
    | none => decide
    | some => rfl
  rw [facetsOf, Request.asked, forall₂_map_append]
  constructor
  · rintro ⟨fields, -⟩
    obtain ⟨field, rest, all⟩ := exists_cons_of_ne_nil r.present
    refine ⟨fun field mem => ?_, (field_signs (fields field (by rw [all]; exact mem_cons_self)).error).2⟩
    have asks := fields field mem
    obtain ⟨positive, signs⟩ := field_signs asks.error
    have name := asks.useattr
    have limit := asks.limit
    rw [field_asks signs r.sort field.name positive] at name limit
    exact ⟨Option.some.inj name, positive, limit⟩
  · rintro ⟨fields, signs⟩
    refine ⟨fun field mem => ?_, ?_⟩
    · obtain ⟨name, positive, limit⟩ := fields field mem
      have asks := @field_asks Oid start signs r.sort field.name (limitVal field.n) positive
      exact ⟨by rw [asks], by rw [asks, name], by rw [asks, limit], by rw [asks, given], by rw [asks]⟩
    · have general : r.startText.isSome = r.start.isSome := Option.isSome_map
      rw [general]
      split
      · have asks := @generalFacet_asks Oid start signs r.sort
        have noLimit : (-1 : Int32).toInt = -1 := by decide
        exact .cons ⟨by rw [asks], by rw [asks], by rw [asks]; exact noLimit, by rw [asks, given], by rw [asks]⟩ .nil
      · exact .nil

theorem fieldText_behind (start : Option Int32) (sort : Option (List UInt8)) (field : LimitField) :
    ∃ behind, fieldText (startOf start) sort field = field.name ++ 32 :: behind ∧ ∀ c ∈ behind, c ≠ 92 ∧ c ≠ 34 ∧ c ≠ 123 := by
  have plain : ∀ c : UInt8, c ≠ 45 → isDigit c = false → c ∉ ascii "@attr 1=" →
      ∀ attr ∈ fieldAttrs (startOf start) sort (limitVal field.n), c ∉ attr := by
    intro c noSign noDigit other
    refine fieldAttrs_plain (fun text given => ?_) noSign noDigit other
    obtain ⟨s, -, rfl⟩ := Option.map_eq_some_iff.mp given
    exact intText_not_mem s.toInt noSign noDigit
  have each : ∀ attr ∈ fieldAttrs (startOf start) sort (limitVal field.n), ∀ c ∈ attr, c ≠ 92 ∧ c ≠ 34 ∧ c ≠ 123 := by
    intro attr mem c inside
    refine ⟨?_, ?_, ?_⟩
    · rintro rfl
      exact plain 92 (by decide) (by decide) (by decide) attr mem inside
    · rintro rfl
      exact plain 34 (by decide) (by decide) (by decide) attr mem inside
    · rintro rfl
      exact plain 123 (by decide) (by decide) (by decide) attr mem inside
  rw [fieldText, fieldBody]
  obtain ⟨attr, attrs, all⟩ := exists_cons_of_ne_nil
    (mt reverse_eq_nil_iff.mp (fieldAttrs_ne_nil (startOf start) sort (limitVal field.n)))
  refine ⟨attr ++ attrs.flatMap (32 :: ·), by rw [all]; rfl, fun c mem => ?_⟩
  have inside : ∀ other ∈ attr :: attrs, other ∈ fieldAttrs (startOf start) sort (limitVal field.n) :=
    fun other mem => mem_reverse.mp (all ▸ mem)
  rcases mem_append.mp mem with front | back
  · exact each attr (inside attr mem_cons_self) c front
  · obtain ⟨other, mem, here⟩ := mem_flatMap.mp back
    rcases mem_cons.mp here with rfl | here
    · decide
    · exact each other (inside other (mem_cons_of_mem _ mem)) c here

variable {attset bib1}

theorem names_of_asks {facets : List (FacetField Oid)}
    (decoded : yazSruFacetRequestDecode attset bib1 (some r.limitText) r.startText r.sort = some facets)
    (asks : List.Forall₂ (Asks r) facets r.asked) :
    ∃ start : Option Int32, r.start = start.map (·.toInt) ∧ (∀ field ∈ r.fields, 32 ∉ field.name ∧ 92 ∉ field.name) ∧
      facets = facetsOf r start := by
  obtain ⟨bodies, grownBodies, parts⟩ := decode_parts attset bib1 r
  rw [parts] at decoded
  -- as many facets as are asked for: no field was found under the name of another
  have parsed := (mapM_eq_some_iff _).mp decoded
  have count : bodies.length = r.fields.length := by
    have lengths := parsed.length_eq.trans asks.length_eq
    have general : r.startText.isSome = r.start.isSome := Option.isSome_map
    rw [facetParts, Request.asked, length_append, length_append, length_map, length_map, general] at lengths
    split at lengths
    · rw [length_singleton, length_singleton] at lengths
      omega
    · exact lengths
  have fields : bodies = r.fields.map (fieldText r.startText r.sort) := by
    rw [grownBodies] at count ⊢
    exact (grown_length r.startText r.sort r.fields []).2.2 (by rw [count, length_nil, Nat.zero_add])
  -- the start of any of the facets is an `int`
  have start : ∃ start : Option Int32, r.start = start.map (·.toInt) := by
    obtain ⟨field, rest, all⟩ := exists_cons_of_ne_nil r.present
    have first := asks
    rw [Request.asked, all, map_cons, cons_append] at first
    obtain ⟨facet, later, here, -⟩ := forall₂_cons_right_iff.mp first
    cases given : r.start with
    | none => exact ⟨none, rfl⟩
    | some =>
      have same := here.start
      rw [given, Option.getD_some] at same
      exact ⟨some (facetAttr facet).start, congrArg some same.symm⟩
  obtain ⟨start, same⟩ := start
  -- each part is parsed to a facet that has the name of its field
  have plain : ∀ field ∈ r.fields, 32 ∉ field.name ∧ 92 ∉ field.name := by
    have through := forall₂_through parsed asks
    rw [fields, facetParts, map_map, Request.asked, forall₂_map_append] at through
    intro field mem
    obtain ⟨facet, read, here⟩ := through.1 field mem
    obtain ⟨behind, text, plain⟩ := fieldText_behind start r.sort field
    rw [Function.comp_apply, startText_eq same, text] at read
    exact parseFacet_name attset bib1 plain read rfl here.useattr
  refine ⟨start, same, plain, ?_⟩
  rw [fields, mapM_parseFacet attset bib1 same plain] at decoded
  exact (Option.some.inj decoded).symm

theorem faithful_of_fieldByField (fieldByField : FieldByField attset bib1 r) : r.Faithful := by
  obtain ⟨facets, decoded, asks, encoded⟩ := fieldByField
  obtain ⟨start, same, plain, rfl⟩ := names_of_asks decoded asks
  obtain ⟨fields, signs⟩ := (asks_iff same).mp asks
  have positive : ∀ field ∈ r.fields, 0 ≤ field.n := by
    intro field mem
    obtain ⟨-, positive, limit⟩ := fields field mem
    omega
  have inside : ∀ s ∈ r.start, 0 ≤ s ∧ s < 2 ^ 31 := by
    intro s given
    rw [same] at given
    obtain ⟨s, mem, rfl⟩ := Option.map_eq_some_iff.mp given
    exact ⟨signs s mem, s.toInt_lt⟩
  obtain ⟨short, sort⟩ := (encode_iff asks positive fun s given => (inside s given).1).mp encoded
  exact {
    names := plain
    numerals := fun field mem => (useName_iff field.name).mp (fields field mem).1
    limits := fun field mem => (limitVal_iff field.n).mp (fields field mem).2
    short
    start := inside
    sort }

theorem fieldByField_of_faithful (faithful : r.Faithful) : FieldByField attset bib1 r := by
  have same : r.start = (r.start.map Int32.ofInt).map (·.toInt) := by
    cases given : r.start with
    | none => rfl
    | some s =>
      have inside := faithful.start s given
      rw [Option.map_some, Option.map_some, Int32.toInt_ofInt_of_le (by omega) (by omega)]
  have asks : List.Forall₂ (Asks r) (facetsOf r (r.start.map Int32.ofInt) : List (FacetField Oid)) r.asked := by
    rw [asks_iff same]
    refine ⟨fun field mem => ⟨(useName_iff _).mpr (faithful.numerals field mem), (limitVal_iff _).mpr (faithful.limits field mem)⟩, ?_⟩
    intro s given
    have inside : s.toInt ∈ r.start := by
      rw [same, given]
      rfl
    exact (faithful.start _ inside).1
  refine ⟨_, ?_, asks, ?_⟩
  · obtain ⟨bodies, grownBodies, parts⟩ := decode_parts attset bib1 r
    have fields : bodies = r.fields.map (fieldText r.startText r.sort) := by
      rw [grownBodies]
      exact @grown_names r.startText r.sort [] r.fields (fun field mem => (faithful.names field mem).1) r.distinct
    rw [parts, fields]
    exact mapM_parseFacet attset bib1 same faithful.names
  · exact (encode_iff asks (fun field mem => (faithful.limits field mem).1) fun s given => (faithful.start s given).1).mpr
      ⟨faithful.short, faithful.sort⟩

variable (attset bib1)

/-- Facet parameters are decoded field by field, and encoded as they were, if nothing of them gets lost. -/
theorem yazSruFacetRequest_fieldByField_iff (r : Request) : FieldByField attset bib1 r ↔ r.Faithful :=
  ⟨faithful_of_fieldByField, fieldByField_of_faithful⟩

end

def blankRequest : Request where
  fields := [{ n := 5, name := ascii "a b" }]
  start := none
  sort := none
  present := List.cons_ne_nil _ _
  named := by decide
  distinct := by decide

/-- The part of the name behind the blank is read as something else. -/
theorem yazSruFacetRequest_notFieldByField : ¬ @FieldByField Unit (fun _ => none) () blankRequest := by
  intro fieldByField
  have noBlank := ((faithful_of_fieldByField fieldByField).names { n := 5, name := ascii "a b" } (mem_singleton.mpr rfl)).1
  exact noBlank (by decide)

end Yaz.Server.SruFacet
