import Yaz.Xml.Decoding

/-! The lists of SRU responses in `srw.c`: each is counted in one loop over the children of an element and filled in another. -/

set_option autoImplicit false

namespace Yaz.Server.Srw
open List
open Yaz.Comstack (ascii)
open Yaz.Pqf (odrAtoi)
open Yaz.Xml.Decoding (Node nmemTextNodeCdata)

variable {α : Type} {counted stored : Node → Bool} {decode : Node → α} {children : List Node}

/-! ### Elements -/

def isElement : Node → Bool
  | .element _ _ _ => true
  | _ => false

/-- `yaz_match_xsd_element`. -/
def isNamed (elem : String) : Node → Bool
  | .element name _ _ => name = ascii elem
  | _ => false

def childrenOf : Node → List Node
  | .element _ _ children => children
  | _ => []

/-- The value of `yaz_match_xsd_string` for an element of the name. -/
def firstText : List Node → List UInt8
  | .text content :: _ => content
  | _ => []

/-- The value of `yaz_match_xsd_integer`, if it sets one. -/
def firstInteger : List Node → Option Int64
  | .text content :: _ => some (odrAtoi content)
  | _ => none

/-- The value of `yaz_match_xsd_XML_n2`; `dump` is `xmlNodeDump`. -/
def xmlText (dump : Node → List UInt8) (fixupRoot : Bool) (children : List Node) : List UInt8 :=
  let text := (children.filter isElement).flatMap dump
  if (children.filter isElement).length ≠ 1 ∧ fixupRoot then ascii "<yaz_record>" ++ text ++ ascii "</yaz_record>" else text

/-- `yaz_element_attribute_value_get` for an element of the name. -/
def attributeValue (attributeName : String) : Node → Option (List UInt8)
  | .element _ properties _ => properties.findSome? fun attr => if attr.name = ascii attributeName then attr.text else none
  | _ => none

/-! ### What the lists hold -/

inductive Packing where
  | string
  | xml
  | url
  deriving DecidableEq

/-- `Z_SRW_record`; the packing is `none` until something is stored there. -/
structure SrwRecord where
  recordSchema : Option (List UInt8)
  recordPacking : Option Packing
  recordData : Option (List UInt8)
  recordPosition : Option Int64
  deriving DecidableEq

structure ExtraRecord where
  extraRecordData : Option (List UInt8)
  recordIdentifier : Option (List UInt8)
  deriving DecidableEq

/-- The loop of `yaz_srw_record`. -/
def recordStep (dump : Node → List UInt8) (r : SrwRecord × ExtraRecord) : Node → SrwRecord × ExtraRecord
  | .element name _ children =>
    if name = ascii "recordSchema" then ({ r.1 with recordSchema := some (firstText children) }, r.2)
    else if name = ascii "recordPacking" then r
    else if name = ascii "recordPosition" then ({ r.1 with recordPosition := (firstInteger children).or r.1.recordPosition }, r.2)
    else if name = ascii "recordData" then
      if children.any isElement then ({ r.1 with recordData := some (xmlText dump true children), recordPacking := some .xml }, r.2)
      else ({ r.1 with recordData := some (firstText children), recordPacking := some .string }, r.2)
    else if name = ascii "extraRecordData" then (r.1, { r.2 with extraRecordData := some (xmlText dump false children) })
    else if name = ascii "recordIdentifier" then (r.1, { r.2 with recordIdentifier := some (firstText children) })
    else r
  | _ => r

def yazSrwRecord (dump : Node → List UInt8) (ptr : Node) : SrwRecord × Option ExtraRecord :=
  let r := (childrenOf ptr).foldl (recordStep dump) (⟨none, none, none, none⟩, ⟨none, none⟩)
  (r.1, if r.2.extraRecordData.isSome || r.2.recordIdentifier.isSome then some r.2 else none)

structure RecordVersion where
  versionType : Option (List UInt8)
  versionValue : Option (List UInt8)
  deriving DecidableEq

def yazSrwVersion (ptr : Node) : RecordVersion :=
  (childrenOf ptr).foldl (fun rec ptr =>
    if isNamed "versionType" ptr then { rec with versionType := some (firstText (childrenOf ptr)) }
    else if isNamed "versionValue" ptr then { rec with versionValue := some (firstText (childrenOf ptr)) }
    else rec) ⟨none, none⟩

structure Diagnostic where
  uri : Option (List UInt8)
  details : Option (List UInt8)
  message : Option (List UInt8)
  deriving DecidableEq

def diagnosticStep (rec : Diagnostic) (ptr : Node) : Diagnostic :=
  if isNamed "uri" ptr then { rec with uri := some (firstText (childrenOf ptr)) }
  else if isNamed "details" ptr then { rec with details := some (firstText (childrenOf ptr)) }
  else if isNamed "message" ptr then { rec with message := some (firstText (childrenOf ptr)) }
  else rec

def readDiagnostic (ptr : Node) : Diagnostic := (childrenOf ptr).foldl diagnosticStep ⟨none, none, none⟩

structure ScanTerm where
  value : Option (List UInt8)
  numberOfRecords : Option Int64
  displayTerm : Option (List UInt8)
  whereInList : Option (List UInt8)

def yazSrwTerm (ptr : Node) : ScanTerm :=
  (childrenOf ptr).foldl (fun term ptr =>
    if isNamed "value" ptr then { term with value := some (firstText (childrenOf ptr)) }
    else if isNamed "numberOfRecords" ptr then { term with numberOfRecords := (firstInteger (childrenOf ptr)).or term.numberOfRecords }
    else if isNamed "displayTerm" ptr then { term with displayTerm := some (firstText (childrenOf ptr)) }
    else if isNamed "whereInList" ptr then { term with whereInList := some (firstText (childrenOf ptr)) }
    else term) ⟨none, none, none, none⟩

/-! ### Counting and filling -/

/-- A list when it has been read: its count, and what was stored at which index, in the order of the stores. -/
structure Filling (α : Type) where
  count : Nat
  stores : List (α × Nat)

/-- The second loop; in one list the index is advanced for every node. -/
def storeLoop (stored : Node → Bool) (always : Bool) (decode : Node → α) : (i : Nat) → List Node → List (α × Nat)
  | _, [] => []
  | i, ptr :: rest =>
    if stored ptr then (decode ptr, i) :: storeLoop stored always decode (i + 1) rest
    else storeLoop stored always decode (if always then i + 1 else i) rest

def fill (counted stored : Node → Bool) (always : Bool) (decode : Node → α) (children : List Node) : Filling α :=
  { count := children.countP counted, stores := if children.countP counted = 0 then [] else storeLoop stored always decode 0 children }

def yazSrwRecords (dump : Node → List UInt8) : List Node → Filling (SrwRecord × Option ExtraRecord) :=
  fill (isNamed "record") (isNamed "record") false (yazSrwRecord dump)

def yazSrwVersions : List Node → Filling RecordVersion := fill (isNamed "recordVersion") (isNamed "recordVersion") false yazSrwVersion

def yazSrwDecodeDiagnostics : List Node → Filling Diagnostic := fill (isNamed "diagnostic") (isNamed "diagnostic") false readDiagnostic

def yazSrwTerms : List Node → Filling ScanTerm := fill (isNamed "term") (isNamed "term") true yazSrwTerm

def yazSruProxyGetFacetTermCount (node : Node) : List UInt8 × Int64 :=
  (nmemTextNodeCdata (childrenOf node), ((attributeValue "est_representation" node).map odrAtoi).getD (-1))

/-- `yaz_sru_proxy_decode_facet_field`: the use attribute and the terms. Without a code a null pointer is copied as a string. -/
def yazSruProxyDecodeFacetField (ptr : Node) : Option (List UInt8 × Filling (List UInt8 × Int64)) :=
  (attributeValue "code" ptr).map fun name =>
    (name, fill (isNamed "facetvalue") (isNamed "facetvalue") false yazSruProxyGetFacetTermCount (childrenOf ptr))

/-- `yaz_sru_proxy_decode_facets` for the first element with facets. -/
def yazSruProxyDecodeFacets (children : List Node) : Option (Filling (Option (List UInt8 × Filling (List UInt8 × Int64)))) :=
  (children.find? (isNamed "facets")).map fun ptr => fill isElement (isNamed "facet") false yazSruProxyDecodeFacetField (childrenOf ptr)

/-! ### Exact lists -/

/-- The count is that of the elements that match, and what they are decoded to was stored once each, in order, from the first index on. -/
def Filling.Exact (f : Filling α) (isMatch : Node → Bool) (decode : Node → α) (children : List Node) : Prop :=
  f.count = (children.filter isMatch).length ∧ f.stores = ((children.filter isMatch).map decode).zipIdx

inductive SrwResponse where
  | searchRetrieveResponse (children : List Node)
  | scanResponse (children : List Node)
  | updateResponse (children : List Node)

def listsOf (elem : String) (children : List Node) : List (List Node) := (children.filter (isNamed elem)).map childrenOf

/-- Every list is exact, and so is each list of terms in it; `extra_records` is stored, and so is the packing of each record. -/
def FilledExactly (dump : Node → List UInt8) : SrwResponse → Prop
  | .searchRetrieveResponse children =>
    (∀ list ∈ listsOf "records" children, (yazSrwRecords dump list).Exact (isNamed "record") (yazSrwRecord dump) list ∧
      ∀ slot ∈ (yazSrwRecords dump list).stores, slot.1.1.recordPacking ≠ none) ∧
    (∃ list ∈ listsOf "records" children, (yazSrwRecords dump list).count ≠ 0) ∧
    (∀ list ∈ listsOf "diagnostics" children, (yazSrwDecodeDiagnostics list).Exact (isNamed "diagnostic") readDiagnostic list) ∧
    ∀ list ∈ listsOf "facet_analysis" children, ∀ ptr ∈ list.find? (isNamed "facets"), ∀ facets ∈ yazSruProxyDecodeFacets list,
      facets.Exact (isNamed "facet") yazSruProxyDecodeFacetField (childrenOf ptr) ∧ ∀ facet ∈ childrenOf ptr, isNamed "facet" facet = true →
        ∃ field ∈ yazSruProxyDecodeFacetField facet,
          field.2.Exact (isNamed "facetvalue") yazSruProxyGetFacetTermCount (childrenOf facet)
  | .scanResponse children =>
    (∀ list ∈ listsOf "terms" children, (yazSrwTerms list).Exact (isNamed "term") yazSrwTerm list) ∧
    ∀ list ∈ listsOf "diagnostics" children, (yazSrwDecodeDiagnostics list).Exact (isNamed "diagnostic") readDiagnostic list
  | .updateResponse children =>
    (∀ list ∈ listsOf "recordVersions" children, (yazSrwVersions list).Exact (isNamed "recordVersion") yazSrwVersion list) ∧
    ∀ list ∈ listsOf "diagnostics" children, (yazSrwDecodeDiagnostics list).Exact (isNamed "diagnostic") readDiagnostic list

/-- There is a record, each has its data, and only facets that have a code are in the list of facets; no node but terms is before a term. -/
def OnlyExpected : SrwResponse → Prop
  | .searchRetrieveResponse children =>
    (∀ list ∈ listsOf "records" children, ∀ ptr ∈ list, isNamed "record" ptr = true → ∃ part ∈ childrenOf ptr,
      isNamed "recordData" part = true) ∧
    (∃ list ∈ listsOf "records" children, ∃ ptr ∈ list, isNamed "record" ptr = true) ∧
    ∀ list ∈ listsOf "facet_analysis" children, ∀ ptr ∈ list.find? (isNamed "facets"), ∀ facet ∈ childrenOf ptr,
      isElement facet = true → isNamed "facet" facet = true ∧ (attributeValue "code" facet).isSome = true
  | .scanResponse children => ∀ list ∈ listsOf "terms" children, ∀ ptr ∈ list.dropWhile (isNamed "term"), isNamed "term" ptr = false
  | .updateResponse _ => True

theorem storeLoop_exact (i : Nat) : storeLoop stored false decode i children = ((children.filter stored).map decode).zipIdx i := by
  induction children generalizing i with
  | nil => rfl
  | cons _ _ ih =>
    rw [storeLoop]
    split
    · rw [filter_cons_of_pos ‹_›, map_cons, zipIdx_cons, ih]
    · rw [filter_cons_of_neg ‹_›]
      exact ih i

theorem fill_exact_iff (within : ∀ ptr, stored ptr = true → counted ptr = true) :
    (fill counted stored false decode children).Exact stored decode children ↔
      ∀ ptr ∈ children, counted ptr = true → stored ptr = true := by
  have order : children.countP counted = children.countP stored ↔ ∀ ptr ∈ children, counted ptr = true → stored ptr = true := by
    induction children with
    | nil => simp
    | cons ptr children ih =>
      have most := countP_mono_left (l := children) fun ptr _ => within ptr
      rw [forall_mem_cons, ← ih, countP_cons, countP_cons]
      cases isStored : stored ptr <;> cases isCounted : counted ptr <;> simp_all
      omega
  rw [Filling.Exact, fill, ← countP_eq_length_filter]
  refine ⟨fun exact => order.mp exact.1, fun only => ⟨order.mpr only, ?_⟩⟩
  split
  · have none : children.filter stored = [] := by
      rw [← length_eq_zero_iff, ← countP_eq_length_filter, ← order.mpr only]
      assumption
    rw [none]
    rfl
  · exact storeLoop_exact 0

theorem fill_exact : (fill stored stored false decode children).Exact stored decode children :=
  (fill_exact_iff fun _ => id).mpr fun _ _ => id

/-- An index that has gone past its element stays past it. -/
theorem storeLoop_always (i : Nat) : storeLoop stored true decode i children = ((children.filter stored).map decode).zipIdx i ↔
    ∀ ptr ∈ children.dropWhile stored, stored ptr = false := by
  induction children generalizing i with
  | nil => simp [storeLoop]
  | cons ptr children ih =>
    rw [storeLoop]
    split
    · rw [filter_cons_of_pos ‹_›, map_cons, zipIdx_cons, dropWhile_cons_of_pos ‹_›, List.cons.injEq, and_iff_right rfl, ih]
    · rw [filter_cons_of_neg ‹_›, dropWhile_cons_of_neg ‹_›, if_pos rfl]
      have later : ∀ (children : List Node) (i : Nat), ∀ slot ∈ storeLoop stored true decode i children, i ≤ slot.2 := by
        intro children
        induction children with
        | nil => exact fun i slot member => nomatch member
        | cons _ _ ih =>
          intro i slot member
          rw [storeLoop] at member
          split at member
          · rcases mem_cons.mp member with rfl | member
            · exact Nat.le_refl _
            · exact Nat.le_of_succ_le (ih _ slot member)
          · exact Nat.le_of_succ_le (ih _ slot member)
      constructor
      · intro same
        have none : children.filter stored = [] := by
          by_contra some
          obtain ⟨first, others, found⟩ := exists_cons_of_ne_nil some
          have past := later children (i + 1) (decode first, i) (by rw [same, found]; exact mem_cons_self)
          exact absurd past (Nat.not_succ_le_self i)
        intro p member
        rcases mem_cons.mp member with rfl | member
        · exact Bool.eq_false_iff.mpr ‹_›
        · exact Bool.eq_false_iff.mpr (filter_eq_nil_iff.mp none p member)
      · intro only
        have none : ∀ p ∈ children, stored p = false := fun p member => only p (mem_cons_of_mem ptr member)
        rw [(ih (i + 1)).mpr fun p member => none p ((dropWhile_sublist stored).mem member),
          filter_eq_nil_iff.mpr fun p member => Bool.eq_false_iff.mp (none p member)]
        rfl

theorem terms_exact_iff : (yazSrwTerms children).Exact (isNamed "term") yazSrwTerm children ↔
    ∀ ptr ∈ children.dropWhile (isNamed "term"), isNamed "term" ptr = false := by
  rw [Filling.Exact, yazSrwTerms, fill, ← countP_eq_length_filter, and_iff_right rfl, ← @storeLoop_always _ _ yazSrwTerm _ 0]
  by_cases none : children.countP (isNamed "term") = 0
  · have all := countP_eq_zero.mp none
    have loop := (@storeLoop_always _ (isNamed "term") yazSrwTerm children 0).mpr fun ptr member =>
      Bool.eq_false_iff.mpr (all ptr ((dropWhile_sublist _).mem member))
    rw [if_pos none, loop, filter_eq_nil_iff.mpr all]
    simp
  · rw [if_neg none]

theorem recordStep_packing (dump : Node → List UInt8) (r : SrwRecord × ExtraRecord) (ptr : Node) :
    (recordStep dump r ptr).1.recordPacking = none ↔ r.1.recordPacking = none ∧ isNamed "recordData" ptr = false := by
  cases ptr with
  | element name =>
    rw [recordStep, isNamed]
    by_cases data : name = ascii "recordData"
    · rw [data, if_neg (by decide), if_neg (by decide), if_neg (by decide), if_pos rfl]
      split <;> simp
    · rw [if_neg data]
      split_ifs <;> simp [data]
  | _ => simp [recordStep, isNamed]

theorem yazSrwRecord_packing (dump : Node → List UInt8) (ptr : Node) :
    (yazSrwRecord dump ptr).1.recordPacking ≠ none ↔ ∃ part ∈ childrenOf ptr, isNamed "recordData" part = true := by
  have loop : ∀ (children : List Node) (r : SrwRecord × ExtraRecord), (children.foldl (recordStep dump) r).1.recordPacking = none ↔
      r.1.recordPacking = none ∧ ∀ part ∈ children, isNamed "recordData" part = false := by
    intro children
    induction children with
    | nil => simp
    | cons _ _ ih =>
      intro r
      rw [foldl_cons, ih, recordStep_packing, forall_mem_cons, and_assoc]
  rw [yazSrwRecord, Ne, loop]
  simp

/-- The lists of a response are exact, and what the client reads is stored, exactly when nothing else is among them. -/
theorem filledExactly_iff (dump : Node → List UInt8) (response : SrwResponse) : FilledExactly dump response ↔ OnlyExpected response := by
  cases response with
  | searchRetrieveResponse children =>
    refine and_congr (forall₂_congr fun list _ => ?_) (and_congr (exists_congr fun list => and_congr_right fun _ => ?_) ?_)
    · rw [yazSrwRecords, and_iff_right fill_exact]
      have stores : (fill (isNamed "record") (isNamed "record") false (yazSrwRecord dump) list).stores = _ := fill_exact.2
      rw [stores]
      constructor
      · intro set ptr member isRecord
        have inside := mem_map_of_mem (f := yazSrwRecord dump) (mem_filter.mpr ⟨member, isRecord⟩)
        obtain ⟨i, short, found⟩ := getElem_of_mem inside
        rw [← yazSrwRecord_packing dump, ← found]
        exact set (_, i) (mem_zipIdx_iff_getElem?.mpr (getElem?_eq_getElem short))
      · intro set slot member
        obtain ⟨ptr, inside, same⟩ := mem_map.mp (fst_mem_of_mem_zipIdx member)
        rw [← same]
        exact (yazSrwRecord_packing dump ptr).mpr (set ptr (mem_filter.mp inside).1 (mem_filter.mp inside).2)
    · rw [yazSrwRecords, fill, ← Nat.pos_iff_ne_zero, countP_pos_iff]
    · have diagnostics : ∀ list ∈ listsOf "diagnostics" children,
          (yazSrwDecodeDiagnostics list).Exact (isNamed "diagnostic") readDiagnostic list := fun list _ => fill_exact
      rw [and_iff_right diagnostics]
      refine forall₂_congr fun list _ => forall₂_congr fun ptr found => ?_
      have decoded : yazSruProxyDecodeFacets list =
        some (fill isElement (isNamed "facet") false yazSruProxyDecodeFacetField (childrenOf ptr)) := by
        rw [yazSruProxyDecodeFacets, Option.mem_def.mp found, Option.map_some]
      have within : ∀ ptr, isNamed "facet" ptr = true → isElement ptr = true := by
        intro ptr named
        cases ptr <;> simp_all [isNamed, isElement]
      simp only [decoded, Option.mem_def, Option.some.injEq, forall_eq', fill_exact_iff within]
      rw [← forall₂_and]
      refine forall₂_congr fun facet _ => ?_
      have field : (∃ field ∈ yazSruProxyDecodeFacetField facet,
          field.2.Exact (isNamed "facetvalue") yazSruProxyGetFacetTermCount (childrenOf facet)) ↔
            (attributeValue "code" facet).isSome = true := by
        rw [yazSruProxyDecodeFacetField]
        cases attributeValue "code" facet with
        | none => simp
        | some name => simpa using fill_exact
      constructor
      · exact fun both element => ⟨both.1 element, field.mp (both.2 (both.1 element))⟩
      · exact fun only => ⟨fun element => (only element).1, fun named => field.mpr (only (within facet named)).2⟩
  | scanResponse =>
    refine (and_iff_left fun list _ => fill_exact).trans (forall₂_congr fun list _ => terms_exact_iff)
  | updateResponse => exact iff_of_true ⟨fun list _ => fill_exact, fun list _ => fill_exact⟩ trivial

/-- White space in front of a term moves it past the end of the list. -/
theorem filledExactly_white : ¬FilledExactly (fun _ => [])
    (.scanResponse [.element (ascii "terms") [] [.text [10], .element (ascii "term") [] []]]) := by
  rintro ⟨exact, -⟩
  have same := (exact _ mem_cons_self).2
  exact absurd (congrArg (List.map Prod.snd) same) (by decide)

end Yaz.Server.Srw
