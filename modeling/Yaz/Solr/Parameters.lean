import Yaz.Pqf.FacetAttr

/-! The parameters of a request to Solr: `yaz_solr_encode_request` of `solr.c`.

The names and values are put in two tables whose size is computed before. What becomes of the tables, the path of the request, is left out.
-/

set_option autoImplicit false

namespace Yaz.Solr
open Yaz.Comstack (ascii)
open Yaz.Pqf (AttributeElement FacetAttr intText yazFacetAttrGetZAttributes)

/-- `name`, `value` and `i`. The indices that are stored to are a log. -/
structure Parms where
  entries : List (List UInt8 × Option (List UInt8)) := []
  i : Nat := 0
  stored : List Nat := []
  deriving DecidableEq

/-- An entry at `i`. -/
def Parms.put (parms : Parms) (name : List UInt8) (value : Option (List UInt8)) : Parms :=
  { entries := parms.entries ++ [(name, value)], i := parms.i + 1, stored := parms.stored ++ [parms.i] }

def yazAddNameValueStr (parms : Parms) (name : List UInt8) (val : Option (List UInt8)) : Parms :=
  match val with
  | none => parms
  | some val => parms.put name (some val)

def yazAddNameValueInt (parms : Parms) (name : List UInt8) (val : Option Int64) : Parms :=
  match val with
  | none => parms
  | some val => parms.put name (some (intText val.toInt))

def given (condition : Bool) (v : Int32) : Option Int64 := if condition then some v.toInt64 else none

def facetName (useattr : Option (List UInt8)) (name : String) : List UInt8 :=
  match useattr with
  | none => ascii name
  | some useattr => ascii "f." ++ useattr ++ ascii "." ++ ascii name

/-- `yaz_solr_encode_facet_field` behind the attributes. -/
def encodeFacetAttr (parms : Parms) (av : FacetAttr) : Parms :=
  let parms := yazAddNameValueStr parms (ascii "facet.field") av.useattr
  let parms := yazAddNameValueInt parms (facetName av.useattr "facet.limit") (given (0 < av.limit) av.limit)
  let parms := yazAddNameValueInt parms (facetName av.useattr "facet.offset") (given (1 < av.start) (av.start - 1))
  yazAddNameValueStr parms (facetName av.useattr "facet.sort") (if av.sortorder = 1 then some (ascii "index") else none)

section
variable {Oid : Type}

/-- `yaz_solr_encode_facet_field`; the attributes of a field. -/
def yazSolrEncodeFacetField (parms : Parms) (facetField : List (AttributeElement Oid)) : Parms × Bool :=
  let attrValues := yazFacetAttrGetZAttributes facetField {}
  if attrValues.error.isSome then (parms, false) else (encodeFacetAttr parms attrValues, true)

def yazSolrEncodeFacetList : Parms → List (List (AttributeElement Oid)) → Parms × Bool
  | parms, [] => (parms, true)
  | parms, facetField :: rest =>
    match yazSolrEncodeFacetField parms facetField with
    | (parms, false) => (parms, false)
    | (parms, true) => yazSolrEncodeFacetList parms rest

end

/-- `sort_type` with the keys. -/
inductive SortType where
  | none
  | sort (sortKeys : Option (List UInt8))
  | xSort
  deriving DecidableEq

/-- `Z_SRW_searchRetrieveRequest`, as far as it is encoded. -/
structure SearchRequest (Oid : Type) where
  query : Option (List UInt8)
  startRecord : Option Int64
  maximumRecords : Option Int64
  recordSchema : Option (List UInt8)
  sort : SortType
  facetList : Option (List (List (AttributeElement Oid)))
  deriving DecidableEq

/-- `Z_SRW_scanRequest`, as far as it is encoded. -/
structure ScanRequest where
  scanClause : Option (List UInt8)
  queryType : List UInt8
  maximumTerms : Option Int64
  deriving DecidableEq

/-- The kinds of `Z_SRW_PDU` that are encoded, and the others. -/
inductive Request (Oid : Type) where
  | searchRetrieve (request : SearchRequest Oid)
  | scan (request : ScanRequest)
  | other
  deriving DecidableEq

structure SrwPdu (Oid : Type) where
  request : Request Oid
  extraArgs : List (List UInt8 × Option (List UInt8))
  deriving DecidableEq

section
variable {Oid : Type}

def SrwPdu.noParms (pdu : SrwPdu Oid) : Nat :=
  20 + (match pdu.request with
    | .searchRetrieve request => (request.facetList.elim 0 List.length)
    | _ => 0) + pdu.extraArgs.length

def putExtraArgs (extraArgs : List (List UInt8 × Option (List UInt8))) (parms : Parms) : Parms :=
  extraArgs.foldl (fun parms ea => parms.put ea.1 ea.2) parms

def encodeSort (parms : Parms) : SortType → Parms
  | .sort sortKeys => yazAddNameValueStr parms (ascii "sort") sortKeys
  | _ => parms

def encodeFacets (parms : Parms) : Option (List (List (AttributeElement Oid))) → Parms × Bool
  | none => (parms, true)
  | some facetList =>
    let parms := yazAddNameValueStr parms (ascii "facet") (some (ascii "true"))
    yazSolrEncodeFacetList (yazAddNameValueStr parms (ascii "facet.mincount") (some (ascii "1"))) facetList

/-- The entries for a search; `false` where it is given up. -/
def encodeSearch (parms : Parms) (defTypeSet : Bool) (request : SearchRequest Oid) : Parms × Bool :=
  match request.query with
  | none => (parms, false)
  | some query =>
    let parms := yazAddNameValueStr parms (ascii "defType") (if defTypeSet then none else some (ascii "lucene"))
    let parms := yazAddNameValueStr parms (ascii "q") (some query)
    let parms := yazAddNameValueInt parms (ascii "start") (request.startRecord.map (· - 1))
    let parms := yazAddNameValueInt parms (ascii "rows") request.maximumRecords
    let parms := yazAddNameValueStr parms (ascii "fl") request.recordSchema
    encodeFacets (encodeSort parms request.sort) request.facetList

def encodeScanClause (parms : Parms) (q : List UInt8) : Parms :=
  match q.dropWhile (· ≠ 58) with
  | [] => yazAddNameValueStr parms (ascii "terms.lower") (some q)
  | _ :: behind =>
    yazAddNameValueStr (yazAddNameValueStr parms (ascii "terms.lower") (some behind)) (ascii "terms.fl") (some (q.takeWhile (· ≠ 58)))

def encodeScan (parms : Parms) (request : ScanRequest) : Parms × Bool :=
  let rest (parms : Parms) : Parms × Bool :=
    (yazAddNameValueInt (yazAddNameValueStr parms (ascii "terms.sort") (some (ascii "index")))
      (ascii "terms.limit") request.maximumTerms, true)
  match request.scanClause with
  | none => (parms, false)
  | some scanClause =>
    if request.queryType = ascii "pqf" then
      rest (yazAddNameValueStr (yazAddNameValueStr parms (ascii "terms.fl") (some scanClause)) (ascii "terms.lower") (some scanClause))
    else if request.queryType = ascii "cql" then rest (encodeScanClause parms scanClause)
    else (parms, false)

def Parms.terminate (parms : Parms) : Parms := { parms with i := parms.i + 1, stored := parms.stored ++ [parms.i] }

/-- `yaz_solr_encode_request`: the tables, and whether there is a request. -/
def yazSolrEncodeRequest (pdu : SrwPdu Oid) : Parms × Bool :=
  let parms := putExtraArgs pdu.extraArgs {}
  let encoded := match pdu.request with
    | .searchRetrieve request => encodeSearch parms (pdu.extraArgs.any fun ea => ea.1 = ascii "defType") request
    | .scan request => encodeScan parms request
    | .other => (parms, false)
  if encoded.2 then (encoded.1.terminate, true) else encoded

/-- The number of entries fits an `int`, and every index that is stored to is in the tables. -/
def FitsTable (pdu : SrwPdu Oid) : Prop :=
  (pdu.noParms : Int) ≤ 2 ^ 31 - 1 ∧ ∀ index ∈ (yazSolrEncodeRequest pdu).1.stored, index < pdu.noParms

def one {α : Type} (val : Option α) : Nat := val.elim 0 fun _ => 1

def facetEntries (av : FacetAttr) : Nat :=
  one av.useattr + one (given (0 < av.limit) av.limit) + one (given (1 < av.start) (av.start - 1)) + if av.sortorder = 1 then 1 else 0

def facetListEntries : List (List (AttributeElement Oid)) → Nat
  | [] => 1
  | facetField :: rest =>
    let av := yazFacetAttrGetZAttributes facetField {}
    if av.error.isSome then 0 else facetEntries av + facetListEntries rest

def sortEntries : SortType → Nat
  | .sort sortKeys => one sortKeys
  | _ => 0

def searchEntries (defTypeSet : Bool) (request : SearchRequest Oid) : Nat :=
  (if defTypeSet then 0 else 1) + 1 + one request.startRecord + one request.maximumRecords + one request.recordSchema +
    sortEntries request.sort + request.facetList.elim 1 fun facetList => 2 + facetListEntries facetList

/-- The tables are not too large for an `int`, and a search has room for its facets: what they have more than one entry each is no more
than what the other parameters leave of twenty. -/
def HasRoom (pdu : SrwPdu Oid) : Prop :=
  (pdu.noParms : Int) ≤ 2 ^ 31 - 1 ∧
    match pdu.request with
    | .searchRetrieve request => request.query.isSome = true →
        searchEntries (pdu.extraArgs.any fun ea => ea.1 = ascii "defType") request ≤ 20 + request.facetList.elim 0 List.length
    | _ => True

/-! ### Filling the tables -/

structure Filled (parms : Parms) (count : Nat) : Prop where
  i : parms.i = count
  stored : parms.stored = List.range count

section
variable {parms : Parms} {count : Nat}

theorem Filled.put (filled : Filled parms count) (name : List UInt8) (value : Option (List UInt8)) :
    Filled (parms.put name value) (count + 1) where
  i := congrArg (· + 1) filled.i
  stored := by rw [Parms.put, filled.stored, filled.i, List.range_succ]

theorem Filled.terminate (filled : Filled parms count) : Filled parms.terminate (count + 1) where
  i := congrArg (· + 1) filled.i
  stored := by rw [Parms.terminate, filled.stored, filled.i, List.range_succ]

theorem Filled.str (filled : Filled parms count) (name : List UInt8) (val : Option (List UInt8)) :
    Filled (yazAddNameValueStr parms name val) (count + one val) := by
  cases val with
  | none => exact filled
  | some val => exact filled.put name (some val)

theorem Filled.int (filled : Filled parms count) (name : List UInt8) (val : Option Int64) :
    Filled (yazAddNameValueInt parms name val) (count + one val) := by
  cases val with
  | none => exact filled
  | some val => exact filled.put name (some (intText val.toInt))

theorem Filled.extraArgs (filled : Filled parms count) (extraArgs : List (List UInt8 × Option (List UInt8))) :
    Filled (putExtraArgs extraArgs parms) (count + extraArgs.length) := by
  induction extraArgs generalizing parms count with
  | nil => exact filled
  | cons ea rest ih =>
    have all := ih (filled.put ea.1 ea.2)
    rw [List.length_cons, Nat.add_comm rest.length, ← Nat.add_assoc]
    exact all

theorem Filled.facetAttr (filled : Filled parms count) (av : FacetAttr) : Filled (encodeFacetAttr parms av) (count + facetEntries av) := by
  have all := (((filled.str (ascii "facet.field") av.useattr).int (facetName av.useattr "facet.limit") (given (0 < av.limit) av.limit)).int
    (facetName av.useattr "facet.offset") (given (1 < av.start) (av.start - 1))).str (facetName av.useattr "facet.sort")
    (if av.sortorder = 1 then some (ascii "index") else none)
  have sort : one (if av.sortorder = 1 then some (ascii "index") else none) = if av.sortorder = 1 then 1 else 0 := by split <;> rfl
  rw [sort] at all
  rw [facetEntries, ← Nat.add_assoc, ← Nat.add_assoc, ← Nat.add_assoc]
  exact all

def ending (encoded : Parms × Bool) : Parms := if encoded.2 then encoded.1.terminate else encoded.1

theorem Filled.facetList (filled : Filled parms count) (facetList : List (List (AttributeElement Oid))) :
    Filled (ending (yazSolrEncodeFacetList parms facetList)) (count + facetListEntries facetList) := by
  induction facetList generalizing parms count with
  | nil => exact filled.terminate
  | cons facetField _ ih =>
    rw [yazSolrEncodeFacetList, yazSolrEncodeFacetField, facetListEntries]
    by_cases failed : (yazFacetAttrGetZAttributes facetField {}).error.isSome = true
    · rw [if_pos failed, if_pos failed]
      exact filled
    · rw [if_neg failed, if_neg failed, ← Nat.add_assoc]
      exact ih (filled.facetAttr _)

theorem one_map {α β : Type} (f : α → β) (val : Option α) : one (val.map f) = one val := by
  cases val <;> rfl

theorem Filled.sort (filled : Filled parms count) (sort : SortType) : Filled (encodeSort parms sort) (count + sortEntries sort) := by
  cases sort with
  | none => exact filled
  | sort sortKeys => exact filled.str (ascii "sort") sortKeys
  | xSort => exact filled

theorem Filled.facets (filled : Filled parms count) (facetList : Option (List (List (AttributeElement Oid)))) :
    Filled (ending (encodeFacets parms facetList)) (count + facetList.elim 1 fun facetList => 2 + facetListEntries facetList) := by
  cases facetList with
  | none => exact filled.terminate
  | some facetList =>
    have two := (filled.str (ascii "facet") (some (ascii "true"))).str (ascii "facet.mincount") (some (ascii "1"))
    rw [Option.elim_some, ← Nat.add_assoc]
    exact two.facetList facetList

theorem Filled.search (filled : Filled parms count) (defTypeSet : Bool) {request : SearchRequest Oid}
    (query : request.query.isSome = true) :
    Filled (ending (encodeSearch parms defTypeSet request)) (count + searchEntries defTypeSet request) := by
  obtain ⟨q, isQuery⟩ := Option.isSome_iff_exists.mp query
  have front := ((((filled.str (ascii "defType") (if defTypeSet then none else some (ascii "lucene"))).str (ascii "q") (some q)).int
    (ascii "start") (request.startRecord.map (· - 1))).int (ascii "rows") request.maximumRecords).str (ascii "fl") request.recordSchema
  have defType : one (if defTypeSet = true then none else some (ascii "lucene")) = if defTypeSet then 0 else 1 := by
    cases defTypeSet <;> rfl
  rw [defType, one_map] at front
  have all := (front.sort request.sort).facets request.facetList
  rw [encodeSearch, isQuery]
  simp only [searchEntries, ← Nat.add_assoc] at all ⊢
  exact all

theorem Filled.scan (filled : Filled parms count) (request : ScanRequest) :
    ∃ few, few ≤ 5 ∧ Filled (ending (encodeScan parms request)) (count + few) := by
  have rest {parms : Parms} {n : Nat} (room : n ≤ 2) (filled : Filled parms (count + n)) : ∃ few, few ≤ 5 ∧
      Filled (ending (yazAddNameValueInt (yazAddNameValueStr parms (ascii "terms.sort") (some (ascii "index"))) (ascii "terms.limit")
        request.maximumTerms, true)) (count + few) := by
    have all := ((filled.str (ascii "terms.sort") (some (ascii "index"))).int (ascii "terms.limit") request.maximumTerms).terminate
    refine ⟨n + 1 + one request.maximumTerms + 1, ?_, ?_⟩
    · cases request.maximumTerms <;> simp [one] <;> omega
    · simp only [← Nat.add_assoc]
      exact all
  rw [encodeScan]
  cases request.scanClause with
  | none => exact ⟨0, by omega, filled⟩
  | some scanClause =>
    dsimp only
    split_ifs
    · exact rest le_rfl ((filled.str (ascii "terms.fl") (some scanClause)).str (ascii "terms.lower") (some scanClause))
    · rw [encodeScanClause]
      split
      · exact @rest _ 1 (by omega) (filled.str (ascii "terms.lower") (some scanClause))
      · next behind _ => exact rest le_rfl ((filled.str (ascii "terms.lower") (some _)).str (ascii "terms.fl") (some _))
    · exact ⟨0, by omega, filled⟩

end

theorem forall_mem_range_iff {count size : Nat} : (∀ index ∈ List.range count, index < size) ↔ count ≤ size := by
  constructor
  · intro all
    by_contra more
    exact absurd (all size (List.mem_range.mpr (by omega))) (Nat.lt_irrefl size)
  · intro room index inside
    have bound := List.mem_range.mp inside
    omega

theorem yazSolrEncodeRequest_ending (pdu : SrwPdu Oid) : (yazSolrEncodeRequest pdu).1 = ending (match pdu.request with
    | .searchRetrieve request => encodeSearch (putExtraArgs pdu.extraArgs {}) (pdu.extraArgs.any fun ea => ea.1 = ascii "defType") request
    | .scan request => encodeScan (putExtraArgs pdu.extraArgs {}) request
    | .other => (putExtraArgs pdu.extraArgs {}, false)) := by
  rw [yazSolrEncodeRequest, ending]
  split_ifs <;> rfl

/-- Which requests fit their tables. -/
theorem fitsTable_iff (pdu : SrwPdu Oid) : FitsTable pdu ↔ HasRoom pdu := by
  have empty : Filled {} 0 := ⟨rfl, rfl⟩
  have extra := empty.extraArgs pdu.extraArgs
  rw [Nat.zero_add] at extra
  rw [FitsTable, HasRoom, yazSolrEncodeRequest_ending]
  apply and_congr_right
  intro _
  rw [SrwPdu.noParms]
  cases pdu.request with
  | searchRetrieve request =>
    dsimp only
    cases query : request.query with
    | none =>
      have given_up : encodeSearch (putExtraArgs pdu.extraArgs {}) (pdu.extraArgs.any fun ea => ea.1 = ascii "defType") request =
          (putExtraArgs pdu.extraArgs {}, false) := by rw [encodeSearch, query]
      rw [given_up, ending, if_neg Bool.false_ne_true, extra.stored, forall_mem_range_iff]
      exact iff_of_true (by omega) fun impossible => nomatch impossible
    | some =>
      rw [(extra.search _ (by rw [query]; rfl)).stored, forall_mem_range_iff]
      constructor
      · intro room _
        omega
      · intro room
        have enough := room rfl
        omega
  | scan request =>
    obtain ⟨few, small, filled⟩ := extra.scan request
    dsimp only
    rw [filled.stored, forall_mem_range_iff]
    exact iff_of_true (by omega) trivial
  | other =>
    dsimp only
    rw [ending, if_neg Bool.false_ne_true, extra.stored, forall_mem_range_iff]
    exact iff_of_true (by omega) trivial

end

def fullFacet : List (AttributeElement Nat) :=
  [{ attributeSet := none, attributeType := 1, value := .complex [.string (ascii "author")] },
    { attributeSet := none, attributeType := 2, value := .numeric 1 }, { attributeSet := none, attributeType := 3, value := .numeric 10 },
    { attributeSet := none, attributeType := 4, value := .numeric 2 }]

def facetSearch (facets : Nat) : SrwPdu Nat where
  request := .searchRetrieve { query := some (ascii "x"), startRecord := none, maximumRecords := none, recordSchema := none, sort := .none
                               facetList := some (List.replicate facets fullFacet) }
  extraArgs := []

/-- Six facets with four entries each, and five others: more than 26. -/
theorem facetSearch_overflows : ¬ FitsTable (facetSearch 6) := by
  rintro ⟨-, all⟩
  have stored : 28 ∈ (yazSolrEncodeRequest (facetSearch 6)).1.stored := by decide
  exact absurd (all 28 stored) (by decide)

end Yaz.Solr
