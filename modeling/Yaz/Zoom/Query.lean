import Yaz.Zoom.SortSpec

/-! Query objects of ZOOM: `zoom-query.c`.

`odr_query` is the number of times that it was reset; what was made before the last time is gone. Strings come from C, up to their NUL.
-/

set_option autoImplicit false

namespace Yaz.Zoom
open Yaz.Comstack (ascii)
open Yaz.Pqf (RpnQuery pQueryRpn cString intText)

inductive SortStrategy where
  | z3950
  | type7
  | cql
  | sru11
  | embed
  | solr
  deriving DecidableEq

/-- `SORT_STRATEGY_Z3950` and so on. -/
def SortStrategy.number : SortStrategy → Nat
  | .z3950 => 0
  | .type7 => 1
  | .cql => 2
  | .sru11 => 3
  | .embed => 4
  | .solr => 5

inductive QueryType where
  | rpn
  | cql
  deriving DecidableEq

/-- `Z_Query_type_1` and `Z_Query_type_104`. -/
def QueryType.number : QueryType → Nat
  | .rpn => 2
  | .cql => 7

inductive ZQuery (Oid : Type) where
  | type1 (rpn : RpnQuery Oid)
  | type104 (cql : List UInt8)

/-- What `z_query` points to, and where in the life of `odr_query` it was made. -/
structure Made (Oid : Type) where
  resets : Nat
  query : ZQuery Oid

/-- `struct ZOOM_query_p`; `query_type` is not set by `ZOOM_query_create`. -/
structure Query (Oid : Type) where
  zQuery : Option (Made Oid) := none
  sortStrategy : SortStrategy := .z3950
  sortSpec : Option (List SortKeySpec) := none
  odrQuery : Nat := 0
  queryType : Option QueryType := none
  queryString : Option (List UInt8) := none
  fullQuery : List UInt8 := []
  sru11SortSpec : List UInt8 := []
  /-- Whether sort keys were stored behind their array. -/
  overran : Bool := false

section
variable {Oid : Type} (attset : List UInt8 → Option Oid) (bib1 : Oid)

/-- Where the sort keys go into `sru11_sort_spec`: what is written there, and whether all were. -/
def sru11SortKeys (strategy : SortStrategy) (spec : Option (List SortKeySpec)) : Option (List UInt8 × Bool) :=
  match strategy, spec with
  | .sru11, some specs => some (yazSortSpecToSrwSortkeys specs)
  | .solr, some specs => some (yazSortSpecToSolrSortkeys specs)
  | _, _ => none

/-- `full_query` for a query of a type, and whether all keys were written. -/
def fullQueryOf (type : QueryType) (string : List UInt8) (strategy : SortStrategy) (spec : Option (List SortKeySpec)) : List UInt8 × Bool :=
  match type, spec with
  | .rpn, some specs => (if strategy = .type7 ∨ strategy = .embed then yazSortSpecToType7 specs string else string, true)
  | .cql, some specs =>
    if strategy = .cql ∨ strategy = .embed then (string ++ (yazSortSpecToCql specs).1, (yazSortSpecToCql specs).2) else (string, true)
  | _, none => (string, true)

/-- `p_query_rpn`, or a CQL query as it is. -/
def zQueryOf (type : QueryType) (full : List UInt8) : Option (ZQuery Oid) :=
  match type with
  | .rpn => (pQueryRpn attset bib1 full).map .type1
  | .cql => some (.type104 full)

/-- `generate`, with its return value. -/
def generate (s : Query Oid) : Query Oid × Int :=
  match s.queryString with
  | none => (s, 0)
  | some string =>
    let s := { s with fullQuery := string, odrQuery := s.odrQuery + 1 }
    let keys := sru11SortKeys s.sortStrategy s.sortSpec
    let s := { s with sru11SortSpec := (keys.map Prod.fst).getD s.sru11SortSpec }
    if keys.map Prod.snd = some false then (s, -1)
    else
      match s.queryType with
      | none => (s, 0)
      | some type =>
        let full := fullQueryOf type string s.sortStrategy s.sortSpec
        let s := { s with fullQuery := full.1 }
        if full.2 = false then (s, -1)
        else
          match zQueryOf attset bib1 type full.1 with
          | some query => ({ s with zQuery := some { resets := s.odrQuery, query } }, 0)
          | none => ({ s with zQuery := none }, -1)

def zoomQueryCreate : Query Oid := {}

def zoomQueryPrefix (s : Query Oid) (str : List UInt8) : Query Oid × Int :=
  generate attset bib1 { s with queryString := some (cString str), queryType := some .rpn }

def zoomQueryCql (s : Query Oid) (str : List UInt8) : Query Oid × Int :=
  generate attset bib1 { s with queryString := some (cString str), queryType := some .cql }

def sortStrategyOf (strategy : List UInt8) : Option SortStrategy :=
  if cString strategy = ascii "z3950" then some .z3950
  else if cString strategy = ascii "type7" then some .type7
  else if cString strategy = ascii "cql" then some .cql
  else if cString strategy = ascii "sru11" then some .sru11
  else if cString strategy = ascii "solr" then some .solr
  else if cString strategy = ascii "embed" then some .embed
  else none

def zoomQuerySortby2 (s : Query Oid) (strategy criteria : List UInt8) : Query Oid × Int :=
  match sortStrategyOf strategy with
  | none => (s, -1)
  | some strategy =>
    let s := { s with overran := s.overran || sortSpecOverruns (cString criteria) }
    match yazSortSpec (cString criteria) with
    | none => ({ s with sortStrategy := strategy, sortSpec := none }, -2)
    | some specs => generate attset bib1 { s with sortStrategy := strategy, sortSpec := some specs }

def zoomQuerySortby (s : Query Oid) (criteria : List UInt8) : Query Oid × Int := zoomQuerySortby2 attset bib1 s (ascii "z3950") criteria

/-- What `z_query` is. -/
inductive Pointer (Oid : Type) where
  | null
  | dangling
  | query (query : ZQuery Oid)

def zoomQueryGetZQuery (s : Query Oid) : Pointer Oid :=
  match s.zQuery with
  | none => .null
  | some made => if made.resets = s.odrQuery then .query made.query else .dangling

def zoomQueryGetSru11 (s : Query Oid) : Option (List UInt8) := if s.sru11SortSpec = [] then none else some s.sru11SortSpec

def zoomQueryGetSortspec (s : Query Oid) : Option (List SortKeySpec) := if s.sortStrategy = .z3950 then s.sortSpec else none

def zoomQueryGetQueryString (s : Query Oid) : List UInt8 := s.fullQuery

/-- `ZOOM_query_get_hash`; the first number is whatever there is where no query was given. -/
def zoomQueryGetHash (s : Query Oid) (unset : Int) (w : List UInt8) : List UInt8 :=
  let text := w ++ intText (s.queryType.elim unset fun type => type.number) ++ ascii ";" ++ s.queryString.getD [] ++ ascii ";" ++
    Http.decimal s.sortStrategy.number ++ ascii ";"
  match s.sortSpec with
  | some specs => yazSortSpecToType7 specs text
  | none => text

structure Seen (Oid : Type) where
  zQuery : Pointer Oid
  sru11 : Option (List UInt8)
  sortspec : Option (List SortKeySpec)
  queryString : List UInt8
  hash : Int → List UInt8 → List UInt8

def Query.seen (s : Query Oid) : Seen Oid where
  zQuery := zoomQueryGetZQuery s
  sru11 := zoomQueryGetSru11 s
  sortspec := zoomQueryGetSortspec s
  queryString := zoomQueryGetQueryString s
  hash := zoomQueryGetHash s

inductive QueryCall where
  | pqf (str : List UInt8)
  | cql (str : List UInt8)
  | sortby (criteria : List UInt8)
  | sortby2 (strategy criteria : List UInt8)
  deriving DecidableEq

def QueryCall.run (s : Query Oid) : QueryCall → Query Oid × Int
  | .pqf str => zoomQueryPrefix attset bib1 s str
  | .cql str => zoomQueryCql attset bib1 s str
  | .sortby criteria => zoomQuerySortby attset bib1 s criteria
  | .sortby2 strategy criteria => zoomQuerySortby2 attset bib1 s strategy criteria

def afterCalls (calls : List QueryCall) : Query Oid := calls.foldl (fun s call => (call.run attset bib1 s).1) zoomQueryCreate

end

end Yaz.Zoom
