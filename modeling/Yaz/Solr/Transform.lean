import Yaz.Pqf.Written

/-! Queries for Solr: `rpn2solr.c`, and `cql_lookup_reverse` of `cqltransform.c`.

What is handed to `pr` before an error is left out. `compare_attr` compares encodings, which is equality here.
-/

set_option autoImplicit false

namespace Yaz.Solr
open Yaz.Comstack (ascii)
open Yaz.Pqf (AttributeElement AttributeValue AttributesPlusTerm Operator Rpn Term cString intText)

inductive Diagnostic where
  | unsuppSearch
  | unsuppUseAttribute
  | unsuppRelationAttribute
  | unsuppTruncationAttribute
  | resultSetUnsuppAsASearchTerm
  | termTypeUnsupp
  deriving DecidableEq

/-- `struct cql_prop_entry`, without the value. -/
structure PropEntry (Oid : Type) where
  pattern : List UInt8
  attrList : List (AttributeElement Oid)

structure SolrTransform (Oid : Type) where
  entry : List (PropEntry Oid)
  bib1 : Oid

section
variable {Oid : Type} [DecidableEq Oid] (ct : SolrTransform Oid)

/-- `compare_attr` with an attribute, and with one whose set is Bib-1 as if it had none. -/
def sameAttr (listed actual : AttributeElement Oid) : Bool :=
  listed = actual || listed = (if actual.attributeSet = some ct.bib1 then { actual with attributeSet := none } else actual)

/-- `solr_lookup_reverse`: what is behind the category in the first pattern with attributes that are all there. -/
def solrLookupReverse (category : List UInt8) (attributes : List (AttributeElement Oid)) : Option (List UInt8) :=
  (ct.entry.find? fun e => category.isPrefixOf e.pattern && e.attrList.all fun listed => attributes.any (sameAttr ct listed)).map
    fun e => e.pattern.drop category.length

def firstString : AttributeValue → Option (List UInt8)
  | .numeric _ => none
  | .complex list => list.findSome? fun
      | .string octets => some octets
      | .numeric _ => none

/-- `lookup_index_from_string_attr`, with `server_choice`. -/
def lookupIndexFrom : (serverChoice : Bool) → List (AttributeElement Oid) → Option (List UInt8)
  | serverChoice, [] => if serverChoice then some (ascii "cql.serverChoice") else none
  | serverChoice, ae :: rest =>
    if ae.attributeType = 1 then (firstString ae.value).or (lookupIndexFrom false rest) else lookupIndexFrom serverChoice rest

def lookupIndexFromStringAttr (attributes : List (AttributeElement Oid)) : Option (List UInt8) := lookupIndexFrom true attributes

def relationOf (relation : Int64) : Option (List UInt8) :=
  if relation = 1 then some (ascii "<")
  else if relation = 2 then some (ascii "le")
  else if relation = 3 then some (ascii ":")
  else if relation = 4 then some (ascii "ge")
  else if relation = 5 then some (ascii ">")
  else none

def lookupRelationIndexFromAttr : List (AttributeElement Oid) → Option (List UInt8)
  | [] => some (ascii ":")
  | ae :: rest =>
    match ae.value with
    | .numeric relation => if ae.attributeType = 2 then relationOf relation else lookupRelationIndexFromAttr rest
    | .complex _ => lookupRelationIndexFromAttr rest

/-- `get_truncation`. -/
def truncationFrom : List (AttributeElement Oid) → Int64
  | [] => 0
  | ae :: rest =>
    match ae.value with
    | .numeric truncation => if ae.attributeType = 5 then truncation else truncationFrom rest
    | .complex _ => truncationFrom rest

def attributesOf (apt : AttributesPlusTerm Oid) : List (AttributeElement Oid) := apt.attributes.getD []

def getTruncation (apt : AttributesPlusTerm Oid) : Int64 := truncationFrom (attributesOf apt)

def indexOf (apt : AttributesPlusTerm Oid) : Option (List UInt8) :=
  (solrLookupReverse ct (ascii "index.") (attributesOf apt)).or (lookupIndexFromStringAttr (attributesOf apt))

def relationFor (apt : AttributesPlusTerm Oid) : Option (List UInt8) :=
  (solrLookupReverse ct (ascii "relation.") (attributesOf apt)).or (lookupRelationIndexFromAttr (attributesOf apt))

/-- The relation is `<`, `<=`, `le` and so on. -/
def isLess (relation : List UInt8) : Bool := relation.head? = some 60 || relation.head? = some 108

/-- The relation is `>`, `>=`, `ge` and so on. -/
def isGreater (relation : List UInt8) : Bool := relation.head? = some 62 || relation.head? = some 103

/-- `check_range`: the lower end and the upper one, if operands of one index are the ends of a range. -/
def checkRange : Operator → Rpn Oid → Rpn Oid → Option (AttributesPlusTerm Oid × AttributesPlusTerm Oid)
  | .and, .apt apt1, .apt apt2 =>
    match indexOf ct apt1, indexOf ct apt2, relationFor ct apt1, relationFor ct apt2 with
    | some i1, some i2, some rel1, some rel2 =>
      if cString i1 = cString i2 then
        if isGreater rel1 && isLess rel2 then some (apt1, apt2)
        else if isGreater rel2 && isLess rel1 then some (apt2, apt1)
        else none
      else none
    | _, _, _, _ => none
  | _, _, _ => none

def rpn2solrAttr (apt : AttributesPlusTerm Oid) : Except Diagnostic (List UInt8) :=
  match indexOf ct apt with
  | none => .error .unsuppUseAttribute
  | some index =>
    if cString index = ascii "cql.serverChoice" then .ok []
    else
      .ok (cString index ++ ascii ":" ++
        match solrLookupReverse ct (ascii "structure.") (attributesOf apt) with
        | some kind => if cString kind = ascii "*" then [] else ascii "/" ++ cString kind ++ ascii " "
        | none => [])

/-- `strchr(SOLR_SPECIAL, c)`: one of `+-&|!()[]^"~*?:\` or a brace, or the NUL behind them. -/
def solrSpecial (c : UInt8) : Bool := c ∈ [43, 45, 38, 124, 33, 40, 41, 123, 125, 91, 93, 94, 34, 126, 42, 63, 58, 92, 0]

def emitOctet (trunc : Int64) (c : UInt8) : List UInt8 :=
  if c = 63 ∧ trunc = 104 then [42]
  else if c = 35 ∧ trunc = 104 then [63]
  else if solrSpecial c then [92, c]
  else [c]

/-- The loop of `emit_term`; a backslash takes the octet behind it, if there is one. -/
def emitOctets (trunc : Int64) : List UInt8 → List UInt8
  | [] => []
  | [c] => emitOctet trunc c
  | c :: d :: rest =>
    if c = 92 then (if solrSpecial d then [92, d] else [d]) ++ emitOctets trunc rest else emitOctet trunc c ++ emitOctets trunc (d :: rest)

def mustQuote (sterm : List UInt8) : Bool := sterm = [] || sterm.contains 32

/-- `emit_term` for a text. -/
def emitText (sterm : List UInt8) (trunc : Int64) : List UInt8 :=
  let quote := if mustQuote sterm then ascii "\"" else []
  quote ++ (if trunc = 2 ∨ trunc = 3 then ascii "*" else []) ++ emitOctets trunc sterm ++
    (if trunc = 1 ∨ trunc = 3 then ascii "*" else []) ++
    quote

def emitTerm (term : Term) (trunc : Int64) : Except Diagnostic (List UInt8) :=
  match term with
  | .general octets => .ok (emitText octets trunc)
  | .numeric n => .ok (intText n.toInt)
  | .characterString octets => .ok (emitText (cString octets) trunc)
  | .null => .error .termTypeUnsupp

def takesUpper (relation : List UInt8) : Bool := cString relation = ascii "le" || cString relation = ascii "<="

def takesLower (relation : List UInt8) : Bool := cString relation = ascii "ge" || cString relation = ascii ">="

def rpn2solrUpper : Option (AttributesPlusTerm Oid) → List UInt8
  | none => ascii "*]"
  | some apt2 => (emitTerm apt2.term 0).toOption.getD [] ++ ascii (if (relationFor ct apt2).elim true takesUpper then "]" else "\x7d")

/-- What `rpn2solr_simple` writes behind the index. -/
def rpn2solrRange (relation1 : List UInt8) (apt : AttributesPlusTerm Oid) (apt2 : Option (AttributesPlusTerm Oid)) :
    Except Diagnostic (List UInt8) := do
  let term ← emitTerm apt.term (getTruncation apt)
  if isLess relation1 then return ascii "[* TO " ++ term ++ ascii (if takesUpper relation1 then "]" else "\x7d")
  else if isGreater relation1 then
    return ascii (if takesLower relation1 then "[" else "\x7b") ++ term ++ ascii " TO " ++ rpn2solrUpper ct apt2
  else return term

def rpn2solrSimple (apt : AttributesPlusTerm Oid) (apt2 : Option (AttributesPlusTerm Oid)) : Except Diagnostic (List UInt8) :=
  match relationFor ct apt with
  | none => .error .unsuppRelationAttribute
  | some relation1 => do
    let attr ← rpn2solrAttr ct apt
    let trunc := getTruncation apt
    if (0 ≤ trunc ∧ trunc ≤ 3) ∨ trunc = 100 ∨ trunc = 104 then return cString (attr ++ (← rpn2solrRange ct relation1 apt apt2))
    else .error .unsuppTruncationAttribute

def operatorText : Operator → Except Diagnostic (List UInt8)
  | .and => .ok (ascii " AND ")
  | .or => .ok (ascii " OR ")
  | .andNot => .ok (ascii " AND NOT ")
  | .prox _ => .error .unsuppSearch

def rpn2solrStructure : Rpn Oid → (nested : Bool) → Except Diagnostic (List UInt8)
  | .apt apt, _ => rpn2solrSimple ct apt none
  | .resultSet _, _ => .error .resultSetUnsuppAsASearchTerm
  | .complex op s1 s2, nested =>
    match checkRange ct op s1 s2 with
    | some (apt1, apt2) => rpn2solrSimple ct apt1 (some apt2)
    | none => do
      let first ← rpn2solrStructure s1 true
      let between ← operatorText op
      let second ← rpn2solrStructure s2 true
      return (if nested then ascii "(" else []) ++ first ++ between ++ second ++ (if nested then ascii ")" else [])

def solrTransformRpn2solrWrbuf (q : Rpn Oid) : Except Diagnostic (List UInt8) := rpn2solrStructure ct q false

end

end Yaz.Solr
