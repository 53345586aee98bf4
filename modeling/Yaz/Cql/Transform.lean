import Yaz.Cql.Grammar
import Yaz.Pqf.Printer

/-! The transformation of CQL trees into PQF: `cqltransform.c`.

What is handed to `pr` is kept in pieces, so that operands can be told from the attributes in front of them. A null string where the
code expects one is read as an empty one. The numbers of the diagnostics are those of `srw.csv`.
-/

set_option autoImplicit false

namespace Yaz.Cql
open Yaz.Comstack (ascii isDigit)
open Yaz.Json (isSpace)
open Yaz.Pqf (scanInt intText)

/-- `struct cql_prop_entry`, without the list of attributes. -/
structure PropEntry where
  pattern : List UInt8
  value : List UInt8
  deriving DecidableEq

/-- The entries of `cql_transform_t`. -/
abbrev CqlTransform := List PropEntry

def patternOf (pat1 : List UInt8) (pat2 pat3 : Option (List UInt8)) : List UInt8 :=
  (pat1 ++ (pat2.map (46 :: ·)).getD [] ++ (pat3.map (46 :: ·)).getD []).take 119

def cqlLookupProperty (ct : CqlTransform) (pat1 : List UInt8) (pat2 pat3 : Option (List UInt8)) : Option (List UInt8) :=
  (ct.find? fun e => cqlSame e.pattern (patternOf pat1 pat2 pat3)).map PropEntry.value

def relationAlias (val : Option (List UInt8)) : Option (List UInt8) :=
  if val = some (ascii "==") then some (ascii "exact")
  else if val = some (ascii "=") then some (ascii "eq")
  else if val = some (ascii "<=") then some (ascii "le")
  else if val = some (ascii ">=") then some (ascii "ge")
  else none

def prefixOfUri (ct : CqlTransform) (uri : List UInt8) : Option (List UInt8) :=
  (ct.find? fun e => (ascii "set.").isPrefixOf e.pattern && e.value = uri).map fun e => e.pattern.drop 4

/-- The search of `cql_pr_attr_uri` for the property `res`. -/
def property (ct : CqlTransform) (category : List UInt8) (uri val defaultVal : Option (List UInt8)) : Option (List UInt8) :=
  let look (before : Option (List UInt8)) : Option (List UInt8) :=
    (cqlLookupProperty ct category before (val.or defaultVal)).or <|
      (if before = none ∧ category = ascii "relation" then
        (relationAlias val).bind fun name => cqlLookupProperty ct category before (some name)
      else none).or (cqlLookupProperty ct category before (some (ascii "*")))
  match uri with
  | none => look none
  | some uri => (prefixOfUri ct uri).bind fun before => look (some before)

/-- What is handed to `pr`: the operators between words, the operands that are words, and all else. -/
inductive Piece where
  | text (octets : List UInt8)
  | op (name : List UInt8)
  | leaf (word printed : List UInt8)
  deriving DecidableEq

/-- What a function prints, what it puts into `addinfo`, and what it returns. -/
structure Emitted where
  out : List Piece := []
  addinfo : List UInt8 := []
  r : Nat := 0
  deriving DecidableEq

def Emitted.ignoring (e next : Emitted) : Emitted := ⟨e.out ++ next.out, e.addinfo ++ next.addinfo, next.r⟩

def Emitted.andThen (e next : Emitted) : Emitted := if e.r = 0 then e.ignoring next else e

def pr (piece : Piece) : Emitted := { out := [piece] }

/-- The attributes of a property, with the value in place of each `*`; one of 64 octets or more ends them. -/
def attrText (eval : List UInt8) : (rounds : Nat) → (res : List UInt8) → List UInt8
  | 0, _ => []
  | rounds + 1, res =>
    if 61 ∈ res then
      let buf := res.takeWhile (· ≠ 61) ++ (res.dropWhile (· ≠ 61)).takeWhile (· ≠ 32)
      if 64 ≤ buf.length then []
      else
        ascii "@attr " ++ buf.flatMap (fun c => if c = 42 then eval else [c]) ++ ascii " " ++
          attrText eval rounds ((res.drop buf.length).dropWhile (· = 32))
    else []

def cqlPrAttrUri (ct : CqlTransform) (category : List UInt8) (uri val defaultVal : Option (List UInt8)) (errcode : Nat) : Emitted :=
  match property ct category uri val defaultVal with
  | some res => pr (.text (attrText ((val.or defaultVal).getD []) res.length res))
  | none => if errcode = 0 then { r := 1 } else { addinfo := val.getD [], r := errcode }

def cqlPrAttr (ct : CqlTransform) (category : List UInt8) (val defaultVal : Option (List UInt8)) (errcode : Nat) : Emitted :=
  cqlPrAttrUri ct category none val defaultVal errcode

/-- `strtol` with base 0, as an `int`. -/
def strtol (mem : List UInt8) : Int32 :=
  let digits := (mem.dropWhile isSpace).dropWhile fun c => c = 43 || c = 45
  let base := if digits.head? ≠ some 48 then 10 else if (digits.drop 1).head? = some 120 ∨ (digits.drop 1).head? = some 88 then 16 else 8
  Int32.ofInt (max (-2 ^ 63) (min (2 ^ 63 - 1) (scanInt base mem)))

/-- `units` of `proxunit.c`, from 1 on. -/
def units : List (List UInt8) :=
  [ascii "character", ascii "word", ascii "sentence", ascii "paragraph", ascii "section", ascii "chapter", ascii "document",
    ascii "element", ascii "subelement", ascii "elementType", ascii "byte"]

/-- `z_str_to_ProxUnit`, which is 0 for other names. -/
def zStrToProxUnit (str : List UInt8) : Nat := if str ∈ units then units.idxOf str + 1 else 0

def proxRelation (relation : List UInt8) : Option Nat :=
  if relation = ascii "=" then some 3
  else if relation = ascii ">" then some 5
  else if relation = ascii "<" then some 1
  else if relation = ascii ">=" then some 4
  else if relation = ascii "<=" then some 2
  else if relation = ascii "<>" then some 6
  else none

/-- The parameters of `@prox`. -/
structure Prox where
  exclusion : Nat := 0
  distance : Int32 := -1
  ordered : Nat := 0
  proxrel : Nat := 2
  unit : Nat := 2

/-- The loop of `cql_pr_prox`; an error is its code and what is put into `addinfo`. -/
def Prox.modify : List StStrings → Prox → Except (Nat × List UInt8) Prox
  | [], prox => .ok prox
  | mod :: mods, prox =>
    let name := mod.index.getD []
    let term := mod.term.getD []
    if name = ascii "distance" then
      match proxRelation (mod.relation.getD []) with
      | some proxrel => Prox.modify mods { prox with distance := strtol term, proxrel }
      | none => .error (40, mod.relation.getD [])
    else if name = ascii "ordered" then Prox.modify mods { prox with ordered := 1 }
    else if name = ascii "unordered" then Prox.modify mods { prox with ordered := 0 }
    else if name = ascii "unit" then
      if zStrToProxUnit term = 0 then .error (42, term) else Prox.modify mods { prox with unit := zStrToProxUnit term }
    else .error (46, name)

def cqlPrInt (val : Int) : List UInt8 := intText val ++ ascii " "

def cqlPrProx (mods : List StStrings) : Emitted :=
  match Prox.modify mods {} with
  | .error (r, addinfo) => { addinfo, r }
  | .ok prox =>
    let distance := if prox.distance = -1 then (if prox.unit = 2 then 1 else 0) else prox.distance.toInt
    pr (.text (cqlPrInt prox.exclusion ++ cqlPrInt distance ++ cqlPrInt prox.ordered ++ cqlPrInt prox.proxrel ++ ascii "k " ++
      cqlPrInt prox.unit))

/-! ### Terms -/

/-- The strings of the nodes that are linked by `modifiers`. -/
def chainOfModifiers : CqlNode → List StStrings
  | .st u modifiers _ => u :: chainOfModifiers modifiers
  | _ => []

/-- The terms of the nodes that are linked by `extra_terms`. -/
def chainOfTerms : CqlNode → List (List UInt8)
  | .st u _ extraTerms => u.term.getD [] :: chainOfTerms extraTerms
  | _ => []

/-- A search clause as the functions below read it: its strings, and the two chains that begin at it. -/
structure Clause where
  u : StStrings
  modifiers : List StStrings
  extraTerms : List (List UInt8)

def Clause.hasModifier (cn : Clause) (name : List UInt8) : Bool := cn.modifiers.any fun mod => mod.term = none && mod.index = some name

/-- The marks of a term: anchors and truncation at its ends, and whether it needs the masks of `z3958`. -/
structure Marks where
  anchor : Nat := 0
  trunc : Nat := 0
  z3958Mode : Bool := false

def Marks.mark (marks : Marks) (first last : Bool) (c : UInt8) : Marks :=
  if c = 94 then
    if first then { marks with anchor := marks.anchor ||| 1 } else if last then { marks with anchor := marks.anchor ||| 2 } else marks
  else if c = 42 then
    if first then { marks with trunc := marks.trunc ||| 1 } else if last then { marks with trunc := marks.trunc ||| 2 }
    else { marks with z3958Mode := true }
  else if c = 63 then { marks with z3958Mode := true }
  else marks

def marksFrom : (first : Bool) → (term : List UInt8) → Marks → Marks
  | _, [], marks => marks
  | first, [c], marks => marks.mark first true c
  | first, c :: d :: rest, marks =>
    if c = 92 then marksFrom false rest marks else marksFrom false (d :: rest) (marks.mark first false c)

def marksOf (term : List UInt8) : Marks := marksFrom true term {}

def Marks.position (marks : Marks) : List UInt8 :=
  if marks.anchor = 3 then ascii "firstAndLast"
  else if marks.anchor = 1 then ascii "first"
  else if marks.anchor = 2 then ascii "last"
  else ascii "any"

def trimmed (ends : Nat) (term : List UInt8) : List UInt8 :=
  let term := if ends = 1 ∨ ends = 3 then term.drop 1 else term
  if ends = 2 ∨ ends = 3 then term.dropLast else term

def Marks.truncation (marks : Marks) : List UInt8 :=
  if marks.trunc = 3 then ascii "both" else if marks.trunc = 1 then ascii "left" else ascii "right"

/-- The truncation is done by the masks of `z3958`. -/
def Marks.masked (ct : CqlTransform) (marks : Marks) : Bool :=
  marks.z3958Mode || marks.trunc ≠ 0 && property ct (ascii "truncation") none (some marks.truncation) none = none

def plainText (masked : Bool) (c : UInt8) : List UInt8 := (if masked && (c = 35 || c = 63) then [92, 92] else []) ++ [c]

def processedText (masked : Bool) : List UInt8 → List UInt8
  | [] => []
  | [c] =>
    if masked && c = 42 then [63]
    else if masked && c = 63 then [35]
    else (if c = 34 then [92] else []) ++ plainText masked c
  | c :: d :: rest =>
    if c = 92 then (if d = 34 || d = 92 then [92] else []) ++ plainText masked d ++ processedText masked rest
    else if masked && c = 42 then 63 :: (if isDigit d then [92, 92] else []) ++ processedText masked (d :: rest)
    else if masked && c = 63 then 35 :: processedText masked (d :: rest)
    else (if c = 34 then [92] else []) ++ plainText masked c ++ processedText masked (d :: rest)

def processTerm (ct : CqlTransform) (cn : Clause) : Bool :=
  !cn.hasModifier (ascii "regexp") && !cn.hasModifier (ascii "unmasked") &&
    cqlLookupProperty ct (ascii "truncation") none (some (ascii "cql")) = none

def emitMarks (ct : CqlTransform) (marks : Marks) : Emitted :=
  (cqlPrAttr ct (ascii "position") (some marks.position) none 32).andThen <|
    if marks.masked ct then cqlPrAttr ct (ascii "truncation") (some (ascii "z3958")) none 28
    else if marks.trunc ≠ 0 then cqlPrAttr ct (ascii "truncation") (some marks.truncation) none 0
    else (cqlPrAttr ct (ascii "truncation") (some (ascii "none")) none 0).ignoring {}

/-- What `emit_term` prints in front of the attributes for the index. -/
def emitTruncation (ct : CqlTransform) (cn : Clause) (term : List UInt8) : Emitted :=
  if processTerm ct cn then emitMarks ct (marksOf term)
  else if cn.hasModifier (ascii "regexp") || cn.hasModifier (ascii "unmasked") then {}
  else cqlPrAttr ct (ascii "truncation") (some (ascii "cql")) none 28

def termText (ct : CqlTransform) (cn : Clause) (term : List UInt8) : List UInt8 :=
  if processTerm ct cn then
    let marks := marksOf term
    processedText (marks.masked ct) (trimmed (if marks.masked ct then 0 else marks.trunc) (trimmed marks.anchor term))
  else term

def emitIndex (ct : CqlTransform) (cn : Clause) : Emitted :=
  match cn.u.indexUri with
  | some ns => cqlPrAttrUri ct (ascii "index") (some ns) cn.u.index (some (ascii "serverChoice")) 16
  | none => {}

def emitRelationModifiers (ct : CqlTransform) : List StStrings → Emitted
  | [] => {}
  | mod :: mods =>
    (if mod.term = none then cqlPrAttr ct (ascii "relationModifier") mod.index none 20 else {}).andThen (emitRelationModifiers ct mods)

def emitTerm (ct : CqlTransform) (cn : Clause) (term : List UInt8) : Emitted :=
  (emitTruncation ct cn term).andThen <|
    (emitIndex ct cn).andThen <|
      (emitRelationModifiers ct cn.modifiers).andThen (pr (.leaf term (ascii "\"" ++ termText ct cn term ++ ascii "\" ")))

/-- The loop of `emit_terms`. -/
def emitExtraTerms (ct : CqlTransform) (cn : Clause) (op : List UInt8) : List (List UInt8) → Emitted
  | [] => {}
  | [term] => emitTerm ct cn term
  | term :: ne :: terms => (pr (.op op)).andThen ((emitTerm ct cn term).andThen (emitExtraTerms ct cn op (ne :: terms)))

def emitTerms (ct : CqlTransform) (cn : Clause) (op : List UInt8) : Emitted :=
  (if cn.extraTerms = [] then {} else pr (.op op)).andThen <|
    (emitTerm ct cn (cn.u.term.getD [])).andThen (emitExtraTerms ct cn op cn.extraTerms)

/-- The loop of `emit_wordlist`: `cp0`, and the word that is still to be printed. -/
def emitWordlistFrom (ct : CqlTransform) (cn : Clause) (op : List UInt8) :
    (rounds : Nat) → (cp0 lastTerm : Option (List UInt8)) → Emitted
  | 0, _, _ => {}
  | _ + 1, none, none => {}
  | _ + 1, none, some lastTerm => emitTerm ct cn lastTerm
  | rounds + 1, some cp0, lastTerm =>
    let cp0 := cp0.dropWhile (· = 32)
    let cp1 := if 32 ∈ cp0 then some (cp0.dropWhile (· ≠ 32)) else none
    let printed : Emitted := match lastTerm with
      | none => {}
      | some lastTerm => (pr (.op op)).andThen (emitTerm ct cn lastTerm)
    printed.andThen (emitWordlistFrom ct cn op rounds cp1 (some (cp0.takeWhile (· ≠ 32))))

/-- `emit_wordlist`; no round takes less than an octet. -/
def emitWordlist (ct : CqlTransform) (cn : Clause) (op : List UInt8) : Emitted :=
  emitWordlistFrom ct cn op ((cn.u.term.getD []).length + 2) (some (cn.u.term.getD [])) none

/-! ### Nodes -/

def cqlUri : List UInt8 := ascii "info:srw/cql-context-set/1/cql-v1.2"

def emitProxes : List StStrings → Emitted
  | [] => {}
  | mod :: mods =>
    if mod.term = none then emitProxes mods
    else if mod.relation.all (· = ascii "=") then (pr (.text (ascii "@prox 0 0 0 0 k 8 "))).andThen (emitProxes mods)
    else { addinfo := mod.relation.getD [], r := 19 }

def emitValues (ct : CqlTransform) : List StStrings → Emitted
  | [] => {}
  | mod :: mods =>
    match mod.term with
    | none => emitValues ct mods
    | some term =>
      (cqlPrAttrUri ct (ascii "index") mod.indexUri mod.index (some (ascii "serverChoice")) 16).andThen <|
        (pr (.text (term ++ ascii " "))).andThen (emitValues ct mods)

def Clause.isResultSet (cn : Clause) : Bool :=
  cn.u.indexUri = some cqlUri && cn.u.index.any fun index => cqlSame index (ascii "resultSet")

def Clause.relates (cn : Clause) (name : List UInt8) : Bool := cn.u.relation.any fun relation => cqlSame relation name

def emitWords (ct : CqlTransform) (cn : Clause) : Emitted :=
  if cn.relates (ascii "all") then emitWordlist ct cn (ascii "and")
  else if cn.relates (ascii "any") then emitWordlist ct cn (ascii "or")
  else emitTerms ct cn (ascii "and")

def emitWordsAndValues (ct : CqlTransform) (cn : Clause) : Emitted :=
  if cn.modifiers.any (·.term.isSome) then (emitWords ct cn).ignoring (emitValues ct cn.modifiers) else emitWords ct cn

/-- `emit_node` for a search clause. -/
def emitClause (ct : CqlTransform) (cn : Clause) : Emitted :=
  if cn.isResultSet then pr (.leaf (cn.u.term.getD []) (ascii "@set \"" ++ cn.u.term.getD [] ++ ascii "\" "))
  else if cn.u.indexUri = none then { r := 15 }
  else
    (emitProxes cn.modifiers).andThen <|
      (cqlPrAttr ct (ascii "always") none none 0).ignoring <|
        (cqlPrAttr ct (ascii "relation") cn.u.relation none 19).andThen <|
          (cqlPrAttr ct (ascii "structure") cn.u.relation none 24).andThen (emitWordsAndValues ct cn)

def emitBooleanModifiers (value : List UInt8) (mods : List StStrings) : Emitted :=
  if value = ascii "prox" then cqlPrProx mods
  else
    match mods with
    | [] => {}
    | mod :: _ => { addinfo := mod.index.getD [], r := 46 }

def emitNode (ct : CqlTransform) : CqlNode → Emitted
  | .null => {}
  | .st u modifiers extraTerms => emitClause ct ⟨u, chainOfModifiers modifiers, chainOfTerms extraTerms⟩
  | .boolean value left right modifiers =>
    (pr (.text (ascii "@" ++ value.getD [] ++ ascii " "))).andThen <|
      (emitBooleanModifiers (value.getD []) (chainOfModifiers modifiers)).andThen <|
        (emitNode ct left).andThen (emitNode ct right)
  | .sort _ _ _ search => emitNode ct search

def applyEntry (cn : CqlNode) (e : PropEntry) : CqlNode :=
  if cqlSameFront e.pattern (ascii "set.") 4 then cqlApplyPrefix (some (e.pattern.drop 4)) e.value cn
  else if cqlSame e.pattern (ascii "set") then cqlApplyPrefix none e.value cn
  else cn

def prefixed (ct : CqlTransform) (cn : CqlNode) : CqlNode := ct.foldl applyEntry cn

def cqlTransformR (ct : CqlTransform) (cn : CqlNode) : Emitted := emitNode ct (prefixed ct cn)

end Yaz.Cql
