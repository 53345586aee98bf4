import Yaz.Cql.Grammar
import Yaz.Foundation.Element

/-! CQL trees as XML: `xcqlutil.c`.

What is handed to `pr` is kept in pieces; a part of the tags goes to the standard output instead.
-/

set_option autoImplicit false

namespace Yaz.Cql.Xcql
open Yaz.Comstack (ascii)
open Yaz.Foundation.Element

/-! ### Printing -/

def prN (buf : List UInt8) (n : Nat) : List (List UInt8) := List.replicate n [32] ++ [buf]

def prCdata (buf : List UInt8) : List (List UInt8) :=
  buf.map fun c => if c = 38 then ascii "&amp;" else if c = 60 then ascii "&lt;" else if c = 62 then ascii "&gt;" else [c]

def prText (name : List UInt8) (level : Nat) (text : List (List UInt8)) : List (List UInt8) :=
  prN (startTag name) level ++ (text ++ prN (endTag name ++ [10]) 0)

def prBlock (name : List UInt8) (level : Nat) (inner : List (List UInt8)) : List (List UInt8) :=
  prN (startTag name ++ [10]) level ++ (inner ++ prN (endTag name ++ [10]) level)

/-- `prefixes`; it is the first prefix that has to do with `head`. -/
def prefixes (u : StStrings) (level : Nat) : List (List UInt8) :=
  (match u.indexUri with
    | some uri =>
      prN (startTag (ascii "prefixes") ++ [10]) level ++
        prBlock (ascii "prefix") (level + 2) (prText (ascii "identifier") (level + 4) (prCdata uri))
    | none => []) ++
  ((match u.relationUri, u.relation with
    | some uri, some _ =>
      (if u.indexUri.isSome then [] else prN (startTag (ascii "prefixes") ++ [10]) level) ++
        prBlock (ascii "prefix") (level + 2)
          (prText (ascii "name") (level + 4) (prCdata (ascii "rel")) ++ prText (ascii "identifier") (level + 4) (prCdata uri))
    | _, _ => []) ++
  if u.indexUri.isSome then prN (endTag (ascii "prefixes") ++ [10]) level else [])

def prOptional (name : List UInt8) (level : Nat) (text : Option (List UInt8)) : List (List UInt8) :=
  text.elim [] fun text => prText name level (prCdata text)

/-- The loop of `cql_to_xml_mod`. -/
def modLoop (level : Nat) : CqlNode → List (List UInt8)
  | .st u modifiers _ =>
    prBlock (ascii "modifier") (level + 2)
        (prText (ascii "type") (level + 4) (prCdata (u.index.getD [])) ++
          (prOptional (ascii "comparison") (level + 4) u.relation ++ prOptional (ascii "value") (level + 4) u.term)) ++
      modLoop level modifiers
  | _ => []

def cqlToXmlMod (m : CqlNode) (level : Nat) : List (List UInt8) :=
  match m with
  | .st _ _ _ => prBlock (ascii "modifiers") level (modLoop level m)
  | _ => []

/-- The loop of `cql_sort_to_xml`. -/
def sortLoop (level : Nat) : CqlNode → List (List UInt8)
  | .sort index next modifiers _ =>
    prBlock (ascii "key") (level + 2)
        (index.elim [] fun index => prText (ascii "index") (level + 4) (prCdata index) ++ cqlToXmlMod modifiers (level + 6)) ++
      sortLoop level next
  | _ => []

def cqlSortToXml (cn : CqlNode) (level : Nat) : List (List UInt8) :=
  match cn with
  | .sort _ _ _ _ => prBlock (ascii "sortKeys") level (sortLoop level cn)
  | _ => []

def extraTermsLoop (level : Nat) : CqlNode → List (List UInt8)
  | .st u _ extraTerms => prText (ascii "term") level (prCdata (u.term.getD [])) ++ extraTermsLoop level extraTerms
  | _ => []

def prRelation (u : StStrings) (modifiers : CqlNode) (level : Nat) : List (List UInt8) :=
  u.relation.elim [] fun relation =>
    prBlock (ascii "relation") level
      (prText (ascii "value") (level + 2) ((if u.relationUri.isSome then prCdata (ascii "rel.") else []) ++ prCdata relation) ++
        (prOptional (ascii "identifier") (level + 2) u.relationUri ++ cqlToXmlMod modifiers (level + 2)))

/-- What is handed to `pr`, and what goes to the standard output. -/
inductive Sent where
  | pr (buf : List UInt8)
  | stdout (buf : List UInt8)
  deriving DecidableEq

def cqlToXmlR : CqlNode → (level : Nat) → (sortNode : CqlNode) → List Sent
  | .null, _, _ => []
  | .st u modifiers extraTerms, level, sortNode =>
    (prBlock (ascii "searchClause") level
      (prefixes u (level + 2) ++
        (prOptional (ascii "index") (level + 2) u.index ++
          (prRelation u modifiers (level + 2) ++
            (prOptional (ascii "term") (level + 2) u.term ++
              (extraTermsLoop (level + 2) extraTerms ++ cqlSortToXml sortNode (level + 2))))))).map .pr
  | .boolean value left right modifiers, level, sortNode =>
    let operand (name : List UInt8) (operand : CqlNode) (printed : List Sent) : List Sent :=
      if operand = .null then []
      else
        .stdout (List.replicate (level + 2) 32 ++ startTag name ++ [10]) ::
          (printed ++ [.stdout (List.replicate (level + 2) 32 ++ endTag name ++ [10])])
    (prN (startTag (ascii "triple") ++ [10]) level ++
      value.elim [] fun value =>
        prBlock (ascii "boolean") (level + 2)
          (prText (ascii "value") (level + 4) (prCdata value) ++ cqlToXmlMod modifiers (level + 4))).map .pr ++
      (operand (ascii "leftOperand") left (cqlToXmlR left (level + 4) .null) ++
        (operand (ascii "rightOperand") right (cqlToXmlR right (level + 4) .null) ++
          (cqlSortToXml sortNode (level + 2) ++ prN (endTag (ascii "triple") ++ [10]) level).map .pr))
  | .sort index next modifiers search, level, _ => cqlToXmlR search level (.sort index next modifiers search)

def Sent.handed : Sent → Option (List UInt8)
  | .pr buf => some buf
  | .stdout _ => none

/-- `cql_to_xml`: the pieces that are handed to `pr`. -/
def cqlToXml (cn : CqlNode) : List (List UInt8) := (cqlToXmlR cn 0 .null).filterMap Sent.handed

structure OutBuffer where
  max : Int
  octets : List UInt8
  int : -2 ^ 31 ≤ max ∧ max < 2 ^ 31
  size : octets.length = max.toNat

/-- `struct cql_buf_write_info`; `outside` is set when something is written behind the buffer. -/
structure BufWriteInfo where
  off : Int
  buf : List UInt8
  outside : Bool
  deriving DecidableEq

/-- An `int`, which wraps around. -/
def int32 (n : Int) : Int := n.bmod (2 ^ 32)

/-- `memcpy` into the buffer. -/
def BufWriteInfo.copy (info : BufWriteInfo) (b : List UInt8) : BufWriteInfo :=
  let off := info.off.toNat
  { info with
    buf := (info.buf.take off ++ b ++ info.buf.drop (off + b.length)).take info.buf.length
    outside := info.outside || info.buf.length < off + b.length }

def cqlBufWriteHandler (max : Int) (info : BufWriteInfo) (b : List UInt8) : BufWriteInfo :=
  let l : Int := b.length
  if info.off < 0 ∨ max ≤ int32 (info.off + l) then { info with off := -1 }
  else { info.copy b with off := int32 (info.off + l) }

def cqlToXmlBuf (cn : CqlNode) (out : OutBuffer) : BufWriteInfo :=
  let info := (cqlToXml cn).foldl (cqlBufWriteHandler out.max) { off := 0, buf := out.octets, outside := false }
  if 0 ≤ info.off then info.copy [0] else info

end Yaz.Cql.Xcql
