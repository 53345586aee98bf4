import Yaz.Json.Value

/-! CCL queries: the tokens, the qualifiers of a `CCL_bibset` and the nodes of the tree (`cclp.h`, `ccl.h`, `cclqual.c`, `ccltoken.c`).

A qualifier is known by its name, an attribute of it by its number. The text of a token goes on behind it, to the end of the query.
-/

set_option autoImplicit false

namespace Yaz.Ccl
open Yaz.Comstack (isDigit isLower ascii)
open Yaz.Json (isSpace)

/-! ### Attributes and qualifiers -/

inductive AttrValue where
  | numeric (value : Int)
  | string (value : List UInt8)
  deriving DecidableEq

def AttrValue.isNumeric : AttrValue → Bool
  | .numeric _ => true
  | .string _ => false

/-- `struct ccl_rpn_attr`. -/
structure Attr where
  set : Option (List UInt8)
  type : Int
  value : AttrValue
  deriving DecidableEq

/-- What a `ccl_qualifier_t` is used for. -/
structure Qual where
  name : List UInt8
  attrList : List Attr
  deriving DecidableEq

structure Qualifier extends Qual where
  sub : List Qual
  deriving DecidableEq

/-- `struct ccl_qualifiers`, with the values of each special. -/
structure Bibset where
  list : List Qualifier
  special : List (List UInt8 × List (List UInt8))
  deriving DecidableEq

/-- The fixed part of a `struct ccl_parser`. -/
structure CclParser where
  bibset : Bibset
  cclTokenAnd : List (List UInt8) := [ascii "and"]
  cclTokenOr : List (List UInt8) := [ascii "or"]
  cclTokenNot : List (List UInt8) := [ascii "not", ascii "andnot"]
  cclTokenSet : List (List UInt8) := [ascii "set"]
  cclCaseSensitive : Bool := true
  deriving DecidableEq

def CCL_BIB1_USE : Int := 1
def CCL_BIB1_REL : Int := 2
def CCL_BIB1_STR : Int := 4
def CCL_BIB1_TRU : Int := 5

def CCL_BIB1_STR_WP : Int := -1
def CCL_BIB1_STR_AND_LIST : Int := -2
def CCL_BIB1_STR_OR_LIST : Int := -3
def CCL_BIB1_STR_AUTO_GROUP : Int := -4
def CCL_BIB1_STR_SPLIT_LIST : Int := -5
def CCL_BIB1_REL_ORDER : Int := -1
def CCL_BIB1_REL_PORDER : Int := -2
def CCL_BIB1_REL_OMIT_EQUALS : Int := -3
def CCL_BIB1_TRU_CAN_LEFT : Int := -1
def CCL_BIB1_TRU_CAN_RIGHT : Int := -2
def CCL_BIB1_TRU_CAN_BOTH : Int := -3
def CCL_BIB1_TRU_CAN_NONE : Int := -4
def CCL_BIB1_TRU_CAN_REGEX : Int := -5
def CCL_BIB1_TRU_CAN_Z3958 : Int := -6

def cclQualSearchSpecial (b : Bibset) (name : List UInt8) : Option (List (List UInt8)) :=
  (b.special.find? fun q => q.1 = name).map Prod.snd

def atoi (octets : List UInt8) : Int :=
  let digits (octets : List UInt8) : Int := (octets.takeWhile isDigit).foldl (fun value c => value * 10 + (c.toNat - 48)) 0
  match octets.dropWhile isSpace with
  | [] => 0
  | c :: rest => if c = 45 then -digits rest else if c = 43 then digits rest else digits (c :: rest)

def CclParser.caseSensitive (cclp : CclParser) : Bool :=
  match cclQualSearchSpecial cclp.bibset (ascii "case") with
  | some aliases => atoi (aliases.headD []) ≠ 0
  | none => cclp.cclCaseSensitive

def cclToupper (c : UInt8) : UInt8 := if isLower c then c - 32 else c

/-- Whether `ccl_memicmp` is 0: the first character is compared in any case. -/
def cclMemicmp (s1 s2 : List UInt8) (n : Nat) : Bool :=
  ((s1 ++ [0]).take (max n 1)).map cclToupper = ((s2 ++ [0]).take (max n 1)).map cclToupper

def CclParser.sameName (cclp : CclParser) (name other : List UInt8) (nameLen : Nat) : Bool :=
  other.length = nameLen && if cclp.caseSensitive then name.take nameLen = other else cclMemicmp name other nameLen

def cclQualSearch (cclp : CclParser) (name : List UInt8) (nameLen seq : Nat) : Option Qual :=
  match cclp.bibset.list.find? fun q => cclp.sameName name q.name nameLen with
  | some q => if q.sub.length ≠ 0 then q.sub[seq]? else if seq ≠ 0 then none else some q.toQual
  | none => none

/-- `qual_val_type`: the attribute set of the attribute that was found. -/
def qualValType : List Qual → (type value : Int) → Option (Option (List UInt8))
  | [], _, _ => none
  | q :: qa, type, value =>
    match q.attrList.find? fun a => a.type = type ∧ a.value = .numeric value with
    | some a => some a.set
    | none => if q.attrList.any fun a => a.type = type && a.value.isNumeric then none else qualValType qa type value

/-- The part `t` of a node. -/
structure Term where
  term : List UInt8
  qual : Option (List UInt8)
  attrList : List Attr
  deriving DecidableEq

/-- What a node that is no term has in the place of `attr_list`, which is the place of `p[2]`: a null pointer, attributes, the term of a
proximity operator, or what was in memory before. -/
inductive Third where
  | null
  | attrs (attrList : List Attr)
  | term (text : List UInt8)
  | unset
  deriving DecidableEq

inductive RpnKind where
  | and
  | or
  | not
  | prox
  deriving DecidableEq

/-- `struct ccl_rpn_node`. -/
inductive RpnNode where
  | term (t : Term)
  | set (setname : List UInt8)
  | bool (kind : RpnKind) (left right : RpnNode) (third : Third)
  deriving DecidableEq

/-- `ccl_rpn_node_mkbool` with a right side. -/
def cclRpnNodeMkbool (l : Option RpnNode) (r : RpnNode) (op : RpnKind) : RpnNode :=
  match l with
  | some l => .bool op l r .null
  | none => r

def overwriteAttr (new : Attr) : List Attr → Option (List Attr)
  | [] => none
  | n :: rest => if n.type = new.type then some (new :: rest) else (overwriteAttr new rest).map (n :: ·)

/-- `ccl_set_attr_numeric` on a list. -/
def setAttrNumeric (attrList : List Attr) (set : Option (List UInt8)) (type value : Int) : List Attr :=
  let new : Attr := { set := set, type := type, value := .numeric value }
  (overwriteAttr new attrList).getD (new :: attrList)

/-- `ccl_set_attr_numeric`; `none` where the list it goes through is no list of attributes, or where the attribute would be in `p[2]` of a
proximity operator, which all functions take for a node. -/
def cclSetAttrNumeric (p : RpnNode) (set : Option (List UInt8)) (type value : Int) : Option RpnNode :=
  match p with
  | .term t => some (.term { t with attrList := setAttrNumeric t.attrList set type value })
  | .bool .prox _ _ _ => none
  | .bool kind left right .null => some (.bool kind left right (.attrs (setAttrNumeric [] set type value)))
  | .bool kind left right (.attrs attrList) => some (.bool kind left right (.attrs (setAttrNumeric attrList set type value)))
  | _ => none

inductive TokenKind where
  | eol
  | term
  | rel
  | eq
  | prox
  | lp
  | rp
  | comma
  | and
  | or
  | not
  | set
  deriving DecidableEq

/-- `struct ccl_token`. -/
structure Token where
  kind : TokenKind
  name : List UInt8
  len : Nat
  wsPrefix : List UInt8
  deriving DecidableEq

def Token.text (t : Token) : List UInt8 := t.name.take t.len

def tokenCmp (cclp : CclParser) (kw : List (List UInt8)) (name : List UInt8) (len : Nat) : Bool := kw.any fun k => cclp.sameName name k len

def quotedLen : List UInt8 → Nat
  | [] => 0
  | [_] => 1
  | c :: d :: rest => if c = 34 then 1 else if c = 92 then quotedLen rest + 2 else quotedLen (d :: rest) + 1

/-- The octets of a term; `fuel` is at least the number of octets. -/
def termLen : (fuel : Nat) → List UInt8 → Nat
  | 0, _ => 0
  | _, [] => 0
  | fuel + 1, c :: rest =>
    if c ∈ ascii "(),%!><= \t\n\r" then 0
    else if c = 92 ∧ rest ≠ [] then termLen fuel (rest.drop 1) + 2
    else if c = 34 then termLen fuel (rest.drop (quotedLen rest)) + (quotedLen rest + 1)
    else termLen fuel rest + 1

def termKind (cclp : CclParser) (name : List UInt8) (len : Nat) : TokenKind :=
  let isOp (special : String) (names : List (List UInt8)) : Bool :=
    tokenCmp cclp ((cclQualSearchSpecial cclp.bibset (ascii special)).getD names) name len
  if isOp "set" cclp.cclTokenSet then .set
  else if isOp "not" cclp.cclTokenNot then .not
  else if isOp "or" cclp.cclTokenOr then .or
  else if isOp "and" cclp.cclTokenAnd then .and
  else .term

/-- The kind and the length of the token that begins with `c`. -/
def scanToken (cclp : CclParser) (c : UInt8) (rest : List UInt8) : TokenKind × Nat :=
  if c = 40 then (.lp, 1)
  else if c = 41 then (.rp, 1)
  else if c = 44 then (.comma, 1)
  else if c = 37 ∨ c = 33 then (.prox, 1 + (rest.takeWhile isDigit).length)
  else if c = 62 ∨ c = 60 ∨ c = 61 then
    if (rest.take 1).any fun d => d = 61 ∨ d = 60 ∨ d = 62 then (.rel, 2) else if c = 61 then (.eq, 1) else (.rel, 1)
  else
    let len := termLen (c :: rest).length (c :: rest)
    (termKind cclp (c :: rest) len, len)

def cclParserTokenize (cclp : CclParser) (command : List UInt8) : List Token :=
  tokens command.length command
where
  tokens : (fuel : Nat) → List UInt8 → List Token
    | fuel, cp =>
      let blank (c : UInt8) : Bool := c = 32 || c = 9 || c = 13 || c = 10
      match cp.dropWhile blank, fuel with
      | c :: rest, fuel + 1 =>
        let (kind, len) := scanToken cclp c rest
        { kind := kind, name := c :: rest, len := len, wsPrefix := cp.takeWhile blank } :: tokens fuel ((c :: rest).drop len)
      | name, _ => [{ kind := .eol, name := name, len := 1, wsPrefix := cp.takeWhile blank }]

end Yaz.Ccl
