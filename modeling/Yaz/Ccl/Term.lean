import Yaz.Ccl.Query

/-! The terms of a CCL query: `ccl_term_one_use` to `split_recur` of `cclfind.c`.

A term takes a number of tokens; an error gives its code.
-/

set_option autoImplicit false

namespace Yaz.Ccl
open Yaz.Comstack (ascii)

inductive CclError where
  | ok
  | termExpected
  | rpExpected
  | setnameExpected
  | opExpected
  | badRp
  | unknownQual
  | eqExpected
  | badRelation
  | truncNotLeft
  | truncNotBoth
  | truncNotRight
  | truncNotEmbed
  | truncNotSingle
  deriving DecidableEq

/-- `cmp_operator`: the length of the first alias that stands here. -/
def cmpOperator : (aliases : List (List UInt8)) → (input : List UInt8) → Nat
  | [], _ => 0
  | cp :: aliases, input => if input.take cp.length = cp then cp.length else cmpOperator aliases input

/-- `has_ccl_masking`, from the octet behind `before` on. -/
def hasCclMasking (truncationAliases maskAliases : List (List UInt8)) :
    (srcLen : Nat) → (before : UInt8) → (quoteMode : Bool) → (src : List UInt8) → Bool
  | 0, _, _, _ => false
  | _, _, _, [] => false
  | srcLen + 1, before, quoteMode, c :: src =>
    if before = 92 then hasCclMasking truncationAliases maskAliases srcLen c quoteMode src
    else if c = 34 then hasCclMasking truncationAliases maskAliases srcLen c (!quoteMode) src
    else if !quoteMode && cmpOperator truncationAliases (c :: src) ≠ 0 then true
    else if !quoteMode && cmpOperator maskAliases (c :: src) ≠ 0 then true
    else hasCclMasking truncationAliases maskAliases srcLen c quoteMode src

structure TruncMode where
  regexTrunc : Bool
  z3958Trunc : Bool
  truncationAliases : List (List UInt8)
  maskAliases : List (List UInt8)
  deriving DecidableEq

structure TermText where
  dstTerm : List UInt8 := []
  leftTrunc : Bool := false
  rightTrunc : Bool := false
  deriving DecidableEq

def TermText.add (text : TermText) (octets : List UInt8) : TermText := { text with dstTerm := text.dstTerm ++ octets }

def TruncMode.escape (mode : TruncMode) (c : UInt8) (more : List UInt8) : List UInt8 :=
  if mode.regexTrunc && (ascii "^[]\x7b\x7d()|.*+?!$" ++ more).contains c then [92]
  else if mode.z3958Trunc && (ascii "#?\\" ++ more).contains c then [92]
  else []

/-- `append_term` from the octet number `j` on, which is behind `before`; `skip` octets of an operator are passed over. -/
def appendTerm (mode : TruncMode) (srcLen : Nat) (isFirst isLast : Bool) :
    (left j skip : Nat) → (before : UInt8) → (quoteMode : Bool) → (src : List UInt8) → TermText → Except CclError TermText
  | 0, _, _, _, _, _, text => .ok text
  | _, _, _, _, _, [], text => .ok text
  | left + 1, j, skip + 1, _, quoteMode, c :: src, text => appendTerm mode srcLen isFirst isLast left (j + 1) skip c quoteMode src text
  | left + 1, j, 0, before, quoteMode, c :: src, text =>
    let next (opSize : Nat) (quoteMode : Bool) (text : TermText) : Except CclError TermText :=
      appendTerm mode srcLen isFirst isLast left (j + 1) (opSize - 1) c quoteMode src text
    let trunc := cmpOperator mode.truncationAliases (c :: src)
    let mask := cmpOperator mode.maskAliases (c :: src)
    if before = 92 then next 1 quoteMode (text.add (mode.escape c [92] ++ [c]))
    else if c = 34 then next 1 (!quoteMode) text
    else if !quoteMode && trunc ≠ 0 then
      if mode.regexTrunc then next trunc quoteMode (text.add (ascii ".*"))
      else if mode.z3958Trunc then next trunc quoteMode (text.add (ascii "?"))
      else if isFirst && j + (trunc - 1) = 0 then next trunc quoteMode { text with leftTrunc := true }
      else if isLast && j + (trunc - 1) = srcLen - 1 then next trunc quoteMode { text with rightTrunc := true }
      else .error .truncNotEmbed
    else if !quoteMode && mask ≠ 0 then
      if mode.regexTrunc then next mask quoteMode (text.add (ascii "."))
      else if mode.z3958Trunc then next mask quoteMode (text.add (ascii "#"))
      else .error .truncNotSingle
    else if c ≠ 92 then next 1 quoteMode (text.add (mode.escape c [] ++ [c]))
    else next 1 quoteMode text

def appendTokens (mode : TruncMode) : (isFirst : Bool) → List Token → TermText → Except CclError TermText
  | _, [], text => .ok text
  | isFirst, t :: tokens, text => do
    let text := if text.dstTerm = [] then text else text.add t.wsPrefix
    let text ← appendTerm mode t.len isFirst tokens.isEmpty t.len 0 0 0 false t.name text
    appendTokens mode false tokens text

/-- The attributes of the qualifiers, without the use attributes other than `attrUse`. -/
def termAttrs (attrUse : Option (List UInt8 × Nat)) (qa : List Qual) : List Attr :=
  qa.flatMap fun q => (q.attrList.zipIdx.filter fun (attr, k) =>
    !(attr.type = CCL_BIB1_USE && attrUse.isSome && attrUse ≠ some (q.name, k))).map Prod.fst

structure AttrList where
  attrList : List Attr := []
  structureValue : Option Int := none
  deriving DecidableEq

def AttrList.add (p : AttrList) (attr : Attr) : AttrList :=
  match attr.value with
  | .string _ => { p with attrList := attr :: p.attrList }
  | .numeric value =>
    if 0 < value then
      if attr.type = CCL_BIB1_STR then
        if p.structureValue.isSome then p else { attrList := attr :: p.attrList, structureValue := some value }
      else { p with attrList := attr :: p.attrList }
    else p

def truncAttr (qa : List Qual) (text : TermText) (mode : TruncMode) (attset : Option (List UInt8)) : Except CclError (List Attr) :=
  let tru (set : Option (List UInt8)) (value : Int) : List Attr := [{ set := set, type := CCL_BIB1_TRU, value := .numeric value }]
  let allowed (can value : Int) (error : CclError) : Except CclError (List Attr) :=
    match qualValType qa CCL_BIB1_TRU can with
    | some set => .ok (tru set value)
    | none => .error error
  if text.leftTrunc && text.rightTrunc then allowed CCL_BIB1_TRU_CAN_BOTH 3 .truncNotBoth
  else if text.rightTrunc then allowed CCL_BIB1_TRU_CAN_RIGHT 1 .truncNotRight
  else if text.leftTrunc then allowed CCL_BIB1_TRU_CAN_LEFT 2 .truncNotLeft
  else if mode.regexTrunc then .ok (tru attset 102)
  else if mode.z3958Trunc then .ok (tru attset 104)
  else
    match qualValType qa CCL_BIB1_TRU CCL_BIB1_TRU_CAN_NONE with
    | some set => .ok (tru set 100)
    | none => .ok []

section
variable (cclp : CclParser) (qa : List Qual)

/-- `ccl_term_one_use` on all of these tokens. -/
def cclTermOneUse (lookahead : List Token) (attrUse : Option (List UInt8 × Nat)) (isPhrase autoGroup : Bool) : Except CclError Term := do
  let truncationAliases := (cclQualSearchSpecial cclp.bibset (ascii "truncation")).getD [ascii "?"]
  let maskAliases := (cclQualSearchSpecial cclp.bibset (ascii "mask")).getD [ascii "#"]
  let isCclMasked := lookahead.any fun t => hasCclMasking truncationAliases maskAliases t.len 0 false t.name
  let p := (termAttrs attrUse qa).foldl AttrList.add {}
  let wordPhrase := if autoGroup then some none else qualValType qa CCL_BIB1_STR CCL_BIB1_STR_WP
  let (attrList, attset) : List Attr × Option (List UInt8) :=
    match p.structureValue, wordPhrase with
    | none, some set =>
      ({ set := set, type := CCL_BIB1_STR, value := .numeric (if isPhrase then 1 else 2) } :: p.attrList, set)
    | _, _ => (p.attrList, none)
  let canRegex := qualValType qa CCL_BIB1_TRU CCL_BIB1_TRU_CAN_REGEX
  let canZ3958 := if canRegex.isSome then none else qualValType qa CCL_BIB1_TRU CCL_BIB1_TRU_CAN_Z3958
  let attset := (canRegex.or canZ3958).getD attset
  let mode : TruncMode :=
    { regexTrunc := canRegex.isSome && isCclMasked, z3958Trunc := canZ3958.isSome && isCclMasked
      truncationAliases := truncationAliases, maskAliases := maskAliases }
  let text ← appendTokens mode true lookahead {}
  let trunc ← truncAttr qa text mode attset
  return { term := text.dstTerm, qual := qa.head?.map Qual.name, attrList := trunc ++ attrList }

def useAttrs : List (List UInt8 × Nat) :=
  match qa with
  | [] => []
  | q :: _ => (q.attrList.zipIdx.filter fun (attr, _) => attr.type = CCL_BIB1_USE).map fun (_, k) => (q.name, k)

/-- The terms for these use attributes, behind `p`. -/
def cclTermUses (lookahead : List Token) (isPhrase autoGroup : Bool) :
    (p : Option RpnNode) → (uses : List (List UInt8 × Nat)) → Except CclError (Option RpnNode)
  | p, [] => .ok p
  | p, attr :: uses => do
    let tmp2 ← cclTermOneUse cclp qa lookahead (some attr) isPhrase autoGroup
    cclTermUses lookahead isPhrase autoGroup (some (cclRpnNodeMkbool p (.term tmp2) .or)) uses

def cclTermMultiUse (lookahead : List Token) (isPhrase autoGroup : Bool) : Except CclError RpnNode := do
  match ← cclTermUses cclp qa lookahead isPhrase autoGroup none (useAttrs qa) with
  | some p => return p
  | none =>
    let p ← cclTermOneUse cclp qa lookahead none isPhrase autoGroup
    return .term p

/-- A first term of `l` tokens in `split_recur`, with what `splitRest` makes of the other tokens, behind other ways to split. -/
def splitStep (splitRest : List Token → Except CclError RpnNode) (ar : List Token) (pTop : Option RpnNode) (l : Nat) :
    Except CclError (Option RpnNode) := do
  let p2 ← cclTermMultiUse cclp qa (ar.take l) (1 < l) false
  if l < ar.length then
    let p1 ← splitRest (ar.drop l)
    return some (cclRpnNodeMkbool pTop (cclRpnNodeMkbool (some p2) p1 .and) .or)
  else return some (cclRpnNodeMkbool pTop p2 .or)

/-- `split_recur`; `fuel` is at least the number of tokens. -/
def splitRecur (subLen : Nat) : (fuel : Nat) → List Token → Except CclError RpnNode
  | 0, _ => .error .termExpected
  | fuel + 1, ar => do
    match ← (List.range' 1 (min ar.length subLen)).foldlM (splitStep cclp qa (splitRecur subLen fuel) ar) none with
    | some pTop => return pTop
    | none => .error .termExpected

end

end Yaz.Ccl
