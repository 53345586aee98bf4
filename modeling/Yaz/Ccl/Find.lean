import Yaz.Ccl.Term

/-! The parser of `cclfind.c`.

The tokens are a list that ends with the end of line, and `look` is the number of the token that is looked at; tokens may be put in while a
range is parsed. `findSpec` is what parses a query in parentheses.
-/

set_option autoImplicit false

namespace Yaz.Ccl
open Yaz.Comstack (ascii)

/-- The part of a `struct ccl_parser` that changes. -/
structure State where
  tokens : List Token
  look : Nat
  errorCode : CclError := .ok
  deriving DecidableEq

/-- What a function of the parser comes to: its value, a null pointer, what C does not define, or parentheses deeper than were
allowed for. -/
inductive Outcome (α : Type) where
  | ok (value : α) (cclp : State)
  | null (cclp : State)
  | undefined
  | tooDeep
  deriving DecidableEq

abbrev Parse (α : Type) := State → Outcome α

section
variable {α β : Type}

def Parse.pure (a : α) : Parse α := fun st => .ok a st

def Parse.bind (x : Parse α) (f : α → Parse β) : Parse β := fun st =>
  match x st with
  | .ok a st => f a st
  | .null st => .null st
  | .undefined => .undefined
  | .tooDeep => .tooDeep

instance : Monad Parse where
  pure := Parse.pure
  bind := Parse.bind

def fail (errorCode : CclError) : Parse α := fun st => .null { st with errorCode := errorCode }

def undefined : Parse α := fun _ => .undefined

def ofExcept (result : Except CclError α) : Parse α :=
  match result with
  | .ok a => Parse.pure a
  | .error errorCode => fail errorCode

def ofOption (result : Option α) : Parse α :=
  match result with
  | some a => Parse.pure a
  | none => undefined

end

def lookToken : Parse Token := fun st => ofOption st.tokens[st.look]? st

def kind : Parse TokenKind := do
  let t ← lookToken
  return t.kind

def advance : Parse Unit := fun st => if st.look < st.tokens.length then .ok () { st with look := st.look + 1 } else .undefined

def advanceBy (number : Nat) : Parse Unit := fun st => .ok () { st with look := st.look + number }

def lookAt (look : Nat) : Parse Unit := fun st => .ok () { st with look := look }

def ahead : Parse (List Token) := fun st => .ok (st.tokens.drop st.look) st

/-- The tokens that are terms in `search_term`, and in `search_terms`. -/
def termList : List TokenKind := [.term, .comma]
def termsList : List TokenKind := [.term, .comma, .eq, .rel, .set]

def isPhraseToken (t : Token) : Bool := t.text.any fun c => c = 32

def takeTerm (list : List TokenKind) (autoGroup : Bool) : (max no : Nat) → (isPhrase : Bool) → List Token → Nat × Bool
  | 0, no, isPhrase, _ => (no, isPhrase)
  | _, no, isPhrase, [] => (no, isPhrase)
  | max + 1, no, isPhrase, t :: tokens =>
    if t.kind ∈ list then
      let thisIsPhrase := isPhraseToken t
      if autoGroup then
        if 0 < no ∧ (isPhrase = true ∨ isPhrase ≠ thisIsPhrase) then (no, isPhrase)
        else takeTerm list autoGroup max (no + 1) thisIsPhrase tokens
      else takeTerm list autoGroup max (no + 1) (isPhrase || thisIsPhrase || 0 < no) tokens
    else (no, isPhrase)

structure ListMode where
  andList : Bool
  orList : Bool
  autoGroup : Bool
  deriving DecidableEq

def listMode (qa : List Qual) : ListMode :=
  { andList := (qualValType qa CCL_BIB1_STR CCL_BIB1_STR_AND_LIST).isSome
    orList := (qualValType qa CCL_BIB1_STR CCL_BIB1_STR_OR_LIST).isSome
    autoGroup := (qualValType qa CCL_BIB1_STR CCL_BIB1_STR_AUTO_GROUP).isSome }

def maxTokens (mode : ListMode) (multi : Bool) : Nat := if mode.andList || mode.orList || !multi then 1 else 200

section
variable (cclp : CclParser)

def searchTermSplitList (qa : List Qual) (list : List TokenKind) : Parse RpnNode := do
  let _ ← lookToken
  let ar := (← ahead).takeWhile fun t => t.kind ∈ list
  if ar = [] then fail .termExpected
  else
    let subLen := if 7 ≤ ar.length then 1 else if 5 ≤ ar.length then 2 else 3
    advanceBy ar.length
    ofExcept (splitRecur cclp qa subLen ar.length ar)

/-- The loop of `search_term_x`; `fuel` is more than the number of tokens ahead. -/
def searchTermLoop (qa : List Qual) (list : List TokenKind) (multi : Bool) : (fuel : Nat) → (pTop : Option RpnNode) → Parse RpnNode
  | 0, _ => undefined
  | fuel + 1, pTop => do
    let mode := listMode qa
    let lookahead ← lookToken
    if mode.andList && lookahead.kind = .comma then
      advance
      searchTermLoop qa list multi fuel pTop
    else
      let tokens ← ahead
      let (no, isPhrase) := takeTerm list mode.autoGroup (maxTokens mode multi) 0 false tokens
      if no = 0 then
        match pTop with
        | some p => return p
        | none => fail .termExpected
      else
        advanceBy no
        let p ← ofExcept (cclTermMultiUse cclp qa (tokens.take no) isPhrase mode.autoGroup)
        let pTop := cclRpnNodeMkbool pTop p (if mode.orList then .or else .and)
        if multi then searchTermLoop qa list multi fuel (some pTop) else return pTop

def searchTermX (qa : List Qual) (list : List TokenKind) (multi : Bool) : Parse RpnNode := fun st =>
  if (qualValType qa CCL_BIB1_STR CCL_BIB1_STR_SPLIT_LIST).isSome then searchTermSplitList cclp qa list st
  else searchTermLoop cclp qa list multi (st.tokens.length + 1) none st

def searchTerm (qa : List Qual) : Parse RpnNode := searchTermX cclp qa termList false

variable (findSpec : Option (List Qual) → Parse RpnNode)

def searchTerms2 (qa : Option (List Qual)) : Parse RpnNode := do
  if (← kind) = .lp then
    advance
    let p ← findSpec qa
    if (← kind) = .rp then
      advance
      return p
    else fail .rpExpected
  else searchTermX cclp (qa.getD []) termsList true

/-- The loop of `search_terms`, behind the operand `p1`; `fuel` is more than the number of tokens ahead. -/
def searchTermsLoop (qa : Option (List Qual)) : (fuel : Nat) → (p1 : RpnNode) → Parse RpnNode
  | 0, _ => undefined
  | fuel + 1, p1 => do
    let t ← lookToken
    if t.kind = .prox then
      advance
      let p2 ← searchTerms2 cclp findSpec qa
      searchTermsLoop qa fuel (.bool .prox p1 p2 (.term t.text))
    else if t.kind ∈ termsList then
      let p2 ← searchTerms2 cclp findSpec qa
      searchTermsLoop qa fuel (.bool .prox p1 p2 .null)
    else return p1

def searchTerms (qa : Option (List Qual)) : Parse RpnNode := do
  let p1 ← searchTerms2 cclp findSpec qa
  let tokens ← ahead
  searchTermsLoop cclp findSpec qa (tokens.length + 1) p1

/-! ### Relations -/

def relationValue (t : Token) : Option Int :=
  if t.len = 1 then
    if t.text = ascii "<" then some 1 else if t.text = ascii "=" then some 3 else if t.text = ascii ">" then some 5 else none
  else if t.len = 2 then
    if t.text = ascii "<=" then some 2 else if t.text = ascii ">=" then some 4 else if t.text = ascii "<>" then some 6 else none
  else none

def dashIndex : (i : Nat) → (quoteMode : Bool) → List UInt8 → Nat
  | i, _, [] => i
  | i, quoteMode, c :: name =>
    if 0 < i ∧ c = 92 then dashIndex (i + 1) quoteMode name
    else if c = 34 then dashIndex (i + 1) (!quoteMode) name
    else if c = 45 ∧ quoteMode = false then i
    else dashIndex (i + 1) quoteMode name

/-- A token that `ccl_token_add` puts in. -/
def newToken (name : List UInt8) (len : Nat) : Token := { kind := .term, name := name, len := len, wsPrefix := [] }

/-- The tokens behind a `=`, where a dash in the first term is a token of its own. -/
def splitRange : List Token → List Token
  | [] => []
  | t :: rest =>
    if t.kind = .term then
      let i := dashIndex 0 false t.text
      let dash := newToken (ascii "-") 1
      if 1 < t.len ∧ i = 0 then { t with name := ascii "-", len := 1 } :: newToken (t.name.drop 1) (t.len - 1) :: rest
      else if 1 < t.len ∧ i = t.len - 1 then { t with len := t.len - 1 } :: dash :: rest
      else if 2 < t.len ∧ i < t.len then { t with len := i } :: dash :: newToken (t.name.drop (i + 1)) (t.len - (i + 1)) :: rest
      else
        match rest with
        | u :: rest' =>
          if i = t.len ∧ u.kind = .term ∧ 1 < u.len ∧ u.name.head? = some 45 then
            t :: dash :: { u with name := u.name.drop 1, len := u.len - 1 } :: rest'
          else t :: rest
        | [] => t :: rest
    else t :: rest

def isDash (t : Token) : Bool := t.len = 1 && t.name.head? = some 45

/-- What `qualifiers_order` finds behind a relation: `= term - term`, `= term -`, `= - term` or a search expression. -/
inductive Operands where
  | span (p1 p2 : RpnNode)
  | above (p1 : RpnNode)
  | below (p : RpnNode)
  | expression (p : RpnNode)
  deriving DecidableEq

def orderedOperands (ap : List Qual) (rel : Int) : Parse Operands := do
  let t ← lookToken
  let tokens ← ahead
  if rel = 3 ∧ t.kind = .term ∧ (tokens[1]?.any isDash) = true then
    let p1 ← searchTerm cclp ap
    advance
    if (← kind) = .term then
      let p2 ← searchTerm cclp ap
      return .span p1 p2
    else return .above p1
  else if rel = 3 ∧ isDash t = true then
    advance
    let p ← searchTerm cclp ap
    return .below p
  else
    let p ← searchTerms cclp findSpec (some ap)
    return .expression p

def omitsEquals (ap : List Qual) (rel : Int) : Bool := rel = 3 && (qualValType ap CCL_BIB1_REL CCL_BIB1_REL_OMIT_EQUALS).isSome

def attachRelation (ap : List Qual) (attset : Option (List UInt8)) (rel : Int) : Operands → Option RpnNode
  | .span p1 p2 => do
    let p1 ← cclSetAttrNumeric p1 attset CCL_BIB1_REL 4
    let p2 ← cclSetAttrNumeric p2 attset CCL_BIB1_REL 2
    return .bool .and p1 p2 .unset
  | .above p1 => cclSetAttrNumeric p1 attset CCL_BIB1_REL 4
  | .below p => cclSetAttrNumeric p attset CCL_BIB1_REL 2
  | .expression p => if omitsEquals ap rel then some p else cclSetAttrNumeric p attset CCL_BIB1_REL rel

/-- The parser behind a relation: with `r=r`, the first term behind a `=` is taken apart at its dash. -/
def afterRelation (ap : List Qual) (rel : Int) (st : State) : State :=
  let tokens :=
    if rel = 3 ∧ (qualValType ap CCL_BIB1_REL CCL_BIB1_REL_PORDER).isSome then
      st.tokens.take (st.look + 1) ++ splitRange (st.tokens.drop (st.look + 1))
    else st.tokens
  { st with tokens := tokens, look := st.look + 1 }

def qualifiersOrder (ap : List Qual) (attset : Option (List UInt8)) : Parse RpnNode := do
  match relationValue (← lookToken) with
  | none => fail .badRelation
  | some rel =>
    fun st =>
      (do
        let operands ← orderedOperands cclp findSpec ap rel
        ofOption (attachRelation ap attset rel operands) : Parse RpnNode) (afterRelation ap rel st)

def qualifierRelation (ap : List Qual) : Parse RpnNode := do
  match (qualValType ap CCL_BIB1_REL CCL_BIB1_REL_ORDER).or (qualValType ap CCL_BIB1_REL CCL_BIB1_REL_PORDER) with
  | some attset => qualifiersOrder cclp findSpec ap attset
  | none =>
    if (← kind) = .eq then
      advance
      searchTerms cclp findSpec (some ap)
    else fail .eqExpected

/-! ### Qualifiers -/

def fieldTokens : (look : Nat) → List Token → List (Nat × Token)
  | _, [] => []
  | look, [t] => [(look, t)]
  | look, t :: comma :: rest => if comma.kind = .comma then (look, t) :: fieldTokens (look + 2) rest else [(look, t)]

def CclParser.seqBound (cclp : CclParser) : Nat := (cclp.bibset.list.map fun q => q.sub.length).foldl max 0 + 2

/-- One field with each of its qualifiers; `seq` of them were searched. -/
def searchField (la : Nat) (look : Nat) (t : Token) : (fuel seq : Nat) → (node : Option RpnNode) → Parse (Option RpnNode)
  | 0, _, _ => undefined
  | fuel + 1, seq, node => do
    match cclQualSearch cclp t.name t.len seq with
    | some q =>
      lookAt la
      let nodeSub ← qualifierRelation cclp findSpec [q]
      searchField la look t fuel (seq + 1) (some (cclRpnNodeMkbool node nodeSub .or))
    | none =>
      if seq = 0 then
        lookAt look
        fail .unknownQual
      else return node

def searchFields (la : Nat) : List (Nat × Token) → (node : Option RpnNode) → Parse (Option RpnNode)
  | [], node => return node
  | (look, t) :: fields, node => do
    let node ← searchField cclp findSpec la look t cclp.seqBound 0 node
    searchFields la fields node

/-- The qualifiers of number `seq` of all fields, and how many of them there are. -/
def mergeFields (seq : Nat) : List (Nat × Token) → Parse (List Qual × Nat)
  | [] => return ([], 0)
  | (look, t) :: fields => do
    let q := cclQualSearch cclp t.name t.len seq
    match q.or (if 0 < seq then cclQualSearch cclp t.name t.len 0 else none) with
    | some ap =>
      let (rest, found) ← mergeFields seq fields
      return (ap :: rest, found + if q.isSome then 1 else 0)
    | none =>
      lookAt look
      fail .unknownQual

def searchMerged (la : Nat) (fields : List (Nat × Token)) (qa : List Qual) :
    (fuel seq : Nat) → (node : Option RpnNode) → Parse (Option RpnNode)
  | 0, _, _ => undefined
  | fuel + 1, seq, node => do
    let (ap, found) ← mergeFields cclp seq fields
    if found = 0 then return node
    else
      lookAt la
      fun st =>
        match qualifierRelation cclp findSpec (ap ++ qa) st with
        | .null st => if node.isSome then .undefined else .null st
        | .ok nodeSub st => searchMerged la fields qa fuel (seq + 1) (some (cclRpnNodeMkbool node nodeSub .or)) st
        | .undefined => .undefined
        | .tooDeep => .tooDeep

def ofNode (node : Option RpnNode) : Parse RpnNode := fun st =>
  match node with
  | some p => .ok p st
  | none => .null st

def qualifierList (la : Nat) (qa : Option (List Qual)) : Parse RpnNode := fun st =>
  let fields := fieldTokens st.look ((st.tokens.take la).drop st.look)
  let merge := ((cclQualSearchSpecial cclp.bibset (ascii "field")).bind List.head?) ≠ some (ascii "or")
  if merge then (do ofNode (← searchMerged cclp findSpec la fields (qa.getD []) cclp.seqBound 0 none)) st
  else (do ofNode (← searchFields cclp findSpec la fields none)) st

def scanFields : (look : Nat) → List Token → Nat × Bool
  | look, [] => (look, false)
  | look, [t] => (if t.kind = .term then look + 1 else look, false)
  | look, t :: u :: rest =>
    if t.kind = .term then
      if u.kind = .rel ∨ u.kind = .eq then (look + 1, true)
      else if u.kind = .comma then scanFields (look + 2) rest
      else (look + 1, false)
    else (look, false)

/-- Terms without a qualifier, for each qualifier `term`. -/
def searchDefault (lookahead : Nat) : (fuel seq : Nat) → (node : Option RpnNode) → Parse RpnNode
  | 0, _, _ => undefined
  | fuel + 1, seq, node => do
    match cclQualSearch cclp (ascii "term") 4 seq with
    | some q =>
      lookAt lookahead
      let nodeSub ← searchTerms cclp findSpec (some [q])
      searchDefault lookahead fuel (seq + 1) (some (cclRpnNodeMkbool node nodeSub .or))
    | none =>
      match node with
      | some p => return p
      | none => searchTerms cclp findSpec none

def searchElements (qa : Option (List Qual)) : Parse RpnNode := do
  if (← kind) = .set then
    advance
    if (← kind) = .eq then advance
    let t ← lookToken
    if t.kind = .term then
      advance
      return .set t.text
    else fail .setnameExpected
  else fun st =>
    let (la, relation) := scanFields st.look (st.tokens.drop st.look)
    if relation then qualifierList cclp findSpec la qa st
    else if qa.isSome || st.tokens[la]?.any (fun t => t.kind = .lp) then searchTerms cclp findSpec qa st
    else searchDefault cclp findSpec st.look cclp.seqBound 0 none st

def boolOperator : TokenKind → Option RpnKind
  | .and => some .and
  | .or => some .or
  | .not => some .not
  | _ => none

/-- The loop of `find_spec`; `fuel` is more than the number of tokens ahead. -/
def findSpecLoop (qa : Option (List Qual)) : (fuel : Nat) → (p1 : RpnNode) → Parse RpnNode
  | 0, _ => undefined
  | fuel + 1, p1 => do
    match boolOperator (← kind) with
    | some op =>
      advance
      let p2 ← searchElements cclp findSpec qa
      findSpecLoop qa fuel (cclRpnNodeMkbool (some p1) p2 op)
    | none => return p1

def findSpecStep (qa : Option (List Qual)) : Parse RpnNode := do
  let p1 ← searchElements cclp findSpec qa
  let tokens ← ahead
  findSpecLoop cclp findSpec qa (tokens.length + 1) p1

end

/-- `find_spec`, with parentheses of this depth. -/
def findSpec (cclp : CclParser) : (depth : Nat) → Option (List Qual) → Parse RpnNode
  | 0, _ => fun _ => .tooDeep
  | depth + 1, qa => findSpecStep cclp (findSpec cclp depth) qa

def cclParserFindToken (cclp : CclParser) (list : List Token) : Outcome RpnNode :=
  (do
    let p ← findSpec cclp (list.length + 1) none
    match ← kind with
    | .eol => fun st => .ok p { st with errorCode := .ok }
    | .rp => fail .badRp
    | _ => fail .opExpected : Parse RpnNode) { tokens := list, look := 0 }

def cclParserFindStr (cclp : CclParser) (str : List UInt8) : Outcome RpnNode := cclParserFindToken cclp (cclParserTokenize cclp str)

end Yaz.Ccl
