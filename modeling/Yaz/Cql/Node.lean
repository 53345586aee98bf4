import Yaz.Comstack.Complete

/-! The nodes of a CQL tree, and their copies, as `cqlutil.c` makes them.

A C string is the list of its octets before the NUL; a pointer that may be null is an `Option`, and the null node is a node.
-/

set_option autoImplicit false

namespace Yaz.Cql
open Yaz.Comstack

/-- The strings of `u.st`. -/
structure StStrings where
  index : Option (List UInt8) := none
  indexUri : Option (List UInt8) := none
  term : Option (List UInt8) := none
  relation : Option (List UInt8) := none
  relationUri : Option (List UInt8) := none
  deriving DecidableEq

/-- `struct cql_node`. -/
inductive CqlNode where
  | null
  | st (u : StStrings) (modifiers extraTerms : CqlNode)
  | boolean (value : Option (List UInt8)) (left right modifiers : CqlNode)
  | sort (index : Option (List UInt8)) (next modifiers search : CqlNode)
  deriving DecidableEq

def cqlNodeMkSc (index relation term : Option (List UInt8)) : CqlNode := .st { index, relation, term } .null .null

def cqlNodeMkSort (index : Option (List UInt8)) (modifiers : CqlNode) : CqlNode := .sort index .null modifiers .null

/-- `cql_node_dup`: what it does not set stays as `cql_node_mk_sc`, `cql_node_mk_boolean` and `cql_node_mk_sort` leave it. -/
def cqlNodeDup : CqlNode → CqlNode
  | .null => .null
  | .st u modifiers _ => .st u (cqlNodeDup modifiers) .null
  | .boolean value left right _ => .boolean value (cqlNodeDup left) (cqlNodeDup right) .null
  | .sort index next modifiers search => .sort index (cqlNodeDup next) modifiers (cqlNodeDup search)

/-- `!cql_strcmp`. -/
def cqlSame (s1 s2 : List UInt8) : Bool := s1.map toLower = s2.map toLower

/-- `!cql_strncmp`. -/
def cqlSameFront (s1 s2 : List UInt8) (n : Nat) : Bool := cqlSame (s1.take n) (s2.take n)

def behindPrefix (name : List UInt8) (before : Option (List UInt8)) : Option (List UInt8) :=
  match before with
  | some before =>
    if 46 ∈ name ∧ before.length = (name.takeWhile (· ≠ 46)).length ∧ cqlSameFront name before before.length then
      some ((name.dropWhile (· ≠ 46)).drop 1)
    else none
  | none => none

def resolve (name uri before : Option (List UInt8)) (newUri : List UInt8) : Option (List UInt8) × Option (List UInt8) :=
  match name, uri with
  | some text, none =>
    match behindPrefix text before with
    | some nval => (some nval, some newUri)
    | none => (name, uri)
  | _, _ => (name, uri)

def resolveIndex (name uri before : Option (List UInt8)) (newUri : List UInt8) : Option (List UInt8) × Option (List UInt8) :=
  match name, uri, before with
  | some text, none, none => if 46 ∈ text then (name, uri) else (name, some newUri)
  | _, _, _ => resolve name uri before newUri

/-- The loop of `cql_apply_prefix` over the modifiers. -/
def applyToModifiers (before : Option (List UInt8)) (uri : List UInt8) : CqlNode → CqlNode
  | .st u modifiers extraTerms =>
    let (index, indexUri) := resolve u.index u.indexUri before uri
    .st { u with index, indexUri } (applyToModifiers before uri modifiers) extraTerms
  | n => n

def cqlApplyPrefix (before : Option (List UInt8)) (uri : List UInt8) : CqlNode → CqlNode
  | .null => .null
  | .st u modifiers extraTerms =>
    let (index, indexUri) := resolveIndex u.index u.indexUri before uri
    let (relation, relationUri) := resolve u.relation u.relationUri before uri
    .st { u with index, indexUri, relation, relationUri } (applyToModifiers before uri modifiers) extraTerms
  | .boolean value left right modifiers =>
    .boolean value (cqlApplyPrefix before uri left) (cqlApplyPrefix before uri right) modifiers
  | .sort index next modifiers search => .sort index next modifiers (cqlApplyPrefix before uri search)

def Copied : CqlNode → Prop
  | .null => True
  | .st _ modifiers extraTerms => extraTerms = .null ∧ Copied modifiers
  | .boolean _ left right modifiers => modifiers = .null ∧ Copied left ∧ Copied right
  | .sort _ next _ search => Copied next ∧ Copied search

/-- A copy is equal to what it is a copy of where nothing is left out. -/
theorem cqlNodeDup_eq_iff (cp : CqlNode) : cqlNodeDup cp = cp ↔ Copied cp := by
  induction cp with
  | null => exact iff_of_true rfl trivial
  | st _ _ _ ihModifiers =>
    rw [cqlNodeDup, Copied, ← ihModifiers]
    constructor
    · intro same
      injection same with _ modifiers' extraTerms'
      exact ⟨extraTerms'.symm, modifiers'⟩
    · rintro ⟨rfl, modifiers'⟩
      rw [modifiers']
  | boolean _ _ _ _ ihLeft ihRight =>
    rw [cqlNodeDup, Copied, ← ihLeft, ← ihRight]
    constructor
    · intro same
      injection same with _ left' right' modifiers'
      exact ⟨modifiers'.symm, left', right'⟩
    · rintro ⟨rfl, left', right'⟩
      rw [left', right']
  | sort _ _ _ _ ihNext _ ihSearch =>
    rw [cqlNodeDup, Copied, ← ihNext, ← ihSearch]
    constructor
    · intro same
      injection same with _ next' _ search'
      exact ⟨next', search'⟩
    · rintro ⟨next', search'⟩
      rw [next', search']

/-- The second word of `a b` is not copied. -/
theorem cqlNodeDup_extraTerms :
    cqlNodeDup (.st { term := some [97] } .null (.st { term := some [98] } .null .null)) ≠
      .st { term := some [97] } .null (.st { term := some [98] } .null .null) := by
  decide

end Yaz.Cql
