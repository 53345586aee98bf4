import Yaz.Odr.Encode

/-! Type descriptions and the codecs `yaz-asncomp` generates for them.

A value of a `SEQUENCE` has one pointer for each member, null (`none`) for an absent
one; the elements of a `SEQUENCE OF` are pointers too. A value of a `CHOICE` is the arm
taken together with that arm's value.
-/

set_option autoImplicit false

namespace Yaz.Odr
open Yaz.Foundation

mutual

inductive Ty where
  | integer
  | enum
  | bool
  | null
  | octetstring
  | bitstring
  | oid
  | any
  | sequence (members : Members)
  | sequenceOf (type : Ty)
  | choice (arms : Arms)
  | implicit (zclass tag : Nat) (type : Ty)
  | explicit (zclass tag : Nat) (type : Ty)

inductive Members where
  | nil
  | cons (name : String) (opt : Bool) (type : Ty) (rest : Members)

inductive Arms where
  | nil
  | cons (tagmode : TagMode) (zclass tag : Nat) (which : Int) (name : String) (type : Ty) (rest : Arms)

end

mutual

def Ty.Val : Ty → Type
  | .integer | .enum => BitVec 64
  | .bool => Int
  | .null => Unit
  | .octetstring | .bitstring | .any => List UInt8
  | .oid => List Int
  | .sequence members => members.Val
  | .sequenceOf type => List (Option type.Val)
  | .choice arms => arms.Val
  | .implicit _ _ type | .explicit _ _ type => type.Val

def Members.Val : Members → Type
  | .nil => Unit
  | .cons _ _ type rest => Option type.Val × rest.Val

def Arms.Val : Arms → Type
  | .nil => Empty
  | .cons _ _ _ _ _ type rest => type.Val ⊕ rest.Val

end

/-- The generated function of a `SEQUENCE`, around the calls for its members. -/
def sequenceDecode {α : Type} (members : Codec (Bool × Option α)) (opt : Bool) (name : Option String) :
    Codec (Bool × Option α) := do
  if ← odrSequenceBeginDecode name then do
    let (ret, p) ← members
    if ret then do
      let closed ← odrConstructedEndDecode
      pure (closed, p)
    else pure (false, none)
  else do
    let missing ← odrMissing opt name
    let o ← Run.get
    pure (missing && o.error.isNone, none)

/-- The generated function of a `CHOICE` or `SEQUENCE OF` around the call of `odr_choice` or
`odr_sequence_of`. -/
def memberDecode {α : Type} (body : Codec (Bool × Option α)) (opt : Bool) (name : Option String) :
    Codec (Bool × Option α) := do
  if ← odrInitmemberDecode then do
    let (ret, p) ← body
    if ret then pure (true, p)
    else do
      let missing ← odrMissing opt name
      pure (missing, none)
  else do
    let missing ← odrMissing opt name
    pure (missing, none)

/-- The macro `odr_explicit_tag`. -/
def odrExplicitTagDecode {α : Type} (zclass tag : Int) (type : Codec (Bool × Option α)) (opt : Bool)
    (name : Option String) : Codec (Bool × Option α) := do
  if ← odrConstructedBeginDecode zclass tag none then do
    let (ret, p) ← type
    if ret then do
      let closed ← odrConstructedEndDecode
      pure (closed, p)
    else pure (false, none)
  else do
    let missing ← odrMissing opt name
    pure (missing, none)

mutual

def Ty.decode : (type : Ty) → Bool → Option String → Codec (Bool × Option type.Val)
  | .integer, opt, name => odrIntegerDecode opt name
  | .enum, opt, name => odrEnumDecode opt name
  | .bool, opt, name => odrBoolDecode opt name
  | .null, opt, name => odrNullDecode opt name
  | .octetstring, opt, name => odrOctetstringDecode opt name
  | .bitstring, opt, name => odrBitstringDecode opt name
  | .oid, opt, name => odrOidDecode opt name
  | .any, opt, name => odrAnyDecode opt name
  | .sequence members, opt, name => sequenceDecode members.decode opt name
  | .sequenceOf type, opt, name => memberDecode (odrSequenceOfDecode (type.decode false none) name) opt name
  | .choice arms, opt, name => memberDecode (odrChoiceDecode (arms.decode id)) opt name
  | .implicit zclass tag type, opt, name => do
    let _ ← odrImplicitSettag zclass tag
    type.decode opt name
  | .explicit zclass tag type, opt, name => odrExplicitTagDecode zclass tag (type.decode opt name) opt name

/-- The calls for the members, joined by `&&`. -/
def Members.decode : (members : Members) → Codec (Bool × Option members.Val)
  | .nil => pure (true, some ())
  | .cons name opt type rest => do
    let (ret, p) ← type.decode opt (some name)
    if ret then do
      let (ret, ps) ← rest.decode
      pure (ret, ps.map fun values => (p, values))
    else pure (false, none)

/-- The table of arms; `inject` puts an arm's value into the union. -/
def Arms.decode {α : Type} : (arms : Arms) → (arms.Val → α) → List (Arm α)
  | .nil, _ => []
  | .cons tagmode zclass tag which name type rest, inject =>
    { tagmode := tagmode, zclass := zclass, tag := tag, which := which, name := some name
      type := fun opt name => do
        let (ret, p) ← type.decode opt name
        pure (ret, p.map fun value => inject (.inl value)) } ::
      rest.decode fun value => inject (.inr value)

end

def sequenceEncode {α : Type} (members : α → Codec Bool) (p : Option α) (opt : Bool)
    (name : Option String) : Codec Bool := do
  if ← odrSequenceBeginEncode p.isSome name then
    match p with
    | none => pure false
    | some values => do
      if ← members values then odrConstructedEndEncode else pure false
  else do
    let missing ← odrMissing opt name
    let o ← Run.get
    pure (missing && o.error.isNone)

def memberEncode {α : Type} (body : α → Codec Bool) (p : Option α) (opt : Bool) (name : Option String) :
    Codec Bool := do
  if ← odrInitmemberEncode p.isSome then
    match p with
    | none => pure false
    | some value => do
      if ← body value then pure true else odrMissing opt name
  else odrMissing opt name

def odrExplicitTagEncode {α : Type} (zclass tag : Int) (type : Option α → Codec Bool) (p : Option α)
    (opt : Bool) (name : Option String) : Codec Bool := do
  if ← odrConstructedBeginEncode p.isSome zclass tag none then do
    if ← type p then odrConstructedEndEncode else pure false
  else odrMissing opt name

/-- `for (i = 0; i < *num; i++)` of `odr_sequence_x`. -/
def encodeElements {α : Type} (type : Option α → Codec Bool) : List (Option α) → Codec Bool
  | [] => pure true
  | p :: rest => do
    if ← type p then encodeElements type rest else pure false

/-- `odr_sequence_of`. -/
def odrSequenceOfEncode {α : Type} (type : Option α → Codec Bool) (name : Option String)
    (elements : List (Option α)) : Codec Bool := do
  if ← odrSequenceBeginEncode true name then do
    if ← encodeElements type elements then odrConstructedEndEncode else pure false
  else pure false

/-- The arm of `odr_choice` that `*which` selects. -/
def odrChoiceArm {α : Type} (tagmode : TagMode) (zclass tag : Int) (type : Option α → Bool → Codec Bool)
    (value : α) : Codec Bool :=
  match tagmode with
  | .none => type (some value) true
  | .implicit => do
    let _ ← odrImplicitSettag zclass tag
    type (some value) false
  | .explicit => do
    if ← odrConstructedBeginEncode true zclass tag none then do
      if ← type (some value) false then odrConstructedEndEncode else pure false
    else pure false

/-- `odr_choice`, around the arm that is selected. -/
def odrChoiceEncode {α : Type} (select : α → Codec Bool) (value : α) : Codec Bool := do
  let o ← Run.get
  if o.error.isSome then pure false
  else do
    Run.modify fun o => { o with choiceBias := -1 }
    select value

mutual

def Ty.encode : (type : Ty) → Option type.Val → Bool → Option String → Codec Bool
  | .integer, p, opt, name => odrIntegerEncode p opt name
  | .enum, p, opt, name => odrEnumEncode p opt name
  | .bool, p, opt, name => odrBoolEncode p opt name
  | .null, p, opt, name => odrNullEncode p opt name
  | .octetstring, p, opt, name => odrOctetstringEncode p opt name
  | .bitstring, p, opt, name => odrBitstringEncode p opt name
  | .any, p, opt, name => odrAnyEncode p opt name
  | .oid, p, opt, name => odrOidEncode p opt name
  | .sequence members, p, opt, name => sequenceEncode members.encode p opt name
  | .sequenceOf type, p, opt, name =>
    memberEncode (odrSequenceOfEncode (fun p => type.encode p false none) name) p opt name
  | .choice arms, p, opt, name => memberEncode (odrChoiceEncode arms.encode) p opt name
  | .implicit zclass tag type, p, opt, name => do
    let _ ← odrImplicitSettag zclass tag
    type.encode p opt name
  | .explicit zclass tag type, p, opt, name =>
    odrExplicitTagEncode zclass tag (fun p => type.encode p opt name) p opt name

def Members.encode : (members : Members) → members.Val → Codec Bool
  | .nil, _ => pure true
  | .cons name opt type rest, values => do
    if ← type.encode values.1 opt (some name) then rest.encode values.2 else pure false

def Arms.encode : (arms : Arms) → arms.Val → Codec Bool
  | .cons tagmode zclass tag _ name type _, .inl value =>
    odrChoiceArm tagmode zclass tag (fun p opt => type.encode p opt (some name)) value
  | .cons _ _ _ _ _ _ rest, .inr value => rest.encode value

end

/-- A fresh handle from `odr_createmem(ODR_ENCODE)`. -/
def encoding : Handle := {}

end Yaz.Odr
