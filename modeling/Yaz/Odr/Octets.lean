import Yaz.Ber.Values
import Yaz.Odr.Types

/-! The octets that stand for a value of a type, without a handle.

Encoding writes these octets and decoding reads them back; the two directions meet
here and nowhere else.
-/

set_option autoImplicit false

namespace Yaz.Odr
open Yaz.Foundation Yaz.Ber

abbrev Tag := Nat × Nat

def lengthOctets (len : Nat) : List UInt8 :=
  if len ≤ 127 then [UInt8.ofNat len]
  else UInt8.ofNat ((base256 4 len []).length + 128) :: base256 4 len []

theorem lengthOctets_short {len : Nat} (short : len ≤ 127) : lengthOctets len = [UInt8.ofNat len] :=
  if_pos short

def identifier (tag : Tag) (constructed : Bool) : List UInt8 := enctagOctets tag.1 tag.2 constructed

def primitive (tag : Tag) (contents : List UInt8) : List UInt8 :=
  identifier tag false ++ (lengthOctets contents.length ++ contents)

def constructed (tag : Tag) (body : List UInt8) : List UInt8 :=
  identifier tag true ++
    if body.length ≤ 127 then UInt8.ofNat body.length :: body else 0x80 :: (body ++ [0, 0])

def oidOctets (arcs : List Int) : List UInt8 := (oidIds arcs).flatMap fun id => base128 5 id.toNat []

mutual

/-- The octets of a value; `tag` is the tag that an enclosing IMPLICIT has set. -/
def Ty.octets : (type : Ty) → Option Tag → type.Val → List UInt8
  | .integer, tag, val => primitive (tag.getD (0, 2)) (dropSign (integerOctets val))
  | .enum, tag, val => primitive (tag.getD (0, 10)) (dropSign (integerOctets val))
  | .null, tag, _ => primitive (tag.getD (0, 5)) []
  | .octetstring, tag, octets => primitive (tag.getD (0, 4)) octets
  | .oid, tag, arcs => primitive (tag.getD (0, 6)) (oidOctets arcs)
  | .sequence members, tag, values => constructed (tag.getD (0, 16)) (members.octets values)
  | .sequenceOf type, tag, elements =>
    constructed (tag.getD (0, 16)) (List.flatMap (fun p => Option.elim p [] (type.octets none)) elements)
  | .choice arms, _, value => arms.octets value
  | .implicit zclass tag type, outer, value => type.octets (some (outer.getD (zclass, tag))) value
  | .explicit zclass tag type, outer, value => constructed (outer.getD (zclass, tag)) (type.octets none value)
  | .bool, _, _ | .bitstring, _, _ | .any, _, _ => []

def Members.octets : (members : Members) → members.Val → List UInt8
  | .nil, _ => []
  | .cons _ _ type rest, values => Option.elim values.1 [] (type.octets none) ++ rest.octets values.2

def Arms.octets : (arms : Arms) → arms.Val → List UInt8
  | .cons tagmode zclass tag _ _ type _, .inl value =>
    match tagmode with
    | .none => type.octets none value
    | .implicit => type.octets (some (zclass, tag)) value
    | .explicit => constructed (zclass, tag) (type.octets none value)
  | .cons _ _ _ _ _ _ rest, .inr value => rest.octets value

end

/-! ### Tags -/

/-- Tags `ber_enctag` can write; UNIVERSAL 0 is left to the end-of-contents octets. -/
def Tag.Legal (tag : Tag) : Prop := tag.1 < 4 ∧ tag.2 < 2 ^ 28 ∧ tag ≠ (0, 0)

instance (tag : Tag) : Decidable tag.Legal :=
  inferInstanceAs (Decidable (tag.1 < 4 ∧ tag.2 < 2 ^ 28 ∧ tag ≠ (0, 0)))

mutual

def Ty.tags : Ty → List Tag
  | .integer => [(0, 2)]
  | .enum => [(0, 10)]
  | .bool => [(0, 1)]
  | .null => [(0, 5)]
  | .octetstring => [(0, 4)]
  | .bitstring => [(0, 3)]
  | .oid => [(0, 6)]
  | .any => []
  | .sequence _ | .sequenceOf _ => [(0, 16)]
  | .choice arms => arms.tags
  | .implicit zclass tag _ | .explicit zclass tag _ => [(zclass, tag)]

def Arms.tags : Arms → List Tag
  | .nil => []
  | .cons tagmode zclass tag _ _ type rest =>
    (if tagmode = .none then type.tags else [(zclass, tag)]) ++ rest.tags

end

def Members.firsts : Members → List Tag
  | .nil => []
  | .cons _ opt type rest => type.tags ++ if opt then rest.firsts else []

def Ty.taggable : Ty → Bool
  | .choice _ | .any => false
  | .implicit _ _ type => type.taggable
  | _ => true

mutual

/-- The type descriptions a generated codec may have: legal tags, no IMPLICIT tag on a CHOICE, and
distinct tags for the arms of a CHOICE and for an optional member and its possible successors. -/
def Ty.WellFormed : Ty → Prop
  | .integer | .enum | .null | .octetstring | .oid => True
  | .bool | .bitstring | .any => False
  | .sequence members => members.WellFormed
  | .sequenceOf type => type.WellFormed
  | .choice arms => arms.WellFormed
  | .implicit zclass tag type => Tag.Legal (zclass, tag) ∧ type.taggable ∧ type.WellFormed
  | .explicit zclass tag type => Tag.Legal (zclass, tag) ∧ type.WellFormed

def Members.WellFormed : Members → Prop
  | .nil => True
  | .cons _ opt type rest =>
    type.WellFormed ∧ rest.WellFormed ∧ (opt = true → ∀ tag ∈ type.tags, tag ∉ rest.firsts)

def Arms.WellFormed : Arms → Prop
  | .nil => True
  | .cons tagmode zclass tag _ _ type rest =>
    type.WellFormed ∧ rest.WellFormed ∧ (tagmode ≠ .none → Tag.Legal (zclass, tag)) ∧
      (tagmode = .implicit → type.taggable) ∧
      ∀ first ∈ (if tagmode = .none then type.tags else [(zclass, tag)]), first ∉ rest.tags

end

mutual

def Ty.nesting : Ty → Nat
  | .sequence members => members.nesting + 1
  | .sequenceOf type => type.nesting + 1
  | .choice arms => arms.nesting
  | .implicit _ _ type => type.nesting
  | .explicit _ _ type => type.nesting + 1
  | _ => 0

def Members.nesting : Members → Nat
  | .nil => 0
  | .cons _ _ type rest => max type.nesting rest.nesting

def Arms.nesting : Arms → Nat
  | .nil => 0
  | .cons tagmode _ _ _ _ type rest =>
    max (type.nesting + if tagmode = .explicit then 1 else 0) rest.nesting

end

/-- An object identifier that X.690 can represent and an `Odr_oid` array of `OID_SIZE` can hold. -/
structure LegalOid (arcs : List Int) : Prop where
  least : 2 ≤ arcs.length
  most : arcs.length < oidSize
  range : ∀ arc ∈ arcs, 0 ≤ arc ∧ arc ≤ 32767
  first : ∀ arc ∈ arcs.head?, arc ≤ 2
  second : ∀ arc ∈ arcs.head?, arc < 2 → ∀ next ∈ arcs[1]?, next < 40

def eachPresent {α : Type} (property : α → Prop) (elements : List (Option α)) : Prop :=
  ∀ value, some value ∈ elements → property value

def allPresent {α : Type} (property : α → Prop) (elements : List (Option α)) : Prop :=
  ∀ p ∈ elements, ∃ value, p = some value ∧ property value

mutual

def Ty.Legal : (type : Ty) → type.Val → Prop
  | .octetstring, octets => List.length octets < 2 ^ 24
  | .oid, arcs => LegalOid arcs
  | .sequence members, values => members.Legal values
  | .sequenceOf type, elements => eachPresent type.Legal elements
  | .choice arms, value => arms.Legal value
  | .implicit _ _ type, value | .explicit _ _ type, value => type.Legal value
  | .integer, _ | .enum, _ | .null, _ | .bool, _ | .bitstring, _ | .any, _ => True

def Members.Legal : (members : Members) → members.Val → Prop
  | .nil, _ => True
  | .cons _ _ type rest, values => (∀ value, values.1 = some value → type.Legal value) ∧ rest.Legal values.2

def Arms.Legal : (arms : Arms) → arms.Val → Prop
  | .cons _ _ _ _ _ type _, .inl value => type.Legal value
  | .cons _ _ _ _ _ _ rest, .inr value => rest.Legal value

end

mutual

def Ty.Complete : (type : Ty) → type.Val → Prop
  | .sequence members, values => members.Complete values
  | .sequenceOf type, elements => allPresent type.Complete elements
  | .choice arms, value => arms.Complete value
  | .implicit _ _ type, value | .explicit _ _ type, value => type.Complete value
  | .integer, _ | .enum, _ | .null, _ | .bool, _ | .octetstring, _ | .bitstring, _ | .oid, _ | .any, _ => True

def Members.Complete : (members : Members) → members.Val → Prop
  | .nil, _ => True
  | .cons _ opt type rest, values =>
    (values.1 = none → opt = true) ∧ (∀ value, values.1 = some value → type.Complete value) ∧
      rest.Complete values.2

def Arms.Complete : (arms : Arms) → arms.Val → Prop
  | .cons _ _ _ _ _ type _, .inl value => type.Complete value
  | .cons _ _ _ _ _ _ rest, .inr value => rest.Complete value

end

def Handle.Tagged (o : Handle) : Option Tag → Prop
  | none => o.tClass = -1
  | some tag => o.tClass = tag.1 ∧ o.tTag = tag.2

theorem defaultTag_tagged {o : Handle} {tag : Option Tag} (tagged : o.Tagged tag) (zclass number : Nat) :
    (defaultTag zclass number o).tClass = (tag.getD (zclass, number)).1 ∧
      (defaultTag zclass number o).tTag = (tag.getD (zclass, number)).2 := by
  cases tag with
  | none =>
    have untagged : o.tClass = -1 := tagged
    rw [defaultTag, if_pos (by omega)]
    exact ⟨rfl, rfl⟩
  | some =>
    obtain ⟨isClass, isTag⟩ := tagged
    rw [defaultTag, if_neg (by omega)]
    exact ⟨isClass, isTag⟩

theorem returns_implicitSettag_bind_iff {α : Type} {o o' : Handle} (noError : o.error = none) (zclass tag : Int)
    (next : Bool → Codec α) (value : α) :
    Run.Returns (odrImplicitSettag zclass tag >>= next) o value o' ↔
      Run.Returns (next true) (defaultTag zclass tag o) value o' := by
  rw [odrImplicitSettag, Run.bind_bind, Run.returns_get_bind_iff, noError]
  simp only [Option.isSome_none, Bool.false_eq_true, if_false, Run.bind_bind, Run.returns_modify_bind_iff,
    Run.returns_pure_bind_iff]

end Yaz.Odr
