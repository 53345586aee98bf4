import Yaz.Pqf.Printer

/-! What a facet asks for: `yaz_facet_attr_get_z_attributes` of `facet.c`. -/

set_option autoImplicit false

namespace Yaz.Pqf
open Yaz.Comstack (ascii)

inductive FacetError where
  | unsuppAttributeCombi
  | unsuppAttribute
  | unsuppAttributeType
  deriving DecidableEq

/-- `struct yaz_facet_attr`. -/
structure FacetAttr where
  error : Option (FacetError × List UInt8) := none
  useattr : Option (List UInt8) := none
  sortorder : Int32 := 0
  limit : Int32 := 0
  start : Int32 := 0
  deriving DecidableEq

section
variable {Oid : Type}

/-- `stringattr`: the first string. -/
def stringattr (list : List StringOrNumeric) : Option (List UInt8) :=
  list.findSome? fun
    | .string octets => some octets
    | .numeric _ => none

/-- `useattr`; a number takes the place of what was there. -/
def useattr (ae : AttributeElement Oid) (av : FacetAttr) : FacetAttr :=
  match ae.value with
  | .numeric n => { av with useattr := some (intText n.toInt) }
  | .complex list =>
    match stringattr list with
    | none => { av with error := some (.unsuppAttributeCombi, ascii "non-string complex attribute") }
    | some octets =>
      match av.useattr with
      | none => { av with useattr := some octets }
      | some _ => { av with error := some (.unsuppAttributeCombi, ascii "multiple use attributes") }

/-- `numattr`, with the field that it sets; an `int` takes the low half of the value. -/
def numattr (ae : AttributeElement Oid) (av : FacetAttr) (set : Int32 → FacetAttr) : FacetAttr :=
  match ae.value with
  | .numeric n => set n.toInt32
  | .complex _ => { av with error := some (.unsuppAttribute, ascii "non-numeric limit/sort/start attribute") }

def facetAttribute (ae : AttributeElement Oid) (av : FacetAttr) : FacetAttr :=
  if ae.attributeType = 1 then useattr ae av
  else if ae.attributeType = 2 then numattr ae av fun sortorder => { av with sortorder }
  else if ae.attributeType = 3 then numattr ae av fun limit => { av with limit }
  else if ae.attributeType = 4 then numattr ae av fun start => { av with start }
  else { av with error := some (.unsuppAttributeType, intText ae.attributeType.toInt) }

/-- `yaz_facet_attr_get_z_attributes`, up to the first error. -/
def yazFacetAttrGetZAttributes : List (AttributeElement Oid) → FacetAttr → FacetAttr
  | [], av => av
  | ae :: rest, av =>
    let av := facetAttribute ae av
    if av.error.isSome then av else yazFacetAttrGetZAttributes rest av

end

end Yaz.Pqf
