import Yaz.Odr.Space

/-! All or nothing: encoding a value into a buffer that cannot grow.

A value of a type takes its complete encoding and, where an `odr_write` comes last, one octet more.
-/

set_option autoImplicit false

namespace Yaz.Odr
open Yaz.Foundation Yaz.Ber Run

variable {o : Handle} {outer : Option Tag}

/-! ### Types and members -/

mutual

def Ty.Plain : Ty → Prop
  | .integer | .octetstring | .bitstring | .oid => True
  | .sequence members => members.Plain
  | .implicit _ tag type => tag < 2 ^ 28 ∧ type.Plain
  | .enum | .bool | .null | .any | .sequenceOf _ | .choice _ | .explicit _ _ _ => False

def Members.Plain : Members → Prop
  | .nil => True
  | .cons _ _ type rest => type.Plain ∧ rest.Plain

end

mutual

def Ty.encoded : (type : Ty) → Option Tag → type.Val → List UInt8
  | .integer, tag, val => primitive (tag.getD (0, 2)) (dropSign (integerOctets val))
  | .octetstring, tag, octets => primitive (tag.getD (0, 4)) octets
  | .bitstring, tag, bits => primitive (tag.getD (0, 3)) (0 :: bits)
  | .oid, tag, arcs => primitive (tag.getD (0, 6)) (oidOctets arcs)
  | .sequence members, tag, values => constructed (tag.getD (0, 16)) (members.encoded values)
  | .implicit zclass tag type, outer, value => type.encoded (some (outer.getD (zclass, tag))) value
  | .enum, _, _ | .bool, _, _ | .null, _, _ | .any, _, _ | .sequenceOf _, _, _ | .choice _, _, _
  | .explicit _ _ _, _, _ => []

def Members.encoded : (members : Members) → members.Val → List UInt8
  | .nil, _ => []
  | .cons _ _ type rest, values => Option.elim values.1 [] (type.encoded none) ++ rest.encoded values.2

end

mutual

/-- An `odr_write` comes last in the encoding of the value. -/
def Ty.endsInWrite : (type : Ty) → type.Val → Bool
  | .integer, _ => true
  | .octetstring, octets => !List.isEmpty octets
  | .bitstring, bits => !List.isEmpty bits
  | .sequence members, values => sequenceLast (members.encoded values) (members.endsInWrite values)
  | .implicit _ _ type, value => type.endsInWrite value
  | .oid, _ | .enum, _ | .bool, _ | .null, _ | .any, _ | .sequenceOf _, _ | .choice _, _ | .explicit _ _ _, _ => false

def Members.endsInWrite : (members : Members) → members.Val → Bool
  | .nil, _ => false
  | .cons _ _ type rest, values =>
    if rest.encoded values.2 = [] then Option.elim values.1 false type.endsInWrite else rest.endsInWrite values.2

end

mutual

def Ty.HasEncoding : (type : Ty) → type.Val → Prop
  | .oid, arcs => OidEncodable arcs
  | .sequence members, values => members.HasEncoding values
  | .implicit _ _ type, value => type.HasEncoding value
  | .integer, _ | .octetstring, _ | .bitstring, _ | .enum, _ | .bool, _ | .null, _ | .any, _ | .sequenceOf _, _
  | .choice _, _ | .explicit _ _ _, _ => True

def Members.HasEncoding : (members : Members) → members.Val → Prop
  | .nil, _ => True
  | .cons _ opt type rest, values =>
    ((values.1 = none → opt = true) ∧ ∀ value, values.1 = some value → type.HasEncoding value) ∧
      rest.HasEncoding values.2

end

def Guarded {α : Type} (run : Option α → Bool → Option String → Codec Bool) : Prop :=
  ∀ (p : Option α) (opt : Bool) (name : Option String) (o : Handle), o.error.isSome →
    Returns (run p opt name) o false o

theorem guarded_element {α : Type} (number : Int) (contents : α → Codec Bool) :
    Guarded fun p opt name => odrElementEncode number p opt name contents := by
  intro p opt name o failed
  unfold odrElementEncode
  rw [returns_get_bind_iff, if_pos failed, returns_pure_iff]
  exact ⟨rfl, rfl⟩

theorem guarded_sequence {α : Type} (members : α → Codec Bool) :
    Guarded fun p opt name => sequenceEncode members p opt name := by
  intro p opt name o failed
  have begins : Returns (odrSequenceBeginEncode p.isSome name) o false o := by
    rw [odrSequenceBeginEncode, returns_get_bind_iff, if_pos failed, returns_pure_iff]
    exact ⟨rfl, rfl⟩
  have missing : Returns (odrMissing opt name) o false o := by
    rw [odrMissing, returns_get_bind_iff, if_pos failed, returns_pure_iff]
    exact ⟨rfl, rfl⟩
  unfold sequenceEncode
  refine begins.bind ?_
  rw [if_neg (by simp)]
  refine missing.bind ?_
  rw [returns_get_bind_iff, returns_pure_iff]
  exact ⟨rfl, rfl⟩

theorem Ty.guarded : ∀ type : Ty, type.Plain → Guarded type.encode
  | .integer, _ => by
    simp only [Ty.encode, Ty.Val]
    exact guarded_element 2 berIntegerEncode
  | .octetstring, _ => by
    simp only [Ty.encode, Ty.Val]
    exact guarded_element 4 _
  | .bitstring, _ => by
    simp only [Ty.encode, Ty.Val]
    exact guarded_element 3 berBitstringEncode
  | .oid, _ => by
    simp only [Ty.encode, Ty.Val]
    exact guarded_element 6 berOidcEncode
  | .sequence members, _ => by
    simp only [Ty.encode, Ty.Val]
    exact guarded_sequence members.encode
  | .implicit zclass tag type, plain => by
    intro p opt name o failed
    have settag : Returns (odrImplicitSettag zclass tag) o false o := by
      rw [odrImplicitSettag, returns_get_bind_iff, if_pos failed, returns_pure_iff]
      exact ⟨rfl, rfl⟩
    simp only [Ty.encode]
    exact settag.bind (type.guarded plain.2 p opt name o failed)

theorem Members.failed : ∀ (members : Members) (values : members.Val), members.Plain →
    ∀ (o o' : Handle), o.error.isSome → Returns (members.encode values) o true o' → o'.error.isSome
  | .nil, _, _, o, o', failed, h => by
    exact h.2 ▸ failed
  | .cons name opt type rest, values, plain, o, o', failed, h => by
    rw [Members.encode, returns_bind_iff] at h
    obtain ⟨done, q, first, h⟩ := h
    obtain ⟨rfl, rfl⟩ := (type.guarded plain.1 values.1 opt (some name) o failed).unique first
    simp at h

theorem Ty.encoded_ne_nil : ∀ (type : Ty) (outer : Option Tag) (value : type.Val), type.Plain →
    type.encoded outer value ≠ []
  | .integer, _, _, _ | .octetstring, _, _, _ | .bitstring, _, _, _ | .oid, _, _, _ | .sequence _, _, _, _ => by
    simp only [Ty.encoded]
    exact List.append_ne_nil_of_left_ne_nil (enctagOctets_ne_nil _ _ _) _
  | .implicit zclass tag type, outer, value, plain => by
    rw [Ty.encoded]
    exact type.encoded_ne_nil _ value plain.2

theorem Members.encoded_ne_nil : ∀ (members : Members) (values : members.Val), members.Plain →
    members.endsInWrite values = true → members.encoded values ≠ []
  | .nil, _, _, last => by simp [Members.endsInWrite] at last
  | .cons name opt type rest, values, plain, last => by
    rw [Members.endsInWrite] at last
    rw [Members.encoded]
    split at last
    next empty =>
      cases present : values.1 with
      | none => simp [present] at last
      | some value => exact List.append_ne_nil_of_left_ne_nil (type.encoded_ne_nil none value plain.1) _
    next more => exact List.append_ne_nil_of_right_ne_nil _ more

theorem Fits.congr {run : Codec Bool} {octets : List UInt8} {last : Bool} {good good' : Prop} (h : Fits run o octets last good)
    (same : good ↔ good') : Fits run o octets last good' := propext same ▸ h

theorem Fits.implicit {run : Codec Bool} {octets : List UInt8} {last : Bool} {good : Prop} (apt : o.Apt) (zclass tag : Int)
    (h : Fits run (defaultTag zclass tag o) octets last good) :
    Fits (do let _ ← odrImplicitSettag zclass tag; run) o octets last good := by
  obtain ⟨-, text, stack, top, size, canGrow⟩ := untouched_defaultTag apt zclass tag
  constructor
  · rintro o' ⟨ran, noError⟩
    rw [returns_implicitSettag_bind_iff apt.error] at ran
    obtain ⟨isGood, added, room⟩ := h.stores o' ⟨ran, noError⟩
    rw [canGrow, top, size] at room
    exact ⟨isGood, ⟨added.apt, fun fixed => (added.size (canGrow.trans fixed)).trans size, added.canGrow.trans canGrow,
      added.stack.trans stack, added.tClass, by rw [added.text, text]⟩, room⟩
  · intro fixed isGood room
    obtain ⟨o', ran, noError⟩ := h.succeeds (canGrow.trans fixed) isGood (by rw [top, size]; exact room)
    exact ⟨o', (returns_implicitSettag_bind_iff apt.error _ _ _ _).mpr ran, noError⟩

theorem contentsFit_octetstring_error (octets : List UInt8) :
    ContentsFit
      (do
        if ← berOctetstringEncode octets then pure true
        else do
          odrSeterror .other 43
          pure false)
      (lengthOctets octets.length ++ octets) (!octets.isEmpty) True := by
  intro o apt untagged
  have fits := contentsFit_octetstring octets o apt untagged
  have same (o' : Handle) : Succeeds (do
      if ← berOctetstringEncode octets then pure true
      else do
        odrSeterror .other 43
        pure false) o o' ↔ Succeeds (berOctetstringEncode octets) o o' := by
    rw [Succeeds, Succeeds, returns_bind_iff]
    refine and_congr_left fun _ => ⟨?_, fun h => ⟨true, o', h, by simp⟩⟩
    rintro ⟨done, middle, h, next⟩
    cases done with
    | true =>
      exact next.2 ▸ h
    | false =>
      simp at next
  refine ⟨fun o' h => fits.stores o' ((same o').mp h), fun fixed isGood room => ?_⟩
  obtain ⟨o', h⟩ := fits.succeeds fixed isGood room
  exact ⟨o', (same o').mpr h⟩

theorem Ty.fits_none : ∀ (type : Ty), type.Plain → ∀ {o : Handle} (opt : Bool) (name : Option String), o.Apt →
    (o.stack = [] → o.top = 0) → Fits (type.encode none opt name) o [] false (opt = true)
  | .integer, _, _, _, _, apt, start | .octetstring, _, _, _, _, apt, start | .bitstring, _, _, _, _, apt, start
  | .oid, _, _, _, _, apt, start => by
    simp only [Ty.encode, Ty.Val]
    exact fits_absent apt start
  | .sequence members, _, o, opt, name, apt, start => by
    simp only [Ty.encode, Ty.Val]
    exact fits_noSequence apt start
  | .implicit zclass tag type, plain, o, opt, name, apt, start => by
    obtain ⟨apt', -, stack, top, -⟩ := untouched_defaultTag apt zclass tag
    simp only [Ty.encode, Ty.Val]
    exact (type.fits_none plain.2 opt name apt' (by rw [stack, top]; exact start)).implicit apt zclass tag

theorem tag_small {number : Nat} (small : ∀ tag ∈ outer, tag.2 < 2 ^ 28) (own : number < 2 ^ 28) :
    (outer.getD (0, number)).2 < 2 ^ 28 := by
  cases outer with
  | none => exact own
  | some tag => exact small tag rfl

mutual

theorem Ty.fits : ∀ (type : Ty) (value : type.Val), type.Plain → ∀ {o : Handle} {outer : Option Tag} (opt : Bool)
    (name : Option String), o.Apt → (o.stack = [] → o.top = 0) → o.Tagged outer → (∀ tag ∈ outer, tag.2 < 2 ^ 28) →
      o.stack.length + type.nesting ≤ odrMaxStack →
        Fits (type.encode (some value) opt name) o (type.encoded outer value) (type.endsInWrite value)
          (type.HasEncoding value)
  | .integer, value, _, o, outer, opt, name, apt, start, tagged, small, _ => by
    simp only [Ty.encode, Ty.encoded, Ty.endsInWrite, Ty.HasEncoding]
    exact fits_element apt start tagged (tag_small small (by decide)) (contentsFit_integer value)
  | .octetstring, value, _, o, outer, opt, name, apt, start, tagged, small, _ => by
    simp only [Ty.encode, Ty.encoded, Ty.endsInWrite, Ty.HasEncoding]
    exact fits_element apt start tagged (tag_small small (by decide)) (contentsFit_octetstring_error value)
  | .bitstring, value, _, o, outer, opt, name, apt, start, tagged, small, _ => by
    simp only [Ty.encode, Ty.encoded, Ty.endsInWrite, Ty.HasEncoding]
    exact fits_element apt start tagged (tag_small small (by decide)) (contentsFit_bitstring value)
  | .oid, value, _, o, outer, opt, name, apt, start, tagged, small, _ => by
    simp only [Ty.encode, Ty.encoded, Ty.endsInWrite, Ty.HasEncoding]
    exact fits_element apt start tagged (tag_small small (by decide)) (contentsFit_oid value)
  | .sequence members, values, plain, o, outer, opt, name, apt, start, tagged, small, shallow => by
    rw [Ty.nesting] at shallow
    simp only [Ty.encode, Ty.encoded, Ty.endsInWrite, Ty.HasEncoding]
    refine fits_sequence apt start tagged (tag_small small (by decide)) (by omega)
      (members.encoded_ne_nil values plain) fun p begun => ?_
    obtain ⟨entry, stack, -⟩ := begun.stack
    refine members.fits values plain begun.apt (by rw [stack]; simp) begun.tClass ?_
    rw [stack, List.length_cons]
    omega
  | .implicit zclass tag type, value, plain, o, outer, opt, name, apt, start, tagged, small, shallow => by
    obtain ⟨apt', -, stack, top, -⟩ := untouched_defaultTag apt zclass tag
    simp only [Ty.encode, Ty.encoded, Ty.endsInWrite, Ty.HasEncoding]
    have tagged' : Handle.Tagged (defaultTag zclass tag o) (some (outer.getD (zclass, tag))) :=
      defaultTag_tagged tagged zclass tag
    refine (type.fits value plain.2 opt name apt' (by rw [stack, top]; exact start) tagged' ?_
      (by rw [stack]; exact shallow)).implicit apt zclass tag
    -- the tag that was set before stays
    rintro _ ⟨⟩
    cases outer with
    | none => exact plain.1
    | some before => exact small before rfl

theorem Members.fits : ∀ (members : Members) (values : members.Val), members.Plain → ∀ {o : Handle}, o.Apt →
    o.stack ≠ [] → o.tClass = -1 → o.stack.length + members.nesting ≤ odrMaxStack →
      Fits (members.encode values) o (members.encoded values) (members.endsInWrite values) (members.HasEncoding values)
  | .nil, _, _, o, apt, _, untagged, _ => by
    rw [Members.encode, Members.encoded, Members.endsInWrite, Members.HasEncoding]
    have nothing : Added o o [] := ⟨apt, fun _ => rfl, rfl, rfl, untagged, (List.append_nil _).symm⟩
    constructor
    · rintro o' ⟨h, -⟩
      obtain ⟨-, rfl⟩ := h
      exact ⟨trivial, nothing, fun fixed => (apt.sized fixed).1⟩
    · intro _ _ _
      exact ⟨o, (returns_pure_iff _ _ _ _).mpr ⟨rfl, rfl⟩, apt.error⟩
  | .cons name opt type rest, (first, values), plain, o, apt, inside, untagged, shallow => by
    rw [Members.nesting] at shallow
    simp only [Members.encode, Members.encoded, Members.endsInWrite, Members.HasEncoding]
    have later (p : Handle) {octets : List UInt8} (added : Added o p octets) :
        Fits (rest.encode values) p (rest.encoded values) (rest.endsInWrite values) (rest.HasEncoding values) :=
      rest.fits values plain.2 added.apt (by rw [added.stack]; exact inside) added.tClass
        (by rw [added.stack]; omega)
    have keeps := rest.failed values plain.2
    have some_ := rest.encoded_ne_nil values plain.2
    cases first with
    | none =>
      have none_ := (type.fits_none plain.1 opt (some name) apt fun outermost => absurd outermost inside).congr
        (show opt = true ↔ ((none : Option type.Val) = none → opt = true) ∧
          ∀ value : type.Val, none = some value → type.HasEncoding value by simp)
      exact none_.andThen apt (fun p added => later p added) some_ keeps
    | some value =>
      have untagged' : o.Tagged none := untagged
      have one := (type.fits value plain.1 opt (some name) apt (fun outermost => absurd outermost inside) untagged'
        (by simp) (by omega)).congr
        (show type.HasEncoding value ↔ (some value = none → opt = true) ∧
          ∀ other : type.Val, some value = some other → type.HasEncoding other by simp)
      exact one.andThen apt (fun p added => later p added) some_ keeps

end

/-! ### The calls into a buffer of a given size -/

/-- The buffer of an `odr_setbuf` with `can_grow` 0. -/
def fixedBuffer (size : Nat) : Handle := { size := size, canGrow := false }

theorem apt_fixedBuffer {size : Nat} (most : size ≤ intMax) : (fixedBuffer size).Apt :=
  ⟨rfl, Nat.le_refl _, fun _ => ⟨Nat.zero_le _, most⟩, rfl, rfl⟩

theorem apt_encoding : encoding.Apt := ⟨rfl, Nat.le_refl _, fun fixed => absurd fixed (by decide), rfl, rfl⟩

inductive EncodeCall where
  | integer (val : BitVec 64)
  | octetstring (octets : List UInt8)
  | oidc (arcs : List Int)
  | bitstring (bits : List UInt8)
  | sequence (members : Members) (values : members.Val) (opt : Bool) (name : Option String)

namespace EncodeCall

def run : EncodeCall → Codec Bool
  | .integer val => berIntegerEncode val
  | .octetstring octets => berOctetstringEncode octets
  | .oidc arcs => berOidcEncode arcs
  | .bitstring bits => berBitstringEncode bits
  | .sequence members values opt name => (Ty.sequence members).encode (some values) opt name

/-- The complete encoding; the `ber_` functions write no identifier. -/
def octets : EncodeCall → List UInt8
  | .integer val => lengthOctets (dropSign (integerOctets val)).length ++ dropSign (integerOctets val)
  | .octetstring octets => lengthOctets octets.length ++ octets
  | .oidc arcs => lengthOctets (oidOctets arcs).length ++ oidOctets arcs
  | .bitstring bits => lengthOctets (bits.length + 1) ++ 0 :: bits
  | .sequence members values _ _ => (Ty.sequence members).encoded none values

def endsInWrite : EncodeCall → Bool
  | .integer _ => true
  | .octetstring octets => !octets.isEmpty
  | .oidc _ => false
  | .bitstring bits => !bits.isEmpty
  | .sequence members values _ _ => (Ty.sequence members).endsInWrite values

def HasEncoding : EncodeCall → Prop
  | .oidc arcs => OidEncodable arcs
  | .sequence members values _ _ => members.HasEncoding values
  | .integer _ | .octetstring _ | .bitstring _ => True

def Plain : EncodeCall → Prop
  | .sequence members _ _ _ => members.Plain ∧ members.nesting < odrMaxStack
  | .integer _ | .octetstring _ | .oidc _ | .bitstring _ => True

/-- Success, if and only if the complete encoding has at most `size` octets, which are then the text. -/
def AllOrNothing (call : EncodeCall) (size : Nat) : Prop :=
  ((∃ o, Succeeds call.run (fixedBuffer size) o) ↔ call.HasEncoding ∧ call.octets.length ≤ size) ∧
    ∀ o, Succeeds call.run (fixedBuffer size) o → o.text = call.octets

theorem fits {call : EncodeCall} (plain : call.Plain) (apt : o.Apt) (outermost : o.stack = []) (empty : o.top = 0)
    (untagged : o.tClass = -1) : Fits call.run o call.octets call.endsInWrite call.HasEncoding := by
  cases call with
  | integer val => exact contentsFit_integer val o apt untagged
  | octetstring octets => exact contentsFit_octetstring octets o apt untagged
  | oidc arcs => exact contentsFit_oid arcs o apt untagged
  | bitstring bits => exact contentsFit_bitstring bits o apt untagged
  | sequence members values opt name =>
    obtain ⟨plain, shallow⟩ := plain
    have tagged : o.Tagged none := untagged
    have deep : o.stack.length + (Ty.sequence members).nesting ≤ odrMaxStack := by
      rw [outermost, List.length_nil, Ty.nesting]
      omega
    have one := (Ty.sequence members).fits values plain opt name apt (fun _ => empty) tagged (by simp) deep
    exact one.congr (by simp only [Ty.HasEncoding, HasEncoding])

/-- The encoding is written if and only if there is room for it and, where an `odr_write` comes last, for one
octet more. -/
theorem succeeds_fixedBuffer_iff {call : EncodeCall} (plain : call.Plain) {size : Nat} (most : size ≤ intMax) :
    (∃ o, Succeeds call.run (fixedBuffer size) o) ↔
      call.HasEncoding ∧ call.octets.length + call.endsInWrite.toNat ≤ size := by
  have fits := fits plain (apt_fixedBuffer most) rfl rfl rfl
  have here : (fixedBuffer size).top = 0 ∧ (fixedBuffer size).size = size := ⟨rfl, rfl⟩
  constructor
  · rintro ⟨o, h⟩
    obtain ⟨isGood, -, room⟩ := fits.stores o h
    have enough := room rfl
    exact ⟨isGood, by omega⟩
  · rintro ⟨isGood, room⟩
    exact fits.succeeds rfl isGood (by omega)

/-- A buffer that can grow gets the complete encoding. A buffer that cannot is filled with all or
nothing, except where its size is that of the encoding and an `odr_write` comes last. -/
theorem all_or_nothing_iff {call : EncodeCall} (plain : call.Plain) {size : Nat} (most : size ≤ intMax) :
    (∀ g, Succeeds call.run encoding g → call.HasEncoding ∧ g.text = call.octets) ∧
      (call.AllOrNothing size ↔
        ¬ (call.HasEncoding ∧ call.endsInWrite = true ∧ size = call.octets.length)) := by
  have texts (o : Handle) (h : Succeeds call.run (fixedBuffer size) o) : o.text = call.octets := by
    obtain ⟨-, added, -⟩ := (fits plain (apt_fixedBuffer most) rfl rfl rfl).stores o h
    exact added.text
  refine ⟨fun g h => ?_, ?_⟩
  · obtain ⟨isGood, added, -⟩ := (fits plain apt_encoding rfl rfl rfl).stores g h
    exact ⟨isGood, added.text⟩
  · rw [AllOrNothing, succeeds_fixedBuffer_iff plain most]
    cases call.endsInWrite with
    | false => simpa using texts
    | true =>
      rw [Bool.toNat_true]
      constructor
      · rintro ⟨room, -⟩ ⟨isGood, -, full⟩
        have more := (room.mpr ⟨isGood, Nat.le_of_eq full.symm⟩).2
        omega
      · intro other
        refine ⟨and_congr_right fun isGood => ?_, texts⟩
        have different : size ≠ call.octets.length := fun full => other ⟨isGood, rfl, full⟩
        omega

/-- `INTEGER 5` takes two octets, and a buffer of three. -/
theorem all_or_nothing_iff_five : (2 : Nat) ≤ intMax ∧ EncodeCall.Plain (.integer 5) ∧
    ¬ EncodeCall.AllOrNothing (.integer 5) 2 ∧ EncodeCall.AllOrNothing (.integer 5) 3 := by
  have few : (EncodeCall.integer 5).octets = [1, 5] := by decide
  refine ⟨by decide, trivial, ?_, ?_⟩
  · rw [(@all_or_nothing_iff (.integer 5) trivial 2 (by decide)).2, not_not, few]
    exact ⟨trivial, rfl, rfl⟩
  · rw [(@all_or_nothing_iff (.integer 5) trivial 3 (by decide)).2, few]
    simp

/-- The encoding of `INTEGER 5` has two octets, but is not written into two. -/
theorem not_all_or_nothing_full : ¬ ∀ (call : EncodeCall) (size : Nat), size ≤ intMax → call.AllOrNothing size := by
  intro claimed
  obtain ⟨room, -⟩ := claimed (.integer 5) 2 (by decide)
  obtain ⟨o, h, noError⟩ := room.mpr ⟨trivial, by decide⟩
  have refused : (berIntegerEncode 5 (fixedBuffer 2)).outcome = .returned false := by decide
  have same := h.1.symm.trans refused
  simp at same

end EncodeCall

end Yaz.Odr
