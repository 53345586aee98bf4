import Yaz.Odr.Decoding
import Yaz.Odr.Encoding

/-! Decoding what was encoded gives the value back. -/

set_option autoImplicit false

namespace Yaz.Odr
open Yaz.Foundation Run

theorem writable_encoding : Handle.Writable encoding none where
  steady := ⟨rfl, Nat.le_refl _, rfl⟩
  start := fun _ => rfl
  error := rfl
  lenlen := rfl
  tagged := rfl

theorem left_decoding (octets : List UInt8) : (decoding octets).Left octets where
  inside := ⟨rfl, Nat.zero_le _⟩
  error := rfl
  bias := rfl
  ahead := ⟨[], (List.append_nil octets).symm⟩
  encloses := rfl
  cache := fun filled => absurd filled (show ¬ (0 : Int) ≤ -1 by decide)

def Ty.RoundTrips (type : Ty) (value : type.Val) : Prop :=
  ∀ (opt opt' : Bool) (name name' : Option String) (e : Handle),
    Returns (type.encode (some value) opt name) encoding true e →
      ∃ o, Returns (type.decode opt' name') (decoding e.text) (true, some value) o ∧
        o.bp = e.text.length ∧ o.error = none

theorem Ty.roundTrips {type : Ty} (wellFormed : type.WellFormed) (shallow : type.nesting ≤ odrMaxStack)
    {value : type.Val} (legal : type.Legal value) : type.RoundTrips value := by
  intro opt opt' name name' e encoded
  obtain ⟨wrote, complete⟩ := (type.encodable wellFormed).value opt name writable_encoding (by simp) legal true e encoded
  -- both directions meet at the octets of the value
  have text : e.text = type.octets none value := wrote.text
  obtain ⟨o, decoded, consumed⟩ := type.decodable wellFormed none value opt' name' (decoding e.text) [] rfl (by simp)
    (by simp) legal complete (by rw [List.append_nil, text]; exact left_decoding _) (by simpa [decoding] using shallow)
  refine ⟨o, decoded, ?_, consumed.error⟩
  rw [consumed.bp, text]
  exact Nat.zero_add _

/-- `SEQUENCE { a [0] IMPLICIT INTEGER OPTIONAL, b [1] EXPLICIT OCTET STRING OPTIONAL,
c CHOICE { d NULL, e [2] IMPLICIT OBJECT IDENTIFIER }, f SEQUENCE OF INTEGER }`. -/
def sampleType : Ty :=
  .sequence <|
    .cons "a" true (.implicit 2 0 .integer) <|
    .cons "b" true (.explicit 2 1 .octetstring) <|
    .cons "c" false (.choice (.cons .none 0 0 1 "d" .null (.cons .implicit 2 2 2 "e" .oid .nil))) <|
    .cons "f" false (.sequenceOf .integer) .nil

def sampleValue : sampleType.Val :=
  (none, some [1, 2, 3], some (.inr (.inl [1, 2, 840])), some [some (5 : BitVec 64), some (-300 : BitVec 64)], ())

theorem sample_roundTrips : sampleType.RoundTrips sampleValue ∧
    (sampleType.encode (some sampleValue) false none encoding).outcome = .returned true := by
  refine ⟨Ty.roundTrips ?_ (by decide) ?_, by decide⟩
  · simp [sampleType, Ty.WellFormed, Members.WellFormed, Arms.WellFormed, Ty.tags, Members.firsts, Arms.tags, Ty.taggable,
      Tag.Legal]
  · simp only [sampleType, sampleValue, Ty.Legal, Members.Legal]
    refine ⟨by simp, ?_, ?_, ?_, trivial⟩
    · rintro _ ⟨⟩
      decide
    · rintro _ ⟨⟩
      exact ⟨by decide, by decide, by decide, by decide, by decide⟩
    · rintro _ ⟨⟩
      exact fun _ _ => trivial

def zeroTagType : Ty :=
  .sequence (.cons "a" false .octetstring (.cons "b" false (.implicit 0 0 .null) .nil))

def zeroTagValue : zeroTagType.Val := (some (List.replicate 126 0), some (), ())

def accepted {α : Type} : Outcome Stop (Bool × Option α) → Bool
  | .returned (ret, _) => ret
  | .stopped _ => false

/-- `{1 50}` has the octets of `{2 10}`, and an element of tag UNIVERSAL 0 ends an enclosing element
of indefinite length. -/
theorem not_roundTrips_oid_zeroTag :
    ¬ Ty.oid.RoundTrips [1, 50] ∧ ¬ zeroTagType.RoundTrips zeroTagValue := by
  constructor
  · intro roundTrips
    obtain ⟨o, decoded, -⟩ := roundTrips false false none none _ ⟨by decide, rfl⟩
    have text : (Ty.oid.encode (some [1, 50]) false none encoding).state.text = [6, 1, 90] := by decide
    have other : (odrOidDecode false none (decoding [6, 1, 90])).outcome = .returned (true, some [2, 10]) := by
      decide +kernel
    rw [text] at decoded
    simp only [Ty.decode] at decoded
    have same : (Outcome.returned (true, some [1, 50]) : Outcome Stop (Bool × Option (List Int))) =
        .returned (true, some [2, 10]) := decoded.1.symm.trans other
    simp at same
  · intro roundTrips
    obtain ⟨o, decoded, -⟩ := roundTrips false false none none _ ⟨by decide +kernel, rfl⟩
    have rejected : accepted (zeroTagType.decode false none
        (decoding (zeroTagType.encode (some zeroTagValue) false none encoding).state.text)).outcome = false := by
      decide +kernel
    rw [decoded.1] at rejected
    simp [accepted] at rejected

end Yaz.Odr
