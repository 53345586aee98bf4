import Yaz.Odr.Built

/-! Reads of contents inside the buffer.

The readers of contents take the number of octets left, and none of them reads behind these.
-/

set_option autoImplicit false

namespace Yaz.Odr
open Yaz.Foundation Yaz.Ber Run

variable {o : Handle}

def Handle.Sized (o : Handle) : Prop := o.size = o.buf.length

theorem Handle.Sized.odrMax_le (sized : o.Sized) : odrMax o ≤ o.ahead.length := by
  rw [Handle.Sized] at sized
  simp only [odrMax, Handle.ahead, List.length_drop]
  omega

theorem Handle.Sized.declen (sized : o.Sized) : (berDeclen o.ahead (odrMax o)).isSome :=
  berDeclen_isSome sized.odrMax_le

section
variable {c : Contract Stop (Call × Handle)}

theorem bounds_declen {α : Type} {next : Int × Int → Codec α}
    (h : ∀ found, Triple c Handle.Sized (next found) fun _ => Handle.Sized) :
    Triple c Handle.Sized (do
      let o ← Run.get
      let found ← reading (berDeclen o.ahead (odrMax o))
      next found) fun _ => Handle.Sized := by
  intro o sized
  rw [upholds_get_bind_iff]
  refine upholds_reading_bind o (fun outside => ?_) fun found _ => h found o sized
  have := sized.declen
  simp [outside] at this

theorem Handle.Sized.readable (sized : o.Sized) {i : Nat} (room : i < odrMax o)
    (outside : o.buf[o.bp + i]? = none) : c.allowed .outOfRange := by
  rw [Handle.Sized] at sized
  simp only [odrMax] at room
  simp only [List.getElem?_eq_none_iff] at outside
  omega

theorem bounds_boolean : Triple c Handle.Sized berBooleanDecode fun _ => Handle.Sized := by
  apply bounds_declen
  rintro ⟨res, len⟩ o sized
  rw [upholds_ite_iff]
  split
  · simpa [Handle.Sized] using sized
  · rw [upholds_advance_bind_iff, upholds_get_bind_iff, upholds_ite_iff]
    have kept : (o.skip res.toNat).Sized := sized
    split
    · simpa [Handle.Sized] using kept
    next fits =>
      refine upholds_readAt_bind _ (kept.readable (by omega)) fun b found => ?_
      simpa [Handle.Sized] using kept

theorem bounds_oidGroup (len : Nat) (id : Int) :
    Triple c (fun o => o.Sized ∧ (len : Int) ≤ odrMax o) (oidGroup len id) fun group o =>
      o.Sized ∧ ∀ id left, group = some (id, left) → (left : Int) ≤ odrMax o := by
  induction len generalizing id with
  | zero =>
    rintro o ⟨sized, -⟩
    simpa [oidGroup, Handle.Sized] using sized
  | succ len ih =>
    rintro o ⟨sized, room⟩
    have kept : (o.skip 1).Sized := sized
    have left : (len : Int) ≤ odrMax (o.skip 1) := by
      simp only [odrMax, Handle.skip_size, Handle.skip_bp] at room ⊢
      omega
    refine upholds_readAt_bind _ (sized.readable (by omega)) fun b found => ?_
    rw [upholds_advance_bind_iff, upholds_ite_iff]
    split
    · exact ih _ _ ⟨kept, left⟩
    · rw [upholds_pure_iff]
      refine ⟨kept, ?_⟩
      rintro _ _ same
      obtain ⟨-, rfl⟩ := same
      exact left

theorem bounds_oidGroups (outOfRounds : c.allowed .outOfRounds) (maxOidSize rounds len : Nat) (arcs : List Int) :
    Triple c (fun o => o.Sized ∧ (len : Int) ≤ odrMax o) (oidGroups maxOidSize rounds len arcs)
      fun _ => Handle.Sized := by
  induction rounds generalizing len arcs with
  | zero =>
    cases len with
    | zero => rw [oidGroups]; exact .pure fun _ kept => kept.1
    | succ =>
      rintro o -
      simpa [oidGroups] using outOfRounds
  | succ _ ih =>
    cases len with
    | zero => rw [oidGroups]; exact .pure fun _ kept => kept.1
    | succ len =>
      rw [oidGroups]
      refine .bind (bounds_oidGroup (len + 1) 0) ?_
      rintro (_ | ⟨id, left⟩) o ⟨sized, room⟩
      · simpa [Handle.Sized] using sized
      · dsimp only
        rw [upholds_ite_iff]
        split
        · simpa [Handle.Sized] using sized
        · rw [upholds_ite_iff]
          split
          · simpa [Handle.Sized] using sized
          · exact ih left _ o ⟨sized, room id left rfl⟩

theorem bounds_oidc (outOfRounds : c.allowed .outOfRounds) (maxOidSize : Nat) :
    Triple c Handle.Sized (berOidcDecode maxOidSize) fun _ => Handle.Sized := by
  apply bounds_declen
  rintro ⟨res, len⟩ o sized
  rw [upholds_ite_iff]
  split
  · simpa [Handle.Sized] using sized
  · rw [upholds_ite_iff]
    split
    · simpa [Handle.Sized] using sized
    next definite =>
      rw [upholds_advance_bind_iff, upholds_get_bind_iff, upholds_ite_iff]
      have kept : (o.skip res.toNat).Sized := sized
      split
      · simpa [Handle.Sized] using sized
      next fits =>
        refine (bounds_oidGroups outOfRounds maxOidSize len.toNat len.toNat [] _ ⟨kept, by omega⟩).bind ?_
        rintro (_ | arcs) t reached
        · simpa using reached
        · dsimp only
          rw [upholds_ite_iff]
          split
          · simpa [Handle.Sized] using reached
          · simpa [Handle.Sized] using reached

theorem Handle.Sized.slice? (sized : o.Sized) {i len : Nat}
    (room : (i + len : Nat) ≤ odrMax o) (outside : Odr.slice? o.buf (o.bp + i) len = none) :
    c.allowed .outOfRange := by
  rw [Handle.Sized] at sized
  simp only [odrMax] at room
  rw [Odr.slice?, if_pos (by omega)] at outside
  simp at outside

theorem bounds_octetContents (len : Int) :
    Triple c Handle.Sized (octetContents len) fun _ => Handle.Sized := by
  intro o sized
  rw [octetContents, upholds_get_bind_iff, upholds_ite_iff]
  split
  · simpa [Handle.Sized] using sized
  · rw [upholds_ite_iff]
    split
    · simpa [Handle.Sized] using sized
    next positive fits =>
      refine upholds_reading_bind _ (sized.slice? (o := o) (i := 0) (by omega)) fun octets found => ?_
      simpa [Handle.Sized] using sized

theorem bounds_bitContents (bits : List UInt8) (len : Int) :
    Triple c Handle.Sized (bitContents bits len) fun _ => Handle.Sized := by
  intro o sized
  rw [bitContents, upholds_get_bind_iff, upholds_ite_iff]
  split
  · simpa [Handle.Sized] using sized
  · rw [upholds_ite_iff]
    split
    · simpa [Handle.Sized] using sized
    · rw [upholds_ite_iff]
      split
      · simpa [Handle.Sized] using sized
      · rw [upholds_ite_iff]
        split
        · simpa [Handle.Sized] using sized
        next positive nonempty short fits =>
          refine upholds_reading_bind _ (sized.slice? (by omega)) fun octets found => ?_
          simpa [Handle.Sized] using sized

end

end Yaz.Odr
