import Yaz.Ber.Values
import Yaz.Odr.Decode

/-! What the primitive decoders consume and what their results depend on. -/

set_option autoImplicit false

namespace Yaz.Odr
open List Yaz.Foundation Yaz.Ber Run

variable {α β : Type}

/-- The position is in the buffer, which has `size` octets. -/
structure Handle.Inside (o : Handle) : Prop where
  sized : o.size = o.buf.length
  position : o.bp ≤ o.buf.length

/-- On every handle whose next octets are `used`, the run returns `value`, advances past
`used` and changes nothing else. -/
def Consumes (run : Codec α) (value : α) (used : List UInt8) : Prop :=
  ∀ (o : Handle) (rest : List UInt8), o.Inside → o.ahead = used ++ rest →
    Returns run o value (o.skip used.length)

variable {o : Handle}

theorem Handle.Inside.length (inside : o.Inside) {used rest : List UInt8}
    (ahead : o.ahead = used ++ rest) : o.size = o.bp + used.length + rest.length := by
  obtain ⟨sized, position⟩ := inside
  have length := congrArg List.length ahead
  simp only [Handle.ahead, length_drop, length_append] at length
  omega

theorem Handle.Inside.advanced (inside : o.Inside) {used rest : List UInt8}
    (ahead : o.ahead = used ++ rest) : (o.skip used.length).Inside := by
  have length := inside.length ahead
  exact ⟨inside.sized, by have := inside.sized; simp only [Handle.skip_bp, Handle.skip_buf]; omega⟩

theorem Handle.ahead_advanced {used more rest : List UInt8}
    (ahead : o.ahead = used ++ more ++ rest) : (o.skip used.length).ahead = more ++ rest := by
  rw [Handle.ahead_skip, ahead, append_assoc, drop_left]

theorem Consumes.bind {first : Codec α} {next : α → Codec β} {middle : α} {value : β}
    {used more : List UInt8} (h : Consumes first middle used) (k : Consumes (next middle) value more) :
    Consumes (first >>= next) value (used ++ more) := by
  intro o rest inside ahead
  have before := append_assoc .. ▸ ahead
  have after := k _ rest (inside.advanced before) (o.ahead_advanced ahead)
  rw [Handle.skip_skip] at after
  rw [length_append]
  exact (h o (more ++ rest) inside before).bind after

theorem Consumes.pure (value : α) : Consumes (Pure.pure value : Codec α) value [] := by
  intro o rest inside ahead
  simp

theorem Handle.getElem?_of_ahead {b : UInt8} {rest : List UInt8} (ahead : o.ahead = b :: rest) :
    o.buf[o.bp]? = some b := by
  rw [← head?_drop]
  exact congrArg List.head? ahead

theorem Handle.ahead_of_getElem? {b : UInt8} (found : o.buf[o.bp]? = some b) :
    o.ahead = b :: (o.skip 1).ahead := by
  obtain ⟨below, rfl⟩ := List.getElem?_eq_some_iff.mp found
  exact drop_eq_getElem_cons below

variable {value : α}

theorem Consumes.readAt (b : UInt8) (next : UInt8 → Codec α) {used : List UInt8}
    (h : Consumes (next b) value (b :: used)) : Consumes (readAt 0 >>= next) value (b :: used) := by
  intro o rest inside ahead
  rw [returns_readAt_bind_iff]
  exact ⟨b, o.getElem?_of_ahead ahead, h o rest inside ahead⟩

theorem Consumes.advance (skipped : List UInt8) {next : Unit → Codec α} {used : List UInt8}
    (h : Consumes (next ()) value used) :
    Consumes (advance skipped.length >>= next) value (skipped ++ used) := by
  have skips : Consumes (Odr.advance skipped.length) () skipped := by
    intro o rest inside ahead
    simp [Odr.advance]
  exact skips.bind h

variable {octets used : List UInt8}

theorem Consumes.declen {next : Int × Int → Codec α} {len : Int}
    (declares : Declares octets len) (h : Consumes (next (octets.length, len)) value (octets ++ used)) :
    Consumes (do let o ← Run.get
                 let found ← reading (berDeclen o.ahead (odrMax o))
                 next found) value (octets ++ used) := by
  intro o rest inside ahead
  have length := inside.length ahead
  simp only [returns_get_bind_iff, returns_reading_bind_iff]
  refine ⟨(octets.length, len), ?_, h o rest inside ahead⟩
  rw [ahead, append_assoc, declares.read]
  simp only [odrMax, length_append] at length ⊢
  omega

variable {o o' : Handle}

theorem returns_declen_iff {next : Int × Int → Codec α} :
    Returns (do let o ← Run.get
                let found ← reading (berDeclen o.ahead (odrMax o))
                next found) o value o' ↔
      ∃ res len, berDeclen o.ahead (odrMax o) = some (res, len) ∧
        Returns (next (res, len)) o value o' := by
  simp only [returns_get_bind_iff, returns_reading_bind_iff, Prod.exists]

theorem berDecinteger_append {content : List UInt8} (declares : Declares octets content.length)
    (nonempty : content ≠ []) (short : content.length ≤ 8) (rest : List UInt8) {max : Int}
    (room : (octets.length + content.length : Nat) ≤ max) :
    berDecinteger (octets ++ content ++ rest) max =
      some (((octets.length + content.length : Nat) : Int), integerValue content) := by
  obtain ⟨b, tail, rfl⟩ := exists_cons_of_ne_nil nonempty
  rw [berDecinteger, append_assoc, declares.read _ _ (by omega)]
  dsimp only
  rw [if_neg (by omega), if_neg (by omega), if_neg (by omega), Int.toNat_natCast, drop_left]
  dsimp only [cons_append]
  rw [if_neg (by simp only [length_cons, length_append, Int.toNat_natCast]; omega)]
  have front : (b :: (tail ++ rest)).take (b :: tail).length = b :: tail := by
    rw [← cons_append, take_left]
  simp only [Int.toNat_natCast, front, integerValue, head?_cons, Option.any_some, decide_eq_true_eq,
    Nat.cast_add]

theorem consumes_integer {content : List UInt8} (declares : Declares octets content.length)
    (nonempty : content ≠ []) (short : content.length ≤ 8) :
    Consumes berIntegerDecode (some (integerValue content)) (octets ++ content) := by
  intro o rest inside ahead
  have length := inside.length ahead
  have positive := length_pos_iff.mpr nonempty
  simp only [length_append] at length
  simp only [berIntegerDecode, returns_enter_bind_iff, returns_get_bind_iff, returns_reading_bind_iff]
  refine ⟨_, by rw [ahead, berDecinteger_append declares nonempty short]; simp only [odrMax]; omega, ?_⟩
  rw [if_neg (by omega), Int.toNat_natCast, returns_advance_bind_iff, returns_pure_iff, length_append]
  exact ⟨rfl, rfl⟩

variable {octets : List UInt8}

theorem consumes_boolean (declares : Declares octets 1) (b : UInt8) :
    Consumes berBooleanDecode (some (signedChar b)) (octets ++ [b]) := by
  apply Consumes.declen declares
  dsimp only
  rw [if_neg (by omega), Int.toNat_natCast]
  apply Consumes.advance
  intro o rest inside ahead
  have length := inside.length ahead
  rw [returns_get_bind_iff, if_neg (by simp only [odrMax, length_singleton] at length ⊢; omega),
    returns_readAt_bind_iff]
  refine ⟨b, o.getElem?_of_ahead ahead, ?_⟩
  simp

theorem Handle.Inside.slice? (inside : o.Inside) {content rest : List UInt8}
    (ahead : o.ahead = content ++ rest) :
    Odr.slice? o.buf o.bp content.length = some content := by
  have length := inside.length ahead
  have sized := inside.sized
  rw [Handle.ahead] at ahead
  rw [Odr.slice?, if_pos (by omega), ahead, take_left]

theorem consumes_octetContents (content : List UInt8) :
    Consumes (octetContents content.length) (some content) content := by
  intro o rest inside ahead
  have length := inside.length ahead
  rw [octetContents, returns_get_bind_iff, if_neg (by omega),
    if_neg (by simp only [odrMax]; omega), Int.toNat_natCast]
  simp [inside.slice? ahead]

variable (bits : List UInt8)

theorem consumes_bitContents_nil : Consumes (bitContents bits 0) (some bits) [] := by
  intro o rest inside ahead
  simp [bitContents]

theorem consumes_bitContents (unused : UInt8) {content : List UInt8}
    (short : content.length ≤ odrBitmaskSize) :
    Consumes (bitContents bits (content.length + 1 : Nat)) (some (bits ++ content)) (unused :: content) := by
  intro o rest inside ahead
  have length := inside.length ahead
  replace ahead : o.ahead = [unused] ++ content ++ rest := ahead
  have found := Handle.Inside.slice? (inside.advanced (append_assoc .. ▸ ahead)) (o.ahead_advanced ahead)
  simp only [length_cons, length_nil, Nat.zero_add, Handle.skip_buf, Handle.skip_bp] at found length
  rw [bitContents, returns_get_bind_iff, if_neg (by omega), if_neg (by omega), if_neg (by omega),
    if_neg (by simp only [odrMax]; omega), Int.toNat_natCast]
  simp [found]

theorem consumes_string {len : Int} (declares : Declares octets len)
    {primitive : Int → Codec (Option (List UInt8))} {value : List UInt8}
    (h : Consumes (primitive len) (some value) used) (lengthId : Nat) (chunk : Codec Bool) (rounds : Nat) :
    Consumes (berStringDecode lengthId primitive chunk rounds 0) (some value) (octets ++ used) := by
  apply Consumes.declen declares
  dsimp only
  rw [if_neg (by omega), Int.toNat_natCast]
  apply Consumes.advance
  rw [if_neg (by simp)]
  exact h

theorem oidGroup_consumes {len left : Nat} {id value : Int}
    (h : Returns (oidGroup len id) o (some (value, left)) o') :
    ∃ used rest, o.ahead = used ++ rest ∧ o' = o.skip used.length ∧
      len = used.length + left ∧ used ≠ [] ∧ Consumes (oidGroup len id) (some (value, left)) used := by
  induction len generalizing id o with
  | zero => simp [oidGroup] at h
  | succ _ ih =>
    rw [oidGroup, returns_readAt_bind_iff] at h
    obtain ⟨b, found, h⟩ := h
    have ahead := o.ahead_of_getElem? found
    split at h
    next more =>
      obtain ⟨used, rest, next, rfl, rfl, -, consumes⟩ := ih h
      refine ⟨b :: used, rest, by rw [ahead, next]; rfl, by simp [Nat.add_comm], by simp; omega, by simp, ?_⟩
      rw [oidGroup]
      apply Consumes.readAt
      refine Consumes.advance [b] ?_
      rw [if_pos more]
      exact consumes
    next last =>
      obtain ⟨same, rfl⟩ := h
      obtain ⟨rfl, rfl⟩ := same
      refine ⟨[b], _, ahead, rfl, by simp; omega, by simp, ?_⟩
      rw [oidGroup]
      apply Consumes.readAt
      refine Consumes.advance [b] (?_ : Consumes _ _ [])
      rw [if_neg last]
      exact Consumes.pure _

theorem oidGroups_consumes {maxOidSize rounds len : Nat} {arcs arcs' : List Int}
    (h : Returns (oidGroups maxOidSize rounds len arcs) o (some arcs') o') :
    ∃ used rest, o.ahead = used ++ rest ∧ o' = o.skip used.length ∧
      len = used.length ∧ Consumes (oidGroups maxOidSize rounds len arcs) (some arcs') used := by
  induction rounds generalizing len arcs o with
  | zero =>
    cases len with
    | zero =>
      rw [oidGroups, returns_pure_iff] at h
      obtain ⟨same, rfl⟩ := h
      refine ⟨[], _, rfl, rfl, rfl, ?_⟩
      rw [oidGroups, same]
      exact Consumes.pure _
    | succ => simp [oidGroups] at h
  | succ _ ih =>
    cases len with
    | zero =>
      rw [oidGroups, returns_pure_iff] at h
      obtain ⟨same, rfl⟩ := h
      refine ⟨[], _, rfl, rfl, rfl, ?_⟩
      rw [oidGroups, same]
      exact Consumes.pure _
    | succ =>
      rw [oidGroups, returns_bind_iff] at h
      obtain ⟨group, middle, first, h⟩ := h
      cases group with
      | none => simp at h
      | some group =>
        obtain ⟨id, left⟩ := group
        obtain ⟨front, tail, ahead, rfl, length, -, firstConsumes⟩ := oidGroup_consumes first
        dsimp only at h
        split at h
        · simp at h
        next positive =>
          split at h
          · simp at h
          next room =>
            obtain ⟨back, rest, next, rfl, rfl, consumes⟩ := ih h
            refine ⟨front ++ back, rest, ?_, by simp, by simpa using length, ?_⟩
            · rw [ahead, append_assoc, ← next, Handle.ahead_skip, ahead, drop_left]
            · rw [oidGroups]
              refine firstConsumes.bind ?_
              dsimp only
              rw [if_neg positive, if_neg room]
              exact consumes

theorem consumes_oidc {maxOidSize : Nat} {arcs : List Int}
    (declares : Declares octets used.length)
    (h : Consumes (oidGroups maxOidSize used.length used.length []) (some arcs) used)
    (legal : ¬ (arcs.length < 2 ∨ arcs.head?.any (· < 0) ∨ arcs[1]?.any (· < 0))) :
    Consumes (berOidcDecode maxOidSize) (some arcs) (octets ++ used) := by
  have positive := length_pos_iff.mpr declares.nonempty
  apply Consumes.declen declares
  dsimp only
  rw [if_neg (by omega), if_neg (by omega), Int.toNat_natCast]
  apply Consumes.advance
  intro o rest inside ahead
  have length := inside.length ahead
  rw [returns_get_bind_iff, if_neg (by simp only [odrMax]; omega), Int.toNat_natCast, returns_bind_iff]
  refine ⟨_, _, h o rest inside ahead, ?_⟩
  dsimp only
  rw [if_neg legal, returns_pure_iff]
  exact ⟨rfl, rfl⟩

end Yaz.Odr
