import Yaz.Odr.Storing
import Yaz.Odr.Reading
import Mathlib.Data.List.TakeWhile

/-! Which lengths, integers, object identifiers and tags come back as they were written, and which
octets are read as what they stand for. -/

set_option autoImplicit false

namespace Yaz.Odr
open List Yaz.Foundation Yaz.Ber Run

theorem not_consumes_long {octets : List UInt8} (long : 2 ^ 24 ≤ octets.length) (small : octets.length ≤ intMax)
    (chunk : Codec Bool) (rounds : Nat) :
    ¬ Consumes (berStringDecode 14 octetContents chunk rounds 0) (some octets) (lengthOctets octets.length ++ octets) := by
  intro consumes
  rw [intMax] at small
  obtain ⟨front, emits, -, -, most⟩ := base256_front (show octets.length < 256 ^ 4 by omega) (by simp) []
  rw [append_nil] at emits
  have four := most 3 (by omega)
  have three := base256_length_le_three (show octets.length < 256 ^ 4 by omega)
  rw [emits] at three
  have form : lengthOctets octets.length = UInt8.ofNat (front.length + 128) :: front := by
    rw [lengthOctets, if_neg (by omega), emits]
  rw [form] at consumes
  have read := consumes (decoding (UInt8.ofNat (front.length + 128) :: front ++ octets)) []
    ⟨rfl, Nat.zero_le _⟩ (by simp [decoding, Handle.ahead])
  rw [berStringDecode, returns_declen_iff] at read
  obtain ⟨res, len, found, read⟩ := read
  have room : (front.length : Int) < odrMax (decoding (UInt8.ofNat (front.length + 128) :: front ++ octets)) := by
    simp only [odrMax, decoding, length_append, length_cons]
    omega
  have refused := berDeclen_long (show 3 < front.length by omega) (by omega) octets room
  have ahead : (decoding (UInt8.ofNat (front.length + 128) :: front ++ octets)).ahead =
      UInt8.ofNat (front.length + 128) :: front ++ octets := rfl
  rw [ahead, refused] at found
  obtain ⟨rfl, rfl⟩ := found
  simp at read

/-- A definite length is read back as it was written unless it takes four octets or is padded to
four, and an octet string is read back if and only if its length is. -/
theorem lengths_read_back (o o' : Handle) (seated : o.Seated) :
    (∀ (len lenlen : Nat) (exact : Bool) (res : Int), len ≤ intMax → 2 ≤ lenlen → lenlen ≤ 5 →
      Returns (berEnclen len lenlen exact) o res o' → 0 < res →
        o'.text = store o.text o.pos (enclenOctets len lenlen exact) ∧
          (Declares (enclenOctets len lenlen exact) len ↔ if exact then lenlen ≤ 4 else len < 2 ^ 24)) ∧
    ∀ (octets : List UInt8) (chunk : Codec Bool) (rounds : Nat), o.pos = o.top → octets.length ≤ intMax →
      Returns (berOctetstringEncode octets) o true o' → o'.error = none →
        ∃ emitted, o'.text = o.text ++ emitted ∧
          (Consumes (berStringDecode 14 octetContents chunk rounds 0) (some octets) emitted ↔
            octets.length < 2 ^ 24) := by
  constructor
  · intro len lenlen exact res small least most h definite
    obtain ⟨-, room⟩ := berEnclen_stores seated (by omega) h definite
    refine ⟨text_berEnclen seated (by omega) h definite, declares_enclenOctets_iff small least most ?_⟩
    obtain short | isOne | few := room
    · exact .inl short
    · omega
    · exact .inr few
  · intro octets chunk rounds atEnd small h noError
    have stored := (stored_berOctetstringEncode seated atEnd h noError).1
    refine ⟨lengthOctets octets.length ++ octets, ?_, ?_⟩
    · rw [stored.text seated, store, atEnd]
      have length : o.text.length = o.top := by rw [Handle.text, List.length_take, Nat.min_eq_left seated.inside]
      rw [take_of_length_le (by omega), drop_of_length_le (by omega), append_nil]
    · constructor
      · intro consumes
        by_contra long
        exact not_consumes_long (by omega) small chunk rounds consumes
      · intro short
        exact consumes_octetstring short chunk rounds

theorem lengths_read_back_300 :
    (∃ o' : Handle, o'.text = [0x82, 1, 44] ∧ Declares [0x82, 1, 44] 300) ∧
      ∃ emitted, emitted = [3, 97, 98, 99] ∧
        Consumes (berStringDecode 14 octetContents (pure true) 0 0) (some [97, 98, 99]) emitted := by
  have seated : Handle.Seated encoding := ⟨Nat.le_refl _, Nat.le_refl _, fun fixed => by cases fixed⟩
  constructor
  · obtain ⟨text, reads⟩ := (lengths_read_back encoding (berEnclen 300 5 false encoding).state seated).1 300 5 false 3
      (by decide) (by decide) (by decide) ⟨by decide, rfl⟩ (by decide)
    exact ⟨_, text.trans (by decide), reads.mpr (by decide)⟩
  · obtain ⟨emitted, text, reads⟩ := (lengths_read_back encoding (berOctetstringEncode [97, 98, 99] encoding).state
      seated).2 [97, 98, 99] (pure true) 0 rfl (by decide) ⟨by decide, rfl⟩ (by decide)
    refine ⟨emitted, ?_, reads.mpr (by decide)⟩
    have same : (berOctetstringEncode [97, 98, 99] encoding).state.text = [3, 97, 98, 99] := by decide
    exact (same.symm.trans text).symm

/-- `ber_enclen` pads a length to four octets on request, and `ber_declen` takes it as too large. -/
theorem not_lengths_read_back_padded :
    ∃ o', Returns (berEnclen 5 5 true) encoding 5 o' ∧ o'.text = [0x84, 0, 0, 0, 5] ∧
      berDeclen o'.text 5 = some (-2, 0) :=
  ⟨_, ⟨by decide, rfl⟩, by decide, by decide⟩

def integerContents (val : BitVec 64) : List UInt8 := dropSign (integerOctets val)

/-- `ber_encinteger` writes the shortest contents that stand for the value, and `ber_decinteger`
reads them back and nothing behind them. -/
theorem integer_codec (o o' : Handle) (val : BitVec 64) (seated : o.Seated)
    (written : Returns (berIntegerEncode val) o true o') :
    o'.text = store o.text o.pos (UInt8.ofNat (integerContents val).length :: integerContents val) ∧
      integerContents val ≠ [] ∧ signedValue (integerContents val) = val.toInt ∧
      (∀ other, other ≠ [] → signedValue other = val.toInt → (integerContents val).length ≤ other.length) ∧
      ∀ (rest : List UInt8) (max : Int), ((integerContents val).length + 1 : Nat) ≤ max →
        berDecinteger (UInt8.ofNat (integerContents val).length :: integerContents val ++ rest) max =
          some ((((integerContents val).length + 1 : Nat) : Int), val) := by
  obtain ⟨nonempty, short⟩ := length_dropSign_integerOctets val
  have octets : integerOctets val ≠ [] := by
    rw [← length_pos_iff, integerOctets_length]
    omega
  have value : signedValue (integerContents val) = val.toInt :=
    (dropSign_spec octets).1.trans (signedValue_integerOctets val)
  refine ⟨(stored_berIntegerEncode seated written).1.text seated, nonempty, value, ?_, ?_⟩
  · intro other some same
    exact dropSign_shortest some (same.trans value.symm)
  · intro rest max room
    have few : (dropSign (integerOctets val)).length ≤ 127 := by omega
    have enough : (([UInt8.ofNat (dropSign (integerOctets val)).length].length +
        (dropSign (integerOctets val)).length : Nat) : Int) ≤ max := by
      rw [integerContents] at room
      rw [length_singleton]
      omega
    have decoded := berDecinteger_append (declares_short few) nonempty short rest enough
    rw [integerValue_dropSign, length_singleton, Nat.add_comm 1] at decoded
    exact decoded

theorem integer_codec_minus_129 :
    (berIntegerEncode (-129) encoding).state.text = [2, 0xff, 0x7f] ∧ signedValue [0xff, 0x7f] = -129 ∧
      ∀ other, other ≠ [] → signedValue other = -129 → 2 ≤ other.length := by
  have seated : Handle.Seated encoding := ⟨Nat.le_refl _, Nat.le_refl _, fun fixed => by cases fixed⟩
  obtain ⟨text, -, value, shortest, -⟩ := integer_codec encoding (berIntegerEncode (-129) encoding).state (-129) seated
    ⟨by decide, rfl⟩
  exact ⟨text.trans (by decide), value.trans (by decide), shortest⟩

/-! ### Object identifiers -/

theorem oidGroup_value {len left acc : Nat} {value : Int} {o o' : Handle}
    (h : Returns (oidGroup len (wrapInt acc)) o (some (value, left)) o') :
    ∃ used rest, o.ahead = used ++ rest ∧ o' = o.skip used.length ∧ len = used.length + left ∧ Group used ∧
      value = wrapInt (groupValue acc used) := by
  induction len generalizing acc o with
  | zero => simp [oidGroup] at h
  | succ _ ih =>
    rw [oidGroup, returns_readAt_bind_iff] at h
    obtain ⟨b, found, h⟩ := h
    have ahead := o.ahead_of_getElem? found
    rw [returns_advance_bind_iff, wrapInt_digit] at h
    split at h
    next more =>
      obtain ⟨used, rest, next, rfl, rfl, group, value⟩ := ih h
      refine ⟨b :: used, rest, by rw [ahead, next]; rfl, by simp [Nat.add_comm], by simp; omega, ?_, value⟩
      obtain ⟨front, last, rfl, continued, ends⟩ := group.split
      exact ⟨b :: front, last, rfl, forall_mem_cons.mpr ⟨more, continued⟩, ends⟩
    next last =>
      rw [returns_pure_iff] at h
      obtain ⟨same, rfl⟩ := h
      simp only [Option.some.injEq, Prod.mk.injEq] at same
      obtain ⟨rfl, rfl⟩ := same
      exact ⟨[b], _, ahead, rfl, by simp; omega, ⟨[], b, rfl, by simp, by omega⟩, rfl⟩

def storeWrapped (arcs : List Int) (v : Nat) : List Int := oidStore arcs (wrapInt v)

theorem oidGroups_value {maxOidSize rounds len : Nat} {arcs arcs' : List Int} {o o' : Handle}
    (h : Returns (oidGroups maxOidSize rounds len arcs) o (some arcs') o') :
    ∃ used rest, o.ahead = used ++ rest ∧ len = used.length ∧
      arcs' = (groupValues 0 used).foldl storeWrapped arcs := by
  induction rounds generalizing len arcs o with
  | zero =>
    cases len with
    | zero =>
      rw [oidGroups, returns_pure_iff] at h
      exact ⟨[], _, rfl, rfl, (Option.some.inj h.1).symm⟩
    | succ => simp [oidGroups] at h
  | succ _ ih =>
    cases len with
    | zero =>
      rw [oidGroups, returns_pure_iff] at h
      exact ⟨[], _, rfl, rfl, (Option.some.inj h.1).symm⟩
    | succ =>
      rw [oidGroups, returns_bind_iff] at h
      obtain ⟨group, middle, first, h⟩ := h
      cases group with
      | none => simp at h
      | some group =>
        obtain ⟨id, left⟩ := group
        have start : (0 : Int) = wrapInt (0 : Nat) := rfl
        rw [start] at first
        obtain ⟨front, tail, ahead, rfl, length, group, value⟩ := oidGroup_value first
        dsimp only at h
        split at h
        · simp at h
        · split at h
          · simp at h
          · obtain ⟨back, rest, next, rfl, rfl⟩ := ih h
            refine ⟨front ++ back, rest, ?_, by simpa using length, ?_⟩
            · rw [ahead, append_assoc, ← next, Handle.ahead_skip, ahead, drop_left]
            · rw [groupValues_group group, foldl_cons, storeWrapped, ← value]

def exactArcs : List Nat → List Int
  | [] => []
  | first :: rest => ((min 2 (first / 40) : Nat) : Int) :: ((first - 40 * min 2 (first / 40) : Nat) : Int) ::
      rest.map fun v : Nat => (v : Int)

/-- Every arc fits an entry of an `Odr_oid`. -/
def ArcsFit : List Nat → Prop
  | [] => True
  | first :: rest => first < 2 ^ 15 + 80 ∧ ∀ v ∈ rest, v < 2 ^ 15

instance : DecidablePred ArcsFit
  | [] => inferInstanceAs (Decidable True)
  | first :: rest => inferInstanceAs (Decidable (first < 2 ^ 15 + 80 ∧ ∀ v ∈ rest, v < 2 ^ 15))

variable {arcs : List Int}

theorem foldl_storeWrapped (nonempty : arcs ≠ []) (vs : List Nat) :
    vs.foldl storeWrapped arcs = arcs ++ vs.map fun v : Nat => wrapShort (wrapInt v) := by
  induction vs generalizing arcs with
  | nil => simp
  | cons _ _ ih =>
    rw [foldl_cons, storeWrapped, oidStore, if_neg nonempty, ih (by simp), map_cons]
    simp

theorem wrapShort_lt (x : Int) : wrapShort x < 2 ^ 15 := by
  have := Int.bmod_lt (x := x) (m := 2 ^ 16) (by simp)
  rw [wrapShort]
  omega

theorem wrapShort_wrapInt_eq_iff (v : Nat) : wrapShort (wrapInt v) = v ↔ v < 2 ^ 15 := by
  constructor
  · intro same
    have := wrapShort_lt (wrapInt v)
    omega
  · intro small
    rw [wrapInt_of_lt (by omega), wrapShort_eq_iff (by omega)]
    omega

theorem storeWrapped_first_iff (first : Nat) :
    storeWrapped [] first = [((min 2 (first / 40) : Nat) : Int), ((first - 40 * min 2 (first / 40) : Nat) : Int)] ↔
      first < 2 ^ 15 + 80 := by
  rw [storeWrapped, oidStore, if_pos rfl]
  dsimp only
  constructor
  · intro same
    obtain ⟨-, second⟩ := List.cons.inj same
    have below := wrapShort_lt (wrapInt first -
      (if 2 < wrapShort (wrapInt first / 40) then 2 else wrapShort (wrapInt first / 40)) * 40)
    have second := (List.cons.inj second).1
    omega
  · intro small
    rw [wrapInt_of_lt (by omega), wrapShort_of_range (x := (first : Int) / 40) (by omega) (by omega)]
    have split : (if 2 < (first : Int) / 40 then 2 else (first : Int) / 40) = ((min 2 (first / 40) : Nat) : Int) := by
      split <;> omega
    rw [split, wrapShort_of_range (by omega) (by omega)]
    congr 2
    omega

theorem foldl_storeWrapped_iff (vs : List Nat) :
    vs.foldl storeWrapped [] = exactArcs vs ↔ ArcsFit vs := by
  cases vs with
  | nil => simp [exactArcs, ArcsFit]
  | cons first =>
    have head := storeWrapped_first_iff first
    obtain ⟨p, q, pair⟩ : ∃ p q, storeWrapped [] first = [p, q] := ⟨_, _, rfl⟩
    rw [foldl_cons, foldl_storeWrapped (by simp [pair]), ArcsFit, ← head, exactArcs, pair]
    simp only [cons_append, nil_append, List.cons.injEq, and_true, and_assoc]
    refine and_congr_right fun _ => and_congr_right fun _ => ?_
    rw [map_inj_left]
    exact forall₂_congr fun v _ => wrapShort_wrapInt_eq_iff v

theorem oidc_arcs {maxOidSize : Nat} {o o' : Handle} {octets content rest : List UInt8}
    (ahead : o.ahead = octets ++ content ++ rest) (declares : Declares octets content.length)
    (h : Returns (berOidcDecode maxOidSize) o (some arcs) o') : arcs = (groupValues 0 content).foldl storeWrapped [] := by
  rw [berOidcDecode, returns_declen_iff] at h
  obtain ⟨res, len, found, h⟩ := h
  dsimp only at h
  split at h
  · simp at h
  next positive =>
    split at h
    · simp at h
    · rw [returns_advance_bind_iff, returns_get_bind_iff] at h
      split at h
      · simp at h
      · rw [returns_bind_iff] at h
        obtain ⟨decoded, middle, groups, h⟩ := h
        cases decoded with
        | none => simp at h
        | some =>
          dsimp only at h
          split at h
          · simp at h
          · rw [returns_pure_iff] at h
            obtain ⟨same, -⟩ := h
            obtain rfl := Option.some.inj same
            -- the length octets found are the ones that declare the contents
            obtain ⟨octets', rest', split, rfl, -, declares'⟩ := Declares.of_berDeclen found (by omega)
            rw [ahead, append_assoc] at split
            obtain ⟨rfl, rfl⟩ := declares.unique declares' split
            obtain ⟨used, tail, next, length, value⟩ := oidGroups_value groups
            rw [Int.toNat_natCast, Int.toNat_natCast] at *
            rw [Handle.ahead_skip, ahead, append_assoc, drop_left] at next
            rw [value, append_inj_left next length]

theorem foldl_storeWrapped_lt (before : ∀ arc ∈ arcs, arc < 2 ^ 15) (vs : List Nat) :
    ∀ arc ∈ vs.foldl storeWrapped arcs, arc < 2 ^ 15 := by
  induction vs generalizing arcs with
  | nil => exact before
  | cons v _ ih =>
    apply ih
    intro arc inside
    rw [storeWrapped, oidStore] at inside
    split at inside
    · dsimp only at inside
      rw [mem_cons, mem_singleton] at inside
      obtain same | same := inside
      · have := wrapShort_lt (wrapInt v / 40)
        rw [same]
        split <;> omega
      · rw [same]
        exact wrapShort_lt _
    · rw [mem_append, mem_singleton] at inside
      obtain inside | same := inside
      · exact before arc inside
      · rw [same]
        exact wrapShort_lt _

/-- What an `Odr_oid` array holds of some arcs, up to the entry that ends it. -/
def oidArray (arcs : List Int) : List Int := (arcs.map wrapShort).takeWhile (· ≠ -1)

/-- An object identifier of at most 19 arcs, each of which an `int` holds. -/
structure IntegerOid (arcs : List Int) : Prop where
  least : 2 ≤ arcs.length
  most : arcs.length < oidSize
  range : ∀ arc ∈ arcs, 0 ≤ arc ∧ arc ≤ intMax
  first : ∀ arc ∈ arcs.head?, arc ≤ 2
  second : ∀ arc ∈ arcs.head?, arc < 2 → ∀ next ∈ arcs[1]?, next < 40

theorem IntegerOid.legal (shape : IntegerOid arcs) (small : ∀ arc ∈ arcs, arc < 2 ^ 15) :
    LegalOid arcs where
  least := shape.least
  most := shape.most
  range arc inside := ⟨(shape.range arc inside).1, by have := small arc inside; omega⟩
  first := shape.first
  second := shape.second

theorem LegalOid.oidArray (legal : LegalOid arcs) : oidArray arcs = arcs := by
  have same : arcs.map wrapShort = arcs := by
    conv_rhs => rw [← map_id arcs]
    apply map_congr_left
    intro arc inside
    obtain ⟨nonneg, small⟩ := legal.range arc inside
    exact wrapShort_of_range nonneg small
  rw [Odr.oidArray, same]
  apply takeWhile_eq_self_iff.mpr
  intro arc inside
  have := (legal.range arc inside).1
  rw [decide_eq_true_eq]
  omega

/-- The arcs of a decoded object identifier are the ones its octets stand for if and only if each
of these fits a `short`, and an object identifier comes back if and only if each of its arcs does. -/
theorem oid_exactness (o o' : Handle) (arcs : List Int) :
    (∀ (maxOidSize : Nat) (octets content rest : List UInt8),
      o.ahead = octets ++ content ++ rest → Declares octets content.length →
        Returns (berOidcDecode maxOidSize) o (some arcs) o' →
          (arcs = exactArcs (groupValues 0 content) ↔ ArcsFit (groupValues 0 content))) ∧
    (o.Seated → IntegerOid arcs → Returns (berOidcEncode (oidArray arcs)) o true o' →
        let emitted := UInt8.ofNat (oidOctets (oidArray arcs)).length :: oidOctets (oidArray arcs)
        o'.text = store o.text o.pos emitted ∧
          (Consumes (berOidcDecode oidSize) (some arcs) emitted ↔ ∀ arc ∈ arcs, arc < 2 ^ 15)) := by
  constructor
  · intro maxOidSize octets content rest ahead declares h
    rw [oidc_arcs ahead declares h]
    exact foldl_storeWrapped_iff _
  · intro seated shape h
    obtain ⟨rewritten, -, -, short⟩ := stored_berOidcEncode seated h
    refine ⟨rewritten.text seated, ?_, ?_⟩
    · intro consumes
      have decoded := consumes (decoding (UInt8.ofNat (oidOctets (oidArray arcs)).length :: oidOctets (oidArray arcs)))
        [] ⟨rfl, Nat.zero_le _⟩ (by simp [decoding, Handle.ahead])
      have ahead : (decoding (UInt8.ofNat (oidOctets (oidArray arcs)).length :: oidOctets (oidArray arcs))).ahead =
          [UInt8.ofNat (oidOctets (oidArray arcs)).length] ++ oidOctets (oidArray arcs) ++ [] := by
        simp [decoding, Handle.ahead]
      have value := oidc_arcs ahead (declares_short short) decoded
      rw [value]
      exact foldl_storeWrapped_lt (by simp) _
    · intro small
      have legal := shape.legal small
      rw [legal.oidArray] at short ⊢
      have consumes := consumes_oidContents legal
      rwa [lengthOctets_short short] at consumes

theorem oid_exactness_1234 :
    [1, 2, 3, 4] = exactArcs (groupValues 0 [0x2a, 3, 4]) ∧
      Consumes (berOidcDecode oidSize) (some [1, 2, 3, 4]) [3, 0x2a, 3, 4] := by
  have seated : Handle.Seated encoding := ⟨Nat.le_refl _, Nat.le_refl _, fun fixed => by cases fixed⟩
  have shape : IntegerOid [1, 2, 3, 4] := ⟨by decide, by decide, by decide, by decide, by decide⟩
  constructor
  · exact ((oid_exactness (decoding [3, 0x2a, 3, 4]) (berOidcDecode oidSize (decoding [3, 0x2a, 3, 4])).state
      [1, 2, 3, 4]).1 oidSize [3] [0x2a, 3, 4] [] rfl (declares_short (show 3 ≤ 127 by decide))
      ⟨by decide +kernel, rfl⟩).mpr (by decide)
  · exact ((oid_exactness encoding (berOidcEncode (oidArray [1, 2, 3, 4]) encoding).state [1, 2, 3, 4]).2 seated shape
      ⟨by decide, rfl⟩).2.mpr (by decide)

/-- An arc of 65536 is taken for 0 and one of 2^32 + 5 for 5. -/
theorem not_oid_exactness_wrapped :
    (∃ o', Returns (berOidcDecode oidSize) (decoding [4, 0x2a, 0x84, 0x80, 0x00]) (some [1, 2, 0]) o') ∧
      exactArcs (groupValues 0 [0x2a, 0x84, 0x80, 0x00]) = [1, 2, 65536] ∧
      (∃ o', Returns (berOidcDecode oidSize) (decoding [6, 0x2a, 0x90, 0x80, 0x80, 0x80, 0x05]) (some [1, 2, 5]) o') ∧
      exactArcs (groupValues 0 [0x2a, 0x90, 0x80, 0x80, 0x80, 0x05]) = [1, 2, 4294967301] :=
  ⟨⟨_, by decide +kernel, rfl⟩, by decide, ⟨_, by decide +kernel, rfl⟩, by decide⟩

/-- `ber_dectag` gets the tag from `octets`, whatever follows them. -/
def ReadsTag (octets : List UInt8) (zclass tag : Nat) (constructed : Bool) : Prop :=
  ∀ (rest : List UInt8) (max : Int) (cache : BerTag), (octets.length : Int) ≤ max →
    berDectag (octets ++ rest) max cache = some ((octets.length : Int),
      { cache with lclass := zclass, ltag := tag, lcons := if constructed then 1 else 0 })

/-- A tag that is written comes back, it is written if and only if it fits the four groups that `ber_enctag` has
room for, and the tag that `ber_dectag` reports is the number in the identifier if and only if an `int` holds it. -/
theorem tag_exactness (o : Handle) (mem : List UInt8) :
    (∀ (zclass tag : Nat) (constructed : Bool), o.Seated → zclass < 4 → tag ≤ intMax →
        let emitted := enctagOctets zclass tag constructed
        (∀ o', Returns (berEnctag zclass tag constructed) o true o' →
          o'.text = store o.text o.pos emitted ∧ ReadsTag emitted zclass tag constructed) ∧
        (o.pos + 6 ≤ o.size →
          ((∃ o', Returns (berEnctag zclass tag constructed) o true o' ∧ o'.text = store o.text o.pos emitted ∧
            ReadsTag emitted zclass tag constructed) ↔ tag < 2 ^ 28))) ∧
    ∀ (max n : Int) (cache found : BerTag), berDectag mem max cache = some (n, found) → 0 < n →
      (found.ltag = tagNumber (mem.take n.toNat) ↔ tagNumber (mem.take n.toNat) < 2 ^ 31) := by
  constructor
  · intro zclass tag constructed seated isClass small
    have reads (fits : tag < 2 ^ 28) : ReadsTag (enctagOctets zclass tag constructed) zclass tag constructed :=
      fun rest max cache enough => berDectag_enctag isClass fits constructed rest enough cache
    constructor
    · intro o' written
      obtain ⟨fits, stored⟩ := stored_berEnctag seated written
      exact ⟨stored.text seated, reads (by omega)⟩
    · intro room
      constructor
      · rintro ⟨o', written, -, -⟩
        have fits := (stored_berEnctag seated written).1
        omega
      · intro fits
        have length : (enctagOctets zclass tag constructed).length ≤ 6 := by
          have digits := base128_length 5 tag []
          rw [length_nil] at digits
          simp only [enctagOctets]
          split
          · simp
          · rw [length_cons, Int.toNat_natCast]
            omega
        refine ⟨put (enctagOctets zclass tag constructed) o, ?_, text_put_store seated _, reads fits⟩
        rw [berEnctag, if_neg (by omega)]
        exact returns_odrPutAll_room seated (by omega)
  · intro max n cache found h positive
    rw [berDectag_tagNumber h positive]
    exact wrapInt_eq_iff _

theorem tag_exactness_1000 :
    (∃ o', Returns (berEnctag 2 1000 true) { encoding with size := 16 } true o' ∧ o'.text = [0xbf, 0x87, 0x68] ∧
      berDectag [0xbf, 0x87, 0x68] 3 {} = some (3, { lclass := 2, ltag := 1000, lcons := 1 })) ∧
      (1000 : Int) = tagNumber [0xbf, 0x87, 0x68] := by
  have seated : Handle.Seated { encoding with size := 16 } := ⟨Nat.le_refl _, Nat.le_refl _, fun _ => Nat.zero_le _⟩
  obtain ⟨written, reported⟩ := tag_exactness { encoding with size := 16 } [0xbf, 0x87, 0x68]
  constructor
  · obtain ⟨o', wrote, text, reads⟩ :=
      ((written 2 1000 true seated (by decide) (by decide)).2 (by decide)).mpr (by decide)
    exact ⟨o', wrote, text.trans (by decide), reads [] 3 {} (by decide)⟩
  · exact (reported 3 3 {} { lclass := 2, ltag := 1000, lcons := 1 } (by decide) (by decide)).mpr (by decide)

/-- The octets of 2^32 + 5 are reported as the tag of a NULL, and 2^28 overruns the array of groups. -/
theorem not_tag_exactness_wrapped :
    berDectag [0x1f, 0x90, 0x80, 0x80, 0x80, 0x05] 6 {} = some (6, { lclass := 0, ltag := 5 }) ∧
      tagNumber [0x1f, 0x90, 0x80, 0x80, 0x80, 0x05] = 4294967301 ∧
      (berEnctag 0 268435456 false encoding).outcome = .stopped .undefined :=
  ⟨by decide, by decide, by decide⟩

end Yaz.Odr
