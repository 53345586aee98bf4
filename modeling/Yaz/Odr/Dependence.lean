import Yaz.Odr.Bounds
import Yaz.Odr.Primitives

/-! What the results of the primitive decoders depend on. -/

set_option autoImplicit false

namespace Yaz.Odr
open List Yaz.Foundation Yaz.Ber Run

variable {α : Type} {value : α} {o o' : Handle} {octets : List UInt8} (bits : List UInt8)

def Settled (run : Codec (Option α)) : Prop :=
  ∀ (o o' : Handle) (value : α), Returns run o (some value) o' →
    ∃ used rest, o.ahead = used ++ rest ∧ o' = o.skip used.length ∧ Consumes run (some value) used

theorem ahead_of_slice? {content : List UInt8} {len : Nat}
    (found : slice? o.buf o.bp len = some content) :
    o.bp + len ≤ o.buf.length ∧ len = content.length ∧ ∃ rest, o.ahead = content ++ rest := by
  unfold slice? at found
  split at found
  next inside =>
    obtain rfl := Option.some.inj found
    refine ⟨inside, by simp; omega, o.ahead.drop len, ?_⟩
    exact (take_append_drop len (o.buf.drop o.bp)).symm
  · simp at found

theorem Settled.declen {next : Int × Int → Codec (Option α)}
    (fails : ∀ (o o' : Handle) (res len : Int) (value : α), res < 0 →
      ¬ Returns (next (res, len)) o (some value) o')
    (h : ∀ (o o' : Handle) (octets rest : List UInt8) (len : Int) (value : α), Declares octets len →
      o.ahead = octets ++ rest → Returns (next ((octets.length : Int), len)) o (some value) o' →
      ∃ used rest', rest = used ++ rest' ∧ o' = (o.skip octets.length).skip used.length ∧
        Consumes (do let o ← Run.get
                     let found ← reading (berDeclen o.ahead (odrMax o))
                     next found) (some value) (octets ++ used)) :
    Settled (do let o ← Run.get
                let found ← reading (berDeclen o.ahead (odrMax o))
                next found) := by
  intro o o' value returned
  rw [returns_declen_iff] at returned
  obtain ⟨res, len, read, returned⟩ := returned
  by_cases negative : res < 0
  · exact absurd returned (fails o o' res len value negative)
  · obtain ⟨octets, rest, ahead, rfl, -, declares⟩ := Declares.of_berDeclen read (by omega)
    obtain ⟨used, rest', rfl, rfl, consumes⟩ := h o o' octets rest len value declares ahead returned
    refine ⟨octets ++ used, rest', ?_, ?_, consumes⟩
    · rw [ahead, append_assoc]
    · rw [length_append, Handle.skip_skip]

theorem settled_boolean : Settled berBooleanDecode := by
  apply Settled.declen
  · intro o o' res len value negative returned
    simp [negative] at returned
  · intro o o' octets rest len value declares ahead returned
    dsimp only at returned
    rw [if_neg (by omega), Int.toNat_natCast, returns_advance_bind_iff, returns_get_bind_iff] at returned
    split at returned
    · simp at returned
    next fits =>
      obtain rfl : len = 1 := by omega
      rw [returns_readAt_bind_iff] at returned
      obtain ⟨b, found, returned⟩ := returned
      rw [returns_advance_bind_iff, returns_pure_iff] at returned
      have next := Handle.ahead_of_getElem? found
      rw [Handle.ahead_skip, ahead, drop_left] at next
      obtain ⟨same, rfl⟩ := returned
      exact ⟨[b], _, next, rfl, same ▸ consumes_boolean declares b⟩

theorem settled_string {primitive : Int → Codec (Option (List UInt8))} (lengthId : Nat) (chunk : Codec Bool)
    (rounds : Nat) (h : ∀ len, Settled (primitive len)) :
    Settled (berStringDecode lengthId primitive chunk rounds 0) := by
  apply Settled.declen
  · intro o o' res len value negative returned
    simp [negative] at returned
  · intro o o' octets rest len value declares ahead returned
    dsimp only at returned
    rw [if_neg (by omega), Int.toNat_natCast, returns_advance_bind_iff, if_neg (by simp)] at returned
    obtain ⟨used, rest', next, rfl, consumes⟩ := h len _ _ _ returned
    rw [Handle.ahead_skip, ahead, drop_left] at next
    exact ⟨used, rest', next, rfl, consumes_string declares consumes lengthId chunk rounds⟩

theorem settled_octetContents (len : Int) : Settled (octetContents len) := by
  intro o o' value returned
  rw [octetContents, returns_get_bind_iff] at returned
  split at returned
  · simp at returned
  next positive =>
    split at returned
    · simp at returned
    next fits =>
      simp only [returns_reading_bind_iff, returns_advance_bind_iff, returns_pure_iff] at returned
      obtain ⟨content, found, same, rfl⟩ := returned
      obtain rfl := Option.some.inj same
      obtain ⟨-, length, rest, ahead⟩ := ahead_of_slice? found
      obtain rfl : len = content.length := by omega
      exact ⟨content, rest, ahead, rfl, consumes_octetContents content⟩

theorem settled_bitContents (len : Int) : Settled (bitContents bits len) := by
  intro o o' value returned
  rw [bitContents, returns_get_bind_iff] at returned
  split at returned
  · simp at returned
  next positive =>
    split at returned
    next empty =>
      rw [returns_pure_iff] at returned
      obtain ⟨same, rfl⟩ := returned
      obtain rfl := Option.some.inj same
      exact ⟨[], _, rfl, rfl, empty ▸ consumes_bitContents_nil bits⟩
    next nonempty =>
      split at returned
      · simp at returned
      next short =>
        split at returned
        · simp at returned
        next fits =>
          simp only [returns_reading_bind_iff, returns_advance_bind_iff, returns_pure_iff] at returned
          obtain ⟨content, found, same, rfl⟩ := returned
          obtain rfl := Option.some.inj same
          obtain ⟨inside, length, rest, ahead⟩ := ahead_of_slice? (o := o.skip 1) found
          rw [Handle.skip_bp, Handle.skip_buf] at inside
          have first := o.ahead_of_getElem? (getElem?_eq_getElem (by omega))
          obtain rfl : len = (content.length + 1 : Nat) := by omega
          refine ⟨_ :: content, rest, by rw [first, ahead]; rfl, rfl, consumes_bitContents bits _ ?_⟩
          omega

theorem settled_oidc (maxOidSize : Nat) : Settled (berOidcDecode maxOidSize) := by
  apply Settled.declen
  · intro o o' res len value negative returned
    simp [show res < 1 by omega] at returned
  · intro o o' octets rest len value declares ahead returned
    dsimp only at returned
    split at returned
    · simp at returned
    next found =>
      split at returned
      · simp at returned
      next definite =>
        rw [Int.toNat_natCast, returns_advance_bind_iff, returns_get_bind_iff] at returned
        split at returned
        · simp at returned
        next fits =>
          rw [returns_bind_iff] at returned
          obtain ⟨groups, middle, read, returned⟩ := returned
          cases groups with
          | none => simp at returned
          | some =>
            obtain ⟨used, rest', next, rfl, length, consumes⟩ := oidGroups_consumes read
            dsimp only at returned
            split at returned
            · simp at returned
            next legal =>
              rw [returns_pure_iff] at returned
              obtain ⟨same, rfl⟩ := returned
              obtain rfl := Option.some.inj same
              obtain rfl : len = used.length := by omega
              rw [Handle.ahead_skip, ahead, drop_left] at next
              exact ⟨used, rest', next, rfl, consumes_oidc declares consumes legal⟩

/-- The primitive decoders; strings in their primitive form, with any decoder for the chunks of the
constructed form. -/
inductive Primitive where
  | integer
  | boolean
  | oidc (maxOidSize : Nat)
  | octetstring (chunk : Codec Bool) (rounds : Nat)
  | bitstring (bits : List UInt8) (chunk : Codec Bool) (rounds : Nat)

def Primitive.Val : Primitive → Type
  | .integer => BitVec 64
  | .boolean => Int
  | .oidc _ => List Int
  | .octetstring _ _ | .bitstring _ _ _ => List UInt8

def Primitive.decode : (p : Primitive) → Codec (Option p.Val)
  | .integer => berIntegerDecode
  | .boolean => berBooleanDecode
  | .oidc maxOidSize => berOidcDecode maxOidSize
  | .octetstring chunk rounds => berStringDecode 14 octetContents chunk rounds 0
  | .bitstring bits chunk rounds => berStringDecode 4 (bitContents bits) chunk rounds 0

def Handle.over (o : Handle) (buf : List UInt8) : Handle := { o with buf := buf, size := buf.length, bp := 0 }

/-- The call looks at no octet behind the buffer, and every buffer that agrees with `buf` on the octets a
successful call consumes makes the call succeed with the same value and the same number of octets. -/
def Primitive.DependsOnConsumed (p : Primitive) (o : Handle) (buf : List UInt8) : Prop :=
  (p.decode (o.over buf)).outcome ≠ .stopped .outOfRange ∧ ∀ value after, Returns p.decode (o.over buf) (some value) after →
    ∀ other, after.bp ≤ other.length → other.take after.bp = buf.take after.bp →
      ∃ after', Returns p.decode (o.over other) (some value) after' ∧ after'.bp = after.bp

theorem Consumes.over {run : Codec α} {used rest other : List UInt8}
    (consumes : Consumes run value used) (o : Handle) (available : used.length ≤ other.length)
    (agree : other.take used.length = (used ++ rest).take used.length) :
    Returns run (o.over other) value ((o.over other).skip used.length) := by
  have start : other = used ++ other.drop used.length := by
    rw [take_left] at agree
    rw [← agree, List.length_take, Nat.min_eq_left available, take_append_drop]
  exact consumes (o.over other) _ ⟨rfl, Nat.zero_le _⟩ start

/-- What is asked of a call that looks at nothing behind the buffer. -/
def readContract : Contract Stop (Call × Handle) where
  assumed := fun _ => True
  kept := fun _ => True
  allowed := fun why => why ≠ .outOfRange

theorem Settled.dependsOnConsumed {p : Primitive} (settled : Settled p.decode)
    (inside : Triple readContract Handle.Sized p.decode fun _ => Handle.Sized) (o : Handle) (buf : List UInt8) :
    p.DependsOnConsumed o buf := by
  constructor
  · intro stopped
    have ended := (inside (o.over buf) rfl fun _ _ => trivial).2
    rw [stopped] at ended
    exact ended rfl
  intro value after returned other available agree
  obtain ⟨used, rest, ahead, rfl, consumes⟩ := settled _ _ _ returned
  obtain rfl : buf = used ++ rest := ahead
  simp only [Handle.skip_bp, Handle.over, Nat.zero_add] at available agree
  exact ⟨_, consumes.over o available agree, rfl⟩

def emptyInteger (buf : List UInt8) : Prop :=
  ∃ res, berDeclen buf buf.length = some (res, 0) ∧ 0 ≤ res

theorem berDecinteger_cases {mem : List UInt8} {max res : Int} {value : BitVec 64}
    (h : berDecinteger mem max = some (res, value)) (found : 0 < res) :
    (berDeclen mem max = some (res, 0) ∧ res < mem.length) ∨
      ∃ octets content rest, mem = octets ++ content ++ rest ∧ Declares octets content.length ∧
        content ≠ [] ∧ content.length ≤ 8 ∧ res = (octets.length + content.length : Nat) ∧
        value = integerValue content := by
  have unfolded := h
  unfold berDecinteger at unfolded
  split at unfolded
  · simp at unfolded
  next res' len read =>
    split at unfolded
    · simp only [Option.some.injEq, Prod.mk.injEq] at unfolded; omega
    next good =>
      split at unfolded
      · simp only [Option.some.injEq, Prod.mk.injEq] at unfolded; omega
      next fits =>
        split at unfolded
        · simp only [Option.some.injEq, Prod.mk.injEq] at unfolded; omega
        next short =>
          obtain ⟨octets, rest, rfl, rfl, room, declares⟩ := Declares.of_berDeclen read (by omega)
          rw [Int.toNat_natCast, drop_left] at unfolded
          split at unfolded
          · simp at unfolded
          next b tail =>
            by_cases enough : (b :: tail).length < len.toNat
            · simp only [enough, if_true] at unfolded
              simp at unfolded
            by_cases empty : len = 0
            · rw [if_neg enough, empty, Int.add_zero] at unfolded
              obtain ⟨rfl, -⟩ := unfolded
              exact .inl ⟨empty ▸ read, by simp⟩
            · clear unfolded
              have length : ((b :: tail).take len.toNat).length = len.toNat := by
                rw [List.length_take]; omega
              have declared : Declares octets ((b :: tail).take len.toNat).length := by
                rw [length, Int.toNat_of_nonneg (by omega)]; exact declares
              have nonempty : (b :: tail).take len.toNat ≠ [] := by
                rw [← length_pos_iff, length]; omega
              refine .inr ⟨octets, (b :: tail).take len.toNat, (b :: tail).drop len.toNat, ?_, declared,
                nonempty, by omega, ?_⟩
              · rw [append_assoc, take_append_drop]
              · have again := berDecinteger_append declared nonempty (by omega)
                  ((b :: tail).drop len.toNat) (show _ ≤ max by omega)
                rw [append_assoc, take_append_drop, h] at again
                simpa using again

theorem berDecinteger_empty (declares : Declares octets 0) (b : UInt8)
    (rest : List UInt8) {max : Int} (room : (octets.length : Int) ≤ max) :
    berDecinteger (octets ++ b :: rest) max =
      some ((octets.length : Int), if 128 ≤ b.toNat then -1 else 0) := by
  rw [berDecinteger, declares.read _ _ room]
  dsimp only
  rw [if_neg (by omega), if_neg (by omega), if_neg (by omega), Int.toNat_natCast, drop_left]
  simp only [Int.toNat_zero, Nat.not_lt_zero, if_false, take_zero]
  split <;> rfl

theorem returns_integer_iff {value : BitVec 64} :
    Returns berIntegerDecode o (some value) o' ↔
      ∃ res, berDecinteger o.ahead (odrMax o) = some (res, value) ∧ 0 < res ∧ o' = o.skip res.toNat := by
  simp only [berIntegerDecode, returns_enter_bind_iff, returns_get_bind_iff, returns_reading_bind_iff,
    Prod.exists]
  constructor
  · rintro ⟨res, val, read, returned⟩
    split at returned
    · simp at returned
    next positive =>
      simp only [returns_advance_bind_iff, returns_pure_iff, Option.some.injEq] at returned
      obtain ⟨rfl, rfl⟩ := returned
      exact ⟨res, read, by omega, rfl⟩
  · rintro ⟨res, read, positive, rfl⟩
    refine ⟨res, value, read, ?_⟩
    rw [if_neg (by omega)]
    simp

theorem returns_emptyInteger (declares : Declares octets 0) (b : UInt8)
    (rest : List UInt8) (o : Handle) :
    Returns berIntegerDecode (o.over (octets ++ b :: rest))
      (some (if 128 ≤ b.toNat then -1 else 0)) ((o.over (octets ++ b :: rest)).skip octets.length) := by
  have positive := length_pos_iff.mpr declares.nonempty
  rw [returns_integer_iff]
  refine ⟨octets.length, ?_, by omega, rfl⟩
  refine berDecinteger_empty declares b rest ?_
  simp only [odrMax, Handle.over, length_append]
  omega

/-- With zero contents octets at the end of the buffer the sign is looked for behind it. -/
theorem berDecinteger_behind (declares : Declares octets 0) {max : Int} (room : (octets.length : Int) ≤ max) :
    berDecinteger octets max = none := by
  have read := declares.read [] max room
  rw [append_nil] at read
  rw [berDecinteger, read]
  dsimp only
  rw [if_neg (by omega), if_neg (by omega), if_neg (by omega), Int.toNat_natCast, drop_length]

theorem integer_outOfRange (declares : Declares octets 0) (o : Handle) :
    (berIntegerDecode (o.over octets)).outcome = .stopped .outOfRange := by
  have behind : berDecinteger (o.over octets).ahead (odrMax (o.over octets)) = none :=
    berDecinteger_behind declares (by simp [odrMax, Handle.over])
  simp [berIntegerDecode, reading, behind]

theorem integer_inside {buf : List UInt8} (nonempty : ¬ emptyInteger buf) :
    (berIntegerDecode (o.over buf)).outcome ≠ .stopped .outOfRange := by
  have whole : odrMax (o.over buf) = buf.length := by simp [odrMax, Handle.over]
  have read : (berDecinteger (o.over buf).ahead (odrMax (o.over buf))).isSome := by
    refine berDecinteger_isSome (Handle.Sized.odrMax_le rfl) fun empty => nonempty ?_
    rw [whole] at empty
    exact ⟨_, empty, by omega⟩
  obtain ⟨⟨res, value⟩, read⟩ := Option.isSome_iff_exists.mp read
  have kept : Upholds readContract berIntegerDecode (o.over buf) fun _ _ => True := by
    refine .enter_bind fun _ => ⟨trivial, ?_⟩
    rw [upholds_get_bind_iff]
    refine upholds_reading_bind _ (fun outside => ?_) fun found _ => ?_
    · simp [read] at outside
    · rw [upholds_ite_iff]
      split <;> simp
  intro stopped
  have ended := (kept fun _ _ => trivial).2
  rw [stopped] at ended
  exact ended rfl

theorem integer_dependsOnConsumed_iff (o : Handle) (buf : List UInt8) :
    Primitive.integer.DependsOnConsumed o buf ↔ ¬ emptyInteger buf := by
  constructor
  · rintro ⟨inside, depends⟩ ⟨res, read, found⟩
    obtain ⟨octets, rest, rfl, rfl, -, declares⟩ := Declares.of_berDeclen read found
    cases rest with
    | nil =>
      rw [append_nil] at inside
      exact inside (integer_outOfRange declares o)
    -- the octet behind the length octets, with its sign bit flipped, gives another value
    | cons b tail =>
      obtain ⟨c, contrary⟩ : ∃ c : UInt8, 128 ≤ c.toNat ↔ ¬ 128 ≤ b.toNat := by
        by_cases sign : 128 ≤ b.toNat
        · exact ⟨0, by simp [sign]⟩
        · exact ⟨0x80, by simp [sign]⟩
      obtain ⟨after, returned, -⟩ := depends _ _ (returns_emptyInteger declares b tail o)
        (octets ++ [c]) (by simp [Handle.over]) (by simp [Handle.over])
      have same := (returned.unique (returns_emptyInteger declares c [] o)).1
      simp only [contrary, ite_not] at same
      split at same
      · exact absurd (Option.some.inj same) (show ¬ (-1 : BitVec 64) = 0 by decide)
      · exact absurd (Option.some.inj same) (show ¬ (0 : BitVec 64) = -1 by decide)
  · intro nonempty
    refine ⟨integer_inside nonempty, ?_⟩
    intro value after returned other available agree
    obtain ⟨res, read, positive, rfl⟩ := returns_integer_iff.mp returned
    obtain ⟨empty, -⟩ | ⟨octets, content, rest, ahead, declares, some, short, rfl, rfl⟩ :=
      berDecinteger_cases read positive
    · have whole : odrMax (o.over buf) = buf.length := by simp [odrMax, Handle.over]
      rw [whole] at empty
      exact absurd ⟨res, empty, by omega⟩ nonempty
    · obtain rfl : buf = octets ++ content ++ rest := ahead
      rw [Int.toNat_natCast, ← length_append] at available agree ⊢
      simp only [Handle.skip_bp, Handle.over, Nat.zero_add] at available agree
      exact ⟨_, (consumes_integer declares some short).over o available agree, rfl⟩

theorem inside_string {primitive : Int → Codec (Option (List UInt8))} (lengthId : Nat) (chunk : Codec Bool) (rounds : Nat)
    (h : ∀ len, Triple readContract Handle.Sized (primitive len) fun _ => Handle.Sized) :
    Triple readContract Handle.Sized (berStringDecode lengthId primitive chunk rounds 0) fun _ => Handle.Sized := by
  apply bounds_declen
  rintro ⟨res, len⟩ o sized
  rw [upholds_ite_iff]
  split
  · simpa [Handle.Sized] using sized
  · rw [upholds_advance_bind_iff, if_neg (by simp)]
    exact h len _ sized

/-- Among the primitive decoders only that of an INTEGER looks beyond what it consumes, and only
when there are no content octets. -/
theorem dependsOnConsumed_iff (p : Primitive) (o : Handle) (buf : List UInt8) :
    p.DependsOnConsumed o buf ↔ ¬ (p = .integer ∧ emptyInteger buf) := by
  have other : ∀ q : Primitive, q ≠ .integer → Settled q.decode →
      Triple readContract Handle.Sized q.decode (fun _ => Handle.Sized) →
      (q.DependsOnConsumed o buf ↔ ¬ (q = .integer ∧ emptyInteger buf)) := by
    intro q different settled inside
    exact iff_of_true (settled.dependsOnConsumed inside o buf) fun h => different h.1
  cases p with
  | integer => simpa using integer_dependsOnConsumed_iff o buf
  | boolean => exact other _ (by simp) settled_boolean bounds_boolean
  | oidc maxOidSize => exact other _ (by simp) (settled_oidc maxOidSize) (bounds_oidc (by simp [readContract]) maxOidSize)
  | octetstring chunk rounds =>
    exact other _ (by simp) (settled_string 14 chunk rounds settled_octetContents)
      (inside_string 14 chunk rounds bounds_octetContents)
  | bitstring bits chunk rounds =>
    exact other _ (by simp) (settled_string 4 chunk rounds (settled_bitContents bits))
      (inside_string 4 chunk rounds (bounds_bitContents bits))

/-- `02 00` decodes to 0 before an octet below 128 and to -1 before one that is not. -/
theorem not_dependsOnConsumed_emptyInteger :
    ¬ Primitive.integer.DependsOnConsumed {} [0, 0x7f] := by
  rw [integer_dependsOnConsumed_iff, not_not]
  exact ⟨1, by decide, by decide⟩

end Yaz.Odr
