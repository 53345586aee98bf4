import Yaz.Odr.Reading
import Yaz.Odr.Absence

/-! The encodings of a string: primitive ones, and constructed ones made of chunks.

A chunk is an element of its own and may be constructed again. Inside an element the string decoders
get through every such encoding, and what they are left with is that of the outermost level.
-/

set_option autoImplicit false

namespace Yaz.Odr
open List Yaz.Foundation Yaz.Ber Run

/-! ### Encodings -/

mutual

/-- A string behind its identifier. A constructed one is of indefinite length where there are no `length` octets. -/
inductive StringBody where
  | primitive (length contents : List UInt8)
  | constructed (length : Option (List UInt8)) (chunks : Chunks)

inductive Chunks where
  | nil
  | cons (first : StringBody) (rest : Chunks)

end

def StringBody.isConstructed : StringBody → Bool
  | .primitive _ _ => false
  | .constructed _ _ => true

def endOctets (length : Option (List UInt8)) : List UInt8 := if length.isSome then [] else [0, 0]

mutual

/-- The octets behind the identifier; `number` is the universal tag of the chunks. -/
def StringBody.octets (number : Nat) : StringBody → List UInt8
  | .primitive length contents => length ++ contents
  | .constructed length chunks => length.getD [0x80] ++ (chunks.octets number ++ endOctets length)

def Chunks.octets (number : Nat) : Chunks → List UInt8
  | .nil => []
  | .cons first rest => identifier (0, number) first.isConstructed ++ first.octets number ++ rest.octets number

end

def chunksLength (number : Nat) (length : Option (List UInt8)) (chunks : Chunks) : Int :=
  if length.isSome then (chunks.octets number).length else -1

mutual

def StringBody.Valid (number : Nat) : StringBody → Prop
  | .primitive length contents => Declares length contents.length
  | .constructed length chunks =>
    Declares (length.getD [0x80]) (chunksLength number length chunks) ∧ chunks.Valid number

def Chunks.Valid (number : Nat) : Chunks → Prop
  | .nil => True
  | .cons first rest => first.Valid number ∧ rest.Valid number

end

mutual

def StringBody.value (part : List UInt8 → List UInt8) : StringBody → List UInt8
  | .primitive _ contents => part contents
  | .constructed _ chunks => chunks.value part

def Chunks.value (part : List UInt8 → List UInt8) : Chunks → List UInt8
  | .nil => []
  | .cons first rest => first.value part ++ rest.value part

end

mutual

def StringBody.Fit (fits : List UInt8 → Prop) : StringBody → Prop
  | .primitive _ contents => fits contents
  | .constructed _ chunks => chunks.Fit fits

def Chunks.Fit (fits : List UInt8 → Prop) : Chunks → Prop
  | .nil => True
  | .cons first rest => first.Fit fits ∧ rest.Fit fits

end

def StringBody.kept (part : List UInt8 → List UInt8) : StringBody → List UInt8
  | .primitive _ contents => part contents
  | .constructed _ _ => []

/-- A string type with the decoder of its primitive contents and what is known of it: `part` of the
contents becomes the value where they fit. -/
structure StringKind where
  number : Nat
  lengthId : Nat
  contents : Int → Codec (Option (List UInt8))
  within : Nat → Bool → Option String → Codec (Bool × Option (List UInt8))
  part : List UInt8 → List UInt8
  fits : List UInt8 → Prop
  legal : Tag.Legal (0, number)
  takes : ∀ octets, fits octets → Consumes (contents octets.length) (some (part octets)) octets
  refuses : ∀ octets, ¬ fits octets → ∀ o value o', ¬ Returns (contents octets.length) o (some value) o'
  stops : ∀ opt name o result o', ¬ Returns (within 0 opt name) o result o'
  step : ∀ depth opt name, ∃ element, within (depth + 1) opt name = odrElement number opt name element ∧
    ∀ cons p result p', Returns (element cons) p (true, result) p' ↔
      ∃ value, result = some value ∧
        Returns (berStringDecode lengthId contents (chunkOf (within depth false none)) (depth + 1) cons) p (some value) p'

def octetKind : StringKind where
  number := 4
  lengthId := 14
  contents := octetContents
  within := odrOctetstringWithin
  part := id
  fits := fun _ => True
  legal := by decide
  takes octets _ := consumes_octetContents octets
  refuses octets tooLong := absurd trivial tooLong
  stops opt name o result o' := not_returns_stop _ _ _ _
  step depth opt name := by
    refine ⟨_, rfl, fun cons p result p' => ?_⟩
    rw [returns_bind_iff]
    constructor
    · rintro ⟨found, q, h, next⟩
      cases found with
      | none => simp at next
      | some value =>
        rw [returns_pure_iff, Prod.mk.injEq] at next
        obtain ⟨⟨-, rfl⟩, rfl⟩ := next
        exact ⟨value, rfl, h⟩
    · rintro ⟨value, rfl, h⟩
      exact ⟨some value, p', h, (returns_pure_iff _ _ _ _).mpr ⟨rfl, rfl⟩⟩

theorem not_returns_bitContents (octets : List UInt8) (tooLong : ¬ octets.length ≤ odrBitmaskSize + 1) (o : Handle)
    (value : List UInt8) (o' : Handle) : ¬ Returns (bitContents [] octets.length) o (some value) o' := by
  intro h
  rw [bitContents, returns_get_bind_iff, returns_ite_iff, if_neg (by omega), returns_ite_iff, if_neg (by omega),
    returns_ite_iff, if_pos (by omega)] at h
  simp at h

def bitKind : StringKind where
  number := 3
  lengthId := 4
  contents := bitContents []
  within := odrBitstringWithin
  part := List.tail
  fits octets := octets.length ≤ odrBitmaskSize + 1
  legal := by decide
  takes octets short := by
    cases octets with
    | nil => exact consumes_bitContents_nil []
    | cons unused bits => exact consumes_bitContents [] unused (Nat.le_of_succ_le_succ short)
  refuses := not_returns_bitContents
  stops opt name o result o' := not_returns_stop _ _ _ _
  step depth opt name := by
    refine ⟨_, rfl, fun cons p result p' => ?_⟩
    rw [returns_bind_iff]
    constructor
    · rintro ⟨found, q, h, next⟩
      rw [returns_pure_iff, finish, Prod.mk.injEq] at next
      obtain ⟨⟨isSome, rfl⟩, rfl⟩ := next
      obtain ⟨value, rfl⟩ := Option.isSome_iff_exists.mp isSome
      exact ⟨value, rfl, h⟩
    · rintro ⟨value, rfl, h⟩
      exact ⟨some value, p', h, (returns_pure_iff _ _ _ _).mpr ⟨rfl, rfl⟩⟩

variable {o o' p : Handle} {more used : List UInt8} {outer : Option Tag} {kind : StringKind}

theorem StringKind.returns_within_iff {constructed : Bool} (tagged : o.Tagged outer)
    (legal : (outer.getD (0, kind.number)).Legal)
    (left : o.Left (identifier (outer.getD (0, kind.number)) constructed ++ more)) (depth : Nat) (opt : Bool)
    (name : Option String) :
    ∃ p, Returns (berTagDecode (defaultTag 0 kind.number o).tClass (defaultTag 0 kind.number o).tTag opt name)
        (defaultTag 0 kind.number o) (some (if constructed then 1 else 0)) p ∧
      Consumed o p (identifier (outer.getD (0, kind.number)) constructed).length ∧ ∀ result o',
        Returns (kind.within (depth + 1) opt name) o (true, result) o' ↔
          ∃ value, result = some value ∧
            Returns (berStringDecode kind.lengthId kind.contents (chunkOf (kind.within depth false none)) (depth + 1)
              (if constructed then 1 else 0)) p (some value) o' := by
  obtain ⟨element, isElement, h⟩ := kind.step depth opt name
  have set := defaultTag_tagged tagged 0 kind.number
  obtain ⟨p, matched, found⟩ := returns_berTag_match (left.defaultTag 0 kind.number) legal opt name
  rw [← set.1, ← set.2] at matched
  refine ⟨p, matched, found.of_defaultTag, fun result o' => ?_⟩
  rw [isElement, odrElement, returns_get_bind_iff, left.error, returns_ite_iff, if_neg (by simp),
    returns_modify_bind_iff, returns_get_bind_iff, ← h, returns_bind_iff]
  constructor
  · rintro ⟨found, q, ident, contained⟩
    obtain ⟨rfl, rfl⟩ := matched.unique ident
    exact contained
  · exact fun contained => ⟨_, p, matched, contained⟩

theorem returns_constructed_iff {lengthId rounds : Nat} {contents : Int → Codec (Option (List UInt8))}
    {chunk : Codec Bool} {length : List UInt8} {len : Int} (declares : Declares length len) (inside : p.Inside)
    (ahead : p.ahead = length ++ more) {value : List UInt8} :
    Returns (berStringDecode lengthId contents chunk rounds 1) p (some value) o' ↔
      value = [] ∧ Returns (chunks chunk (p.bp + length.length) len rounds) (p.skip length.length) true o' := by
  have room := inside.length ahead
  have read := declares.read more (odrMax p) (by simp only [odrMax]; omega)
  rw [berStringDecode, returns_declen_iff, ahead, read]
  simp only [Option.some.injEq, Prod.mk.injEq]
  constructor
  · rintro ⟨res, found, ⟨rfl, rfl⟩, h⟩
    rw [if_neg (by omega), Int.toNat_natCast, returns_advance_bind_iff, if_pos (by decide), returns_get_bind_iff,
      returns_bind_iff] at h
    obtain ⟨done, q, loop, h⟩ := h
    cases done with
    | false => simp at h
    | true =>
      rw [if_pos rfl, returns_pure_iff, Option.some.injEq] at h
      obtain ⟨rfl, rfl⟩ := h
      exact ⟨rfl, loop⟩
  · rintro ⟨rfl, loop⟩
    refine ⟨_, _, ⟨rfl, rfl⟩, ?_⟩
    rw [if_neg (by omega), Int.toNat_natCast, returns_advance_bind_iff, if_pos (by decide), returns_get_bind_iff]
    refine Returns.bind loop ?_
    rw [if_pos rfl, returns_pure_iff]
    exact ⟨rfl, rfl⟩

theorem StringKind.refuses_primitive {chunk : Codec Bool} {rounds : Nat} {length contents : List UInt8}
    (declares : Declares length contents.length) (inside : p.Inside) (ahead : p.ahead = length ++ more)
    (tooLong : ¬ kind.fits contents) (value : List UInt8) :
    ¬ Returns (berStringDecode kind.lengthId kind.contents chunk rounds 0) p (some value) o' := by
  have room := inside.length ahead
  have read := declares.read more (odrMax p) (by simp only [odrMax]; omega)
  rw [berStringDecode, returns_declen_iff, ahead, read]
  rintro ⟨res, found, same, h⟩
  obtain ⟨rfl, rfl⟩ := same
  exact kind.refuses contents tooLong _ _ _ h

/-- The loop has `left` octets of chunks before it. -/
def Pending (length : Option (List UInt8)) (base : Nat) (len : Int) (o : Handle) (left : Nat) : Prop :=
  if length.isSome then 0 ≤ len ∧ base + len = o.bp + left else len = -1

variable {rest : List UInt8}

theorem returns_atEndOfContents_chunk {b : UInt8} (ahead : o.ahead = b :: rest) (chunk : b ≠ 0) :
    Returns atEndOfContents o false o := by
  rw [atEndOfContents, returns_readAt_bind_iff]
  refine ⟨b, o.getElem?_of_ahead ahead, ?_⟩
  rw [if_neg chunk, returns_pure_iff]
  exact ⟨rfl, rfl⟩

theorem returns_atEndOfContents_zeros (ahead : o.ahead = 0 :: 0 :: rest) :
    Returns atEndOfContents o true o := by
  have second : o.buf[o.bp + 1]? = some 0 := by
    have found := congrArg (fun octets => octets[1]?) ahead
    simpa [Handle.ahead] using found
  rw [atEndOfContents, returns_readAt_bind_iff]
  refine ⟨0, o.getElem?_of_ahead ahead, ?_⟩
  rw [if_pos rfl, returns_readAt_bind_iff]
  refine ⟨0, second, ?_⟩
  rw [returns_pure_iff]
  exact ⟨rfl, rfl⟩

theorem returns_moreChunks_chunk {length : Option (List UInt8)} {base left : Nat} {len : Int} {b : UInt8}
    (ahead : o.ahead = b :: rest) (chunk : b ≠ 0) (pending : Pending length base len o left)
    (some_ : 0 < left) (begins : base ≤ o.bp) : Returns (odpMoreChunks base len) o true o := by
  rw [odpMoreChunks, returns_enter_bind_iff]
  unfold Pending at pending
  split at pending
  · rw [if_neg (by omega), if_neg (by omega), returns_get_bind_iff, returns_pure_iff]
    exact ⟨by simpa using (by omega : (o.bp : Int) - base < len), rfl⟩
  · rw [if_neg (by omega), if_pos (by omega)]
    refine (returns_atEndOfContents_chunk ahead chunk).bind ?_
    rw [if_neg (by simp), returns_pure_iff]
    exact ⟨rfl, rfl⟩

theorem returns_moreChunks_end {length : Option (List UInt8)} {base : Nat} {len : Int}
    (ahead : o.ahead = endOctets length ++ rest) (pending : Pending length base len o 0) :
    Returns (odpMoreChunks base len) o false (o.skip (endOctets length).length) := by
  rw [odpMoreChunks, returns_enter_bind_iff]
  unfold Pending at pending
  unfold endOctets at ahead ⊢
  split at pending
  next definite =>
    rw [if_pos definite, length_nil, Handle.skip_zero]
    split
    · simp
    · rw [if_neg (by omega), returns_get_bind_iff, returns_pure_iff]
      exact ⟨by simpa using (by omega : len ≤ (o.bp : Int) - base), rfl⟩
  next indefinite =>
    rw [if_neg indefinite] at ahead ⊢
    rw [if_neg (by omega), if_pos (by omega)]
    refine (returns_atEndOfContents_zeros ahead).bind ?_
    rw [if_pos rfl, returns_advance_bind_iff, returns_pure_iff]
    exact ⟨rfl, rfl⟩

theorem identifier_pos (tag : Tag) (constructed : Bool) : 0 < (identifier tag constructed).length :=
  length_pos_iff.mpr (enctagOctets_ne_nil tag.1 tag.2 constructed)

/-- The decoder takes the `used` octets for a value it keeps where everything fits, and does not return
success elsewhere. -/
def Decides (run : Codec (Bool × Option (List UInt8))) (o : Handle) (fit : Prop) (kept : List UInt8) (used : Nat) : Prop :=
  (fit → ∃ o', Returns run o (true, some kept) o' ∧ Consumed o o' used) ∧
    (¬ fit → ∀ result o', ¬ Returns run o (true, result) o')

theorem Decides.chunk {string : Codec (Bool × Option (List UInt8))} {fit : Prop} {kept : List UInt8} {n : Nat}
    (h : Decides string o fit kept n) :
    (fit → ∃ o', Returns (chunkOf string) o true o' ∧ Consumed o o' n) ∧
      (¬ fit → ∀ o', ¬ Returns (chunkOf string) o true o') := by
  constructor
  · intro fits
    obtain ⟨o', read, consumed⟩ := h.1 fits
    exact ⟨o', read.bind ((returns_pure_iff _ _ _ _).mpr ⟨rfl, rfl⟩), consumed⟩
  · intro tooLong o' read
    rw [chunkOf, returns_bind_iff] at read
    obtain ⟨⟨ret, value⟩, q, string, read⟩ := read
    rw [returns_pure_iff] at read
    obtain ⟨rfl, rfl⟩ := read
    exact h.2 tooLong value q string

mutual

/-- Every nesting of chunks is read inside an element, and leaves nothing in the value of its level. -/
theorem StringBody.decides (kind : StringKind) : ∀ (body : StringBody), body.Valid kind.number →
    ∀ {o : Handle} {outer : Option Tag} {more : List UInt8} {depth : Nat} (opt : Bool) (name : Option String),
      o.Tagged outer → (outer.getD (0, kind.number)).Legal → o.stack ≠ [] →
      o.Left (identifier (outer.getD (0, kind.number)) body.isConstructed ++ body.octets kind.number ++ more) →
      (body.octets kind.number).length < depth →
        Decides (kind.within depth opt name) o (body.Fit kind.fits) (body.kept kind.part)
          (identifier (outer.getD (0, kind.number)) body.isConstructed ++ body.octets kind.number).length
  | _, _, _, _, _, 0, _, _, _, _, _, _, shallow => absurd shallow (Nat.not_lt_zero _)
  | .primitive length contents, valid, o, outer, more, depth + 1, opt, name, tagged, legal, inside, left, shallow => by
    rw [append_assoc] at left
    obtain ⟨p, -, found, h⟩ := kind.returns_within_iff tagged legal left depth opt name
    obtain ⟨rest, ahead⟩ := left.ahead_read found.toRead
    have here := left.inside_read found.toRead
    simp only [StringBody.octets, StringBody.isConstructed, Bool.false_eq_true, if_false] at ahead h found ⊢
    constructor
    · intro fits
      have consumes := consumes_string valid (kind.takes contents fits) kind.lengthId
        (chunkOf (kind.within depth false none)) (depth + 1)
      have read := consumes p _ here (by rw [ahead, append_assoc])
      refine ⟨_, (h _ _).mpr ⟨_, rfl, read⟩, ?_⟩
      have total := found.skip (length ++ contents).length
      rw [← length_append] at total
      exact total
    · intro tooLong result o' success
      obtain ⟨value, -, read⟩ := (h result o').mp success
      have behind : p.ahead = length ++ (contents ++ (more ++ rest)) := by rw [ahead, append_assoc, append_assoc]
      exact kind.refuses_primitive valid here behind tooLong value read
  | .constructed length chunks, valid, o, outer, more, depth + 1, opt, name, tagged, legal, inside, left, shallow => by
    have regrouped := left
    rw [append_assoc] at left
    obtain ⟨p, -, found, h⟩ := kind.returns_within_iff tagged legal left depth opt name
    obtain ⟨rest, ahead⟩ := left.ahead_read found.toRead
    have here := left.inside_read found.toRead
    simp only [StringBody.octets, StringBody.isConstructed, if_true] at ahead h found shallow regrouped ⊢
    simp only [append_assoc] at ahead regrouped
    rw [length_append, length_append] at shallow
    have nonempty := length_pos_iff.mpr (Declares.nonempty valid.1)
    have begun := found.skip (length.getD [0x80]).length
    rw [← length_append] at begun
    rw [← append_assoc] at regrouped
    have left' := regrouped.consumed begun inside
    have pending : Pending length (p.bp + (length.getD [0x80]).length) (chunksLength kind.number length chunks)
        (p.skip (length.getD [0x80]).length) (chunks.octets kind.number).length := by
      unfold Pending chunksLength
      split
      · exact ⟨Int.natCast_nonneg _, by rw [Handle.skip_bp]⟩
      · rfl
    have loop := chunks.decides kind valid.2 (show Consumed _ (p.skip _) 0 from ⟨⟨rfl, rfl, rfl, rfl, begun.error,
      begun.bias, begun.tClass⟩, begun.cache⟩) (by rw [begun.stack]; exact inside) left' pending (Nat.le_refl _)
      (show (chunks.octets kind.number).length < depth by omega)
      (show (chunks.octets kind.number).length < depth + 1 by omega)
    have iff_ (value : List UInt8) (o' : Handle) := @returns_constructed_iff o' p _ kind.lengthId (depth + 1)
      kind.contents (chunkOf (kind.within depth false none)) _ _ valid.1 here ahead value
    constructor
    · intro fits
      obtain ⟨o', read, consumed⟩ := loop.1 fits
      refine ⟨o', (h _ _).mpr ⟨[], rfl, (iff_ [] o').mpr ⟨rfl, read⟩⟩, ?_⟩
      have total := begun.toRead.consumed consumed
      simp only [length_append] at total ⊢
      rw [Nat.add_assoc] at total
      exact total
    · intro tooLong result o' success
      obtain ⟨value, -, read⟩ := (h result o').mp success
      exact loop.2 tooLong o' ((iff_ value o').mp read).2

theorem Chunks.decides (kind : StringKind) : ∀ (chunks : Chunks), chunks.Valid kind.number →
    ∀ {o : Handle} {length : Option (List UInt8)} {more : List UInt8} {base depth rounds : Nat} {len : Int},
      Consumed o o 0 → o.stack ≠ [] → o.Left (chunks.octets kind.number ++ (endOctets length ++ more)) →
      Pending length base len o (chunks.octets kind.number).length → base ≤ o.bp →
      (chunks.octets kind.number).length < depth → (chunks.octets kind.number).length < rounds →
        (chunks.Fit kind.fits → ∃ o', Returns (Odr.chunks (chunkOf (kind.within depth false none)) base len rounds) o true o' ∧
          Consumed o o' ((chunks.octets kind.number).length + (endOctets length).length)) ∧
        (¬ chunks.Fit kind.fits → ∀ o', ¬ Returns (Odr.chunks (chunkOf (kind.within depth false none)) base len rounds) o true o')
  | _, _, _, _, _, _, _, 0, _, _, _, _, _, _, _, few => absurd few (Nat.not_lt_zero _)
  | .nil, _, o, length, more, base, depth, rounds + 1, len, fresh, _, left, pending, _, _, _ => by
    obtain ⟨rest, ahead⟩ := left.ahead
    simp only [Chunks.octets, nil_append, length_nil, append_assoc] at ahead pending ⊢
    have ended := returns_moreChunks_end ahead pending
    refine ⟨fun _ => ⟨o.skip (endOctets length).length, ?_, fresh.skip _⟩, fun tooLong => absurd trivial tooLong⟩
    rw [Odr.chunks]
    refine ended.bind ?_
    rw [if_neg (by simp), returns_pure_iff]
    exact ⟨rfl, rfl⟩
  | .cons first rest, valid, o, length, more, base, depth, rounds + 1, len, fresh, inside, left, pending, begins, shallow,
      few => by
      simp only [Chunks.octets, append_assoc] at left
      have length_ : (Chunks.octets kind.number (.cons first rest)).length =
          (identifier (0, kind.number) first.isConstructed ++ first.octets kind.number).length +
            (rest.octets kind.number).length := by
        rw [Chunks.octets, length_append]
      rw [length_] at pending shallow few ⊢
      have positive := identifier_pos (0, kind.number) first.isConstructed
      have total : (identifier (0, kind.number) first.isConstructed ++ first.octets kind.number).length =
          (identifier (0, kind.number) first.isConstructed).length + (first.octets kind.number).length := length_append
      have tagged : o.Tagged none := fresh.tClass
      have regrouped := left
      rw [← append_assoc] at regrouped
      have one := (first.decides kind valid.1 false none tagged kind.legal inside regrouped
        (show (first.octets kind.number).length < depth by omega)).chunk
      obtain ⟨b, tail, isHead, nonzero⟩ := Leads.head_ne_zero
        (show Leads _ (some (0, kind.number)) from ⟨kind.legal, first.isConstructed, _, rfl⟩)
      obtain ⟨behind, ahead⟩ := left.ahead
      have test := returns_moreChunks_chunk (ahead.trans (by rw [isHead, cons_append])) nonzero pending
        (by omega) begins
      have later {q : Handle} (consumed : Consumed o q
          (identifier (0, kind.number) first.isConstructed ++ first.octets kind.number).length) :=
        rest.decides kind valid.2 (show Consumed q q 0 from ⟨⟨rfl, rfl, rfl, rfl, consumed.error, consumed.bias,
            consumed.tClass⟩, consumed.cache⟩) (by rw [consumed.stack]; exact inside) (regrouped.consumed consumed inside)
          (show Pending length base len q (rest.octets kind.number).length by
            unfold Pending at pending ⊢
            rw [consumed.bp]
            split at pending
            next definite =>
              rw [if_pos definite]
              omega
            next indefinite =>
              rw [if_neg indefinite]
              exact pending)
          (by rw [consumed.bp]; omega) (show (rest.octets kind.number).length < depth by omega)
          (show (rest.octets kind.number).length < rounds by omega)
      constructor
      · rintro ⟨fits, fits'⟩
        obtain ⟨q, read, consumed⟩ := one.1 fits
        obtain ⟨o', loop, all⟩ := (later consumed).1 fits'
        have total := consumed.toRead.consumed all
        rw [← Nat.add_assoc] at total
        refine ⟨o', ?_, total⟩
        rw [Odr.chunks]
        refine test.bind ?_
        rw [if_pos rfl]
        refine read.bind ?_
        rw [if_pos rfl]
        exact loop
      · intro tooLong o' loop
        rw [Odr.chunks, returns_bind_iff] at loop
        obtain ⟨goes, t, test', loop⟩ := loop
        obtain ⟨rfl, rfl⟩ := test.unique test'
        rw [if_pos rfl, returns_bind_iff] at loop
        obtain ⟨done, q, read, loop⟩ := loop
        cases done with
        | false => simp at loop
        | true =>
          by_cases fits : first.Fit kind.fits
          · obtain ⟨q', read', consumed⟩ := one.1 fits
            obtain ⟨-, rfl⟩ := read'.unique read
            exact (later consumed).2 (fun fits' => tooLong ⟨fits, fits'⟩) o' loop
          · exact one.2 fits q read

end

end Yaz.Odr
