import Yaz.Odr.Chunks

/-! What becomes of the chunks of a constructed string.

`ber_octetstring` and `ber_bitstring` hand the address of their parameter down, and the decoder of a
chunk puts a fresh object there: the object of the caller stays as empty as it was made.
-/

set_option autoImplicit false

open List

namespace Yaz.Odr
open Yaz.Foundation Yaz.Ber Run

variable {o o' : Handle} {outer : Option Tag} {more : List UInt8}

theorem tagReset_outermost (outermost : o.stack = []) :
    tagReset o = { o with tClass := -1, pos := 0, top := 0, bp := 0, berTag := { o.berTag with lclass := -1 } } := by
  rw [tagReset, if_pos (by simp [outermost])]

theorem found_of_berTagDecode {zclass tag cons : Int} {opt : Bool} {name : Option String}
    (h : Returns (berTagDecode zclass tag opt name) o (some cons) o') :
    ∃ id, (tagReset o).identifierAhead = some id ∧ cons = id.lcons ∧
      o' = takeTag { tagReset o with berTag := id } := by
  have nothing (id : Nat) (q : Handle) : ¬ Returns (do
      requireUnless opt id name
      pure (none : Option Int)) q (some cons) o' := by
    intro h
    rw [returns_bind_iff] at h
    obtain ⟨_, _, _, h⟩ := h
    simp at h
  rw [berTagDecode, returns_enter_bind_iff, returns_modify_bind_iff, returns_bind_iff] at h
  obtain ⟨goes, t, test, h⟩ := h
  obtain ⟨rfl, -⟩ := same_of_moreAhead test
  cases goes with
  | false => exact absurd h (nothing 25 _)
  | true =>
    rw [if_pos rfl, returns_bind_iff] at h
    obtain ⟨ahead, u, look, h⟩ := h
    cases ahead with
    | false => simp at h
    | true =>
      obtain ⟨id, read, rfl⟩ := found_of_tagAhead look
      rw [if_pos rfl, returns_get_bind_iff, returns_ite_iff] at h
      split at h
      · rw [returns_modify_bind_iff, returns_pure_iff, Option.some.injEq] at h
        exact ⟨id, read, h.1.symm, h.2.symm⟩
      · exact absurd h (nothing 27 _)

structure StartsWithChunks (buf : List UInt8) (tag : Tag) (length : List UInt8) (len : Int) (b : UInt8)
    (rest : List UInt8) : Prop where
  legal : tag.Legal
  buf : buf = identifier tag true ++ (length ++ b :: rest)
  declares : Declares length len
  some_ : len ≠ 0
  chunk : b ≠ 0

variable {buf : List UInt8} {tag : Tag} {length rest : List UInt8} {len : Int} {b : UInt8}

theorem StartsWithChunks.identifierAhead (starts : StartsWithChunks o.buf tag length len b rest)
    (outermost : o.stack = []) (sized : o.size = o.buf.length) :
    (tagReset o).identifierAhead = some (identified tag true) := by
  have reset := tagReset_outermost outermost
  have room := congrArg List.length starts.buf
  simp only [length_append, identifier] at room
  have read := berDectag_enctag starts.legal.1 starts.legal.2.1 true (length ++ b :: rest)
    (show ((enctagOctets tag.1 tag.2 true).length : Int) ≤ odrMax (tagReset o) by
      rw [reset]
      simp only [odrMax]
      omega) (tagReset o).berTag
  have positive := identifier_pos tag true
  have ahead : (tagReset o).ahead = enctagOctets tag.1 tag.2 true ++ (length ++ b :: rest) := by
    rw [reset]
    exact starts.buf
  rw [Handle.identifierAhead, ahead, read, if_pos (by rw [reset]; exact (by decide : (-1 : Int) < 0))]
  simp only [identifier] at positive ⊢
  rw [if_neg (by omega)]
  rfl

theorem returns_moreChunks_first {base : Nat} (ahead : o.ahead = b :: rest) (chunk : b ≠ 0) (some_ : len ≠ 0)
    (begins : base = o.bp) : Returns (odpMoreChunks base len) o true o := by
  rw [odpMoreChunks, returns_enter_bind_iff, if_neg some_, returns_ite_iff]
  split
  · refine (returns_atEndOfContents_chunk ahead chunk).bind ?_
    rw [if_neg (by simp), returns_pure_iff]
    exact ⟨rfl, rfl⟩
  · rw [returns_get_bind_iff, returns_pure_iff]
    exact ⟨by simpa using (by omega : (o.bp : Int) - base < len), rfl⟩

theorem not_returns_constructed {string : Codec (Bool × Option (List UInt8))} {lengthId rounds : Nat}
    {contents : Int → Codec (Option (List UInt8))} (declares : Declares length len) (inside : o.Inside)
    (ahead : o.ahead = length ++ b :: rest) (chunk : b ≠ 0) (some_ : len ≠ 0) {value : List UInt8}
    (fails : ∀ result q, ¬ Returns string (o.skip length.length) (true, result) q) :
    ¬ Returns (berStringDecode lengthId contents (chunkOf string) rounds 1) o (some value) o' := by
  rw [returns_constructed_iff declares inside ahead]
  rintro ⟨-, loop⟩
  have first : (o.skip length.length).ahead = b :: rest := by rw [Handle.ahead_skip, ahead, drop_left]
  cases rounds with
  | zero => exact absurd loop (not_returns_stop _ _ _ _)
  | succ =>
    rw [chunks, returns_bind_iff] at loop
    obtain ⟨goes, t, test, loop⟩ := loop
    obtain ⟨rfl, rfl⟩ := (returns_moreChunks_first first chunk some_ (Handle.skip_bp o _).symm).unique test
    rw [if_pos rfl, returns_bind_iff] at loop
    obtain ⟨done, q, read, loop⟩ := loop
    cases done with
    | false => simp at loop
    | true =>
      rw [chunkOf, returns_bind_iff] at read
      obtain ⟨⟨ret, result⟩, u, string, read⟩ := read
      rw [returns_pure_iff] at read
      exact fails result u (read.1 ▸ string)

/-- With an empty constructed stack `ber_tag` goes back to the start of the buffer for every chunk: the
string is found again in its own place, without an end. -/
theorem StringKind.not_returns_outermost (kind : StringKind) (depth : Nat) (name : Option String)
    (starts : StartsWithChunks o.buf tag length len b rest) (outermost : o.stack = []) (sized : o.size = o.buf.length)
    (result : Option (List UInt8)) : ¬ Returns (kind.within depth false name) o (true, result) o' := by
  induction depth generalizing o o' name result with
  | zero => exact kind.stops _ _ _ _ _
  | succ depth ih =>
    intro h
    obtain ⟨element, isElement, inner⟩ := kind.step depth false name
    rw [isElement, odrElement, returns_get_bind_iff, returns_ite_iff] at h
    split at h
    · simp at h
    · rw [returns_modify_bind_iff, returns_get_bind_iff, returns_bind_iff] at h
      have same : (defaultTag 0 kind.number o).buf = o.buf ∧ (defaultTag 0 kind.number o).stack = o.stack ∧
          (defaultTag 0 kind.number o).size = o.size := by
        unfold defaultTag
        split <;> exact ⟨rfl, rfl, rfl⟩
      generalize defaultTag 0 kind.number o = p at h same
      obtain ⟨buf, stack, size⟩ := same
      rw [← buf] at starts sized
      rw [← stack] at outermost
      rw [← size] at sized
      obtain ⟨found, q, ident, h⟩ := h
      cases found with
      | none =>
        rw [returns_bind_iff] at h
        obtain ⟨missing, t, absent, h⟩ := h
        obtain ⟨⟨rfl, -⟩, rfl⟩ := h
        simp [returns_odrMissing_iff] at absent
      | some =>
        obtain ⟨id, read, rfl, rfl⟩ := found_of_berTagDecode ident
        obtain rfl := Option.some.inj ((starts.identifierAhead outermost sized).symm.trans read)
        obtain ⟨value, -, read⟩ := (inner _ _ _ _).mp h
        have reset := tagReset_outermost outermost
        have inside : Handle.Inside (takeTag { tagReset p with berTag := identified tag true }) := by
          have room := congrArg List.length starts.buf
          rw [reset]
          refine ⟨sized, ?_⟩
          simp only [takeTag, identified, Int.toNat_natCast, length_append] at room ⊢
          omega
        have ahead : Handle.ahead (takeTag { tagReset p with berTag := identified tag true }) = length ++ b :: rest := by
          rw [reset]
          simp only [Handle.ahead, takeTag, identified, Int.toNat_natCast, Nat.zero_add]
          rw [starts.buf, drop_left]
        refine not_returns_constructed starts.declares inside ahead starts.chunk starts.some_ (fun result q => ?_) read
        -- the chunk is read as the whole string once more, which takes one level of nesting
        rw [reset]
        refine ih none ?_ ?_ ?_ result
        · exact starts
        · exact outermost
        · exact sized

theorem Handle.Left.long {body : List UInt8} (left : o.Left body) : body.length ≤ o.size := by
  obtain ⟨rest, ahead⟩ := left.ahead
  have length := left.inside.length ahead
  omega

theorem Chunks.octets_pos {number : Nat} {chunks : Chunks} (some_ : chunks ≠ .nil) :
    0 < (chunks.octets number).length := by
  cases chunks with
  | nil => exact absurd rfl some_
  | cons first =>
    have positive := identifier_pos (0, number) first.isConstructed
    rw [Chunks.octets, length_append, length_append]
    omega

/-- A constructed string is read if and only if everything fits and it has no chunks where it is the
outermost element; nothing is in the value. -/
theorem StringKind.constructed_succeeds_iff (kind : StringKind) {length : Option (List UInt8)} {chunks : Chunks}
    (valid : (StringBody.constructed length chunks).Valid kind.number) (tagged : o.Tagged outer)
    (legal : (outer.getD (0, kind.number)).Legal)
    (left : o.Left (identifier (outer.getD (0, kind.number)) true ++
      (StringBody.constructed length chunks).octets kind.number ++ more)) (opt : Bool) (name : Option String) :
    ((∃ result o', Returns (kind.within (o.size + 1) opt name) o (true, result) o') ↔
      chunks.Fit kind.fits ∧ (o.stack = [] → chunks = .nil)) ∧
    ∀ result o', Returns (kind.within (o.size + 1) opt name) o (true, result) o' → result = some [] := by
  have regrouped := left
  rw [append_assoc] at regrouped
  obtain ⟨p, -, found, h⟩ := kind.returns_within_iff tagged legal regrouped o.size opt name
  obtain ⟨rest, ahead⟩ := regrouped.ahead_read found.toRead
  have inside := regrouped.inside_read found.toRead
  simp only [StringBody.octets, if_true, append_assoc] at ahead h
  have iff_ (value : List UInt8) (o' : Handle) := @returns_constructed_iff o' p _ kind.lengthId (o.size + 1)
    kind.contents (chunkOf (kind.within o.size false none)) _ _ valid.1 inside ahead value
  have empty (result : Option (List UInt8)) (o' : Handle)
      (success : Returns (kind.within (o.size + 1) opt name) o (true, result) o') : result = some [] := by
    obtain ⟨value, rfl, read⟩ := (h result o').mp success
    rw [((iff_ value o').mp read).1]
  refine ⟨?_, empty⟩
  by_cases outermost : o.stack = []
  · cases chunks with
    | nil =>
      refine ⟨fun _ => ⟨trivial, fun _ => rfl⟩, fun _ => ?_⟩
      have behind : (p.skip (length.getD [0x80]).length).ahead = endOctets length ++ (more ++ rest) := by
        rw [Handle.ahead_skip, ahead, drop_left, Chunks.octets, nil_append]
      have pending : Pending length (p.bp + (length.getD [0x80]).length) (chunksLength kind.number length .nil)
          (p.skip (length.getD [0x80]).length) 0 := by
        unfold Pending chunksLength
        split
        · exact ⟨Int.natCast_nonneg _, by rw [Handle.skip_bp]; rfl⟩
        · rfl
      have loop : Returns (Odr.chunks (chunkOf (kind.within o.size false none)) (p.bp + (length.getD [0x80]).length)
          (chunksLength kind.number length .nil) (o.size + 1)) (p.skip (length.getD [0x80]).length) true
          ((p.skip (length.getD [0x80]).length).skip (endOctets length).length) := by
        rw [Odr.chunks]
        refine (returns_moreChunks_end behind pending).bind ?_
        rw [if_neg (by simp), returns_pure_iff]
        exact ⟨rfl, rfl⟩
      exact ⟨some [], _, (h _ _).mpr ⟨[], rfl, (iff_ [] _).mpr ⟨rfl, loop⟩⟩⟩
    | cons first others =>
      -- the first chunk would have to be found behind the octets where `ber_tag` starts again
      constructor
      · rintro ⟨result, o', success⟩
        obtain ⟨value, -, read⟩ := (h result o').mp success
        obtain ⟨b, tail, isHead, chunk⟩ := Leads.head_ne_zero
          (show Leads ((Chunks.cons first others).octets kind.number) (some (0, kind.number)) from
            ⟨kind.legal, first.isConstructed, _, by rw [Chunks.octets, append_assoc]⟩)
        rw [isHead, cons_append] at ahead
        have some_ : chunksLength kind.number length (.cons first others) ≠ 0 := by
          have positive := @Chunks.octets_pos kind.number (.cons first others) (by simp)
          unfold chunksLength
          split <;> omega
        have start : o.bp = 0 := by
          have encloses := left.encloses
          rwa [Handle.Encloses, outermost] at encloses
        have whole : o.buf = o.ahead := by rw [Handle.ahead, start, drop_zero]
        have starts : StartsWithChunks p.buf (outer.getD (0, kind.number)) (length.getD [0x80])
            (chunksLength kind.number length (.cons first others)) b (tail ++ (endOctets length ++ (more ++ rest))) := by
          refine ⟨legal, ?_, valid.1, some_, chunk⟩
          obtain ⟨behind, here⟩ := regrouped.ahead
          have position := found.ahead
          rw [here, append_assoc, drop_left, ahead] at position
          rw [found.buf, whole, here, append_assoc, ← position]
        have behind : StartsWithChunks (p.skip (length.getD [0x80]).length).buf (outer.getD (0, kind.number))
            (length.getD [0x80]) (chunksLength kind.number length (.cons first others)) b
            (tail ++ (endOctets length ++ (more ++ rest))) := starts
        have sized : (p.skip (length.getD [0x80]).length).size = (p.skip (length.getD [0x80]).length).buf.length :=
          found.size.trans (left.inside.sized.trans (congrArg List.length found.buf.symm))
        exact absurd read (not_returns_constructed valid.1 inside ahead chunk some_ fun result q =>
          kind.not_returns_outermost o.size none behind (found.stack.trans outermost) sized result)
      · rintro ⟨-, none_⟩
        cases none_ outermost
  · have long := left.long
    rw [length_append, length_append] at long
    have decides := (StringBody.constructed length chunks).decides kind valid opt name tagged legal outermost left
      (show _ < o.size + 1 by omega)
    constructor
    · rintro ⟨result, o', success⟩
      refine ⟨?_, fun out => absurd out outermost⟩
      by_contra tooLong
      exact decides.2 tooLong result o' success
    · rintro ⟨fits, -⟩
      obtain ⟨o', success, -⟩ := decides.1 fits
      exact ⟨_, o', success⟩

theorem returns_wrappedString_iff {length : Option (List UInt8)} {chunks : Chunks}
    {unwrap : Option (List UInt8) → Codec (Bool × Option (List UInt8))} (tagged : o.Tagged outer)
    (legal : (outer.getD (0, 4)).Legal)
    (left : o.Left (identifier (outer.getD (0, 4)) true ++ (StringBody.constructed length chunks).octets 4 ++ more))
    {opt : Bool} {name : Option String} {value : Option (List UInt8)}
    (read : Returns (odrOctetstringDecode opt name) o (true, value) o') (result : Bool × Option (List UInt8)) (q : Handle) :
    Returns (wrappedString unwrap opt name) o result q ↔ Returns (unwrap none) o' result q := by
  rw [append_assoc] at left
  obtain ⟨p, ident, -, h⟩ := @StringKind.returns_within_iff o _ outer octetKind true tagged legal left o.size opt name
  rw [odrOctetstringDecode, returns_get_bind_iff] at read
  obtain ⟨octets, -, string⟩ := (h value o').mp read
  rw [wrappedString, returns_get_bind_iff, odrElement, returns_get_bind_iff, left.error, returns_ite_iff,
    if_neg (by simp), returns_modify_bind_iff, returns_get_bind_iff, returns_bind_iff]
  constructor
  · rintro ⟨found, t, ident', h⟩
    obtain ⟨rfl, rfl⟩ := ident.unique ident'
    rw [returns_bind_iff] at h
    obtain ⟨found, u, string', h⟩ := h
    obtain ⟨rfl, rfl⟩ := string.unique string'
    exact h
  · exact fun h => ⟨_, p, ident, Returns.bind string h⟩

/-! ### The chunks of a string -/

inductive StringDecoder where
  | octetstring
  | cstring
  | iconvString (convert : Option (List UInt8 → Option (List UInt8)))
  | bitstring

namespace StringDecoder

def kind : StringDecoder → StringKind
  | .octetstring | .cstring | .iconvString _ => octetKind
  | .bitstring => bitKind

/-- A string that is read has the contents of its chunks, and where `odr_octetstring` reads it,
`odr_cstring` yields that text and `odr_iconv_string` no null pointer. -/
def Reassembles (decoder : StringDecoder) (body : StringBody) (opt : Bool) (name : Option String) (o : Handle) : Prop :=
  match decoder with
  | .octetstring => ∀ value o', Returns (odrOctetstringDecode opt name) o (true, value) o' → value = some (body.value id)
  | .cstring => ∀ value o', Returns (odrOctetstringDecode opt name) o (true, value) o' →
      ∃ q, Returns (odrCstringDecode opt name) o (true, some (body.value id)) q
  | .iconvString convert => ∀ value o', Returns (odrOctetstringDecode opt name) o (true, value) o' →
      ∃ ret p q, Returns (odrIconvStringDecode convert opt name) o (ret, p) q ∧ (ret = true → p ≠ none)
  | .bitstring => ∀ value o', Returns (odrBitstringDecode opt name) o (true, value) o' →
      value = some (body.value List.tail)

/-- There is nothing to reassemble, or the string is not read: it is the outermost element and has chunks, or
a chunk has more bits than an object holds. -/
def HoldsAt (decoder : StringDecoder) (chunks : Chunks) (o : Handle) : Prop :=
  match decoder with
  | .octetstring => chunks.value id = [] ∨ o.stack = []
  | .cstring => o.stack = [] ∧ chunks ≠ .nil
  | .iconvString convert => convert.isSome ∨ (o.stack = [] ∧ chunks ≠ .nil)
  | .bitstring => chunks.value List.tail = [] ∨ o.stack = [] ∨ ¬ chunks.Fit bitKind.fits

end StringDecoder

mutual

theorem StringBody.fit_octetKind : ∀ body : StringBody, body.Fit octetKind.fits
  | .primitive _ _ => trivial
  | .constructed _ chunks => Chunks.fit_octetKind chunks

theorem Chunks.fit_octetKind : ∀ chunks : Chunks, chunks.Fit octetKind.fits
  | .nil => trivial
  | .cons first rest => ⟨StringBody.fit_octetKind first, Chunks.fit_octetKind rest⟩

end

theorem Chunks.value_eq_nil_of_nil {chunks : Chunks} (none_ : chunks = .nil) (part : List UInt8 → List UInt8) :
    chunks.value part = [] := by
  rw [none_, Chunks.value]

theorem returns_terminated_none (result : Bool × Option (List UInt8)) : ¬ Returns (terminated none) o result o' :=
  not_returns_stop _ _ _ _

namespace StringDecoder

variable {length : Option (List UInt8)} {chunks : Chunks}

theorem octets_succeed_iff (valid : (StringBody.constructed length chunks).Valid 4) (tagged : o.Tagged outer)
    (legal : (outer.getD (0, 4)).Legal)
    (left : o.Left (identifier (outer.getD (0, 4)) true ++ (StringBody.constructed length chunks).octets 4 ++ more))
    (opt : Bool) (name : Option String) :
    ((∃ value o', Returns (odrOctetstringDecode opt name) o (true, value) o') ↔ (o.stack = [] → chunks = .nil)) ∧
      ∀ value o', Returns (odrOctetstringDecode opt name) o (true, value) o' → value = some [] := by
  obtain ⟨succeeds, empty⟩ := octetKind.constructed_succeeds_iff valid tagged legal left opt name
  simp only [odrOctetstringDecode, returns_get_bind_iff]
  exact ⟨succeeds.trans (and_iff_right chunks.fit_octetKind), empty⟩

theorem bits_succeed_iff (valid : (StringBody.constructed length chunks).Valid 3) (tagged : o.Tagged outer)
    (legal : (outer.getD (0, 3)).Legal)
    (left : o.Left (identifier (outer.getD (0, 3)) true ++ (StringBody.constructed length chunks).octets 3 ++ more))
    (opt : Bool) (name : Option String) :
    ((∃ value o', Returns (odrBitstringDecode opt name) o (true, value) o') ↔
      chunks.Fit bitKind.fits ∧ (o.stack = [] → chunks = .nil)) ∧
      ∀ value o', Returns (odrBitstringDecode opt name) o (true, value) o' → value = some [] := by
  simp only [odrBitstringDecode, returns_get_bind_iff]
  exact bitKind.constructed_succeeds_iff valid tagged legal left opt name

theorem all_some_iff {run : Codec (Bool × Option (List UInt8))} {contents : List UInt8}
    (empty : ∀ value o', Returns run o (true, value) o' → value = some []) :
    (∀ value o', Returns run o (true, value) o' → value = some contents) ↔
      ((∃ value o', Returns run o (true, value) o') → contents = []) := by
  constructor
  · rintro all ⟨value, o', read⟩
    exact Option.some.inj ((all value o' read).symm.trans (empty value o' read))
  · intro none_ value o' read
    rw [empty value o' read, none_ ⟨value, o', read⟩]

/-- A decoder gets to the contents of all chunks if and only if `HoldsAt` does. -/
theorem reassembles_iff (decoder : StringDecoder)
    (valid : (StringBody.constructed length chunks).Valid decoder.kind.number) (tagged : o.Tagged outer)
    (legal : (outer.getD (0, decoder.kind.number)).Legal)
    (left : o.Left (identifier (outer.getD (0, decoder.kind.number)) true ++
      (StringBody.constructed length chunks).octets decoder.kind.number ++ more)) (opt : Bool) (name : Option String) :
    decoder.Reassembles (.constructed length chunks) opt name o ↔ decoder.HoldsAt chunks o := by
  cases decoder with
  | octetstring =>
    obtain ⟨succeeds, empty⟩ := octets_succeed_iff valid tagged legal left opt name
    refine (all_some_iff empty).trans ?_
    rw [succeeds, HoldsAt]
    constructor
    · intro holds
      by_cases outermost : o.stack = []
      · exact .inr outermost
      · exact .inl (holds fun out => absurd out outermost)
    · intro holds inside
      exact holds.elim (fun same => same) fun outermost => Chunks.value_eq_nil_of_nil (inside outermost) id
  | bitstring =>
    obtain ⟨succeeds, empty⟩ := bits_succeed_iff valid tagged legal left opt name
    refine (all_some_iff empty).trans ?_
    rw [succeeds, HoldsAt]
    constructor
    · intro holds
      by_cases outermost : o.stack = []
      · exact .inr (.inl outermost)
      · by_cases fits : chunks.Fit bitKind.fits
        · exact .inl (holds ⟨fits, fun out => absurd out outermost⟩)
        · exact .inr (.inr fits)
    · rintro holds ⟨fits, inside⟩
      rcases holds with same | outermost | tooLong
      · exact same
      · exact Chunks.value_eq_nil_of_nil (inside outermost) List.tail
      · exact absurd fits tooLong
  | cstring =>
    obtain ⟨succeeds, -⟩ := octets_succeed_iff valid tagged legal left opt name
    constructor
    · intro yields
      by_contra notRead
      obtain ⟨value, o', read⟩ := succeeds.mpr fun outermost => by
        by_contra some_
        exact notRead ⟨outermost, some_⟩
      obtain ⟨q, success⟩ := yields value o' read
      -- the wrapper is still null when the octet behind its last one is set
      exact absurd ((returns_wrappedString_iff tagged legal left read _ q).mp success) (returns_terminated_none _)
    · rintro ⟨outermost, some_⟩ value o' read
      exact absurd (succeeds.mp ⟨value, o', read⟩ outermost) some_
  | iconvString convert =>
    obtain ⟨succeeds, -⟩ := octets_succeed_iff valid tagged legal left opt name
    constructor
    · intro yields
      by_contra notRead
      obtain ⟨without, inside⟩ := not_or.mp notRead
      obtain ⟨value, o', read⟩ := succeeds.mpr fun outermost => by
        by_contra some_
        exact inside ⟨outermost, some_⟩
      obtain ⟨ret, p, q, success, -⟩ := yields value o' read
      have unwrapped := (returns_wrappedString_iff tagged legal left read _ q).mp success
      cases convert with
      | none => exact absurd unwrapped (returns_terminated_none _)
      | some => exact without rfl
    · rintro (handle | ⟨outermost, some_⟩) value o' read
      · obtain ⟨convert, rfl⟩ := Option.isSome_iff_exists.mp handle
        cases text : convert [] with
        | some converted =>
          refine ⟨true, some converted, o', (returns_wrappedString_iff tagged legal left read _ o').mpr ?_, by simp⟩
          simp only [Option.getD_none, text, returns_pure_iff, and_self]
        | none =>
          refine ⟨false, none, { o' with error := some .data, errorId := 45, element := "" },
            (returns_wrappedString_iff tagged legal left read _ _).mpr ?_, by simp⟩
          simp only [Option.getD_none, text, returns_odrSeterror_bind_iff, returns_pure_iff, and_self]
      · exact absurd (succeeds.mp ⟨value, o', read⟩ outermost) some_

/-- `30 07 24 05 04 03 61 62 63` after its first two octets: a constructed string is ahead whose chunk is `abc`. -/
def beforeChunks : Handle :=
  (odrSequenceBeginDecode none (decoding [0x30, 7, 0x24, 5, 4, 3, 0x61, 0x62, 0x63])).state

def abcInChunks : Chunks := .cons (.primitive [3] [0x61, 0x62, 0x63]) .nil

theorem valid_abcInChunks : (StringBody.constructed (some [5]) abcInChunks).Valid 4 :=
  ⟨declares_short (show 5 ≤ 127 by decide), declares_short (show 3 ≤ 127 by decide), trivial⟩

theorem beforeChunks_tagged : beforeChunks.Tagged none := show beforeChunks.tClass = -1 by decide

theorem beforeChunks_left :
    beforeChunks.Left (identifier (0, 4) true ++ (StringBody.constructed (some [5]) abcInChunks).octets 4 ++ []) where
  inside := ⟨by decide, by decide⟩
  error := by decide
  bias := by decide
  ahead := ⟨[], by decide⟩
  encloses := by
    have stack : beforeChunks.stack = [{ base := 2, baseOffset := 0, len := 7, lenOffset := 0, lenlen := 1 }] := by
      decide
    rw [Handle.Encloses, stack]
    exact (if_pos (by decide)).mpr (by decide)
  cache cached := absurd cached (by decide)

theorem reassembles_iff_beforeChunks :
    ¬ octetstring.Reassembles (.constructed (some [5]) abcInChunks) false none beforeChunks ∧
      (iconvString (some some)).Reassembles (.constructed (some [5]) abcInChunks) false none beforeChunks := by
  constructor
  · rw [reassembles_iff .octetstring valid_abcInChunks beforeChunks_tagged (by decide) beforeChunks_left]
    rintro (same | outermost)
    · exact absurd same (by decide)
    · exact absurd outermost (by decide)
  · rw [reassembles_iff (.iconvString (some some)) valid_abcInChunks beforeChunks_tagged (by decide) beforeChunks_left]
    exact .inl rfl

/-- `odr_octetstring` succeeds there with an object of length 0. -/
theorem not_reassembles_abc : ¬ ∀ (decoder : StringDecoder) (length : Option (List UInt8)) (chunks : Chunks)
    (more : List UInt8) (opt : Bool) (name : Option String) (o : Handle),
      (StringBody.constructed length chunks).Valid decoder.kind.number → o.Tagged none →
      o.Left (identifier (0, decoder.kind.number) true ++
        (StringBody.constructed length chunks).octets decoder.kind.number ++ more) →
        decoder.Reassembles (.constructed length chunks) opt name o := by
  intro claimed
  have value := claimed .octetstring (some [5]) abcInChunks [] false none beforeChunks valid_abcInChunks
    beforeChunks_tagged beforeChunks_left (some []) _ ⟨by decide, rfl⟩
  exact absurd value (by decide)

end StringDecoder

end Yaz.Odr
