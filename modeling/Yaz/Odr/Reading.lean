import Yaz.Odr.LookAhead
import Yaz.Odr.Octets
import Yaz.Odr.Primitives

/-! Decoding reads the octets of a value back.

What a decoder needs to know of the octets behind its own element is only where the
enclosing element ends and which identifier comes next.
-/

set_option autoImplicit false

namespace Yaz.Odr
open List Yaz.Foundation Yaz.Ber Run

variable {α : Type} {o o' p : Handle} {body used more : List UInt8} {name : Option String} {tag : Tag} {constructed : Bool}

/-! ### What is left of the enclosing element -/

def Leads (body : List UInt8) : Option Tag → Prop
  | none => body = []
  | some tag => tag.Legal ∧ ∃ constructed rest, body = identifier tag constructed ++ rest

/-- The octets left of the enclosing element are `body`. -/
def Handle.Encloses (o : Handle) (body : List UInt8) : Prop :=
  match o.stack with
  | [] => o.bp = 0
  | entry :: _ =>
    if 0 ≤ entry.len then (o.bp : Int) + body.length = entry.base + entry.len
    else ∃ rest, o.ahead = body ++ 0 :: 0 :: rest

/-- Where a decoder may be called: `body` is left of the enclosing element, and the cache is empty
or holds the identifier `body` starts with. -/
structure Handle.Left (o : Handle) (body : List UInt8) : Prop where
  inside : o.Inside
  error : o.error = none
  bias : o.choiceBias = -1
  ahead : ∃ rest, o.ahead = body ++ rest
  encloses : o.Encloses body
  cache : 0 ≤ o.berTag.lclass → body ≠ [] ∧ o.Coherent

/-- The position has moved on by `n` octets and no error or tag is set. -/
structure Read (o o' : Handle) (n : Nat) : Prop where
  buf : o'.buf = o.buf
  size : o'.size = o.size
  stack : o'.stack = o.stack
  bp : o'.bp = o.bp + n
  error : o'.error = none
  bias : o'.choiceBias = -1
  tClass : o'.tClass = -1

structure Consumed (o o' : Handle) (n : Nat) : Prop extends Read o o' n where
  cache : o'.berTag.lclass < 0

theorem Read.trans {n m : Nat} (h : Read o p n) (k : Read p o' m) : Read o o' (n + m) where
  buf := k.buf.trans h.buf
  size := k.size.trans h.size
  stack := k.stack.trans h.stack
  bp := by rw [k.bp, h.bp, Nat.add_assoc]
  error := k.error
  bias := k.bias
  tClass := k.tClass

theorem Read.consumed {n m : Nat} (h : Read o p n) (k : Consumed p o' m) : Consumed o o' (n + m) :=
  ⟨h.trans k.toRead, k.cache⟩

theorem Read.ahead {n : Nat} (h : Read o o' n) : o'.ahead = o.ahead.drop n := by
  rw [Handle.ahead, Handle.ahead, h.buf, h.bp, drop_drop]

theorem Handle.Left.inside_read (left : o.Left (used ++ more)) (read : Read o o' used.length) : o'.Inside := by
  obtain ⟨rest, ahead⟩ := left.ahead
  have advanced := left.inside.advanced (append_assoc used more rest ▸ ahead)
  exact ⟨by rw [read.size, read.buf]; exact advanced.sized, by rw [read.bp, read.buf]; exact advanced.position⟩

theorem Handle.Left.ahead_read (left : o.Left (used ++ more)) (read : Read o o' used.length) :
    ∃ rest, o'.ahead = more ++ rest := by
  obtain ⟨rest, ahead⟩ := left.ahead
  refine ⟨rest, ?_⟩
  rw [read.ahead, ahead, append_assoc, drop_left]

theorem Handle.Left.consumed (left : o.Left (used ++ more)) (read : Consumed o o' used.length)
    (enclosed : o.stack ≠ []) : o'.Left more where
  inside := left.inside_read read.toRead
  error := read.error
  bias := read.bias
  ahead := left.ahead_read read.toRead
  encloses := by
    have encloses := left.encloses
    unfold Handle.Encloses at encloses ⊢
    rw [read.stack, read.bp, read.ahead]
    cases top : o.stack with
    | nil => exact absurd top enclosed
    | cons _ rest =>
      rw [top] at encloses
      dsimp only at encloses ⊢
      split
      next definite =>
        rw [if_pos definite, length_append] at encloses
        omega
      next indefinite =>
        rw [if_neg indefinite] at encloses
        obtain ⟨rest, ahead⟩ := encloses
        refine ⟨rest, ?_⟩
        rw [ahead, append_assoc, drop_left]
  cache := fun filled => absurd read.cache (by omega)

theorem Leads.head_ne_zero (leads : Leads body (some tag)) : ∃ b rest, body = b :: rest ∧ b ≠ 0 := by
  obtain ⟨⟨isClass, -, notEnd⟩, constructed, rest, rfl⟩ := leads
  have nonzero := enctagOctets_head_ne_zero isClass notEnd constructed
  obtain ⟨b, tail, same⟩ := exists_cons_of_ne_nil (enctagOctets_ne_nil tag.1 tag.2 constructed)
  refine ⟨b, tail ++ rest, ?_, ?_⟩
  · rw [identifier, same, cons_append]
  · rintro rfl
    exact nonzero (by rw [same]; rfl)

theorem Leads.ne_nil (leads : Leads body (some tag)) : body ≠ [] := by
  obtain ⟨b, rest, rfl, -⟩ := leads.head_ne_zero
  simp

variable {first : Option Tag}

theorem returns_constructedMore (left : o.Left body) (leads : Leads body first)
    (enclosed : o.stack ≠ []) : Returns odrConstructedMore o (!body.isEmpty) o := by
  have encloses := left.encloses
  unfold Handle.Encloses at encloses
  obtain ⟨rest, ahead⟩ := left.ahead
  rw [odrConstructedMore, returns_enter_bind_iff, returns_get_bind_iff, left.error, returns_ite_iff,
    if_neg (by simp)]
  cases top : o.stack with
  | nil => exact absurd top enclosed
  | cons =>
    rw [top] at encloses
    dsimp only at encloses ⊢
    rw [returns_ite_iff]
    split
    next definite =>
      rw [if_pos definite] at encloses
      rw [returns_pure_iff]
      refine ⟨?_, rfl⟩
      cases body with
      | nil =>
        simp only [length_nil, Nat.cast_zero, Int.add_zero] at encloses
        simp [encloses]
      | cons =>
        simp only [length_cons, Nat.cast_add, Nat.cast_one] at encloses
        simp only [isEmpty_cons, Bool.not_false, decide_eq_true_eq]
        omega
    next indefinite =>
      rw [if_neg indefinite] at encloses
      obtain ⟨rest, ahead⟩ := encloses
      rw [atEndOfContents, bind_bind, returns_readAt_bind_iff]
      cases first with
      | none =>
        obtain rfl : body = [] := leads
        refine ⟨0, o.getElem?_of_ahead ahead, ?_⟩
        have second : (o.skip 1).ahead = 0 :: rest := by rw [Handle.ahead_skip, ahead]; rfl
        rw [if_pos rfl, bind_bind, returns_readAt_bind_iff]
        refine ⟨0, (o.skip 1).getElem?_of_ahead second, ?_⟩
        simp
      | some =>
        obtain ⟨b, tail, rfl, nonzero⟩ := leads.head_ne_zero
        refine ⟨b, o.getElem?_of_ahead ahead, ?_⟩
        rw [if_neg nonzero]
        simp

theorem returns_moreAhead (left : o.Left body) (leads : Leads body first)
    (outermost : o.stack = [] → body ≠ []) : Returns moreAhead o (!body.isEmpty) o := by
  rw [moreAhead, returns_get_bind_iff, returns_ite_iff]
  split
  next empty =>
    rw [returns_pure_iff]
    have nonempty := outermost (List.isEmpty_iff.mp empty)
    simpa using nonempty
  next enclosed => exact returns_constructedMore left leads (by simpa using enclosed)

def identified (tag : Tag) (constructed : Bool) : BerTag where
  lclass := tag.1
  ltag := tag.2
  br := (identifier tag constructed).length
  lcons := if constructed then 1 else 0

@[simps]
def Handle.cached (o : Handle) (cache : BerTag) : Handle := { o with berTag := cache }

theorem berDectag_ahead (left : o.Left (identifier tag constructed ++ more)) (legal : tag.Legal) (cache : BerTag) :
    berDectag o.ahead (odrMax o) cache = some (((identifier tag constructed).length : Int),
      { identified tag constructed with br := cache.br }) := by
  obtain ⟨rest, ahead⟩ := left.ahead
  have length := left.inside.length ahead
  rw [length_append] at length
  rw [ahead, append_assoc]
  exact berDectag_enctag legal.1 legal.2.1 constructed _ (by simp only [odrMax, identifier] at length ⊢; omega) cache

theorem Handle.Left.coherent (left : o.Left (identifier tag constructed ++ more)) (legal : tag.Legal) :
    (o.cached (identified tag constructed)).Coherent :=
  berDectag_ahead left legal {}

theorem returns_tagAhead (left : o.Left (identifier tag constructed ++ more)) (legal : tag.Legal) :
    Returns (tagAhead name) o true (o.cached (identified tag constructed)) := by
  rw [tagAhead, returns_get_bind_iff, returns_ite_iff]
  split
  next empty =>
    rw [returns_reading_bind_iff]
    refine ⟨_, berDectag_ahead left legal o.berTag, ?_⟩
    have positive := length_pos_iff.mpr (enctagOctets_ne_nil tag.1 tag.2 constructed)
    rw [returns_modify_bind_iff, returns_ite_iff, if_neg (by simp only [identifier]; omega), returns_pure_iff]
    exact ⟨rfl, rfl⟩
  next filled =>
    have coherent := (left.cache (by omega)).2
    rw [Handle.Coherent, berDectag_ahead left legal, Option.some.injEq, Prod.mk.injEq] at coherent
    have same : o.berTag = identified tag constructed := by
      generalize o.berTag = cache at coherent
      obtain ⟨lclass, ltag, br, lcons⟩ := cache
      obtain ⟨rfl, rfl, rfl, -, rfl⟩ := coherent
      rfl
    rw [returns_pure_iff, ← same]
    exact ⟨rfl, rfl⟩

theorem Handle.Left.tagReset (left : o.Left body) : (tagReset o).Left body ∧ Read o (tagReset o) 0 := by
  unfold Odr.tagReset
  split
  next outermost =>
    have start : o.bp = 0 := by
      have encloses := left.encloses
      rwa [Handle.Encloses, List.isEmpty_iff.mp outermost] at encloses
    have ahead : o.buf = o.ahead := by rw [Handle.ahead, start, drop_zero]
    refine ⟨⟨⟨left.inside.sized, Nat.zero_le _⟩, left.error, left.bias, ?_, ?_, ?_⟩, rfl, rfl, rfl, ?_, left.error,
      left.bias, rfl⟩
    · obtain ⟨rest, same⟩ := left.ahead
      exact ⟨rest, ahead.trans same⟩
    · rw [Handle.Encloses, List.isEmpty_iff.mp outermost]
    · exact fun filled => absurd filled (show ¬ (0 : Int) ≤ -1 by decide)
    · exact start.symm
  · refine ⟨⟨⟨left.inside.sized, left.inside.position⟩, left.error, left.bias, left.ahead, left.encloses, left.cache⟩,
      rfl, rfl, rfl, rfl, left.error, left.bias, rfl⟩

theorem returns_berTag_match (left : o.Left (identifier tag constructed ++ more)) (legal : tag.Legal)
    (opt : Bool) (name : Option String) :
    ∃ o', Returns (berTagDecode tag.1 tag.2 opt name) o (some (if constructed then 1 else 0)) o' ∧
      Consumed o o' (identifier tag constructed).length := by
  obtain ⟨reset, same⟩ := left.tagReset
  have leads : Leads (identifier tag constructed ++ more) (some tag) := ⟨legal, constructed, more, rfl⟩
  refine ⟨takeTag ((tagReset o).cached (identified tag constructed)), ?_, ?_⟩
  · rw [berTagDecode, returns_enter_bind_iff, returns_modify_bind_iff]
    refine (returns_moreAhead reset leads fun _ => leads.ne_nil).bind ?_
    rw [if_pos (by simpa using leads.ne_nil)]
    refine (returns_tagAhead reset legal).bind ?_
    rw [if_pos rfl, returns_get_bind_iff, returns_ite_iff, if_pos ⟨rfl, rfl⟩, returns_modify_bind_iff, returns_pure_iff]
    exact ⟨rfl, rfl⟩
  · refine ⟨⟨same.buf, same.size, same.stack, ?_, same.error, same.bias, same.tClass⟩, by simp [takeTag]⟩
    have bp := same.bp
    simp only [takeTag, identified, Handle.cached, Int.toNat_natCast]
    omega

theorem returns_berTag_differ (left : o.Left body) (leads : Leads body first)
    (outermost : o.stack = [] → body ≠ []) (differ : first ≠ some tag) (name : Option String) :
    ∃ o', Returns (berTagDecode tag.1 tag.2 true name) o none o' ∧ Read o o' 0 ∧ o'.Left body := by
  obtain ⟨reset, same⟩ := left.tagReset
  have more := returns_moreAhead reset leads fun empty => outermost (same.stack ▸ empty)
  cases first with
  | none =>
    obtain rfl : body = [] := leads
    refine ⟨tagReset o, ?_, same, reset⟩
    rw [berTagDecode, returns_enter_bind_iff, returns_modify_bind_iff]
    refine more.bind ?_
    simp [requireUnless]
  | some other =>
    obtain ⟨legal, constructed, rest, rfl⟩ := leads
    have nonempty := Leads.ne_nil ⟨legal, constructed, rest, rfl⟩
    refine ⟨(tagReset o).cached (identified other constructed), ?_,
      ⟨same.buf, same.size, same.stack, same.bp, same.error, same.bias, same.tClass⟩,
      ⟨⟨reset.inside.sized, reset.inside.position⟩, reset.error, reset.bias, reset.ahead, reset.encloses,
        fun _ => ⟨nonempty, reset.coherent legal⟩⟩⟩
    rw [berTagDecode, returns_enter_bind_iff, returns_modify_bind_iff]
    refine more.bind ?_
    rw [if_pos (by simpa using nonempty)]
    refine (returns_tagAhead reset legal).bind ?_
    rw [if_pos rfl, returns_get_bind_iff, returns_ite_iff, if_neg]
    · simp [requireUnless]
    · rintro ⟨sameClass, sameTag⟩
      apply differ
      simp only [Handle.cached_berTag, identified, Nat.cast_inj] at sameClass sameTag
      rw [Option.some.injEq, Prod.ext_iff]
      exact ⟨sameClass.symm, sameTag.symm⟩

/-- The run reads a value of `n` octets. -/
def Reads (run : Codec (Bool × Option α)) (o : Handle) (value : α) (n : Nat) : Prop :=
  ∃ o', Returns run o (true, some value) o' ∧ Consumed o o' n

/-- The run finds no value of its own and leaves `body` to the next one. -/
def Skips (run : Codec (Bool × Option α)) (o : Handle) (body : List UInt8) : Prop :=
  ∃ o', Returns run o (true, none) o' ∧ Read o o' 0 ∧ o'.Left body

theorem Handle.Left.defaultTag (left : o.Left body) (zclass number : Int) : (defaultTag zclass number o).Left body := by
  unfold Odr.defaultTag
  split
  · exact ⟨⟨left.inside.sized, left.inside.position⟩, left.error, left.bias, left.ahead, left.encloses, left.cache⟩
  · exact left

theorem Read.of_defaultTag {zclass number : Int} {n : Nat} (h : Read (defaultTag zclass number o) o' n) :
    Read o o' n := by
  unfold defaultTag at h
  split at h
  · exact ⟨h.buf, h.size, h.stack, h.bp, h.error, h.bias, h.tClass⟩
  · exact h

theorem Consumed.of_defaultTag {zclass number : Int} {n : Nat} (h : Consumed (defaultTag zclass number o) o' n) :
    Consumed o o' n :=
  ⟨h.toRead.of_defaultTag, h.cache⟩

theorem Consumed.skip {n : Nat} (h : Consumed o p n) (m : Nat) : Consumed o (p.skip m) (n + m) where
  buf := h.buf
  size := h.size
  stack := h.stack
  bp := by rw [Handle.skip_bp, h.bp, Nat.add_assoc]
  error := h.error
  bias := h.bias
  tClass := h.tClass
  cache := h.cache

section
variable {number : Nat} {outer : Option Tag} {contents : Int → Codec (Bool × Option α)} {value : α}
  {content : List UInt8}

theorem reads_element (tagged : o.Tagged outer) (legal : (outer.getD (0, number)).Legal)
    (left : o.Left (primitive (outer.getD (0, number)) content ++ more))
    (consumes : Consumes (contents 0) (true, some value) (lengthOctets content.length ++ content))
    (opt : Bool) (name : Option String) :
    Reads (odrElement number opt name contents) o value (primitive (outer.getD (0, number)) content).length := by
  have set := defaultTag_tagged tagged 0 number
  rw [Nat.cast_zero] at set
  rw [primitive, append_assoc] at left
  obtain ⟨p, matched, found⟩ := returns_berTag_match (left.defaultTag 0 number) legal opt name
  replace found := found.of_defaultTag
  obtain ⟨rest, ahead⟩ := left.ahead_read found.toRead
  rw [append_assoc] at ahead
  refine ⟨p.skip (lengthOctets content.length ++ content).length, ?_, ?_⟩
  · rw [odrElement, returns_get_bind_iff, left.error, returns_ite_iff, if_neg (by simp), returns_modify_bind_iff,
      returns_get_bind_iff, set.1, set.2]
    exact matched.bind (consumes p _ (left.inside_read found.toRead) ahead)
  · have after := found.skip (lengthOctets content.length ++ content).length
    rw [← length_append] at after
    exact after

theorem skips_element (tagged : o.Tagged outer) (left : o.Left body) (leads : Leads body first)
    (outermost : o.stack = [] → body ≠ []) (differ : first ≠ some (outer.getD (0, number))) (name : Option String) :
    Skips (odrElement number true name contents) o body := by
  have set := defaultTag_tagged tagged 0 number
  rw [Nat.cast_zero] at set
  have stack : (defaultTag 0 number o).stack = o.stack := by unfold defaultTag; split <;> rfl
  obtain ⟨p, differs, read, after⟩ := returns_berTag_differ (left.defaultTag 0 number) leads
    (fun empty => outermost (stack ▸ empty)) differ name
  refine ⟨p, ?_, read.of_defaultTag, after⟩
  rw [odrElement, returns_get_bind_iff, left.error, returns_ite_iff, if_neg (by simp), returns_modify_bind_iff,
    returns_get_bind_iff, set.1, set.2]
  refine differs.bind ?_
  refine ((returns_odrMissing_iff p p true name).mpr ⟨after.error, rfl, rfl⟩).bind ?_
  simp

end

theorem declares_lengthOctets {len : Nat} (short : len < 2 ^ 24) : Declares (lengthOctets len) len := by
  unfold lengthOctets
  split
  next oneOctet => exact declares_short oneOctet
  next long =>
    obtain ⟨front, emits, value, nonempty, most⟩ := base256_front (show len < 256 ^ 4 by omega) (by simp) []
    rw [emits, append_nil]
    have declares := declares_long nonempty (most 2 (by omega))
    rwa [value] at declares

theorem consumes_finish {contents : Codec (Option α)} {value : α} (h : Consumes contents (some value) used) :
    Consumes (do let value ← contents
                 pure (finish value)) (true, some value) used := by
  rw [← append_nil used]
  exact h.bind (Consumes.pure _)

theorem consumes_primitiveOnly {contents : Codec (Option α)} {value : α} (id : Nat)
    (h : Consumes contents (some value) used) : Consumes (primitiveOnly id contents 0) (true, some value) used := by
  rw [primitiveOnly, if_neg (by simp)]
  exact consumes_finish h

theorem consumes_integerContents (val : BitVec 64) :
    Consumes berIntegerDecode (some val)
      (lengthOctets (dropSign (integerOctets val)).length ++ dropSign (integerOctets val)) := by
  have length := integerOctets_length val
  obtain ⟨-, nonempty, short⟩ := dropSign_spec (show integerOctets val ≠ [] by rw [← length_pos_iff]; omega)
  have consumes := consumes_integer (declares_lengthOctets (by omega)) nonempty (by omega)
  rwa [integerValue_dropSign] at consumes

theorem consumes_null : Consumes berNullDecode (some ()) (lengthOctets ([] : List UInt8).length ++ []) := by
  intro o rest inside ahead
  have length := inside.length ahead
  simp only [lengthOctets, length_nil, Nat.zero_le, if_true, append_nil, length_singleton] at length ahead ⊢
  rw [berNullDecode, returns_get_bind_iff, returns_ite_iff, if_neg (by simp only [odrMax]; omega),
    returns_readAt_bind_iff]
  refine ⟨0, o.getElem?_of_ahead ahead, ?_⟩
  simp

theorem consumes_octetstring {octets : List UInt8} (short : octets.length < 2 ^ 24) (chunk : Codec Bool) (rounds : Nat) :
    Consumes (berStringDecode 14 octetContents chunk rounds 0) (some octets) (lengthOctets octets.length ++ octets) :=
  consumes_string (declares_lengthOctets short) (consumes_octetContents octets) 14 chunk rounds

theorem consumes_oidGroup {octets : List UInt8} (group : Group octets) {acc : Nat} (left : Nat)
    (small : groupValue acc octets < 2 ^ 31) :
    Consumes (oidGroup (octets.length + left) acc) (some ((groupValue acc octets : Int), left)) octets := by
  induction octets generalizing acc with
  | nil =>
    obtain ⟨_, same, -⟩ | ⟨_, _, same, -⟩ := group.cases
    · simp at same
    · simp at same
  | cons b rest ih =>
    have grows := le_groupValue (acc * 128 + b.toNat % 128) rest
    rw [groupValue_cons] at small ⊢
    have wrapped : wrapInt ((acc : Int) * 128 + (b.toNat % 128 : Nat)) = (acc * 128 + b.toNat % 128 : Nat) := by
      rw [← wrapInt_of_lt (show acc * 128 + b.toNat % 128 < 2 ^ 31 by omega)]
      push_cast
      rfl
    rw [length_cons, Nat.add_right_comm, oidGroup]
    apply Consumes.readAt
    rw [wrapped]
    refine Consumes.advance [b] ?_
    obtain ⟨last, same, ends⟩ | ⟨first, tail, same, continued, group⟩ := group.cases
    · obtain ⟨rfl, rfl⟩ := List.cons.inj same
      rw [if_neg (by omega)]
      simpa using Consumes.pure _
    · obtain ⟨rfl, rfl⟩ := List.cons.inj same
      rw [if_pos continued]
      exact ih group small

theorem oidStore_length (arcs : List Int) (id : Int) : arcs.length < (oidStore arcs id).length := by
  unfold oidStore
  split
  next empty => simp [empty]
  · simp

theorem foldl_oidStore_length (arcs ids : List Int) : arcs.length ≤ (ids.foldl oidStore arcs).length := by
  induction ids generalizing arcs with
  | nil => exact Nat.le_refl _
  | cons id _ ih =>
    have grows := oidStore_length arcs id
    have later := ih (oidStore arcs id)
    rw [foldl_cons]
    omega

variable {arcs : List Int}

theorem consumes_oidGroups {ids : List Int} (range : ∀ id ∈ ids, 0 ≤ id ∧ id < 2 ^ 31) {maxOidSize rounds : Nat}
    (room : (ids.foldl oidStore arcs).length < maxOidSize)
    (enough : (ids.flatMap fun id => base128 5 id.toNat []).length ≤ rounds) :
    Consumes (oidGroups maxOidSize rounds (ids.flatMap fun id => base128 5 id.toNat []).length arcs)
      (some (ids.foldl oidStore arcs)) (ids.flatMap fun id => base128 5 id.toNat []) := by
  induction ids generalizing rounds arcs with
  | nil =>
    simp only [flatMap_nil, length_nil, foldl_nil]
    unfold oidGroups
    exact Consumes.pure _
  | cons id rest ih =>
    obtain ⟨nonneg, small⟩ := range id (mem_cons_self ..)
    obtain ⟨group, value⟩ := base128_group (show id.toNat < 128 ^ 5 by omega) (by simp)
    obtain ⟨b, tail, octets⟩ : ∃ b tail, base128 5 id.toNat [] = b :: tail := by
      obtain ⟨last, same, -⟩ | ⟨first, tail, same, -⟩ := group.cases
      · exact ⟨last, [], same⟩
      · exact ⟨first, tail, same⟩
    have stored := foldl_oidStore_length (oidStore arcs id) rest
    have first := consumes_oidGroup group (rest.flatMap fun id => base128 5 id.toNat []).length
      (show groupValue 0 _ < 2 ^ 31 by rw [value]; omega)
    rw [value, Int.toNat_of_nonneg nonneg] at first
    rw [foldl_cons] at room ⊢
    rw [flatMap_cons, length_append] at enough ⊢
    rw [octets, length_cons] at enough
    obtain ⟨rounds, rfl⟩ : ∃ left, rounds = left + 1 := ⟨rounds - 1, by omega⟩
    have split : (base128 5 id.toNat []).length + (rest.flatMap fun id => base128 5 id.toNat []).length =
        (tail.length + (rest.flatMap fun id => base128 5 id.toNat []).length) + 1 := by
      rw [octets, length_cons]
      omega
    rw [split, oidGroups, ← split]
    refine first.bind ?_
    dsimp only
    rw [if_neg (by omega), if_neg (by omega)]
    exact ih (fun other inside => range other (mem_cons_of_mem _ inside)) room (by omega)

theorem wrapShort_of_range {x : Int} (nonneg : 0 ≤ x) (small : x ≤ 32767) : wrapShort x = x := by
  unfold wrapShort
  apply Int.bmod_eq_of_le <;> omega

theorem foldl_oidStore (nonempty : arcs ≠ []) {rest : List Int}
    (range : ∀ arc ∈ rest, 0 ≤ arc ∧ arc ≤ 32767) : rest.foldl oidStore arcs = arcs ++ rest := by
  induction rest generalizing arcs with
  | nil => simp
  | cons arc _ ih =>
    obtain ⟨nonneg, small⟩ := range arc (mem_cons_self ..)
    rw [foldl_cons, oidStore, if_neg nonempty, wrapShort_of_range nonneg small,
      ih (by simp) fun other inside => range other (mem_cons_of_mem _ inside)]
    simp

theorem LegalOid.split (legal : LegalOid arcs) : ∃ first second rest, arcs = first :: second :: rest ∧
    (0 ≤ first ∧ first ≤ 32767) ∧ (0 ≤ second ∧ second ≤ 32767) ∧ first ≤ 2 := by
  match arcs, legal.least with
  | first :: second :: rest, _ =>
    exact ⟨first, second, rest, rfl, legal.range first (by simp), legal.range second (by simp), legal.first first (by simp)⟩

theorem foldl_oidStore_oidIds (legal : LegalOid arcs) : (oidIds arcs).foldl oidStore [] = arcs := by
  obtain ⟨first, second, rest, rfl, firstRange, secondRange, firstMost⟩ := legal.split
  have secondMost := legal.second first (by simp)
  simp only [getElem?_cons_succ, getElem?_cons_zero, Option.mem_def, Option.some.injEq, forall_eq'] at secondMost
  -- the first group is split at 40, but for a first arc of 2, whose second arc has no bound
  have arcs : oidStore [] (first * 40 + second) = [first, second] := by
    rw [oidStore, if_pos rfl]
    dsimp only
    rw [wrapShort_of_range (x := (first * 40 + second) / 40) (by omega) (by omega)]
    have split : (if 2 < (first * 40 + second) / 40 then 2 else (first * 40 + second) / 40) = first := by
      split <;> omega
    rw [split, show first * 40 + second - first * 40 = second by omega,
      wrapShort_of_range secondRange.1 secondRange.2]
  rw [oidIds, foldl_cons, arcs, foldl_oidStore (by simp)]
  · rfl
  · intro arc inside
    exact legal.range arc (by simp [inside])

theorem oidIds_range (legal : LegalOid arcs) : ∀ id ∈ oidIds arcs, 0 ≤ id ∧ id < 32768 + 80 := by
  obtain ⟨first, second, rest, rfl, firstRange, secondRange, firstMost⟩ := legal.split
  intro id inside
  rw [oidIds, mem_cons] at inside
  obtain rfl | inside := inside
  · omega
  · have range := legal.range id (by simp [inside])
    omega

theorem oidOctets_length (legal : LegalOid arcs) : (oidOctets arcs).length < 2 ^ 24 := by
  have groups (ids : List Int) : (ids.flatMap fun id => base128 5 id.toNat []).length ≤ 5 * ids.length := by
    induction ids with
    | nil => simp
    | cons id =>
      have group := base128_length 5 id.toNat []
      rw [flatMap_cons, length_append, length_cons]
      rw [length_nil] at group
      omega
  have most := legal.most
  have fewer : (oidIds arcs).length ≤ arcs.length := by
    unfold oidIds
    split
    · simp
    · simp
  have length := groups (oidIds arcs)
  rw [oidSize] at most
  rw [oidOctets]
  omega

theorem consumes_oidContents (legal : LegalOid arcs) :
    Consumes (berOidcDecode oidSize) (some arcs) (lengthOctets (oidOctets arcs).length ++ oidOctets arcs) := by
  have same := foldl_oidStore_oidIds legal
  have groups : Consumes (oidGroups oidSize (oidOctets arcs).length (oidOctets arcs).length []) (some arcs)
      (oidOctets arcs) := by
    have range := oidIds_range legal
    have small : ∀ id ∈ oidIds arcs, 0 ≤ id ∧ id < 2 ^ 31 := by
      intro id inside
      have := range id inside
      omega
    have room : ((oidIds arcs).foldl oidStore []).length < oidSize := by
      rw [same]
      exact legal.most
    have consumes := consumes_oidGroups small room (Nat.le_refl _)
    rwa [same] at consumes
  refine consumes_oidc (declares_lengthOctets (oidOctets_length legal)) groups ?_
  have positive (arc : Int) (inside : arc ∈ arcs) : ¬ arc < 0 := by
    have := (legal.range arc inside).1
    omega
  simp only [Option.any_eq_true, decide_eq_true_eq, not_or, not_exists, not_and]
  exact ⟨by have := legal.least; omega, fun arc found => positive arc (mem_of_mem_head? found),
    fun arc found => positive arc (mem_of_getElem? found)⟩

end Yaz.Odr
