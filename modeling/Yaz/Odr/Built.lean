import Yaz.Odr.Types

/-! Decoders built from the ODR combinators, and the rule for their invariants. -/

set_option autoImplicit false

namespace Yaz.Odr
open Yaz.Foundation Run

variable {α β : Type}

/-- Any program over the ODR combinators: what a generated codec calls and what a codec written by
hand may call, in any order and depending on every result. The loop of `odr_sequence_of` and the
nesting of constructed strings may go on for any number of rounds. -/
inductive Built : {α : Type} → Codec α → Prop
  | pure {α : Type} (value : α) : Built (Pure.pure value : Codec α)
  | bind {α β : Type} {first : Codec α} {next : α → Codec β} :
      Built first → (∀ value, Built (next value)) → Built (first >>= next)
  | inspect : Built Run.get
  | missing (opt : Bool) (name : Option String) : Built (odrMissing opt name)
  | implicitSettag (zclass tag : Int) : Built (odrImplicitSettag zclass tag)
  | constructedBegin (zclass tag : Int) (name : Option String) :
      Built (odrConstructedBeginDecode zclass tag name)
  | constructedMore : Built odrConstructedMore
  | constructedEnd : Built odrConstructedEndDecode
  | sequenceBegin (name : Option String) : Built (odrSequenceBeginDecode name)
  | peektag : Built odrPeektag
  | integer (opt : Bool) (name : Option String) : Built (odrIntegerDecode opt name)
  | enum (opt : Bool) (name : Option String) : Built (odrEnumDecode opt name)
  | bool (opt : Bool) (name : Option String) : Built (odrBoolDecode opt name)
  | null (opt : Bool) (name : Option String) : Built (odrNullDecode opt name)
  | oid (opt : Bool) (name : Option String) : Built (odrOidDecode opt name)
  | octetstring (depth : Nat) (opt : Bool) (name : Option String) :
      Built (odrOctetstringWithin depth opt name)
  | bitstring (depth : Nat) (opt : Bool) (name : Option String) : Built (odrBitstringWithin depth opt name)
  | cstring (opt : Bool) (name : Option String) : Built (odrCstringDecode opt name)
  | iconvString (convert : Option (List UInt8 → Option (List UInt8))) (opt : Bool) (name : Option String) :
      Built (odrIconvStringDecode convert opt name)
  | any (opt : Bool) (name : Option String) : Built (odrAnyDecode opt name)
  | sequenceLoop {α : Type} {type : Codec (Bool × Option α)} (rounds : Nat) (members : List (Option α)) :
      Built type → Built (sequenceLoop type rounds members)
  | choice {α : Type} (arms : List (Arm α)) :
      (∀ arm ∈ arms, ∀ opt name, Built (arm.type opt name)) → Built (odrChoiceDecode arms)

theorem Built.ite {c : Prop} [Decidable c] {first other : Codec α} (h : Built first) (k : Built other) :
    Built (if c then first else other) := by
  split
  · exact h
  · exact k

variable {type : Codec (Bool × Option α)}

theorem Built.sequenceOf (h : Built type) (name : Option String) :
    Built (odrSequenceOfDecode type name) := by
  refine .bind (.sequenceBegin name) fun begun => .ite (.bind .inspect fun o => ?_) (.pure _)
  refine .bind (.sequenceLoop _ _ h) fun result => .ite ?_ (.pure _)
  exact .bind .constructedEnd fun closed => .pure _

theorem built_sequenceDecode {members : Codec (Bool × Option α)} (h : Built members) (opt : Bool)
    (name : Option String) : Built (sequenceDecode members opt name) := by
  refine .bind (.sequenceBegin name) fun begun => .ite (.bind h fun result => .ite ?_ (.pure _)) ?_
  · exact .bind .constructedEnd fun closed => .pure _
  · exact .bind (.missing opt name) fun missing => .bind .inspect fun o => .pure _

theorem built_memberDecode {body : Codec (Bool × Option α)} (h : Built body) (opt : Bool)
    (name : Option String) : Built (memberDecode body opt name) := by
  have fallback : Built (do let missing ← odrMissing opt name
                            pure (missing, (none : Option α))) :=
    .bind (.missing opt name) fun missing => .pure _
  have initmember : Built odrInitmemberDecode := .bind .inspect fun o => .pure _
  exact .bind initmember fun ready => .ite (.bind h fun result => .ite (.pure _) fallback) fallback

theorem built_explicitTag (h : Built type) (zclass tag : Int) (opt : Bool)
    (name : Option String) : Built (odrExplicitTagDecode zclass tag type opt name) := by
  refine .bind (.constructedBegin zclass tag none) fun begun => .ite (.bind h fun result => .ite ?_ (.pure _)) ?_
  · exact .bind .constructedEnd fun closed => .pure _
  · exact .bind (.missing opt name) fun missing => .pure _

mutual

theorem Ty.decode_built : ∀ (type : Ty) (opt : Bool) (name : Option String), Built (type.decode opt name)
  | .integer, opt, name => by rw [Ty.decode]; exact .integer opt name
  | .enum, opt, name => by rw [Ty.decode]; exact .enum opt name
  | .bool, opt, name => by rw [Ty.decode]; exact .bool opt name
  | .null, opt, name => by rw [Ty.decode]; exact .null opt name
  | .octetstring, opt, name => by
    rw [Ty.decode]; exact .bind .inspect fun o => .octetstring (o.size + 1) opt name
  | .bitstring, opt, name => by
    rw [Ty.decode]; exact .bind .inspect fun o => .bitstring (o.size + 1) opt name
  | .oid, opt, name => by rw [Ty.decode]; exact .oid opt name
  | .any, opt, name => by rw [Ty.decode]; exact .any opt name
  | .sequence members, opt, name => by
    rw [Ty.decode]; exact built_sequenceDecode members.decode_built opt name
  | .sequenceOf type, opt, name => by
    rw [Ty.decode]; exact built_memberDecode ((type.decode_built false none).sequenceOf name) opt name
  | .choice arms, opt, name => by
    rw [Ty.decode]; exact built_memberDecode (.choice _ (arms.decode_built id)) opt name
  | .implicit zclass tag type, opt, name => by
    rw [Ty.decode]; exact .bind (.implicitSettag zclass tag) fun _ => type.decode_built opt name
  | .explicit zclass tag type, opt, name => by
    rw [Ty.decode]; exact built_explicitTag (type.decode_built opt name) zclass tag opt name

theorem Members.decode_built : ∀ members : Members, Built members.decode
  | .nil => by rw [Members.decode]; exact .pure _
  | .cons name opt type rest => by
    rw [Members.decode]
    refine .bind (type.decode_built opt (some name)) fun first => .ite ?_ (.pure _)
    exact .bind rest.decode_built fun result => .pure _

theorem Arms.decode_built {α : Type} : ∀ (arms : Arms) (inject : arms.Val → α),
    ∀ arm ∈ arms.decode inject, ∀ opt name, Built (arm.type opt name)
  | .nil, _, arm, inside => by simp [Arms.decode] at inside
  | .cons _ _ _ _ _ type rest, inject, arm, inside => by
    intro opt name
    rw [Arms.decode, List.mem_cons] at inside
    obtain rfl | inside := inside
    · exact .bind (type.decode_built opt name) fun result => .pure _
    · exact rest.decode_built _ arm inside opt name

end

/-! ### Invariants of built decoders -/

theorem upholds_failed {c : Contract Stop (Call × Handle)} {o : Handle} {post : Unit → Handle → Prop}
    {error : ErrorCode} {id : Nat} (name : Option String)
    (h : ∀ element, post () { o with error := some error, errorId := id, element := element }) :
    Upholds c (do odrSeterror error id
                  odrSetelement name) o post := by
  cases name with
  | none => simpa [odrSetelement] using h ""
  | some => simpa [odrSetelement] using h _

section
variable {c : Contract Stop (Call × Handle)} {inv : Handle → Prop}
  (failed : ∀ o error id element, inv o → inv { o with error := some error, errorId := id, element := element })
include failed

theorem triple_failed (error : ErrorCode) (id : Nat) (name : Option String) :
    Triple c inv (do odrSeterror error id
                     odrSetelement name) fun _ => inv :=
  fun o holds => upholds_failed name fun element => failed o error id element holds

theorem triple_requireUnless (opt : Bool) (id : Nat) (name : Option String) :
    Triple c inv (requireUnless opt id name) fun _ => inv :=
  .ite (.pure fun _ kept => kept) (triple_failed failed .required id name)

theorem triple_missing (opt : Bool) (name : Option String) :
    Triple c inv (odrMissing opt name) fun ret o => inv o ∧ (ret = true → opt = true) := by
  intro o holds
  rw [odrMissing, upholds_get_bind_iff, upholds_ite_iff]
  split
  · simpa using holds
  · exact (triple_requireUnless failed opt 53 name o holds).bind fun _ => .pure fun _ kept => ⟨kept, id⟩

end

/-- What single steps have to show so that an invariant holds in every run: `inv` holds between calls
of combinators, `fresh` from where an identifier has been consumed to the end of its contents. -/
structure StepRules (c : Contract Stop (Call × Handle)) (inv fresh : Handle → Prop) : Prop where
  inv_of_fresh : ∀ o, fresh o → inv o
  inv_failed : ∀ o error id element, inv o → inv { o with error := some error, errorId := id, element := element }
  fresh_skip : ∀ o n, fresh o → fresh (o.skip n)
  inv_bias : ∀ o, inv o → inv { o with choiceBias := -1 }
  inv_settag : ∀ o zclass tag, inv o → inv (defaultTag zclass tag o)
  outOfRounds : c.allowed .outOfRounds
  undefined : c.allowed .undefined
  dectag : ∀ o, inv o → c.allowed .outOfRange ∨ (Ber.berDectag o.ahead (odrMax o) {}).isSome
  declen : ∀ o, fresh o → c.allowed .outOfRange ∨ (Ber.berDeclen o.ahead (odrMax o)).isSome
  tag : ∀ zclass tag opt name, Triple c (fun o => inv o ∧ o.error = none) (berTagDecode zclass tag opt name)
    fun found o => (found.isSome → fresh o) ∧ inv o
  constructedBegin : ∀ zclass tag name,
    Triple c inv (odrConstructedBeginDecode zclass tag name) fun _ => inv
  constructedMore : Triple c inv odrConstructedMore fun _ => inv
  constructedEnd : Triple c inv odrConstructedEndDecode fun _ => inv
  moreChunks : ∀ base len, Triple c fresh (odpMoreChunks base len) fun _ => fresh
  integer : Triple c fresh berIntegerDecode fun _ => fresh
  boolean : Triple c fresh berBooleanDecode fun _ => fresh
  null : Triple c fresh berNullDecode fun _ => fresh
  oidc : ∀ maxOidSize, Triple c fresh (berOidcDecode maxOidSize) fun _ => fresh
  octetContents : ∀ len, Triple c fresh (octetContents len) fun _ => fresh
  bitContents : ∀ bits len, Triple c fresh (bitContents bits len) fun _ => fresh
  any : ∀ opt name, Triple c inv (odrAnyDecode opt name) fun _ => inv

namespace StepRules
variable {c : Contract Stop (Call × Handle)} {inv fresh : Handle → Prop} (rules : StepRules c inv fresh)
include rules

theorem seterror (error : ErrorCode) (id : Nat) : Triple c inv (odrSeterror error id) fun _ => inv :=
  .modify fun o => rules.inv_failed o error id ""

omit rules in
theorem reading {α : Type} {found : Option α} (h : c.allowed .outOfRange ∨ found.isSome) :
    Triple c inv (Odr.reading found) fun _ => inv := by
  intro o holds
  cases found with
  | none => simpa [Odr.reading] using h
  | some => simpa [Odr.reading] using holds

theorem implicitSettag (zclass tag : Int) :
    Triple c inv (odrImplicitSettag zclass tag) fun _ => inv := by
  intro o holds
  rw [odrImplicitSettag, upholds_get_bind_iff, upholds_ite_iff]
  split
  · simpa using holds
  · simpa using rules.inv_settag o zclass tag holds

theorem moreAhead : Triple c inv moreAhead fun _ => inv := by
  intro o holds
  rw [Odr.moreAhead, upholds_get_bind_iff, upholds_ite_iff]
  split
  · simpa using holds
  · exact rules.constructedMore o holds

theorem peektag : Triple c inv odrPeektag fun _ => inv := by
  intro o holds
  rw [odrPeektag, upholds_get_bind_iff]
  refine (rules.moreAhead o holds).bind fun more => ?_
  refine .ite (.bind (StepRules.reading (rules.dectag o holds)) ?_) (.pure fun _ h => h)
  rintro ⟨res, cache⟩
  exact .ite (.bind (rules.seterror .required 49) fun _ => .pure fun _ h => h) (.pure fun _ h => h)

theorem choicePeek (seen : Option (Int × Int)) : Triple c inv (choicePeek seen) fun _ => inv := by
  intro o holds
  cases seen with
  | some => simpa [Odr.choicePeek] using holds
  | none =>
    rw [Odr.choicePeek, upholds_get_bind_iff]
    refine (rules.moreAhead o holds).bind fun more => ?_
    refine .ite (.bind (StepRules.reading (rules.dectag o holds)) ?_) (.pure fun _ h => h)
    rintro ⟨res, cache⟩
    exact .ite (.pure fun _ h => h) (.pure fun _ h => h)

theorem sequenceBegin (name : Option String) : Triple c inv (odrSequenceBeginDecode name) fun _ => inv := by
  intro o holds
  rw [odrSequenceBeginDecode, upholds_get_bind_iff, upholds_ite_iff]
  split
  · simpa using holds
  · rw [upholds_modify_bind_iff, upholds_get_bind_iff]
    exact rules.constructedBegin _ _ name _ (rules.inv_settag o 0 16 holds)

theorem element {post : Bool × Option α → Handle → Prop} {contents : Int → Codec (Bool × Option α)}
    (tag : Int) (opt : Bool) (name : Option String) (h : ∀ cons, Triple c fresh (contents cons) post)
    (absent : ∀ ret o, inv o → (ret = true → opt = true) → post (ret, none) o) :
    Triple c inv (odrElement tag opt name contents) post := by
  intro o holds
  rw [odrElement, upholds_get_bind_iff, upholds_ite_iff]
  split
  · simpa using absent false o holds (by simp)
  next noError =>
    rw [upholds_modify_bind_iff, upholds_get_bind_iff]
    refine (rules.tag _ _ opt name _ ⟨rules.inv_settag o 0 tag holds, ?_⟩).bind ?_
    · simp only [defaultTag]
      split <;> simpa using noError
    · rintro (_ | cons) t ⟨matched, kept⟩
      · refine (triple_missing rules.inv_failed opt name t kept).bind fun ret u reached => ?_
        simpa using absent ret u reached.1 reached.2
      · exact h cons t (matched rfl)

theorem primitiveOnly {contents : Codec (Option α)} (h : Triple c fresh contents fun _ => fresh) (id : Nat)
    (cons : Int) : Triple c fresh (primitiveOnly id contents cons) fun _ => inv := by
  refine .ite ?_ (.bind h fun value => .pure fun o => rules.inv_of_fresh o)
  exact (Triple.bind (rules.seterror .proto id) fun _ => .pure fun _ h => h).weaken
    (fun o => rules.inv_of_fresh o) fun _ _ h => h

def ChunkPost (inv fresh : Handle → Prop) (ret : Bool) (o : Handle) : Prop :=
  inv o ∧ (ret = true → fresh o)

theorem chunks {chunk : Codec Bool} (h : Triple c inv chunk (ChunkPost inv fresh)) (base : Nat) (len : Int)
    (rounds : Nat) : Triple c fresh (chunks chunk base len rounds) (ChunkPost inv fresh) := by
  induction rounds with
  | zero =>
    intro o holds
    simpa [Odr.chunks] using rules.outOfRounds
  | succ _ ih =>
    rw [Odr.chunks]
    refine .bind (rules.moreChunks base len) fun more => .ite (.bind (h.strengthen rules.inv_of_fresh) ?_) ?_
    · intro ret o reached
      rw [upholds_ite_iff]
      split
      next done => exact ih o (reached.2 done)
      · simpa [ChunkPost] using reached.1
    · exact .pure fun o kept => ⟨rules.inv_of_fresh o kept, fun _ => kept⟩

theorem string {primitive : Int → Codec (Option (List UInt8))} {chunk : Codec Bool}
    (primitives : ∀ len, Triple c fresh (primitive len) fun _ => fresh)
    (h : Triple c inv chunk (ChunkPost inv fresh)) (lengthId rounds : Nat) (cons : Int) :
    Triple c fresh (berStringDecode lengthId primitive chunk rounds cons)
      fun value o => ChunkPost inv fresh value.isSome o := by
  intro o holds
  rw [berStringDecode, upholds_get_bind_iff]
  have declen : Triple c fresh (Odr.reading (Ber.berDeclen o.ahead (odrMax o))) fun _ => fresh :=
    StepRules.reading (rules.declen o holds)
  refine (declen o holds).bind ?_
  rintro ⟨res, len⟩
  have settled : Triple c fresh (primitive len) fun value o => ChunkPost inv fresh value.isSome o :=
    (primitives len).weaken (fun _ h => h) fun _ t kept => ⟨rules.inv_of_fresh t kept, fun _ => kept⟩
  refine .ite ?_ (.bind (.modify fun t kept => rules.fresh_skip t _ kept) fun _ => .ite ?_ settled)
  · refine .bind ((rules.seterror .proto lengthId).strengthen rules.inv_of_fresh) fun _ => .pure ?_
    exact fun t kept => ⟨kept, by simp⟩
  · intro t kept
    rw [upholds_get_bind_iff]
    refine (rules.chunks h t.bp len rounds t kept).bind fun ret => ?_
    intro u reached
    rw [upholds_ite_iff]
    split
    next done => simpa [ChunkPost] using ⟨reached.1, reached.2 done⟩
    · simpa [ChunkPost] using reached.1

omit rules in
theorem ofChunk {string : Codec (Bool × Option (List UInt8))}
    (h : Triple c inv string fun result => ChunkPost inv fresh result.1) :
    Triple c inv (do let (ret, _) ← string
                     pure ret) (ChunkPost inv fresh) := by
  refine .bind h ?_
  rintro ⟨ret, value⟩
  exact .pure fun _ reached => reached

omit rules in
theorem absentChunk (ret opt : Bool) (o : Handle) (kept : inv o) (h : opt = false) (given : ret = true → opt = true) :
    ChunkPost inv fresh ret o := by
  refine ⟨kept, fun found => ?_⟩
  simp [given found] at h

theorem octetstring (depth : Nat) (opt : Bool) (name : Option String) :
    Triple c inv (odrOctetstringWithin depth opt name)
      fun result o => inv o ∧ (opt = false → ChunkPost inv fresh result.1 o) := by
  induction depth generalizing opt name with
  | zero =>
    intro o holds
    simpa [odrOctetstringWithin] using rules.outOfRounds
  | succ depth ih =>
    rw [odrOctetstringWithin]
    refine rules.element 4 opt name (fun cons => ?_) fun ret o kept given =>
      ⟨kept, fun required => StepRules.absentChunk ret opt o kept required given⟩
    have chunk := StepRules.ofChunk ((ih false none).weaken (fun _ h => h) fun _ _ reached => reached.2 rfl)
    refine .bind (rules.string rules.octetContents chunk 14 (depth + 1) cons) ?_
    rintro (_ | value)
    · refine .bind ((rules.seterror .other 43).strengthen fun _ reached => reached.1) fun _ => .pure ?_
      exact fun o kept => ⟨kept, fun _ => ⟨kept, by simp⟩⟩
    · exact .pure fun o reached => ⟨reached.1, fun _ => reached⟩

theorem bitstring (depth : Nat) (opt : Bool) (name : Option String) :
    Triple c inv (odrBitstringWithin depth opt name)
      fun result o => inv o ∧ (opt = false → ChunkPost inv fresh result.1 o) := by
  induction depth generalizing opt name with
  | zero =>
    intro o holds
    simpa [odrBitstringWithin] using rules.outOfRounds
  | succ depth ih =>
    rw [odrBitstringWithin]
    refine rules.element 3 opt name (fun cons => ?_) fun ret o kept given =>
      ⟨kept, fun required => StepRules.absentChunk ret opt o kept required given⟩
    have chunk := StepRules.ofChunk ((ih false none).weaken (fun _ h => h) fun _ _ reached => reached.2 rfl)
    refine .bind (rules.string (rules.bitContents []) chunk 4 (depth + 1) cons) fun value => .pure ?_
    exact fun o reached => ⟨reached.1, fun _ => reached⟩

theorem wrappedString {unwrap : Option (List UInt8) → Codec (Bool × Option (List UInt8))}
    (h : ∀ buf, Triple c inv (unwrap buf) fun _ => inv) (opt : Bool) (name : Option String) :
    Triple c inv (wrappedString unwrap opt name) fun _ => inv := by
  intro o holds
  rw [Odr.wrappedString, upholds_get_bind_iff]
  refine rules.element 4 opt name (fun cons => ?_) (fun _ _ kept _ => kept) o holds
  have chunk := StepRules.ofChunk ((rules.octetstring o.size false none).weaken (fun _ h => h) fun _ _ reached => reached.2 rfl)
  refine .bind (rules.string rules.octetContents chunk 14 (o.size + 1) cons) ?_
  rintro (_ | octets)
  · exact .pure fun _ reached => reached.1
  · exact (h _).strengthen fun _ reached => reached.1

theorem terminated (buf : Option (List UInt8)) : Triple c inv (terminated buf) fun _ => inv := by
  cases buf with
  | none => exact fun o _ => by simpa [Odr.terminated] using rules.undefined
  | some => exact .pure fun _ kept => kept

theorem iconvString (convert : Option (List UInt8 → Option (List UInt8))) (opt : Bool) (name : Option String) :
    Triple c inv (odrIconvStringDecode convert opt name) fun _ => inv := by
  refine rules.wrappedString (fun buf => ?_) opt name
  cases convert with
  | none => exact rules.terminated buf
  | some convert =>
    dsimp only
    cases convert (buf.getD []) with
    | none => exact .bind (rules.seterror .data 45) fun _ => .pure fun _ kept => kept
    | some => exact .pure fun _ kept => kept

theorem sequenceLoop (h : Triple c inv type fun _ => inv) (rounds : Nat)
    (members : List (Option α)) : Triple c inv (sequenceLoop type rounds members) fun _ => inv := by
  induction rounds generalizing members with
  | zero =>
    intro o holds
    simpa [Odr.sequenceLoop] using rules.outOfRounds
  | succ _ ih =>
    rw [Odr.sequenceLoop]
    refine .bind rules.constructedMore fun more => .ite (.bind h ?_) (.pure fun _ kept => kept)
    rintro ⟨ret, p⟩
    exact .ite (ih _) (.pure fun _ kept => kept)

theorem taggedArm {arm : Arm α} (h : ∀ opt name, Triple c inv (arm.type opt name) fun _ => inv) :
    Triple c inv (taggedArm arm) fun _ => inv := by
  refine .ite (.bind (rules.implicitSettag _ _) fun _ => h _ _) ?_
  refine .bind (rules.constructedBegin _ _ none) fun begun => .ite (.bind (h _ _) ?_) (.pure fun _ kept => kept)
  rintro ⟨ret, p⟩
  exact .ite (.bind rules.constructedEnd fun closed => .pure fun _ kept => kept) (.pure fun _ kept => kept)

theorem choiceLoop (bias : Int) {arms : List (Arm α)}
    (h : ∀ arm ∈ arms, ∀ opt name, Triple c inv (arm.type opt name) fun _ => inv) (seen : Option (Int × Int)) :
    Triple c inv (choiceLoop bias seen arms) fun _ => inv := by
  induction arms generalizing seen with
  | nil => rw [Odr.choiceLoop]; exact .pure fun _ kept => kept
  | cons arm _ ih =>
    have later := ih fun other inside => h other (List.mem_cons_of_mem _ inside)
    have this := h arm List.mem_cons_self
    rw [Odr.choiceLoop]
    refine .ite (later seen) (.ite (.bind (this true arm.name) ?_) (.bind (rules.choicePeek seen) ?_))
    · rintro ⟨ret, p⟩
      exact .ite (.pure fun _ kept => kept) (later seen)
    · rintro (_ | ⟨cl, tg⟩)
      · exact .pure fun _ kept => kept
      · exact .ite (rules.taggedArm this) (later _)

theorem choice {arms : List (Arm α)} (h : ∀ arm ∈ arms, ∀ opt name, Triple c inv (arm.type opt name) fun _ => inv) :
    Triple c inv (odrChoiceDecode arms) fun _ => inv := by
  intro o holds
  rw [odrChoiceDecode, upholds_get_bind_iff, upholds_ite_iff]
  split
  · simpa using holds
  · rw [upholds_modify_bind_iff]
    exact rules.choiceLoop _ h none _ (rules.inv_bias o holds)

theorem built {run : Codec α} (h : Built run) : Triple c inv run fun _ => inv := by
  have element {β : Type} {contents : Int → Codec (Bool × Option β)} (tag : Int) (opt : Bool)
      (name : Option String) (h : ∀ cons, Triple c fresh (contents cons) fun _ => inv) :
      Triple c inv (odrElement tag opt name contents) fun _ => inv :=
    rules.element tag opt name h fun _ _ kept _ => kept
  have closing {β : Type} {contents : Codec (Option β)} (h : Triple c fresh contents fun _ => fresh) :
      Triple c fresh (do let value ← contents
                         pure (finish value)) fun _ => inv :=
    .bind h fun _ => .pure rules.inv_of_fresh
  induction h with
  | pure => exact .pure fun _ kept => kept
  | bind _ _ first next => exact .bind first next
  | inspect => exact fun o kept => by simpa using kept
  | missing opt name => exact (triple_missing rules.inv_failed opt name).weaken (fun _ kept => kept) fun _ _ reached => reached.1
  | implicitSettag zclass tag => exact rules.implicitSettag zclass tag
  | constructedBegin zclass tag name => exact rules.constructedBegin zclass tag name
  | constructedMore => exact rules.constructedMore
  | constructedEnd => exact rules.constructedEnd
  | sequenceBegin name => exact rules.sequenceBegin name
  | peektag => exact rules.peektag
  | integer opt name => exact element 2 opt name fun cons => rules.primitiveOnly rules.integer 1 cons
  | enum opt name => exact element 10 opt name fun cons => rules.primitiveOnly rules.integer 54 cons
  | bool opt name =>
    exact element 1 opt name fun cons => .ite (.pure rules.inv_of_fresh) (closing rules.boolean)
  | null opt name => exact element 5 opt name fun _ => closing rules.null
  | oid opt name => exact element 6 opt name fun cons => rules.primitiveOnly (rules.oidc oidSize) 46 cons
  | octetstring depth opt name =>
    exact (rules.octetstring depth opt name).weaken (fun _ kept => kept) fun _ _ reached => reached.1
  | bitstring depth opt name =>
    exact (rules.bitstring depth opt name).weaken (fun _ kept => kept) fun _ _ reached => reached.1
  | cstring opt name => exact rules.wrappedString rules.terminated opt name
  | iconvString convert opt name => exact rules.iconvString convert opt name
  | any opt name => exact rules.any opt name
  | sequenceLoop rounds members _ type => exact rules.sequenceLoop type rounds members
  | choice _ _ types => exact rules.choice types

end StepRules

end Yaz.Odr
