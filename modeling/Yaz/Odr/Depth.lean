import Yaz.Odr.LookAhead

/-! A decoder of a type never leaves the constructed elements it starts in.

Only `odr_constructed_end` takes an entry from the constructed stack, and a generated decoder calls it
only for an entry that it has pushed before.
-/

set_option autoImplicit false

namespace Yaz.Odr
open Yaz.Foundation Run

variable {α β : Type} {depth : Nat}

def anyCalls : Contract Stop (Call × Handle) where
  assumed := fun _ => True
  kept := fun _ => True
  allowed := fun _ => True

theorem returned_of_triple {pre : Handle → Prop} {run : Codec α} {post : α → Handle → Prop} {o o' : Handle}
    {value : α} (h : Triple anyCalls pre run post) (holds : pre o) (returned : Returns run o value o') :
    post value o' := by
  have reached := (h o holds fun _ _ => trivial).2
  rw [returned.1, returned.2] at reached
  exact reached

/-- There are `depth` entries on the constructed stack, at least. -/
def Handle.Deep (depth : Nat) (o : Handle) : Prop := depth ≤ o.stack.length

theorem unmovedDeep : Unmoved anyCalls (Handle.Deep depth) where
  outside := trivial
  outOfRounds := trivial
  integer _ := trivial
  moreChunks _ _ _ := trivial
  failed _ _ _ deep := deep
  skip _ _ deep := deep

theorem deep_failed (o : Handle) (error : ErrorCode) (id : Nat) (element : String) (deep : o.Deep depth) :
    Handle.Deep depth { o with error := some error, errorId := id, element := element } := deep

theorem deep_missing (opt : Bool) (name : Option String) :
    Triple anyCalls (Handle.Deep depth) (odrMissing opt name) fun _ => Handle.Deep depth :=
  (triple_missing deep_failed opt name).weaken (fun _ deep => deep) fun _ _ reached => reached.1

variable (zclass tag : Int)

theorem deep_defaultTag {o : Handle} (deep : o.Deep depth) :
    (defaultTag zclass tag o).Deep depth := by
  unfold defaultTag
  split <;> exact deep

/-! ### Identifiers and contents -/

theorem deep_constructedMore :
    Triple anyCalls (Handle.Deep depth) odrConstructedMore fun _ => Handle.Deep depth := by
  intro o deep
  refine .enter_bind fun _ => ⟨trivial, ?_⟩
  rw [upholds_get_bind_iff, upholds_ite_iff]
  split
  · simpa using deep
  · cases o.stack with
    | nil => simpa using deep
    | cons =>
      rw [upholds_ite_iff]
      split
      · simpa using deep
      · exact (unmovedDeep.endOfContents o deep).bind fun ended => .pure fun _ deep => deep

theorem deep_moreAhead : Triple anyCalls (Handle.Deep depth) moreAhead fun _ => Handle.Deep depth := by
  intro o deep
  rw [moreAhead, upholds_get_bind_iff, upholds_ite_iff]
  split
  · simpa using deep
  · exact deep_constructedMore o deep

theorem deep_tagAhead (name : Option String) :
    Triple anyCalls (Handle.Deep depth) (tagAhead name) fun _ => Handle.Deep depth := by
  intro o deep
  rw [tagAhead, upholds_get_bind_iff, upholds_ite_iff]
  split
  · refine upholds_reading_bind o (fun _ => trivial) ?_
    rintro ⟨res, cache⟩ -
    rw [upholds_modify_bind_iff, upholds_ite_iff]
    split
    · rw [← bind_bind]
      have filled : Handle.Deep depth { o with berTag := { cache with br := res } } := deep
      exact (triple_failed deep_failed .proto 26 name _ filled).bind fun _ => .pure fun _ deep => deep
    · simpa [Handle.Deep] using deep
  · simpa using deep

theorem deep_tag (opt : Bool) (name : Option String) :
    Triple anyCalls (Handle.Deep depth) (berTagDecode zclass tag opt name) fun _ => Handle.Deep depth := by
  intro o deep
  refine .enter_bind fun _ => ⟨trivial, ?_⟩
  have reset : (tagReset o).Deep depth := by
    rw [Handle.Deep, tagReset_stack]
    exact deep
  have require (id : Nat) : Triple anyCalls (Handle.Deep depth) (do
      requireUnless opt id name
      pure (none : Option Int)) fun _ => Handle.Deep depth :=
    .bind (triple_requireUnless deep_failed opt id name) fun _ => .pure fun _ deep => deep
  rw [upholds_modify_bind_iff]
  refine (deep_moreAhead _ reset).bind fun more => .ite (.bind (deep_tagAhead name) fun ahead => .ite ?_ ?_) (require 25)
  · refine Unmoved.inspect fun t => .ite ?_ (require 27)
    exact .bind (.modify fun t (deep : t.Deep depth) => deep) fun _ => .pure fun _ deep => deep
  · exact .pure fun _ deep => deep

theorem deep_element {contents : Int → Codec (Bool × Option α)} (tag : Int) (opt : Bool) (name : Option String)
    (h : ∀ cons, Triple anyCalls (Handle.Deep depth) (contents cons) fun _ => Handle.Deep depth) :
    Triple anyCalls (Handle.Deep depth) (odrElement tag opt name contents) fun _ => Handle.Deep depth := by
  refine Unmoved.inspect fun t => .ite (.pure fun _ deep => deep) ?_
  refine .bind (.modify fun u (deep : u.Deep depth) => deep_defaultTag 0 tag deep) fun _ => Unmoved.inspect fun u => ?_
  refine .bind (deep_tag _ _ opt name) ?_
  rintro (_ | cons)
  · exact .bind (deep_missing opt name) fun ret => .pure fun _ deep => deep
  · exact h cons

theorem deep_finish {contents : Codec (Option α)}
    (h : Triple anyCalls (Handle.Deep depth) contents fun _ => Handle.Deep depth) :
    Triple anyCalls (Handle.Deep depth) (do
      let value ← contents
      pure (finish value)) fun _ => Handle.Deep depth :=
  .bind h fun _ => .pure fun _ deep => deep

theorem deep_primitiveOnly {contents : Codec (Option α)}
    (h : Triple anyCalls (Handle.Deep depth) contents fun _ => Handle.Deep depth) (id : Nat) (cons : Int) :
    Triple anyCalls (Handle.Deep depth) (primitiveOnly id contents cons) fun _ => Handle.Deep depth :=
  .ite (unmovedDeep.reject _ _ _) (deep_finish h)

theorem deep_string {primitive : Int → Codec (Option (List UInt8))} {chunk : Codec Bool}
    (primitives : ∀ len, Triple anyCalls (Handle.Deep depth) (primitive len) fun _ => Handle.Deep depth)
    (h : Triple anyCalls (Handle.Deep depth) chunk fun _ => Handle.Deep depth) (lengthId rounds : Nat) (cons : Int) :
    Triple anyCalls (Handle.Deep depth) (berStringDecode lengthId primitive chunk rounds cons)
      fun _ => Handle.Deep depth := by
  have loop (base : Nat) (len : Int) (rounds : Nat) :
      Triple anyCalls (Handle.Deep depth) (chunks chunk base len rounds) fun _ => Handle.Deep depth := by
    induction rounds with
    | zero =>
      intro o _
      simp [chunks, anyCalls]
    | succ _ ih =>
      rw [chunks]
      refine .bind (unmovedDeep.moreChunksContents base len) fun more => .ite (.bind h fun ret => .ite ih ?_) ?_
      · exact .pure fun _ deep => deep
      · exact .pure fun _ deep => deep
  refine Unmoved.inspect fun o => unmovedDeep.take ?_
  rintro ⟨res, len⟩
  refine .ite (unmovedDeep.reject _ _ _) (unmovedDeep.advance (.ite (Unmoved.inspect fun t => ?_) (primitives len)))
  exact .bind (loop t.bp len rounds) fun ret => .ite (.pure fun _ deep => deep) (.pure fun _ deep => deep)

theorem deep_chunk {string : Codec (Bool × Option (List UInt8))}
    (h : Triple anyCalls (Handle.Deep depth) string fun _ => Handle.Deep depth) :
    Triple anyCalls (Handle.Deep depth) (do
      let (ret, _) ← string
      pure ret) fun _ => Handle.Deep depth := by
  refine .bind h ?_
  rintro ⟨ret, value⟩
  exact .pure fun _ deep => deep

theorem deep_octetstring (within : Nat) (opt : Bool) (name : Option String) :
    Triple anyCalls (Handle.Deep depth) (odrOctetstringWithin within opt name) fun _ => Handle.Deep depth := by
  induction within generalizing opt name with
  | zero =>
    intro o _
    simp [odrOctetstringWithin, anyCalls]
  | succ _ ih =>
    rw [odrOctetstringWithin]
    refine deep_element 4 opt name fun cons => .bind (deep_string unmovedDeep.octetContents (deep_chunk (ih _ _)) 14 _ cons) ?_
    rintro (_ | value)
    · exact unmovedDeep.reject _ _ _
    · exact .pure fun _ deep => deep

theorem deep_bitstring (within : Nat) (opt : Bool) (name : Option String) :
    Triple anyCalls (Handle.Deep depth) (odrBitstringWithin within opt name) fun _ => Handle.Deep depth := by
  induction within generalizing opt name with
  | zero =>
    intro o _
    simp [odrBitstringWithin, anyCalls]
  | succ _ ih =>
    rw [odrBitstringWithin]
    exact deep_element 3 opt name fun cons =>
      deep_finish (deep_string (unmovedDeep.bitContents []) (deep_chunk (ih _ _)) 4 _ cons)

theorem deep_any (opt : Bool) (name : Option String) :
    Triple anyCalls (Handle.Deep depth) (odrAnyDecode opt name) fun _ => Handle.Deep depth := by
  intro o deep
  refine .enter_bind fun _ => ⟨trivial, ?_⟩
  have contents : Triple anyCalls (Handle.Deep depth) berAnyDecode fun _ => Handle.Deep depth := by
    refine Unmoved.inspect fun t => .ite (unmovedDeep.reject _ _ _) (unmovedDeep.take fun octets => ?_)
    exact unmovedDeep.advance (.pure fun _ deep => deep)
  rw [upholds_get_bind_iff, upholds_ite_iff]
  split
  · simpa using deep
  · refine (contents o deep).bind ?_
    rintro (_ | value)
    · exact .bind (deep_missing opt name) fun ret => .pure fun _ deep => deep
    · exact .pure fun _ deep => deep

theorem setTop_stack_length (update : ConStack → ConStack) (o : Handle) :
    (setTop update o).stack.length = o.stack.length := by
  unfold setTop
  cases o.stack <;> rfl

theorem deep_constructedBegin (name : Option String) :
    Triple anyCalls (Handle.Deep depth) (odrConstructedBeginDecode zclass tag name)
      fun begun => Handle.Deep (depth + begun.toNat) := by
  have push : Triple anyCalls (Handle.Deep depth) stackPush fun pushed => Handle.Deep (depth + pushed.toNat) := by
    intro o deep
    rw [stackPush, upholds_get_bind_iff, upholds_ite_iff]
    split
    · simpa [Handle.Deep] using deep
    · simpa [Handle.Deep] using deep
  have length : Triple anyCalls (Handle.Deep (depth + 1)) constructedLength
      fun begun => Handle.Deep (depth + begun.toNat) := by
    intro o deep
    have popped (t : Handle) (deep : t.Deep (depth + 1)) : depth ≤ t.stack.length - 1 := Nat.le_sub_one_of_lt deep
    rw [constructedLength, upholds_get_bind_iff]
    refine upholds_reading_bind o (fun _ => trivial) ?_
    rintro ⟨res, len⟩ -
    rw [upholds_ite_iff]
    split
    · simpa [Handle.Deep] using popped o deep
    · rw [upholds_advance_bind_iff, upholds_modify_bind_iff, upholds_get_bind_iff, upholds_ite_iff]
      split
      · simpa [Handle.Deep, setTop_stack_length] using popped o deep
      · simpa [Handle.Deep, setTop_stack_length] using deep
  intro o deep
  rw [odrConstructedBeginDecode, upholds_get_bind_iff, upholds_ite_iff]
  split
  · simpa using deep
  · have tagged : (defaultTag zclass tag { o with lenlen := 1 }).Deep depth :=
      deep_defaultTag zclass tag (show Handle.Deep depth { o with lenlen := 1 } from deep)
    rw [upholds_modify_bind_iff, upholds_get_bind_iff]
    refine .enter_bind fun _ => ⟨trivial, (deep_tag _ _ true name _ tagged).bind ?_⟩
    rintro (_ | cons)
    · exact .pure fun _ deep => deep
    · refine .ite (.pure fun _ deep => deep) (.bind push fun pushed => ?_)
      cases pushed with
      | false => exact .pure fun _ deep => deep
      | true => exact length

theorem deep_sequenceBegin (name : Option String) :
    Triple anyCalls (Handle.Deep depth) (odrSequenceBeginDecode name) fun begun => Handle.Deep (depth + begun.toNat) := by
  intro o deep
  rw [odrSequenceBeginDecode, upholds_get_bind_iff, upholds_ite_iff]
  split
  · simpa using deep
  · rw [upholds_modify_bind_iff, upholds_get_bind_iff]
    exact deep_constructedBegin _ _ name _ (deep_defaultTag 0 16 deep)

theorem deep_constructedEnd :
    Triple anyCalls (Handle.Deep (depth + 1)) odrConstructedEndDecode fun _ => Handle.Deep depth := by
  intro o deep
  have popped (t : Handle) (deep : t.Deep (depth + 1)) : depth ≤ t.stack.length - 1 := Nat.le_sub_one_of_lt deep
  have shallower (t : Handle) (deep : t.Deep (depth + 1)) : t.Deep depth := Nat.le_of_succ_le deep
  refine .enter_bind fun _ => ⟨trivial, ?_⟩
  rw [upholds_get_bind_iff, upholds_ite_iff]
  split
  · simpa [Handle.Deep] using shallower o deep
  · cases o.stack with
    | nil => simpa [Handle.Deep] using shallower o deep
    | cons =>
      rw [upholds_ite_iff]
      split
      · have closing : Triple anyCalls (Handle.Deep (depth + 1)) takeEndOfContents fun _ => Handle.Deep (depth + 1) :=
          unmovedDeep.read fun first => unmovedDeep.advance (.ite
            (unmovedDeep.read fun second => unmovedDeep.advance (.pure fun _ deep => deep)) (.pure fun _ deep => deep))
        refine (closing o deep).bind fun closed => .ite ?_ ?_
        · intro t deep
          simpa [Handle.Deep] using popped t deep
        · intro t deep
          simpa [Handle.Deep] using shallower t deep
      · rw [upholds_ite_iff]
        split
        · simpa [Handle.Deep] using shallower o deep
        · simpa [Handle.Deep] using popped o deep

theorem deep_sequenceLoop {type : Codec (Bool × Option α)}
    (h : Triple anyCalls (Handle.Deep depth) type fun _ => Handle.Deep depth) (rounds : Nat) (members : List (Option α)) :
    Triple anyCalls (Handle.Deep depth) (sequenceLoop type rounds members) fun _ => Handle.Deep depth := by
  induction rounds generalizing members with
  | zero =>
    intro o _
    simp [sequenceLoop, anyCalls]
  | succ _ ih =>
    rw [sequenceLoop]
    refine .bind deep_constructedMore fun more => .ite (.bind h ?_) (.pure fun _ deep => deep)
    rintro ⟨ret, p⟩
    exact .ite (ih _) (.pure fun _ deep => deep)

theorem deep_memberDecode {body : Codec (Bool × Option α)}
    (h : Triple anyCalls (Handle.Deep depth) body fun _ => Handle.Deep depth) (opt : Bool) (name : Option String) :
    Triple anyCalls (Handle.Deep depth) (memberDecode body opt name) fun _ => Handle.Deep depth := by
  have fallback : Triple anyCalls (Handle.Deep depth) (do
      let missing ← odrMissing opt name
      pure (missing, (none : Option α))) fun _ => Handle.Deep depth :=
    .bind (deep_missing opt name) fun missing => .pure fun _ deep => deep
  have initmember : Triple anyCalls (Handle.Deep depth) odrInitmemberDecode fun _ => Handle.Deep depth :=
    Unmoved.inspect fun o => .pure fun _ deep => deep
  exact .bind initmember fun ready => .ite (.bind h fun result => .ite (.pure fun _ deep => deep) fallback) fallback

theorem deep_enclosed {begin : Codec Bool} {parts : Codec (Bool × Option α)} {absent : Codec (Bool × Option α)}
    (begins : Triple anyCalls (Handle.Deep depth) begin fun begun => Handle.Deep (depth + begun.toNat))
    (h : Triple anyCalls (Handle.Deep (depth + 1)) parts fun _ => Handle.Deep (depth + 1))
    (skips : Triple anyCalls (Handle.Deep depth) absent fun _ => Handle.Deep depth) :
    Triple anyCalls (Handle.Deep depth) (do
      if ← begin then do
        let (ret, p) ← parts
        if ret then do
          let closed ← odrConstructedEndDecode
          pure (closed, p)
        else pure (false, none)
      else absent) fun _ => Handle.Deep depth := by
  refine .bind begins fun begun => ?_
  cases begun with
  | false => exact skips
  | true =>
    refine .bind h ?_
    rintro ⟨ret, p⟩
    refine .ite (.bind deep_constructedEnd fun closed => .pure fun _ deep => deep) (.pure fun _ deep => ?_)
    exact Nat.le_of_succ_le deep

theorem deep_sequenceOf {type : Codec (Bool × Option α)}
    (h : ∀ depth, Triple anyCalls (Handle.Deep depth) type fun _ => Handle.Deep depth) (name : Option String) :
    Triple anyCalls (Handle.Deep depth) (odrSequenceOfDecode type name) fun _ => Handle.Deep depth := by
  refine .bind (deep_sequenceBegin name) fun begun => ?_
  cases begun with
  | false => exact .pure fun _ deep => deep
  | true =>
    intro o deep
    rw [if_pos rfl, upholds_get_bind_iff]
    refine (deep_sequenceLoop (h (depth + 1)) _ _ o deep).bind ?_
    rintro ⟨ret, members⟩
    refine .ite (.bind deep_constructedEnd fun closed => .pure fun _ deep => deep) (.pure fun _ deep => ?_)
    exact Nat.le_of_succ_le deep

theorem deep_choicePeek (seen : Option (Int × Int)) :
    Triple anyCalls (Handle.Deep depth) (choicePeek seen) fun _ => Handle.Deep depth := by
  cases seen with
  | some => exact .pure fun _ deep => deep
  | none =>
    refine Unmoved.inspect fun o => .bind deep_moreAhead fun more => .ite (unmovedDeep.take ?_) (.pure fun _ deep => deep)
    rintro ⟨res, cache⟩
    exact .ite (.pure fun _ deep => deep) (.pure fun _ deep => deep)

theorem deep_implicitSettag :
    Triple anyCalls (Handle.Deep depth) (odrImplicitSettag zclass tag) fun _ => Handle.Deep depth := by
  refine Unmoved.inspect fun o => .ite (.pure fun _ deep => deep) ?_
  exact .bind (.modify fun t (deep : t.Deep depth) => deep_defaultTag zclass tag deep) fun _ => .pure fun _ deep => deep

theorem deep_choiceLoop (bias : Int) {arms : List (Arm α)}
    (h : ∀ arm ∈ arms, ∀ depth opt name,
      Triple anyCalls (Handle.Deep depth) (arm.type opt name) fun _ => Handle.Deep depth) (seen : Option (Int × Int)) :
    Triple anyCalls (Handle.Deep depth) (choiceLoop bias seen arms) fun _ => Handle.Deep depth := by
  induction arms generalizing seen with
  | nil => exact .pure fun _ deep => deep
  | cons arm _ ih =>
    have later := ih fun other inside => h other (List.mem_cons_of_mem _ inside)
    have this := h arm List.mem_cons_self
    have tagged : Triple anyCalls (Handle.Deep depth) (taggedArm arm) fun _ => Handle.Deep depth := by
      refine .ite (.bind (deep_implicitSettag _ _) fun _ => this _ _ _) ?_
      exact deep_enclosed (deep_constructedBegin _ _ none) (this _ _ _) (.pure fun _ deep => deep)
    rw [choiceLoop]
    refine .ite (later seen) (.ite (.bind (this _ true arm.name) ?_) (.bind (deep_choicePeek seen) ?_))
    · rintro ⟨ret, p⟩
      exact .ite (.pure fun _ deep => deep) (later seen)
    · rintro (_ | ⟨cl, tg⟩)
      · exact .pure fun _ deep => deep
      · exact .ite tagged (later _)

mutual

theorem Ty.deep : ∀ (type : Ty) (depth : Nat) (opt : Bool) (name : Option String),
    Triple anyCalls (Handle.Deep depth) (type.decode opt name) fun _ => Handle.Deep depth
  | .integer, _, opt, name => by
    rw [Ty.decode]; exact deep_element 2 opt name (deep_primitiveOnly unmovedDeep.integerContents 1)
  | .enum, _, opt, name => by
    rw [Ty.decode]; exact deep_element 10 opt name (deep_primitiveOnly unmovedDeep.integerContents 54)
  | .bool, _, opt, name => by
    rw [Ty.decode]
    exact deep_element 1 opt name fun cons =>
      .ite (.pure fun _ deep => deep) (deep_finish unmovedDeep.booleanContents)
  | .null, _, opt, name => by
    rw [Ty.decode]; exact deep_element 5 opt name fun _ => deep_finish unmovedDeep.nullContents
  | .octetstring, _, opt, name => by
    rw [Ty.decode]; exact Unmoved.inspect fun o => deep_octetstring _ opt name
  | .bitstring, _, opt, name => by
    rw [Ty.decode]; exact Unmoved.inspect fun o => deep_bitstring _ opt name
  | .oid, _, opt, name => by
    rw [Ty.decode]; exact deep_element 6 opt name (deep_primitiveOnly (unmovedDeep.oidcContents oidSize) 46)
  | .any, _, opt, name => by rw [Ty.decode]; exact deep_any opt name
  | .sequence members, depth, opt, name => by
    rw [Ty.decode]
    refine deep_enclosed (deep_sequenceBegin name) (members.deep _) ?_
    exact .bind (deep_missing opt name) fun missing => Unmoved.inspect fun o => .pure fun _ deep => deep
  | .sequenceOf type, _, opt, name => by
    rw [Ty.decode]
    exact deep_memberDecode (deep_sequenceOf (fun depth => type.deep depth false none) name) opt name
  | .choice arms, depth, opt, name => by
    rw [Ty.decode]
    refine deep_memberDecode (Unmoved.inspect fun o => .ite (.pure fun _ deep => deep) ?_) opt name
    have unbiased : Triple anyCalls (Handle.Deep depth) (Run.modify fun o => { o with choiceBias := -1 })
        fun _ => Handle.Deep depth := .modify fun _ deep => deep
    exact .bind unbiased fun _ => deep_choiceLoop _ (arms.deep id) none
  | .implicit zclass tag type, _, opt, name => by
    rw [Ty.decode]; exact .bind (deep_implicitSettag zclass tag) fun _ => type.deep _ opt name
  | .explicit zclass tag type, _, opt, name => by
    rw [Ty.decode]
    refine deep_enclosed (deep_constructedBegin zclass tag none) (type.deep _ opt name) ?_
    exact .bind (deep_missing opt name) fun missing => .pure fun _ deep => deep

theorem Members.deep : ∀ (members : Members) (depth : Nat),
    Triple anyCalls (Handle.Deep depth) members.decode fun _ => Handle.Deep depth
  | .nil, _ => by rw [Members.decode]; exact .pure fun _ deep => deep
  | .cons name opt type rest, _ => by
    rw [Members.decode]
    refine .bind (type.deep _ opt (some name)) fun first => .ite ?_ (.pure fun _ deep => deep)
    exact .bind (rest.deep _) fun result => .pure fun _ deep => deep

theorem Arms.deep {α : Type} : ∀ (arms : Arms) (inject : arms.Val → α),
    ∀ arm ∈ arms.decode inject, ∀ depth opt name,
      Triple anyCalls (Handle.Deep depth) (arm.type opt name) fun _ => Handle.Deep depth
  | .nil, _, arm, inside => by simp [Arms.decode] at inside
  | .cons _ _ _ _ _ type rest, inject, arm, inside => by
    intro depth opt name
    rw [Arms.decode, List.mem_cons] at inside
    obtain rfl | inside := inside
    · exact .bind (type.deep depth opt name) fun result => .pure fun _ deep => deep
    · exact rest.deep _ arm inside depth opt name

end

end Yaz.Odr
