import Yaz.Odr.Depth

/-! Optional steps that find nothing.

`ber_tag` leaves the position alone where the enclosing element has ended or another identifier is
ahead. Once it has taken an identifier, only an error may tell that the element is not there.
-/

set_option autoImplicit false

namespace Yaz.Odr
open Yaz.Foundation Yaz.Ber Run

variable {α : Type} {o o' p : Handle} {name : Option String}

theorem same_of_constructedMore {more : Bool} (h : Returns odrConstructedMore o more o') : o' = o := by
  rw [odrConstructedMore, returns_enter_bind_iff, returns_get_bind_iff, returns_ite_iff] at h
  split at h
  · rw [returns_pure_iff] at h
    exact h.2.symm
  · cases top : o.stack with
    | nil =>
      rw [top, returns_pure_iff] at h
      exact h.2.symm
    | cons =>
      rw [top] at h
      rw [returns_ite_iff] at h
      split at h
      · rw [returns_pure_iff] at h
        exact h.2.symm
      · simp only [atEndOfContents, bind_bind, returns_readAt_bind_iff] at h
        obtain ⟨first, -, h⟩ := h
        split at h
        · simp only [bind_bind, returns_readAt_bind_iff, returns_pure_bind_iff, returns_pure_iff] at h
          obtain ⟨second, -, -, same⟩ := h
          exact same.symm
        · simp only [returns_pure_bind_iff, returns_pure_iff] at h
          exact h.2.symm

theorem same_of_moreAhead {more : Bool} (h : Returns moreAhead o more o') :
    o' = o ∧ (more = false → o.stack ≠ []) := by
  rw [moreAhead, returns_get_bind_iff, returns_ite_iff] at h
  split at h
  · rw [returns_pure_iff] at h
    obtain ⟨rfl, rfl⟩ := h
    exact ⟨rfl, by simp⟩
  next inside => exact ⟨same_of_constructedMore h, fun _ => by simpa using inside⟩

/-- The identifier that `ber_tag` compares with: the one that is kept, or that of the octets ahead. -/
def Handle.identifierAhead (o : Handle) : Option BerTag :=
  if o.berTag.lclass < 0 then
    match berDectag o.ahead (odrMax o) o.berTag with
    | some (res, cache) => if res ≤ 0 then none else some { cache with br := res }
    | none => none
  else some o.berTag

theorem error_of_failed {error : ErrorCode} {id : Nat} {u : Unit}
    (h : Returns (do odrSeterror error id
                     odrSetelement name) o u o') : o'.error.isSome := by
  have failed : Triple anyCalls (fun _ => True) (do odrSeterror error id
                                                    odrSetelement name) fun _ o => o.error.isSome :=
    fun o _ => upholds_failed name fun _ => rfl
  exact returned_of_triple failed trivial h

theorem found_of_tagAhead (h : Returns (tagAhead name) o true o') :
    ∃ id, o.identifierAhead = some id ∧ o' = { o with berTag := id } := by
  rw [tagAhead, returns_get_bind_iff, returns_ite_iff] at h
  rw [Handle.identifierAhead]
  split at h
  next empty =>
    rw [returns_reading_bind_iff] at h
    obtain ⟨⟨res, cache⟩, read, h⟩ := h
    rw [returns_modify_bind_iff, returns_ite_iff] at h
    split at h
    · rw [← bind_bind, returns_bind_iff] at h
      obtain ⟨_, middle, -, h⟩ := h
      simp at h
    next positive =>
      rw [if_pos empty, read]
      dsimp only
      rw [if_neg positive]
      exact ⟨_, rfl, h.2.symm⟩
  next kept =>
    rw [if_neg kept]
    exact ⟨_, rfl, h.2.symm⟩

theorem tagAhead_of_found {id : BerTag} (found : o.identifierAhead = some id) :
    Returns (tagAhead name) o true { o with berTag := id } := by
  rw [Handle.identifierAhead] at found
  rw [tagAhead, returns_get_bind_iff, returns_ite_iff]
  split at found
  next empty =>
    rw [if_pos empty, returns_reading_bind_iff]
    split at found
    next res cache read =>
      split at found
      · simp at found
      next positive =>
        refine ⟨(res, cache), read, ?_⟩
        rw [returns_modify_bind_iff, if_neg positive, returns_pure_iff, ← Option.some.inj found]
        exact ⟨rfl, rfl⟩
    · simp at found
  next kept =>
    rw [if_neg kept, returns_pure_iff, ← Option.some.inj found]
    exact ⟨rfl, rfl⟩

theorem failed_tagAhead (h : Returns (tagAhead name) o false o') : o'.error.isSome := by
  rw [tagAhead, returns_get_bind_iff, returns_ite_iff] at h
  split at h
  · rw [returns_reading_bind_iff] at h
    obtain ⟨⟨res, cache⟩, -, h⟩ := h
    rw [returns_modify_bind_iff, returns_ite_iff] at h
    split at h
    · rw [← bind_bind, returns_bind_iff] at h
      obtain ⟨_, middle, failed, h⟩ := h
      exact h.2 ▸ error_of_failed failed
    · simp at h
  · simp at h

/-- What `ber_tag` returns for an optional element without setting an error. -/
theorem returns_berTagDecode_iff {zclass tag : Int} {found : Option Int} (noError : o.error = none) :
    Returns (berTagDecode zclass tag true name) o found o' ∧ o'.error = none ↔
      (Returns moreAhead (tagReset o) false (tagReset o) ∧ found = none ∧ o' = tagReset o) ∨
        (Returns moreAhead (tagReset o) true (tagReset o) ∧ ∃ id, (tagReset o).identifierAhead = some id ∧
          if zclass = id.lclass ∧ tag = id.ltag
            then found = some id.lcons ∧ o' = takeTag { tagReset o with berTag := id }
            else found = none ∧ o' = { tagReset o with berTag := id }) := by
  have noError' : (tagReset o).error = none := (tagReset_error o).trans noError
  rw [berTagDecode, returns_enter_bind_iff, returns_modify_bind_iff]
  generalize tagReset o = q at noError'
  constructor
  · rintro ⟨h, fine⟩
    rw [returns_bind_iff] at h
    obtain ⟨more, t, test, h⟩ := h
    obtain ⟨rfl, -⟩ := same_of_moreAhead test
    cases more with
    | false =>
      simp only [requireUnless, if_true, Bool.false_eq_true, if_false, returns_pure_bind_iff, returns_pure_iff] at h
      exact .inl ⟨test, h.1.symm, h.2.symm⟩
    | true =>
      rw [if_pos rfl, returns_bind_iff] at h
      obtain ⟨ahead, u, look, h⟩ := h
      cases ahead with
      | false =>
        rw [if_neg (by simp), returns_pure_iff] at h
        have broken := failed_tagAhead look
        simp [h.2, fine] at broken
      | true =>
        obtain ⟨id, read, rfl⟩ := found_of_tagAhead look
        refine .inr ⟨test, id, read, ?_⟩
        rw [if_pos rfl, returns_get_bind_iff, returns_ite_iff] at h
        split at h
        next same =>
          rw [returns_modify_bind_iff, returns_pure_iff] at h
          rw [if_pos same]
          exact ⟨h.1.symm, h.2.symm⟩
        next other =>
          simp only [requireUnless, if_true, returns_pure_bind_iff, returns_pure_iff] at h
          rw [if_neg other]
          exact ⟨h.1.symm, h.2.symm⟩
  · rintro (⟨test, rfl, rfl⟩ | ⟨test, id, read, result⟩)
    · refine ⟨test.bind ?_, noError'⟩
      simp [requireUnless]
    · have look := @tagAhead_of_found q name id read
      split at result
      next same =>
        obtain ⟨rfl, rfl⟩ := result
        refine ⟨test.bind ?_, noError'⟩
        rw [if_pos rfl]
        refine look.bind ?_
        rw [if_pos rfl, returns_get_bind_iff, if_pos same, returns_modify_bind_iff, returns_pure_iff]
        exact ⟨rfl, rfl⟩
      next other =>
        obtain ⟨rfl, rfl⟩ := result
        refine ⟨test.bind ?_, noError'⟩
        rw [if_pos rfl]
        refine look.bind ?_
        rw [if_pos rfl, returns_get_bind_iff, if_neg other, requireUnless, if_pos rfl, returns_pure_bind_iff,
          returns_pure_iff]
        exact ⟨rfl, rfl⟩

/-- Outside any element `ber_tag` has gone back to the start of the buffer, where another identifier is. -/
def Handle.StartsOver (p : Handle) : Prop :=
  p.stack = [] ∧ p.bp ≠ 0 ∧ ∃ id, (tagReset p).identifierAhead = some id ∧ ¬ (p.tClass = id.lclass ∧ p.tTag = id.ltag)

def Handle.TakesPrimitive (p : Handle) : Prop :=
  Returns moreAhead (tagReset p) true (tagReset p) ∧ ∃ id, (tagReset p).identifierAhead = some id ∧
    (p.tClass = id.lclass ∧ p.tTag = id.ltag) ∧ id.lcons = 0 ∧ (tagReset p).bp + id.br.toNat ≠ p.bp

/-- The position and the constructed stack are those of `o`. -/
def Handle.InPlace (o o' : Handle) : Prop := o'.bp = o.bp ∧ o'.stack = o.stack

theorem tagReset_bp (o : Handle) : (tagReset o).bp = if o.stack = [] then 0 else o.bp := by
  unfold tagReset
  cases o.stack <;> rfl

theorem inPlace_of_none_iff (noError : p.error = none) :
    (∀ o', Returns (berTagDecode p.tClass p.tTag true name) p none o' ∧ o'.error = none → p.InPlace o') ↔
      ¬ p.StartsOver := by
  have reset := tagReset_bp p
  have stack := tagReset_stack p
  constructor
  · rintro keeps ⟨outermost, moved, id, read, other⟩
    have more : Returns moreAhead (tagReset p) true (tagReset p) := by
      rw [moreAhead, returns_get_bind_iff, if_pos (by simp [stack, outermost]), returns_pure_iff]
      exact ⟨rfl, rfl⟩
    have found := (@returns_berTagDecode_iff _ { tagReset p with berTag := id } name p.tClass p.tTag none noError).mpr
      (.inr ⟨more, id, read, by rw [if_neg other]; exact ⟨rfl, rfl⟩⟩)
    have same : (tagReset p).bp = p.bp := (keeps _ found).1
    rw [reset, if_pos outermost] at same
    exact moved same.symm
  · rintro kept o' found
    obtain ⟨ended, -, rfl⟩ | ⟨-, id, read, result⟩ := (returns_berTagDecode_iff noError).mp found
    · have inside := (same_of_moreAhead ended).2 rfl
      rw [stack] at inside
      exact ⟨reset.trans (if_neg inside), stack⟩
    · split at result
      · simp at result
      next other =>
        obtain ⟨-, rfl⟩ := result
        refine ⟨reset.trans ?_, stack⟩
        split
        next outermost =>
          by_contra moved
          exact kept ⟨outermost, fun start => moved start.symm, id, read, other⟩
        · rfl

theorem inPlace_of_primitive_iff (noError : p.error = none) :
    (∀ o', Returns (berTagDecode p.tClass p.tTag true name) p (some 0) o' ∧ o'.error = none → p.InPlace o') ↔
      ¬ p.TakesPrimitive := by
  have stack := tagReset_stack p
  constructor
  · rintro keeps ⟨more, id, read, same, primitive, moved⟩
    have found := (@returns_berTagDecode_iff _ (takeTag { tagReset p with berTag := id }) name p.tClass p.tTag (some 0)
      noError).mpr (.inr ⟨more, id, read, by rw [if_pos same, primitive]; exact ⟨rfl, rfl⟩⟩)
    exact moved (keeps _ found).1
  · rintro kept o' found
    obtain ⟨-, impossible, -⟩ | ⟨more, id, read, result⟩ := (returns_berTagDecode_iff noError).mp found
    · simp at impossible
    · split at result
      next same =>
        obtain ⟨primitive, rfl⟩ := result
        refine ⟨?_, stack⟩
        by_contra moved
        exact kept ⟨more, id, read, same, (Option.some.inj primitive).symm, moved⟩
      · simp at result

theorem absent_element_iff {tag : Int} {contents : Int → Codec (Bool × Option α)}
    (given : ∀ cons q q', ¬ Returns (contents cons) q (true, none) q') (noError : o.error = none) :
    Returns (odrElement tag true name contents) o (true, none) o' ∧ o'.error = none ↔
      Returns (berTagDecode (defaultTag 0 tag o).tClass (defaultTag 0 tag o).tTag true name) (defaultTag 0 tag o) none o' ∧
        o'.error = none := by
  rw [odrElement, returns_get_bind_iff, noError, returns_ite_iff, if_neg (by simp), returns_modify_bind_iff,
    returns_get_bind_iff, returns_bind_iff]
  constructor
  · rintro ⟨⟨found, q, ident, h⟩, fine⟩
    cases found with
    | some cons => exact absurd h (given cons q o')
    | none =>
      rw [returns_bind_iff] at h
      obtain ⟨ret, t, missing, h⟩ := h
      obtain ⟨⟨rfl, -⟩, rfl⟩ := h
      obtain ⟨-, -, rfl⟩ := (returns_odrMissing_iff _ _ _ _).mp missing
      exact ⟨ident, fine⟩
  · rintro ⟨ident, fine⟩
    refine ⟨⟨none, o', ident, ?_⟩, fine⟩
    exact ((returns_odrMissing_iff _ _ _ _).mpr ⟨fine, rfl, rfl⟩).bind ((returns_pure_iff _ _ _ _).mpr ⟨rfl, rfl⟩)

theorem given_finish {contents : Codec (Option α)} (q q' : Handle) :
    ¬ Returns (do let value ← contents
                  pure (finish value)) q (true, none) q' := by
  intro h
  rw [returns_bind_iff] at h
  obtain ⟨value, t, -, h⟩ := h
  cases value <;> simp [finish] at h

theorem given_primitiveOnly {contents : Codec (Option α)} {id : Nat} (cons : Int) (q q' : Handle) :
    ¬ Returns (primitiveOnly id contents cons) q (true, none) q' := by
  intro h
  rw [primitiveOnly, returns_ite_iff] at h
  split at h
  · simp at h
  · exact given_finish q q' h

theorem failed_constructedLength (h : Returns constructedLength o false o') : o'.error.isSome := by
  rw [constructedLength, returns_get_bind_iff, returns_reading_bind_iff] at h
  obtain ⟨⟨res, len⟩, -, h⟩ := h
  rw [returns_ite_iff] at h
  split at h
  · rw [returns_odrSeterror_bind_iff, returns_stackPop_bind_iff, returns_pure_iff] at h
    rw [← h.2]
    rfl
  · rw [returns_advance_bind_iff, returns_modify_bind_iff, returns_get_bind_iff, returns_ite_iff] at h
    split at h
    · rw [returns_odrSeterror_bind_iff, returns_stackPop_bind_iff, returns_pure_iff] at h
      rw [← h.2]
      rfl
    · simp at h

theorem failed_stackPush_bind {next : Codec Bool} (h : Returns (do if ← stackPush then next else pure false) o false o')
    (k : ∀ q, Returns next q false o' → o'.error.isSome) : o'.error.isSome := by
  rw [returns_bind_iff] at h
  obtain ⟨pushed, q, push, h⟩ := h
  cases pushed with
  | false =>
    exact h.2 ▸ failed_stackPush push
  | true =>
    exact k q h

theorem absent_constructed_iff {zclass tag : Int} (seeks : p = defaultTag zclass tag { o with lenlen := 1 })
    (noError : o.error = none) :
    Returns (odrConstructedBeginDecode zclass tag name) o false o' ∧ o'.error = none ↔
      (Returns (berTagDecode p.tClass p.tTag true name) p none o' ∧ o'.error = none) ∨
        (Returns (berTagDecode p.tClass p.tTag true name) p (some 0) o' ∧ o'.error = none) := by
  rw [odrConstructedBeginDecode, returns_get_bind_iff, returns_ite_iff, if_neg (by simp [noError]),
    returns_modify_bind_iff, ← seeks, returns_get_bind_iff, returns_enter_bind_iff, returns_bind_iff]
  constructor
  · rintro ⟨⟨found, q, ident, h⟩, fine⟩
    cases found with
    | none =>
      obtain ⟨-, rfl⟩ := h
      exact .inl ⟨ident, fine⟩
    | some =>
      rw [returns_ite_iff] at h
      split at h
      next primitive =>
        obtain ⟨-, rfl⟩ := h
        exact .inr ⟨primitive ▸ ident, fine⟩
      · have broken := failed_stackPush_bind h fun q => failed_constructedLength
        simp [fine] at broken
  · rintro (⟨ident, fine⟩ | ⟨ident, fine⟩)
    · exact ⟨⟨none, o', ident, (returns_pure_iff _ _ _ _).mpr ⟨rfl, rfl⟩⟩, fine⟩
    · refine ⟨⟨some 0, o', ident, ?_⟩, fine⟩
      dsimp only
      rw [if_pos rfl, returns_pure_iff]
      exact ⟨rfl, rfl⟩

theorem returns_sequenceBeginDecode_iff {begun : Bool} (noError : o.error = none) :
    Returns (odrSequenceBeginDecode name) o begun o' ↔ Returns (odrConstructedBeginDecode 0 16 name) o begun o' := by
  have again : defaultTag (defaultTag 0 16 o).tClass (defaultTag 0 16 o).tTag { defaultTag 0 16 o with lenlen := 1 } =
      defaultTag 0 16 { o with lenlen := 1 } := by
    unfold defaultTag
    split <;> simp_all
  have noError' : (defaultTag 0 16 o).error = none := by
    unfold defaultTag
    split <;> exact noError
  rw [odrSequenceBeginDecode, returns_get_bind_iff, noError, returns_ite_iff, if_neg (by simp),
    returns_modify_bind_iff, returns_get_bind_iff, odrConstructedBeginDecode, odrConstructedBeginDecode,
    returns_get_bind_iff, returns_get_bind_iff, noError, noError', returns_ite_iff, if_neg (by simp), returns_ite_iff,
    if_neg (by simp), returns_modify_bind_iff, returns_modify_bind_iff, again]

/-- The element behind the next `n` ones fails, and sets no error. -/
def FailsAfter (type : Codec (Bool × Option α)) : Nat → Handle → Prop
  | 0, o => Returns odrConstructedMore o true o ∧ ∃ p o', Returns type o (false, p) o' ∧ o'.error = none
  | n + 1, o => Returns odrConstructedMore o true o ∧ ∃ p o', Returns type o (true, p) o' ∧ FailsAfter type n o'

variable {type : Codec (Bool × Option α)}

theorem failsAfter_of_sequenceLoop {rounds : Nat} {members out : List (Option α)}
    (h : Returns (sequenceLoop type rounds members) o (false, out) o') (noError : o'.error = none) :
    ∃ n < rounds, FailsAfter type n o := by
  induction rounds generalizing o members with
  | zero => exact absurd h (not_returns_stop _ _ _ _)
  | succ _ ih =>
    rw [sequenceLoop, returns_bind_iff] at h
    obtain ⟨more, t, test, h⟩ := h
    obtain rfl := same_of_constructedMore test
    cases more with
    | false => simp at h
    | true =>
      rw [if_pos rfl, returns_bind_iff] at h
      obtain ⟨⟨ret, p⟩, u, element, h⟩ := h
      dsimp only at h
      cases ret with
      | false =>
        rw [if_neg (by simp), returns_pure_iff] at h
        exact ⟨0, by omega, test, p, u, element, h.2 ▸ noError⟩
      | true =>
        obtain ⟨n, few, fails⟩ := ih h
        exact ⟨n + 1, by omega, test, p, u, element, fails⟩

theorem sequenceLoop_of_failsAfter {rounds n : Nat} (few : n < rounds)
    (fails : FailsAfter type n o) (members : List (Option α)) :
    ∃ out o', Returns (sequenceLoop type rounds members) o (false, out) o' ∧ o'.error = none := by
  induction rounds generalizing o n members with
  | zero => omega
  | succ _ ih =>
    cases n with
    | zero =>
      obtain ⟨more, p, o', element, noError⟩ := fails
      refine ⟨members, o', ?_, noError⟩
      rw [sequenceLoop]
      refine more.bind ?_
      rw [if_pos rfl]
      refine element.bind ?_
      simp
    | succ =>
      obtain ⟨more, p, u, element, later⟩ := fails
      obtain ⟨out, o', loop, noError⟩ := ih (Nat.lt_of_succ_lt_succ few) later (members ++ [p])
      refine ⟨out, o', ?_, noError⟩
      rw [sequenceLoop]
      refine more.bind ?_
      rw [if_pos rfl]
      refine element.bind ?_
      dsimp only
      rw [if_pos rfl]
      exact loop

theorem failed_constructedEnd (h : Returns odrConstructedEndDecode o false o') : o'.error.isSome := by
  rw [odrConstructedEndDecode, returns_enter_bind_iff, returns_get_bind_iff, returns_ite_iff] at h
  split at h
  next broken =>
    exact h.2 ▸ broken
  · cases top : o.stack with
    | nil =>
      rw [top] at h
      rw [← h.2]
      rfl
    | cons =>
      rw [top] at h
      rw [returns_ite_iff] at h
      split at h
      · rw [returns_bind_iff] at h
        obtain ⟨closed, t, -, h⟩ := h
        cases closed with
        | true => simp at h
        | false =>
          rw [← h.2]
          rfl
      · rw [returns_ite_iff] at h
        split at h
        · rw [returns_odrSeterror_bind_iff, returns_pure_iff] at h
          rw [← h.2]
          rfl
        · simp at h

/-- A SEQUENCE OF that is not there for its caller: it does not begin, or an element fails without an error. -/
theorem absent_sequenceOf_iff (noError : o.error = none) :
    Returns (memberDecode (odrSequenceOfDecode type name) true name) o (true, none) o' ∧ o'.error = none ↔
      (Returns (odrSequenceBeginDecode name) o false o' ∧ o'.error = none) ∨
        ∃ q out, Returns (odrSequenceBeginDecode name) o true q ∧
          Returns (sequenceLoop type (q.size + 1) []) q (false, out) o' ∧ o'.error = none := by
  have given : Returns (memberDecode (odrSequenceOfDecode type name) true name) o (true, none) o' ∧ o'.error = none ↔
      (∃ out, Returns (odrSequenceOfDecode type name) o (false, out) o') ∧ o'.error = none := by
    rw [memberDecode, odrInitmemberDecode, bind_bind, returns_get_bind_iff, returns_pure_bind_iff, noError,
      Option.isNone_none, if_pos rfl, returns_bind_iff]
    constructor
    · rintro ⟨⟨⟨ret, out⟩, t, body, h⟩, fine⟩
      dsimp only at h
      cases ret with
      | true =>
        -- what was read is not null
        obtain ⟨⟨-, rfl⟩, rfl⟩ := h
        rw [odrSequenceOfDecode, returns_bind_iff] at body
        obtain ⟨begun, q, -, body⟩ := body
        cases begun with
        | false => simp at body
        | true =>
          rw [if_pos rfl, returns_get_bind_iff, returns_bind_iff] at body
          obtain ⟨⟨ret, out⟩, u, -, body⟩ := body
          dsimp only at body
          cases ret with
          | false => simp at body
          | true =>
            rw [if_pos rfl, returns_bind_iff] at body
            obtain ⟨closed, v, -, body⟩ := body
            simp at body
      | false =>
        rw [if_neg (by simp), returns_bind_iff] at h
        obtain ⟨missing, u, absent, h⟩ := h
        obtain ⟨⟨rfl, -⟩, rfl⟩ := h
        obtain ⟨-, -, rfl⟩ := (returns_odrMissing_iff _ _ _ _).mp absent
        exact ⟨⟨out, body⟩, fine⟩
    · rintro ⟨⟨out, body⟩, fine⟩
      refine ⟨⟨(false, out), o', body, ?_⟩, fine⟩
      dsimp only
      rw [if_neg (by simp)]
      exact ((returns_odrMissing_iff _ _ _ _).mpr ⟨fine, rfl, rfl⟩).bind ((returns_pure_iff _ _ _ _).mpr ⟨rfl, rfl⟩)
  rw [given]
  constructor
  · rintro ⟨⟨out, h⟩, fine⟩
    rw [odrSequenceOfDecode, returns_bind_iff] at h
    obtain ⟨begun, q, begins, h⟩ := h
    cases begun with
    | false =>
      exact .inl ⟨h.2 ▸ begins, fine⟩
    | true =>
      rw [if_pos rfl, returns_get_bind_iff, returns_bind_iff] at h
      obtain ⟨⟨ret, members⟩, t, loop, h⟩ := h
      dsimp only at h
      cases ret with
      | false =>
        exact .inr ⟨q, members, begins, h.2 ▸ loop, fine⟩
      | true =>
        rw [if_pos rfl, returns_bind_iff] at h
        obtain ⟨closed, u, ends, h⟩ := h
        rw [returns_pure_iff, Prod.mk.injEq] at h
        obtain ⟨⟨rfl, -⟩, rfl⟩ := h
        have broken := failed_constructedEnd ends
        simp [fine] at broken
  · rintro (⟨begins, fine⟩ | ⟨q, out, begins, loop, fine⟩)
    · refine ⟨⟨none, begins.bind ?_⟩, fine⟩
      simp
    · refine ⟨⟨none, begins.bind ?_⟩, fine⟩
      rw [if_pos rfl, returns_get_bind_iff]
      refine loop.bind ?_
      simp

/-! ### Optional steps -/

inductive OptionalStep where
  | integer
  | octetstring
  | oid
  | null
  | sequenceBegin
  | constructedBegin (zclass tag : Int)
  | sequenceOf (type : Ty)

namespace OptionalStep

/-- The step reports that the element is not there and sets no error: it returns 1 with a null
pointer, or 0 where it begins a constructed element. -/
def NotPresent (name : Option String) (o o' : Handle) : OptionalStep → Prop
  | .integer => Returns (odrIntegerDecode true name) o (true, none) o' ∧ o'.error = none
  | .octetstring => Returns (odrOctetstringDecode true name) o (true, none) o' ∧ o'.error = none
  | .oid => Returns (odrOidDecode true name) o (true, none) o' ∧ o'.error = none
  | .null => Returns (odrNullDecode true name) o (true, none) o' ∧ o'.error = none
  | .sequenceBegin => Returns (odrSequenceBeginDecode name) o false o' ∧ o'.error = none
  | .constructedBegin zclass tag => Returns (odrConstructedBeginDecode zclass tag name) o false o' ∧ o'.error = none
  | .sequenceOf type =>
    Returns (memberDecode (odrSequenceOfDecode (type.decode false none) name) true name) o (true, none) o' ∧
      o'.error = none

def KeepsPlace (step : OptionalStep) (name : Option String) (o : Handle) : Prop :=
  ∀ o', step.NotPresent name o o' → o.InPlace o'

def tagged (o : Handle) : OptionalStep → Handle
  | .integer => defaultTag 0 2 o
  | .octetstring => defaultTag 0 4 o
  | .oid => defaultTag 0 6 o
  | .null => defaultTag 0 5 o
  | .sequenceBegin | .sequenceOf _ => defaultTag 0 16 { o with lenlen := 1 }
  | .constructedBegin zclass tag => defaultTag zclass tag { o with lenlen := 1 }

def constructed : OptionalStep → Bool
  | .integer | .octetstring | .oid | .null => false
  | .sequenceBegin | .constructedBegin _ _ | .sequenceOf _ => true

def ElementsReport (name : Option String) (o : Handle) : OptionalStep → Prop
  | .sequenceOf type => ∀ q, Returns (odrSequenceBeginDecode name) o true q →
      ∀ n ≤ q.size, ¬ FailsAfter (type.decode false none) n q
  | _ => True

/-- Inside an element or at the start of the buffer, no primitive element is in the place of a constructed one. -/
structure Sound (step : OptionalStep) (name : Option String) (o : Handle) : Prop where
  inside : ¬ (step.tagged o).StartsOver
  constructed : step.constructed = true → ¬ (step.tagged o).TakesPrimitive
  elements : step.ElementsReport name o

theorem tagged_same (step : OptionalStep) (o : Handle) :
    (step.tagged o).bp = o.bp ∧ (step.tagged o).stack = o.stack ∧ (step.tagged o).error = o.error := by
  have default_ (zclass tag : Int) (q : Handle) : (defaultTag zclass tag q).bp = q.bp ∧
      (defaultTag zclass tag q).stack = q.stack ∧ (defaultTag zclass tag q).error = q.error := by
    unfold defaultTag
    split <;> exact ⟨rfl, rfl, rfl⟩
  cases step <;> exact default_ _ _ _

theorem keepsPlace_iff_sound {step : OptionalStep} {left : Handle → Prop} (noError : o.error = none)
    (h : ∀ o', step.NotPresent name o o' ↔
      (Returns (berTagDecode (step.tagged o).tClass (step.tagged o).tTag true name) (step.tagged o) none o' ∧
        o'.error = none) ∨
      (step.constructed = true ∧
        Returns (berTagDecode (step.tagged o).tClass (step.tagged o).tTag true name) (step.tagged o) (some 0) o' ∧
        o'.error = none) ∨ left o')
    (moved : ∀ o', left o' → ¬ o.InPlace o') (elements : step.ElementsReport name o ↔ ∀ o', ¬ left o') :
    step.KeepsPlace name o ↔ step.Sound name o := by
  obtain ⟨bp, stack, error⟩ := step.tagged_same o
  have noError' := error.trans noError
  have same (o' : Handle) : o.InPlace o' ↔ (step.tagged o).InPlace o' := by
    rw [Handle.InPlace, Handle.InPlace, bp, stack]
  constructor
  · intro keeps
    refine ⟨?_, fun isConstructed => ?_, ?_⟩
    · exact (inPlace_of_none_iff noError').mp fun o' found => (same o').mp (keeps o' ((h o').mpr (.inl found)))
    · exact (inPlace_of_primitive_iff noError').mp fun o' found =>
        (same o').mp (keeps o' ((h o').mpr (.inr (.inl ⟨isConstructed, found⟩))))
    · exact elements.mpr fun o' gone => moved o' gone (keeps o' ((h o').mpr (.inr (.inr gone))))
  · intro sound o' found
    obtain found | ⟨isConstructed, found⟩ | gone := (h o').mp found
    · exact (same o').mpr ((inPlace_of_none_iff noError').mpr sound.inside o' found)
    · exact (same o').mpr ((inPlace_of_primitive_iff noError').mpr (sound.constructed isConstructed) o' found)
    · exact absurd gone (elements.mp sound.elements o')

theorem keepsPlace_iff_of_tag {step : OptionalStep} (noError : o.error = none)
    (h : ∀ o', step.NotPresent name o o' ↔
      (Returns (berTagDecode (step.tagged o).tClass (step.tagged o).tTag true name) (step.tagged o) none o' ∧
        o'.error = none) ∨
      (step.constructed = true ∧
        Returns (berTagDecode (step.tagged o).tClass (step.tagged o).tTag true name) (step.tagged o) (some 0) o' ∧
        o'.error = none))
    (elements : step.ElementsReport name o) : step.KeepsPlace name o ↔ step.Sound name o := by
  refine @keepsPlace_iff_sound o name step (fun _ => False) noError (fun o' => ?_) (fun _ gone => gone.elim) ?_
  · rw [h o', or_false]
  · exact ⟨fun _ _ gone => gone, fun _ => elements⟩

/-- An optional step that reports that the element is not there leaves the position and the
constructed stack as they were if and only if it is `Sound`. -/
theorem keepsPlace_iff (step : OptionalStep) (name : Option String) {o : Handle} (noError : o.error = none) :
    step.KeepsPlace name o ↔ step.Sound name o := by
  cases step with
  | integer =>
    refine keepsPlace_iff_of_tag noError (fun o' => ?_) trivial
    rw [NotPresent, odrIntegerDecode, absent_element_iff given_primitiveOnly noError]
    simp [constructed, tagged]
  | oid =>
    refine keepsPlace_iff_of_tag noError (fun o' => ?_) trivial
    rw [NotPresent, odrOidDecode, absent_element_iff given_primitiveOnly noError]
    simp [constructed, tagged]
  | null =>
    refine keepsPlace_iff_of_tag noError (fun o' => ?_) trivial
    rw [NotPresent, odrNullDecode, absent_element_iff (fun _ => given_finish) noError]
    simp [constructed, tagged]
  | octetstring =>
    refine keepsPlace_iff_of_tag noError (fun o' => ?_) trivial
    rw [NotPresent, odrOctetstringDecode, returns_get_bind_iff, odrOctetstringWithin, absent_element_iff ?_ noError]
    · simp [constructed, tagged]
    · intro cons q q' h
      rw [returns_bind_iff] at h
      obtain ⟨value, t, -, h⟩ := h
      cases value <;> simp at h
  | sequenceBegin =>
    refine keepsPlace_iff_of_tag noError (fun o' => ?_) trivial
    rw [NotPresent, returns_sequenceBeginDecode_iff noError, absent_constructed_iff rfl noError]
    simp [constructed, tagged]
  | constructedBegin =>
    refine keepsPlace_iff_of_tag noError (fun o' => ?_) trivial
    rw [NotPresent, absent_constructed_iff rfl noError]
    simp [constructed, tagged]
  | sequenceOf type =>
    refine @keepsPlace_iff_sound o name (.sequenceOf type) (fun o' => ∃ q out,
      Returns (odrSequenceBeginDecode name) o true q ∧
        Returns (sequenceLoop (type.decode false none) (q.size + 1) []) q (false, out) o' ∧ o'.error = none) noError
      (fun o' => ?_) ?_ ?_
    · rw [NotPresent, absent_sequenceOf_iff noError, returns_sequenceBeginDecode_iff noError,
        absent_constructed_iff rfl noError, or_assoc]
      simp [constructed, tagged]
    · -- the entry of the SEQUENCE OF is still on the stack
      rintro o' ⟨q, out, begins, loop, -⟩ ⟨-, same⟩
      have begun := returned_of_triple (@deep_sequenceBegin o.stack.length name) (Nat.le_refl _) begins
      rw [Bool.toNat_true] at begun
      have deep := returned_of_triple (deep_sequenceLoop (type.deep _ false none) _ _) begun loop
      rw [Handle.Deep, same] at deep
      omega
    · constructor
      · rintro report o' ⟨q, out, begins, loop, noError'⟩
        obtain ⟨n, few, fails⟩ := failsAfter_of_sequenceLoop loop noError'
        exact report q begins n (Nat.le_of_lt_succ few) fails
      · intro none_ q begins n few fails
        obtain ⟨out, o', loop, noError'⟩ := sequenceLoop_of_failsAfter (Nat.lt_succ_of_le few) fails []
        exact none_ o' ⟨q, out, begins, loop, noError'⟩

/-- `30 02 10 00` after its first two octets: a SEQUENCE is ahead whose constructed bit is not set. -/
def beforePrimitive : Handle := (odrSequenceBeginDecode none (decoding [0x30, 2, 0x10, 0])).state

theorem keepsPlace_iff_beforePrimitive : beforePrimitive.error = none ∧
    OptionalStep.integer.KeepsPlace none beforePrimitive ∧ ¬ sequenceBegin.KeepsPlace none beforePrimitive := by
  have noError : beforePrimitive.error = none := by decide
  refine ⟨noError, ?_, ?_⟩
  · rw [keepsPlace_iff .integer none noError]
    refine ⟨fun outermost => ?_, fun primitive => absurd primitive (by decide), trivial⟩
    exact absurd outermost.1 (by decide)
  · rw [keepsPlace_iff .sequenceBegin none noError]
    intro sound
    refine sound.constructed rfl ⟨⟨by decide, by decide⟩, { lclass := 0, ltag := 16, br := 1, lcons := 0 },
      by decide, by decide, rfl, by decide⟩

/-- There `odr_sequence_begin` takes the identifier, sets no error and returns 0. -/
theorem not_keepsPlace_primitive : ¬ ∀ (step : OptionalStep) (name : Option String) (o : Handle), o.error = none →
    step.KeepsPlace name o := by
  intro claimed
  have kept := claimed .sequenceBegin none beforePrimitive (by decide)
    (odrSequenceBeginDecode none beforePrimitive).state ⟨⟨by decide, rfl⟩, by decide⟩
  exact absurd kept.1 (by decide)

end OptionalStep

end Yaz.Odr
