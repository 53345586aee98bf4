import Yaz.Odr.Room
import Yaz.Odr.LookAhead

/-! Encoding into a buffer that cannot grow: elements and SEQUENCEs.

Every encoder takes its octets of the buffer and, where an `odr_write` comes last, one octet more. -/

set_option autoImplicit false

namespace Yaz.Odr
open List Yaz.Foundation Yaz.Ber Run

variable {o o' : Handle} {octets : List UInt8} {outer : Option Tag} {name : Option String}

theorem failed_odrWrite (h : Returns (odrWrite octets) o false o') : o'.error.isSome := by
  cases grows : o.canGrow with
  | true => simpa using odrWrite_returns grows h
  | false =>
    rw [returns_odrWrite_fixed grows] at h
    split at h
    · cases h.1
    · rw [← h.2]
      rfl

theorem untouched_defaultTag (apt : o.Apt) (zclass number : Int) :
    (defaultTag zclass number o).Apt ∧ (defaultTag zclass number o).text = o.text ∧
      (defaultTag zclass number o).stack = o.stack ∧ (defaultTag zclass number o).top = o.top ∧
      (defaultTag zclass number o).size = o.size ∧ (defaultTag zclass number o).canGrow = o.canGrow := by
  unfold defaultTag
  split
  · exact ⟨⟨apt.atEnd, apt.inside, apt.sized, apt.error, apt.lenlen⟩, rfl, rfl, rfl, rfl, rfl⟩
  · exact ⟨apt, rfl, rfl, rfl, rfl, rfl⟩

theorem added_tagReset (apt : o.Apt) (start : o.stack = [] → o.top = 0) (zclass number : Int) :
    Added o (tagReset (defaultTag zclass number o)) [] := by
  have untouched := untouched_defaultTag apt zclass number
  generalize defaultTag zclass number o = p at untouched
  obtain ⟨apt, text, stack, top, size, grows⟩ := untouched
  unfold tagReset
  split
  next outermost =>
    have empty : o.top = 0 := start (stack ▸ List.isEmpty_iff.mp outermost)
    have small := apt.sized
    refine ⟨⟨rfl, Nat.zero_le _, fun fixed => ⟨Nat.zero_le _, (small fixed).2⟩, apt.error, apt.lenlen⟩, fun _ => size,
      grows, stack, rfl, ?_⟩
    rw [← text, append_nil]
    simp [Handle.text, top, empty]
  · exact ⟨⟨apt.atEnd, apt.inside, apt.sized, apt.error, apt.lenlen⟩, fun _ => size, grows, stack, rfl, by
      rw [← text, append_nil]
      rfl⟩

variable {α : Type} {opt : Bool} {contents : α → Codec Bool}

theorem returns_element_iff {number : Nat} {value : α}
    (noError : o.error = none) :
    Returns (odrElementEncode number (some value) opt name contents) o true o' ↔
      ∃ q, Returns (berEnctag (defaultTag 0 number o).tClass (defaultTag 0 number o).tTag false)
          (tagReset (defaultTag 0 number o)) true q ∧ Returns (contents value) q true o' := by
  rw [odrElementEncode, returns_get_bind_iff, noError, returns_ite_iff, if_neg (by simp), returns_modify_bind_iff,
    returns_get_bind_iff, returns_bind_iff]
  constructor
  · rintro ⟨res, middle, ident, h⟩
    rw [berTagEncode, returns_modify_bind_iff, Option.isSome_some, if_pos rfl, returns_bind_iff] at ident
    obtain ⟨done, q, first, ident⟩ := ident
    cases done with
    | false =>
      rw [if_neg (by simp), returns_pure_iff] at ident
      obtain ⟨rfl, rfl⟩ := ident
      simp at h
    | true =>
      rw [if_pos rfl, returns_pure_iff] at ident
      obtain ⟨rfl, rfl⟩ := ident
      exact ⟨q, first, h⟩
  · rintro ⟨q, first, h⟩
    refine ⟨1, q, ?_, ?_⟩
    · rw [berTagEncode, returns_modify_bind_iff, Option.isSome_some, if_pos rfl]
      refine first.bind ?_
      rw [if_pos rfl, returns_pure_iff]
      exact ⟨rfl, rfl⟩
    · rw [if_neg (by simp)]
      exact h

/-- Two encoders after each other: the last octets are those of the second, if it has any. -/
theorem Fits.andThen {first next : Codec Bool} {front back : List UInt8} {last last' : Bool} {good good' : Prop}
    (apt : o.Apt) (h : Fits first o front last good)
    (k : ∀ p, Added o p front → Fits next p back last' good') (some_ : last' = true → back ≠ [])
    (keeps : ∀ p q, p.error.isSome → Returns next p true q → q.error.isSome) :
    Fits (do if ← first then next else pure false) o (front ++ back) (if back = [] then last else last')
      (good ∧ good') := by
  constructor
  · rintro o' ⟨h', noError⟩
    rw [returns_bind_iff] at h'
    obtain ⟨done, p, one, two⟩ := h'
    cases done with
    | false => simp at two
    | true =>
      have fine : p.error = none := by
        by_contra broken
        have := keeps p o' (Option.isSome_iff_ne_none.mpr broken) two
        simp [noError] at this
      obtain ⟨isGood, added, room⟩ := h.stores p ⟨one, fine⟩
      obtain ⟨isGood', added', room'⟩ := (k p added).stores o' ⟨two, noError⟩
      refine ⟨⟨isGood, isGood'⟩, added.trans added', fun fixed => ?_⟩
      have top := added.top apt
      have enough := room fixed
      have enough' := room' (added.canGrow.trans fixed)
      rw [added.size fixed] at enough'
      rw [length_append]
      split
      next empty =>
        rw [empty, length_nil]
        omega
      · omega
  · rintro fixed ⟨isGood, isGood'⟩ room
    rw [length_append] at room
    have atMost : ∀ b : Bool, b.toNat ≤ 1 := fun b => by cases b <;> simp
    have here : o.top + front.length + last.toNat ≤ o.size := by
      by_cases empty : back = []
      · rw [if_pos empty] at room
        omega
      · have positive := length_pos_iff.mpr empty
        have small := atMost last
        omega
    obtain ⟨p, one⟩ := h.succeeds fixed isGood here
    obtain ⟨-, added, -⟩ := h.stores p one
    have top := added.top apt
    have later : p.top + back.length + last'.toNat ≤ p.size := by
      rw [added.size fixed]
      by_cases empty : back = []
      · have none_ : last' = false := by
          by_contra more
          exact some_ (by simpa using more) empty
        rw [none_, Bool.toNat_false]
        omega
      · rw [if_neg empty] at room
        omega
    obtain ⟨o', two, noError⟩ := (k p added).succeeds (added.canGrow.trans fixed) isGood' later
    refine ⟨o', one.1.bind ?_, noError⟩
    rw [if_pos rfl]
    exact two

theorem fits_element {number : Nat} {value : α} {last : Bool}
    {good : Prop} (apt : o.Apt) (start : o.stack = [] → o.top = 0) (tagged : o.Tagged outer)
    (small : (outer.getD (0, number)).2 < 2 ^ 28) (hc : ContentsFit (contents value) octets last good) :
    Fits (odrElementEncode number (some value) opt name contents) o
      (identifier (outer.getD (0, number)) false ++ octets) last good := by
  have reset := added_tagReset apt start 0 number
  obtain ⟨isClass, isTag⟩ := defaultTag_tagged tagged 0 number
  rw [Nat.cast_zero] at isClass isTag
  have top := reset.top apt
  rw [length_nil, Nat.add_zero] at top
  constructor
  · rintro o' ⟨h, noError⟩
    rw [returns_element_iff apt.error, isClass, isTag] at h
    obtain ⟨q, ident, contained⟩ := h
    obtain ⟨-, stored⟩ := stored_berEnctag reset.apt.seated ident
    have first := stored.added reset.apt reset.tClass
    obtain ⟨isGood, added, room⟩ := (hc q first.apt first.tClass).stores o' ⟨contained, noError⟩
    refine ⟨isGood, reset.trans (first.trans added), fun fixed => ?_⟩
    have enough := room ((reset.trans first).canGrow.trans fixed)
    have position := (reset.trans first).top apt
    rw [(reset.trans first).size fixed, position, nil_append] at enough
    rw [length_append, identifier]
    omega
  · intro fixed isGood room
    rw [length_append, identifier] at room
    have ident : Returns (berEnctag (outer.getD (0, number)).1 (outer.getD (0, number)).2 false)
        (tagReset (defaultTag 0 number o)) true
        (put (enctagOctets (outer.getD (0, number)).1 (outer.getD (0, number)).2 false)
          (tagReset (defaultTag 0 number o))) := by
      rw [berEnctag, if_neg (by omega)]
      apply returns_odrPutAll_room reset.apt.seated
      rw [reset.size fixed, reset.apt.atEnd, top]
      omega
    obtain ⟨-, stored⟩ := stored_berEnctag reset.apt.seated ident
    have first := stored.added reset.apt reset.tClass
    have position := (reset.trans first).top apt
    obtain ⟨o', contained, noError⟩ := (hc _ first.apt first.tClass).succeeds ((reset.trans first).canGrow.trans fixed) isGood (by
      rw [(reset.trans first).size fixed, position, nil_append]
      omega)
    refine ⟨o', ?_, noError⟩
    rw [returns_element_iff apt.error, isClass, isTag]
    exact ⟨_, ident, contained⟩

theorem fits_nothing {p : Handle} {run : Codec Bool} (apt : o.Apt) (added : Added o p [])
    (h : ∀ o', Succeeds run o o' ↔ opt = true ∧ p = o') : Fits run o [] false (opt = true) := by
  constructor
  · intro o' succeeded
    obtain ⟨optional, rfl⟩ := (h o').mp succeeded
    exact ⟨optional, added, fun fixed => (apt.sized fixed).1⟩
  · intro fixed optional _
    exact ⟨p, (h p).mpr ⟨optional, rfl⟩⟩

theorem returns_berTag_null_iff {zclass tag res : Int} {constructed : Bool} :
    Returns (berTagEncode false zclass tag constructed opt name) o res o' ∧ o'.error = none ↔
      opt = true ∧ o.error = none ∧ res = 0 ∧ tagReset o = o' := by
  have same : (tagReset o).error = o.error := tagReset_error o
  rw [berTagEncode, returns_modify_bind_iff, returns_ite_iff, if_neg (by simp)]
  cases opt with
  | true =>
    rw [requireUnless, if_pos rfl, returns_pure_bind_iff, returns_pure_iff, @eq_comm Int 0]
    constructor
    · rintro ⟨⟨rfl, rfl⟩, noError⟩
      exact ⟨rfl, same.symm.trans noError, rfl, rfl⟩
    · rintro ⟨-, noError, rfl, rfl⟩
      exact ⟨⟨rfl, rfl⟩, same.trans noError⟩
  | false =>
    constructor
    · rintro ⟨h, noError⟩
      rw [returns_bind_iff] at h
      obtain ⟨_, middle, failed, h⟩ := h
      rw [returns_pure_iff] at h
      obtain ⟨-, rfl⟩ := h
      have broken := error_of_requireUnless failed
      simp [noError] at broken
    · simp

theorem fits_absent {number : Nat} (apt : o.Apt)
    (start : o.stack = [] → o.top = 0) :
    Fits (odrElementEncode number none opt name contents) o [] false (opt = true) := by
  have reset := added_tagReset apt start 0 number
  refine fits_nothing apt reset fun o' => ?_
  rw [Succeeds, odrElementEncode, returns_get_bind_iff, apt.error, returns_ite_iff, if_neg (by simp),
    returns_modify_bind_iff, returns_get_bind_iff, returns_bind_iff]
  constructor
  · rintro ⟨⟨res, middle, ident, h⟩, noError⟩
    split at h
    · simp at h
    · obtain ⟨fine, optional, rfl⟩ := (returns_odrMissing_iff _ _ _ _).mp h
      obtain ⟨-, -, -, same⟩ := returns_berTag_null_iff.mp ⟨ident, noError⟩
      exact ⟨optional, same⟩
  · rintro ⟨rfl, rfl⟩
    have noError := reset.apt.error
    obtain ⟨ident, -⟩ := returns_berTag_null_iff.mpr
      (show true = true ∧ (defaultTag 0 number o).error = none ∧ (0 : Int) = 0 ∧
        tagReset (defaultTag 0 number o) = tagReset (defaultTag 0 number o) from
      ⟨rfl, (tagReset_error _).symm.trans noError, rfl, rfl⟩)
    refine ⟨⟨0, _, ident, ?_⟩, noError⟩
    rw [if_neg (by simp)]
    exact (returns_odrMissing_iff _ _ _ _).mpr ⟨noError, rfl, rfl⟩

/-! ### The beginning and the end of a SEQUENCE -/

def Handle.push (o : Handle) : Handle :=
  { o with
    stack := { base := o.bp, baseOffset := o.pos, len := 0, lenOffset := o.pos, lenlen := 1 } :: o.stack
    spare := o.spare - 1 }

def Handle.based (o : Handle) : Handle := setTop (fun entry => { entry with base := o.bp, baseOffset := o.pos }) o

theorem defaultTag_again (number : Int) (o : Handle) :
    defaultTag (defaultTag 0 number o).tClass (defaultTag 0 number o).tTag (defaultTag 0 number o) =
      defaultTag 0 number o := by
  have set : ¬ (defaultTag 0 number o).tClass < 0 := by
    unfold defaultTag
    split
    · simp
    · assumption
  conv_lhs => rw [defaultTag]
  rw [if_neg set]

theorem returns_sequenceBegin_eq (apt : o.Apt) {present r : Bool} :
    Returns (odrSequenceBeginEncode present name) o r o' ↔
      ∃ res q, Returns (berTagEncode present (defaultTag 0 16 o).tClass (defaultTag 0 16 o).tTag true true name)
          (defaultTag 0 16 o) res q ∧
        Returns (if res ≤ 0 then pure false
          else do
            if ← stackPush then do
              Run.modify (setTop fun entry => { entry with lenlen := 1 })
              if ← odrWrite [0] then do
                Run.modify Handle.based
                pure true
              else do
                stackPop
                pure false
            else pure false) q r o' := by
  have same : { defaultTag 0 16 o with lenlen := 1 } = defaultTag 0 16 o := by
    have one : (defaultTag 0 16 o).lenlen = 1 := by
      unfold defaultTag
      split <;> exact apt.lenlen
    generalize defaultTag 0 16 o = p at one
    cases p
    subst one
    rfl
  have error : (defaultTag 0 16 o).error = none := by
    unfold defaultTag
    split <;> exact apt.error
  have one : (defaultTag 0 16 o).lenlen = 1 := congrArg Handle.lenlen same.symm
  rw [odrSequenceBeginEncode, returns_get_bind_iff, apt.error, returns_ite_iff, if_neg (by simp), returns_modify_bind_iff,
    returns_get_bind_iff, odrConstructedBeginEncode, returns_get_bind_iff]
  rw [error, returns_ite_iff, if_neg (by simp), returns_modify_bind_iff, same, defaultTag_again, returns_get_bind_iff,
    returns_bind_iff, one]
  rfl

/-- The identifier and one octet for the length are written, and the element is the innermost one. -/
structure Begun (o p : Handle) (tag : Tag) : Prop where
  apt : p.Apt
  size : o.canGrow = false → p.size = o.size
  canGrow : p.canGrow = o.canGrow
  tClass : p.tClass = -1
  text : p.text = o.text ++ identifier tag true ++ [0]
  stack : ∃ entry, p.stack = entry :: o.stack ∧ entry.lenOffset = (o.text ++ identifier tag true).length ∧
    entry.baseOffset = entry.lenOffset + 1 ∧ entry.lenlen = 1

theorem returns_stackPush_true_iff :
    Returns stackPush o true o' ↔ ¬ (o.spare = 0 ∧ o.stack ≠ [] ∧ odrMaxStack ≤ o.stack.length) ∧
      o' = { o with
        stack := { base := o.bp, baseOffset := o.pos, len := 0, lenOffset := o.pos, lenlen := 0 } :: o.stack
        spare := o.spare - 1 } := by
  rw [stackPush, returns_get_bind_iff, returns_ite_iff]
  split
  next full =>
    rw [returns_odrSeterror_bind_iff, returns_pure_iff]
    simp [full]
  next room =>
    rw [returns_modify_bind_iff, returns_pure_iff]
    simp only [room, not_false_eq_true, true_and, eq_comm]

theorem failed_sequenceBegin (apt : o.Apt) (h : Returns (odrSequenceBeginEncode true name) o false o') :
    o'.error.isSome := by
  rw [returns_sequenceBegin_eq apt] at h
  obtain ⟨res, q, ident, h⟩ := h
  rw [berTagEncode, returns_modify_bind_iff, if_pos rfl, returns_bind_iff] at ident
  obtain ⟨done, q', first, ident⟩ := ident
  cases done with
  | false =>
    rw [if_neg (by simp), returns_pure_iff] at ident
    obtain ⟨rfl, rfl⟩ := ident
    rw [berEnctag, returns_ite_iff] at first
    split at first
    · exact absurd first (not_returns_stop _ _ _ _)
    · exact h.2 ▸ failed_odrPutAll first
  | true =>
    rw [if_pos rfl, returns_pure_iff] at ident
    obtain ⟨rfl, rfl⟩ := ident
    rw [if_neg (by simp), returns_bind_iff] at h
    obtain ⟨pushed, q₁, push, h⟩ := h
    cases pushed with
    | false =>
      exact h.2 ▸ failed_stackPush push
    | true =>
      rw [if_pos rfl, returns_modify_bind_iff, returns_bind_iff] at h
      obtain ⟨written, q₂, write, h⟩ := h
      cases written with
      | true => simp at h
      | false =>
        have failed := failed_odrWrite write
        rw [← h.2]
        exact failed

theorem Handle.Apt.push (apt : o.Apt) : o.push.Apt := ⟨apt.atEnd, apt.inside, apt.sized, apt.error, apt.lenlen⟩

theorem begun_based {q p : Handle} {tag : Tag} (apt : o.Apt) (before : Added o q (identifier tag true))
    (write : Returns (odrWrite [0]) q.push true p) : Begun o p.based tag ∧
      (o.canGrow = false → o.top + (identifier tag true).length + 2 ≤ o.size) := by
  have place := (stored_odrWrite write).added before.apt.push before.tClass
  have position := before.top apt
  have atEnd := before.apt.atEnd
  have text : p.text = o.text ++ identifier tag true ++ [0] := by rw [place.text, ← before.text]; rfl
  have after : p.pos = q.pos + 1 := by
    have top := place.top before.apt.push
    rw [place.apt.atEnd, top]
    simp only [Handle.push, length_singleton]
    omega
  constructor
  · refine ⟨?_, fun fixed => ?_, place.canGrow.trans before.canGrow, place.tClass, text, ?_⟩
    · exact ⟨place.apt.atEnd, place.apt.inside, place.apt.sized, place.apt.error, place.apt.lenlen⟩
    · exact (place.size (before.canGrow.trans fixed)).trans (before.size fixed)
    · have stack := place.stack
      simp only [Handle.push] at stack
      refine ⟨{ base := p.bp, baseOffset := p.pos, len := 0, lenOffset := q.pos, lenlen := 1 }, ?_, ?_, after, rfl⟩
      · simp only [Handle.based, setTop, stack, before.stack]
      · rw [length_append, apt.length_text]
        exact atEnd.trans position
  · intro fixed
    have fixed' : q.push.canGrow = false := before.canGrow.trans fixed
    have room := room_odrWrite fixed' write
    simp only [Handle.push, length_singleton] at room
    rw [before.size fixed] at room
    omega

theorem begun_sequence (apt : o.Apt) (start : o.stack = [] → o.top = 0) (tagged : o.Tagged outer)
    (h : Returns (odrSequenceBeginEncode true name) o true o') :
    Begun o o' (outer.getD (0, 16)) ∧
      (o.canGrow = false → o.top + (identifier (outer.getD (0, 16)) true).length + 2 ≤ o.size) := by
  have reset := added_tagReset apt start 0 16
  obtain ⟨isClass, isTag⟩ := defaultTag_tagged tagged 0 16
  rw [Nat.cast_zero, show ((16 : Nat) : Int) = 16 from rfl] at isClass isTag
  rw [returns_sequenceBegin_eq apt, isClass, isTag] at h
  obtain ⟨res, q, ident, h⟩ := h
  rw [berTagEncode, returns_modify_bind_iff, if_pos rfl, returns_bind_iff] at ident
  obtain ⟨done, q', first, ident⟩ := ident
  cases done with
  | false =>
    rw [if_neg (by simp), returns_pure_iff] at ident
    obtain ⟨rfl, rfl⟩ := ident
    simp at h
  | true =>
    rw [if_pos rfl, returns_pure_iff] at ident
    obtain ⟨rfl, rfl⟩ := ident
    obtain ⟨-, stored⟩ := stored_berEnctag reset.apt.seated first
    have before := reset.trans (stored.added reset.apt reset.tClass)
    rw [if_neg (by simp), returns_bind_iff] at h
    obtain ⟨pushed, q₁, push, h⟩ := h
    cases pushed with
    | false => simp at h
    | true =>
      rw [returns_stackPush_true_iff] at push
      obtain ⟨-, rfl⟩ := push
      rw [if_pos rfl, returns_modify_bind_iff, returns_bind_iff] at h
      obtain ⟨written, p, write, h⟩ := h
      cases written with
      | false => simp at h
      | true =>
        obtain ⟨-, rfl⟩ := h
        exact begun_based apt before write

/-- Where there is room for one octet more than the identifier and the place for the length. -/
theorem begins_sequence (apt : o.Apt) (start : o.stack = [] → o.top = 0) (tagged : o.Tagged outer)
    (fixed : o.canGrow = false) (small : (outer.getD (0, 16)).2 < 2 ^ 28) (depth : o.stack.length < odrMaxStack)
    (room : o.top + (identifier (outer.getD (0, 16)) true).length + 2 ≤ o.size) :
    ∃ p, Returns (odrSequenceBeginEncode true name) o true p := by
  have reset := added_tagReset apt start 0 16
  have top := reset.top apt
  obtain ⟨isClass, isTag⟩ := defaultTag_tagged tagged 0 16
  rw [Nat.cast_zero, show ((16 : Nat) : Int) = 16 from rfl] at isClass isTag
  rw [length_nil, Nat.add_zero] at top
  have first : Returns (berEnctag (outer.getD (0, 16)).1 (outer.getD (0, 16)).2 true) (tagReset (defaultTag 0 16 o)) true
      (put (identifier (outer.getD (0, 16)) true) (tagReset (defaultTag 0 16 o))) := by
    rw [berEnctag, if_neg (by omega)]
    apply returns_odrPutAll_room reset.apt.seated
    rw [reset.size fixed, reset.apt.atEnd, top]
    simp only [identifier] at room
    omega
  obtain ⟨-, stored⟩ := stored_berEnctag reset.apt.seated first
  have before := reset.trans (stored.added reset.apt reset.tClass)
  rw [nil_append] at before
  generalize put (identifier (outer.getD (0, 16)) true) (tagReset (defaultTag 0 16 o)) = q at first before
  have position := before.top apt
  have atEnd := before.apt.atEnd
  have write : Returns (odrWrite [0]) q.push true (put [0] q.push) := by
    refine @returns_odrWrite_room q.push [0] (before.canGrow.trans fixed) ?_ ?_
    · rw [length_singleton]
      simp only [Handle.push]
      rw [before.size fixed, atEnd, position]
      simp only [identifier] at room ⊢
      omega
    · exact (before.apt.sized (before.canGrow.trans fixed)).2
  refine ⟨(put [0] q.push).based, ?_⟩
  rw [returns_sequenceBegin_eq apt, isClass, isTag]
  refine ⟨1, q, ?_, ?_⟩
  · rw [berTagEncode, returns_modify_bind_iff, if_pos rfl]
    refine first.bind ?_
    rw [if_pos rfl, returns_pure_iff]
    exact ⟨rfl, rfl⟩
  · rw [if_neg (by simp)]
    have shallow : ¬ (q.spare = 0 ∧ q.stack ≠ [] ∧ odrMaxStack ≤ q.stack.length) := by
      rw [before.stack]
      omega
    refine (returns_stackPush_true_iff.mpr ⟨shallow, rfl⟩).bind ?_
    rw [if_pos rfl, returns_modify_bind_iff]
    refine Returns.bind write ?_
    rw [if_pos rfl, returns_modify_bind_iff, returns_pure_iff]
    exact ⟨rfl, rfl⟩

/-- A handle at the end of a constructed element: the place for its length octet and its body. -/
structure Ending (q : Handle) (front body : List UInt8) (below : List ConStack) : Prop where
  apt : q.Apt
  tClass : q.tClass = -1
  text : q.text = front ++ [0] ++ body
  stack : ∃ entry, q.stack = entry :: below ∧ entry.lenOffset = front.length ∧
    entry.baseOffset = entry.lenOffset + 1 ∧ entry.lenlen = 1

variable {q : Handle} {front body : List UInt8} {below : List ConStack}

theorem Ending.top (ending : Ending q front body below) : q.top = front.length + 1 + body.length := by
  rw [← ending.apt.length_text, ending.text]
  simp only [length_append, length_singleton]

/-- A place in the text is filled in, and the position is at the end. -/
theorem Ending.filled (ending : Ending q front body below) (c : UInt8) {r ended : Bool} {q₁ q₂ q₃ : Handle}
    (seek : Returns (odrSeek front.length) q r q₁) (patch : Stored q₁ q₂ [c])
    (seekEnd : Returns odrSeekEnd q₂ ended q₃) :
    q₃.Apt ∧ q₃.text = front ++ [c] ++ body ∧ (q.canGrow = false → q₃.size = q.size) ∧ q₃.canGrow = q.canGrow ∧
      q₃.tClass = -1 ∧ q₃.stack = q.stack := by
  have top := ending.top
  have seated := ending.apt.seated
  have place := sought_odrSeek seated (show front.length ≤ q.top by omega) seek
  have seated₁ : q₁.Seated := by
    obtain ⟨size, same⟩ := place.1
    refine ⟨?_, ?_, fun fixed => ?_⟩
    · rw [same]
      simp only [Handle.resize_pos, Handle.seek_pos, Handle.resize_top, Handle.seek_top]
      omega
    · rw [same]
      exact ending.apt.inside
    · have fixed' : q.canGrow = false := by rw [same] at fixed; exact fixed
      rw [place.2 fixed']
      exact seated.sized fixed'
  have seated₂ := patch.seated seated₁
  have final := sought_odrSeek seated₂ (Nat.le_refl _) seekEnd
  have text := patch.text seated₁
  obtain ⟨size₁, same₁⟩ := place.1
  obtain ⟨size₂, same₂⟩ := patch.resized
  obtain ⟨size₃, same₃⟩ := final.1
  have sizes : q.canGrow = false → q₃.size = q.size := by
    intro fixed
    have exact₁ := place.2 fixed
    have fixed₁ : q₁.canGrow = false := by rw [exact₁]; exact fixed
    rw [final.2 (patch.canGrow.trans fixed₁), (patch.fixed fixed₁).1, exact₁]
    rfl
  have grows : q₃.canGrow = q.canGrow := by rw [same₃, same₂, same₁]; rfl
  refine ⟨⟨?_, ?_, ?_, ?_, ?_⟩, ?_, sizes, grows, ?_, ?_⟩
  · rw [same₃]
    rfl
  · rw [same₃]
    exact seated₂.inside
  · intro fixed
    rw [sizes (grows.symm.trans fixed)]
    have room := ending.apt.sized (grows.symm.trans fixed)
    rw [same₃, same₂, same₁]
    simp only [Handle.resize_top, Handle.seek_top, put, Handle.resize_pos, Handle.seek_pos, length_singleton]
    omega
  · rw [same₃, same₂, same₁]
    exact ending.apt.error
  · rw [same₃, same₂, same₁]
    exact ending.apt.lenlen
  · have here : q₁.text = front ++ [0] ++ body := by rw [← ending.text, same₁]; rfl
    have position : q₁.pos = front.length := by rw [same₁]; rfl
    have last : q₃.text = q₂.text := by rw [same₃]; rfl
    have start : (front ++ [0] ++ body).take front.length = front := by rw [append_assoc, take_left]
    have rest : (front ++ [0] ++ body).drop (front.length + [c].length) = body := drop_left' (by simp)
    rw [last, text, here, position, store, start, rest]
  · rw [same₃, same₂, same₁]
    exact ending.tClass
  · rw [same₃, same₂, same₁]
    rfl

theorem returned_odrPutc {c : UInt8} {r : Bool} (room : o.canGrow = false → o.pos < o.size)
    (h : Returns (odrPutc c) o r o') : r = true ∧ Stored o o' [c] := by
  cases r with
  | true => exact ⟨rfl, stored_odrPutc h⟩
  | false =>
    cases grows : o.canGrow with
    | true => cases (odrPutc_returns grows h).1
    | false =>
      rw [returns_odrPutc_fixed grows, if_pos (room grows)] at h
      cases h.1

theorem returned_berEnclen {len : Nat} {res : Int} (room : o.canGrow = false → o.pos < o.size)
    (h : Returns (berEnclen len 1 true) o res o') :
    ∃ c, Stored o o' [c] ∧ if len ≤ 127 then res = 1 ∧ c = UInt8.ofNat len else res = 0 ∧ c = 0x80 := by
  rw [berEnclen, returns_ite_iff] at h
  split at h
  next short =>
    rw [returns_bind_iff] at h
    obtain ⟨done, middle, first, h⟩ := h
    obtain ⟨rfl, stored⟩ := returned_odrPutc room first
    rw [if_pos rfl, returns_pure_iff] at h
    obtain ⟨rfl, rfl⟩ := h
    exact ⟨_, stored, by simp [short.1]⟩
  next long =>
    rw [if_pos rfl, returns_bind_iff] at h
    obtain ⟨done, middle, first, h⟩ := h
    obtain ⟨rfl, stored⟩ := returned_odrPutc room first
    rw [returns_pure_iff] at h
    obtain ⟨rfl, rfl⟩ := h
    have more : ¬ len ≤ 127 := by simpa using long
    exact ⟨_, stored, by simp [more]⟩

def closedBody (body : List UInt8) : List UInt8 :=
  if body.length ≤ 127 then UInt8.ofNat body.length :: body else 0x80 :: (body ++ [0, 0])

/-- The end of a constructed element: the length goes into its place, or two zeros end the body. -/
theorem Ending.closed (ending : Ending q front body below) (h : Returns odrConstructedEndEncode q true o') :
    o'.Apt ∧ o'.text = front ++ closedBody body ∧ (q.canGrow = false → o'.size = q.size) ∧ o'.canGrow = q.canGrow ∧
      o'.tClass = -1 ∧ o'.stack = below ∧ (q.canGrow = false → 127 < body.length → q.top + 2 ≤ q.size) := by
  have top := ending.top
  obtain ⟨entry, stack, lenOffset, baseOffset, lenlen⟩ := ending.stack
  have count : q.pos - entry.baseOffset = body.length := by
    rw [ending.apt.atEnd, top, baseOffset, lenOffset]
    omega
  rw [odrConstructedEndEncode, returns_get_bind_iff, ending.apt.error, returns_ite_iff, if_neg (by simp), stack] at h
  rw [returns_bind_iff] at h
  obtain ⟨back, q₁, seek, h⟩ := h
  rw [returns_bind_iff, lenlen, count] at h
  obtain ⟨res, q₂, length, h⟩ := h
  rw [lenOffset] at seek
  have place := sought_odrSeek ending.apt.seated (show front.length ≤ q.top by omega) seek
  have room : q₁.canGrow = false → q₁.pos < q₁.size := by
    intro fixed
    obtain ⟨size, same⟩ := place.1
    have fixed' : q.canGrow = false := by rw [same] at fixed; exact fixed
    have sized := (ending.apt.sized fixed').1
    rw [place.2 fixed', Handle.seek_pos, Handle.seek_size]
    omega
  obtain ⟨c, patch, form⟩ := returned_berEnclen room length
  have accepted : ¬ res < 0 := by
    split at form <;> omega
  rw [returns_ite_iff, if_neg accepted, returns_bind_iff] at h
  obtain ⟨ended, q₃, seekEnd, h⟩ := h
  obtain ⟨apt, text, size, grows, tClass, below'⟩ := ending.filled c seek patch seekEnd
  by_cases short : body.length ≤ 127
  · rw [if_pos short] at form
    obtain ⟨rfl, rfl⟩ := form
    rw [returns_ite_iff, if_neg (by simp), returns_stackPop_bind_iff, returns_pure_iff] at h
    obtain ⟨-, rfl⟩ := h
    refine ⟨⟨apt.atEnd, apt.inside, apt.sized, apt.error, apt.lenlen⟩, ?_, size, grows, tClass, ?_, fun _ long => by omega⟩
    · rw [closedBody, if_pos short]
      refine text.trans ?_
      simp
    · rw [below', stack]
      rfl
  · rw [if_neg short] at form
    obtain ⟨rfl, rfl⟩ := form
    rw [returns_ite_iff, if_pos rfl, returns_bind_iff] at h
    obtain ⟨done, q₄, zeros, h⟩ := h
    cases done with
    | false => simp at h
    | true =>
      rw [if_pos rfl, returns_stackPop_bind_iff, returns_pure_iff] at h
      obtain ⟨-, rfl⟩ := h
      have stored := stored_odrPutAll apt.seated zeros
      have added := stored.added apt tClass
      refine ⟨⟨added.apt.atEnd, added.apt.inside, added.apt.sized, added.apt.error, added.apt.lenlen⟩, ?_, ?_,
        added.canGrow.trans grows, added.tClass, ?_, ?_⟩
      · rw [closedBody, if_neg short]
        refine added.text.trans ?_
        rw [text]
        simp
      · exact fun fixed => (added.size (grows.trans fixed)).trans (size fixed)
      · rw [added.stack, below', stack]
        rfl
      · intro fixed _
        have room := (stored.fixed (grows.trans fixed)).2
        rw [size fixed, apt.atEnd, ← apt.length_text, text] at room
        simp only [length_append, length_cons, length_nil] at room
        omega

theorem returns_stackPop (o : Handle) : ∃ o', Returns (do
    stackPop
    pure true : Codec Bool) o true o' :=
  ⟨{ o with stack := o.stack.tail, spare := o.spare + 1 }, by rw [returns_stackPop_bind_iff, returns_pure_iff]; exact ⟨rfl, rfl⟩⟩

/-- Where there is room for the zeros that end a long body. -/
theorem Ending.closes (ending : Ending q front body below) (fixed : q.canGrow = false)
    (room : 127 < body.length → q.top + 2 ≤ q.size) : ∃ o', Returns odrConstructedEndEncode q true o' := by
  have top := ending.top
  have sized := (ending.apt.sized fixed).1
  obtain ⟨entry, stack, lenOffset, baseOffset, lenlen⟩ := ending.stack
  have count : q.pos - entry.baseOffset = body.length := by
    rw [ending.apt.atEnd, top, baseOffset, lenOffset]
    omega
  have seek : Returns (odrSeek front.length) q true (q.seek front.length) :=
    (returns_odrSeek_fixed fixed (by omega)).mpr ⟨rfl, rfl⟩
  have inside : (q.seek front.length).pos < (q.seek front.length).size := by
    rw [Handle.seek_pos, Handle.seek_size]
    omega
  have place (c : UInt8) : Returns odrSeekEnd (put [c] (q.seek front.length)) true
      ((put [c] (q.seek front.length)).seek (put [c] (q.seek front.length)).top) := by
    rw [odrSeekEnd, returns_get_bind_iff]
    refine (@returns_odrSeek_fixed (put [c] (q.seek front.length)) _ true fixed _ ?_).mpr ⟨rfl, rfl⟩
    simp only [put, Handle.seek_top, Handle.seek_pos, Handle.seek_size, length_singleton]
    omega
  have start : ∀ (res : Int) (c : UInt8), Returns (berEnclen body.length 1 true) (q.seek front.length) res
        (put [c] (q.seek front.length)) → ¬ res < 0 →
      (∃ o', Returns (do
        if res = 0 then do
            if ← odrPutAll [0, 0] then do
              stackPop
              pure true
            else pure false
          else do
            stackPop
            pure true : Codec Bool) ((put [c] (q.seek front.length)).seek (put [c] (q.seek front.length)).top) true o') →
      ∃ o', Returns odrConstructedEndEncode q true o' := by
    rintro res c length accepted ⟨o', rest⟩
    refine ⟨o', ?_⟩
    rw [odrConstructedEndEncode, returns_get_bind_iff, ending.apt.error, returns_ite_iff, if_neg (by simp), stack]
    dsimp only
    rw [lenOffset, lenlen, count]
    refine seek.bind (length.bind ?_)
    rw [if_neg accepted]
    exact (place c).bind rest
  by_cases short : body.length ≤ 127
  · obtain ⟨o', popped⟩ := returns_stackPop ((put [UInt8.ofNat body.length] (q.seek front.length)).seek
      (put [UInt8.ofNat body.length] (q.seek front.length)).top)
    refine start 1 _ (returns_berEnclen_short short (.inl rfl) inside) (by simp) ⟨o', ?_⟩
    rw [if_neg (by simp)]
    exact popped
  · have indefinite : Returns (berEnclen body.length 1 true) (q.seek front.length) 0 (put [0x80] (q.seek front.length)) := by
      rw [berEnclen, if_neg (by simp [short]), if_pos rfl]
      refine (returns_odrPutc_room inside).bind ?_
      rw [returns_pure_iff]
      exact ⟨rfl, rfl⟩
    obtain ⟨apt, text, size, -⟩ := ending.filled 0x80 seek (stored_odrPutc (returns_odrPutc_room inside)) (place 0x80)
    have zeros : Returns (odrPutAll [0, 0]) ((put [0x80] (q.seek front.length)).seek (put [0x80] (q.seek front.length)).top)
        true (put [0, 0] ((put [0x80] (q.seek front.length)).seek (put [0x80] (q.seek front.length)).top)) := by
      apply returns_odrPutAll_room apt.seated
      rw [size fixed, apt.atEnd, ← apt.length_text, text]
      simp only [length_append, length_cons, length_nil]
      omega
    obtain ⟨o', popped⟩ := returns_stackPop
      (put [0, 0] ((put [0x80] (q.seek front.length)).seek (put [0x80] (q.seek front.length)).top))
    refine start 0 0x80 indefinite (by simp) ⟨o', ?_⟩
    rw [if_pos rfl]
    refine zeros.bind ?_
    rw [if_pos rfl]
    exact popped

theorem closedBody_length (body : List UInt8) :
    (closedBody body).length = body.length + if body.length ≤ 127 then 1 else 3 := by
  unfold closedBody
  split <;> simp

/-- Whether an `odr_write` comes last in a SEQUENCE: the one of its length octet, when nothing follows, or
the last one of its body, when no zeros end it. -/
def sequenceLast (body : List UInt8) (last : Bool) : Bool :=
  if body = [] then true else if body.length ≤ 127 then last else false

theorem Begun.top {p : Handle} {tag : Tag} (begun : Begun o p tag) (apt : o.Apt) :
    p.top = o.top + (identifier tag true).length + 1 := by
  rw [← begun.apt.length_text, ← apt.length_text, begun.text]
  simp only [length_append, length_singleton]

theorem Begun.ending {p : Handle} {tag : Tag} (begun : Begun o p tag) (added : Added p q body) :
    Ending q (o.text ++ identifier tag true) body o.stack where
  apt := added.apt
  tClass := added.tClass
  text := by rw [added.text, begun.text]
  stack := by
    obtain ⟨entry, stack, rest⟩ := begun.stack
    exact ⟨entry, added.stack.trans stack, rest⟩

theorem fits_sequence {members : α → Codec Bool} {value : α} {last : Bool} {good : Prop} (apt : o.Apt)
    (start : o.stack = [] → o.top = 0) (tagged : o.Tagged outer) (small : (outer.getD (0, 16)).2 < 2 ^ 28)
    (depth : o.stack.length < odrMaxStack) (some_ : last = true → body ≠ [])
    (hm : ∀ p, Begun o p (outer.getD (0, 16)) → Fits (members value) p body last good) :
    Fits (sequenceEncode members (some value) opt name) o (constructed (outer.getD (0, 16)) body)
      (sequenceLast body last) good := by
  have length : (constructed (outer.getD (0, 16)) body).length =
      (identifier (outer.getD (0, 16)) true).length + (closedBody body).length := length_append
  rw [closedBody_length] at length
  constructor
  · rintro o' ⟨h, noError⟩
    rw [sequenceEncode, returns_bind_iff] at h
    obtain ⟨begun, p, begins, h⟩ := h
    cases begun with
    | false =>
      have broken := failed_sequenceBegin apt begins
      rw [if_neg (by simp), returns_bind_iff] at h
      obtain ⟨missing, p', absent, h⟩ := h
      obtain ⟨same, rfl⟩ := h
      cases missing with
      | false => simp at same
      | true =>
        rw [returns_odrMissing_iff] at absent
        simp [absent.1] at broken
    | true =>
      obtain ⟨begun, room⟩ := begun_sequence apt start tagged begins
      rw [if_pos rfl, returns_bind_iff] at h
      obtain ⟨done, q, first, h⟩ := h
      cases done with
      | false => simp at h
      | true =>
        rw [if_pos rfl] at h
        have fine : q.error = none := by
          by_contra broken
          rw [odrConstructedEndEncode, returns_get_bind_iff, if_pos (Option.isSome_iff_ne_none.mpr broken)] at h
          simp at h
        obtain ⟨isGood, added, room'⟩ := (hm p begun).stores q ⟨first, fine⟩
        obtain ⟨apt', text, size, grows, tClass, stack, room''⟩ := (begun.ending added).closed h
        have canGrow := added.canGrow.trans begun.canGrow
        refine ⟨isGood, ⟨apt', fun fixed => ?_, grows.trans canGrow, stack, tClass, ?_⟩, fun fixed => ?_⟩
        · rw [size (canGrow.trans fixed), added.size (begun.canGrow.trans fixed), begun.size fixed]
        · rw [text, append_assoc]
          rfl
        · have enough := room fixed
          have enough' := room' (begun.canGrow.trans fixed)
          have enough'' := room'' (canGrow.trans fixed)
          rw [begun.top apt, begun.size fixed] at enough'
          rw [added.top begun.apt, begun.top apt, added.size (begun.canGrow.trans fixed), begun.size fixed] at enough''
          rw [length, sequenceLast]
          by_cases empty : body = []
          · rw [if_pos empty, if_pos (by simp [empty]), Bool.toNat_true, empty, length_nil]
            omega
          · rw [if_neg empty]
            split
            · omega
            · rw [Bool.toNat_false]
              omega
  · intro fixed isGood room
    rw [length, sequenceLast] at room
    have atMost : last.toNat ≤ 1 := by cases last <;> simp
    have enough : o.top + (identifier (outer.getD (0, 16)) true).length + 2 ≤ o.size ∧
        o.top + (identifier (outer.getD (0, 16)) true).length + 1 + body.length + last.toNat ≤ o.size ∧
        (127 < body.length → o.top + (identifier (outer.getD (0, 16)) true).length + 1 + body.length + 2 ≤ o.size) := by
      by_cases empty : body = []
      · have none_ : last = false := by
          by_contra more
          exact some_ (by simpa using more) empty
        rw [if_pos empty, if_pos (by simp [empty]), Bool.toNat_true, empty, length_nil] at room
        rw [none_, empty, length_nil, Bool.toNat_false]
        omega
      · have positive := length_pos_iff.mpr empty
        split at room
        · omega
        · rw [Bool.toNat_false] at room
          omega
    obtain ⟨p, begins⟩ := begins_sequence apt start tagged fixed small depth enough.1
    obtain ⟨begun, -⟩ := begun_sequence apt start tagged begins
    have fixed' := begun.canGrow.trans fixed
    obtain ⟨q, first⟩ := (hm p begun).succeeds fixed' isGood (by
      rw [begun.top apt, begun.size fixed]
      omega)
    obtain ⟨-, added, -⟩ := (hm p begun).stores q first
    have ending := begun.ending added
    obtain ⟨o', ends⟩ := ending.closes (added.canGrow.trans fixed') (by
      rw [added.top begun.apt, begun.top apt, added.size fixed', begun.size fixed]
      omega)
    refine ⟨o', ?_, (ending.closed ends).1.error⟩
    rw [sequenceEncode]
    refine begins.bind ?_
    rw [if_pos rfl]
    refine first.1.bind ?_
    rw [if_pos rfl]
    exact ends

theorem returns_berTag_null (zclass tag : Int) (constructed : Bool) (name : Option String) (o : Handle) :
    Returns (berTagEncode false zclass tag constructed true name) o 0 (tagReset o) := by
  rw [berTagEncode, returns_modify_bind_iff, returns_ite_iff, if_neg (by simp), requireUnless, if_pos rfl,
    returns_pure_bind_iff, returns_pure_iff]
  exact ⟨rfl, rfl⟩

theorem returns_sequenceBegin_null_iff (apt : o.Apt) {r : Bool} :
    Returns (odrSequenceBeginEncode false name) o r o' ↔ r = false ∧ tagReset (defaultTag 0 16 o) = o' := by
  rw [returns_sequenceBegin_eq apt]
  have null := returns_berTag_null (defaultTag 0 16 o).tClass (defaultTag 0 16 o).tTag true name (defaultTag 0 16 o)
  constructor
  · rintro ⟨res, q, ident, h⟩
    obtain ⟨rfl, rfl⟩ := null.unique ident
    rw [if_pos (Int.le_refl _), returns_pure_iff] at h
    exact ⟨h.1.symm, h.2⟩
  · rintro ⟨rfl, rfl⟩
    refine ⟨0, _, null, ?_⟩
    rw [if_pos (Int.le_refl _), returns_pure_iff]
    exact ⟨rfl, rfl⟩

theorem fits_noSequence {members : α → Codec Bool} (apt : o.Apt)
    (start : o.stack = [] → o.top = 0) : Fits (sequenceEncode members none opt name) o [] false (opt = true) := by
  have reset := added_tagReset apt start 0 16
  have noError := reset.apt.error
  refine fits_nothing apt reset fun o' => ?_
  rw [Succeeds, sequenceEncode, returns_bind_iff]
  constructor
  · rintro ⟨⟨begun, p, begins, h⟩, -⟩
    obtain ⟨rfl, rfl⟩ := (returns_sequenceBegin_null_iff apt).mp begins
    rw [if_neg (by simp), returns_bind_iff] at h
    obtain ⟨missing, q, absent, h⟩ := h
    obtain ⟨same, rfl⟩ := h
    cases missing with
    | false => simp at same
    | true =>
      obtain ⟨-, optional, rfl⟩ := (returns_odrMissing_iff _ _ _ _).mp absent
      exact ⟨optional, rfl⟩
  · rintro ⟨rfl, rfl⟩
    refine ⟨⟨false, _, (returns_sequenceBegin_null_iff apt).mpr ⟨rfl, rfl⟩, ?_⟩, noError⟩
    rw [if_neg (by simp)]
    refine Returns.bind ((returns_odrMissing_iff _ _ _ _).mpr ⟨noError, rfl, rfl⟩) ?_
    rw [returns_get_bind_iff, returns_pure_iff, noError]
    exact ⟨rfl, rfl⟩

end Yaz.Odr
