import Yaz.Odr.Writing

/-! Encoding writes the octets of the value, or sets an error. -/

set_option autoImplicit false

namespace Yaz.Odr
open Yaz.Foundation Run

variable {o o' : Handle} {octets : List UInt8}

structure Handle.Writable (o : Handle) (tag : Option Tag) : Prop where
  steady : o.Steady
  start : o.stack = [] → o.top = 0
  error : o.error = none
  lenlen : o.lenlen = 1
  tagged : o.Tagged tag

theorem wrote_defaultTag {zclass tag : Int} (h : Wrote (defaultTag zclass tag o).untagged o' octets) :
    Wrote o.untagged o' octets := by
  unfold defaultTag at h
  split at h
  · exact ⟨⟨h.steady, h.stack, h.error, h.lenlen, h.tClass⟩, h.text⟩
  · exact h

theorem steady_defaultTag (steady : o.Steady) (zclass tag : Int) : (defaultTag zclass tag o).Steady := by
  unfold defaultTag
  split
  · exact ⟨steady.atEnd, steady.inside, steady.grows⟩
  · exact steady

theorem start_defaultTag (start : o.stack = [] → o.top = 0) (zclass tag : Int) :
    (defaultTag zclass tag o).stack = [] → (defaultTag zclass tag o).top = 0 := by
  unfold defaultTag
  split <;> exact start

/-- What an encoder that returns 1 has written for a pointer: nothing for an optional null, and the
octets of a value that is `good`. -/
structure Encoded {α : Type} (p : Option α) (opt : Bool) (octets : α → List UInt8) (good : α → Prop)
    (o o' : Handle) : Prop where
  wrote : Wrote o.untagged o' (p.elim [] octets)
  required : p = none → opt = true
  good : ∀ value, p = some value → good value

/-- An encoder writes what `Encoded` says, or sets an error. -/
def Encodes {α : Type} (run : Codec Bool) (p : Option α) (opt : Bool) (octets : α → List UInt8) (good : α → Prop)
    (o : Handle) : Prop :=
  ∀ (r : Bool) (o' : Handle), Returns run o r o' → if r then Encoded p opt octets good o o' else o'.error.isSome

def EncodesValue (run : Codec Bool) (octets : List UInt8) (good : Prop) (o : Handle) : Prop :=
  ∀ (r : Bool) (o' : Handle), Returns run o r o' →
    if r then Wrote o.untagged o' octets ∧ good else o'.error.isSome

variable {α : Type} {good : α → Prop}

theorem Encoded.of_value {value : α} {opt : Bool} {octets : α → List UInt8}
    (h : Wrote o.untagged o' (octets value) ∧ good value) : Encoded (some value) opt octets good o o' where
  wrote := h.1
  required := by simp
  good := by
    rintro _ same
    obtain rfl := Option.some.inj same
    exact h.2

variable {name : Option String}

theorem encodes_missing {p q : Handle} {opt r : Bool} {octets : α → List UInt8}
    (absent : p.error.isSome ∨ Wrote o.untagged p []) (h : Returns (odrMissing opt name) p r q) :
    if r then Encoded none opt octets good o q else q.error.isSome := by
  cases r with
  | false => simpa using error_of_odrMissing h
  | true =>
    rw [returns_odrMissing_iff] at h
    obtain ⟨noError, rfl, rfl⟩ := h
    obtain broken | wrote := absent
    · simp [noError] at broken
    · exact ⟨wrote, fun _ => rfl, by simp⟩

variable {tag : Option Tag}

theorem encodes_element {number : Nat} {p : Option α} {opt : Bool} {contents : α → Codec Bool} {octets : α → List UInt8}
    (writable : o.Writable tag)
    (hc : ∀ value, p = some value → Contents (contents value) (octets value)) :
    Encodes (odrElementEncode number p opt name contents) p opt
      (fun value => primitive (tag.getD (0, number)) (octets value)) (fun _ => True) o := by
  intro r o' h
  unfold odrElementEncode at h
  rw [returns_get_bind_iff, writable.error, returns_ite_iff, if_neg (by simp), returns_modify_bind_iff,
    returns_get_bind_iff, returns_bind_iff] at h
  obtain ⟨res, middle, ident, h⟩ := h
  obtain ⟨isClass, isTag⟩ := defaultTag_tagged writable.tagged 0 number
  have written := wrote_berTag (steady_defaultTag writable.steady _ _) (start_defaultTag writable.start _ _) ident
  cases p with
  | some value =>
    obtain ⟨rfl, wrote⟩ := written
    rw [Nat.cast_zero] at isClass isTag
    rw [isClass, isTag] at wrote
    have contained := hc value rfl middle o' r wrote.steady h
    cases r with
    | false => simpa using contained
    | true => exact .of_value ⟨(wrote_defaultTag wrote).trans contained, trivial⟩
  | none =>
    obtain ⟨rfl, wrote⟩ := written
    refine encodes_missing ?_ h
    cases opt with
    | true => exact .inr (wrote_defaultTag wrote)
    | false => exact .inl (by simpa using wrote)

/-- A constructed element has been begun: its identifier and one octet for its length are written. -/
structure Opened (o o' : Handle) (tag : Tag) : Prop where
  steady : o'.Steady
  error : o'.error = o.error
  lenlen : o'.lenlen = 1
  tClass : o'.tClass = -1
  text : o'.text = o.text ++ identifier tag true ++ [0]
  stack : ∃ entry, o'.stack = entry :: o.stack ∧ entry.lenOffset = (o.text ++ identifier tag true).length ∧
    entry.baseOffset = entry.lenOffset + 1 ∧ entry.lenlen = 1

theorem opened_constructedBegin {present r : Bool} {zclass number : Nat}
    (writable : o.Writable tag) (h : Returns (odrConstructedBeginEncode present zclass number name) o r o') :
    if r then present = true ∧ Opened o o' (tag.getD (zclass, number))
    else o'.error.isSome ∨ (present = false ∧ Wrote o.untagged o' []) := by
  have same : { o with lenlen := 1 } = o := by
    have := writable.lenlen
    cases o
    subst this
    rfl
  rw [odrConstructedBeginEncode, returns_get_bind_iff] at h
  rw [writable.error, returns_ite_iff, if_neg (by simp), returns_modify_bind_iff, same, returns_get_bind_iff,
    returns_bind_iff] at h
  obtain ⟨res, o₁, ident, h⟩ := h
  obtain ⟨isClass, isTag⟩ := defaultTag_tagged writable.tagged zclass number
  have written := wrote_berTag (steady_defaultTag writable.steady _ _) (start_defaultTag writable.start _ _) ident
  cases present with
  | false =>
    rw [written.1, returns_ite_iff, if_pos (by decide), returns_pure_iff] at h
    obtain ⟨rfl, rfl⟩ := h
    exact .inr ⟨rfl, wrote_defaultTag written.2⟩
  | true =>
    rw [if_pos rfl, isClass, isTag] at written
    obtain ⟨rfl, wrote⟩ := written
    replace wrote := wrote_defaultTag wrote
    rw [returns_ite_iff, if_neg (by decide), returns_bind_iff] at h
    obtain ⟨pushed, o₂, push, h⟩ := h
    rw [stackPush, returns_get_bind_iff, returns_ite_iff] at push
    split at push
    · -- the stack is full
      rw [returns_odrSeterror_bind_iff, returns_pure_iff] at push
      obtain ⟨rfl, rfl⟩ := push
      rw [returns_ite_iff, if_neg (by simp), returns_pure_iff] at h
      obtain ⟨rfl, rfl⟩ := h
      exact .inl rfl
    · rw [returns_modify_bind_iff, returns_pure_iff] at push
      obtain ⟨rfl, rfl⟩ := push
      rw [returns_ite_iff, if_pos rfl, returns_modify_bind_iff, returns_bind_iff] at h
      obtain ⟨done, o₃, write, h⟩ := h
      rw [writable.lenlen] at write
      generalize pushedIs : setTop _ _ = p at write
      have steady : p.Steady := by
        rw [← pushedIs]
        exact ⟨wrote.steady.atEnd, wrote.steady.inside, wrote.steady.grows⟩
      cases done with
      | false =>
        have failed := odrWrite_returns steady.grows write
        rw [if_neg (by simp), returns_stackPop_bind_iff, returns_pure_iff] at h
        obtain ⟨rfl, rfl⟩ := h
        exact .inl failed
      | true =>
        have place := wrote_odrWrite steady write
        rw [if_pos rfl, returns_modify_bind_iff, returns_pure_iff] at h
        obtain ⟨rfl, rfl⟩ := h
        have position : o₁.pos = (o.text ++ identifier (tag.getD (zclass, number)) true).length := by
          rw [wrote.steady.atEnd, ← wrote.steady.length_text, wrote.text]
          rfl
        have text : o₃.text = o.text ++ identifier (tag.getD (zclass, number)) true ++ [0] := by
          rw [place.text, ← pushedIs]
          exact congrArg (· ++ [0]) wrote.text
        have stack := place.stack
        rw [← pushedIs] at stack
        have after : o₃.pos = o₁.pos + 1 := by
          rw [place.steady.atEnd, ← place.steady.length_text, text, position]
          simp only [List.length_append, List.length_singleton]
        let entry : ConStack :=
          { base := o₃.bp, baseOffset := o₃.pos, len := 0, lenOffset := o₁.pos, lenlen := 1 }
        refine ⟨rfl, ⟨?_, ?_, ?_, ?_, text, entry, ?_, position, after, rfl⟩⟩
        · exact ⟨place.steady.atEnd, place.steady.inside, place.steady.grows⟩
        · exact place.error.trans (by rw [← pushedIs]; exact wrote.error)
        · exact place.lenlen.trans (by rw [← pushedIs]; exact wrote.lenlen.trans writable.lenlen)
        · exact place.tClass.trans (by rw [← pushedIs]; exact wrote.tClass)
        · simp only [setTop, stack, wrote.stack]
          rfl

/-- The length of a constructed element is put into its place, or its end is marked. -/
theorem closed_constructedEnd {front body : List UInt8} {entry : ConStack} {rest : List ConStack}
    (steady : o.Steady) (noError : o.error = none) (text : o.text = front ++ [0] ++ body)
    (stack : o.stack = entry :: rest) (lenOffset : entry.lenOffset = front.length)
    (baseOffset : entry.baseOffset = entry.lenOffset + 1) (lenlen : entry.lenlen = 1) {r : Bool}
    (h : Returns odrConstructedEndEncode o r o') :
    r = true ∧ Framed { o with stack := rest } o' ∧ o'.text = front ++
      if body.length ≤ 127 then UInt8.ofNat body.length :: body else 0x80 :: (body ++ [0, 0]) := by
  rw [odrConstructedEndEncode, returns_get_bind_iff, noError, returns_ite_iff, if_neg (by simp), stack] at h
  rw [returns_bind_iff] at h
  obtain ⟨back, o₁, seek, h⟩ := h
  have grows : o₁.canGrow = true := by
    obtain ⟨-, size, rfl⟩ := odrSeek_returns steady.grows seek
    exact steady.grows
  have count : o.pos - entry.baseOffset = body.length := by
    rw [steady.atEnd, ← steady.length_text, text, baseOffset, lenOffset]
    simp only [List.length_append, List.length_singleton]
    omega
  rw [returns_bind_iff, lenlen, count] at h
  obtain ⟨res, o₂, length, h⟩ := h
  have written := berEnclen_one grows length
  rw [lenOffset] at seek
  by_cases short : body.length ≤ 127
  · rw [if_pos short] at written ⊢
    obtain ⟨rfl, resized⟩ := written
    rw [returns_ite_iff, if_neg (by decide), returns_bind_iff] at h
    obtain ⟨ended, o₃, seekEnd, h⟩ := h
    obtain ⟨framed, result⟩ := patched steady text seek resized seekEnd
    rw [returns_ite_iff, if_neg (by decide), returns_stackPop_bind_iff, returns_pure_iff] at h
    obtain ⟨rfl, rfl⟩ := h
    refine ⟨rfl, ⟨⟨framed.steady.atEnd, framed.steady.inside, framed.steady.grows⟩, ?_, framed.error, framed.lenlen,
      framed.tClass⟩, ?_⟩
    · simp [framed.stack, stack]
    · refine Eq.trans result ?_
      simp
  · rw [if_neg short] at written ⊢
    obtain ⟨rfl, resized⟩ := written
    rw [returns_ite_iff, if_neg (by decide), returns_bind_iff] at h
    obtain ⟨ended, o₃, seekEnd, h⟩ := h
    obtain ⟨framed, result⟩ := patched steady text seek resized seekEnd
    rw [returns_ite_iff, if_pos rfl, returns_bind_iff] at h
    obtain ⟨done, o₄, zeros, h⟩ := h
    obtain ⟨rfl, wrote⟩ := wrote_odrPutAll framed.steady zeros
    rw [if_pos rfl, returns_stackPop_bind_iff, returns_pure_iff] at h
    obtain ⟨rfl, rfl⟩ := h
    have both := framed.trans wrote.toFramed
    refine ⟨rfl, ⟨⟨both.steady.atEnd, both.steady.inside, both.steady.grows⟩, ?_, both.error, both.lenlen,
      both.tClass⟩, ?_⟩
    · simp [both.stack, stack]
    · refine Eq.trans wrote.text ?_
      rw [result]
      simp

theorem opened_defaultTag {zclass number : Int} {tag : Tag} (h : Opened (defaultTag zclass number o) o' tag) :
    Opened o o' tag := by
  unfold defaultTag at h
  split at h
  · exact ⟨h.steady, h.error, h.lenlen, h.tClass, h.text, h.stack⟩
  · exact h

theorem writable_defaultTag (writable : o.Writable tag) (zclass number : Nat) :
    (defaultTag zclass number o).Writable (some (tag.getD (zclass, number))) := by
  refine ⟨steady_defaultTag writable.steady _ _, start_defaultTag writable.start _ _, ?_, ?_,
    defaultTag_tagged writable.tagged zclass number⟩
  · unfold defaultTag
    split <;> exact writable.error
  · unfold defaultTag
    split <;> exact writable.lenlen

theorem opened_sequenceBegin {present r : Bool}
    (writable : o.Writable tag) (h : Returns (odrSequenceBeginEncode present name) o r o') :
    if r then present = true ∧ Opened o o' (tag.getD (0, 16))
    else o'.error.isSome ∨ (present = false ∧ Wrote o.untagged o' []) := by
  rw [odrSequenceBeginEncode, returns_get_bind_iff, writable.error, returns_ite_iff, if_neg (by simp),
    returns_modify_bind_iff, returns_get_bind_iff] at h
  have tagged := writable_defaultTag writable 0 16
  obtain ⟨isClass, isTag⟩ := tagged.tagged
  rw [Nat.cast_zero, show ((16 : Nat) : Int) = 16 from rfl] at isClass isTag tagged
  rw [isClass, isTag] at h
  have opened := opened_constructedBegin tagged h
  cases r with
  | true => exact ⟨opened.1, opened_defaultTag opened.2⟩
  | false => exact opened.imp_right fun absent => ⟨absent.1, wrote_defaultTag absent.2⟩

theorem Opened.writable {tag : Tag} (opened : Opened o o' tag) (noError : o.error = none) :
    o'.Writable none where
  steady := opened.steady
  start := by
    obtain ⟨entry, stack, -⟩ := opened.stack
    simp [stack]
  error := opened.error.trans noError
  lenlen := opened.lenlen
  tagged := opened.tClass

theorem wrote_constructed {p : Handle} {tag : Tag} {body : List UInt8} (opened : Opened o p tag)
    (noError : o.error = none) (lenlen : o.lenlen = 1) {q : Handle} (wrote : Wrote p.untagged q body) {r : Bool}
    (h : Returns odrConstructedEndEncode q r o') : r = true ∧ Wrote o.untagged o' (constructed tag body) := by
  obtain ⟨entry, stack, lenOffset, baseOffset, one⟩ := opened.stack
  have text : q.text = (o.text ++ identifier tag true) ++ [0] ++ body := by
    rw [wrote.text]
    exact congrArg (· ++ body) opened.text
  have error : q.error = none := wrote.error.trans (opened.error.trans noError)
  obtain ⟨rfl, framed, result⟩ := closed_constructedEnd wrote.steady error text (wrote.stack.trans stack) lenOffset
    baseOffset one h
  refine ⟨rfl, ⟨framed.steady, framed.stack, framed.error.trans (error.trans noError.symm), ?_, ?_⟩, ?_⟩
  · exact (framed.lenlen.trans wrote.lenlen).trans (opened.lenlen.trans lenlen.symm)
  · exact framed.tClass.trans wrote.tClass
  · rw [result, constructed, ← List.append_assoc]
    rfl

/-! ### Typed values -/

theorem Wrote.of_untagged (h : Wrote o.untagged o' octets) (empty : o.tClass = -1) : Wrote o o' octets :=
  ⟨⟨h.steady, h.stack, h.error, h.lenlen, h.tClass.trans empty.symm⟩, h.text⟩

theorem Wrote.writable (h : Wrote o.untagged o' octets) (writable : o.Writable tag)
    (inside : o.stack ≠ []) : o'.Writable none where
  steady := h.steady
  start := fun outermost => absurd (h.stack.symm.trans outermost) inside
  error := h.error.trans writable.error
  lenlen := h.lenlen.trans writable.lenlen
  tagged := h.tClass

theorem encodes_enclosed {p : Handle} {tag : Tag} {body : List UInt8} {good : Prop} {run : Codec Bool}
    (opened : Opened o p tag) (noError : o.error = none) (lenlen : o.lenlen = 1)
    (hb : EncodesValue run body good p) {r : Bool}
    (h : Returns (do if ← run then odrConstructedEndEncode else pure false) p r o') :
    if r then Wrote o.untagged o' (constructed tag body) ∧ good else o'.error.isSome := by
  rw [returns_bind_iff] at h
  obtain ⟨done, q, first, h⟩ := h
  have written := hb done q first
  cases done with
  | false =>
    rw [if_neg (by simp), returns_pure_iff] at h
    obtain ⟨rfl, rfl⟩ := h
    exact written
  | true =>
    obtain ⟨rfl, wrote⟩ := wrote_constructed opened noError lenlen written.1 h
    exact ⟨wrote, written.2⟩

theorem Opened.inside {tag : Tag} (opened : Opened o o' tag) : o'.stack ≠ [] := by
  obtain ⟨entry, stack, -⟩ := opened.stack
  simp [stack]

theorem encodes_sequence {p : Option α} {opt : Bool}
    {members : α → Codec Bool} {body : α → List UInt8} (writable : o.Writable tag)
    (hm : ∀ value, p = some value → ∀ q : Handle, q.Writable none → q.stack ≠ [] →
      EncodesValue (members value) (body value) (good value) q) :
    Encodes (sequenceEncode members p opt name) p opt
      (fun value => constructed (tag.getD (0, 16)) (body value)) good o := by
  intro r o' h
  unfold sequenceEncode at h
  rw [returns_bind_iff] at h
  obtain ⟨begun, middle, begins, h⟩ := h
  have opened := opened_sequenceBegin writable begins
  cases begun with
  | true =>
    rw [if_pos rfl] at opened h
    cases p with
    | none => simp at opened
    | some value =>
      have written := encodes_enclosed opened.2 writable.error writable.lenlen
        (hm value rfl middle (opened.2.writable writable.error) opened.2.inside) h
      cases r with
      | false => exact written
      | true => exact .of_value written
  | false =>
    rw [if_neg (by simp)] at opened h
    rw [returns_bind_iff] at h
    obtain ⟨missing, q, absent, h⟩ := h
    rw [returns_get_bind_iff, returns_pure_iff] at h
    obtain ⟨same, rfl⟩ := h
    cases missing with
    | false =>
      obtain rfl : r = false := by simpa using same.symm
      simpa using error_of_odrMissing absent
    | true =>
      obtain ⟨noError, rfl, rfl⟩ := (returns_odrMissing_iff _ _ _ _).mp absent
      obtain rfl : r = true := by simpa [noError] using same.symm
      obtain broken | ⟨null, wrote⟩ := opened
      · simp [noError] at broken
      · cases p with
        | some => simp at null
        | none => exact ⟨wrote, fun _ => rfl, by simp⟩

theorem encodes_explicit {zclass number : Nat} {p : Option α} {opt : Bool} {type : Option α → Codec Bool} {body : α → List UInt8}
    (writable : o.Writable tag)
    (ht : ∀ value, p = some value → ∀ q : Handle, q.Writable none →
      EncodesValue (type (some value)) (body value) (good value) q) :
    Encodes (odrExplicitTagEncode zclass number type p opt name) p opt
      (fun value => constructed (tag.getD (zclass, number)) (body value)) good o := by
  intro r o' h
  unfold odrExplicitTagEncode at h
  rw [returns_bind_iff] at h
  obtain ⟨begun, middle, begins, h⟩ := h
  have opened := opened_constructedBegin writable begins
  cases begun with
  | true =>
    rw [if_pos rfl] at opened h
    cases p with
    | none => simp at opened
    | some value =>
      have written := encodes_enclosed opened.2 writable.error writable.lenlen
        (ht value rfl middle (opened.2.writable writable.error)) h
      cases r with
      | false => exact written
      | true => exact .of_value written
  | false =>
    rw [if_neg (by simp)] at opened h
    cases p with
    | some =>
      obtain broken | ⟨null, -⟩ := opened
      · cases r with
        | false => simpa using error_of_odrMissing h
        | true =>
          rw [returns_odrMissing_iff] at h
          simp [h.1] at broken
      · simp at null
    | none => exact encodes_missing (opened.imp_right And.right) h

theorem encodes_member {p : Option α} {opt : Bool}
    {body : α → Codec Bool} {octets : α → List UInt8} (writable : o.Writable tag)
    (hb : ∀ value, p = some value → EncodesValue (body value) (octets value) (good value) o) :
    Encodes (memberEncode body p opt name) p opt octets good o := by
  intro r o' h
  unfold memberEncode at h
  rw [returns_bind_iff] at h
  obtain ⟨ready, middle, init, h⟩ := h
  rw [odrInitmemberEncode, returns_get_bind_iff, writable.error, returns_ite_iff, if_neg (by simp),
    returns_ite_iff] at init
  cases p with
  | some value =>
    rw [if_pos (by simp), returns_pure_iff] at init
    obtain ⟨rfl, rfl⟩ := init
    rw [if_pos rfl] at h
    rw [returns_bind_iff] at h
    obtain ⟨done, q, first, h⟩ := h
    have written := hb value rfl done q first
    cases done with
    | true =>
      rw [if_pos rfl] at written h
      rw [returns_pure_iff] at h
      obtain ⟨rfl, rfl⟩ := h
      exact .of_value written
    | false =>
      rw [if_neg (by simp)] at written h
      cases r with
      | false => simpa using error_of_odrMissing h
      | true =>
        rw [returns_odrMissing_iff] at h
        simp [h.1] at written
  | none =>
    rw [if_neg (by simp), returns_modify_bind_iff, returns_pure_iff] at init
    obtain ⟨rfl, rfl⟩ := init
    have steady : o.untagged.Steady :=
      ⟨writable.steady.atEnd, writable.steady.inside, writable.steady.grows⟩
    exact encodes_missing (.inr (.refl steady)) h

def Ty.Encodable (type : Ty) : Prop :=
  ∀ (tag : Option Tag) (p : Option type.Val) (opt : Bool) (name : Option String) (o : Handle), o.Writable tag →
    (tag.isSome → type.taggable) → (∀ value, p = some value → type.Legal value) →
      Encodes (type.encode p opt name) p opt (type.octets tag) type.Complete o

theorem Ty.Encodable.value {type : Ty} (encodable : type.Encodable) {value : type.Val}
    (opt : Bool) (name : Option String) (writable : o.Writable tag) (taggable : tag.isSome → type.taggable)
    (legal : type.Legal value) :
    EncodesValue (type.encode (some value) opt name) (type.octets tag value) (type.Complete value) o := by
  intro r o' h
  have legal' : ∀ other, some value = some other → type.Legal other := by
    rintro _ same
    obtain rfl := Option.some.inj same
    exact legal
  have encoded := encodable tag (some value) opt name o writable taggable legal' r o' h
  cases r with
  | false => exact encoded
  | true => exact ⟨encoded.wrote, encoded.good value rfl⟩

theorem Ty.encodable_of_encodes {type : Ty} (complete : ∀ value, type.Complete value)
    (h : ∀ (tag : Option Tag) (p : Option type.Val) (opt : Bool) (name : Option String) (o : Handle),
      o.Writable tag → (∀ value, p = some value → type.Legal value) →
      Encodes (type.encode p opt name) p opt (type.octets tag) (fun _ => True) o) : type.Encodable := by
  intro tag p opt name o writable _ legal r o' returned
  have encoded := h tag p opt name o writable legal r o' returned
  cases r with
  | false => exact encoded
  | true => exact ⟨encoded.wrote, encoded.required, fun value _ => complete value⟩

theorem wrote_nothing (writable : o.Writable none) : Wrote o.untagged o [] := by
  have steady : o.untagged.Steady :=
    ⟨writable.steady.atEnd, writable.steady.inside, writable.steady.grows⟩
  exact ⟨⟨writable.steady, rfl, rfl, rfl, writable.tagged⟩, (Wrote.refl steady).text⟩

theorem encodes_elements {type : Ty} (encodable : type.Encodable) {elements : List (Option type.Val)}
    (legal : eachPresent type.Legal elements) (writable : o.Writable none) (inside : o.stack ≠ []) :
    EncodesValue (encodeElements (fun p => type.encode p false none) elements)
      (elements.flatMap fun p => Option.elim p [] (type.octets none)) (allPresent type.Complete elements) o := by
  intro r o' h
  induction elements generalizing o with
  | nil =>
    rw [encodeElements, returns_pure_iff] at h
    obtain ⟨rfl, rfl⟩ := h
    exact ⟨wrote_nothing writable, by simp [allPresent]⟩
  | cons p rest ih =>
    rw [encodeElements, returns_bind_iff] at h
    obtain ⟨done, q, first, h⟩ := h
    have encoded := encodable none p false none o writable (by simp)
      (fun value same => legal value (by simp [same])) done q first
    cases done with
    | false =>
      rw [if_neg (by simp), returns_pure_iff] at h
      obtain ⟨rfl, rfl⟩ := h
      exact encoded
    | true =>
      rw [if_pos rfl] at encoded h
      obtain ⟨wrote, required, complete⟩ := encoded
      have legal' : eachPresent type.Legal rest := fun value inside => legal value (List.mem_cons_of_mem _ inside)
      have inside' : q.stack ≠ [] := by rw [wrote.stack]; exact inside
      have later := ih legal' (wrote.writable writable inside) inside' h
      cases r with
      | false => exact later
      | true =>
        refine ⟨wrote.trans (later.1.of_untagged wrote.tClass), ?_⟩
        intro other member
        rw [List.mem_cons] at member
        obtain rfl | member := member
        · cases other with
          | none => simp at required
          | some value => exact ⟨value, rfl, complete value rfl⟩
        · exact later.2 other member

theorem encodes_sequenceOf {type : Ty} (encodable : type.Encodable) (name : Option String)
    {elements : List (Option type.Val)} (legal : eachPresent type.Legal elements) (writable : o.Writable tag) :
    EncodesValue (odrSequenceOfEncode (fun p => type.encode p false none) name elements)
      (constructed (tag.getD (0, 16)) (elements.flatMap fun p => Option.elim p [] (type.octets none)))
      (allPresent type.Complete elements) o := by
  intro r o' h
  rw [odrSequenceOfEncode, returns_bind_iff] at h
  obtain ⟨begun, p, begins, h⟩ := h
  have opened := opened_sequenceBegin writable begins
  cases begun with
  | false =>
    rw [if_neg (by simp)] at opened h
    rw [returns_pure_iff] at h
    obtain ⟨rfl, rfl⟩ := h
    simpa using opened
  | true =>
    rw [if_pos rfl] at opened h
    exact encodes_enclosed opened.2 writable.error writable.lenlen
      (encodes_elements encodable legal (opened.2.writable writable.error) opened.2.inside) h

mutual

theorem Ty.encodable : ∀ type : Ty, type.WellFormed → type.Encodable
  | .integer, _ | .enum, _ => Ty.encodable_of_encodes (fun _ => trivial) fun tag p opt name o writable _ => by
    simp only [Ty.encode, Ty.octets]
    exact encodes_element writable fun value _ => contents_integer value
  | .null, _ => Ty.encodable_of_encodes (fun _ => trivial) fun tag p opt name o writable _ => by
    simp only [Ty.encode, Ty.octets]
    exact encodes_element writable fun value _ => contents_null
  | .octetstring, _ => Ty.encodable_of_encodes (fun _ => trivial) fun tag p opt name o writable legal => by
    simp only [Ty.encode, Ty.octets]
    exact encodes_element writable fun value same => contents_octetstring (legal value same)
  | .oid, _ => Ty.encodable_of_encodes (fun _ => trivial) fun tag p opt name o writable _ => by
    simp only [Ty.encode, Ty.octets]
    exact encodes_element writable fun value _ => contents_oid value
  | .sequence members, wellFormed => by
    intro tag p opt name o writable _ legal
    simp only [Ty.encode, Ty.octets, Ty.Complete]
    refine encodes_sequence writable fun value same q writable' inside r q' h => ?_
    exact members.encodable value wellFormed (legal value same) writable' inside h
  | .sequenceOf type, wellFormed => by
    intro tag p opt name o writable _ legal
    simp only [Ty.encode, Ty.octets, Ty.Complete]
    refine encodes_member writable fun value same => ?_
    exact encodes_sequenceOf (type.encodable wellFormed) name (legal value same) writable
  | .choice arms, wellFormed => by
    intro tag p opt name o writable taggable legal
    obtain rfl : tag = none := by
      cases tag with
      | none => rfl
      | some => simp [Ty.taggable] at taggable
    simp only [Ty.encode, Ty.octets, Ty.Complete]
    refine encodes_member writable fun value same r q h => ?_
    unfold odrChoiceEncode at h
    rw [returns_get_bind_iff, writable.error, returns_ite_iff, if_neg (by simp),
      returns_modify_bind_iff] at h
    have writable' : Handle.Writable { o with choiceBias := -1 } none :=
      ⟨⟨writable.steady.atEnd, writable.steady.inside, writable.steady.grows⟩, writable.start, writable.error,
        writable.lenlen, writable.tagged⟩
    have written := arms.encodable value wellFormed (legal value same) writable' h
    cases r with
    | false => exact written
    | true =>
      obtain ⟨wrote, complete⟩ := written
      exact ⟨⟨⟨wrote.steady, wrote.stack, wrote.error, wrote.lenlen, wrote.tClass⟩, wrote.text⟩, complete⟩
  | .implicit zclass number type, wellFormed => by
    intro tag p opt name o writable _ legal r o' h
    have encoded := type.encodable wellFormed.2.2 _ p opt name _ (writable_defaultTag writable zclass number)
      (fun _ => wellFormed.2.1) legal r o' ((returns_implicitSettag_bind_iff writable.error _ _ _ _).mp h)
    cases r with
    | false => exact encoded
    | true =>
      rw [if_pos rfl] at encoded ⊢
      simp only [Ty.octets, Ty.Complete]
      exact ⟨wrote_defaultTag encoded.wrote, encoded.required, encoded.good⟩
  | .explicit zclass number type, wellFormed => by
    intro tag p opt name o writable _ legal
    simp only [Ty.encode, Ty.octets, Ty.Complete]
    refine encodes_explicit writable fun value same q writable' => ?_
    exact (type.encodable wellFormed.2).value opt name writable' (by simp) (legal value same)
  | .bool, wellFormed | .bitstring, wellFormed | .any, wellFormed => wellFormed.elim

theorem Members.encodable : ∀ (members : Members) (values : members.Val), members.WellFormed →
    members.Legal values → ∀ {o o' : Handle}, o.Writable none → o.stack ≠ [] → ∀ {r : Bool},
      Returns (members.encode values) o r o' →
        if r then Wrote o.untagged o' (members.octets values) ∧ members.Complete values else o'.error.isSome
  | .nil, _, _, _, o, o', writable, inside, r, h => by
    rw [Members.encode, returns_pure_iff] at h
    obtain ⟨rfl, rfl⟩ := h
    exact ⟨wrote_nothing writable, trivial⟩
  | .cons name opt type rest, values, wellFormed, legal, o, o', writable, inside, r, h => by
    rw [Members.encode, returns_bind_iff] at h
    obtain ⟨done, q, first, h⟩ := h
    have encoded := type.encodable wellFormed.1 none values.1 opt (some name) o writable (by simp) legal.1 done q first
    cases done with
    | false =>
      rw [if_neg (by simp), returns_pure_iff] at h
      obtain ⟨rfl, rfl⟩ := h
      exact encoded
    | true =>
      rw [if_pos rfl] at encoded h
      have inside' : q.stack ≠ [] := by rw [encoded.wrote.stack]; exact inside
      have later := rest.encodable values.2 wellFormed.2.1 legal.2 (encoded.wrote.writable writable inside) inside' h
      cases r with
      | false => exact later
      | true =>
        refine ⟨encoded.wrote.trans (later.1.of_untagged encoded.wrote.tClass), encoded.required, encoded.good, ?_⟩
        exact later.2

theorem Arms.encodable : ∀ (arms : Arms) (value : arms.Val), arms.WellFormed → arms.Legal value →
    ∀ {o o' : Handle}, o.Writable none → ∀ {r : Bool}, Returns (arms.encode value) o r o' →
      if r then Wrote o.untagged o' (arms.octets value) ∧ arms.Complete value else o'.error.isSome
  | .cons .none zclass number which name type rest, .inl value, wellFormed, legal, o, o', writable, r, h => by
    exact (type.encodable wellFormed.1).value true (some name) writable (by simp) legal r o' h
  | .cons .implicit zclass number which name type rest, .inl value, wellFormed, legal, o, o', writable, r, h => by
    have written := (type.encodable wellFormed.1).value false (some name)
      (writable_defaultTag writable zclass number) (fun _ => wellFormed.2.2.2.1 rfl) legal r o'
      ((returns_implicitSettag_bind_iff writable.error _ _ _ _).mp h)
    cases r with
    | false => exact written
    | true => exact ⟨wrote_defaultTag written.1, written.2⟩
  | .cons .explicit zclass number which name type rest, .inl value, wellFormed, legal, o, o', writable, r, h => by
    rw [Arms.encode, odrChoiceArm, returns_bind_iff] at h
    obtain ⟨begun, p, begins, h⟩ := h
    have opened := opened_constructedBegin writable begins
    cases begun with
    | false =>
      rw [if_neg (by simp)] at opened h
      rw [returns_pure_iff] at h
      obtain ⟨rfl, rfl⟩ := h
      simpa using opened
    | true =>
      rw [if_pos rfl] at opened h
      exact encodes_enclosed opened.2 writable.error writable.lenlen
        ((type.encodable wellFormed.1).value false (some name) (opened.2.writable writable.error) (by simp) legal) h
  | .cons tagmode zclass number which name type rest, .inr value, wellFormed, legal, o, o', writable, r, h => by
    rw [Arms.octets, Arms.Complete]
    exact rest.encodable value wellFormed.2.1 legal writable h

end

end Yaz.Odr
