import Yaz.Odr.Octets

/-! Encoding writes the octets of the value.

A handle that can grow never runs out of space, so the only failures left are those of
the value itself. Between two calls the position is at the end of what was written.
-/

set_option autoImplicit false

namespace Yaz.Odr
open List Yaz.Foundation Yaz.Ber Run

variable {o o' : Handle} {octets : List UInt8}

/-! ### The buffer -/

/-- What `odr_getbuf` returns. -/
def Handle.text (o : Handle) : List UInt8 := o.buf.take o.top

@[simps]
def Handle.resize (o : Handle) (size : Nat) : Handle := { o with size := size }

def Resized (o o' : Handle) : Prop := ∃ size, o' = o.resize size

theorem put_resize (octets : List UInt8) (size : Nat) : put octets (o.resize size) = (put octets o).resize size := rfl

@[simp] theorem Handle.resize_resize (size other : Nat) : (o.resize size).resize other = o.resize other := rfl

variable {r : Bool}

theorem odrGrowBlock_returns {n : Nat} (grows : o.canGrow = true)
    (h : Returns (odrGrowBlock n) o r o') : r = true ∧ Resized o o' := by
  rw [odrGrowBlock, returns_get_bind_iff, grows, returns_ite_iff, if_neg (by simp)] at h
  generalize max (if o.size = 0 then 1024 else o.size) n = togrow at h
  rw [returns_ite_iff] at h
  split at h
  · exact absurd h (not_returns_stop _ _ _ _)
  · rw [returns_modify_bind_iff, returns_pure_iff] at h
    obtain ⟨rfl, rfl⟩ := h
    exact ⟨rfl, _, rfl⟩

theorem growIf_returns {needed : Bool} {n : Nat} (grows : o.canGrow = true) (h : Returns (growIf needed n) o r o') :
    r = true ∧ Resized o o' := by
  rw [growIf, returns_ite_iff] at h
  split at h
  · exact odrGrowBlock_returns grows h
  · rw [returns_pure_iff] at h
    obtain ⟨rfl, rfl⟩ := h
    exact ⟨rfl, o.size, rfl⟩

theorem odrPutc_returns {c : UInt8} (grows : o.canGrow = true) (h : Returns (odrPutc c) o r o') :
    r = true ∧ Resized (put [c] o) o' := by
  rw [odrPutc, returns_get_bind_iff, returns_ite_iff] at h
  split at h
  · rw [returns_modify_bind_iff, returns_pure_iff] at h
    obtain ⟨rfl, rfl⟩ := h
    exact ⟨rfl, _, rfl⟩
  · rw [returns_bind_iff] at h
    obtain ⟨grown, middle, first, h⟩ := h
    obtain ⟨rfl, size, rfl⟩ := odrGrowBlock_returns grows first
    rw [if_pos rfl, returns_modify_bind_iff, returns_pure_iff] at h
    obtain ⟨rfl, rfl⟩ := h
    exact ⟨rfl, _, rfl⟩

theorem store_store {buf front back : List UInt8} {pos : Nat} (inside : pos ≤ buf.length) :
    store (store buf pos front) (pos + front.length) back = store buf pos (front ++ back) := by
  have before : (buf.take pos ++ front).length = pos + front.length := by
    rw [length_append, List.length_take, Nat.min_eq_left inside]
  have after : (buf.take pos ++ front ++ buf.drop (pos + front.length)).drop (pos + front.length + back.length) =
      buf.drop (pos + (front ++ back).length) := by
    rw [← before, drop_length_add_append, drop_drop, before, length_append, Nat.add_assoc]
  unfold store
  rw [after, ← before, take_left]
  simp only [append_assoc]

theorem put_put (inside : o.pos ≤ o.buf.length) (front back : List UInt8) :
    put back (put front o) = put (front ++ back) o := by
  simp only [put, store_store inside, length_append]
  congr 1
  · omega
  · omega

theorem put_nil (steady : o.pos ≤ o.top) : put [] o = o := by
  simp [put, store, steady]

theorem odrPutAll_returns (grows : o.canGrow = true) (inside : o.pos ≤ o.buf.length)
    (steady : o.pos ≤ o.top) (h : Returns (odrPutAll octets) o r o') : r = true ∧ Resized (put octets o) o' := by
  induction octets generalizing o with
  | nil =>
    rw [odrPutAll, returns_pure_iff] at h
    obtain ⟨rfl, rfl⟩ := h
    exact ⟨rfl, o.size, by rw [put_nil steady]; rfl⟩
  | cons c _ ih =>
    rw [odrPutAll, returns_bind_iff] at h
    obtain ⟨done, middle, first, h⟩ := h
    obtain ⟨rfl, size, rfl⟩ := odrPutc_returns grows first
    have further : (put [c] o).pos ≤ (put [c] o).buf.length := by
      simp only [put, store, length_append, List.length_take, length_drop]
      omega
    obtain ⟨rfl, final, rfl⟩ := ih (o := (put [c] o).resize size) grows further (by simp [put]) h
    refine ⟨rfl, final, ?_⟩
    rw [put_resize, put_put inside, Handle.resize_resize]
    rfl

theorem odrWrite_returns (grows : o.canGrow = true) (h : Returns (odrWrite octets) o r o') :
    if r then Resized (put octets o) o' else o'.error.isSome := by
  rw [odrWrite, returns_get_bind_iff, returns_ite_iff] at h
  split at h
  · rw [returns_odrSeterror_bind_iff, returns_pure_iff] at h
    obtain ⟨rfl, rfl⟩ := h
    rfl
  · rw [returns_bind_iff] at h
    obtain ⟨room, middle, first, h⟩ := h
    obtain ⟨rfl, size, rfl⟩ := growIf_returns grows first
    rw [if_pos rfl, returns_modify_bind_iff, returns_pure_iff] at h
    obtain ⟨rfl, rfl⟩ := h
    exact ⟨size, rfl⟩

@[simps]
def Handle.seek (o : Handle) (offset : Nat) : Handle := { o with pos := offset }

theorem odrSeek_returns {offset : Nat} (grows : o.canGrow = true)
    (h : Returns (odrSeek offset) o r o') : r = true ∧ Resized (o.seek offset) o' := by
  rw [odrSeek, returns_get_bind_iff, returns_bind_iff] at h
  obtain ⟨room, middle, first, h⟩ := h
  obtain ⟨rfl, size, rfl⟩ := growIf_returns grows first
  rw [if_pos rfl, returns_modify_bind_iff, returns_pure_iff] at h
  obtain ⟨rfl, rfl⟩ := h
  exact ⟨rfl, size, rfl⟩

/-! ### Appending -/

structure Handle.Steady (o : Handle) : Prop where
  atEnd : o.pos = o.top
  inside : o.top ≤ o.buf.length
  grows : o.canGrow = true

structure Framed (o o' : Handle) : Prop where
  steady : o'.Steady
  stack : o'.stack = o.stack
  error : o'.error = o.error
  lenlen : o'.lenlen = o.lenlen
  tClass : o'.tClass = o.tClass

theorem Framed.trans {p : Handle} (h : Framed o o') (k : Framed o' p) : Framed o p where
  steady := k.steady
  stack := k.stack.trans h.stack
  error := k.error.trans h.error
  lenlen := k.lenlen.trans h.lenlen
  tClass := k.tClass.trans h.tClass

structure Wrote (o o' : Handle) (octets : List UInt8) : Prop extends Framed o o' where
  text : o'.text = o.text ++ octets

theorem Handle.Steady.length_text (steady : o.Steady) : o.text.length = o.top := by
  rw [Handle.text, List.length_take, Nat.min_eq_left steady.inside]

theorem Wrote.trans {p : Handle} {more : List UInt8} (h : Wrote o o' octets) (k : Wrote o' p more) :
    Wrote o p (octets ++ more) where
  toFramed := h.toFramed.trans k.toFramed
  text := by rw [k.text, h.text, append_assoc]

theorem Wrote.refl (steady : o.Steady) : Wrote o o [] where
  text := by simp
  steady := steady
  stack := rfl
  error := rfl
  lenlen := rfl
  tClass := rfl

theorem text_put (steady : o.Steady) (octets : List UInt8) : (put octets o).text = o.text ++ octets := by
  have before : (o.buf.take o.pos ++ octets).length = o.top + octets.length := by
    rw [length_append, List.length_take, steady.atEnd, Nat.min_eq_left steady.inside]
  simp only [Handle.text, put, store]
  rw [steady.atEnd, Nat.max_eq_right (by omega), ← before, steady.atEnd, take_left]

theorem Wrote.put (steady : o.Steady) (octets : List UInt8) (size : Nat) :
    Wrote o ((put octets o).resize size) octets where
  text := text_put steady octets
  steady := by
    refine ⟨?_, ?_, steady.grows⟩
    · simp only [Handle.resize_pos, Handle.resize_top, Odr.put, steady.atEnd]
      omega
    · have := steady.atEnd
      have := steady.inside
      simp only [Handle.resize_top, Handle.resize_buf, Odr.put, store, length_append, List.length_take,
        length_drop]
      omega
  stack := rfl
  error := rfl
  lenlen := rfl
  tClass := rfl

theorem Wrote.of_resized (steady : o.Steady) (h : Resized (Odr.put octets o) o') : Wrote o o' octets := by
  obtain ⟨size, rfl⟩ := h
  exact .put steady octets size

theorem wrote_odrPutc {c : UInt8} (steady : o.Steady) (h : Returns (odrPutc c) o r o') :
    r = true ∧ Wrote o o' [c] :=
  (odrPutc_returns steady.grows h).imp_right (.of_resized steady)

theorem wrote_odrPutAll (steady : o.Steady) (h : Returns (odrPutAll octets) o r o') :
    r = true ∧ Wrote o o' octets := by
  have inside : o.pos ≤ o.buf.length := steady.atEnd ▸ steady.inside
  exact (odrPutAll_returns steady.grows inside (by rw [steady.atEnd]) h).imp_right (.of_resized steady)

theorem wrote_odrWrite (steady : o.Steady) (h : Returns (odrWrite octets) o true o') : Wrote o o' octets := by
  have resized := odrWrite_returns steady.grows h
  exact .of_resized steady resized

theorem framed_patch (steady : o.Steady) {front place back : List UInt8} (size : Nat)
    (text : o.text = front ++ place ++ back) (same : place.length = octets.length) :
    Framed o (((put octets (o.seek front.length)).resize size).seek o.top) ∧
      (((put octets (o.seek front.length)).resize size).seek o.top).text = front ++ octets ++ back := by
  have length := steady.length_text
  rw [text] at length
  simp only [length_append] at length
  have whole : o.buf = front ++ place ++ back ++ o.buf.drop o.top := by
    rw [← text, Handle.text, take_append_drop]
  have stored : store o.buf front.length octets = front ++ octets ++ back ++ o.buf.drop o.top := by
    have kept : o.buf.drop (front.length + octets.length) = back ++ o.buf.drop o.top := by
      conv_lhs => rw [whole]
      rw [append_assoc, ← same, ← length_append, drop_left]
    have start : o.buf.take front.length = front := by
      conv_lhs => rw [whole]
      rw [append_assoc, append_assoc, take_left]
    rw [store, kept, start]
    simp only [append_assoc]
  have top : max o.top (front.length + octets.length) = o.top := by omega
  refine ⟨⟨⟨?_, ?_, steady.grows⟩, rfl, rfl, rfl, rfl⟩, ?_⟩
  · simp only [Handle.seek_pos, Handle.seek_top, Handle.resize_top, put, top]
  · simp only [Handle.seek_top, Handle.resize_top, Handle.seek_buf, Handle.resize_buf, put, Handle.seek_pos, top,
      stored, length_append]
    omega
  · simp only [Handle.text, Handle.seek_top, Handle.resize_top, Handle.seek_buf, Handle.resize_buf, put,
      Handle.seek_pos, top, stored]
    apply take_left'
    simp only [length_append]
    omega

theorem patched {front back : List UInt8} {place c : UInt8} {back' end' : Bool} {o₁ o₂ o₃ : Handle}
    (steady : o.Steady) (text : o.text = front ++ [place] ++ back)
    (seek : Returns (odrSeek front.length) o back' o₁) (putc : Resized (put [c] o₁) o₂)
    (seekEnd : Returns odrSeekEnd o₂ end' o₃) : Framed o o₃ ∧ o₃.text = front ++ [c] ++ back := by
  obtain ⟨-, size₁, rfl⟩ := odrSeek_returns steady.grows seek
  obtain ⟨size₂, rfl⟩ := putc
  have grows : ((put [c] ((o.seek front.length).resize size₁)).resize size₂).canGrow = true := steady.grows
  obtain ⟨-, size₃, rfl⟩ := odrSeek_returns grows seekEnd
  have length := steady.length_text
  rw [text] at length
  simp only [length_append, length_singleton] at length
  have top : (put [c] ((o.seek front.length).resize size₁)).top = o.top := by
    simp only [put, Handle.resize_top, Handle.resize_pos, Handle.seek_top, Handle.seek_pos, length_singleton]
    omega
  rw [Handle.resize_top, top]
  obtain ⟨framed, result⟩ := framed_patch steady size₂ text (show [place].length = [c].length from rfl)
  exact ⟨⟨⟨framed.steady.atEnd, framed.steady.inside, framed.steady.grows⟩, framed.stack, framed.error,
    framed.lenlen, framed.tClass⟩, result⟩

theorem berEnclen_one {len : Nat} {res : Int} (grows : o.canGrow = true)
    (h : Returns (berEnclen len 1 true) o res o') :
    if len ≤ 127 then res = 1 ∧ Resized (put [UInt8.ofNat len] o) o'
    else res = 0 ∧ Resized (put [0x80] o) o' := by
  rw [berEnclen, returns_ite_iff] at h
  split at h
  next short =>
    rw [if_pos short.1]
    rw [returns_bind_iff] at h
    obtain ⟨done, middle, first, h⟩ := h
    obtain ⟨rfl, resized⟩ := odrPutc_returns grows first
    rw [if_pos rfl, returns_pure_iff] at h
    exact ⟨h.1.symm, h.2 ▸ resized⟩
  next long =>
    rw [if_neg (by simpa using long)]
    rw [if_pos rfl, returns_bind_iff] at h
    obtain ⟨done, middle, first, h⟩ := h
    obtain ⟨rfl, resized⟩ := odrPutc_returns grows first
    rw [returns_pure_iff] at h
    exact ⟨h.1.symm, h.2 ▸ resized⟩

/-- `ber_enclen` of primitive contents: the length in the short or in the long form. -/
theorem wrote_lengthOctets {len : Nat} {res : Int} (steady : o.Steady) (short : len < 2 ^ 24)
    (h : Returns (berEnclen len 5 false) o res o') : Wrote o o' (lengthOctets len) := by
  rw [berEnclen, returns_ite_iff] at h
  split at h
  next one =>
    rw [lengthOctets, if_pos one.1]
    rw [returns_bind_iff] at h
    obtain ⟨done, middle, first, h⟩ := h
    obtain ⟨rfl, wrote⟩ := wrote_odrPutc steady first
    exact h.2 ▸ wrote
  next more =>
    rw [lengthOctets, if_neg (by simpa using more)]
    obtain ⟨front, emits, -, nonempty, bound⟩ := base256_front (show len < 256 ^ 4 by omega) (by omega) []
    rw [append_nil] at emits
    have atMost := bound 2 (by omega)
    rw [if_neg (by omega)] at h
    rw [emits] at h ⊢
    rw [returns_ite_iff, if_neg (by omega), enclenLong, returns_get_bind_iff] at h
    dsimp only at h
    rw [if_neg (by simp), nil_append, returns_bind_iff] at h
    obtain ⟨done, middle, first, h⟩ := h
    obtain ⟨rfl, wrote⟩ := wrote_odrPutAll steady first
    have position : middle.pos = o.pos + (front.length + 1) := by
      rw [wrote.steady.atEnd, ← wrote.steady.length_text, wrote.text, length_append, steady.length_text,
        steady.atEnd, length_cons]
    rw [if_pos rfl, returns_get_bind_iff, returns_bind_iff] at h
    obtain ⟨back, o₁, seek, h⟩ := h
    rw [returns_bind_iff] at h
    obtain ⟨put, o₂, putc, h⟩ := h
    have grows : o₁.canGrow = true := by
      obtain ⟨-, size, rfl⟩ := odrSeek_returns wrote.steady.grows seek
      exact wrote.steady.grows
    obtain ⟨rfl, resized⟩ := odrPutc_returns grows putc
    rw [if_pos rfl, returns_bind_iff] at h
    obtain ⟨ended, o₃, seekEnd, h⟩ := h
    rw [returns_get_bind_iff, returns_pure_iff] at h
    obtain ⟨-, rfl⟩ := h
    have text : middle.text = o.text ++ [0] ++ front := by rw [wrote.text]; simp
    have start : o.pos = o.text.length := by rw [steady.length_text, steady.atEnd]
    rw [start] at seek
    obtain ⟨framed, result⟩ := patched wrote.steady text seek resized seekEnd
    refine ⟨wrote.toFramed.trans framed, ?_⟩
    have count : (middle.pos - o.pos - 1) % 128 + 128 = front.length + 128 := by omega
    rw [result, count]
    simp

@[simps]
def Handle.untagged (o : Handle) : Handle := { o with tClass := -1 }

theorem tagReset_eq (steady : o.Steady) (start : o.stack = [] → o.top = 0) :
    Framed o.untagged (tagReset o) ∧ (tagReset o).text = o.text := by
  unfold tagReset
  split
  next outermost =>
    have top := start (by simpa using outermost)
    refine ⟨⟨⟨rfl, Nat.zero_le _, steady.grows⟩, rfl, rfl, rfl, rfl⟩, ?_⟩
    simp [Handle.text, top]
  · exact ⟨⟨⟨steady.atEnd, steady.inside, steady.grows⟩, rfl, rfl, rfl, rfl⟩, rfl⟩

theorem wrote_berTag {present constructed opt : Bool} {zclass tag res : Int} {name : Option String}
    (steady : o.Steady) (start : o.stack = [] → o.top = 0)
    (h : Returns (berTagEncode present zclass tag constructed opt name) o res o') :
    if present then res = 1 ∧ Wrote o.untagged o' (enctagOctets zclass tag constructed)
    else res = 0 ∧ if opt then Wrote o.untagged o' [] else o'.error.isSome := by
  obtain ⟨framed, text⟩ := tagReset_eq steady start
  rw [berTagEncode, returns_modify_bind_iff, returns_ite_iff] at h
  split at h
  next given =>
    rw [if_pos given]
    rw [returns_bind_iff] at h
    obtain ⟨done, middle, first, h⟩ := h
    rw [berEnctag, returns_ite_iff] at first
    split at first
    · exact absurd first (not_returns_stop _ _ _ _)
    · obtain ⟨rfl, wrote⟩ := wrote_odrPutAll framed.steady first
      rw [if_pos rfl, returns_pure_iff] at h
      obtain ⟨rfl, rfl⟩ := h
      exact ⟨rfl, framed.trans wrote.toFramed, by rw [wrote.text, text]; rfl⟩
  next missing =>
    rw [if_neg missing]
    cases opt with
    | true =>
      rw [requireUnless, if_pos rfl, returns_pure_bind_iff, returns_pure_iff] at h
      obtain ⟨rfl, rfl⟩ := h
      exact ⟨rfl, framed, by rw [text]; simp [Handle.text]⟩
    | false =>
      rw [returns_bind_iff] at h
      obtain ⟨_, middle, failed, h⟩ := h
      rw [returns_pure_iff] at h
      obtain ⟨rfl, rfl⟩ := h
      exact ⟨rfl, error_of_requireUnless failed⟩

def Contents (run : Codec Bool) (contents : List UInt8) : Prop :=
  ∀ (o o' : Handle) (r : Bool), o.Steady → Returns run o r o' →
    if r then Wrote o o' (lengthOctets contents.length ++ contents) else o'.error.isSome

theorem wrote_last {p : Handle} {front : List UInt8} (before : Wrote o p front)
    (h : Returns (odrWrite octets) p r o') : if r then Wrote o o' (front ++ octets) else o'.error.isSome := by
  cases r with
  | true => exact before.trans (wrote_odrWrite before.steady h)
  | false => simpa using odrWrite_returns before.steady.grows h

theorem contents_integer (val : BitVec 64) : Contents (berIntegerEncode val) (dropSign (integerOctets val)) := by
  intro o o' r steady h
  have nonempty : integerOctets val ≠ [] := by
    rw [← length_pos_iff, integerOctets_length]
    omega
  have short := (dropSign_spec nonempty).2.2
  rw [integerOctets_length] at short
  rw [berIntegerEncode, returns_bind_iff] at h
  obtain ⟨res, middle, length, h⟩ := h
  have written := berEnclen_one steady.grows length
  rw [if_pos (by omega)] at written
  obtain ⟨rfl, resized⟩ := written
  rw [lengthOctets_short (by omega)]
  exact wrote_last (.of_resized steady resized) h

theorem contents_null : Contents berNullEncode [] := by
  intro o o' r steady h
  obtain ⟨rfl, wrote⟩ := wrote_odrPutc steady h
  exact wrote

theorem contents_octetstring (short : octets.length < 2 ^ 24) :
    Contents (do if ← berOctetstringEncode octets then pure true
                 else do
                   odrSeterror .other 43
                   pure false) octets := by
  intro o o' r steady h
  rw [returns_bind_iff] at h
  obtain ⟨done, p, first, h⟩ := h
  cases done with
  | false =>
    rw [if_neg (by simp), returns_odrSeterror_bind_iff, returns_pure_iff] at h
    obtain ⟨rfl, rfl⟩ := h
    rfl
  | true =>
    rw [if_pos rfl, returns_pure_iff] at h
    obtain ⟨rfl, rfl⟩ := h
    rw [berOctetstringEncode, returns_bind_iff] at first
    obtain ⟨res, middle, length, first⟩ := first
    have wrote := wrote_lengthOctets steady short length
    split at first
    · simp at first
    · rw [returns_ite_iff] at first
      split at first
      next empty =>
        obtain rfl := length_eq_zero_iff.mp empty
        rw [append_nil]
        exact first.2 ▸ wrote
      · exact wrote.trans (wrote_odrWrite wrote.steady first)

theorem wrote_oidPutGroups {ids : List Int} (steady : o.Steady) (h : Returns (oidPutGroups ids) o r o') :
    r = true ∧ Wrote o o' (ids.flatMap fun id => base128 5 id.toNat []) := by
  induction ids generalizing o with
  | nil =>
    rw [oidPutGroups, returns_pure_iff] at h
    exact ⟨h.1.symm, h.2 ▸ .refl steady⟩
  | cons _ _ ih =>
    rw [oidPutGroups, returns_ite_iff] at h
    split at h
    · exact absurd h (not_returns_stop _ _ _ _)
    · rw [returns_bind_iff] at h
      obtain ⟨done, middle, first, h⟩ := h
      obtain ⟨rfl, wrote⟩ := wrote_odrPutAll steady first
      rw [flatMap_cons]
      exact (ih wrote.steady h).imp_right wrote.trans

theorem contents_oid (arcs : List Int) : Contents (berOidcEncode arcs) (oidOctets arcs) := by
  intro o o' r steady h
  rw [berOidcEncode, returns_get_bind_iff] at h
  rw [returns_bind_iff] at h
  obtain ⟨done, middle, first, h⟩ := h
  obtain ⟨rfl, place⟩ := wrote_odrPutc steady first
  rw [if_pos rfl, returns_ite_iff] at h
  split at h
  · rw [returns_odrSeterror_bind_iff, returns_pure_iff] at h
    obtain ⟨rfl, rfl⟩ := h
    rfl
  · rw [returns_bind_iff] at h
    obtain ⟨done, o₁, groups, h⟩ := h
    obtain ⟨rfl, wrote⟩ := wrote_oidPutGroups place.steady groups
    rw [if_pos rfl, returns_get_bind_iff, returns_bind_iff] at h
    obtain ⟨back, o₂, seek, h⟩ := h
    have start : o.pos = o.text.length := by rw [steady.length_text, steady.atEnd]
    have text : o₁.text = o.text ++ [0] ++ oidOctets arcs := by rw [wrote.text, place.text]; rfl
    have count : o₁.pos - o.pos - 1 = (oidOctets arcs).length := by
      rw [wrote.steady.atEnd, ← wrote.steady.length_text, text, start]
      simp only [length_append, length_singleton]
      omega
    rw [returns_bind_iff] at h
    obtain ⟨res, o₃, length, h⟩ := h
    have grows : o₂.canGrow = true := by
      obtain ⟨-, size, rfl⟩ := odrSeek_returns wrote.steady.grows seek
      exact wrote.steady.grows
    have written := berEnclen_one grows length
    rw [count] at written
    split at h
    · rw [returns_odrSeterror_bind_iff, returns_pure_iff] at h
      obtain ⟨rfl, rfl⟩ := h
      rfl
    next one =>
      have short : (oidOctets arcs).length ≤ 127 := by
        by_contra long
        rw [if_neg long] at written
        omega
      rw [if_pos short] at written
      rw [returns_bind_iff] at h
      obtain ⟨ended, o₄, seekEnd, h⟩ := h
      rw [returns_pure_iff] at h
      obtain ⟨rfl, rfl⟩ := h
      rw [start] at seek
      obtain ⟨framed, result⟩ := patched wrote.steady text seek written.2 seekEnd
      refine ⟨(place.toFramed.trans wrote.toFramed).trans framed, ?_⟩
      rw [result, lengthOctets_short short]
      simp

end Yaz.Odr
