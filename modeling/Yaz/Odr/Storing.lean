import Yaz.Odr.Writing
import Yaz.Ber.Exactness

/-! What the writers store in any buffer, and what they do in one that cannot grow. -/

set_option autoImplicit false

namespace Yaz.Odr
open List Yaz.Foundation Yaz.Ber Run

variable {o o' : Handle} {octets : List UInt8} {r : Bool}

theorem returns_odrGrowBlock_fixed (fixed : o.canGrow = false) (n : Nat) :
    Returns (odrGrowBlock n) o r o' ↔ r = false ∧ o = o' := by
  rw [odrGrowBlock, returns_get_bind_iff, fixed, returns_ite_iff, if_pos (by simp), returns_pure_iff, @eq_comm Bool false]

theorem returns_odrPutc_fixed (fixed : o.canGrow = false) (c : UInt8) :
    Returns (odrPutc c) o r o' ↔
      if o.pos < o.size then r = true ∧ put [c] o = o' else r = false ∧ { o with error := some .space } = o' := by
  rw [odrPutc, returns_get_bind_iff, returns_ite_iff]
  split
  · rw [returns_modify_bind_iff, returns_pure_iff, @eq_comm Bool true]
  · simp only [returns_bind_iff, returns_odrGrowBlock_fixed fixed]
    constructor
    · rintro ⟨_, _, ⟨rfl, rfl⟩, h⟩
      simpa [eq_comm] using h
    · rintro ⟨rfl, same⟩
      exact ⟨false, o, ⟨rfl, rfl⟩, by simpa using same⟩

theorem returns_growIf_fixed (fixed : o.canGrow = false) (needed : Bool) (n : Nat) :
    Returns (growIf needed n) o r o' ↔ r = !needed ∧ o = o' := by
  rw [growIf, returns_ite_iff]
  cases needed with
  | true => simp [returns_odrGrowBlock_fixed fixed]
  | false => simp [eq_comm]

theorem returns_odrWrite_fixed (fixed : o.canGrow = false) (octets : List UInt8) :
    Returns (odrWrite octets) o r o' ↔
      if o.pos + octets.length < o.size ∧ o.pos + octets.length ≤ intMax then r = true ∧ put octets o = o'
      else r = false ∧ { o with error := some .space, errorId := 40, element := "" } = o' := by
  rw [odrWrite, returns_get_bind_iff, returns_ite_iff]
  by_cases large : intMax < o.pos + octets.length
  · rw [if_pos large, if_neg (by omega), returns_odrSeterror_bind_iff, returns_pure_iff, @eq_comm Bool false]
  · rw [if_neg large]
    simp only [returns_bind_iff, returns_growIf_fixed fixed]
    by_cases room : o.pos + octets.length < o.size
    · rw [if_pos ⟨room, by omega⟩]
      have enough : decide (o.size ≤ o.pos + octets.length) = false := by simpa using room
      rw [enough]
      constructor
      · rintro ⟨_, _, ⟨rfl, rfl⟩, h⟩
        simpa [eq_comm] using h
      · rintro ⟨rfl, same⟩
        exact ⟨true, o, ⟨rfl, rfl⟩, by simpa using same⟩
    · rw [if_neg (by omega)]
      have full : decide (o.size ≤ o.pos + octets.length) = true := by simpa using room
      rw [full]
      constructor
      · rintro ⟨_, _, ⟨rfl, rfl⟩, h⟩
        rw [if_neg (by simp), returns_odrSeterror_bind_iff, returns_pure_iff] at h
        exact ⟨h.1.symm, h.2⟩
      · rintro ⟨rfl, same⟩
        refine ⟨false, o, ⟨rfl, rfl⟩, ?_⟩
        rw [if_neg (by simp), returns_odrSeterror_bind_iff, returns_pure_iff]
        exact ⟨rfl, same⟩

theorem returns_odrSeek_fixed (fixed : o.canGrow = false) {offset : Nat} (inside : offset ≤ o.size) :
    Returns (odrSeek offset) o r o' ↔ r = true ∧ o.seek offset = o' := by
  rw [odrSeek, returns_get_bind_iff]
  simp only [returns_bind_iff, returns_growIf_fixed fixed]
  have enough : decide (o.size < offset) = false := by simpa using inside
  rw [enough]
  constructor
  · rintro ⟨_, _, ⟨rfl, rfl⟩, h⟩
    simpa [Handle.seek, eq_comm] using h
  · rintro ⟨rfl, same⟩
    exact ⟨true, o, ⟨rfl, rfl⟩, by simpa [Handle.seek] using same⟩

/-! ### Any buffer -/

structure Handle.Seated (o : Handle) : Prop where
  position : o.pos ≤ o.top
  inside : o.top ≤ o.buf.length
  sized : o.canGrow = false → o.top ≤ o.size

/-- The octets were put at the position; in a block that cannot grow there was room for them. -/
structure Stored (o o' : Handle) (octets : List UInt8) : Prop where
  resized : Resized (put octets o) o'
  fixed : o.canGrow = false → o' = put octets o ∧ o.pos + octets.length ≤ o.size

theorem store_length {buf : List UInt8} {pos : Nat} (inside : pos ≤ buf.length) (octets : List UInt8) :
    (store buf pos octets).length = max buf.length (pos + octets.length) := by
  simp only [store, length_append, List.length_take, length_drop]
  omega

theorem Handle.Seated.put (seated : o.Seated) (room : o.canGrow = false → o.pos + octets.length ≤ o.size) :
    (Odr.put octets o).Seated where
  position := Nat.le_max_right _ _
  inside := by
    have inside := seated.inside
    have position := seated.position
    simp only [Odr.put, store_length (Nat.le_trans position inside)]
    omega
  sized := by
    intro fixed
    have sized := seated.sized fixed
    have enough := room fixed
    simp only [Odr.put]
    omega

theorem Stored.seated (stored : Stored o o' octets) (seated : o.Seated) : o'.Seated := by
  have both := seated.put fun fixed => (stored.fixed fixed).2
  obtain ⟨size, rfl⟩ := stored.resized
  refine ⟨both.position, both.inside, fun fixed => ?_⟩
  rw [(stored.fixed fixed).1]
  exact both.sized fixed

theorem Stored.canGrow (stored : Stored o o' octets) : o'.canGrow = o.canGrow := by
  obtain ⟨size, rfl⟩ := stored.resized
  rfl

theorem Stored.error (stored : Stored o o' octets) : o'.error = o.error := by
  obtain ⟨size, rfl⟩ := stored.resized
  rfl

theorem Stored.trans {p : Handle} {front back : List UInt8} (h : Stored o p front) (k : Stored p o' back)
    (seated : o.Seated) : Stored o o' (front ++ back) := by
  have inside : o.pos ≤ o.buf.length := Nat.le_trans seated.position seated.inside
  obtain ⟨size, rfl⟩ := h.resized
  obtain ⟨size', rfl⟩ := k.resized
  refine ⟨⟨size', ?_⟩, fun fixed => ?_⟩
  · rw [put_resize, put_put inside, Handle.resize_resize]
  · obtain ⟨same, -⟩ := h.fixed fixed
    obtain ⟨same', room⟩ := k.fixed fixed
    rw [same'] at *
    refine ⟨?_, ?_⟩
    · rw [same, put_put inside]
    · have size : size = o.size := congrArg Handle.size same
      simp only [Handle.resize_pos, put, Handle.resize_size, size] at room
      rw [length_append]
      omega

theorem stored_odrPutc {c : UInt8} (h : Returns (odrPutc c) o true o') : Stored o o' [c] := by
  cases grows : o.canGrow with
  | true => exact ⟨(odrPutc_returns grows h).2, fun fixed => by simp [grows] at fixed⟩
  | false =>
    rw [returns_odrPutc_fixed grows] at h
    split at h
    next room => exact ⟨⟨o.size, h.2.symm⟩, fun _ => ⟨h.2.symm, room⟩⟩
    · simp at h

theorem Stored.refl (seated : o.Seated) : Stored o o [] where
  resized := ⟨o.size, by rw [put_nil seated.position]; rfl⟩
  fixed := by
    intro fixed
    have sized := seated.sized fixed
    have position := seated.position
    refine ⟨(put_nil position).symm, ?_⟩
    rw [length_nil]
    omega

theorem stored_odrPutAll (seated : o.Seated) (h : Returns (odrPutAll octets) o true o') : Stored o o' octets := by
  induction octets generalizing o with
  | nil =>
    exact h.2 ▸ .refl seated
  | cons _ _ ih =>
    rw [odrPutAll, returns_bind_iff] at h
    obtain ⟨done, middle, first, h⟩ := h
    cases done with
    | false => simp at h
    | true =>
      have stored := stored_odrPutc first
      exact stored.trans (ih (stored.seated seated) h) seated

theorem stored_odrWrite (h : Returns (odrWrite octets) o true o') : Stored o o' octets := by
  cases grows : o.canGrow with
  | true =>
    have resized := odrWrite_returns grows h
    exact ⟨resized, fun fixed => by simp [grows] at fixed⟩
  | false =>
    rw [returns_odrWrite_fixed grows] at h
    split at h
    next room => exact ⟨⟨o.size, h.2.symm⟩, fun _ => ⟨h.2.symm, by omega⟩⟩
    · simp at h

theorem room_odrWrite (fixed : o.canGrow = false) (h : Returns (odrWrite octets) o true o') :
    o.pos + octets.length < o.size := by
  rw [returns_odrWrite_fixed fixed] at h
  split at h
  next room => exact room.1
  · simp at h

theorem Stored.write {p : Handle} {front : List UInt8} (before : Stored o p front) (seated : o.Seated)
    (h : Returns (odrWrite octets) p true o') :
    Stored o o' (front ++ octets) ∧ (o.canGrow = false → o.pos + (front ++ octets).length < o.size) := by
  refine ⟨before.trans (stored_odrWrite h) seated, fun fixed => ?_⟩
  have room := room_odrWrite (before.canGrow.trans fixed) h
  rw [(before.fixed fixed).1] at room
  simp only [put] at room
  rw [length_append]
  omega

theorem sought_odrSeek {offset : Nat} (seated : o.Seated) (inside : offset ≤ o.top)
    (h : Returns (odrSeek offset) o r o') : Resized (o.seek offset) o' ∧ (o.canGrow = false → o' = o.seek offset) := by
  cases grows : o.canGrow with
  | true => exact ⟨(odrSeek_returns grows h).2, by simp⟩
  | false =>
    have sized := seated.sized grows
    rw [returns_odrSeek_fixed grows (by omega)] at h
    exact ⟨⟨o.size, h.2.symm⟩, fun _ => h.2.symm⟩

theorem returns_odrPutAll_room (seated : o.Seated) (room : o.pos + octets.length ≤ o.size) :
    Returns (odrPutAll octets) o true (put octets o) := by
  induction octets generalizing o with
  | nil =>
    rw [odrPutAll, returns_pure_iff, put_nil seated.position]
    exact ⟨rfl, rfl⟩
  | cons c _ ih =>
    rw [length_cons] at room
    have first : Returns (odrPutc c) o true (put [c] o) := by
      rw [odrPutc, returns_get_bind_iff, returns_ite_iff, if_pos (by omega), returns_modify_bind_iff, returns_pure_iff]
      exact ⟨rfl, rfl⟩
    have seated' : (put [c] o).Seated := seated.put fun _ => by rw [length_singleton]; omega
    rw [odrPutAll]
    refine first.bind ?_
    have later := ih seated' (by simp only [put, length_singleton]; omega)
    rw [put_put (Nat.le_trans seated.position seated.inside)] at later
    exact later

theorem failed_odrPutc {c : UInt8} (h : Returns (odrPutc c) o false o') : o'.error.isSome := by
  cases grows : o.canGrow with
  | true => cases (odrPutc_returns grows h).1
  | false =>
    rw [returns_odrPutc_fixed grows] at h
    split at h
    · cases h.1
    · rw [← h.2]
      rfl

theorem failed_odrPutAll (h : Returns (odrPutAll octets) o false o') : o'.error.isSome := by
  induction octets generalizing o with
  | nil => simp [odrPutAll] at h
  | cons _ _ ih =>
    rw [odrPutAll, returns_bind_iff] at h
    obtain ⟨done, middle, first, h⟩ := h
    cases done with
    | true => exact ih h
    | false =>
      exact h.2 ▸ failed_odrPutc first

/-! ### Length octets -/

/-- The octets were put at the position, and the position is at the end of the text. -/
structure Rewritten (o o' : Handle) (octets : List UInt8) : Prop where
  resized : Resized ((put octets o).seek (put octets o).top) o'
  fixed : o.canGrow = false → o' = (put octets o).seek (put octets o).top ∧ o.pos + octets.length ≤ o.size

theorem Rewritten.stored (rewritten : Rewritten o o' octets) (atEnd : o.pos = o.top) : Stored o o' octets := by
  have same : (put octets o).seek (put octets o).top = put octets o := by
    simp only [Handle.seek, put, atEnd]
    congr 1
    omega
  exact ⟨by rw [← same]; exact rewritten.resized, by rw [← same]; exact rewritten.fixed⟩

theorem text_put_store (seated : o.Seated) (octets : List UInt8) : (put octets o).text = store o.text o.pos octets := by
  have position := seated.position
  have inside := seated.inside
  simp only [Handle.text, put, store]
  rw [take_take, Nat.min_eq_left position]
  by_cases short : o.pos + octets.length ≤ o.top
  · rw [Nat.max_eq_left short, take_append, drop_take]
    simp only [length_append, List.length_take, Nat.min_eq_left (Nat.le_trans position inside)]
    rw [take_of_length_le (by simp; omega)]
  · rw [Nat.max_eq_right (by omega), take_left' (by simp; omega),
      drop_of_length_le (by simp; omega), append_nil]

theorem Stored.text (stored : Stored o o' octets) (seated : o.Seated) : o'.text = store o.text o.pos octets := by
  obtain ⟨size, rfl⟩ := stored.resized
  exact text_put_store seated octets

theorem Rewritten.text (rewritten : Rewritten o o' octets) (seated : o.Seated) :
    o'.text = store o.text o.pos octets := by
  obtain ⟨size, rfl⟩ := rewritten.resized
  exact text_put_store seated octets

theorem put_over (inside : o.pos ≤ o.buf.length) (place c : UInt8) (body : List UInt8) :
    (put [c] ((put (place :: body) o).seek o.pos)).seek (put [c] ((put (place :: body) o).seek o.pos)).top =
      (put (c :: body) o).seek (put (c :: body) o).top := by
  have start : (o.buf.take o.pos).length = o.pos := by rw [List.length_take, Nat.min_eq_left inside]
  have stored : store (store o.buf o.pos (place :: body)) o.pos [c] = store o.buf o.pos (c :: body) := by
    have rest (back : List UInt8) : (o.buf.take o.pos ++ (place :: body ++ back)).drop (o.pos + 1) = body ++ back := by
      have split : o.pos + 1 = (o.buf.take o.pos).length + 1 := by rw [start]
      rw [split, drop_length_add_append]
      rfl
    simp only [store, append_assoc, length_cons, length_nil, Nat.zero_add]
    rw [take_left' start, rest]
    rfl
  simp only [Handle.seek, put, stored, length_cons, length_nil]
  congr 1
  · omega
  · omega

theorem rewritten_patch {o₁ o₂ o₃ : Handle} {place c : UInt8} {body : List UInt8} {ended : Bool} (seated : o.Seated)
    (written : Stored o o₁ (place :: body)) (seek : Returns (odrSeek o.pos) o₁ r o₂) (patch : Stored o₂ o₃ [c])
    (seekEnd : Returns odrSeekEnd o₃ ended o') : Rewritten o o' (c :: body) := by
  have seated₁ := written.seated seated
  obtain ⟨size₁, same₁⟩ := written.resized
  have inside₁ : o.pos ≤ o₁.top := by
    rw [same₁]
    simp only [Handle.resize_top, put]
    omega
  have sought := sought_odrSeek seated₁ inside₁ seek
  obtain ⟨size₂, same₂⟩ := sought.1
  have seated₂ : o₂.Seated := by
    refine ⟨same₂ ▸ inside₁, same₂ ▸ seated₁.inside, fun fixed => ?_⟩
    have fixed₁ : o₁.canGrow = false := by rw [same₂] at fixed; exact fixed
    rw [sought.2 fixed₁]
    exact seated₁.sized fixed₁
  have final := sought_odrSeek (patch.seated seated₂) (Nat.le_refl _) seekEnd
  have covered := put_over (Nat.le_trans seated.position seated.inside) place c body
  obtain ⟨size₃, same₃⟩ := patch.resized
  obtain ⟨size₄, same₄⟩ := final.1
  refine ⟨⟨size₄, ?_⟩, fun fixed => ?_⟩
  · rw [← covered, same₄, same₃, same₂, same₁]
    rfl
  · obtain ⟨exact₁, room⟩ := written.fixed fixed
    have exact₂ := sought.2 (written.canGrow.trans fixed)
    have fixed₂ : o₂.canGrow = false := by rw [exact₂]; exact written.canGrow.trans fixed
    have exact₃ := (patch.fixed fixed₂).1
    have exact₄ := final.2 (patch.canGrow.trans fixed₂)
    refine ⟨?_, room⟩
    rw [← covered, exact₄, exact₃, exact₂, exact₁]

variable {exact : Bool} {res : Int}

theorem returned_enclenLong {lenlen : Nat} (seated : o.Seated)
    (h : Returns (enclenLong octets lenlen exact) o res o') :
    (res = 0 ∧ o'.error.isSome) ∨ (0 < res ∧ Rewritten o o'
      (let padding := if exact then List.replicate (lenlen - 1 - octets.length) (0 : UInt8) else []
       UInt8.ofNat ((padding ++ octets).length % 128 + 128) :: (padding ++ octets))) := by
  rw [enclenLong, returns_get_bind_iff] at h
  dsimp only at h ⊢
  generalize (if exact then List.replicate (lenlen - 1 - octets.length) (0 : UInt8) else []) ++ octets = body at h ⊢
  rw [returns_bind_iff] at h
  obtain ⟨all, o₁, first, h⟩ := h
  cases all with
  | false =>
    rw [if_neg (by simp), returns_pure_iff] at h
    exact .inl ⟨h.1.symm, h.2 ▸ failed_odrPutAll first⟩
  | true =>
    have place := stored_odrPutAll seated first
    rw [if_pos rfl, returns_get_bind_iff, returns_bind_iff] at h
    obtain ⟨back, o₂, seek, h⟩ := h
    rw [returns_bind_iff] at h
    obtain ⟨patched, o₃, putc, h⟩ := h
    cases patched with
    | false =>
      rw [if_neg (by simp), returns_pure_iff] at h
      exact .inl ⟨h.1.symm, h.2 ▸ failed_odrPutc putc⟩
    | true =>
      rw [if_pos rfl, returns_bind_iff] at h
      obtain ⟨ended, o₄, seekEnd, h⟩ := h
      rw [returns_get_bind_iff, returns_pure_iff] at h
      obtain ⟨rfl, rfl⟩ := h
      have count : o₁.pos - o.pos - 1 = body.length := by
        obtain ⟨size, rfl⟩ := place.resized
        simp only [Handle.resize_pos, put, length_cons]
        omega
      rw [count] at putc
      have rewritten := rewritten_patch seated place seek (stored_odrPutc putc) seekEnd
      refine .inr ⟨?_, rewritten⟩
      obtain ⟨size, rfl⟩ := rewritten.resized
      simp only [Handle.resize_pos, Handle.seek_pos, put, length_cons]
      omega

variable {len lenlen : Nat}

theorem berEnclen_stores (seated : o.Seated) (few : lenlen ≤ 127)
    (h : Returns (berEnclen len lenlen exact) o res o') (definite : 0 < res) :
    (Stored o o' (enclenOctets len lenlen exact) ∨ Rewritten o o' (enclenOctets len lenlen exact)) ∧
      (len ≤ 127 ∧ exact = false ∨ lenlen = 1 ∨ (base256 4 len []).length < lenlen) := by
  rw [berEnclen, returns_ite_iff] at h
  split at h
  next short =>
    rw [enclenOctets, if_pos short]
    rw [returns_bind_iff] at h
    obtain ⟨done, middle, first, h⟩ := h
    cases done with
    | false =>
      rw [if_neg (by simp), returns_pure_iff] at h
      omega
    | true =>
      obtain ⟨-, rfl⟩ := h
      refine ⟨.inl (stored_odrPutc first), ?_⟩
      obtain ⟨short, isOne | loose⟩ := short
      · exact .inr (.inl isOne)
      · exact .inl ⟨short, loose⟩
  next long =>
    split at h
    · -- the indefinite form
      rw [returns_bind_iff] at h
      obtain ⟨_, _, _, h⟩ := h
      rw [returns_pure_iff] at h
      omega
    · dsimp only at h
      split at h
      · rw [returns_pure_iff] at h
        omega
      next room =>
        obtain ⟨rfl, -⟩ | ⟨-, rewritten⟩ := returned_enclenLong seated h
        · omega
        rw [enclenOctets, if_neg long]
        dsimp only at rewritten ⊢
        have padded : ((if exact then List.replicate (lenlen - 1 - (base256 4 len []).length) (0 : UInt8) else []) ++
            base256 4 len []).length < 128 := by
          rw [length_append]
          split
          · rw [length_replicate]
            omega
          · rw [length_nil]
            omega
        rw [Nat.mod_eq_of_lt padded] at rewritten
        exact ⟨.inr rewritten, .inr (.inr (by omega))⟩

theorem failed_berEnclen (seated : o.Seated) (more : lenlen ≠ 1)
    (h : Returns (berEnclen len lenlen exact) o 0 o') : o'.error.isSome := by
  rw [berEnclen, returns_ite_iff] at h
  split at h
  · rw [returns_bind_iff] at h
    obtain ⟨done, middle, first, h⟩ := h
    cases done with
    | true => simp at h
    | false =>
      exact h.2 ▸ failed_odrPutc first
  · simp only [returns_ite_iff] at h
    split at h
    · simp at h
    · obtain ⟨-, failed⟩ | ⟨positive, -⟩ := returned_enclenLong seated h
      · exact failed
      · omega

theorem stored_berEnclen (seated : o.Seated) (atEnd : o.pos = o.top)
    (few : lenlen ≤ 127) (h : Returns (berEnclen len lenlen exact) o res o') (definite : 0 < res) :
    Stored o o' (enclenOctets len lenlen exact) := by
  obtain ⟨stored | rewritten, -⟩ := berEnclen_stores seated few h definite
  · exact stored
  · exact rewritten.stored atEnd

theorem text_berEnclen (seated : o.Seated) (few : lenlen ≤ 127)
    (h : Returns (berEnclen len lenlen exact) o res o') (definite : 0 < res) :
    o'.text = store o.text o.pos (enclenOctets len lenlen exact) := by
  obtain ⟨stored | rewritten, -⟩ := berEnclen_stores seated few h definite
  · exact stored.text seated
  · exact rewritten.text seated

theorem enclenOctets_loose (len : Nat) : enclenOctets len 5 false = lengthOctets len := by
  unfold enclenOctets lengthOctets
  by_cases short : len ≤ 127
  · rw [if_pos ⟨short, .inr rfl⟩, if_pos short]
  · rw [if_neg (by simp [short]), if_neg short]
    rfl

theorem stored_berEnctag {zclass tag : Int} {constructed : Bool} (seated : o.Seated)
    (h : Returns (berEnctag zclass tag constructed) o true o') :
    tag < 2 ^ 28 ∧ Stored o o' (enctagOctets zclass tag constructed) := by
  rw [berEnctag, returns_ite_iff] at h
  split at h
  · exact absurd h (not_returns_stop _ _ _ _)
  · exact ⟨by omega, stored_odrPutAll seated h⟩

theorem length_dropSign_integerOctets (val : BitVec 64) :
    dropSign (integerOctets val) ≠ [] ∧ (dropSign (integerOctets val)).length ≤ 8 := by
  have length := integerOctets_length val
  obtain ⟨-, nonempty, short⟩ := dropSign_spec (show integerOctets val ≠ [] by rw [← length_pos_iff]; omega)
  exact ⟨nonempty, by omega⟩

theorem stored_berIntegerEncode {val : BitVec 64} (seated : o.Seated) (h : Returns (berIntegerEncode val) o true o') :
    Stored o o' (UInt8.ofNat (dropSign (integerOctets val)).length :: dropSign (integerOctets val)) ∧
      (o.canGrow = false → o.pos + ((dropSign (integerOctets val)).length + 1) < o.size) := by
  obtain ⟨-, short⟩ := length_dropSign_integerOctets val
  rw [berIntegerEncode, returns_bind_iff] at h
  obtain ⟨res, middle, first, h⟩ := h
  split at h
  · simp at h
  next isOne =>
    rw [berEnclen, if_pos ⟨by omega, .inl rfl⟩, returns_bind_iff] at first
    obtain ⟨done, _, putc, first⟩ := first
    cases done with
    | false =>
      rw [if_neg (by simp), returns_pure_iff] at first
      omega
    | true =>
      obtain ⟨-, rfl⟩ := first
      have written := (stored_odrPutc putc).write seated h
      exact written

theorem stored_lengthOctets (seated : o.Seated) (atEnd : o.pos = o.top)
    (h : Returns (berEnclen len 5 false) o res o') (accepted : ¬ res < 0) (noError : o'.error = none) :
    Stored o o' (lengthOctets len) := by
  rw [← enclenOctets_loose]
  refine stored_berEnclen seated atEnd (by omega) h ?_
  by_contra failed
  obtain rfl : res = 0 := by omega
  have broken := failed_berEnclen seated (by omega) h
  simp [noError] at broken

theorem stored_berOctetstringEncode (seated : o.Seated) (atEnd : o.pos = o.top)
    (h : Returns (berOctetstringEncode octets) o true o') (noError : o'.error = none) :
    Stored o o' (lengthOctets octets.length ++ octets) ∧
      (octets ≠ [] → o.canGrow = false → o.pos + (lengthOctets octets.length ++ octets).length < o.size) := by
  rw [berOctetstringEncode, returns_bind_iff] at h
  obtain ⟨res, middle, first, h⟩ := h
  split at h
  · simp at h
  next accepted =>
    split at h
    next empty =>
      obtain ⟨-, rfl⟩ := h
      obtain rfl := length_eq_zero_iff.mp empty
      rw [append_nil]
      exact ⟨stored_lengthOctets seated atEnd first accepted noError, by simp⟩
    · have length := stored_lengthOctets seated atEnd first accepted ((stored_odrWrite h).error.symm.trans noError)
      have written := length.write seated h
      exact ⟨written.1, fun _ => written.2⟩

theorem stored_berBitstringEncode {bits : List UInt8} (seated : o.Seated) (atEnd : o.pos = o.top)
    (h : Returns (berBitstringEncode bits) o true o') (noError : o'.error = none) :
    Stored o o' (lengthOctets (bits.length + 1) ++ [0] ++ bits) ∧
      (bits ≠ [] → o.canGrow = false → o.pos + (lengthOctets (bits.length + 1) ++ [0] ++ bits).length < o.size) := by
  rw [berBitstringEncode, returns_bind_iff] at h
  obtain ⟨res, middle, first, h⟩ := h
  split at h
  · simp at h
  next accepted =>
    rw [returns_bind_iff] at h
    obtain ⟨done, p, unused, h⟩ := h
    cases done with
    | false => simp at h
    | true =>
      have octet := stored_odrPutc unused
      rw [if_pos rfl, returns_ite_iff] at h
      split at h
      next empty =>
        obtain ⟨-, rfl⟩ := h
        obtain rfl := length_eq_zero_iff.mp empty
        have length := stored_lengthOctets seated atEnd first accepted (octet.error.symm.trans noError)
        rw [append_nil]
        exact ⟨length.trans octet seated, by simp⟩
      · have length := stored_lengthOctets seated atEnd first accepted
          (octet.error.symm.trans ((stored_odrWrite h).error.symm.trans noError))
        have written := (length.trans octet seated).write seated h
        exact ⟨written.1, fun _ => written.2⟩

theorem stored_oidPutGroups {ids : List Int} (seated : o.Seated) (h : Returns (oidPutGroups ids) o true o') :
    Stored o o' (ids.flatMap fun id => base128 5 id.toNat []) ∧ ∀ id ∈ ids, 0 ≤ id := by
  induction ids generalizing o with
  | nil =>
    exact ⟨h.2 ▸ .refl seated, by simp⟩
  | cons _ _ ih =>
    rw [oidPutGroups, returns_ite_iff] at h
    split at h
    · exact absurd h (not_returns_stop _ _ _ _)
    next nonneg =>
      rw [returns_bind_iff] at h
      obtain ⟨done, middle, first, h⟩ := h
      cases done with
      | false => simp at h
      | true =>
        have stored := stored_odrPutAll seated first
        obtain ⟨others, range⟩ := ih (stored.seated seated) h
        rw [flatMap_cons, forall_mem_cons]
        exact ⟨stored.trans others seated, by omega, range⟩

/-- What `ber_oidc` asks of the arcs: two of them for the first group, no negative number, and contents
whose length takes one octet. -/
structure OidEncodable (arcs : List Int) : Prop where
  valid : ¬ (arcs.length < 2 ∨ arcs.head?.any (· < 0) ∨ arcs[1]?.any (· < 0))
  range : ∀ id ∈ oidIds arcs, 0 ≤ id
  short : (oidOctets arcs).length ≤ 127

theorem stored_berOidcEncode {arcs : List Int} (seated : o.Seated) (h : Returns (berOidcEncode arcs) o true o') :
    Rewritten o o' (UInt8.ofNat (oidOctets arcs).length :: oidOctets arcs) ∧ OidEncodable arcs := by
  rw [berOidcEncode, returns_get_bind_iff] at h
  rw [returns_bind_iff] at h
  obtain ⟨done, o₁, first, h⟩ := h
  cases done with
  | false => simp at h
  | true =>
    rw [if_pos rfl, returns_ite_iff] at h
    split at h
    · simp at h
    next valid =>
      rw [returns_bind_iff] at h
      obtain ⟨done, o₂, groups, h⟩ := h
      cases done with
      | false => simp at h
      | true =>
        have place := stored_odrPutc first
        obtain ⟨contents, range⟩ := stored_oidPutGroups (place.seated seated) groups
        have written := place.trans contents seated
        rw [if_pos rfl, returns_get_bind_iff, returns_bind_iff] at h
        obtain ⟨back, o₃, seek, h⟩ := h
        have count : o₂.pos - o.pos - 1 = (oidOctets arcs).length := by
          obtain ⟨size, rfl⟩ := written.resized
          simp only [Handle.resize_pos, put, length_append, length_singleton, oidOctets]
          omega
        rw [count, returns_bind_iff] at h
        obtain ⟨res, o₄, length, h⟩ := h
        split at h
        · simp at h
        next one =>
          obtain rfl : res = 1 := by simpa using one
          rw [returns_bind_iff] at h
          obtain ⟨ended, o₅, seekEnd, h⟩ := h
          obtain ⟨-, rfl⟩ := h
          rw [berEnclen, returns_ite_iff] at length
          split at length
          next short =>
            rw [returns_bind_iff] at length
            obtain ⟨done, _, putc, length⟩ := length
            cases done with
            | false => simp at length
            | true =>
              obtain ⟨-, rfl⟩ := length
              exact ⟨rewritten_patch seated written seek (stored_odrPutc putc) seekEnd, valid, range, short.1⟩
          next long =>
            rw [if_pos rfl, returns_bind_iff] at length
            obtain ⟨_, _, _, length⟩ := length
            simp at length

end Yaz.Odr
