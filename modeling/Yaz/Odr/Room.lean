import Yaz.Odr.Storing

/-! How much room the contents of an element take in a buffer that cannot grow.

`odr_putc` takes the octets it puts, `odr_seek` may go to the very end, but `odr_write`
asks for one octet more than it writes. What an encoder takes is therefore its octets and, where the last
of them are written by `odr_write`, one octet more.
-/

set_option autoImplicit false

namespace Yaz.Odr
open List Yaz.Foundation Yaz.Ber Run

variable {o o' : Handle} {octets : List UInt8}

def Succeeds (run : Codec Bool) (o o' : Handle) : Prop := Returns run o true o' ∧ o'.error = none

/-- Where an encoder may be called, in any buffer: behind the text, without an error. -/
structure Handle.Apt (o : Handle) : Prop where
  atEnd : o.pos = o.top
  inside : o.top ≤ o.buf.length
  sized : o.canGrow = false → o.top ≤ o.size ∧ o.size ≤ intMax
  error : o.error = none
  lenlen : o.lenlen = 1

theorem Handle.Apt.seated (apt : o.Apt) : o.Seated :=
  ⟨by rw [apt.atEnd], apt.inside, fun fixed => (apt.sized fixed).1⟩

theorem Handle.Apt.length_text (apt : o.Apt) : o.text.length = o.top := by
  rw [Handle.text, List.length_take, Nat.min_eq_left apt.inside]

structure Added (o o' : Handle) (octets : List UInt8) : Prop where
  apt : o'.Apt
  size : o.canGrow = false → o'.size = o.size
  canGrow : o'.canGrow = o.canGrow
  stack : o'.stack = o.stack
  tClass : o'.tClass = -1
  text : o'.text = o.text ++ octets

theorem Added.trans {p : Handle} {front back : List UInt8} (h : Added o p front) (k : Added p o' back) :
    Added o o' (front ++ back) where
  apt := k.apt
  size := fun fixed => (k.size (h.canGrow.trans fixed)).trans (h.size fixed)
  canGrow := k.canGrow.trans h.canGrow
  stack := k.stack.trans h.stack
  tClass := k.tClass
  text := by rw [k.text, h.text, append_assoc]

theorem Added.top (h : Added o o' octets) (apt : o.Apt) : o'.top = o.top + octets.length := by
  rw [← h.apt.length_text, ← apt.length_text, h.text, length_append]

theorem Stored.added (stored : Stored o o' octets) (apt : o.Apt) (untagged : o.tClass = -1) : Added o o' octets := by
  have seated := stored.seated apt.seated
  have text := stored.text apt.seated
  have same := stored.error
  obtain ⟨size, rfl⟩ := stored.resized
  have fixed := stored.fixed
  refine ⟨⟨?_, seated.inside, ?_, same.trans apt.error, apt.lenlen⟩, ?_, rfl, rfl, untagged, ?_⟩
  · have atEnd := apt.atEnd
    simp only [Handle.resize_pos, put, Handle.resize_top]
    omega
  · intro cannot
    obtain ⟨exact, -⟩ := fixed cannot
    refine ⟨seated.sized cannot, ?_⟩
    rw [exact]
    exact (apt.sized cannot).2
  · intro cannot
    rw [(fixed cannot).1]
    rfl
  · rw [text, store, apt.atEnd, ← apt.length_text, take_length, drop_of_length_le (by omega), append_nil]

/-- The run succeeds in a buffer that cannot grow if and only if its value is `good` and there is
room for its octets, and for one more when the `last` of them are written by `odr_write`; in any
buffer it appends the octets when it succeeds. -/
structure Fits (run : Codec Bool) (o : Handle) (octets : List UInt8) (last : Bool) (good : Prop) : Prop where
  stores : ∀ o', Succeeds run o o' →
    good ∧ Added o o' octets ∧ (o.canGrow = false → o.top + octets.length + last.toNat ≤ o.size)
  succeeds : o.canGrow = false → good → o.top + octets.length + last.toNat ≤ o.size → ∃ o', Succeeds run o o'

def ContentsFit (run : Codec Bool) (octets : List UInt8) (last : Bool) (good : Prop) : Prop :=
  ∀ o : Handle, o.Apt → o.tClass = -1 → Fits run o octets last good

theorem returns_odrPutc_room {c : UInt8} (room : o.pos < o.size) : Returns (odrPutc c) o true (put [c] o) := by
  rw [odrPutc, returns_get_bind_iff, returns_ite_iff, if_pos room, returns_modify_bind_iff, returns_pure_iff]
  exact ⟨rfl, rfl⟩

theorem returns_odrWrite_room (fixed : o.canGrow = false) (room : o.pos + octets.length < o.size)
    (small : o.size ≤ intMax) : Returns (odrWrite octets) o true (put octets o) := by
  rw [returns_odrWrite_fixed fixed, if_pos ⟨room, by omega⟩]
  exact ⟨rfl, rfl⟩

theorem returns_berEnclen_short {len lenlen : Nat} {exact : Bool} (short : len ≤ 127)
    (form : lenlen = 1 ∨ exact = false) (room : o.pos < o.size) :
    Returns (berEnclen len lenlen exact) o 1 (put [UInt8.ofNat len] o) := by
  rw [berEnclen, if_pos ⟨short, form⟩]
  refine (returns_odrPutc_room room).bind ?_
  rw [if_pos rfl, returns_pure_iff]
  exact ⟨rfl, rfl⟩

theorem returns_patch_room {place c : UInt8} {body : List UInt8} (fixed : o.canGrow = false) (seated : o.Seated)
    (room : o.pos + (place :: body).length ≤ o.size) :
    let p := put (place :: body) o
    Returns (odrSeek o.pos) p true (p.seek o.pos) ∧
      Returns (odrPutc c) (p.seek o.pos) true (put [c] (p.seek o.pos)) ∧
      Returns odrSeekEnd (put [c] (p.seek o.pos)) true ((put (c :: body) o).seek (put (c :: body) o).top) := by
  rw [length_cons] at room
  have sized := seated.sized fixed
  have inside := Nat.le_trans seated.position seated.inside
  refine ⟨?_, ?_, ?_⟩
  · have place' : o.pos ≤ (put (place :: body) o).size := by
      simp only [put]
      omega
    exact (@returns_odrSeek_fixed (put (place :: body) o) _ true fixed _ place').mpr ⟨rfl, rfl⟩
  · apply returns_odrPutc_room
    simp only [Handle.seek_pos, Handle.seek_size, put]
    omega
  · have top : (put [c] ((put (place :: body) o).seek o.pos)).top ≤
        (put [c] ((put (place :: body) o).seek o.pos)).size := by
      simp only [put, Handle.seek_top, Handle.seek_pos, Handle.seek_size, length_cons, length_nil]
      omega
    rw [odrSeekEnd, returns_get_bind_iff, ← put_over inside place]
    exact (@returns_odrSeek_fixed (put [c] ((put (place :: body) o).seek o.pos)) _ true fixed _ top).mpr ⟨rfl, rfl⟩

theorem returns_lengthOctets_room {len : Nat} (fixed : o.canGrow = false) (seated : o.Seated) (atEnd : o.pos = o.top)
    (room : o.pos + (lengthOctets len).length ≤ o.size) :
    ∃ res o', Returns (berEnclen len 5 false) o res o' ∧ 0 < res ∧ o' = put (lengthOctets len) o := by
  unfold lengthOctets at room ⊢
  split at room
  next short =>
    rw [if_pos short]
    rw [length_singleton] at room
    exact ⟨1, _, returns_berEnclen_short short (.inr rfl) (by omega), by simp, rfl⟩
  next long =>
    rw [if_neg long, berEnclen, if_neg (by simp [long]), if_neg (by simp)]
    have few := base256_length 4 len []
    rw [length_nil] at few
    rw [if_neg (by omega), enclenLong]
    have written := @returns_odrPutAll_room o (0 :: base256 4 len []) seated room
    obtain ⟨seek, putc, seekEnd⟩ := @returns_patch_room o 0
      (UInt8.ofNat ((base256 4 len []).length % 128 + 128)) (base256 4 len []) fixed seated room
    have count : (put (0 :: base256 4 len []) o).pos - o.pos - 1 = (base256 4 len []).length := by
      simp only [put, length_cons]
      omega
    have octet : (base256 4 len []).length % 128 + 128 = (base256 4 len []).length + 128 := by omega
    rw [octet] at putc seekEnd
    generalize lastIs : (put (UInt8.ofNat ((base256 4 len []).length + 128) :: base256 4 len []) o).seek _ = last
      at seekEnd
    refine ⟨(last.pos : Int) - o.pos, last, ?_, ?_, ?_⟩
    · rw [returns_get_bind_iff]
      dsimp only
      rw [if_neg (by simp), nil_append]
      refine written.bind ?_
      rw [if_pos rfl, returns_get_bind_iff, count, octet]
      refine seek.bind (putc.bind ?_)
      rw [if_pos rfl]
      refine seekEnd.bind ?_
      rw [returns_get_bind_iff, returns_pure_iff]
      exact ⟨rfl, rfl⟩
    · rw [← lastIs]
      simp only [Handle.seek_pos, put, length_cons]
      omega
    · rw [← lastIs]
      simp only [Handle.seek, put]
      congr 1
      omega

theorem returns_write_behind (apt : o.Apt) (fixed : o.canGrow = false) (front : List UInt8)
    (room : o.top + front.length + octets.length < o.size) :
    Returns (odrWrite octets) (put front o) true (put octets (put front o)) := by
  have atEnd := apt.atEnd
  refine @returns_odrWrite_room (put front o) octets fixed ?_ (apt.sized fixed).2
  simp only [put]
  omega

theorem contentsFit_integer (val : BitVec 64) : ContentsFit (berIntegerEncode val)
    (lengthOctets (dropSign (integerOctets val)).length ++ dropSign (integerOctets val)) true True := by
  intro o apt untagged
  obtain ⟨-, short⟩ := length_dropSign_integerOctets val
  rw [lengthOctets_short (by omega)]
  have atEnd := apt.atEnd
  constructor
  · rintro o' ⟨h, -⟩
    obtain ⟨stored, strict⟩ := stored_berIntegerEncode apt.seated h
    refine ⟨trivial, stored.added apt untagged, fun fixed => ?_⟩
    have room := strict fixed
    simp only [singleton_append, length_cons, Bool.toNat_true]
    omega
  · intro fixed _ room
    simp only [singleton_append, length_cons, Bool.toNat_true] at room
    refine ⟨put (dropSign (integerOctets val)) (put [UInt8.ofNat (dropSign (integerOctets val)).length] o), ?_,
      apt.error⟩
    rw [berIntegerEncode]
    refine (returns_berEnclen_short (by omega) (.inl rfl) (by omega)).bind ?_
    rw [if_neg (by simp)]
    exact returns_write_behind apt fixed _ (by rw [length_singleton]; omega)

theorem contentsFit_octetstring (octets : List UInt8) :
    ContentsFit (berOctetstringEncode octets) (lengthOctets octets.length ++ octets) (!octets.isEmpty) True := by
  intro o apt untagged
  have atEnd := apt.atEnd
  constructor
  · rintro o' ⟨h, noError⟩
    obtain ⟨stored, strict⟩ := stored_berOctetstringEncode apt.seated atEnd h noError
    refine ⟨trivial, stored.added apt untagged, fun fixed => ?_⟩
    have room := (stored.fixed fixed).2
    cases octets with
    | nil => simpa [atEnd] using room
    | cons =>
      have more := strict (by simp) fixed
      simp only [isEmpty_cons, Bool.not_false, Bool.toNat_true]
      omega
  · intro fixed _ room
    rw [length_append] at room
    obtain ⟨res, o', length, positive, rfl⟩ := @returns_lengthOctets_room o octets.length fixed apt.seated atEnd (by omega)
    rw [berOctetstringEncode]
    cases octets with
    | nil =>
      refine ⟨put (lengthOctets 0) o, length.bind ?_, apt.error⟩
      rw [if_neg (by omega), if_pos length_nil, returns_pure_iff]
      exact ⟨rfl, rfl⟩
    | cons b rest =>
      refine ⟨put (b :: rest) (put (lengthOctets (b :: rest).length) o), length.bind ?_, apt.error⟩
      rw [if_neg (by omega), if_neg (by simp)]
      simp only [isEmpty_cons, Bool.not_false, Bool.toNat_true] at room
      exact returns_write_behind apt fixed _ (by omega)

theorem contentsFit_bitstring (bits : List UInt8) :
    ContentsFit (berBitstringEncode bits) (lengthOctets (bits.length + 1) ++ 0 :: bits) (!bits.isEmpty) True := by
  intro o apt untagged
  have atEnd := apt.atEnd
  have same : lengthOctets (bits.length + 1) ++ 0 :: bits = lengthOctets (bits.length + 1) ++ [0] ++ bits := by simp
  rw [same]
  constructor
  · rintro o' ⟨h, noError⟩
    obtain ⟨stored, strict⟩ := stored_berBitstringEncode apt.seated atEnd h noError
    refine ⟨trivial, stored.added apt untagged, fun fixed => ?_⟩
    have room := (stored.fixed fixed).2
    cases bits with
    | nil => simpa [atEnd] using room
    | cons =>
      have more := strict (by simp) fixed
      simp only [isEmpty_cons, Bool.not_false, Bool.toNat_true]
      omega
  · intro fixed _ room
    rw [length_append, length_append, length_singleton] at room
    obtain ⟨res, o', length, positive, rfl⟩ :=
      @returns_lengthOctets_room o (bits.length + 1) fixed apt.seated atEnd (by omega)
    have unused : Returns (odrPutc 0) (put (lengthOctets (bits.length + 1)) o) true
        (put (lengthOctets (bits.length + 1) ++ [0]) o) := by
      rw [← put_put (Nat.le_trans apt.seated.position apt.inside)]
      apply returns_odrPutc_room
      simp only [put]
      omega
    rw [berBitstringEncode]
    cases bits with
    | nil =>
      refine ⟨put (lengthOctets (0 + 1) ++ [0]) o, length.bind ?_, apt.error⟩
      rw [if_neg (by omega)]
      refine unused.bind ?_
      rw [if_pos rfl, if_pos length_nil, returns_pure_iff]
      exact ⟨rfl, rfl⟩
    | cons b rest =>
      refine ⟨put (b :: rest) (put (lengthOctets ((b :: rest).length + 1) ++ [0]) o), length.bind ?_, apt.error⟩
      rw [if_neg (by omega)]
      refine unused.bind ?_
      rw [if_pos rfl, if_neg (by simp)]
      simp only [isEmpty_cons, Bool.not_false, Bool.toNat_true] at room
      exact returns_write_behind apt fixed _ (by rw [length_append, length_singleton]; omega)

theorem returns_oidPutGroups_room {ids : List Int} (nonneg : ∀ id ∈ ids, 0 ≤ id) (seated : o.Seated)
    (room : o.pos + (ids.flatMap fun id => base128 5 id.toNat []).length ≤ o.size) :
    Returns (oidPutGroups ids) o true (put (ids.flatMap fun id => base128 5 id.toNat []) o) := by
  induction ids generalizing o with
  | nil =>
    rw [oidPutGroups, returns_pure_iff, flatMap_nil, put_nil seated.position]
    exact ⟨rfl, rfl⟩
  | cons id _ ih =>
    rw [forall_mem_cons] at nonneg
    rw [flatMap_cons, length_append] at room
    have first := @returns_odrPutAll_room o (base128 5 id.toNat []) seated (by omega)
    have seated' : (put (base128 5 id.toNat []) o).Seated := seated.put fun _ => by omega
    rw [oidPutGroups, if_neg (by omega), flatMap_cons]
    refine first.bind ?_
    rw [if_pos rfl, ← put_put (Nat.le_trans seated.position seated.inside)]
    exact ih nonneg.2 seated' (by simp only [put]; omega)

theorem contentsFit_oid (arcs : List Int) : ContentsFit (berOidcEncode arcs)
    (lengthOctets (oidOctets arcs).length ++ oidOctets arcs) false (OidEncodable arcs) := by
  intro o apt untagged
  have atEnd := apt.atEnd
  constructor
  · rintro o' ⟨h, noError⟩
    obtain ⟨rewritten, encodable⟩ := stored_berOidcEncode apt.seated h
    have stored := rewritten.stored atEnd
    rw [lengthOctets_short encodable.short]
    refine ⟨encodable, stored.added apt untagged, fun fixed => ?_⟩
    have room := (stored.fixed fixed).2
    simpa [atEnd] using room
  · rintro fixed ⟨valid, nonneg, short⟩ room
    rw [lengthOctets_short short, singleton_append, Bool.toNat_false, ← atEnd] at room
    have inside := Nat.le_trans apt.seated.position apt.inside
    obtain ⟨seek, putc, seekEnd⟩ := @returns_patch_room o 0 (UInt8.ofNat (oidOctets arcs).length) (oidOctets arcs) fixed
      apt.seated room
    rw [length_cons] at room
    have place : Returns (odrPutc 0) o true (put [0] o) := returns_odrPutc_room (by omega)
    have seated : (put [0] o).Seated := apt.seated.put fun _ => by rw [length_singleton]; omega
    have groups : Returns (oidPutGroups (oidIds arcs)) (put [0] o) true (put (0 :: oidOctets arcs) o) := by
      have written := returns_oidPutGroups_room nonneg seated (by
        simp only [put, length_singleton]
        rw [oidOctets] at room
        omega)
      rw [put_put inside] at written
      exact written
    have count : (put (0 :: oidOctets arcs) o).pos - o.pos - 1 = (oidOctets arcs).length := by
      simp only [put, length_cons]
      omega
    have length : Returns (berEnclen (oidOctets arcs).length 1 true) ((put (0 :: oidOctets arcs) o).seek o.pos) 1
        (put [UInt8.ofNat (oidOctets arcs).length] ((put (0 :: oidOctets arcs) o).seek o.pos)) := by
      apply returns_berEnclen_short short (.inl rfl)
      simp only [Handle.seek_pos, Handle.seek_size, put]
      omega
    refine ⟨(put (UInt8.ofNat (oidOctets arcs).length :: oidOctets arcs) o).seek
      (put (UInt8.ofNat (oidOctets arcs).length :: oidOctets arcs) o).top, ?_, apt.error⟩
    rw [berOidcEncode, returns_get_bind_iff]
    refine place.bind ?_
    rw [if_pos rfl, if_neg valid]
    refine groups.bind ?_
    rw [if_pos rfl, returns_get_bind_iff, count]
    refine seek.bind (length.bind ?_)
    rw [if_neg (by simp)]
    refine seekEnd.bind ?_
    rw [returns_pure_iff]
    exact ⟨rfl, rfl⟩

end Yaz.Odr
