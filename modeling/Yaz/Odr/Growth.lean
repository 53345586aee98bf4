import Yaz.Odr.Storing

/-! The size of the buffer an encoder writes to.

`odr_write` tests that the position stays an `int`. `odr_grow_block` adds to the size, and the larger of the size and of what is
asked for is added, so that the size can pass an `int` where the position does not.
-/

set_option autoImplicit false

namespace Yaz.Odr
open List Yaz.Foundation Yaz.Ber Run

inductive Whence where
  | set
  | cur
  | top
  deriving DecidableEq

def Whence.base (o : Handle) : Whence → Int
  | .set => 0
  | .cur => o.pos
  | .top => o.top

/-- `odr_seek`. A sum that is no `int` is undefined; an offset below 0 becomes the position, which then is outside the memory. -/
def odrSeekBy (whence : Whence) (offset : Int) : Codec Bool := do
  let o ← Run.get
  let target := offset + whence.base o
  if target < -(intMax + 1) ∨ intMax < target then Run.stop .undefined
  else if target < 0 then Run.stop .outOfRange
  else odrSeek target.toNat

inductive BufferCall where
  | write (octets : List UInt8)
  | putc (c : UInt8)
  | seek (whence : Whence) (offset : Int)

namespace BufferCall

def run : BufferCall → Codec Bool
  | write octets => odrWrite octets
  | putc c => odrPutc c
  | seek whence offset => odrSeekBy whence offset

/-- The octets that are stored at the position. -/
def bytes : BufferCall → Nat
  | write octets => octets.length
  | putc _ => 1
  | seek _ _ => 0

/-- The test of `odr_write`. -/
def Guarded (o : Handle) : BufferCall → Prop
  | write octets => o.pos + octets.length ≤ intMax
  | _ => True

end BufferCall

/-- The size after `odr_grow_block`. -/
def Handle.grown (o : Handle) (minBytes : Nat) : Nat := o.size + max (if o.size = 0 then 1024 else o.size) minBytes

/-- Where the memory must grow, its new size is an `int`; a seek stays in what was written. -/
def BufferCall.Fits (o : Handle) : BufferCall → Prop
  | write octets => o.size ≤ o.pos + octets.length → o.grown octets.length ≤ intMax
  | putc _ => o.size ≤ o.pos → o.grown 1 ≤ intMax
  | seek whence offset => 0 ≤ offset + whence.base o ∧ offset + whence.base o ≤ o.top

structure Handle.Sound (o : Handle) : Prop where
  grows : o.canGrow = true
  atMost : o.pos ≤ o.top
  inside : o.top ≤ o.size
  int : o.size ≤ intMax
  written : o.buf.length = o.top

/-- The call succeeds, with no `int` passed on the way: what it stores is inside the memory, and the rest of what was written is left
as it was. -/
def BufferCall.Holds (o : Handle) (call : BufferCall) : Prop :=
  ∃ o', Returns call.run o true o' ∧ o'.Sound ∧ o.pos + call.bytes ≤ o'.size ∧
    ∀ i < o.top, i < o.pos ∨ o.pos + call.bytes ≤ i → o'.buf[i]? = o.buf[i]?

/-- The states of an encoder from its creation on, through calls that fit where they pass the test. -/
inductive Reaches : Handle → Prop where
  | created : Reaches encoding
  | call {o o' : Handle} {r : Bool} (before : Reaches o) (call : BufferCall) (fits : call.Guarded o → call.Fits o)
      (done : Returns call.run o r o') : Reaches o'

variable {o o' : Handle} {octets : List UInt8} {call : BufferCall}

def Handle.roomy (o : Handle) (needed : Bool) (n : Nat) : Handle := if needed then o.resize (o.grown n) else o

theorem returns_growIf_iff (grows : o.canGrow = true) (needed : Bool) (n : Nat) :
    Returns (growIf needed n) o true o' ↔ (needed = true → o.grown n ≤ intMax) ∧ o' = o.roomy needed n := by
  cases needed with
  | false => simp [growIf, Handle.roomy, eq_comm]
  | true =>
    rw [growIf, if_pos rfl, odrGrowBlock, returns_get_bind_iff, grows, returns_ite_iff, if_neg (by simp)]
    dsimp only
    rw [← Handle.grown, returns_ite_iff]
    by_cases passed : intMax < o.grown n
    · rw [if_pos passed]
      exact iff_of_false (not_returns_stop _ _ _ _) fun kept => absurd (kept.1 rfl) (Nat.not_le.mpr passed)
    · rw [if_neg passed, returns_modify_bind_iff, returns_pure_iff]
      constructor
      · rintro ⟨-, rfl⟩
        exact ⟨fun _ => Nat.not_lt.mp passed, rfl⟩
      · rintro ⟨-, rfl⟩
        exact ⟨rfl, rfl⟩

theorem store_elsewhere {buf : List UInt8} {pos i : Nat} (inside : pos ≤ buf.length) (outside : i < pos ∨ pos + octets.length ≤ i) :
    (store buf pos octets)[i]? = buf[i]? := by
  have front : (buf.take pos ++ octets).length = pos + octets.length := by
    rw [length_append, length_take, Nat.min_eq_left inside]
  rcases outside with before | behind
  · rw [store, append_assoc, getElem?_append_left (by rw [length_take]; omega), getElem?_take_of_lt before]
  · rw [store, getElem?_append_right (by omega), front, getElem?_drop]
    congr 1
    omega

theorem Handle.Sound.put (sound : o.Sound) {size : Nat} (room : o.pos + octets.length ≤ size) (larger : o.size ≤ size)
    (int : size ≤ intMax) : ((put octets o).resize size).Sound where
  grows := sound.grows
  atMost := Nat.le_max_right ..
  inside := Nat.max_le.mpr ⟨sound.inside.trans larger, room⟩
  int := int
  written := by
    have inside := sound.atMost
    rw [← sound.written] at inside
    exact (store_length inside octets).trans (by rw [sound.written]; rfl)

theorem Handle.Sound.elsewhere (sound : o.Sound) :
    ∀ i < o.top, i < o.pos ∨ o.pos + octets.length ≤ i → (Odr.put octets o).buf[i]? = o.buf[i]? := by
  intro i _ outside
  exact store_elsewhere (sound.written ▸ sound.atMost) outside

theorem returns_growIf_put_iff (grows : o.canGrow = true) (needed : Bool) (n : Nat) (failed : Codec Bool) :
    Returns (growIf needed n >>= fun grown => if grown then (do Run.modify (put octets); pure true) else failed) o true o' ↔
      (needed = true → o.grown n ≤ intMax) ∧ o' = put octets (o.roomy needed n) := by
  rw [returns_bind_iff]
  constructor
  · rintro ⟨grown, middle, first, h⟩
    obtain ⟨rfl, -⟩ := growIf_returns grows first
    obtain ⟨fits, rfl⟩ := (returns_growIf_iff grows needed n).mp first
    exact ⟨fits, h.2.symm⟩
  · rintro ⟨fits, rfl⟩
    refine ⟨true, _, (returns_growIf_iff grows needed n).mpr ⟨fits, rfl⟩, ?_⟩
    rw [if_pos rfl, returns_modify_bind_iff, returns_pure_iff]
    exact ⟨rfl, rfl⟩

theorem returns_odrPutc_iff (grows : o.canGrow = true) (c : UInt8) :
    Returns (odrPutc c) o true o' ↔
      (decide (o.size ≤ o.pos) = true → o.grown 1 ≤ intMax) ∧ o' = put [c] (o.roomy (decide (o.size ≤ o.pos)) 1) := by
  rw [odrPutc, returns_get_bind_iff, returns_ite_iff]
  by_cases spare : o.pos < o.size
  · rw [if_pos spare, decide_eq_false (Nat.not_le.mpr spare), returns_modify_bind_iff, returns_pure_iff]
    simp [Handle.roomy, eq_comm]
  · rw [if_neg spare, decide_eq_true (Nat.not_lt.mp spare)]
    exact returns_growIf_put_iff grows true 1 _

theorem returns_odrWrite_iff (grows : o.canGrow = true) (guarded : o.pos + octets.length ≤ intMax) :
    Returns (odrWrite octets) o true o' ↔
      (decide (o.size ≤ o.pos + octets.length) = true → o.grown octets.length ≤ intMax) ∧
        o' = put octets (o.roomy (decide (o.size ≤ o.pos + octets.length)) octets.length) := by
  rw [odrWrite, returns_get_bind_iff, returns_ite_iff, if_neg (Nat.not_lt.mpr guarded)]
  exact returns_growIf_put_iff grows _ _ _

/-- What stores after it has made room. -/
theorem holds_put_iff (call : BufferCall) (sound : o.Sound) {needed : Bool} {n : Nat}
    (returns : ∀ o', Returns call.run o true o' ↔ (needed = true → o.grown n ≤ intMax) ∧ o' = put octets (o.roomy needed n))
    (bytes : call.bytes = octets.length) (enough : octets.length ≤ n) (spare : needed = false → o.pos + octets.length ≤ o.size) :
    call.Holds o ↔ (needed = true → o.grown n ≤ intMax) := by
  constructor
  · rintro ⟨o', returned, -⟩
    exact ((returns o').mp returned).1
  · intro fits
    have atMost := sound.atMost
    have inside := sound.inside
    refine ⟨_, (returns _).mpr ⟨fits, rfl⟩, ?_⟩
    rw [bytes]
    cases needed with
    | false => exact ⟨sound.put (spare rfl) (le_refl _) sound.int, spare rfl, sound.elsewhere⟩
    | true =>
      have larger : o.size ≤ o.grown n := Nat.le_add_right ..
      have room : o.pos + octets.length ≤ o.grown n := by
        unfold Handle.grown
        omega
      exact ⟨sound.put room larger (fits rfl), room, sound.elsewhere⟩

theorem holds_seek_iff (sound : o.Sound) (whence : Whence) (offset : Int) :
    (BufferCall.seek whence offset).Holds o ↔ (BufferCall.seek whence offset).Fits o := by
  have inside := sound.inside
  have int := sound.int
  rw [BufferCall.Fits]
  generalize target : offset + whence.base o = place
  have run : ∀ o', Returns (BufferCall.seek whence offset).run o true o' ↔
      0 ≤ place ∧ place ≤ intMax ∧ Returns (odrSeek place.toNat) o true o' := by
    intro o'
    rw [BufferCall.run, odrSeekBy, returns_get_bind_iff, target]
    rw [returns_ite_iff, returns_ite_iff]
    split
    · refine iff_of_false (not_returns_stop _ _ _ _) ?_
      omega
    · split
      · refine iff_of_false (not_returns_stop _ _ _ _) ?_
        omega
      · constructor
        · exact fun returned => ⟨by omega, by omega, returned⟩
        · exact fun h => h.2.2
  constructor
  · rintro ⟨o', returned, after, -⟩
    obtain ⟨positive, -, sought⟩ := (run o').mp returned
    obtain ⟨-, size, rfl⟩ := odrSeek_returns sound.grows sought
    have atMost := after.atMost
    simp only [Handle.resize, Handle.seek] at atMost
    omega
  · rintro ⟨positive, written⟩
    refine ⟨o.seek place.toNat, (run _).mpr ⟨positive, by omega, ?_⟩, ?_, ?_, fun _ _ _ => rfl⟩
    · rw [odrSeek, returns_get_bind_iff, decide_eq_false (by omega)]
      simp [growIf, Handle.seek]
    · refine ⟨sound.grows, ?_, inside, int, sound.written⟩
      rw [Handle.seek_pos, Handle.seek_top]
      omega
    · exact sound.atMost.trans inside

theorem holds_iff (sound : o.Sound) (guarded : call.Guarded o) : call.Holds o ↔ call.Fits o := by
  cases call with
  | write octets =>
    rw [holds_put_iff (.write octets) sound (fun o' => returns_odrWrite_iff sound.grows guarded) rfl (le_refl _) ?_]
    · rw [decide_eq_true_iff]
      rfl
    · intro spare
      rw [decide_eq_false_iff_not] at spare
      omega
  | putc c =>
    rw [holds_put_iff (.putc c) sound (fun o' => returns_odrPutc_iff sound.grows c) rfl (le_refl _) ?_]
    · rw [decide_eq_true_iff]
      rfl
    · intro spare
      rw [decide_eq_false_iff_not] at spare
      simp only [length_singleton]
      omega
  | seek whence offset => exact holds_seek_iff sound whence offset

theorem Handle.Sound.after_call {r : Bool} (sound : o.Sound) (call : BufferCall) (fits : call.Guarded o → call.Fits o)
    (done : Returns call.run o r o') : o'.Sound := by
  by_cases guarded : call.Guarded o
  · obtain ⟨after, returned, holds, -⟩ := (holds_iff sound guarded).mpr (fits guarded)
    obtain ⟨-, rfl⟩ := done.unique returned
    exact holds
  · cases call with
    | write =>
      rw [BufferCall.run, odrWrite, returns_get_bind_iff, returns_ite_iff, if_pos (Nat.not_le.mp guarded), returns_odrSeterror_bind_iff,
        returns_pure_iff] at done
      obtain ⟨-, rfl⟩ := done
      exact ⟨sound.grows, sound.atMost, sound.inside, sound.int, sound.written⟩
    | _ => exact absurd trivial guarded

theorem sound_encoding : encoding.Sound := ⟨rfl, le_refl _, le_refl _, by decide, rfl⟩

/-- In every state an encoder reaches through calls that fit, a call does what it should exactly where it fits. -/
theorem growth_sound_iff (reached : Reaches o) : o.Sound ∧ ∀ call : BufferCall, call.Guarded o → (call.Holds o ↔ call.Fits o) := by
  induction reached with
  | created => exact ⟨sound_encoding, fun _ guarded => holds_iff sound_encoding guarded⟩
  | call _ call fits done ih =>
    have after := ih.1.after_call call fits done
    exact ⟨after, fun _ guarded => holds_iff after guarded⟩

theorem growth_sound_seek : ∃ o : Handle, o.top = 3 ∧ o.pos = 1 ∧ o.Sound ∧ ∀ call : BufferCall, call.Guarded o →
    (call.Holds o ↔ call.Fits o) := by
  have written : Returns (BufferCall.write [1, 2, 3]).run encoding true (put [1, 2, 3] (encoding.roomy true 3)) :=
    (returns_odrWrite_iff rfl (by decide)).mpr ⟨fun _ => by decide, rfl⟩
  have sought : Returns (BufferCall.seek .set 1).run (put [1, 2, 3] (encoding.roomy true 3)) true
    ((put [1, 2, 3] (encoding.roomy true 3)).seek 1) :=
    ⟨rfl, rfl⟩
  exact ⟨_, rfl, rfl, growth_sound_iff ((Reaches.created.call (.write [1, 2, 3]) (fun _ _ => by decide) written).call (.seek .set 1)
    (fun _ => ⟨by decide, by decide⟩) sought)⟩

/-- One octet, and then as many as the test lets pass. -/
theorem growth_overflow :
    ∃ o, Reaches o ∧ o.Sound ∧ ∃ octets : List UInt8, (BufferCall.write octets).Guarded o ∧ ¬ (BufferCall.write octets).Holds o := by
  have first : Returns (BufferCall.putc 0).run encoding true (put [0] (encoding.roomy true 1)) :=
    (returns_odrPutc_iff rfl 0).mpr ⟨fun _ => by decide, rfl⟩
  have reached := Reaches.created.call (.putc 0) (fun _ _ => by decide) first
  have sound := sound_encoding.after_call (.putc 0) (fun _ _ => by decide) first
  refine ⟨_, reached, sound, replicate (2 ^ 31 - 2) 0, ?_, ?_⟩
  · rw [BufferCall.Guarded, length_replicate]
    decide
  · rw [holds_iff sound (by rw [BufferCall.Guarded, length_replicate]; decide), BufferCall.Fits, length_replicate]
    decide

end Yaz.Odr
