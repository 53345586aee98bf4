import Yaz.Cql.Xcql

/-! XML of a CQL tree in a buffer: when the text is there whole, and when nothing is written behind the buffer. -/

set_option autoImplicit false

namespace Yaz.Cql.Xcql
open List

/-- What `cql_to_xml_buf` is to do with a text. -/
def Delivers (text : List UInt8) (out : OutBuffer) (info : BufWriteInfo) : Prop :=
  info.outside = false ∧
    if (text.length : Int) < out.max then info.off = text.length ∧ info.buf.take (text.length + 1) = text ++ [0] else info.off = -1

/-- A string begins in front of `max` and ends where an `int` does not reach. -/
def Overflows (pieces : List (List UInt8)) (max : Int) : Prop :=
  ∃ front piece rest, pieces = front ++ piece :: rest ∧ (front.flatten.length : Int) < max ∧
    2 ^ 31 ≤ front.flatten.length + piece.length

/-! ### One string -/

theorem int32_eq {n : Int} (low : -2 ^ 31 ≤ n) (high : n < 2 ^ 31) : int32 n = n := by
  rw [int32]
  exact Int.bmod_eq_of_le (by omega) (by omega)

theorem int32_neg {n : Int} (low : 2 ^ 31 ≤ n) (high : n < 2 ^ 32) : int32 n < 0 := by
  rw [int32, Int.bmod_def, Int.emod_eq_of_lt (by omega) (by omega), if_neg (by omega)]
  omega

structure Written (out : OutBuffer) (info : BufWriteInfo) (front : List UInt8) : Prop where
  length : info.buf.length = out.max.toNat
  inside : info.outside = false
  off : info.off = front.length
  room : (front.length : Int) < out.max
  text : info.buf.take front.length = front

structure Stopped (info : BufWriteInfo) : Prop where
  inside : info.outside = false
  off : info.off = -1

variable {out : OutBuffer}

theorem Written.start (room : 0 < out.max) : Written out { off := 0, buf := out.octets, outside := false } [] :=
  { length := out.size, inside := rfl, off := rfl, room := room, text := rfl }

variable (info : BufWriteInfo) {b : List UInt8}

theorem copy_length (fits : info.off.toNat + b.length ≤ info.buf.length) :
    (info.copy b).buf.length = info.buf.length := by
  rw [BufWriteInfo.copy]
  simp only [List.length_take, length_append, length_drop]
  omega

theorem copy_inside (fits : info.off.toNat + b.length ≤ info.buf.length) :
    (info.copy b).outside = info.outside := by
  rw [BufWriteInfo.copy]
  rw [decide_eq_false (by omega), Bool.or_false]

theorem copy_take (fits : info.off.toNat + b.length ≤ info.buf.length) :
    (info.copy b).buf.take (info.off.toNat + b.length) = info.buf.take info.off.toNat ++ b := by
  rw [BufWriteInfo.copy]
  rw [take_take, Nat.min_eq_left fits]
  have front : info.off.toNat + b.length = (info.buf.take info.off.toNat ++ b).length := by
    rw [length_append, List.length_take]
    omega
  rw [front]
  exact take_left

variable {info : BufWriteInfo}

theorem Written.write {front piece : List UInt8} (written : Written out info front)
    (room : ((front ++ piece).length : Int) < out.max) : Written out (cqlBufWriteHandler out.max info piece) (front ++ piece) := by
  have off := written.off
  have high := out.int.2
  have length := written.length
  have total : ((front ++ piece).length : Int) = info.off + piece.length := by
    rw [length_append, off]
    exact Int.natCast_add _ _
  have same : int32 (info.off + piece.length) = ((front ++ piece).length : Int) := by
    rw [total]
    exact int32_eq (by omega) (by omega)
  have fits : info.off.toNat + piece.length ≤ info.buf.length := by omega
  rw [cqlBufWriteHandler]
  rw [same, if_neg (by omega)]
  refine ⟨(copy_length info fits).trans length, (copy_inside info fits).trans written.inside, rfl, room, ?_⟩
  have here : info.off.toNat = front.length := by omega
  have text := copy_take info fits
  rw [here, written.text, ← length_append] at text
  exact text

theorem stop_write {max : Int} {piece : List UInt8} (inside : info.outside = false) (low : 0 ≤ info.off)
    (full : max ≤ info.off + piece.length) (reached : info.off + piece.length < 2 ^ 31) : Stopped (cqlBufWriteHandler max info piece) := by
  rw [cqlBufWriteHandler]
  rw [int32_eq (by omega) reached, if_pos (.inr full)]
  exact ⟨inside, rfl⟩

theorem Stopped.write (stopped : Stopped info) (max : Int) (piece : List UInt8) :
    Stopped (cqlBufWriteHandler max info piece) := by
  have negative : info.off < 0 := by
    rw [stopped.off]
    decide
  rw [cqlBufWriteHandler]
  rw [if_pos (.inl negative)]
  exact ⟨stopped.inside, rfl⟩

theorem Written.overflow {front piece : List UInt8} (written : Written out info front)
    (short : piece.length ≤ 32) (spills : 2 ^ 31 ≤ front.length + piece.length) :
      (cqlBufWriteHandler out.max info piece).outside = true := by
  have off := written.off
  have high := out.int.2
  have room := written.room
  have length := written.length
  have negative : int32 (info.off + piece.length) < 0 := int32_neg (by omega) (by omega)
  have behind : info.buf.length < info.off.toNat + piece.length := by omega
  rw [cqlBufWriteHandler]
  rw [if_neg (by omega), BufWriteInfo.copy]
  rw [decide_eq_true behind, Bool.or_true]

theorem outside_write (outside : info.outside = true) (max : Int) (piece : List UInt8) :
    (cqlBufWriteHandler max info piece).outside = true := by
  rw [cqlBufWriteHandler]
  split_ifs
  · exact outside
  · rw [BufWriteInfo.copy]
    rw [outside, Bool.true_or]

theorem Stopped.fold (stopped : Stopped info) (max : Int) (pieces : List (List UInt8)) :
    Stopped (pieces.foldl (cqlBufWriteHandler max) info) := by
  induction pieces generalizing info with
  | nil => exact stopped
  | cons piece _ ih => exact ih (stopped.write max piece)

theorem outside_fold (outside : info.outside = true) (max : Int) (pieces : List (List UInt8)) :
    (pieces.foldl (cqlBufWriteHandler max) info).outside = true := by
  induction pieces generalizing info with
  | nil => exact outside
  | cons piece _ ih => exact ih (outside_write outside max piece)

theorem Written.fold {front : List UInt8} (written : Written out info front)
    (pieces : List (List UInt8)) (room : ((front ++ pieces.flatten).length : Int) < out.max) :
    Written out (pieces.foldl (cqlBufWriteHandler out.max) info) (front ++ pieces.flatten) := by
  induction pieces generalizing info front with
  | nil =>
    rw [flatten_nil, append_nil]
    exact written
  | cons piece _ ih =>
    rw [flatten_cons, ← append_assoc] at room ⊢
    have here : ((front ++ piece).length : Int) < out.max := by
      rw [length_append] at room
      omega
    exact ih (written.write here) room

theorem exists_crossing (max : Int) (front : List UInt8) (pieces : List (List UInt8)) (room : (front.length : Int) < max)
    (long : max ≤ ((front ++ pieces.flatten).length : Int)) :
    ∃ before piece rest, pieces = before ++ piece :: rest ∧ ((front ++ before.flatten).length : Int) < max ∧
      max ≤ ((front ++ before.flatten).length : Int) + piece.length := by
  induction pieces generalizing front with
  | nil =>
    rw [flatten_nil, append_nil] at long
    omega
  | cons piece pieces ih =>
    by_cases here : ((front ++ piece).length : Int) < max
    · rw [flatten_cons, ← append_assoc] at long
      obtain ⟨before, crossing, rest, rfl, inFront, behind⟩ := ih (front ++ piece) here long
      rw [append_assoc, ← flatten_cons] at inFront behind
      exact ⟨piece :: before, crossing, rest, rfl, inFront, behind⟩
    · refine ⟨[], piece, pieces, rfl, ?_, ?_⟩
      · rw [flatten_nil, append_nil]
        exact room
      · rw [flatten_nil, append_nil]
        rw [length_append] at here
        omega

theorem overflow_outside (out : OutBuffer) {pieces : List (List UInt8)} (short : ∀ piece ∈ pieces, piece.length ≤ 32)
    (spills : Overflows pieces out.max) :
    (pieces.foldl (cqlBufWriteHandler out.max) { off := 0, buf := out.octets, outside := false }).outside = true := by
  obtain ⟨front, piece, rest, rfl, inFront, spills⟩ := spills
  have start := @Written.start out (by omega)
  have written := start.fold front inFront
  rw [foldl_append, foldl_cons]
  exact outside_fold (written.overflow (short piece (mem_append_right _ mem_cons_self)) spills) out.max rest

theorem long_stopped (out : OutBuffer) {pieces : List (List UInt8)} (short : ∀ piece ∈ pieces, piece.length ≤ 32) (some : pieces ≠ [])
    (spills : ¬Overflows pieces out.max) (long : out.max ≤ (pieces.flatten.length : Int)) :
    Stopped (pieces.foldl (cqlBufWriteHandler out.max) { off := 0, buf := out.octets, outside := false }) := by
  by_cases room : 0 < out.max
  · obtain ⟨before, piece, rest, rfl, inFront, behind⟩ := exists_crossing out.max [] pieces room long
    rw [nil_append] at inFront behind
    have written := (Written.start room).fold before inFront
    rw [nil_append] at written
    have off := written.off
    have reached : ¬2 ^ 31 ≤ before.flatten.length + piece.length := fun past => spills ⟨before, piece, rest, rfl, inFront, past⟩
    rw [foldl_append, foldl_cons]
    exact (stop_write written.inside (by omega) (by omega) (by omega)).fold out.max rest
  · -- there is no room for the first string
    obtain ⟨piece, rest, rfl⟩ := exists_cons_of_ne_nil some
    have first := short piece mem_cons_self
    rw [foldl_cons]
    apply Stopped.fold
    apply stop_write
    · rfl
    · exact Int.le_refl 0
    · dsimp only
      omega
    · dsimp only
      omega

theorem cqlToXmlBuf_delivers_iff (cn : CqlNode) (out : OutBuffer) (short : ∀ piece ∈ cqlToXml cn, piece.length ≤ 32)
    (some : cqlToXml cn ≠ []) : Delivers (cqlToXml cn).flatten out (cqlToXmlBuf cn out) ↔ ¬Overflows (cqlToXml cn) out.max := by
  rw [cqlToXmlBuf]
  generalize cqlToXml cn = pieces at short some
  by_cases spills : Overflows pieces out.max
  · refine iff_of_false ?_ (not_not.mpr spills)
    have outside := overflow_outside out short spills
    rintro ⟨inside, -⟩
    revert inside
    split_ifs
    · rw [BufWriteInfo.copy]
      dsimp only
      rw [outside, Bool.true_or]
      decide
    · rw [outside]
      decide
  · refine iff_of_true ?_ spills
    by_cases fits : (pieces.flatten.length : Int) < out.max
    · -- the text is written, and the octet behind it is there for the NUL
      have written := (Written.start (by omega)).fold pieces fits
      rw [nil_append] at written
      have off := written.off
      have length := written.length
      have nul : (pieces.foldl (cqlBufWriteHandler out.max) { off := 0, buf := out.octets, outside := false }).off.toNat +
        [(0 : UInt8)].length ≤
          (pieces.foldl (cqlBufWriteHandler out.max) { off := 0, buf := out.octets, outside := false }).buf.length := by
        rw [length_singleton]
        omega
      have text := copy_take _ nul
      rw [off, Int.toNat_natCast, written.text] at text
      rw [if_pos (by omega)]
      refine ⟨(copy_inside _ nul).trans written.inside, ?_⟩
      rw [if_pos fits]
      exact ⟨off, text⟩
    · have stopped := long_stopped out short some spills (Int.not_lt.mp fits)
      rw [if_neg (by rw [stopped.off]; decide)]
      refine ⟨stopped.inside, ?_⟩
      rw [if_neg fits]
      exact stopped.off

end Yaz.Cql.Xcql
