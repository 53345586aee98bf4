import Mathlib.Data.List.Basic
import Mathlib.Data.BitVec
import Mathlib.Tactic.Ring

/-! Identifier, length and INTEGER octets of the Basic Encoding Rules, as
`ber_tag.c`, `ber_len.c` and `ber_int.c` read and write them.

A decoder gets the memory from its pointer on and the `max` it was given. Memory
is a list and reading past its end yields `none`, which is not a return value of
the C function: the C function would read a byte that does not belong to the buffer.
-/

set_option autoImplicit false

namespace Yaz.Ber
open List

/-- Two's complement `int`. -/
def wrapInt (x : Int) : Int := Int.bmod x (2 ^ 32)

/-- Two's complement `short`. -/
def wrapShort (x : Int) : Int := Int.bmod x (2 ^ 16)

def intMax : Nat := 2 ^ 31 - 1

/-- `octs[n++] = v & 0x7f; v >>= 7` while `v`, emitted from the last to the first
with the continuation bit on all but the last one emitted. -/
def base128 : Nat → Nat → List UInt8 → List UInt8
  | 0, _, emitted => emitted
  | fuel + 1, v, emitted =>
    let next := UInt8.ofNat (v % 128 + if emitted.isEmpty then 0 else 128) :: emitted
    if v / 128 = 0 then next else base128 fuel (v / 128) next

/-- `struct Odr_ber_tag`. -/
structure BerTag where
  lclass : Int := -1
  ltag : Int := 0
  br : Int := 0
  lcons : Int := 0
  deriving DecidableEq

/-- The `do .. while (b[l++] & 0x80)` loop of `ber_dectag`: return value and tag. -/
def berDectagLoop (max : Int) : List UInt8 → Nat → Int → Option (Int × Int)
  | mem, l, tag =>
    if max ≤ l then some (-1, tag)
    else match mem with
      | [] => none
      | b :: rest =>
        let tag := wrapInt (tag * 128 + (b.toNat % 128 : Nat))
        if 128 ≤ b.toNat then berDectagLoop max rest (l + 1) tag else some (l + 1, tag)

/-- `ber_dectag`: return value, and the cache with the fields the call has set. -/
def berDectag (mem : List UInt8) (max : Int) (cache : BerTag) : Option (Int × BerTag) :=
  if max < 1 then some (-1, cache)
  else match mem with
    | [] => none
    | b :: rest =>
      let cache := { cache with
        lclass := (b.toNat / 64 : Nat), lcons := (b.toNat / 32 % 2 : Nat), ltag := (b.toNat % 32 : Nat) }
      if b.toNat % 32 ≤ 30 then some (1, cache)
      else (berDectagLoop max rest 1 0).map fun (res, tag) => (res, { cache with ltag := tag })

def bigEndian (octets : List UInt8) : Nat := octets.foldl (fun v b => v * 256 + b.toNat) 0

/-- `ber_declen`: return value and `*len`; `*len` is not set when the return value is negative. -/
def berDeclen (mem : List UInt8) (max : Int) : Option (Int × Int) :=
  if max < 1 then some (-1, 0)
  else match mem with
    | [] => none
    | b :: rest =>
      if b.toNat = 0x80 then some (1, -1)
      else if b.toNat < 0x80 then some (1, b.toNat)
      else if b.toNat = 0xff then some (-2, 0)
      else
        let n := b.toNat % 128
        if max ≤ n then some (-1, 0)
        else if 3 < n then some (-2, 0)
        else if rest.length < n then none
        else some (n + 1, bigEndian (rest.take n))

/-- `uval = (uval << 8) + b` over some octets. -/
def shiftIn (uval : BitVec 64) (octets : List UInt8) : BitVec 64 :=
  octets.foldl (fun v b => v <<< 8 + BitVec.ofNat 64 b.toNat) uval

/-- `ber_decinteger`: return value and `*val`. The sign is read from the first content
octet before the length is looked at. -/
def berDecinteger (mem : List UInt8) (max : Int) : Option (Int × BitVec 64) :=
  match berDeclen mem max with
  | none => none
  | some (res, len) =>
    if res < 0 then some (-1, 0)
    else if max < len + res ∨ len < 0 then some (-1, 0)
    else if 8 < len then some (-1, 0)
    else match mem.drop res.toNat with
      | [] => none
      | b :: rest =>
        let filled := if 128 ≤ b.toNat then shiftIn 0 (List.replicate (8 - len.toNat) 0xff) else 0
        if (b :: rest).length < len.toNat then none
        else some (res + len, shiftIn filled ((b :: rest).take len.toNat))

/-- The identifier octets `ber_enctag` emits for a tag that fits its four groups. -/
def enctagOctets (zclass tag : Int) (constructed : Bool) : List UInt8 :=
  let b := (zclass % 4).toNat * 64 + if constructed then 32 else 0
  if tag ≤ 30 then [UInt8.ofNat (b + (tag % 32).toNat)]
  else UInt8.ofNat (b + 31) :: base128 5 tag.toNat []

/-- Length octets from the most to the least significant one: `octs[n++] = len; len >>= 8`
while `len`, emitted backwards. -/
def base256 : Nat → Nat → List UInt8 → List UInt8
  | 0, _, emitted => emitted
  | fuel + 1, v, emitted =>
    let next := UInt8.ofNat (v % 256) :: emitted
    if v / 256 = 0 then next else base256 fuel (v / 256) next

/-- The eight octets `tmp` of `ber_encinteger`. -/
def integerOctets (val : BitVec 64) : List UInt8 :=
  (List.range 8).map fun i => UInt8.ofNat (val.toNat / 256 ^ (7 - i) % 256)

def dropSign : List UInt8 → List UInt8
  | first :: second :: rest =>
    if (first = 0 ∧ second.toNat < 128) ∨ (first = 0xff ∧ 128 ≤ second.toNat) then
      dropSign (second :: rest)
    else first :: second :: rest
  | octets => octets

/-- `while (len >= 2)` of `completeBER_n`, over the children of an element of indefinite
length; `child` is the recursive call. Every child takes at least one octet, so the number of
octets left bounds the number of rounds. -/
def completeChildren (child : List UInt8 → Int) : Nat → List UInt8 → Nat → Int
  | 0, _, _ => 0
  | rounds + 1, b, consumed =>
    if b.length < 2 then 0
    else if b.take 2 = [0, 0] then consumed + 2
    else if child b ≤ 0 then child b
    else completeChildren child rounds (b.drop (child b).toNat) (consumed + (child b).toNat)

/-- `completeBER_n` with `levels` more levels to go before `level > 1000`: 0 incomplete, negative
invalid, otherwise the number of octets of the first element of the buffer. -/
def completeBERWithin : Nat → List UInt8 → Int
  | 0, _ => -1
  | levels + 1, buf =>
    if buf.length < 2 then 0
    else if buf.take 2 = [0, 0] then -1
    else match berDectag buf buf.length {} with
      | none => 0
      | some (res, cache) =>
        if res ≤ 0 then 0
        else match berDeclen (buf.drop res.toNat) (buf.length - res) with
          | none => 0
          | some (lres, ll) =>
            if lres = -2 then -1
            else if lres = -1 then 0
            else
              let header := res.toNat + lres.toNat
              let body := buf.drop header
              if 0 ≤ ll then
                if body.length < ll.toNat then 0 else ll + header
              else if cache.lcons = 0 then -1
              else completeChildren (completeBERWithin levels) body.length body header

def completeBERn (buf : List UInt8) (level : Nat) : Int := completeBERWithin (1001 - level) buf

variable {max : Int} {mem : List UInt8}
attribute [local simp] berDectagLoop completeChildren completeBERWithin

theorem berDectagLoop_append {l : Nat} {tag n tag' : Int}
    (h : berDectagLoop max mem l tag = some (n, tag')) (found : 0 < n) :
    ∃ used rest, mem = used ++ rest ∧ n = l + used.length ∧ n ≤ max ∧
      (∀ rest' max', n ≤ max' → berDectagLoop max' (used ++ rest') l tag = some (n, tag')) ∧
      ∀ (k : Nat) (max' : Int), k < used.length → max' ≤ l + k →
        ∃ partialTag, berDectagLoop max' (used.take k) l tag = some (-1, partialTag) := by
  induction mem generalizing l tag with
  | nil =>
    rw [berDectagLoop] at h
    split at h
    · simp only [Option.some.injEq, Prod.mk.injEq] at h; omega
    · simp at h
  | cons b rest ih =>
    rw [berDectagLoop] at h
    split at h
    · simp only [Option.some.injEq, Prod.mk.injEq] at h; omega
    next below =>
      split at h
      next more =>
        obtain ⟨used, tail, rfl, length, bound, stable, short⟩ := ih h
        refine ⟨b :: used, tail, rfl, ?_, bound, ?_, ?_⟩
        · simp only [length_cons]; omega
        · intro rest' max' room
          rw [cons_append, berDectagLoop, if_neg (by omega)]
          rw [if_pos more]
          exact stable rest' max' room
        · intro k max' inside limit
          cases k with
          | zero =>
            rw [take_zero, berDectagLoop, if_pos (by omega)]
            exact ⟨tag, rfl⟩
          | succ k =>
            rw [take_succ_cons, berDectagLoop]
            split
            · exact ⟨tag, rfl⟩
            · apply short k max'
              · simpa using inside
              · omega
      next last =>
        obtain ⟨rfl, rfl⟩ := h
        refine ⟨[b], rest, rfl, by simp, by omega, ?_, ?_⟩
        · intro rest' max' room
          rw [singleton_append, berDectagLoop, if_neg (by omega)]
          rw [if_neg last]
        · intro k max' inside limit
          obtain rfl : k = 0 := by simpa using inside
          rw [take_zero, berDectagLoop, if_pos (by omega)]
          exact ⟨tag, rfl⟩

/-- The cache after reading the identifier that `found` holds. -/
def BerTag.reading (cache found : BerTag) : BerTag :=
  { cache with lclass := found.lclass, ltag := found.ltag, lcons := found.lcons }

/-- A successful `ber_dectag` depends on the octets it consumes only, and every proper prefix of
these is an incomplete identifier. -/
theorem berDectag_append {cache cache' : BerTag} {n : Int}
    (h : berDectag mem max cache = some (n, cache')) (found : 0 < n) :
    ∃ used rest, mem = used ++ rest ∧ n = used.length ∧ n ≤ max ∧
      (∀ rest' max' other, n ≤ max' →
        berDectag (used ++ rest') max' other = some (n, other.reading cache')) ∧
      ∀ (k : Nat) (max' : Int) other, k < used.length → max' ≤ k →
        ∃ broken, berDectag (used.take k) max' other = some (-1, broken) := by
  unfold berDectag at h
  split at h
  · simp only [Option.some.injEq, Prod.mk.injEq] at h; omega
  next room =>
    cases mem with
    | nil => simp at h
    | cons b rest =>
      dsimp only at h
      split at h
      next short =>
        obtain ⟨rfl, rfl⟩ := h
        refine ⟨[b], rest, rfl, rfl, by omega, ?_, ?_⟩
        · intro rest' max' other room'
          rw [singleton_append, berDectag, if_neg (by omega)]
          simp only [short, if_true, BerTag.reading]
        · intro k max' other inside limit
          obtain rfl : k = 0 := by simpa using inside
          exact ⟨other, by rw [take_zero, berDectag, if_pos (by omega)]⟩
      next long =>
        rw [Option.map_eq_some_iff] at h
        obtain ⟨⟨res, tag⟩, loop, same⟩ := h
        obtain ⟨rfl, rfl⟩ := same
        obtain ⟨used, tail, rfl, length, bound, stable, short⟩ := berDectagLoop_append loop found
        refine ⟨b :: used, tail, rfl, by simp only [length_cons]; omega, bound, ?_, ?_⟩
        · intro rest' max' other room'
          rw [cons_append, berDectag, if_neg (by omega)]
          simp only [long, if_false, stable rest' max' room', Option.map_some, BerTag.reading]
        · intro k max' other inside limit
          cases k with
          | zero => exact ⟨other, by rw [take_zero, berDectag, if_pos (by omega)]⟩
          | succ k =>
            rw [take_succ_cons, berDectag]
            split
            · exact ⟨other, rfl⟩
            · obtain ⟨partialTag, incomplete⟩ := short k max' (by simpa using inside) (by omega)
              simp only [incomplete, Option.map_some]
              exact ⟨_, rfl⟩

theorem bigEndian_append (front back : List UInt8) :
    bigEndian (front ++ back) = bigEndian front * 256 ^ back.length + bigEndian back := by
  induction back using List.reverseRecOn with
  | nil => simp [bigEndian]
  | append_singleton _ _ ih =>
    rw [← append_assoc]
    simp only [bigEndian, foldl_append, foldl_cons, foldl_nil] at ih ⊢
    rw [ih, length_append, length_singleton, Nat.pow_succ]
    ring

theorem bigEndian_lt (octets : List UInt8) : bigEndian octets < 256 ^ octets.length := by
  induction octets using List.reverseRecOn with
  | nil => simp [bigEndian]
  | append_singleton _ b ih =>
    have := b.toNat_lt
    rw [bigEndian_append, length_append, length_singleton, Nat.pow_succ]
    simp only [bigEndian, foldl_cons, foldl_nil] at ih ⊢
    omega

theorem berDeclen_isSome (inside : max ≤ mem.length) :
    (berDeclen mem max).isSome := by
  unfold berDeclen
  split
  · rfl
  · cases mem with
    | nil => simp only [length_nil, Nat.cast_zero] at inside; omega
    | cons =>
      simp only [length_cons, Nat.cast_add, Nat.cast_one] at inside
      dsimp only
      repeat' split
      all_goals first | rfl | omega

/-- A successful `ber_declen` depends on the octets it consumes only, and every proper prefix of
these is an incomplete length. -/
theorem berDeclen_append {n len : Int}
    (h : berDeclen mem max = some (n, len)) (found : 0 ≤ n) :
    ∃ used rest, mem = used ++ rest ∧ used ≠ [] ∧ n = used.length ∧ n ≤ max ∧ n ≤ 4 ∧
      -1 ≤ len ∧ len < 2 ^ 24 ∧
      (∀ rest' max', n ≤ max' → berDeclen (used ++ rest') max' = some (n, len)) ∧
      ∀ (k : Nat) (max' : Int), k < used.length → max' ≤ k →
        berDeclen (used.take k) max' = some (-1, 0) := by
  unfold berDeclen at h
  split at h
  · simp only [Option.some.injEq, Prod.mk.injEq] at h; omega
  next room =>
    cases mem with
    | nil => simp at h
    | cons b rest =>
      dsimp only at h
      -- one octet of length octets, for the indefinite and the short form
      have oneOctet : ∀ len : Int, n = 1 → -1 ≤ len → len < 2 ^ 24 →
          (∀ rest' max', 1 ≤ max' → berDeclen (b :: rest') max' = some (1, len)) →
          ∃ used rest_1, b :: rest = used ++ rest_1 ∧ used ≠ [] ∧ n = used.length ∧ n ≤ max ∧ n ≤ 4 ∧
            -1 ≤ len ∧ len < 2 ^ 24 ∧
            (∀ rest' max', n ≤ max' → berDeclen (used ++ rest') max' = some (n, len)) ∧
            ∀ (k : Nat) (max' : Int), k < used.length → max' ≤ k →
              berDeclen (used.take k) max' = some (-1, 0) := by
        rintro len rfl low high stable
        refine ⟨[b], rest, rfl, by simp, rfl, by omega, by omega, low, high, stable, ?_⟩
        intro k max' inside limit
        obtain rfl : k = 0 := by simpa using inside
        rw [take_zero, berDeclen, if_pos (by omega)]
      split at h
      next indefinite =>
        obtain ⟨rfl, rfl⟩ := h
        refine oneOctet (-1) rfl (by omega) (by omega) fun rest' max' room' => ?_
        rw [berDeclen, if_neg (by omega)]
        simp only [indefinite, if_true]
      next notIndefinite =>
        split at h
        next short =>
          obtain ⟨rfl, rfl⟩ := h
          refine oneOctet b.toNat rfl (by omega) (by omega) fun rest' max' room' => ?_
          rw [berDeclen, if_neg (by omega)]
          simp only [notIndefinite, short, if_true, if_false]
        next notShort =>
          split at h
          · simp only [Option.some.injEq, Prod.mk.injEq] at h; omega
          next notReserved =>
            split at h
            · simp only [Option.some.injEq, Prod.mk.injEq] at h; omega
            next fits =>
              split at h
              · simp only [Option.some.injEq, Prod.mk.injEq] at h; omega
              next small =>
                split at h
                · simp at h
                next enough =>
                  obtain ⟨rfl, rfl⟩ := h
                  have length : (rest.take (b.toNat % 128)).length = b.toNat % 128 := by
                    rw [List.length_take]; omega
                  have bound : bigEndian (rest.take (b.toNat % 128)) < 2 ^ 24 :=
                    calc bigEndian (rest.take (b.toNat % 128))
                        < 256 ^ (rest.take (b.toNat % 128)).length := bigEndian_lt _
                      _ ≤ 256 ^ 3 := Nat.pow_le_pow_right (by omega) (by omega)
                  refine ⟨b :: rest.take (b.toNat % 128), rest.drop (b.toNat % 128),
                    by simp, by simp, ?_, by omega, by omega, by omega, by exact_mod_cast bound, ?_, ?_⟩
                  · simp only [length_cons, length, Nat.cast_add, Nat.cast_one]
                  · intro rest' max' room'
                    have enough' : ¬ (rest.take (b.toNat % 128) ++ rest').length < b.toNat % 128 := by
                      rw [length_append, length]; omega
                    have tail : (rest.take (b.toNat % 128) ++ rest').take (b.toNat % 128) =
                        rest.take (b.toNat % 128) := by
                      rw [take_append_of_le_length (by omega), take_of_length_le (by omega)]
                    rw [cons_append, berDeclen, if_neg (by omega)]
                    simp only [notIndefinite, notShort, notReserved, small, enough', tail, if_false]
                    rw [if_neg (by omega)]
                  · intro k max' inside limit
                    cases k with
                    | zero => rw [take_zero, berDeclen, if_pos (by omega)]
                    | succ =>
                      rw [length_cons, length] at inside
                      rw [take_succ_cons, berDeclen]
                      split
                      · rfl
                      · rw [if_pos (by omega)]

theorem berDecinteger_isSome (inside : max ≤ mem.length)
    (nonempty : berDeclen mem max ≠ some (max, 0)) : (berDecinteger mem max).isSome := by
  unfold berDecinteger
  split
  next outside =>
    have := berDeclen_isSome inside
    simp [outside] at this
  next res len read =>
    split
    · rfl
    next good =>
      split
      · rfl
      next fits =>
        split
        · rfl
        next short =>
          cases ahead : mem.drop res.toNat with
          | nil =>
            have room := drop_eq_nil_iff.mp ahead
            obtain ⟨used, rest, same, -, rfl, bound, -⟩ := berDeclen_append read (by omega)
            obtain rfl : len = 0 := by omega
            exact absurd read (by rwa [show (used.length : Int) = max by omega])
          | cons =>
            have length := congrArg List.length ahead
            rw [length_drop] at length
            dsimp only
            rw [if_neg (by omega)]
            rfl

theorem completeChildren_le {child : List UInt8 → Int} (bound : ∀ b, child b ≤ b.length) (rounds : Nat)
    (b : List UInt8) (consumed : Nat) :
    completeChildren child rounds b consumed ≤ (consumed + b.length : Nat) := by
  induction rounds generalizing b consumed with
  | zero => simp only [completeChildren]; omega
  | succ _ ih =>
    rw [completeChildren]
    split
    · omega
    next enough =>
      split
      · omega
      · split
        · omega
        next progress =>
          have here := bound b
          have later := ih (b.drop (child b).toNat) (consumed + (child b).toNat)
          rw [length_drop] at later
          omega

theorem completeBERWithin_le (levels : Nat) (buf : List UInt8) :
    completeBERWithin levels buf ≤ buf.length := by
  induction levels generalizing buf with
  | zero => simp only [completeBERWithin]; omega
  | succ _ ih =>
    rw [completeBERWithin]
    split
    · omega
    · split
      · omega
      · split
        · omega
        next res cache tag =>
          split
          · omega
          next found =>
            split
            · omega
            next lres ll length =>
              split
              · omega
              · split
                · omega
                · have tagBound : res ≤ buf.length := by
                    obtain ⟨used, rest, same, rfl, bound, -⟩ := berDectag_append tag (by omega)
                    exact bound
                  have lengthBound : lres ≤ buf.length - res := by
                    by_cases positive : 0 ≤ lres
                    · obtain ⟨used, rest, same, nonempty, rfl, bound, -⟩ := berDeclen_append length positive
                      exact bound
                    · omega
                  dsimp only
                  split
                  · split
                    · omega
                    next room => rw [length_drop] at room; omega
                  · split
                    · omega
                    · have children := completeChildren_le ih (buf.drop (res.toNat + lres.toNat)).length
                        (buf.drop (res.toNat + lres.toNat)) (res.toNat + lres.toNat)
                      rw [length_drop] at children ⊢
                      omega

end Yaz.Ber
