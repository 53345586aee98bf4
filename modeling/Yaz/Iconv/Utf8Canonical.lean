import Yaz.Foundation.Positional
import Yaz.Iconv.Encoders
import Mathlib.Tactic.IntervalCases

/-! A code and its UTF-8 octets determine each other.

Behind a first octet with `n` more a code has `n` digits in base 64. The first octet leaves
`6 - n` bits for what is in front of them, and no code has more octets than it needs.
-/

set_option autoImplicit false

namespace Yaz.Iconv
open List Yaz.Foundation

theorem trailingOctets_eq (x n : Nat) :
    trailingOctets x n = (lastDigits 64 x n).map fun d => UInt8.ofNat (d + 0x80) := by
  induction n generalizing x with
  | zero => rfl
  | succ _ ih => simp [trailingOctets, lastDigits_succ, ih]

theorem trailingOctets_length (x n : Nat) : (trailingOctets x n).length = n := by
  simp [trailingOctets_eq]

theorem toNat_trailing {d : Nat} (digit : d < 64) : (UInt8.ofNat (d + 0x80)).toNat = d + 0x80 :=
  UInt8.toNat_ofNat_of_lt' (show d + 0x80 < 256 by omega)

theorem foldl_six (first : Nat) (octets : List UInt8) :
    octets.foldl (fun x c => x * 64 + c.toNat % 64) first = positional 64 first (octets.map (·.toNat % 64)) := by
  rw [positional, foldl_map]

theorem utf8Sequence_trailingOctets {x n least : Nat} (needed : least ≤ x) (following : List UInt8) :
    utf8Sequence (x / 64 ^ n) n least (trailingOctets x n ++ following) =
      { x := x, noRead := n + 1, errno := some .ok } := by
  have digits : ∀ d ∈ lastDigits 64 x n, d < 64 := lastDigits_lt (by omega)
  have taken : (trailingOctets x n ++ following).take n = trailingOctets x n :=
    take_left' (trailingOctets_length x n)
  have marked : (trailingOctets x n).all (fun c => c.toNat / 64 = 2) = true := by
    rw [trailingOctets_eq, all_map, all_eq_true]
    intro d inside
    have digit := digits d inside
    simp only [Function.comp_apply, toNat_trailing digit, decide_eq_true_eq]
    omega
  have read : (trailingOctets x n).map (·.toNat % 64) = lastDigits 64 x n := by
    rw [trailingOctets_eq, map_map]
    refine (map_congr_left fun d inside => ?_).trans (map_id _)
    have digit := digits d inside
    simp only [Function.comp_apply, toNat_trailing digit, id_eq]
    omega
  rw [utf8Sequence, taken, if_pos marked, foldl_six, read, positional_lastDigits, if_pos needed]

theorem utf8Sequence_ok {first n least : Nat} {rest : List UInt8} (within : n ≤ rest.length)
    (ok : (utf8Sequence first n least rest).errno = some .ok) :
    ∃ x, utf8Sequence first n least rest = { x := x, noRead := n + 1, errno := some .ok } ∧ least ≤ x ∧
      x / 64 ^ n = first ∧ trailingOctets x n = rest.take n := by
  rw [utf8Sequence] at ok ⊢
  split at ok
  next marked =>
    rw [if_pos marked]
    dsimp only at ok ⊢
    rw [foldl_six] at ok ⊢
    split at ok
    next needed =>
      rw [if_pos needed]
      have length : ((rest.take n).map (·.toNat % 64)).length = n := by
        rw [length_map, List.length_take, Nat.min_eq_left within]
      have digits : ∀ d ∈ (rest.take n).map (·.toNat % 64), d < 64 := by
        intro d inside
        obtain ⟨c, -, rfl⟩ := mem_map.mp inside
        exact Nat.mod_lt _ (by omega)
      have front : positional 64 first _ / 64 ^ _ = first := positional_div digits
      have written : lastDigits 64 (positional 64 first _) _ = _ := lastDigits_positional digits
      rw [length] at front written
      refine ⟨_, rfl, needed, front, ?_⟩
      rw [trailingOctets_eq, written, map_map]
      refine (map_congr_left fun c inside => ?_).trans (map_id _)
      have high : c.toNat / 64 = 2 := by simpa using all_eq_true.mp marked c inside
      simp only [Function.comp_apply, id_eq]
      rw [show c.toNat % 64 + 0x80 = c.toNat by omega, UInt8.ofNat_toNat]
    · simp at ok
  · simp at ok

/-! ### First octets -/

/-- A first octet with `n` more: ones for all of them, and a zero. -/
def utf8Mark (n : Nat) : Nat := 2 ^ 8 - 2 ^ (7 - n)

/-- The least code that `n` octets behind the first one do not hold. -/
def utf8Limit : Nat → Nat
  | 0 => 0x80
  | n + 1 => 2 ^ (5 * n + 11)

def utf8More (x : Nat) : Nat :=
  if x < utf8Limit 0 then 0
  else if x < utf8Limit 1 then 1
  else if x < utf8Limit 2 then 2
  else if x < utf8Limit 3 then 3
  else if x < utf8Limit 4 then 4
  else 5

def utf8Encoded (x : Nat) : List UInt8 :=
  if utf8More x = 0 then [UInt8.ofNat x] else utf8Octets (utf8Mark (utf8More x)) (utf8More x) x

theorem utf8More_le (x : Nat) : utf8More x ≤ 5 := by
  unfold utf8More
  repeat' split
  all_goals omega

theorem utf8Encoded_length (x : Nat) : (utf8Encoded x).length = utf8More x + 1 := by
  unfold utf8Encoded
  split
  next short => simp [short]
  · simp [utf8Octets, trailingOctets_length]

theorem utf8More_cases (x : Nat) :
    (utf8More x = 0 ∧ x < 0x80) ∨ (utf8More x = 1 ∧ 0x80 ≤ x ∧ x < 0x800) ∨
      (utf8More x = 2 ∧ 0x800 ≤ x ∧ x < 0x10000) ∨ (utf8More x = 3 ∧ 0x10000 ≤ x ∧ x < 0x200000) ∨
      (utf8More x = 4 ∧ 0x200000 ≤ x ∧ x < 0x4000000) ∨ (utf8More x = 5 ∧ 0x4000000 ≤ x) := by
  unfold utf8More utf8Limit
  norm_num
  repeat' split
  all_goals omega

theorem yazWriteUTF8Char_eq (x room : Nat) :
    yazWriteUTF8Char x room = if (utf8Encoded x).length ≤ room then some (utf8Encoded x) else none := by
  rw [utf8Encoded_length, utf8Encoded, yazWriteUTF8Char]
  obtain ⟨more, below⟩ | ⟨more, above, below⟩ | ⟨more, above, below⟩ | ⟨more, above, below⟩ | ⟨more, above, below⟩ |
    ⟨more, above⟩ := utf8More_cases x
  all_goals
    rw [more]
    repeat' split
    all_goals first | rfl | omega

theorem utf8Mark_eq {n : Nat} (few : n ≤ 5) : utf8Mark n = 2 ^ (6 - n) * (2 ^ (n + 2) - 2) := by
  interval_cases n <;> rfl

theorem toNat_first {n f : Nat} (few : n ≤ 5) (fits : f < 2 ^ (6 - n)) :
    (UInt8.ofNat (f ||| utf8Mark n)).toNat = utf8Mark n + f := by
  have bits : f ||| utf8Mark n = utf8Mark n + f := by
    rw [Nat.or_comm, utf8Mark_eq few]
    exact (Nat.two_pow_add_eq_or_of_lt fits _).symm
  have small : utf8Mark n + f < 256 := by
    interval_cases n <;> simp only [utf8Mark] at fits ⊢ <;> omega
  rw [bits]
  exact UInt8.toNat_ofNat_of_lt' small

theorem yazReadUTF8Char_first {n f : Nat} {c : UInt8} (positive : 1 ≤ n) (few : n ≤ 5) (fits : f < 2 ^ (6 - n))
    (first : c.toNat = utf8Mark n + f) (rest : List UInt8) :
    yazReadUTF8Char (c :: rest) =
      if n ≤ rest.length then utf8Sequence f n (utf8Limit (n - 1)) rest
      else { x := 0, noRead := 0, errno := some .einval } := by
  rw [yazReadUTF8Char]
  simp only [UInt8.le_iff_toNat_le, length_cons, UInt8.reduceToNat, first]
  interval_cases n
  all_goals
    simp only [utf8Mark, utf8Limit] at fits ⊢
    norm_num at fits ⊢
    repeat' split
  all_goals first | omega | rfl | (congr 1; omega)

theorem first_fits {x n : Nat} (positive : 1 ≤ n) (few : n ≤ 5) : x / 64 ^ n < 2 ^ (6 - n) ↔ x < utf8Limit n := by
  rw [Nat.div_lt_iff_lt_mul (Nat.pow_pos (by omega))]
  interval_cases n <;> rfl

theorem utf8More_eq {x n : Nat} (positive : 1 ≤ n) (few : n ≤ 5) (needed : utf8Limit (n - 1) ≤ x) (below : x < utf8Limit n) :
    utf8More x = n := by
  have cases := utf8More_cases x
  interval_cases n <;> norm_num [utf8Limit] at needed below <;> omega

theorem utf8More_spec {x : Nat} (small : x < 2 ^ 31) (long : utf8More x ≠ 0) :
    utf8Limit (utf8More x - 1) ≤ x ∧ x < utf8Limit (utf8More x) := by
  obtain ⟨more, -⟩ | ⟨more, above, below⟩ | ⟨more, above, below⟩ | ⟨more, above, below⟩ | ⟨more, above, below⟩ |
    ⟨more, above⟩ := utf8More_cases x
  · exact absurd more long
  all_goals
    rw [more]
    norm_num [utf8Limit]
    omega

theorem yazReadUTF8Char_text {x : Nat} (small : x < 2 ^ 31) (following : List UInt8) :
    yazReadUTF8Char (utf8Encoded x ++ following) = { x := x, noRead := (utf8Encoded x).length, errno := some .ok } := by
  rw [utf8Encoded_length, utf8Encoded]
  by_cases one : utf8More x = 0
  · have cases := utf8More_cases x
    have below : x < 0x80 := by omega
    have octet : (UInt8.ofNat x).toNat = x := UInt8.toNat_ofNat_of_lt' (show x < 256 by omega)
    rw [if_pos one, one, singleton_append, yazReadUTF8Char, if_pos, octet]
    rw [UInt8.le_iff_toNat_le, octet]
    simp only [UInt8.reduceToNat]
    omega
  · have few := utf8More_le x
    obtain ⟨needed, below⟩ := utf8More_spec small one
    have fits := (first_fits (by omega) few).mpr below
    rw [if_neg one, utf8Octets, cons_append,
      yazReadUTF8Char_first (by omega) few fits (toNat_first few fits), if_pos, utf8Sequence_trailingOctets needed]
    rw [length_append, trailingOctets_length]
    omega

theorem yazReadUTF8Char_part {x k : Nat} (small : x < 2 ^ 31) (some_ : 0 < k) (part : k < (utf8Encoded x).length) :
    yazReadUTF8Char ((utf8Encoded x).take k) = { x := 0, noRead := 0, errno := some .einval } := by
  rw [utf8Encoded_length] at part
  obtain ⟨k, rfl⟩ : ∃ j, k = j + 1 := ⟨k - 1, by omega⟩
  have one : utf8More x ≠ 0 := by omega
  have few := utf8More_le x
  obtain ⟨-, below⟩ := utf8More_spec small one
  have fits := (first_fits (by omega) few).mpr below
  rw [utf8Encoded, if_neg one, utf8Octets, take_succ_cons,
    yazReadUTF8Char_first (by omega) few fits (toNat_first few fits), if_neg]
  rw [List.length_take, trailingOctets_length]
  omega

theorem first_cases {c : UInt8} (taken : ¬ (c ≤ 0xbf ∨ 0xfe ≤ c)) :
    ∃ n f, 1 ≤ n ∧ n ≤ 5 ∧ f < 2 ^ (6 - n) ∧ c.toNat = utf8Mark n + f := by
  simp only [UInt8.le_iff_toNat_le, UInt8.reduceToNat] at taken
  by_cases two : c.toNat < 0xe0
  · exact ⟨1, c.toNat - 0xc0, by omega, by omega, by norm_num; omega, by norm_num [utf8Mark]; omega⟩
  by_cases three : c.toNat < 0xf0
  · exact ⟨2, c.toNat - 0xe0, by omega, by omega, by norm_num; omega, by norm_num [utf8Mark]; omega⟩
  by_cases four : c.toNat < 0xf8
  · exact ⟨3, c.toNat - 0xf0, by omega, by omega, by norm_num; omega, by norm_num [utf8Mark]; omega⟩
  by_cases five : c.toNat < 0xfc
  · exact ⟨4, c.toNat - 0xf8, by omega, by omega, by norm_num; omega, by norm_num [utf8Mark]; omega⟩
  · exact ⟨5, c.toNat - 0xfc, by omega, by omega, by norm_num; omega, by norm_num [utf8Mark]; omega⟩

theorem yazReadUTF8Char_ok {inp : List UInt8} (ok : (yazReadUTF8Char inp).errno = some .ok) :
    ∃ x, x < 2 ^ 31 ∧ yazReadUTF8Char inp = { x := x, noRead := (utf8Encoded x).length, errno := some .ok } ∧
      utf8Encoded x = inp.take (utf8Encoded x).length := by
  cases inp with
  | nil => simp [yazReadUTF8Char] at ok
  | cons c =>
    by_cases single : c ≤ 0x7f
    · have below : c.toNat < 0x80 := by
        rw [UInt8.le_iff_toNat_le] at single
        simp only [UInt8.reduceToNat] at single
        omega
      have text : utf8Encoded c.toNat = [c] := by
        rw [utf8Encoded, if_pos (show utf8More c.toNat = 0 from if_pos below), UInt8.ofNat_toNat]
      refine ⟨c.toNat, by omega, ?_, ?_⟩
      · rw [yazReadUTF8Char, if_pos single, text, length_singleton]
      · rw [text, length_singleton, take_succ_cons, take_zero]
    · have taken : ¬ (c ≤ 0xbf ∨ 0xfe ≤ c) := by
        intro refused
        rw [yazReadUTF8Char, if_neg single, if_pos refused] at ok
        simp at ok
      obtain ⟨n, f, positive, few, fits, first⟩ := first_cases taken
      rw [yazReadUTF8Char_first positive few fits first] at ok ⊢
      split at ok
      next within =>
        obtain ⟨x, read, needed, front, written⟩ := utf8Sequence_ok within ok
        have below : x < utf8Limit n := (first_fits positive few).mp (by rw [front]; exact fits)
        have more : utf8More x = n := utf8More_eq positive few needed below
        have small : utf8Limit n ≤ 2 ^ 31 := by interval_cases n <;> norm_num [utf8Limit]
        have start : UInt8.ofNat (x / 64 ^ n ||| utf8Mark n) = c := by
          apply UInt8.toNat_inj.mp
          rw [front, toNat_first few fits, first]
        refine ⟨x, by omega, ?_, ?_⟩
        · rw [if_pos within, read, utf8Encoded_length, more]
        · rw [utf8Encoded_length, more, utf8Encoded, more, if_neg (by omega), utf8Octets, start, written, take_succ_cons]
      · simp at ok

/-- The two functions are inverse to each other, and a part of what was written is never taken for more or less
than a part. -/
theorem utf8_canonical :
    (∀ x < 2 ^ 31, ∃ written : List UInt8,
      (∀ room, yazWriteUTF8Char x room = if written.length ≤ room then some written else none) ∧
      (∀ following, yazReadUTF8Char (written ++ following) =
        { x := x, noRead := written.length, errno := some .ok }) ∧
      ∀ k, 0 < k → k < written.length → (yazReadUTF8Char (written.take k)).errno = some .einval ∧
        (yazReadUTF8Char (written.take k)).noRead = 0) ∧
    ∀ inp room, (yazReadUTF8Char inp).errno = some .ok →
      yazWriteUTF8Char (yazReadUTF8Char inp).x room =
        if (yazReadUTF8Char inp).noRead ≤ room then some (inp.take (yazReadUTF8Char inp).noRead) else none := by
  refine ⟨fun x small => ⟨utf8Encoded x, yazWriteUTF8Char_eq x, yazReadUTF8Char_text small, fun k some_ part => ?_⟩, ?_⟩
  · rw [yazReadUTF8Char_part small some_ part]
    exact ⟨rfl, rfl⟩
  · intro inp room ok
    obtain ⟨x, -, read, written⟩ := yazReadUTF8Char_ok ok
    rw [read, yazWriteUTF8Char_eq, ← written]

theorem utf8_canonical_euro :
    (∃ written, yazReadUTF8Char (written ++ [0xff]) = { x := 0x20ac, noRead := written.length, errno := some .ok } ∧
      (0 < 1 → 1 < written.length → (yazReadUTF8Char (written.take 1)).errno = some .einval)) ∧
    yazWriteUTF8Char 0x20ac 3 = some [0xe2, 0x82, 0xac] := by
  obtain ⟨written, -, reads, parts⟩ := utf8_canonical.1 0x20ac (by decide)
  exact ⟨⟨written, reads [0xff], fun some_ part => (parts 1 some_ part).1⟩,
    utf8_canonical.2 [0xe2, 0x82, 0xac] 3 (by decide)⟩

end Yaz.Iconv
