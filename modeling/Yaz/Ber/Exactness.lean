import Yaz.Ber.Values

/-! How far the octets of the Basic Encoding Rules and the numbers they stand for determine
each other: shortest contents of an INTEGER, long forms of a length, digits of a tag and of an
object identifier.
-/

set_option autoImplicit false

namespace Yaz.Ber
open List

theorem bigEndian_cons (b : UInt8) (rest : List UInt8) :
    bigEndian (b :: rest) = b.toNat * 256 ^ rest.length + bigEndian rest := by
  rw [← singleton_append, bigEndian_append]
  simp [bigEndian]

theorem signedValue_range {content : List UInt8} (nonempty : content ≠ []) :
    -(256 ^ content.length : Nat) ≤ 2 * signedValue content ∧
      2 * signedValue content < (256 ^ content.length : Nat) := by
  obtain ⟨b, rest, rfl⟩ := exists_cons_of_ne_nil nonempty
  have below := bigEndian_lt rest
  have octet := b.toNat_lt
  simp only [signedValue, bigEndian_cons, head?_cons, Option.any_some, length_cons, pow_succ,
    decide_eq_true_eq]
  push_cast
  generalize bigEndian rest = low at below
  have power : (256 : Int) ^ rest.length = ((256 ^ rest.length : Nat) : Int) := by push_cast; rfl
  rw [power, ← Nat.cast_mul]
  generalize 256 ^ rest.length = unit at below
  split
  next negative =>
    have atLeast := Nat.mul_le_mul_right unit negative
    have atMost := Nat.mul_le_mul_right unit (show b.toNat ≤ 255 by omega)
    generalize b.toNat * unit = high at atLeast atMost
    omega
  next positive =>
    have atMost := Nat.mul_le_mul_right unit (show b.toNat ≤ 127 by omega)
    generalize b.toNat * unit = high at atMost
    omega

def Significant : List UInt8 → Prop
  | first :: second :: _ => ¬ ((first = 0 ∧ second.toNat < 128) ∨ (first = 0xff ∧ 128 ≤ second.toNat))
  | _ => True

theorem significant_dropSign (content : List UInt8) : Significant (dropSign content) := by
  induction content using dropSign.induct with
  | case1 first second rest redundant ih =>
    rw [dropSign, if_pos redundant]
    exact ih
  | case2 first second rest needed =>
    rw [dropSign, if_neg needed]
    exact needed
  | case3 content short =>
    unfold dropSign
    split
    next first second rest => exact absurd rfl (short first second rest)
    next =>
      rcases content with - | ⟨first, - | ⟨second, rest⟩⟩
      · trivial
      · trivial
      · exact absurd rfl (short first second rest)

/-- Such contents stand for a number that one octet less does not hold. -/
theorem Significant.beyond {first second : UInt8} {rest : List UInt8}
    (significant : Significant (first :: second :: rest)) :
    (256 ^ (rest.length + 1) : Nat) ≤ 2 * signedValue (first :: second :: rest) ∨
      2 * signedValue (first :: second :: rest) < -(256 ^ (rest.length + 1) : Nat) := by
  have below := bigEndian_lt rest
  have octet := first.toNat_lt
  have next := second.toNat_lt
  have isZero : first.toNat = 0 → first = 0 := fun same => UInt8.toNat_inj.mp same
  have isOnes : first.toNat = 255 → first = 0xff := fun same => UInt8.toNat_inj.mp same
  simp only [Significant, not_or, not_and, Nat.not_lt, Nat.not_le] at significant
  simp only [signedValue, bigEndian_cons, head?_cons, Option.any_some, length_cons, pow_succ,
    decide_eq_true_eq]
  push_cast
  have power : (256 : Int) ^ rest.length = ((256 ^ rest.length : Nat) : Int) := by push_cast; rfl
  rw [power]
  generalize bigEndian rest = low at below
  generalize 256 ^ rest.length = unit at below
  have atMost := Nat.mul_le_mul_right unit (show second.toNat ≤ 255 by omega)
  have assoc : (first.toNat : Int) * ((unit : Int) * 256) = ((first.toNat * unit : Nat) : Int) * 256 := by
    push_cast
    ring
  rw [assoc, ← Nat.cast_mul]
  split
  next negative =>
    right
    by_cases ones : first.toNat = 255
    · have small := significant.2 (isOnes ones)
      have second' := Nat.mul_le_mul_right unit (show second.toNat ≤ 127 by omega)
      rw [ones]
      generalize second.toNat * unit = middle at second'
      omega
    · have first' := Nat.mul_le_mul_right unit (show first.toNat ≤ 254 by omega)
      generalize first.toNat * unit = high at first'
      generalize second.toNat * unit = middle at atMost
      omega
  next positive =>
    left
    by_cases zero : first.toNat = 0
    · have large := significant.1 (isZero zero)
      have second' := Nat.mul_le_mul_right unit large
      rw [zero]
      generalize second.toNat * unit = middle at second'
      omega
    · have first' := Nat.mul_le_mul_right unit (show 1 ≤ first.toNat by omega)
      generalize first.toNat * unit = high at first'
      generalize second.toNat * unit = middle at atMost
      omega

theorem dropSign_shortest {content other : List UInt8} (nonempty : other ≠ [])
    (same : signedValue other = signedValue (dropSign content)) : (dropSign content).length ≤ other.length := by
  have significant := significant_dropSign content
  generalize dropSign content = short at same significant
  match short with
  | [] => exact Nat.zero_le _
  | [_] => exact length_pos_iff.mpr nonempty
  | first :: second :: rest =>
    have beyond := significant.beyond
    have range := signedValue_range nonempty
    by_contra shorter
    have fewer : 256 ^ other.length ≤ 256 ^ (rest.length + 1) := by
      apply Nat.pow_le_pow_right (by omega)
      simp only [length_cons] at shorter
      omega
    omega

theorem signedValue_integerOctets (val : BitVec 64) : signedValue (integerOctets val) = val.toInt := by
  rw [signedValue, bigEndian_integerOctets, integerOctets_length, BitVec.toInt_eq_toNat_cond]
  have first : (integerOctets val).head?.any (128 ≤ ·.toNat) = decide (2 ^ 63 ≤ val.toNat) := by
    have octet : (UInt8.ofNat (val.toNat / 256 ^ 7 % 256)).toNat = val.toNat / 256 ^ 7 % 256 :=
      toNat_ofNat_lt (by omega)
    have head : (integerOctets val).head? = some (UInt8.ofNat (val.toNat / 256 ^ 7 % 256)) := rfl
    rw [head, Option.any_some, octet]
    apply decide_eq_decide.mpr
    omega
  rw [first]
  simp only [decide_eq_true_eq]
  split <;> split <;> omega

/-- The octets `ber_enclen` emits for a length that it writes in a definite form. -/
def enclenOctets (len lenlen : Nat) (exact : Bool) : List UInt8 :=
  if len ≤ 127 ∧ (lenlen = 1 ∨ exact = false) then [UInt8.ofNat len]
  else
    let octets := base256 4 len []
    let padding := if exact then List.replicate (lenlen - 1 - octets.length) (0 : UInt8) else []
    UInt8.ofNat ((padding ++ octets).length + 128) :: (padding ++ octets)

theorem bigEndian_padding (n : Nat) (octets : List UInt8) :
    bigEndian (List.replicate n 0 ++ octets) = bigEndian octets := by
  induction n with
  | zero => rfl
  | succ _ ih =>
    rw [replicate_succ, cons_append, bigEndian_cons, ih]
    simp

variable {octets : List UInt8}

theorem berDeclen_long (long : 3 < octets.length) (short : octets.length < 127)
    (rest : List UInt8) {max : Int} (room : octets.length < max) :
    berDeclen (UInt8.ofNat (octets.length + 128) :: octets ++ rest) max = some (-2, 0) := by
  have octet : (UInt8.ofNat (octets.length + 128)).toNat = octets.length + 128 := toNat_ofNat_lt (by omega)
  rw [cons_append, berDeclen, if_neg (by omega)]
  rw [octet, if_neg (by omega), if_neg (by omega), if_neg (by omega),
    show (octets.length + 128) % 128 = octets.length by omega, if_neg (by omega), if_pos long]

theorem not_declares_long (long : 3 < octets.length) (short : octets.length < 127) (len : Int) :
    ¬ Declares (UInt8.ofNat (octets.length + 128) :: octets) len := by
  intro declares
  have read := declares.read [] _ (Int.le_refl _)
  rw [berDeclen_long long short [] (by simp)] at read
  simp only [length_cons, Option.some.injEq, Prod.mk.injEq] at read
  omega

theorem declares_long_iff (nonempty : octets ≠ []) (short : octets.length < 127) :
    Declares (UInt8.ofNat (octets.length + 128) :: octets) (bigEndian octets) ↔ octets.length ≤ 3 := by
  constructor
  · intro declares
    by_contra long
    exact not_declares_long (by omega) short _ declares
  · exact declares_long nonempty

theorem base256_length (fuel v : Nat) (emitted : List UInt8) :
    (base256 fuel v emitted).length ≤ fuel + emitted.length := by
  induction fuel generalizing v emitted with
  | zero => simp [base256]
  | succ _ ih =>
    rw [base256]
    split
    · simp only [length_cons]
      omega
    · refine (ih _ _).trans ?_
      simp only [length_cons]
      omega

theorem base256_length_le_three {len : Nat} (small : len < 256 ^ 4) :
    (base256 4 len []).length ≤ 3 ↔ len < 2 ^ 24 := by
  obtain ⟨front, emits, value, -, bound⟩ := base256_front small (by simp) []
  rw [emits, append_nil]
  constructor
  · intro short
    have below := bigEndian_lt front
    have power := Nat.pow_le_pow_right (n := 256) (by simp) short
    omega
  · intro below
    exact bound 2 (by omega)

theorem declares_enclenOctets_iff {len lenlen : Nat} {exact : Bool} (small : len ≤ intMax) (least : 2 ≤ lenlen)
    (most : lenlen ≤ 5) (room : len ≤ 127 ∧ exact = false ∨ (base256 4 len []).length < lenlen) :
    Declares (enclenOctets len lenlen exact) len ↔ if exact then lenlen ≤ 4 else len < 2 ^ 24 := by
  rw [intMax] at small
  obtain ⟨front, emits, value, nonempty, -⟩ := base256_front (show len < 256 ^ 4 by omega) (by simp) []
  have three := base256_length_le_three (show len < 256 ^ 4 by omega)
  rw [emits, append_nil] at three room
  unfold enclenOctets
  split
  next short =>
    obtain ⟨short, isOne | loose⟩ := short
    · omega
    · rw [if_neg (by simp [loose])]
      exact ⟨fun _ => by omega, fun _ => declares_short short⟩
  next long =>
    dsimp only
    rw [emits, append_nil]
    cases exact with
    | false =>
      have more : ¬ len ≤ 127 := fun short => long ⟨short, .inr rfl⟩
      have few : front.length < lenlen := by
        obtain ⟨short, -⟩ | few := room
        · exact absurd short more
        · exact few
      rw [if_neg (by simp), if_neg (by simp), nil_append, ← three, ← value]
      exact declares_long_iff nonempty (by omega)
    | true =>
      have few : front.length < lenlen := by
        obtain ⟨-, loose⟩ | few := room
        · cases loose
        · exact few
      have padded : (List.replicate (lenlen - 1 - front.length) (0 : UInt8) ++ front).length = lenlen - 1 := by
        rw [length_append, length_replicate]
        omega
      have same := bigEndian_padding (lenlen - 1 - front.length) front
      rw [if_pos rfl, if_pos rfl, ← value, ← same, declares_long_iff (by simp [nonempty]) (by omega), padded]
      omega

theorem wrapInt_eq_iff (v : Nat) : wrapInt v = v ↔ v < 2 ^ 31 := by
  constructor
  · intro same
    have := Int.bmod_lt (x := v) (m := 2 ^ 32) (by simp)
    rw [wrapInt] at same
    omega
  · exact wrapInt_of_lt

theorem wrapShort_eq_iff {v : Int} (nonneg : 0 ≤ v) : wrapShort v = v ↔ v < 2 ^ 15 := by
  constructor
  · intro same
    have := Int.bmod_lt (x := v) (m := 2 ^ 16) (by simp)
    rw [wrapShort] at same
    omega
  · intro small
    unfold wrapShort
    apply Int.bmod_eq_of_le <;> omega

theorem wrapInt_digit (acc : Nat) (b : UInt8) :
    wrapInt (wrapInt acc * 128 + (b.toNat % 128 : Nat)) = wrapInt (acc * 128 + b.toNat % 128 : Nat) := by
  unfold wrapInt
  rw [← Int.bmod_add_bmod, Int.bmod_mul_bmod, Int.bmod_add_bmod]
  push_cast
  rfl

theorem berDectagLoop_value {max : Int} {mem : List UInt8} {l acc : Nat} {n tag : Int}
    (h : berDectagLoop max mem l (wrapInt acc) = some (n, tag)) (found : 0 < n) :
    ∃ used rest, mem = used ++ rest ∧ n = (l + used.length : Nat) ∧ tag = wrapInt (groupValue acc used) := by
  induction mem generalizing l acc with
  | nil =>
    rw [berDectagLoop] at h
    split at h
    · simp only [Option.some.injEq, Prod.mk.injEq] at h
      omega
    · simp at h
  | cons b mem ih =>
    rw [berDectagLoop] at h
    split at h
    · simp only [Option.some.injEq, Prod.mk.injEq] at h
      omega
    · dsimp only at h
      rw [wrapInt_digit] at h
      split at h
      next more =>
        obtain ⟨used, rest, rfl, length, value⟩ := ih h
        refine ⟨b :: used, rest, rfl, ?_, value⟩
        rw [length, length_cons]
        omega
      next last =>
        obtain ⟨rfl, rfl⟩ := h
        exact ⟨[b], mem, rfl, rfl, rfl⟩

def tagNumber : List UInt8 → Nat
  | [] => 0
  | b :: digits => if b.toNat % 32 ≤ 30 then b.toNat % 32 else groupValue 0 digits

theorem berDectag_tagNumber {mem : List UInt8} {max n : Int} {cache cache' : BerTag}
    (h : berDectag mem max cache = some (n, cache')) (found : 0 < n) :
    cache'.ltag = wrapInt (tagNumber (mem.take n.toNat)) := by
  unfold berDectag at h
  split at h
  · simp only [Option.some.injEq, Prod.mk.injEq] at h
    omega
  · cases mem with
    | nil => simp at h
    | cons =>
      dsimp only at h
      split at h
      next short =>
        obtain ⟨rfl, rfl⟩ := h
        rw [Int.toNat_one, take_succ_cons, tagNumber, if_pos short]
        exact (wrapInt_of_lt (by omega)).symm
      next long =>
        rw [Option.map_eq_some_iff] at h
        obtain ⟨⟨res, tag⟩, loop, same⟩ := h
        obtain ⟨rfl, rfl⟩ := same
        have start : (0 : Int) = wrapInt (0 : Nat) := rfl
        rw [start] at loop
        obtain ⟨used, rest, rfl, rfl, value⟩ := berDectagLoop_value loop found
        rw [Int.toNat_natCast, Nat.add_comm, take_succ_cons, take_left, tagNumber, if_neg long]
        exact value

def groupValues (acc : Nat) : List UInt8 → List Nat
  | [] => []
  | b :: rest =>
    if 128 ≤ b.toNat then groupValues (acc * 128 + b.toNat % 128) rest
    else (acc * 128 + b.toNat % 128) :: groupValues 0 rest

theorem groupValues_group (group : Group octets) (acc : Nat) (rest : List UInt8) :
    groupValues acc (octets ++ rest) = groupValue acc octets :: groupValues 0 rest := by
  induction octets generalizing acc with
  | nil =>
    obtain ⟨_, same, -⟩ | ⟨_, _, same, -⟩ := group.cases
    · simp at same
    · simp at same
  | cons _ _ ih =>
    rw [cons_append, groupValues, groupValue_cons]
    obtain ⟨last, same, ends⟩ | ⟨first, tail, same, continues, group'⟩ := group.cases
    · obtain ⟨rfl, rfl⟩ := List.cons.inj same
      rw [if_neg (by omega)]
      rfl
    · obtain ⟨rfl, rfl⟩ := List.cons.inj same
      rw [if_pos continues]
      exact ih group' _

end Yaz.Ber
