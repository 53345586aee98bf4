import Yaz.Ber.Octets
import Mathlib.Data.Nat.Digits.Defs

/-! The values that groups of seven bits, length octets and contents of an INTEGER stand for. -/

set_option autoImplicit false

namespace Yaz.Ber
open List

/-! ### Groups of seven bits -/

/-- The number that base-128 groups continue from `acc`, whatever their continuation bits are. -/
def groupValue (acc : Nat) (octets : List UInt8) : Nat := octets.foldl (fun v b => v * 128 + b.toNat % 128) acc

variable (acc : Nat)

@[simp] theorem groupValue_nil : groupValue acc [] = acc := rfl

@[simp] theorem groupValue_cons (b : UInt8) (rest : List UInt8) :
    groupValue acc (b :: rest) = groupValue (acc * 128 + b.toNat % 128) rest := rfl

theorem groupValue_append (front back : List UInt8) :
    groupValue acc (front ++ back) = groupValue (groupValue acc front) back :=
  foldl_append

theorem le_groupValue (octets : List UInt8) : acc ≤ groupValue acc octets := by
  induction octets generalizing acc with
  | nil => exact Nat.le_refl acc
  | cons b _ ih =>
    have := ih (acc * 128 + b.toNat % 128)
    rw [groupValue_cons]
    omega

structure Group (octets : List UInt8) : Prop where
  split : ∃ front last, octets = front ++ [last] ∧ (∀ b ∈ front, 128 ≤ b.toNat) ∧ last.toNat < 128

variable {octets : List UInt8}

theorem Group.cases (group : Group octets) :
    (∃ last : UInt8, octets = [last] ∧ last.toNat < 128) ∨
      ∃ (first : UInt8) (rest : List UInt8), octets = first :: rest ∧ 128 ≤ first.toNat ∧ Group rest := by
  obtain ⟨front, last, rfl, continued, ends⟩ := group.split
  cases front with
  | nil => exact .inl ⟨last, rfl, ends⟩
  | cons first front =>
    rw [forall_mem_cons] at continued
    exact .inr ⟨first, front ++ [last], rfl, continued.1, ⟨front, last, rfl, continued.2, ends⟩⟩

theorem base128_front {fuel v : Nat} (room : v < 128 ^ fuel) (positive : fuel ≠ 0) (emitted : List UInt8) :
    ∃ front last, base128 fuel v emitted = front ++ last :: emitted ∧ (∀ b ∈ front, 128 ≤ b.toNat) ∧
      last.toNat = v % 128 + (if emitted.isEmpty then 0 else 128) ∧ groupValue 0 (front ++ [last]) = v := by
  induction fuel generalizing v emitted with
  | zero => exact absurd rfl positive
  | succ fuel ih =>
    have lastValue : (UInt8.ofNat (v % 128 + if emitted.isEmpty then 0 else 128)).toNat =
        v % 128 + if emitted.isEmpty then 0 else 128 := by
      apply UInt8.toNat_ofNat_of_lt'
      change _ < 256
      split <;> omega
    have lastGroup : (v % 128 + if emitted.isEmpty then 0 else 128) % 128 = v % 128 := by
      split <;> omega
    rw [base128]
    by_cases done : v / 128 = 0
    · refine ⟨[], UInt8.ofNat (v % 128 + if emitted.isEmpty then 0 else 128), ?_, ?_, lastValue, ?_⟩
      · simp [done]
      · simp
      · simp only [nil_append, groupValue_cons, groupValue_nil, lastValue, lastGroup]
        omega
    · have more : fuel ≠ 0 := by
        rintro rfl
        omega
      have smaller : v / 128 < 128 ^ fuel := by
        omega
      obtain ⟨front, last, emits, continued, lastIs, value⟩ := ih smaller more
        (UInt8.ofNat (v % 128 + if emitted.isEmpty then 0 else 128) :: emitted)
      refine ⟨front ++ [last], UInt8.ofNat (v % 128 + if emitted.isEmpty then 0 else 128), ?_, ?_, lastValue, ?_⟩
      · simp only [done, if_false, emits, append_assoc, singleton_append]
      · intro b inside
        rw [mem_append, mem_singleton] at inside
        obtain inside | rfl := inside
        · exact continued b inside
        · rw [lastIs]
          simp
      · rw [groupValue_append, value]
        simp only [groupValue_cons, groupValue_nil, lastValue, lastGroup]
        omega

theorem base128_group {fuel v : Nat} (room : v < 128 ^ fuel) (positive : fuel ≠ 0) :
    Group (base128 fuel v []) ∧ groupValue 0 (base128 fuel v []) = v := by
  obtain ⟨front, last, emits, continued, lastIs, value⟩ := base128_front room positive []
  rw [emits]
  refine ⟨⟨front, last, rfl, continued, ?_⟩, value⟩
  simp only [isEmpty_nil, if_true] at lastIs
  omega

theorem base128_length (fuel v : Nat) (emitted : List UInt8) :
    (base128 fuel v emitted).length ≤ fuel + emitted.length := by
  induction fuel generalizing v emitted with
  | zero => simp [base128]
  | succ _ ih =>
    rw [base128]
    split
    · simp only [length_cons]
      omega
    · refine (ih _ _).trans ?_
      simp only [length_cons]
      omega

theorem wrapInt_of_lt {v : Nat} (small : v < 2 ^ 31) : wrapInt v = v := by
  unfold wrapInt
  apply Int.bmod_eq_of_le <;> omega

theorem berDectagLoop_group (group : Group octets) (rest : List UInt8) {l acc : Nat}
    {max : Int} (room : ((l + octets.length : Nat) : Int) ≤ max) (small : groupValue acc octets < 2 ^ 31) :
    berDectagLoop max (octets ++ rest) l acc = some (((l + octets.length : Nat) : Int), (groupValue acc octets : Int)) := by
  induction octets generalizing l acc with
  | nil =>
    obtain ⟨front, last, empty, -⟩ := group.split
    simp at empty
  | cons b octets ih =>
    rw [length_cons] at room
    have bound := le_groupValue (acc * 128 + b.toNat % 128) octets
    have here : wrapInt ((acc : Int) * 128 + (b.toNat % 128 : Nat)) = ((acc * 128 + b.toNat % 128 : Nat) : Int) := by
      rw [← wrapInt_of_lt (v := acc * 128 + b.toNat % 128) (Nat.lt_of_le_of_lt bound small)]
      push_cast
      rfl
    rw [cons_append, berDectagLoop, if_neg (by omega)]
    rw [here]
    obtain ⟨last, same, ends⟩ | ⟨first, tail, same, continues, group'⟩ := group.cases
    · obtain ⟨rfl, rfl⟩ := List.cons.inj same
      rw [if_neg (by omega)]
      simp
    · obtain ⟨rfl, rfl⟩ := List.cons.inj same
      rw [if_pos continues, ih group' (by omega) small]
      simp only [length_cons, groupValue_cons, Option.some.injEq, Prod.mk.injEq, and_true]
      omega

theorem toNat_ofNat_lt {v : Nat} (small : v < 256) : (UInt8.ofNat v).toNat = v :=
  UInt8.toNat_ofNat_of_lt' small

theorem berDectag_enctag {zclass tag : Nat} (isClass : zclass < 4) (small : tag < 2 ^ 28) (constructed : Bool)
    (rest : List UInt8) {max : Int} (room : (enctagOctets zclass tag constructed).length ≤ max) (cache : BerTag) :
    berDectag (enctagOctets zclass tag constructed ++ rest) max cache =
      some (((enctagOctets zclass tag constructed).length : Int),
        { cache with lclass := zclass, ltag := tag, lcons := if constructed then 1 else 0 }) := by
  have classOf : ((zclass : Int) % 4).toNat = zclass := by omega
  have flag : (if constructed then 32 else 0) < 64 := by split <;> omega
  have isFlag : (if constructed then 32 else 0) / 32 = if constructed then 1 else 0 := by cases constructed <;> rfl
  have isEven : (if constructed then 32 else 0) % 32 = 0 := by cases constructed <;> rfl
  generalize constructedBit : (if constructed then 32 else 0) = bit at flag isFlag isEven
  have header (low : Nat) (below : low < 32) (mem : List UInt8) (positive : ¬ max < 1) :
      berDectag (UInt8.ofNat (zclass * 64 + bit + low) :: mem) max cache =
        if low ≤ 30 then some (1, { cache with lclass := zclass, ltag := low, lcons := if constructed then 1 else 0 })
        else (berDectagLoop max mem 1 0).map fun read => (read.1, { cache with
          lclass := zclass, ltag := read.2, lcons := if constructed then 1 else 0 }) := by
    have octet : (UInt8.ofNat (zclass * 64 + bit + low)).toNat = zclass * 64 + bit + low :=
      toNat_ofNat_lt (by omega)
    rw [berDectag, if_neg positive]
    rw [octet, show (zclass * 64 + bit + low) / 64 = zclass by omega,
      show (zclass * 64 + bit + low) / 32 % 2 = bit / 32 by omega,
      show (zclass * 64 + bit + low) % 32 = low by omega, isFlag]
    push_cast
    rfl
  unfold enctagOctets at room ⊢
  rw [classOf, constructedBit] at room ⊢
  split
  next low =>
    have tagOf : ((tag : Int) % 32).toNat = tag := by omega
    rw [if_pos low, length_singleton] at room
    rw [tagOf, singleton_append, header tag (by omega) rest (by omega), if_pos (by omega)]
    rfl
  next high =>
    rw [if_neg high, length_cons] at room
    rw [Int.toNat_natCast] at room ⊢
    obtain ⟨group, value⟩ := base128_group (show tag < 128 ^ 5 by omega) (by omega)
    have loop := berDectagLoop_group group rest (l := 1) (show _ ≤ max by omega)
      (show groupValue 0 (base128 5 tag []) < 2 ^ 31 by omega)
    rw [Nat.cast_zero, value] at loop
    rw [cons_append, header 31 (by omega) _ (by omega), if_neg (by omega), loop]
    simp only [Option.map_some, length_cons, Nat.add_comm]

theorem enctagOctets_ne_nil (zclass tag : Int) (constructed : Bool) : enctagOctets zclass tag constructed ≠ [] := by
  unfold enctagOctets
  dsimp only
  split <;> simp

theorem enctagOctets_head_ne_zero {zclass tag : Nat} (isClass : zclass < 4) (notEnd : (zclass, tag) ≠ (0, 0))
    (constructed : Bool) : (enctagOctets zclass tag constructed).head? ≠ some 0 := by
  have nonzero {v : Nat} (positive : 0 < v) (small : v < 256) : some (UInt8.ofNat v) ≠ some 0 := by
    intro zero
    have := congrArg UInt8.toNat (Option.some.inj zero)
    rw [toNat_ofNat_lt small] at this
    simp only [UInt8.toNat_zero] at this
    omega
  have distinct : zclass ≠ 0 ∨ tag ≠ 0 := by
    by_contra both
    exact notEnd (by simp only [Prod.mk.injEq]; omega)
  unfold enctagOctets
  dsimp only
  split
  · apply nonzero <;> cases constructed <;> simp <;> omega
  · apply nonzero <;> cases constructed <;> simp <;> omega

theorem bigEndian_concat (front : List UInt8) (b : UInt8) :
    bigEndian (front ++ [b]) = bigEndian front * 256 + b.toNat := by
  rw [bigEndian_append]
  simp [bigEndian]

theorem base256_front {fuel v : Nat} (room : v < 256 ^ fuel) (positive : fuel ≠ 0) (emitted : List UInt8) :
    ∃ front, base256 fuel v emitted = front ++ emitted ∧ bigEndian front = v ∧ front ≠ [] ∧
      ∀ k, v < 256 ^ (k + 1) → front.length ≤ k + 1 := by
  induction fuel generalizing v emitted with
  | zero => exact absurd rfl positive
  | succ fuel ih =>
    have octet : (UInt8.ofNat (v % 256)).toNat = v % 256 := toNat_ofNat_lt (by omega)
    rw [base256]
    by_cases done : v / 256 = 0
    · refine ⟨[UInt8.ofNat (v % 256)], ?_, ?_, by simp, by simp⟩
      · simp [done]
      · simp only [bigEndian, foldl_cons, foldl_nil, octet]
        omega
    · have more : fuel ≠ 0 := by
        rintro rfl
        omega
      have smaller : v / 256 < 256 ^ fuel := by
        omega
      obtain ⟨front, emits, value, nonempty, short⟩ := ih smaller more (UInt8.ofNat (v % 256) :: emitted)
      refine ⟨front ++ [UInt8.ofNat (v % 256)], ?_, ?_, by simp, ?_⟩
      · simp only [done, if_false, emits, append_assoc, singleton_append]
      · rw [bigEndian_concat, value, octet]
        omega
      · intro k below
        cases k with
        | zero =>
          omega
        | succ k =>
          have := short k (by rw [Nat.pow_succ] at below; omega)
          rw [length_append, length_singleton]
          omega

/-- Length octets that declare `len`, whatever follows them. -/
structure Declares (octets : List UInt8) (len : Int) : Prop where
  nonempty : octets ≠ []
  read : ∀ rest max, (octets.length : Int) ≤ max →
    berDeclen (octets ++ rest) max = some ((octets.length : Int), len)

theorem Declares.of_berDeclen {mem : List UInt8} {max res len : Int}
    (h : berDeclen mem max = some (res, len)) (found : 0 ≤ res) :
    ∃ octets rest, mem = octets ++ rest ∧ res = octets.length ∧ res ≤ max ∧ Declares octets len := by
  obtain ⟨used, rest, rfl, nonempty, rfl, room, -, -, -, stable, -⟩ := berDeclen_append h found
  exact ⟨used, rest, rfl, rfl, room, nonempty, stable⟩

theorem Declares.unique {octets' rest rest' : List UInt8} {len len' : Int} (h : Declares octets len)
    (k : Declares octets' len') (same : octets ++ rest = octets' ++ rest') : octets = octets' ∧ len = len' := by
  have read := h.read rest (octets.length + octets'.length) (by omega)
  rw [same, k.read rest' _ (by omega)] at read
  simp only [Option.some.injEq, Prod.mk.injEq, Nat.cast_inj] at read
  exact ⟨append_inj_left same read.1.symm, read.2.symm⟩

theorem declares_short {len : Nat} (short : len ≤ 127) : Declares [UInt8.ofNat len] len := by
  refine ⟨by simp, fun rest max room => ?_⟩
  have octet : (UInt8.ofNat len).toNat = len := toNat_ofNat_lt (by omega)
  rw [length_singleton] at room
  rw [singleton_append, berDeclen, if_neg (by omega)]
  rw [octet, if_neg (by omega), if_pos (by omega)]
  rfl

theorem declares_indefinite : Declares [0x80] (-1) := by
  refine ⟨by simp, fun rest max room => ?_⟩
  rw [length_singleton] at room
  rw [singleton_append, berDeclen, if_neg (by omega)]
  rfl

theorem declares_long (nonempty : octets ≠ []) (short : octets.length ≤ 3) :
    Declares (UInt8.ofNat (octets.length + 128) :: octets) (bigEndian octets) := by
  refine ⟨by simp, fun rest max room => ?_⟩
  have positive := length_pos_iff.mpr nonempty
  have octet : (UInt8.ofNat (octets.length + 128)).toNat = octets.length + 128 := toNat_ofNat_lt (by omega)
  rw [length_cons] at room
  rw [cons_append, berDeclen, if_neg (by omega)]
  rw [octet, if_neg (by omega), if_neg (by omega), if_neg (by omega),
    show (octets.length + 128) % 128 = octets.length by omega, if_neg (by omega), if_neg (by omega),
    if_neg (by rw [length_append]; omega), take_left]
  rfl

/-- The value `ber_decinteger` builds from content octets: the sign of the first one fills the
octets that are not there. -/
def integerValue (content : List UInt8) : BitVec 64 :=
  shiftIn (if content.head?.any (128 ≤ ·.toNat) then
    shiftIn 0 (List.replicate (8 - content.length) 0xff) else 0) content


def signedValue (content : List UInt8) : Int :=
  bigEndian content - if content.head?.any (128 ≤ ·.toNat) then 256 ^ content.length else 0

theorem shiftIn_eq (uval : BitVec 64) (octets : List UInt8) :
    shiftIn uval octets = BitVec.ofNat 64 (uval.toNat * 256 ^ octets.length + bigEndian octets) := by
  induction octets using List.reverseRecOn with
  | nil => simp [shiftIn, bigEndian]
  | append_singleton front b ih =>
    have step : shiftIn uval (front ++ [b]) = shiftIn uval front <<< 8 + BitVec.ofNat 64 b.toNat := by
      simp [shiftIn]
    rw [step, ih, bigEndian_concat]
    have longer : uval.toNat * 256 ^ (front.length + 1) = uval.toNat * 256 ^ front.length * 256 := by
      rw [Nat.pow_succ, Nat.mul_assoc]
    apply BitVec.eq_of_toNat_eq
    simp only [BitVec.toNat_add, BitVec.toNat_shiftLeft, BitVec.toNat_ofNat, length_append,
      length_singleton, Nat.shiftLeft_eq, longer]
    omega

theorem bigEndian_replicate_ff (n : Nat) : bigEndian (List.replicate n 0xff) = 256 ^ n - 1 := by
  induction n with
  | zero => rfl
  | succ n ih =>
    have positive : 0 < 256 ^ n := Nat.pow_pos (by omega)
    rw [replicate_succ', bigEndian_concat, ih, Nat.pow_succ]
    simp only [UInt8.reduceToNat]
    omega

theorem ofNat_eq_ofInt {v : Nat} {x : Int} (same : (v : Int) % 2 ^ 64 = x % 2 ^ 64) :
    BitVec.ofNat 64 v = BitVec.ofInt 64 x := by
  rw [← BitVec.ofInt_natCast]
  apply BitVec.eq_of_toNat_eq
  rw [BitVec.toNat_ofInt, BitVec.toNat_ofInt]
  have power : ((2 ^ 64 : Nat) : Int) = 2 ^ 64 := by norm_num
  rw [power, same]

theorem integerValue_eq {content : List UInt8} (short : content.length ≤ 8) :
    integerValue content = BitVec.ofInt 64 (signedValue content) := by
  unfold integerValue signedValue
  split
  next negative =>
    have bound : 256 ^ (8 - content.length) ≤ 256 ^ 8 := Nat.pow_le_pow_right (by omega) (by omega)
    have whole : 256 ^ (8 - content.length) * 256 ^ content.length = 256 ^ 8 := by
      rw [← Nat.pow_add, Nat.sub_add_cancel short]
    have below : 256 ^ content.length ≤ 256 ^ 8 := Nat.pow_le_pow_right (by omega) short
    have filled : (shiftIn 0 (List.replicate (8 - content.length) 0xff)).toNat = 256 ^ (8 - content.length) - 1 := by
      rw [shiftIn_eq, bigEndian_replicate_ff, BitVec.toNat_ofNat, show (0 : BitVec 64).toNat = 0 from rfl,
        Nat.zero_mul, Nat.zero_add]
      apply Nat.mod_eq_of_lt
      omega
    rw [shiftIn_eq, filled, Nat.sub_mul, whole, Nat.one_mul]
    apply ofNat_eq_ofInt
    have power : ((256 ^ content.length : Nat) : Int) = 256 ^ content.length := by push_cast; rfl
    rw [← power]
    omega
  next positive =>
    rw [shiftIn_eq]
    apply ofNat_eq_ofInt
    simp

theorem signedValue_cons_cons (first second : UInt8) (rest : List UInt8)
    (redundant : (first = 0 ∧ second.toNat < 128) ∨ (first = 0xff ∧ 128 ≤ second.toNat)) :
    signedValue (first :: second :: rest) = signedValue (second :: rest) := by
  have front : bigEndian (first :: second :: rest) =
      first.toNat * 256 ^ (rest.length + 1) + bigEndian (second :: rest) := by
    have := bigEndian_append [first] (second :: rest)
    simpa [bigEndian] using this
  simp only [signedValue, front, head?_cons, Option.any_some, length_cons]
  obtain ⟨rfl, positive⟩ | ⟨rfl, negative⟩ := redundant
  · simp [show ¬ 128 ≤ second.toNat by omega]
  · have power : (256 : Int) ^ (rest.length + 1 + 1) = 256 ^ (rest.length + 1) * 256 := pow_succ _ _
    simp only [UInt8.reduceToNat, negative, decide_true, if_true, power, Nat.reduceLeDiff]
    push_cast
    ring

theorem dropSign_spec {content : List UInt8} (nonempty : content ≠ []) :
    signedValue (dropSign content) = signedValue content ∧ dropSign content ≠ [] ∧
      (dropSign content).length ≤ content.length := by
  induction content using dropSign.induct with
  | case1 first second rest redundant ih =>
    obtain ⟨value, some, short⟩ := ih (by simp)
    rw [dropSign, if_pos redundant]
    refine ⟨value.trans (signedValue_cons_cons first second rest redundant).symm, some, ?_⟩
    rw [length_cons]
    omega
  | case2 first second rest needed =>
    rw [dropSign, if_neg needed]
    simp
  | case3 content short =>
    have same : dropSign content = content := by
      unfold dropSign
      split
      next first second rest => exact absurd rfl (short first second rest)
      · rfl
    rw [same]
    exact ⟨rfl, nonempty, Nat.le_refl _⟩

variable (val : BitVec 64)

theorem integerOctets_length : (integerOctets val).length = 8 := by
  simp [integerOctets]

theorem bigEndian_integerOctets : bigEndian (integerOctets val) = val.toNat := by
  have octet (i : Nat) : (UInt8.ofNat (val.toNat / 256 ^ (7 - i) % 256)).toNat = val.toNat / 256 ^ (7 - i) % 256 :=
    toNat_ofNat_lt (by omega)
  simp only [integerOctets, bigEndian, foldl_map, octet]
  simp only [List.range, List.range.loop, foldl_cons, foldl_nil]
  norm_num
  omega

theorem integerValue_dropSign : integerValue (dropSign (integerOctets val)) = val := by
  have length := integerOctets_length val
  have nonempty : integerOctets val ≠ [] := by
    rw [← length_pos_iff, length]
    omega
  obtain ⟨value, -, short⟩ := dropSign_spec nonempty
  rw [integerValue_eq (by omega), value, signedValue, bigEndian_integerOctets, length]
  rw [← ofNat_eq_ofInt (v := val.toNat), BitVec.ofNat_toNat, BitVec.setWidth_eq]
  split <;> omega

end Yaz.Ber
