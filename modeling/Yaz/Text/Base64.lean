import Yaz.Comstack.Complete

/-! Base64, as `base64.c` writes and reads it.

A text is the list of its octets before the NUL. The reader skips blanks inside of a group of four
characters, and counts them when it decides whether another group is left.
-/

set_option autoImplicit false

namespace Yaz.Base64
open List Yaz.Comstack

def encoding : List UInt8 := ascii "ABCDEFGHIJKLMNOPQRSTUVWXYZabcdefghijklmnopqrstuvwxyz0123456789+/"

/-- `encoding[n & 63]`. -/
def encodingAt (n : Nat) : UInt8 := encoding.getD (n % 64) 0

def joined (a b c : UInt8) : Nat := a.toNat <<< 16 + b.toNat <<< 8 + c.toNat

def yazBase64encode : List UInt8 → List UInt8
  | [] => []
  | [a] =>
    let n := joined a 0 0
    [encodingAt (n >>> 18), encodingAt (n >>> 12), 61, 61]
  | [a, b] =>
    let n := joined a b 0
    [encodingAt (n >>> 18), encodingAt (n >>> 12), encodingAt (n >>> 6), 61]
  | a :: b :: c :: rest =>
    let n := joined a b c
    encodingAt (n >>> 18) :: encodingAt (n >>> 12) :: encodingAt (n >>> 6) :: encodingAt n :: yazBase64encode rest

def isBlank (c : UInt8) : Bool := c = 13 || c = 10 || c = 9 || c = 12 || c = 32

/-- What `next_char` returns: -1, -2 in front of an equals sign, or six bits. -/
inductive Next where
  | failed
  | pad
  | bits (i : Nat)
  deriving DecidableEq

/-- `next_char`, with what is left. -/
def nextChar (mem : List UInt8) : Next × List UInt8 :=
  match mem.dropWhile isBlank with
  | [] => (.failed, [])
  | c :: rest =>
    if c = 61 then (.pad, c :: rest)
    else match encoding.idxOf? c with
      | some i => (.bits i, rest)
      | none => (.failed, c :: rest)

/-- The loop of `yaz_base64decode`, in which a round takes at least four characters; `none` is the result -1. -/
def decodeGroups : Nat → List UInt8 → Option (List UInt8)
  | 0, _ => some []
  | rounds + 1, mem =>
    if mem.length < 4 then some []
    else match nextChar mem with
      | (.bits i0, mem) =>
        match nextChar mem with
        | (.bits i1, mem) =>
          let first := UInt8.ofNat (i0 <<< 2 ||| i1 >>> 4)
          match nextChar mem with
          | (.pad, _) => some [first]
          | (.failed, _) => none
          | (.bits i2, mem) =>
            let second := UInt8.ofNat (i1 <<< 4 ||| i2 >>> 2)
            match nextChar mem with
            | (.pad, _) => some [first, second]
            | (.failed, _) => none
            | (.bits i3, mem) =>
              let third := UInt8.ofNat (i2 <<< 6 ||| i3)
              (decodeGroups rounds mem).map fun out => first :: second :: third :: out
        | _ => none
      | _ => none

def yazBase64decode (mem : List UInt8) : Option (List UInt8) := decodeGroups mem.length mem

theorem nextChar_blank {c : UInt8} (blank : isBlank c = true) (mem : List UInt8) : nextChar (c :: mem) = nextChar mem := by
  rw [nextChar, dropWhile_cons_of_pos blank]
  rfl

theorem encodingAt_spec : ∀ n < 64, isBlank (encodingAt n) = false ∧ encodingAt n ≠ 61 ∧ encoding.idxOf? (encodingAt n) = some n := by
  unfold encodingAt encoding
  rw [ascii_ofList]
  decide

theorem nextChar_encodingAt (n : Nat) (mem : List UInt8) : nextChar (encodingAt n :: mem) = (.bits (n % 64), mem) := by
  have same : encodingAt n = encodingAt (n % 64) := by rw [encodingAt, encodingAt, Nat.mod_mod]
  obtain ⟨noBlank, noPad, found⟩ := encodingAt_spec (n % 64) (Nat.mod_lt _ (by decide))
  rw [same, nextChar, dropWhile_cons_of_neg (by simp [noBlank])]
  dsimp only
  rw [if_neg noPad, found]

variable (mem : List UInt8)

theorem nextChar_pad : nextChar (61 :: mem) = (.pad, 61 :: mem) := by
  rw [nextChar, dropWhile_cons_of_neg (by decide)]
  rfl

theorem shiftLeft_or {low k : Nat} (few : low < 2 ^ k) (high : Nat) : high <<< k ||| low = high * 2 ^ k + low := by
  rw [← Nat.shiftLeft_add_eq_or_of_lt few, Nat.shiftLeft_eq]

variable (a b c : UInt8)

theorem joined_eq : joined a b c = a.toNat * 2 ^ 16 + b.toNat * 2 ^ 8 + c.toNat := by
  rw [joined, Nat.shiftLeft_eq, Nat.shiftLeft_eq]

theorem first_octet :
    UInt8.ofNat ((joined a b c >>> 18 % 64) <<< 2 ||| (joined a b c >>> 12 % 64) >>> 4) = a := by
  have smallA := a.toNat_lt
  have smallB := b.toNat_lt
  have smallC := c.toNat_lt
  have few : (joined a b c >>> 12 % 64) >>> 4 < 2 ^ 2 := by
    rw [Nat.shiftRight_eq_div_pow, Nat.shiftRight_eq_div_pow]
    omega
  have whole : joined a b c >>> 18 % 64 * 2 ^ 2 + (joined a b c >>> 12 % 64) >>> 4 = a.toNat := by
    simp only [Nat.shiftRight_eq_div_pow, joined_eq]
    omega
  rw [shiftLeft_or few, whole, UInt8.ofNat_toNat]

theorem second_octet :
    UInt8.ofNat ((joined a b c >>> 12 % 64) <<< 4 ||| (joined a b c >>> 6 % 64) >>> 2) = b := by
  have smallB := b.toNat_lt
  have smallC := c.toNat_lt
  have few : (joined a b c >>> 6 % 64) >>> 2 < 2 ^ 4 := by
    rw [Nat.shiftRight_eq_div_pow, Nat.shiftRight_eq_div_pow]
    omega
  have whole : (joined a b c >>> 12 % 64 * 2 ^ 4 + (joined a b c >>> 6 % 64) >>> 2) % 2 ^ 8 = b.toNat := by
    simp only [Nat.shiftRight_eq_div_pow, joined_eq]
    omega
  rw [shiftLeft_or few]
  apply UInt8.toNat_inj.mp
  rw [UInt8.toNat_ofNat', whole]

theorem third_octet : UInt8.ofNat ((joined a b c >>> 6 % 64) <<< 6 ||| joined a b c % 64) = c := by
  have smallC := c.toNat_lt
  have few : joined a b c % 64 < 2 ^ 6 := Nat.mod_lt _ (by decide)
  have whole : (joined a b c >>> 6 % 64 * 2 ^ 6 + joined a b c % 64) % 2 ^ 8 = c.toNat := by
    simp only [Nat.shiftRight_eq_div_pow, joined_eq]
    omega
  rw [shiftLeft_or few]
  apply UInt8.toNat_inj.mp
  rw [UInt8.toNat_ofNat', whole]

variable (s : List UInt8)

theorem length_le_yazBase64encode : s.length ≤ (yazBase64encode s).length := by
  induction s using yazBase64encode.induct with
  | case1 => exact Nat.le_refl _
  | case2 a => exact Nat.le_of_ble_eq_true rfl
  | case3 a b => exact Nat.le_of_ble_eq_true rfl
  | case4 a b c rest ih =>
    simp only [yazBase64encode, length_cons]
    omega

theorem decodeGroups_yazBase64encode {rounds : Nat} (enough : s.length ≤ rounds) :
    decodeGroups rounds (yazBase64encode s) = some s := by
  induction s using yazBase64encode.induct generalizing rounds with
  | case1 => cases rounds <;> rfl
  | case2 a =>
    obtain ⟨rounds, rfl⟩ := Nat.exists_eq_succ_of_ne_zero (Nat.ne_of_gt enough)
    rw [yazBase64encode, decodeGroups, if_neg (by simp)]
    simp only [nextChar_encodingAt, nextChar_pad, first_octet]
  | case3 a b =>
    obtain ⟨rounds, rfl⟩ := Nat.exists_eq_succ_of_ne_zero (Nat.ne_of_gt (Nat.lt_of_lt_of_le (by simp) enough))
    rw [yazBase64encode, decodeGroups, if_neg (by simp)]
    simp only [nextChar_encodingAt, nextChar_pad, first_octet, second_octet]
  | case4 a b c rest ih =>
    simp only [length_cons] at enough
    obtain ⟨rounds, rfl⟩ := Nat.exists_eq_succ_of_ne_zero (Nat.ne_of_gt (Nat.lt_of_lt_of_le (Nat.succ_pos _) enough))
    have behind := @ih rounds (by omega)
    rw [yazBase64encode, decodeGroups, if_neg (by simp)]
    simp only [nextChar_encodingAt, first_octet, second_octet, third_octet, behind, Option.map_some]

theorem yazBase64decode_yazBase64encode : yazBase64decode (yazBase64encode s) = some s :=
  decodeGroups_yazBase64encode s (length_le_yazBase64encode s)

/-! ### Blanks -/

inductive Spaced : List UInt8 → List UInt8 → Prop where
  | nil : Spaced [] []
  | character (c : UInt8) {text spaced : List UInt8} : Spaced text spaced → Spaced (c :: text) (c :: spaced)
  | blank {c : UInt8} {text spaced : List UInt8} : isBlank c = true → Spaced text spaced → Spaced text (c :: spaced)

def significant (mem : List UInt8) : List UInt8 := mem.filter fun c => !isBlank c

theorem Spaced.significant {text spaced : List UInt8} (h : Spaced text spaced) : significant spaced = significant text := by
  induction h with
  | nil => rfl
  | character _ _ ih => rw [Base64.significant, Base64.significant, filter_cons, filter_cons, ← Base64.significant,
      ← Base64.significant, ih]
  | blank isBlank _ ih => rw [Base64.significant, filter_cons_of_neg (by simp [isBlank]), ← Base64.significant, ih]

/-- What is left behind `n` characters that are not blank. -/
def behind : Nat → List UInt8 → List UInt8
  | 0, mem => mem
  | n + 1, mem => behind n ((mem.dropWhile isBlank).drop 1)

def leftBehind (mem : List UInt8) : Nat := (behind (4 * ((significant mem).length / 4)) mem).length

def meaning : Option UInt8 → Next
  | none => .failed
  | some c => if c = 61 then .pad else match encoding.idxOf? c with
    | some i => .bits i
    | none => .failed

def group (x0 x1 x2 x3 : Next) (next : Option (List UInt8)) : Option (List UInt8) :=
  match x0, x1 with
  | .bits i0, .bits i1 =>
    match x2 with
    | .pad => some [UInt8.ofNat (i0 <<< 2 ||| i1 >>> 4)]
    | .failed => none
    | .bits i2 =>
      match x3 with
      | .pad => some [UInt8.ofNat (i0 <<< 2 ||| i1 >>> 4), UInt8.ofNat (i1 <<< 4 ||| i2 >>> 2)]
      | .failed => none
      | .bits i3 => next.map fun out => UInt8.ofNat (i0 <<< 2 ||| i1 >>> 4) :: UInt8.ofNat (i1 <<< 4 ||| i2 >>> 2) ::
          UInt8.ofNat (i2 <<< 6 ||| i3) :: out
  | _, _ => none

def reading (another : Bool) : List UInt8 → Option (List UInt8)
  | c0 :: c1 :: c2 :: c3 :: rest =>
    group (meaning (some c0)) (meaning (some c1)) (meaning (some c2)) (meaning (some c3)) (reading another rest)
  | few => if another then group (meaning few[0]?) (meaning few[1]?) (meaning few[2]?) .failed none else some []

theorem significant_behind (n : Nat) (mem : List UInt8) : significant (behind n mem) = (significant mem).drop n := by
  induction n generalizing mem with
  | zero => rfl
  | succ _ ih =>
    have one : significant ((mem.dropWhile isBlank).drop 1) = (significant mem).drop 1 := by
      induction mem with
      | nil => rfl
      | cons c mem later =>
        by_cases blank : isBlank c = true
        · have same : significant (c :: mem) = significant mem := filter_cons_of_neg (by simp [blank])
          rw [dropWhile_cons_of_pos blank, same]
          exact later
        · have first : significant (c :: mem) = c :: significant mem := filter_cons_of_pos (by simpa using blank)
          rw [dropWhile_cons_of_neg blank, first]
          rfl
    rw [behind, ih, one, drop_drop, Nat.add_comm]

theorem behind_add (n k : Nat) (mem : List UInt8) : behind (n + k) mem = behind k (behind n mem) := by
  induction n generalizing mem with
  | zero => rw [Nat.zero_add, behind]
  | succ _ ih => rw [Nat.succ_add, behind, behind, ih]

theorem behind_length (n : Nat) (mem : List UInt8) : (behind n mem).length ≤ mem.length - n := by
  induction n generalizing mem with
  | zero => exact Nat.le_refl _
  | succ _ ih =>
    have skipped := (dropWhile_suffix isBlank (l := mem)).length_le
    have rest := ih ((mem.dropWhile isBlank).drop 1)
    rw [length_drop] at rest
    rw [behind]
    omega

theorem nextChar_eq :
    (nextChar mem).1 = meaning (significant mem)[0]? ∧ ∀ i, (nextChar mem).1 = .bits i → (nextChar mem).2 = behind 1 mem := by
  induction mem with
  | nil => exact ⟨rfl, fun i is => nomatch is⟩
  | cons c mem ih =>
    by_cases blank : isBlank c = true
    · have same : significant (c :: mem) = significant mem := filter_cons_of_neg (by simp [blank])
      have next : behind 1 (c :: mem) = behind 1 mem := by simp only [behind, dropWhile_cons_of_pos blank]
      rw [nextChar_blank blank, same, next]
      exact ih
    · have first : significant (c :: mem) = c :: significant mem := filter_cons_of_pos (by simpa using blank)
      have next : behind 1 (c :: mem) = mem := by rw [behind, dropWhile_cons_of_neg blank]; rfl
      have is : nextChar (c :: mem) = if c = 61 then (.pad, c :: mem) else match encoding.idxOf? c with
          | some i => (.bits i, mem)
          | none => (.failed, c :: mem) := by
        rw [nextChar, dropWhile_cons_of_neg blank]
      rw [first, next, is, getElem?_cons_zero, meaning]
      split
      · exact ⟨rfl, fun i is => nomatch is⟩
      · cases encoding.idxOf? c with
        | none => exact ⟨rfl, fun i is => nomatch is⟩
        | some => exact ⟨rfl, fun _ _ => rfl⟩

theorem nextChar_behind (n : Nat) (mem : List UInt8) :
    ∃ rest, nextChar (behind n mem) = (meaning (significant mem)[n]?, rest) ∧
      ∀ i, meaning (significant mem)[n]? = .bits i → rest = behind (n + 1) mem := by
  obtain ⟨is, left⟩ := nextChar_eq (behind n mem)
  rw [significant_behind, getElem?_drop, Nat.add_zero] at is
  refine ⟨(nextChar (behind n mem)).2, Prod.ext is rfl, fun i bits => ?_⟩
  rw [behind_add n 1]
  exact left i (is.trans bits)

theorem decodeGroups_succ (rounds : Nat) (mem : List UInt8) :
    decodeGroups (rounds + 1) mem =
      if mem.length < 4 then some []
      else group (meaning (significant mem)[0]?) (meaning (significant mem)[1]?) (meaning (significant mem)[2]?)
        (meaning (significant mem)[3]?) (decodeGroups rounds (behind 4 mem)) := by
  obtain ⟨rest0, at0, left0⟩ := nextChar_behind 0 mem
  obtain ⟨rest1, at1, left1⟩ := nextChar_behind 1 mem
  obtain ⟨rest2, at2, left2⟩ := nextChar_behind 2 mem
  obtain ⟨rest3, at3, left3⟩ := nextChar_behind 3 mem
  rw [behind] at at0
  rw [decodeGroups, at0]
  by_cases short : mem.length < 4
  · rw [if_pos short, if_pos short]
  · rw [if_neg short, if_neg short]
    -- A character that stands for bits leaves the one behind it; any other ends the group.
    cases is0 : meaning (significant mem)[0]? with
    | failed => rfl
    | pad => rfl
    | bits i0 =>
      rw [left0 i0 is0]
      simp only [at1]
      cases is1 : meaning (significant mem)[1]? with
      | failed => rfl
      | pad => rfl
      | bits i1 =>
        rw [left1 i1 is1]
        simp only [at2]
        cases is2 : meaning (significant mem)[2]? with
        | failed => rfl
        | pad => rfl
        | bits i2 =>
          rw [left2 i2 is2]
          simp only [at3]
          cases is3 : meaning (significant mem)[3]? with
          | failed => rfl
          | pad => rfl
          | bits i3 =>
            rw [left3 i3 is3]
            rfl

theorem significant_length : (significant mem).length ≤ mem.length := length_filter_le _ _

theorem leftBehind_few {mem : List UInt8} (few : (significant mem).length < 4) : leftBehind mem = mem.length := by
  rw [leftBehind, Nat.div_eq_of_lt few]
  rfl

theorem leftBehind_group {mem : List UInt8} (four : 4 ≤ (significant mem).length) : leftBehind (behind 4 mem) = leftBehind mem := by
  have count : 4 * ((significant mem).length / 4) = 4 + 4 * (((significant mem).length - 4) / 4) := by omega
  rw [leftBehind, leftBehind, significant_behind, length_drop, count, behind_add]

theorem exists_four {s : List UInt8} (four : 4 ≤ s.length) : ∃ c0 c1 c2 c3 rest, s = c0 :: c1 :: c2 :: c3 :: rest :=
  match s, four with
  | c0 :: c1 :: c2 :: c3 :: rest, _ => ⟨c0, c1, c2, c3, rest, rfl⟩

theorem reading_few (another : Bool) {s : List UInt8} (few : s.length < 4) :
    reading another s = if another then group (meaning s[0]?) (meaning s[1]?) (meaning s[2]?) .failed none else some [] :=
  match s, few with
  | [], _ => rfl
  | [_], _ => rfl
  | [_, _], _ => rfl
  | [_, _, _], _ => rfl

theorem group_failed (x0 x1 x2 : Next) (next : Option (List UInt8)) : group x0 x1 x2 .failed next = group x0 x1 x2 .failed none := by
  cases x0 <;> cases x1 <;> cases x2 <;> rfl

theorem group_failed_ne (x0 x1 x2 : Next) : group x0 x1 x2 .failed none ≠ some [] := by
  cases x0 <;> cases x1 <;> cases x2 <;> simp [group]

/-- What the decoder makes of a text depends on its characters that are not blank, and on whether four octets are left behind
their last complete group. -/
theorem decodeGroups_eq {rounds : Nat} (enough : mem.length ≤ rounds) :
    decodeGroups rounds mem = reading (decide (4 ≤ leftBehind mem)) (significant mem) := by
  induction rounds generalizing mem with
  | zero =>
    rw [eq_nil_of_length_eq_zero (Nat.le_zero.mp enough)]
    rfl
  | succ _ ih =>
    have fewer := significant_length mem
    have shorter := behind_length 4 mem
    rw [decodeGroups_succ]
    by_cases four : 4 ≤ (significant mem).length
    · have ahead := ih (behind 4 mem) (by omega)
      rw [if_neg (by omega), ahead, leftBehind_group four, significant_behind]
      obtain ⟨c0, c1, c2, c3, rest, chars⟩ := exists_four four
      rw [chars]
      rfl
    · have few : (significant mem).length < 4 := Nat.lt_of_not_le four
      rw [reading_few _ few, leftBehind_few few, getElem?_eq_none (i := 3) (by omega)]
      by_cases short : mem.length < 4
      · rw [if_pos short, if_neg (by simpa using short)]
      · rw [if_neg short, if_pos (by simpa using short)]
        exact group_failed _ _ _ _

theorem yazBase64decode_eq :
    yazBase64decode mem = reading (decide (4 ≤ leftBehind mem)) (significant mem) :=
  decodeGroups_eq mem (Nat.le_refl _)

theorem pad_not_mem : (61 : UInt8) ∉ encoding := by
  rw [encoding, ascii_ofList]
  decide

theorem meaning_bits {c : UInt8} (known : c ∈ encoding) : ∃ i, meaning (some c) = .bits i := by
  obtain ⟨i, found⟩ := Option.isSome_iff_exists.mp (isSome_idxOf?.mpr known)
  refine ⟨i, ?_⟩
  have noPad : c ≠ 61 := fun pad => pad_not_mem (by rwa [pad] at known)
  simp only [meaning, if_neg noPad, found]

theorem meaning_ne_bits {c : UInt8} (unknown : c ∉ encoding) (i : Nat) : meaning (some c) ≠ .bits i := by
  have missing : encoding.idxOf? c = none := idxOf?_eq_none_iff.mpr unknown
  simp only [meaning, missing]
  split <;> exact Next.noConfusion

theorem group_stops {x0 x1 x2 x3 : Next} (stop : (∀ i, x0 ≠ .bits i) ∨ (∀ i, x1 ≠ .bits i) ∨ (∀ i, x2 ≠ .bits i) ∨ ∀ i, x3 ≠ .bits i)
    (next next' : Option (List UInt8)) : group x0 x1 x2 x3 next = group x0 x1 x2 x3 next' := by
  cases x0 with
  | failed => rfl
  | pad => rfl
  | bits =>
    cases x1 with
    | failed => rfl
    | pad => rfl
    | bits =>
      cases x2 with
      | failed => rfl
      | pad => rfl
      | bits =>
        cases x3 with
        | failed => rfl
        | pad => rfl
        | bits =>
          rcases stop with no | no | no | no
          all_goals exact absurd rfl (no _)

theorem group_goes_on (i0 i1 i2 i3 : Nat) {next next' : Option (List UInt8)} :
    group (.bits i0) (.bits i1) (.bits i2) (.bits i3) next = group (.bits i0) (.bits i1) (.bits i2) (.bits i3) next' ↔ next = next' := by
  constructor
  · intro same
    refine Option.map_injective (fun out out' equal => ?_) same
    simpa using equal
  · exact fun same => by rw [same]

theorem reading_same_iff :
    reading true s = reading false s ↔ ∃ c ∈ s.take (4 * (s.length / 4)), c ∉ encoding := by
  induction count : s.length using Nat.strong_induction_on generalizing s with
  | _ n earlier =>
  subst count
  by_cases four : 4 ≤ s.length
  · -- the first character that is none of the encoding stops both readings in its group
    obtain ⟨c0, c1, c2, c3, rest, rfl⟩ := exists_four four
    have ih := earlier rest.length (by simp only [length_cons]; omega) rest rfl
    have count : 4 * ((c0 :: c1 :: c2 :: c3 :: rest).length / 4) = 4 * (rest.length / 4) + 1 + 1 + 1 + 1 := by
      simp only [length_cons]
      omega
    rw [reading, reading, count]
    simp only [take_succ_cons, mem_cons, exists_eq_or_imp]
    rw [← ih]
    by_cases known0 : c0 ∈ encoding
    · by_cases known1 : c1 ∈ encoding
      · by_cases known2 : c2 ∈ encoding
        · by_cases known3 : c3 ∈ encoding
          · obtain ⟨i0, is0⟩ := meaning_bits known0
            obtain ⟨i1, is1⟩ := meaning_bits known1
            obtain ⟨i2, is2⟩ := meaning_bits known2
            obtain ⟨i3, is3⟩ := meaning_bits known3
            rw [is0, is1, is2, is3, group_goes_on]
            simp [known0, known1, known2, known3]
          · exact iff_of_true (group_stops (.inr (.inr (.inr (meaning_ne_bits known3)))) _ _) (.inr (.inr (.inr (.inl known3))))
        · exact iff_of_true (group_stops (.inr (.inr (.inl (meaning_ne_bits known2)))) _ _) (.inr (.inr (.inl known2)))
      · exact iff_of_true (group_stops (.inr (.inl (meaning_ne_bits known1))) _ _) (.inr (.inl known1))
    · exact iff_of_true (group_stops (.inl (meaning_ne_bits known0)) _ _) (.inl known0)
  · have less : s.length < 4 := Nat.lt_of_not_le four
    rw [reading_few true less, reading_few false less, Nat.div_eq_of_lt less]
    refine iff_of_false (group_failed_ne _ _ _) ?_
    rintro ⟨c, inside, -⟩
    exact nomatch inside

/-- What is encoded is decoded; blanks change nothing where the decoder stops inside of the complete groups of characters, or
four octets are left behind them in both texts or in none. -/
theorem base64_reads (s : List UInt8) {t spaced : List UInt8} (blanks : Spaced t spaced) :
    yazBase64decode (yazBase64encode s) = some s ∧
      (yazBase64decode spaced = yazBase64decode t ↔
        (∃ c ∈ (significant t).take (4 * ((significant t).length / 4)), c ∉ encoding) ∨ (4 ≤ leftBehind t ↔ 4 ≤ leftBehind spaced)) := by
  refine ⟨yazBase64decode_yazBase64encode s, ?_⟩
  rw [yazBase64decode_eq, yazBase64decode_eq, blanks.significant, ← reading_same_iff]
  by_cases before : 4 ≤ leftBehind t
  · by_cases after : 4 ≤ leftBehind spaced
    · simp [before, after]
    · simp only [before, after, decide_true, decide_false, iff_false, not_true, or_false]
      exact eq_comm
  · by_cases after : 4 ≤ leftBehind spaced
    · simp [before, after]
    · simp [before, after]

theorem base64_reads_inside : yazBase64decode (yazBase64encode [77, 97]) = some [77, 97] ∧
    (yazBase64decode (ascii "QUJD ") = yazBase64decode (ascii "QUJD") ↔
      (∃ c ∈ (significant (ascii "QUJD")).take (4 * ((significant (ascii "QUJD")).length / 4)), c ∉ encoding) ∨
        (4 ≤ leftBehind (ascii "QUJD") ↔ 4 ≤ leftBehind (ascii "QUJD "))) := by
  refine base64_reads [77, 97] ?_
  rw [ascii_ofList, ascii_ofList]
  exact .character _ (.character _ (.character _ (.character _ (.blank rfl .nil))))

/-- Four blanks behind a text make its decoder look for another group. -/
theorem base64_blanks_behind : Spaced (ascii "QUJD") (ascii "QUJD    ") ∧
    yazBase64decode (ascii "QUJD") = some (ascii "ABC") ∧ yazBase64decode (ascii "QUJD    ") = none := by
  refine ⟨?_, ?_, ?_⟩
  · rw [ascii_ofList, ascii_ofList]
    have blanks : Spaced [] [32, 32, 32, 32] := .blank rfl (.blank rfl (.blank rfl (.blank rfl .nil)))
    exact .character _ (.character _ (.character _ (.character _ blanks)))
  · unfold yazBase64decode
    rw [ascii_ofList, ascii_ofList]
    decide
  · unfold yazBase64decode
    rw [ascii_ofList]
    decide

end Yaz.Base64
