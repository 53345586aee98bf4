import Yaz.Oid.Standard

/-! The comparison of names of `matchstr.c`, and a database of object identifiers that entries are added to.

The comparison skips one hyphen on each side before it compares two octets. Hyphens in front of an octet so go away in pairs,
and those behind the last octet must be as many on both sides.
-/

set_option autoImplicit false

namespace Yaz.Oid
open List
open Yaz.Comstack (ascii isUpper toLower)

variable {s1 s2 name : List UInt8} {oclass : OidClass}

/-! ### Names -/

def Literal (s : List UInt8) : Prop := 63 ∉ s ∧ 46 ∉ s

def bareName (s : List UInt8) : List UInt8 := (s.filter (· ≠ 45)).map toLower

/-- The halves of the hyphens in front of each other octet, and the number of those at the end; `n` are already counted. -/
def hyphens : (n : Nat) → List UInt8 → List Nat
  | n, [] => [n]
  | n, c :: s => if c = 45 then hyphens (n + 1) s else n / 2 :: hyphens 0 s

theorem bareName_hyphen (s : List UInt8) : bareName (45 :: s) = bareName s := by
  rw [bareName, bareName, filter_cons_of_neg (by simp)]

theorem bareName_cons {c : UInt8} (other : c ≠ 45) (s : List UInt8) : bareName (c :: s) = toLower c :: bareName s := by
  rw [bareName, bareName, filter_cons_of_pos (by simpa using other), map_cons]

theorem hyphens_hyphen (n : Nat) (s : List UInt8) : hyphens n (45 :: s) = hyphens (n + 1) s := by
  rw [hyphens, if_pos rfl]

theorem hyphens_cons {c : UInt8} (other : c ≠ 45) (n : Nat) (s : List UInt8) : hyphens n (c :: s) = n / 2 :: hyphens 0 s := by
  rw [hyphens, if_neg other]

/-- Two more hyphens in front do not matter where the names agree. -/
theorem hyphens_pair (same : bareName s1 = bareName s2) (n m : Nat) :
    hyphens (n + 2) s1 = hyphens (m + 2) s2 ↔ hyphens n s1 = hyphens m s2 := by
  have shift : ∀ (s : List UInt8) (n : Nat), ∃ first rest, hyphens n s = first :: rest ∧
      hyphens (n + 2) s = (if bareName s = [] then first + 2 else first + 1) :: rest := by
    intro s
    induction s with
    | nil => exact fun n => ⟨n, [], rfl, rfl⟩
    | cons c s ih =>
      intro n
      by_cases hyphen : c = 45
      · rw [hyphen, hyphens_hyphen, hyphens_hyphen, bareName_hyphen]
        exact ih (n + 1)
      · refine ⟨n / 2, hyphens 0 s, hyphens_cons hyphen n s, ?_⟩
        rw [hyphens_cons hyphen, bareName_cons hyphen, if_neg (cons_ne_nil _ _), Nat.add_div_right n Nat.two_pos]
  obtain ⟨first, rest, plain, more⟩ := shift s1 n
  obtain ⟨first', rest', plain', more'⟩ := shift s2 m
  rw [plain, more, plain', more', same]
  split <;> simp

theorem toLower_hyphen {c : UInt8} : toLower c = 45 ↔ c = 45 := by
  rw [toLower]
  split
  · have upper : 65 ≤ c.toNat ∧ c.toNat ≤ 90 := by simpa [isUpper] using ‹isUpper c = true›
    constructor
    · intro low
      have := congrArg UInt8.toNat low
      simp [UInt8.toNat_add] at this
      omega
    · rintro rfl
      exact absurd upper.1 (by decide)
  · exact Iff.rfl

/-- A name whose bare form is empty consists of hyphens. -/
theorem hyphens_blank {s : List UInt8} (blank : bareName s = []) (n : Nat) : hyphens n s = [n + s.length] := by
  induction s generalizing n with
  | nil => rfl
  | cons c _ ih =>
    by_cases hyphen : c = 45
    · rw [hyphen, bareName_hyphen] at blank
      rw [hyphen, hyphens_hyphen, ih blank, length_cons, Nat.add_assoc, Nat.add_comm 1]
    · rw [bareName_cons hyphen] at blank
      cases blank

def Agree (n : Nat) (s1 : List UInt8) (m : Nat) (s2 : List UInt8) : Prop := bareName s1 = bareName s2 ∧ hyphens n s1 = hyphens m s2

theorem agree_comm {n m : Nat} : Agree n s1 m s2 ↔ Agree m s2 n s1 := by
  rw [Agree, Agree, eq_comm, @eq_comm _ (hyphens n s1)]

/-- Two hyphens have been taken from one name only: the octet of the other one is compared with a hyphen. -/
theorem not_agree_pair {d : UInt8} (other : d ≠ 45) {m : Nat} (few : m ≤ 1) : ¬Agree 2 s1 m (d :: s2) := by
  have large : ∀ (s : List UInt8) (n : Nat), 2 ≤ n → ∀ first ∈ (hyphens n s).head?, 1 ≤ first := by
    intro s
    induction s with
    | nil =>
      intro n two first is
      cases is
      omega
    | cons c _ ih =>
      intro n two first is
      by_cases hyphen : c = 45
      · rw [hyphen, hyphens_hyphen] at is
        exact ih (n + 1) (by omega) first is
      · rw [hyphens_cons hyphen] at is
        cases is
        omega
  rintro ⟨-, same⟩
  rw [hyphens_cons other] at same
  have := large s1 2 le_rfl (m / 2) (by rw [same]; rfl)
  omega

/-- One round compares two octets. -/
theorem agree_cons {n m : Nat} {c d : UInt8} (few : n ≤ 1) (few' : m ≤ 1) (first : n = 0 → c ≠ 45) (first' : m = 0 → d ≠ 45) :
    Agree n (c :: s1) m (d :: s2) ↔ toLower c = toLower d ∧ Agree 0 s1 0 s2 := by
  by_cases hyphen : c = 45
  · have one : n = 1 := by have := mt first (not_not.mpr hyphen); omega
    by_cases hyphen' : d = 45
    · have one' : m = 1 := by have := mt first' (not_not.mpr hyphen'); omega
      rw [hyphen, hyphen', one, one', Agree, Agree, bareName_hyphen, bareName_hyphen, hyphens_hyphen, hyphens_hyphen, and_iff_right rfl]
      exact and_congr_right fun same => hyphens_pair same 0 0
    · refine iff_of_false ?_ fun both => hyphen' (toLower_hyphen.mp (by rw [← both.1, hyphen]; rfl))
      rw [hyphen, one, Agree, bareName_hyphen, hyphens_hyphen]
      exact not_agree_pair hyphen' few'
  · by_cases hyphen' : d = 45
    · have one' : m = 1 := by have := mt first' (not_not.mpr hyphen'); omega
      refine iff_of_false ?_ fun both => hyphen (toLower_hyphen.mp (by rw [both.1, hyphen']; rfl))
      rw [agree_comm, hyphen', one', Agree, bareName_hyphen, hyphens_hyphen]
      exact not_agree_pair hyphen few
    · have none : n / 2 = m / 2 := by omega
      rw [Agree, Agree, bareName_cons hyphen, bareName_cons hyphen', hyphens_cons hyphen, hyphens_cons hyphen', none, List.cons.injEq,
        List.cons.injEq, and_iff_right rfl, and_assoc]

theorem agree_nil {m : Nat} (few : m ≤ 1) (first : m = 0 → ∃ c rest, s2 = c :: rest ∧ c ≠ 45) : Agree 1 [] m s2 ↔ s2 = [] := by
  constructor
  · rintro ⟨blank, same⟩
    rw [hyphens_blank blank.symm, hyphens, singleton_inj] at same
    by_contra some
    have := length_pos_iff.mpr some
    obtain ⟨c, rest, rfl, other⟩ := first (by omega)
    rw [bareName_cons other] at blank
    cases blank
  · rintro rfl
    have one : m = 1 := by
      by_contra none
      obtain ⟨c, rest, is, -⟩ := first (by omega)
      cases is
    rw [one]
    exact ⟨rfl, rfl⟩

theorem agree_empty : Agree 0 [] 0 s2 ↔ s2 = [] := by
  constructor
  · rintro ⟨blank, same⟩
    rw [hyphens_blank blank.symm, hyphens, singleton_inj, Nat.zero_add] at same
    exact length_eq_zero_iff.mp same.symm
  · rintro rfl
    exact ⟨rfl, rfl⟩

/-- What is left of a name when one hyphen has been skipped. -/
theorem skip_hyphen (c : UInt8) (s : List UInt8) :
    ∃ n ≤ 1, (n = 0 → ∃ c' rest, (if c = 45 then s else c :: s) = c' :: rest ∧ c' ≠ 45) ∧
      ∀ m s2, Agree 0 (c :: s) m s2 ↔ Agree n (if c = 45 then s else c :: s) m s2 := by
  by_cases hyphen : c = 45
  · refine ⟨1, Nat.le_refl 1, fun none => by omega, fun m s2 => ?_⟩
    rw [if_pos hyphen, hyphen, Agree, Agree, bareName_hyphen, hyphens_hyphen]
  · refine ⟨0, Nat.zero_le 1, fun _ => ⟨c, s, if_neg hyphen, hyphen⟩, fun m s2 => ?_⟩
    rw [if_neg hyphen]

theorem matchRounds_iff {rounds : Nat} (enough : s1.length ≤ rounds) (literal : Literal s2) : matchRounds rounds s1 s2 = true ↔
    Agree 0 s1 0 s2 := by
  induction rounds generalizing s1 s2 with
  | zero =>
    obtain rfl := length_eq_zero_iff.mp (Nat.le_zero.mp enough)
    rw [agree_empty]
    simp [matchRounds]
  | succ rounds ih =>
    cases s1 with
    | nil =>
      rw [agree_empty]
      simp [matchRounds]
    | cons c1 s1 =>
      cases s2 with
      | nil =>
        rw [agree_comm, agree_empty]
        simp [matchRounds]
      | cons c2 s2 =>
        obtain ⟨n, few, first, left⟩ := skip_hyphen c1 s1
        obtain ⟨m, few', first', right⟩ := skip_hyphen c2 s2
        have noWild : c2 ≠ 63 := fun wild => literal.1 (wild ▸ mem_cons_self)
        have length : (if c1 = 45 then s1 else c1 :: s1).length ≤ rounds + 1 := by
          split
          · exact Nat.le_of_succ_le enough
          · exact enough
        have members : ∀ c ∈ (if c2 = 45 then s2 else c2 :: s2), c ∈ c2 :: s2 := by
          split
          · exact fun c member => mem_cons_of_mem c2 member
          · exact fun c member => member
        rw [left, agree_comm, right, agree_comm, matchRounds, if_neg noWild]
        generalize (if c1 = 45 then s1 else c1 :: s1) = t1 at *
        generalize (if c2 = 45 then s2 else c2 :: s2) = t2 at *
        cases t1 with
        | nil =>
          have one : n = 1 := by
            by_contra none
            obtain ⟨c, rest, is, -⟩ := first (by omega)
            cases is
          rw [one, agree_nil few' first']
          simp
        | cons d1 =>
          cases t2 with
          | nil =>
            have one : m = 1 := by
              by_contra none
              obtain ⟨c, rest, is, -⟩ := first' (by omega)
              cases is
            rw [one, agree_comm, agree_nil few first]
            simp
          | cons d2 t2 =>
            have noDot : d2 ≠ 46 := fun dot => literal.2 (dot ▸ members d2 mem_cons_self)
            have behind : Literal t2 := ⟨fun wild => literal.1 (members _ (mem_cons_of_mem d2 wild)),
              fun dot => literal.2 (members _ (mem_cons_of_mem d2 dot))⟩
            have head : n = 0 → d1 ≠ 45 := by
              intro none
              obtain ⟨c, rest, is, other⟩ := first none
              cases is
              exact other
            have head' : m = 0 → d2 ≠ 45 := by
              intro none
              obtain ⟨c, rest, is, other⟩ := first' none
              cases is
              exact other
            rw [agree_cons few few' head head', ← ih (Nat.le_of_succ_le_succ length) behind]
            simp [noDot]

/-- Names are compared with `yaz_matchstr` as they should be, up to the hyphens that are skipped one at a time. -/
theorem yazMatchstr_iff (literal : Literal s2) : yazMatchstr s1 s2 = true ↔ bareName s1 = bareName s2 ∧ hyphens 0 s1 = hyphens 0 s2 :=
  matchRounds_iff (Nat.le_refl _) literal

theorem matchRounds_self {rounds : Nat} {s : List UInt8} (enough : s.length ≤ rounds) : matchRounds rounds s s = true := by
  induction rounds generalizing s with
  | zero =>
    obtain rfl := length_eq_zero_iff.mp (Nat.le_zero.mp enough)
    rfl
  | succ rounds ih =>
    cases s with
    | nil => rfl
    | cons c s =>
      have length : (if c = 45 then s else c :: s).length ≤ rounds + 1 := by
        split
        · exact Nat.le_of_succ_le enough
        · exact enough
      rw [matchRounds]
      generalize (if c = 45 then s else c :: s) = t at *
      cases t with
      | nil => simp
      | cons => simpa using .inr (ih (Nat.le_of_succ_le_succ length))

theorem yazMatchstr_self (s : List UInt8) : yazMatchstr s s = true := matchRounds_self (Nat.le_refl _)

abbrev LiteralName := {s : List UInt8 // Literal s}

/-- `yaz_matchstr` finds the names equal that are equal without hyphens and in small letters, with equally many
hyphens at the ends and equal halves of those in front of each other octet. It is an equivalence. -/
theorem yazMatchstr_equal_iff (s1 : List UInt8) (s2 : LiteralName) :
    (yazMatchstr s1 s2 = true ↔ bareName s1 = bareName s2 ∧ hyphens 0 s1 = hyphens 0 s2) ∧
      Equivalence fun s1 s2 : LiteralName => yazMatchstr s1 s2 = true := by
  refine ⟨yazMatchstr_iff s2.2, fun s => yazMatchstr_self s, fun {s1 s2} same => ?_, fun {s1 s2 s3} same next => ?_⟩
  · rw [yazMatchstr_iff s2.2] at same
    rw [yazMatchstr_iff s1.2]
    exact ⟨same.1.symm, same.2.symm⟩
  · rw [yazMatchstr_iff s2.2] at same
    rw [yazMatchstr_iff s3.2] at next ⊢
    exact ⟨same.1.trans next.1, same.2.trans next.2⟩

/-- A hyphen at the end makes a difference. -/
theorem yazMatchstr_trailing : ¬(yazMatchstr (ascii "utf8-") (ascii "utf8") = true ↔
    bareName (ascii "utf8-") = bareName (ascii "utf8")) := by
  decide

end Yaz.Oid
