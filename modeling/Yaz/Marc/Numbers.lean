import Yaz.Marc.Record
import Yaz.Pqf.Written

/-! The decimal numbers of a record: what `atoi_n` makes of the digits that are written with `%0*d`. -/

set_option autoImplicit false

namespace Yaz.Marc
open List Yaz.Comstack
open Yaz.Http (decimal)
open Yaz.Ber (intMax)
open Yaz.Pqf (digitsValue digitsValue_cons digitsValue_decimal decimal_digits decimal_ne_nil)

/-- `%0*d` of a number that is not negative. -/
def padded (width n : Nat) : List UInt8 := List.replicate (width - (decimal n).length) 48 ++ decimal n

theorem decimal_length_le {n width : Nat} (some : 0 < width) (small : n < 10 ^ width) : (decimal n).length ≤ width := by
  induction width generalizing n with
  | zero => exact absurd some (Nat.lt_irrefl 0)
  | succ width ih =>
    rw [decimal]
    split
    · exact Nat.succ_le_succ (Nat.zero_le width)
    next large =>
      cases width with
      | zero => exact absurd small (by omega)
      | succ width =>
        have tenth : n / 10 < 10 ^ (width + 1) := by
          omega
        have shorter := ih (Nat.succ_pos width) tenth
        rw [length_append, length_singleton]
        omega

theorem length_le_decimal {n width : Nat} (large : 10 ^ width ≤ n) : width < (decimal n).length := by
  induction width generalizing n with
  | zero => exact length_pos_of_ne_nil (decimal_ne_nil n)
  | succ width ih =>
    have some : 0 < 10 ^ width := Nat.pow_pos (by decide)
    have tenth : 10 ^ width ≤ n / 10 := by omega
    have longer := ih tenth
    rw [decimal, if_neg (by omega), length_append, length_singleton]
    omega

theorem padded_length {width n : Nat} (some : 0 < width) (small : n < 10 ^ width) : (padded width n).length = width := by
  have few := decimal_length_le some small
  rw [padded, length_append, length_replicate]
  omega

theorem padded_digits (width n : Nat) : ∀ c ∈ padded width n, isDigit c = true := by
  intro c inside
  rcases mem_append.mp inside with zero | digit
  · rw [eq_of_mem_replicate zero]
    rfl
  · exact decimal_digits n c digit

theorem digitsValue_zeros (number : Nat) (digits : List UInt8) :
    digitsValue 10 (List.replicate number 48 ++ digits) 0 = digitsValue 10 digits 0 := by
  induction number with
  | zero => rfl
  | succ _ ih =>
    rw [replicate_succ, cons_append, digitsValue_cons (by rfl)]
    exact ih

theorem digitsValue_padded (width n : Nat) : digitsValue 10 (padded width n) 0 = n := by
  rw [padded, digitsValue_zeros, digitsValue_decimal]

variable {digits : List UInt8}

theorem le_digitsValue (all : ∀ c ∈ digits, isDigit c = true) (value : Nat) : value ≤ digitsValue 10 digits value := by
  induction digits generalizing value with
  | nil => exact Nat.le_refl value
  | cons c _ ih =>
    rw [digitsValue_cons (all c mem_cons_self)]
    have later := ih (fun d inside => all d (mem_cons_of_mem c inside)) (value * 10 + (c.toNat - 48))
    omega

theorem yazAtoul_digits (all : ∀ c ∈ digits, isDigit c = true) (i value : Nat)
    (small : digitsValue 10 digits value ≤ intMax) :
      yazAtoul 10 digits i value = some (i + digits.length, digitsValue 10 digits value) := by
  induction digits generalizing i value with
  | nil => rfl
  | cons c digits ih =>
    have digit := all c mem_cons_self
    have rest : ∀ d ∈ digits, isDigit d = true := fun d inside => all d (mem_cons_of_mem c inside)
    have range : 48 ≤ c.toNat ∧ c.toNat ≤ 57 := by simpa [isDigit] using digit
    rw [digitsValue_cons digit] at small ⊢
    have least := le_digitsValue rest (value * 10 + (c.toNat - 48))
    have fits : ¬ (ulongMax - (c.toNat - 48)) / 10 < value := by
      rw [intMax] at small
      rw [ulongMax]
      omega
    rw [yazAtoul, digitValue, if_pos digit]
    dsimp only
    rw [if_neg (by omega), if_neg fits, ih rest (i + 1) _ small, length_cons]
    congr 2
    omega

theorem atoiNCheck_digits (all : ∀ c ∈ digits, isDigit c = true) (small : digitsValue 10 digits 0 ≤ intMax) :
    atoiNCheck digits = some (digitsValue 10 digits 0) := by
  have read : yazAtoi 10 digits = some (digits.length, digitsValue 10 digits 0) := by
    rw [yazAtoi, yazAtoul_digits all 0 0 small]
    dsimp only
    rw [if_neg (by omega), Nat.zero_add]
  rw [atoiNCheck, read]
  dsimp only
  rw [if_pos rfl]

theorem digitsValue_lt (all : ∀ c ∈ digits, isDigit c = true) (value : Nat) :
    digitsValue 10 digits value < (value + 1) * 10 ^ digits.length := by
  induction digits generalizing value with
  | nil =>
    rw [length_nil, Nat.pow_zero]
    exact Nat.lt_of_lt_of_eq (Nat.lt_succ_self value) (Nat.mul_one _).symm
  | cons c digits ih =>
    have range : 48 ≤ c.toNat ∧ c.toNat ≤ 57 := by simpa [isDigit] using all c mem_cons_self
    have later := ih (fun d inside => all d (mem_cons_of_mem c inside)) (value * 10 + (c.toNat - 48))
    have more : (value * 10 + (c.toNat - 48) + 1) * 10 ^ digits.length ≤ (value + 1) * 10 * 10 ^ digits.length :=
      Nat.mul_le_mul_right _ (by omega)
    rw [digitsValue_cons (all c mem_cons_self), length_cons, Nat.pow_succ, Nat.mul_comm (10 ^ digits.length) 10, ← Nat.mul_assoc]
    omega

/-- The octets that are read are digits, if all are. -/
theorem yazAtoul_all {octets : List UInt8} {i value j read : Nat} (is : yazAtoul 10 octets i value = some (j, read)) :
    j ≤ i + octets.length ∧ (j = i + octets.length → ∀ c ∈ octets, isDigit c = true) := by
  induction octets generalizing i value with
  | nil =>
    cases is
    exact ⟨Nat.le_refl _, fun _ c inside => nomatch inside⟩
  | cons c octets ih =>
    have stopped : j = i → j ≤ i + (c :: octets).length ∧ (j = i + (c :: octets).length → ∀ d ∈ c :: octets, isDigit d = true) := by
      intro same
      rw [length_cons]
      exact ⟨by omega, fun whole => absurd whole (by omega)⟩
    rw [yazAtoul, digitValue] at is
    by_cases digit : isDigit c = true
    · rw [if_pos digit] at is
      dsimp only at is
      split at is
      · cases is
        exact stopped rfl
      · split at is
        · cases is
        · obtain ⟨bound, all⟩ := ih is
          rw [length_cons]
          refine ⟨by omega, ?_⟩
          intro whole d inside
          rcases mem_cons.mp inside with rfl | inside
          · exact digit
          · exact all (by omega) d inside
    · rw [if_neg digit] at is
      split at is
      · cases is
        exact stopped rfl
      next number known =>
        -- a letter is no digit of a decimal number
        have large : 10 ≤ number := by
          split at known
          next upper =>
            have range : 65 ≤ c.toNat ∧ c.toNat ≤ 90 := by simpa [isUpper] using upper
            have value := Option.some.inj known
            omega
          · split at known
            next lower =>
              have range : 97 ≤ c.toNat ∧ c.toNat ≤ 122 := by simpa [isLower] using lower
              have value := Option.some.inj known
              omega
            · cases known
        rw [if_pos large] at is
        cases is
        exact stopped rfl

variable {buf : List UInt8} {n : Nat}

theorem atoiNCheck_read (is : atoiNCheck buf = some n) : yazAtoul 10 buf 0 0 = some (buf.length, n) := by
  rw [atoiNCheck, yazAtoi] at is
  cases read : yazAtoul 10 buf 0 0 with
  | none =>
    rw [read] at is
    cases is
  | some found =>
    rw [read] at is
    dsimp only at is
    by_cases large : Yaz.Ber.intMax < found.2
    · rw [if_pos large] at is
      cases is
    · rw [if_neg large] at is
      dsimp only at is
      split at is
      next whole =>
        cases is
        rw [← whole]
      · cases is

theorem atoiNCheck_all (is : atoiNCheck buf = some n) : ∀ c ∈ buf, isDigit c = true :=
  (yazAtoul_all (atoiNCheck_read is)).2 (by omega)

theorem yazAtoul_lt {i value j read : Nat} (is : yazAtoul 10 digits i value = some (j, read)) :
    read < (value + 1) * 10 ^ digits.length := by
  induction digits generalizing i value with
  | nil =>
    cases is
    rw [length_nil, Nat.pow_zero]
    omega
  | cons c digits ih =>
    have one : 0 < 10 ^ (c :: digits).length := Nat.pow_pos (by decide)
    have unread : value < (value + 1) * 10 ^ (c :: digits).length :=
      Nat.lt_of_lt_of_le (Nat.lt_succ_self value) (Nat.le_mul_of_pos_right _ one)
    rw [yazAtoul] at is
    split at is
    · cases is
      exact unread
    next digit known =>
      split at is
      · cases is
        exact unread
      next small =>
        split at is
        · cases is
        · have later := ih is
          have more : (value * 10 + digit + 1) * 10 ^ digits.length ≤ (value + 1) * 10 * 10 ^ digits.length :=
            Nat.mul_le_mul_right _ (by omega)
          rw [length_cons, Nat.pow_succ, Nat.mul_comm (10 ^ digits.length) 10, ← Nat.mul_assoc]
          omega

theorem atoiNCheck_lt (is : atoiNCheck buf = some n) : n < 10 ^ buf.length := by
  simpa using yazAtoul_lt (atoiNCheck_read is)

theorem atoiNCheck_padded (width : Nat) (small : n ≤ intMax) : atoiNCheck (padded width n) = some n := by
  have same := digitsValue_padded width n
  rw [atoiNCheck_digits (padded_digits width n) (by rw [same]; exact small), same]

theorem atoiN_padded (width : Nat) (small : n ≤ intMax) : atoiN (padded width n) = n := by
  rw [atoiN, atoiNCheck_padded width small, Option.getD_some]

theorem padded_long {width : Nat} (large : 10 ^ width ≤ n) (some : 0 < width) :
    padded width n = decimal (n / 10) ++ [UInt8.ofNat (48 + n % 10)] := by
  have longer := length_le_decimal large
  have ten : 10 ≤ n := by
    have least : 10 ^ 1 ≤ 10 ^ width := Nat.pow_le_pow_right (by decide) some
    omega
  have same : padded width n = decimal n := by
    rw [padded, Nat.sub_eq_zero_of_le (Nat.le_of_lt longer)]
    rfl
  rw [same, decimal, if_neg (by omega)]

theorem LeaderCheck.number_le (check : LeaderCheck) (offset least assumed : Nat) (digit : Option UInt8) (text : String)
    (small : assumed ≤ 9) :
    (check.number offset 1 least assumed digit text).1 ≤ 9 := by
  rw [LeaderCheck.number]
  split
  next value is =>
    split
    · have below := atoiNCheck_lt is
      have one : 10 ^ ((check.leader.drop offset).take 1).length ≤ 10 ^ 1 := Nat.pow_le_pow_right (by decide) (length_take_le 1 _)
      omega
    · exact small
  · exact small

theorem setLeader_le (leaderC : List UInt8) : (setLeader leaderC).1.lengthDataEntry ≤ 9 ∧ (setLeader leaderC).1.lengthStarting ≤ 9 := by
  rw [setLeader]
  constructor
  · apply LeaderCheck.number_le
    decide
  · apply LeaderCheck.number_le
    decide

theorem setLeader_indicatorLength_le (leaderC : List UInt8) : (setLeader leaderC).1.indicatorLength ≤ 9 := by
  rw [setLeader]
  apply LeaderCheck.number_le
  decide

theorem LeaderCheck.ascii_quiet {check : LeaderCheck} {offset : Nat} {chDefault : UInt8}
    (quiet : (check.ascii offset chDefault).comments = []) :
    check.comments = [] ∧ check.ascii offset chDefault = check := by
  rw [LeaderCheck.ascii] at quiet ⊢
  split at quiet
  · exact absurd quiet (append_ne_nil_of_right_ne_nil _ (cons_ne_nil _ _))
  next fine => exact ⟨quiet, if_neg fine⟩

theorem LeaderCheck.number_quiet {check : LeaderCheck} {offset size least assumed : Nat} {digit : Option UInt8} {text : String}
    (quiet : (check.number offset size least assumed digit text).2.comments = []) :
    check.comments = [] ∧ atoiNCheck ((check.leader.drop offset).take size) = some (check.number offset size least assumed digit text).1 ∧
      (check.number offset size least assumed digit text).2 = check := by
  have remark : check.comments ++ [marcCprintf (Comstack.ascii text)] ≠ [] := append_ne_nil_of_right_ne_nil _ (cons_ne_nil _ _)
  rw [LeaderCheck.number] at quiet ⊢
  cases is : atoiNCheck ((check.leader.drop offset).take size) with
  | none =>
    rw [is] at quiet
    exact absurd quiet remark
  | some value =>
    rw [is] at quiet
    dsimp only at quiet ⊢
    by_cases enough : least ≤ value
    · rw [if_pos enough] at quiet ⊢
      exact ⟨quiet, rfl, rfl⟩
    · rw [if_neg enough] at quiet
      exact absurd quiet remark

theorem setLeader_quiet {leader : List UInt8} (long : leader.length = 24) (same : (setLeader leader).2 = [.leader leader]) :
    atoiNCheck ((leader.drop 11).take 1) = some (setLeader leader).1.identifierLength := by
  rw [setLeader] at same ⊢
  dsimp only at same ⊢
  have quiet := append_eq_singleton_iff.mp same
  rcases quiet with ⟨quiet, -⟩ | ⟨-, impossible⟩
  · -- from the last check to the first, none made a remark
    have quiet := (LeaderCheck.ascii_quiet quiet).1
    iterate 3 replace quiet := (LeaderCheck.number_quiet quiet).1
    iterate 3 replace quiet := (LeaderCheck.ascii_quiet quiet).1
    replace quiet := (LeaderCheck.number_quiet quiet).1
    have number := LeaderCheck.number_quiet quiet
    have before := LeaderCheck.number_quiet number.1
    have ninth := LeaderCheck.ascii_quiet before.1
    have eighth := LeaderCheck.ascii_quiet ninth.1
    have seventh := LeaderCheck.ascii_quiet eighth.1
    have sixth := LeaderCheck.ascii_quiet seventh.1
    have fifth := LeaderCheck.ascii_quiet sixth.1
    have is := number.2.1
    rw [before.2.2, ninth.2, eighth.2, seventh.2, sixth.2, fifth.2] at is ⊢
    rw [← is]
    rw [take_of_length_le (Nat.le_of_eq long)]
  · cases impossible

end Yaz.Marc
