import Yaz.Iconv.Splitting
import Mathlib.Algebra.BigOperators.Group.Multiset.Basic
import Mathlib.Tactic.IntervalCases

/-! Text in DanMARC, and what `flush_danmarc` makes of it.

`read_danmarc` reads the codes of such a text. A letter with a mark in ISO 8859-1 is written as
one code, and in `danmarc2` a combining mark as the mark that stands alone: both are undone before
codes are compared.
-/

set_option autoImplicit false

namespace Yaz.Iconv
open List Yaz.Comstack Yaz.Json

/-- The codes that `write1` can write. -/
def Writable (x : Nat) : Prop := 0 < x ∧ x ≤ 0xffff

/-- What `write1` writes of such a code. -/
def danmarcOctets (x : Nat) : List UInt8 :=
  if x = 64 ∨ x = 42 then [64, UInt8.ofNat x]
  else if x ≤ 0xff then [UInt8.ofNat x]
  else if x = 0xa733 then [64, 0xe5]
  else if x = 0xa732 then [64, 0xc5]
  else [64, upperHexDigit (x / 4096), upperHexDigit (x / 256 % 16), upperHexDigit (x / 16 % 16), upperHexDigit (x % 16)]

theorem write1_ok {x room : Nat} {out : List UInt8} (written : write1 x room = .ok out) :
    out = danmarcOctets x ∧ x ≤ 0xffff := by
  rw [write1] at written
  rw [danmarcOctets]
  repeat' split at written
  all_goals simp only [Except.ok.injEq, reduceCtorEq] at written
  all_goals
    rw [← written]
    constructor
    · repeat' split
      all_goals first | rfl | omega
    · omega

theorem write1_writable {x room : Nat} (small : x ≤ 0xffff) (enough : 6 ≤ room) : write1 x room = .ok (danmarcOctets x) := by
  rw [write1, danmarcOctets]
  repeat' split
  all_goals first | rfl | omega

theorem danmarcOctets_length (x : Nat) : 0 < (danmarcOctets x).length ∧ (danmarcOctets x).length ≤ 5 := by
  rw [danmarcOctets]
  repeat' split
  all_goals simp

theorem upperHexDigit_plain {n : Nat} (digit : n < 16) :
    (upperHexDigit n ≠ 64 ∧ upperHexDigit n ≠ 42 ∧ upperHexDigit n ≠ 0xa4 ∧ upperHexDigit n ≠ 0xe5 ∧ upperHexDigit n ≠ 0xc5 ∧
      upperHexDigit n ≠ 85) ∧
    (upperHexDigit n ≠ 0 ∧ isSpace (upperHexDigit n) = false ∧ upperHexDigit n ≠ 43 ∧ upperHexDigit n ≠ 45 ∧
      upperHexDigit n ≠ 120 ∧ upperHexDigit n ≠ 88) ∧
    digitValue (upperHexDigit n) = some n := by
  interval_cases n <;> decide

theorem scanHex_digits {a b c d : Nat} (isA : a < 16) (isB : b < 16) (isC : c < 16) (isD : d < 16) (rest : List UInt8) :
    scanHex 4 (upperHexDigit a :: upperHexDigit b :: upperHexDigit c :: upperHexDigit d :: rest) =
      some (((a * 16 + b) * 16 + c) * 16 + d) := by
  obtain ⟨-, ⟨noNulA, noBlankA, noPlusA, noMinusA, -⟩, valueA⟩ := upperHexDigit_plain isA
  obtain ⟨-, ⟨noNulB, noBlankB, -, -, notXB, notX'B⟩, valueB⟩ := upperHexDigit_plain isB
  obtain ⟨-, ⟨noNulC, -⟩, valueC⟩ := upperHexDigit_plain isC
  obtain ⟨-, ⟨noNulD, -⟩, valueD⟩ := upperHexDigit_plain isD
  simp only [scanHex, takeWhile_cons, noNulA, noNulB, noNulC, noNulD, ne_eq, not_false_eq_true, decide_true, if_true,
    dropWhile_cons, noBlankA, Bool.false_eq_true, if_false, take_succ_cons, take_zero, skipOctet, noPlusA, noMinusA,
    decide_false, Bool.or_self, head?_cons, drop_succ_cons, drop_zero, Option.some.injEq, notXB, notX'B, or_self,
    and_false, Option.any_some, isHexDigit, valueA, isA, hexValue, valueB, isB, valueC, isC, valueD, isD, Nat.zero_mul, Nat.zero_add]

variable {x : Nat}

theorem readDanmarc_octets (junk : Junk) (small : x ≤ 0xffff) (rest : List UInt8) :
    readDanmarc junk (danmarcOctets x ++ rest) = { x := x, noRead := (danmarcOctets x).length } := by
  rw [danmarcOctets]
  split
  next marked => rcases marked with rfl | rfl <;> simp [readDanmarc]
  next plain =>
    split
    next latin =>
      have octet : (UInt8.ofNat x).toNat = x := UInt8.toNat_ofNat_of_lt' (show x < 256 by omega)
      have notAt : UInt8.ofNat x ≠ 64 := by
        intro at_
        have := congrArg UInt8.toNat at_
        rw [octet] at this
        exact plain (.inl this)
      cases rest with
      | nil => simp [readDanmarc, notAt, octet]
      | cons => simp [readDanmarc, notAt, octet]
    · split
      next small_ =>
        rw [small_]
        simp [readDanmarc]
      · split
        next capital =>
          rw [capital]
          simp [readDanmarc]
        · obtain ⟨⟨notAt, notStar, notCurrency, notSmall, notCapital, notU⟩, -⟩ :=
            upperHexDigit_plain (show x / 4096 < 16 by omega)
          have digits := scanHex_digits (show x / 4096 < 16 by omega) (show x / 256 % 16 < 16 by omega)
            (show x / 16 % 16 < 16 by omega) (show x % 16 < 16 by omega) rest
          simp only [cons_append, nil_append, readDanmarc, ne_eq, not_true_eq_false, if_false, notAt, notStar,
            notCurrency, or_self, notSmall, notCapital, notU, length_cons, drop_succ_cons, drop_zero, digits,
            Option.getD_some]
          rw [if_neg (by omega)]
          simp only [length_nil, Octets.mk.injEq, and_true]
          omega

/-- The codes in a text, as `read_danmarc` reads them. -/
def danmarcCodes (junk : Junk) (text : List UInt8) : List Nat := codesOf (statelessDecoder (readDanmarc junk)) () text

theorem danmarcCodes_octets (junk : Junk) {codes : List Nat} (writable : ∀ x ∈ codes, Writable x) :
    danmarcCodes junk (codes.flatMap danmarcOctets) = codes := by
  induction codes with
  | nil => exact codesOf_nil
  | cons x codes ih =>
    rw [forall_mem_cons] at writable
    obtain ⟨⟨positive, small⟩, later⟩ := writable
    have length := (danmarcOctets_length x).1
    have read : (statelessDecoder (readDanmarc junk)).readHandle () (danmarcOctets x ++ codes.flatMap danmarcOctets) =
        { x := x, noRead := (danmarcOctets x).length, data := (), errno := none } := by
      simp only [statelessDecoder, readDanmarc_octets junk small]
    rw [flatMap_cons, danmarcCodes, codesOf_step]
    · rw [read, drop_left]
      dsimp only
      rw [handed, if_neg (by omega)]
      exact congrArg (x :: ·) (ih later)
    · intro empty
      have := congrArg List.length empty
      rw [length_append, length_nil] at this
      omega
    · rw [read]
      dsimp only
      omega
    · rw [read, length_append]
      dsimp only
      omega

/-! ### Codes without the letters of ISO 8859-1 that have a mark -/

/-- A code as it was before `write_danmarc`. -/
def apart (dia : Bool) (x : Nat) : Multiset Nat :=
  let x := if dia then yazDanmarcSwapToUtf8 x else x
  match yazIso88591LookupY x with
  | some (letter, mark) => {letter, mark}
  | none => {x}

def parts (dia : Bool) (codes : List Nat) : Multiset Nat := (codes.map (apart dia)).sum

variable (dia : Bool)

@[simp] theorem parts_nil : parts dia [] = 0 := rfl

@[simp] theorem parts_cons (x : Nat) (codes : List Nat) :
    parts dia (x :: codes) = apart dia x + parts dia codes := by
  simp [parts]

@[simp] theorem parts_append (front back : List Nat) :
    parts dia (front ++ back) = parts dia front + parts dia back := by
  simp [parts]

theorem apart_ne_zero (x : Nat) : apart dia x ≠ 0 := by
  unfold apart
  dsimp only
  split <;> simp

/-- The code that `write1` is given for a mark. -/
def markCode (dia : Bool) (x : Nat) : Nat := if dia then yazDanmarcSwapToDanmarc x else x

theorem swapToDanmarc_cases (x : Nat) :
    yazDanmarcSwapToDanmarc x = x ∨ ∃ row ∈ swapSeq, row.2 = x ∧ yazDanmarcSwapToDanmarc x = row.1 := by
  unfold yazDanmarcSwapToDanmarc
  cases found : swapSeq.find? fun row => row.2 = x with
  | none => exact .inl rfl
  | some row => exact .inr ⟨row, mem_of_find?_eq_some found, by simpa using find?_some found, rfl⟩

theorem combining_range (mark : yazDanmarcIsCombining x = true) : 0x300 ≤ x ∧ x ≤ 0xfe2f := by
  simp only [yazDanmarcIsCombining, any_cons, any_nil, Bool.or_false, Bool.or_eq_true, Bool.and_eq_true,
    decide_eq_true_eq] at mark
  omega

theorem markCode_writable (mark : yazDanmarcIsCombining x = true) : Writable (markCode dia x) := by
  obtain ⟨least, most⟩ := combining_range mark
  have plain : Writable x := ⟨by omega, by omega⟩
  cases dia with
  | false => exact plain
  | true =>
    obtain same | ⟨row, inside, -, swapped⟩ := swapToDanmarc_cases x
    · rw [markCode, if_pos rfl, same]
      exact plain
    · rw [markCode, if_pos rfl, swapped]
      have all : ∀ row ∈ swapSeq, 0 < row.1 ∧ row.1 ≤ 0xffff := by decide
      exact all row inside

theorem apart_markCode (x : Nat) : apart dia (markCode dia x) = apart dia x := by
  cases dia with
  | false => rfl
  | true =>
    rw [markCode, if_pos rfl]
    obtain same | ⟨row, inside, isMark, swapped⟩ := swapToDanmarc_cases x
    · rw [same]
    · have back : ∀ row ∈ swapSeq, yazDanmarcSwapToUtf8 row.1 = yazDanmarcSwapToUtf8 row.2 := by decide
      rw [swapped, ← isMark, apart, apart]
      simp only [if_true, back row inside]

theorem apart_composed {letter mark y : Nat} (composed : yazIso88591LookupX12 letter mark = some y) :
    apart dia y = apart dia letter + apart dia mark := by
  have known : ∀ row ∈ latin1Comb, apart true row.2.2 = apart true row.1 + apart true row.2.1 ∧
      apart false row.2.2 = apart false row.1 + apart false row.2.1 := by decide
  rw [yazIso88591LookupX12, Option.map_eq_some_iff] at composed
  obtain ⟨row, found, rfl⟩ := composed
  have inside := mem_of_find?_eq_some found
  have same := find?_some found
  simp only [decide_eq_true_eq] at same
  rw [same.1, same.2]
  cases dia with
  | false => exact (known row inside).2
  | true => exact (known row inside).1

theorem swapToUtf8_cases (x : Nat) :
    yazDanmarcSwapToUtf8 x = x ∨ ∃ row ∈ swapSeq, row.1 = x ∧ yazDanmarcSwapToUtf8 x = row.2 := by
  unfold yazDanmarcSwapToUtf8
  cases found : swapSeq.find? fun row => row.1 = x with
  | none => exact .inl rfl
  | some row => exact .inr ⟨row, mem_of_find?_eq_some found, by simpa using find?_some found, rfl⟩

theorem apart_small (small : x ≤ 0xffff) : ∀ z ∈ apart dia x, z ≤ 0xffff := by
  have swapped : (if dia then yazDanmarcSwapToUtf8 x else x) ≤ 0xffff := by
    have all : ∀ row ∈ swapSeq, row.2 ≤ 0xffff := by decide
    split
    · obtain same | ⟨row, inside, -, other⟩ := swapToUtf8_cases x
      · rw [same]
        exact small
      · rw [other]
        exact all row inside
    · exact small
  have rows : ∀ row ∈ latin1Comb, row.1 ≤ 0xffff ∧ row.2.1 ≤ 0xffff := by decide
  intro z inside
  unfold apart at inside
  generalize (if dia then yazDanmarcSwapToUtf8 x else x) = y at swapped inside
  dsimp only at inside
  split at inside
  next letter mark found =>
    rw [yazIso88591LookupY] at found
    split at found
    · rw [Option.map_eq_some_iff] at found
      obtain ⟨row, known, same⟩ := found
      obtain ⟨rfl, rfl⟩ := Prod.mk.inj same
      have range := rows row (mem_of_find?_eq_some known)
      rw [Multiset.insert_eq_cons, Multiset.mem_cons, Multiset.mem_singleton] at inside
      omega
    · simp at found
  · rw [Multiset.mem_singleton] at inside
    rw [inside]
    exact swapped

theorem apart_large (large : 0xffff < x) : apart dia x = {x} := by
  have same : (if dia then yazDanmarcSwapToUtf8 x else x) = x := by
    split
    · obtain same | ⟨row, inside, isCode, -⟩ := swapToUtf8_cases x
      · exact same
      · have all : ∀ row ∈ swapSeq, row.1 ≤ 0xffff := by decide
        have := all row inside
        omega
    · rfl
  have none_ : yazIso88591LookupY x = none := by
    rw [yazIso88591LookupY, if_neg (by omega)]
  unfold apart
  rw [same]
  simp only [none_]

theorem parts_small {codes : List Nat} (small : ∀ x ∈ codes, x ≤ 0xffff) : ∀ z ∈ parts dia codes, z ≤ 0xffff := by
  induction codes with
  | nil => simp
  | cons _ _ ih =>
    rw [forall_mem_cons] at small
    intro z inside
    rw [parts_cons, Multiset.mem_add] at inside
    exact inside.elim (apart_small dia small.1 z) (ih small.2 z)

end Yaz.Iconv
