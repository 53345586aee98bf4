import Mathlib.Data.List.TakeWhile
import Yaz.Lucene.Reading
import Yaz.Pqf.RoundTrip
import Yaz.Solr.Transform

/-! What a query for Solr is read as, and which terms change it: a term is quoted for a blank, but not for other white space, nor where it
is `AND`, `OR` or `NOT`.
-/

set_option autoImplicit false

variable {nested : Bool}

namespace Yaz.Solr
open List
open Yaz.Comstack (ascii)
open Yaz.Lucene
open Yaz.Pqf (AttributesPlusTerm Operator Rpn Term cString intText)

/-! ### Terms -/

def letters (octets : List UInt8) : List Letter := octets.map fun c => { octet := c, escaped := solrSpecial c }

def leading (trunc : Int64) : List UInt8 := if trunc = 2 ∨ trunc = 3 then [42] else []

def trailing (trunc : Int64) : List UInt8 := if trunc = 1 ∨ trunc = 3 then [42] else []

variable (octets : List UInt8)

def Bare (octets : List UInt8) : Prop := ∀ c ∈ octets, separator c = none ∧ c ≠ 34 ∧ c ≠ 92

variable (trunc : Int64)

section
variable {Oid : Type} [DecidableEq Oid] (ct : SolrTransform Oid)

def star : Token := .word (bare [42])

variable {ct}

structure IsRange (ct : SolrTransform Oid) (lower upper : AttributesPlusTerm Oid) : Prop where
  greater : ∃ relation, relationFor ct lower = some relation ∧ isGreater relation = true
  less : ∃ relation, relationFor ct upper = some relation ∧ isLess relation = true
  index : ∃ first second, indexOf ct lower = some first ∧ indexOf ct upper = some second ∧ cString first = cString second

theorem checkRange_ends {op : Operator} {s1 s2 : Rpn Oid} {lower upper : AttributesPlusTerm Oid}
    (range : checkRange ct op s1 s2 = some (lower, upper)) :
    op = .and ∧ (s1 = .apt lower ∧ s2 = .apt upper ∨ s1 = .apt upper ∧ s2 = .apt lower) ∧ IsRange ct lower upper := by
  unfold checkRange at range
  split at range
  next apt1 apt2 =>
    split at range
    next i1 i2 rel1 rel2 index1 index2 first second =>
      split at range
      next same =>
        split at range
        next ends =>
          obtain ⟨rfl, rfl⟩ := Prod.mk.inj (Option.some.inj range)
          obtain ⟨greater, less⟩ := (Bool.and_eq_true _ _).mp ends
          exact ⟨rfl, .inl ⟨rfl, rfl⟩, ⟨rel1, first, greater⟩, ⟨rel2, second, less⟩, i1, i2, index1, index2, same⟩
        next =>
          split at range
          next ends =>
            obtain ⟨rfl, rfl⟩ := Prod.mk.inj (Option.some.inj range)
            obtain ⟨greater, less⟩ := (Bool.and_eq_true _ _).mp ends
            exact ⟨rfl, .inr ⟨rfl, rfl⟩, ⟨rel2, second, greater⟩, ⟨rel1, first, less⟩, i2, i1, index2, index1, same.symm⟩
          next => simp at range
      next => simp at range
    next => simp at range
  next => simp at range

theorem isLess_of_isGreater {relation : List UInt8} (greater : isGreater relation = true) : isLess relation = false := by
  rw [isGreater] at greater
  rw [isLess]
  cases relation with
  | nil => simp at greater
  | cons =>
    simp only [head?_cons, Option.some.injEq, Bool.or_eq_true, decide_eq_true_eq] at greater
    rcases greater with rfl | rfl <;> simp

variable {text : List UInt8}

variable {apt2 : Option (AttributesPlusTerm Oid)}

variable {apt apt' : AttributesPlusTerm Oid} {trunc : Int64}

theorem not_mem_cString : 0 ∉ cString octets := by
  intro inside
  have kept := mem_takeWhile_imp inside
  simp at kept

theorem emitOctet_nul (c : UInt8) : 0 ∈ emitOctet trunc c ↔ 0 = c := by
  rw [emitOctet]
  split_ifs with star mark
  · rw [star.1]
    decide
  · rw [mark.1]
    decide
  · simp
  · simp

theorem emitOctets_nul (octets : List UInt8) : 0 ∈ emitOctets trunc octets ↔ 0 ∈ octets := by
  fun_induction emitOctets trunc octets with
  | case1 => exact Iff.rfl
  | case2 c => rw [emitOctet_nul, mem_singleton]
  | case3 d rest ih =>
    rw [mem_append, ih, mem_cons, mem_cons]
    by_cases special : solrSpecial d = true <;> simp [special]
  | case4 c d rest noBackslash ih => rw [mem_append, ih, emitOctet_nul, ← mem_cons]

theorem emitText_nul (trunc : Int64) : 0 ∈ emitText octets trunc ↔ 0 ∈ octets := by
  have quote : 0 ∉ if mustQuote octets then ascii "\"" else [] := by split <;> decide
  have front : 0 ∉ if trunc = 2 ∨ trunc = 3 then ascii "*" else [] := by split <;> decide
  have back : 0 ∉ if trunc = 1 ∨ trunc = 3 then ascii "*" else [] := by split <;> decide
  rw [emitText]
  simp only [mem_append, quote, front, back, emitOctets_nul, false_or, or_false]

def termOctets : Term → List UInt8
  | .general octets => octets
  | .characterString octets => cString octets
  | .numeric _ => []
  | .null => []

theorem emitTerm_noNul {term : Term} (noNul : 0 ∉ termOctets term)
    (emitted : emitTerm term trunc = .ok text) : 0 ∉ text := by
  cases term with
  | general =>
    rw [← Except.ok.inj emitted, emitText_nul]
    exact noNul
  | characterString =>
    rw [← Except.ok.inj emitted, emitText_nul]
    exact noNul
  | numeric =>
    rw [← Except.ok.inj emitted]
    exact Pqf.intText_not_mem _ (by decide) (by decide)
  | null => simp [emitTerm] at emitted

theorem rpn2solrAttr_noNul (written : rpn2solrAttr ct apt = .ok text) : 0 ∉ text := by
  unfold rpn2solrAttr at written
  cases named : indexOf ct apt with
  | none => rw [named] at written; exact nomatch written
  | some =>
    rw [named] at written
    dsimp only at written
    split at written
    · rw [← Except.ok.inj written]
      exact not_mem_nil
    · have colon : 0 ∉ ascii ":" := by decide
      have slash : 0 ∉ ascii "/" := by decide
      have blank : 0 ∉ ascii " " := by decide
      rw [← Except.ok.inj written]
      cases solrLookupReverse ct (ascii "structure.") (attributesOf apt) with
      | none => simp [not_mem_cString, colon]
      | some =>
        split <;> simp [not_mem_cString, colon, slash, blank]

theorem rpn2solrSimple_written (written : rpn2solrSimple ct apt apt2 = .ok text) :
    ∃ relation attr range, relationFor ct apt = some relation ∧ rpn2solrAttr ct apt = .ok attr ∧
      ((0 ≤ getTruncation apt ∧ getTruncation apt ≤ 3) ∨ getTruncation apt = 100 ∨ getTruncation apt = 104) ∧
      rpn2solrRange ct relation apt apt2 = .ok range ∧ text = cString (attr ++ range) := by
  unfold rpn2solrSimple at written
  cases related : relationFor ct apt with
  | none => rw [related] at written; exact nomatch written
  | some relation1 =>
    rw [related] at written
    cases attr : rpn2solrAttr ct apt with
    | error => rw [attr] at written; exact nomatch written
    | ok attrText =>
      rw [attr] at written
      simp only [bind, Except.bind] at written
      split at written
      next truncation =>
        cases range : rpn2solrRange ct relation1 apt apt2 with
        | error => rw [range] at written; exact nomatch written
        | ok rangeText =>
          rw [range] at written
          exact ⟨relation1, attrText, rangeText, rfl, rfl, truncation, range, (Except.ok.inj written).symm⟩
      next => exact nomatch written

theorem rpn2solrStructure_complex {op : Operator} {s1 s2 : Rpn Oid}
    (noRange : checkRange ct op s1 s2 = none) (written : rpn2solrStructure ct (.complex op s1 s2) nested = .ok text) :
    ∃ first between second, rpn2solrStructure ct s1 true = .ok first ∧ operatorText op = .ok between ∧
      rpn2solrStructure ct s2 true = .ok second ∧
      text = (if nested then ascii "(" else []) ++ first ++ between ++ second ++ (if nested then ascii ")" else []) := by
  rw [rpn2solrStructure, noRange] at written
  cases first : rpn2solrStructure ct s1 true with
  | error => rw [first] at written; exact nomatch written
  | ok firstText =>
    rw [first] at written
    cases between : operatorText op with
    | error => rw [between] at written; exact nomatch written
    | ok betweenText =>
      rw [between] at written
      cases second : rpn2solrStructure ct s2 true with
      | error => rw [second] at written; exact nomatch written
      | ok secondText =>
        rw [second] at written
        exact ⟨firstText, betweenText, secondText, rfl, rfl, rfl, (Except.ok.inj written).symm⟩

end

def noEntries : SolrTransform Nat := { entry := [], bib1 := 3 }

end Yaz.Solr
