import Yaz.Pqf.Tokens

/-! What a parser object keeps from one query to the next.

`pqf_parser_begin` sets the text, and the first token sets the rest of the lexical state. The
type of terms and the error code stay as the calls before have left them.
-/

set_option autoImplicit false

namespace Yaz.Pqf
open Yaz.Comstack

inductive Call where
  | parse (qbuf : List UInt8)
  | scan (qbuf : List UInt8)
  | scanAttributeList (qbuf : List UInt8)
  deriving DecidableEq

inductive Answer (Oid : Type) where
  | query (query : Option (RpnQuery Oid))
  | apt (set : Option Oid) (apt : Option (AttributesPlusTerm Oid))
  | attributes (set : Option Oid) (attributes : Option (List (AttributeElement Oid)))
  deriving DecidableEq

section
variable {Oid : Type} (attset : List UInt8 → Option Oid) (bib1 : Oid)

/-- The answer of a call, the parser behind it, and in that the code of `yaz_pqf_error`. -/
def Call.run (li : Parser) : Call → Answer Oid × Parser
  | .parse qbuf =>
    let (query, li) := yazPqfParse attset bib1 li qbuf
    (.query query, li)
  | .scan qbuf =>
    let (set, apt, li) := yazPqfScan attset bib1 li qbuf
    (.apt set apt, li)
  | .scanAttributeList qbuf =>
    let (set, attributes, li) := yazPqfScanAttributeList attset bib1 li qbuf
    (.attributes set attributes, li)

def Call.seen (li : Parser) (call : Call) : Answer Oid × PqfError :=
  ((call.run attset bib1 li).1, (call.run attset bib1 li).2.error)

def afterCalls (li : Parser) (history : List Call) : Parser := history.foldl (fun li call => (call.run attset bib1 li).2) li

end

variable {qbuf : List UInt8}

theorem lex_begin {li li' : Parser} (sameType : li.termType = li'.termType) (sameError : li.error = li'.error)
    (notBlank : qbuf.dropWhile (· = 32) ≠ []) : lex (pqfParserBegin li qbuf) = lex (pqfParserBegin li' qbuf) := by
  obtain ⟨look, buf, len, ptr, -, read⟩ := lex_notBlank notBlank
  rw [read _ rfl, read _ rfl, pqfParserBegin, pqfParserBegin, sameType, sameError]

section
variable {Oid : Type} {attset : List UInt8 → Option Oid} {bib1 : Oid} {li li' : Parser}

theorem topSet_begin (sameType : li.termType = li'.termType) (sameError : li.error = li'.error)
    (notBlank : qbuf.dropWhile (· = 32) ≠ []) :
    topSet attset bib1 (pqfParserBegin li qbuf) = topSet attset bib1 (pqfParserBegin li' qbuf) := by
  rw [topSet, topSet, lex_begin sameType sameError notBlank]

theorem topSet_blank (blank : qbuf.dropWhile (· = 32) = []) :
    topSet attset bib1 (pqfParserBegin li qbuf) =
      (some bib1, { pqfParserBegin li qbuf with queryPtr := [], queryLook := .ends }) := by
  have token : lex (pqfParserBegin li qbuf) = { pqfParserBegin li qbuf with queryPtr := [], queryLook := .ends } :=
    lex_blank blank
  rw [topSet, token]
  rfl

theorem scanAttributesMk_begin (sameType : li.termType = li'.termType) (sameError : li.error = li'.error)
    (notBlank : qbuf.dropWhile (· = 32) ≠ []) :
    pQueryScanAttributesMk attset bib1 (pqfParserBegin li qbuf) =
      pQueryScanAttributesMk attset bib1 (pqfParserBegin li' qbuf) := by
  rw [pQueryScanAttributesMk, pQueryScanAttributesMk, topSet_begin sameType sameError notBlank]
  rfl

theorem scanAttributesMk_blank (blank : qbuf.dropWhile (· = 32) = []) :
    pQueryScanAttributesMk attset bib1 (pqfParserBegin li qbuf) =
      (some bib1, some [], { pqfParserBegin li qbuf with queryPtr := [], queryLook := .ends }) := by
  rw [pQueryScanAttributesMk, topSet_blank blank]
  rfl

theorem Call.seen_congr (call : Call) (sameType : li.termType = li'.termType) (sameError : li.error = li'.error) :
    call.seen attset bib1 li = call.seen attset bib1 li' := by
  cases call with
  | parse qbuf =>
    simp only [Call.seen, Call.run, yazPqfParse, pQueryRpnMk]
    by_cases blank : qbuf.dropWhile (· = 32) = []
    · rw [topSet_blank blank, topSet_blank blank]
      rfl
    · rw [topSet_begin sameType sameError blank]
      rfl
  | scan qbuf =>
    by_cases blank : qbuf.dropWhile (· = 32) = []
    · simp [Call.seen, Call.run, yazPqfScan, pQueryScanMk, scanAttributesMk_blank blank, Parser.fail]
    · have same : yazPqfScan attset bib1 li qbuf = yazPqfScan attset bib1 li' qbuf := by
        rw [yazPqfScan, yazPqfScan, pQueryScanMk, pQueryScanMk, scanAttributesMk_begin sameType sameError blank]
      rw [Call.seen, Call.seen, Call.run, Call.run, same]
  | scanAttributeList qbuf =>
    by_cases blank : qbuf.dropWhile (· = 32) = []
    · simp only [Call.seen, Call.run, yazPqfScanAttributeList, scanAttributesMk_blank blank]
      rw [pqfParserBegin, pqfParserBegin, sameError]
    · have same : yazPqfScanAttributeList attset bib1 li qbuf = yazPqfScanAttributeList attset bib1 li' qbuf := by
        rw [yazPqfScanAttributeList, yazPqfScanAttributeList, scanAttributesMk_begin sameType sameError blank]
      rw [Call.seen, Call.seen, Call.run, Call.run, same]

theorem seen_oneTerm (li : Parser) :
    (Call.parse (ascii "x")).seen attset bib1 li =
      (.query (some ⟨some bib1, .apt ⟨some [], zTermCreate li.termType (ascii "x")⟩⟩), li.error) := by
  rfl

theorem zTermCreate_general {termType : TermType} {octets : List UInt8}
    (general : zTermCreate termType octets = .general octets) : termType = .general := by
  cases termType with
  | general => rfl
  | _ => simp [zTermCreate] at general

/-- After a history of calls a parser object answers like a fresh one just if the calls have left general terms and
no error. -/
theorem seen_afterCalls_iff (history : List Call) :
    (∀ call : Call, call.seen attset bib1 (afterCalls attset bib1 yazPqfCreate history) =
      call.seen attset bib1 yazPqfCreate) ↔
      (afterCalls attset bib1 yazPqfCreate history).termType = .general ∧
        (afterCalls attset bib1 yazPqfCreate history).error = .none := by
  constructor
  · intro fresh
    have one := fresh (.parse (ascii "x"))
    rw [seen_oneTerm, seen_oneTerm] at one
    simp only [Prod.mk.injEq, Answer.query.injEq, Option.some.injEq, RpnQuery.mk.injEq, Rpn.apt.injEq,
      AttributesPlusTerm.mk.injEq, true_and] at one
    exact ⟨zTermCreate_general one.1, one.2⟩
  · rintro ⟨general, noError⟩ call
    exact call.seen_congr general noError

end

/-- A query with a typed term leaves its type to the next one. -/
theorem seen_afterTyped :
    (Call.parse (ascii "b")).seen (fun _ => none) () (afterCalls (fun _ => none) () yazPqfCreate [.parse (ascii "@term string a")]) ≠
      (Call.parse (ascii "b")).seen (fun _ => none) () yazPqfCreate := by
  decide

end Yaz.Pqf
