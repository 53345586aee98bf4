import Yaz.Pqf.Parser

/-! Tokens: what `lex` does to the state of the parser, and why the rounds of `rpn_structure` are enough. -/

set_option autoImplicit false

namespace Yaz.Pqf
open Yaz.Comstack

variable {li : Parser}

theorem queryToken_blank (blank : li.queryPtr.dropWhile (· = 32) = []) :
    queryToken li = (.ends, { li with queryPtr := [] }) := by
  rw [queryToken]
  rw [if_pos blank]

theorem lex_blank (blank : li.queryPtr.dropWhile (· = 32) = []) :
    lex li = { li with queryPtr := [], queryLook := .ends } := by
  rw [lex, queryToken_blank blank]

theorem openSep_length (mem : List UInt8) (notEmpty : mem ≠ []) :
    (openSep mem).2.length < mem.length ∨ (openSep mem).2 = mem := by
  unfold openSep
  split
  · simp
  · simp
  · exact .inr rfl

def tokenLook (sepChar : UInt8) (buf : List UInt8) : Look :=
  if sepChar = 32 ∧ 1 ≤ tokenLength sepChar buf ∧ buf.head? = some 64 then
    keyword { yazPqfCreate with lexBuf := buf, lexLen := tokenLength sepChar buf }
  else .text

theorem lex_token (li : Parser) {sepChar : UInt8} {buf : List UInt8} (notBlank : li.queryPtr.dropWhile (· = 32) ≠ [])
    (opened : openSep (li.queryPtr.dropWhile (· = 32)) = (sepChar, buf))
    (noDigit : ¬ (buf.head? = some 64 ∧ (buf.drop 1).head?.any isDigit)) :
    lex li = { li with
      queryPtr := buf.drop (tokenLength sepChar buf + 1), lexBuf := buf, lexLen := tokenLength sepChar buf
      queryLook := tokenLook sepChar buf } := by
  simp only [lex, queryToken, opened, if_neg notBlank, if_neg noDigit, tokenLook]
  split
  · rfl
  · rfl

theorem lex_notBlank {qbuf : List UInt8} (notBlank : qbuf.dropWhile (· = 32) ≠ []) :
    ∃ look buf len ptr, ptr.length < qbuf.length ∧ ∀ li : Parser, li.queryPtr = qbuf →
      lex li = { li with queryPtr := ptr, lexBuf := buf, lexLen := len, queryLook := look } := by
  obtain ⟨sepChar, buf, opened⟩ : ∃ sepChar buf, openSep (qbuf.dropWhile (· = 32)) = (sepChar, buf) := ⟨_, _, rfl⟩
  have shorter : ∀ n, (buf.drop (n + 1)).length < qbuf.length := by
    intro n
    have dropped : (qbuf.dropWhile (· = 32)).length ≤ qbuf.length := (List.dropWhile_suffix _).length_le
    have positive := List.length_pos_iff.mpr notBlank
    rw [List.length_drop]
    rcases openSep_length _ notBlank with less | same
    · rw [opened] at less
      dsimp only at less
      omega
    · rw [opened] at same
      dsimp only at same
      rw [same]
      omega
  by_cases digit : buf.head? = some 64 ∧ (buf.drop 1).head?.any isDigit
  · refine ⟨.attr, buf, 1, buf.drop 1, shorter 0, ?_⟩
    rintro li rfl
    simp only [lex, queryToken, opened, if_neg notBlank, if_pos digit]
  · refine ⟨tokenLook sepChar buf, buf, tokenLength sepChar buf, buf.drop (tokenLength sepChar buf + 1), shorter _, ?_⟩
    rintro li rfl
    exact lex_token li notBlank opened digit

/-! ### Rounds -/

def Parser.left (li : Parser) : Nat := li.queryPtr.length + if li.queryLook = .ends then 0 else 1

theorem lex_left (li : Parser) : (lex li).left ≤ li.queryPtr.length := by
  by_cases blank : li.queryPtr.dropWhile (· = 32) = []
  · rw [lex_blank blank]
    simp [Parser.left]
  · obtain ⟨look, buf, len, ptr, shorter, read⟩ := lex_notBlank blank
    rw [read li rfl, Parser.left]
    dsimp only
    split <;> omega

/-- The parser `next` is not before `li`. -/
def Parser.Behind (li next : Parser) : Prop := next.left ≤ li.left ∧ next.queryPtr.length ≤ li.queryPtr.length

theorem Parser.Behind.trans {first second third : Parser} (one : first.Behind second) (two : second.Behind third) :
    first.Behind third := ⟨two.1.trans one.1, two.2.trans one.2⟩

theorem Parser.behind_self (li : Parser) : li.Behind li := ⟨le_refl _, le_refl _⟩

theorem behind_lex (li : Parser) : li.Behind (lex li) := by
  have less := lex_left li
  have whole : li.queryPtr.length ≤ li.left := Nat.le_add_right _ _
  have front : (lex li).queryPtr.length ≤ (lex li).left := Nat.le_add_right _ _
  exact ⟨by omega, by omega⟩

theorem behind_fail (li : Parser) (error : PqfError) : li.Behind (li.fail error) := ⟨le_refl _, le_refl _⟩

variable {li next : Parser}

theorem lex_left_lt (look : li.queryLook ≠ .ends) (behind : li.Behind next) : (lex next).left < li.left := by
  have less := lex_left next
  have more : li.left = li.queryPtr.length + 1 := by rw [Parser.left, if_neg look]
  have := behind.2
  omega

theorem behind_proxInteger (li : Parser) : li.Behind (proxInteger li).2 := by
  unfold proxInteger
  dsimp only
  repeat' split
  all_goals exact behind_lex li

theorem behind_proxExclusion (li : Parser) : li.Behind (proxExclusion li).2 := by
  unfold proxExclusion
  dsimp only
  repeat' split
  all_goals exact behind_lex li

theorem behind_proxOrdered (li : Parser) : li.Behind (proxOrdered li).2 := by
  unfold proxOrdered
  dsimp only
  repeat' split
  all_goals exact behind_lex li

theorem behind_proxWhich (li : Parser) : li.Behind (proxWhich li).2 := by
  unfold proxWhich
  dsimp only
  repeat' split
  all_goals exact behind_lex li

theorem behind_of_eq {α : Type} {step : Parser → α × Parser} (steps : ∀ li : Parser, li.Behind (step li).2) {a : α}
    (same : step li = (a, next)) : li.Behind next := by
  have behind := steps li
  rwa [same] at behind

theorem behind_rpnProximity (li : Parser) : li.Behind (rpnProximity li).2 := by
  unfold rpnProximity
  split
  next exclusion => exact behind_of_eq behind_proxExclusion exclusion
  next li₁ exclusion =>
    have one := behind_of_eq behind_proxExclusion exclusion
    split
    next distance => exact one.trans (behind_of_eq behind_proxInteger distance)
    next li₂ distance =>
      have two := one.trans (behind_of_eq behind_proxInteger distance)
      split
      next ordered => exact two.trans (behind_of_eq behind_proxOrdered ordered)
      next li₃ ordered =>
        have three := two.trans (behind_of_eq behind_proxOrdered ordered)
        split
        next relation => exact three.trans (behind_of_eq behind_proxInteger relation)
        next li₄ relation =>
          have four := three.trans (behind_of_eq behind_proxInteger relation)
          split
          next which => exact four.trans (behind_of_eq behind_proxWhich which)
          next li₅ which =>
            have five := four.trans (behind_of_eq behind_proxWhich which)
            split
            next unit => exact five.trans (behind_of_eq behind_proxInteger unit)
            next li₆ unit => exact five.trans (behind_of_eq behind_proxInteger unit)

theorem behind_rpnOperator (li : Parser) : li.Behind (rpnOperator li).2 := by
  unfold rpnOperator
  split
  · exact li.behind_self
  · exact li.behind_self
  · exact li.behind_self
  · split
    next proximity => exact behind_of_eq behind_rpnProximity proximity
    next proximity => exact behind_of_eq behind_rpnProximity proximity
  · exact behind_fail li _

theorem behind_rpnTermType (li : Parser) : li.Behind (rpnTermType li) := by
  unfold rpnTermType
  split
  · exact li.behind_self
  · exact behind_lex { li with termType := _ }

section
variable {Oid : Type} (attset : List UInt8 → Option Oid)

theorem behind_parseTypeValue (li : Parser) (set : Option Oid) (at' : Nat) (value : List UInt8) :
    li.Behind (parseTypeValue li set at' value).2 := by
  unfold parseTypeValue
  dsimp only
  repeat' split
  all_goals exact li.behind_self

theorem behind_pQueryParseAttr (li : Parser) (attrs : List (Attr Oid)) : li.Behind (pQueryParseAttr attset li attrs).2 := by
  have named : li.Behind (pQueryParseAttr.named attset li).2 := by
    unfold pQueryParseAttr.named
    split
    · exact behind_fail li _
    · dsimp only
      split
      · exact behind_lex li
      · split
        · exact behind_lex li
        · exact (behind_lex li).trans (behind_parseTypeValue _ _ _ _)
  unfold pQueryParseAttr
  split
  · split
    · exact named
    · exact behind_parseTypeValue _ _ _ _
  · exact named

theorem behind_rpnAttr (li : Parser) (attrs : List (Attr Oid)) : (lex li).Behind (rpnAttr attset li attrs).2 := by
  unfold rpnAttr
  dsimp only
  split
  · exact behind_fail _ _
  · split
    · exact behind_fail _ _
    · have steps := behind_pQueryParseAttr attset (lex li) attrs
      split
      next failed => rwa [failed] at steps
      next read =>
        rw [read] at steps
        exact steps.trans (behind_lex _)

theorem behind_rpnSimple (li : Parser) (attrs : List (Attr Oid)) : li.Behind (rpnSimple li attrs).2 := by
  unfold rpnSimple
  split
  · exact behind_lex li
  · dsimp only
    split
    · exact behind_lex li
    · exact (behind_lex li).trans (behind_lex _)
  · exact behind_fail li _

section

attribute [local simp] rpnStructure

theorem rpnStructure_complex (look : li.queryLook = .and ∨ li.queryLook = .or ∨ li.queryLook = .not ∨ li.queryLook = .prox)
    (rounds : Nat) (attrs : List (Attr Oid)) :
    rpnStructure attset (rounds + 1) li attrs = rpnComplex (rpnStructure attset rounds · attrs) li := by
  rcases look with look | look | look | look <;> simp [look]

theorem rpnStructure_simple (look : li.queryLook = .text ∨ li.queryLook = .set) (rounds : Nat)
    (attrs : List (Attr Oid)) : rpnStructure attset (rounds + 1) li attrs = rpnSimple li attrs := by
  rcases look with look | look <;> simp [look]

theorem rpnStructure_attr {attrs attrs' : List (Attr Oid)} (look : li.queryLook = .attr)
    (read : rpnAttr attset li attrs = (some attrs', next)) (rounds : Nat) :
    rpnStructure attset (rounds + 1) li attrs = rpnStructure attset rounds next attrs' := by
  simp [look, read]

theorem rpnStructure_noAttr {attrs : List (Attr Oid)} (look : li.queryLook = .attr)
    (failed : rpnAttr attset li attrs = (none, next)) (rounds : Nat) :
    rpnStructure attset (rounds + 1) li attrs = (none, next) := by
  simp [look, failed]

theorem rpnStructure_termType (look : li.queryLook = .termType) (rounds : Nat) (attrs : List (Attr Oid)) :
    rpnStructure attset (rounds + 1) li attrs = rpnStructure attset rounds (rpnTermType (lex li)) attrs := by
  simp [look]

end

theorem behind_rpnComplex {operand : Parser → Option (Rpn Oid) × Parser} (operands : ∀ li : Parser, li.Behind (operand li).2)
    (li : Parser) : li.Behind (rpnComplex operand li).2 := by
  unfold rpnComplex
  split
  next failed => exact behind_of_eq behind_rpnOperator failed
  next op li₁ read =>
    have one := (behind_of_eq behind_rpnOperator read).trans (behind_lex li₁)
    split
    next failed => exact one.trans (behind_of_eq operands failed)
    next s1 li₂ first =>
      have two := one.trans (behind_of_eq operands first)
      split
      next failed => exact two.trans (behind_of_eq operands failed)
      next s2 li₃ second => exact two.trans (behind_of_eq operands second)

theorem behind_rpnStructure (rounds : Nat) (li : Parser) (attrs : List (Attr Oid)) :
    li.Behind (rpnStructure attset rounds li attrs).2 := by
  induction rounds generalizing li attrs with
  | zero => exact li.behind_self
  | succ _ ih =>
    rcases look : li.queryLook with _ | _ | _ | _ | _ | _ | _ | _ | _ | _
    case ends =>
      simp only [rpnStructure, look]
      exact behind_fail li _
    case attr =>
      have steps := (behind_lex li).trans (behind_rpnAttr attset li attrs)
      rcases read : rpnAttr attset li attrs with ⟨_ | attrs', next⟩
      · rw [rpnStructure_noAttr attset look read]
        rwa [read] at steps
      · rw [rpnStructure_attr attset look read]
        rw [read] at steps
        exact steps.trans (ih next attrs')
    case attrset =>
      simp only [rpnStructure, look]
      exact li.behind_self
    case termType =>
      rw [rpnStructure_termType attset look]
      exact ((behind_lex li).trans (behind_rpnTermType _)).trans (ih _ attrs)
    case text | set =>
      rw [rpnStructure_simple attset (by simp [look])]
      exact behind_rpnSimple li attrs
    all_goals
      rw [rpnStructure_complex attset (by simp [look])]
      exact behind_rpnComplex (fun li => ih li attrs) li

theorem topSet_left (bib1 : Oid) (li : Parser) : (topSet attset bib1 li).2.left < li.queryPtr.length + 1 := by
  have less := lex_left li
  unfold topSet
  dsimp only
  split
  · have next := (behind_lex (lex li)).1
    split
    · have failed := (behind_fail (lex (lex li)) .attset).1
      dsimp only
      omega
    · have last := (behind_lex (lex (lex li))).1
      dsimp only
      omega
  · dsimp only
    omega

end

end Yaz.Pqf
