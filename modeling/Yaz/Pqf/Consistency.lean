import Yaz.Pqf.Memory

/-! Results of a fresh parser against its error code. -/

set_option autoImplicit false

variable {rounds : Nat}

namespace Yaz.Pqf
open Yaz.Comstack

/-! ### Results and errors -/

def Settled {α : Type} (li : Parser) (result : Option α × Parser) : Prop :=
  match result.1 with
  | some _ => result.2.error = li.error
  | none => result.2.error ≠ .none

variable {li next : Parser}

theorem settled_some {α : Type} (a : α) (kept : next.error = li.error) : Settled li (some a, next) := kept

theorem settled_fail {α : Type} (li next : Parser) {error : PqfError} (isError : error ≠ .none) :
    Settled li ((none : Option α), next.fail error) := isError

theorem Settled.of_none {α β : Type} {result : Option α × Parser} (settled : Settled li result)
    (failed : result = (none, next)) : Settled li ((none : Option β), next) := by
  rw [failed] at settled
  exact settled

theorem Settled.of_some {α : Type} {a : α} {result : Option α × Parser} (settled : Settled li result)
    (read : result = (some a, next)) : next.error = li.error := by
  rw [read] at settled
  exact settled

theorem Settled.behind {α : Type} {result : Option α × Parser} (settled : Settled next result)
    (kept : next.error = li.error) : Settled li result := by
  obtain ⟨_ | a, last⟩ := result
  · exact settled
  · exact Eq.trans settled kept

theorem lex_error (li : Parser) : (lex li).error = li.error := by
  by_cases blank : li.queryPtr.dropWhile (· = 32) = []
  · rw [lex_blank blank]
  · obtain ⟨look, buf, len, ptr, -, read⟩ := lex_notBlank blank
    rw [read li rfl]

theorem rpnTermType_error (li : Parser) : (rpnTermType li).error = li.error := by
  rw [rpnTermType]
  split
  · rfl
  · exact lex_error _

theorem lex_fail_look (li : Parser) (error : PqfError) : (lex (li.fail error)).queryLook = (lex li).queryLook := by
  by_cases blank : li.queryPtr.dropWhile (· = 32) = []
  · rw [lex_blank blank, lex_blank (show (li.fail error).queryPtr.dropWhile (· = 32) = [] from blank)]
  · obtain ⟨look, buf, len, ptr, -, read⟩ := lex_notBlank blank
    rw [read li rfl, read (li.fail error) rfl]

theorem settled_proxInteger (li : Parser) : Settled li (proxInteger li) := by
  unfold proxInteger
  dsimp only
  split_ifs
  · exact settled_fail _ _ (by decide)
  · exact settled_some _ (lex_error li)
  · exact settled_fail _ _ (by decide)

theorem settled_proxExclusion (li : Parser) : Settled li (proxExclusion li) := by
  unfold proxExclusion
  dsimp only
  split_ifs
  · exact settled_fail _ _ (by decide)
  · exact settled_some _ (lex_error li)
  · exact settled_some _ (lex_error li)
  · exact settled_some _ (lex_error li)
  · exact settled_fail _ _ (by decide)

theorem settled_proxOrdered (li : Parser) : Settled li (proxOrdered li) := by
  unfold proxOrdered
  dsimp only
  split_ifs
  · exact settled_fail _ _ (by decide)
  · exact settled_some _ (lex_error li)
  · exact settled_some _ (lex_error li)
  · exact settled_fail _ _ (by decide)

theorem settled_proxWhich (li : Parser) : Settled li (proxWhich li) := by
  unfold proxWhich
  dsimp only
  split_ifs
  · exact settled_fail _ _ (by decide)
  · exact settled_some _ (lex_error li)
  · exact settled_some _ (lex_error li)
  · exact settled_some _ (lex_error li)
  · exact settled_some _ (lex_error li)
  · exact settled_fail _ _ (by decide)

theorem settled_rpnProximity (li : Parser) : Settled li (rpnProximity li) := by
  unfold rpnProximity
  split
  next failed => exact (settled_proxExclusion li).of_none failed
  next li₁ exclusion =>
    have one := (settled_proxExclusion li).of_some exclusion
    split
    next failed => exact ((settled_proxInteger li₁).behind one).of_none failed
    next li₂ distance =>
      have two := ((settled_proxInteger li₁).behind one).of_some distance
      split
      next failed => exact ((settled_proxOrdered li₂).behind two).of_none failed
      next li₃ ordered =>
        have three := ((settled_proxOrdered li₂).behind two).of_some ordered
        split
        next failed => exact ((settled_proxInteger li₃).behind three).of_none failed
        next li₄ relation =>
          have four := ((settled_proxInteger li₃).behind three).of_some relation
          split
          next failed => exact ((settled_proxWhich li₄).behind four).of_none failed
          next li₅ which =>
            have five := ((settled_proxWhich li₄).behind four).of_some which
            split
            next failed => exact ((settled_proxInteger li₅).behind five).of_none failed
            next unit => exact settled_some _ (((settled_proxInteger li₅).behind five).of_some unit)

theorem settled_rpnOperator (li : Parser) : Settled li (rpnOperator li) := by
  unfold rpnOperator
  split
  · exact settled_some _ rfl
  · exact settled_some _ rfl
  · exact settled_some _ rfl
  · split
    next failed => exact (settled_rpnProximity li).of_none failed
    next read => exact settled_some _ ((settled_rpnProximity li).of_some read)
  · exact settled_fail _ _ (by decide)

section
variable {Oid : Type} {attset : List UInt8 → Option Oid}

theorem settled_rpnSimple (li : Parser) (attrs : List (Attr Oid)) : Settled li (rpnSimple li attrs) := by
  unfold rpnSimple
  split
  · exact settled_some _ (lex_error li)
  · dsimp only
    split
    · exact settled_fail _ _ (by decide)
    · exact settled_some _ ((lex_error _).trans (lex_error li))
  · exact settled_fail _ _ (by decide)

def typedEnd (li : Parser) : Bool × Parser := ((splitEquals li.lexBuf).isSome && li.lexBuf.head?.any isDigit, li)

variable (attset) in
def namedEnd (li : Parser) : Bool × Parser :=
  if (queryOidGetvalbyname attset li).isNone then (false, li)
  else if (lex li).queryLook = .ends then (false, lex li)
  else typedEnd (lex li)

variable (attset) in
/-- Whether the specification behind `@attr` is accepted as the attribute number `num`, and its last token, or the one at which it
is refused. -/
def specEnd (li : Parser) (num : Nat) : Bool × Parser :=
  if (lex li).queryLook = .ends ∨ maxAttr ≤ num then (false, lex li)
  else if (splitEquals (lex li).lexBuf).any (fun split => split.1 ≤ (lex li).lexLen) then typedEnd (lex li)
  else namedEnd attset (lex li)

def Ended (ended : Bool × Parser) (parsed : Option (Attr Oid) × Parser) : Prop :=
  if ended.1 then ∃ attr, parsed = (some attr, ended.2) else ∃ error, error ≠ PqfError.none ∧ parsed = (none, ended.2.fail error)

theorem ended_fail (li : Parser) {error : PqfError} (isError : error ≠ .none) :
    Ended (false, li) ((none : Option (Attr Oid)), li.fail error) :=
  ⟨error, isError, rfl⟩

variable {li : Parser}

theorem parseTypeValue_ended {split : Nat × List UInt8} (found : splitEquals li.lexBuf = some split) (set : Option Oid) :
    Ended (typedEnd li) (parseTypeValue li set split.1 split.2) := by
  rw [typedEnd, found, Option.isSome_some, Bool.true_and, parseTypeValue]
  by_cases digit : li.lexBuf.head?.any isDigit = true
  · rw [if_neg (not_not_intro digit), digit]
    dsimp only
    split
    · exact ⟨_, rfl⟩
    · exact ⟨_, rfl⟩
  · rw [if_pos digit, Bool.eq_false_of_not_eq_true digit]
    exact ended_fail li (by decide)

theorem named_ended (li : Parser) : Ended (namedEnd attset li) (pQueryParseAttr.named attset li) := by
  rw [pQueryParseAttr.named, namedEnd]
  cases queryOidGetvalbyname attset li with
  | none => exact ended_fail li (by decide)
  | some set =>
    have known : ¬ (some set).isNone = true := Bool.false_ne_true
    dsimp only
    rw [if_neg known]
    by_cases ends : (lex li).queryLook = .ends
    · rw [if_pos ends, if_pos ends]
      exact ended_fail _ (by decide)
    · rw [if_neg ends, if_neg ends]
      cases found : splitEquals (lex li).lexBuf with
      | none =>
        rw [typedEnd, found]
        exact ended_fail _ (by decide)
      | some => exact parseTypeValue_ended found (some set)

variable (attset) in
theorem rpnAttr_ended (li : Parser) (attrs : List (Attr Oid)) :
    if (specEnd attset li attrs.length).1 then
      ∃ attr, rpnAttr attset li attrs = (some (attrs ++ [attr]), lex (specEnd attset li attrs.length).2)
    else ∃ error, error ≠ PqfError.none ∧ rpnAttr attset li attrs = (none, (specEnd attset li attrs.length).2.fail error) := by
  rw [rpnAttr]
  -- refused at the token behind `@attr`, or what `p_query_parse_attr` makes of it
  by_cases ends : (lex li).queryLook = .ends
  · have end' : specEnd attset li attrs.length = (false, lex li) := if_pos (.inl ends)
    rw [end', if_pos ends]
    exact ⟨.missing, by decide, rfl⟩
  · by_cases many : maxAttr ≤ attrs.length
    · have end' : specEnd attset li attrs.length = (false, lex li) := if_pos (.inr many)
      rw [end', if_neg ends, if_pos many]
      exact ⟨.tooMany, by decide, rfl⟩
    · have end' : specEnd attset li attrs.length =
          if (splitEquals (lex li).lexBuf).any (fun split => split.1 ≤ (lex li).lexLen) then typedEnd (lex li)
          else namedEnd attset (lex li) := if_neg (not_or.mpr ⟨ends, many⟩)
      have ended : Ended (specEnd attset li attrs.length) (pQueryParseAttr attset (lex li) attrs) := by
        rw [end', pQueryParseAttr]
        cases found : splitEquals (lex li).lexBuf with
        | none => exact named_ended (lex li)
        | some split =>
          by_cases inside : split.1 ≤ (lex li).lexLen
          · have any : ((some split).any fun split => split.1 ≤ (lex li).lexLen) = true := decide_eq_true inside
            rw [if_pos any]
            dsimp only
            rw [if_neg (Nat.not_lt.mpr inside)]
            exact parseTypeValue_ended found _
          · have none' : ¬ ((some split).any fun split => split.1 ≤ (lex li).lexLen) = true := fun is => inside (of_decide_eq_true is)
            rw [if_neg none']
            dsimp only
            rw [if_pos (Nat.not_le.mp inside)]
            exact named_ended (lex li)
      rw [if_neg ends, if_neg many]
      rw [Ended] at ended
      split
      · next accepted =>
        rw [if_pos accepted] at ended
        obtain ⟨attr, read⟩ := ended
        rw [read]
        exact ⟨attr, rfl⟩
      · next refused =>
        rw [if_neg refused] at ended
        obtain ⟨error, isError, read⟩ := ended
        rw [read]
        exact ⟨error, isError, rfl⟩

/-! ### Queries -/

theorem settled_rpnComplex {operand : Parser → Option (Rpn Oid) × Parser} (look : li.queryLook ≠ .ends)
    (behind : ∀ li : Parser, li.Behind (operand li).2) (settled : ∀ next : Parser, next.left < li.left → Settled next (operand next)) :
    Settled li (rpnComplex operand li) := by
  unfold rpnComplex
  split
  next failed => exact (settled_rpnOperator li).of_none failed
  next op li₁ read =>
    have one := (lex_error li₁).trans ((settled_rpnOperator li).of_some read)
    have less := lex_left_lt look (behind_of_eq behind_rpnOperator read)
    split
    next failed => exact ((settled _ less).behind one).of_none failed
    next s1 li₂ first =>
      have two := ((settled _ less).behind one).of_some first
      have less' : li₂.left < li.left := Nat.lt_of_le_of_lt (behind_of_eq behind first).1 less
      split
      next failed => exact ((settled _ less').behind two).of_none failed
      next second => exact settled_some _ (((settled _ less').behind two).of_some second)

theorem specEnd_error (li : Parser) (num : Nat) : (specEnd attset li num).2.error = li.error := by
  rw [specEnd, typedEnd, namedEnd]
  split_ifs
  · exact lex_error li
  · exact lex_error li
  · exact lex_error li
  · exact (lex_error _).trans (lex_error li)
  · exact (lex_error _).trans (lex_error li)

variable (attset) in
theorem settled_rpnAttr (li : Parser) (attrs : List (Attr Oid)) : Settled li (rpnAttr attset li attrs) := by
  have ended := rpnAttr_ended attset li attrs
  split at ended
  · obtain ⟨attr, read⟩ := ended
    rw [read]
    exact settled_some _ ((lex_error _).trans (specEnd_error li attrs.length))
  · obtain ⟨error, isError, failed⟩ := ended
    rw [failed]
    exact settled_fail li _ isError

variable (attset) in
theorem settled_rpnStructure (enough : li.left < rounds) (attrs : List (Attr Oid)) :
    Settled li (rpnStructure attset rounds li attrs) := by
  -- a round reads one token at least, so that the rounds do not run out
  induction rounds generalizing li attrs with
  | zero => omega
  | succ rounds ih =>
    rcases look : li.queryLook with _ | _ | _ | _ | _ | _ | _ | _ | _ | _
    case ends =>
      simp only [rpnStructure, look]
      exact settled_fail _ _ (by decide)
    case attr =>
      have less := lex_left_lt (by simp [look]) li.behind_self
      have behind := (behind_rpnAttr attset li attrs).1
      have settled := settled_rpnAttr attset li attrs
      rcases read : rpnAttr attset li attrs with ⟨_ | attrs', next⟩
      · rw [rpnStructure_noAttr attset look read]
        exact settled.of_none read
      · rw [rpnStructure_attr attset look read]
        rw [read] at behind
        exact (ih (show next.left < rounds by dsimp only at behind; omega) attrs').behind (settled.of_some read)
    case attrset =>
      simp only [rpnStructure, look]
      exact settled_some _ rfl
    case termType =>
      have less := lex_left_lt (by simp [look]) li.behind_self
      have behind := (behind_rpnTermType (lex li)).1
      rw [rpnStructure_termType attset look]
      exact (ih (by omega) attrs).behind ((rpnTermType_error _).trans (lex_error li))
    case text | set =>
      rw [rpnStructure_simple attset (by simp [look])]
      exact settled_rpnSimple li attrs
    all_goals
      rw [rpnStructure_complex attset (by simp [look])]
      exact settled_rpnComplex (by simp [look]) (fun next => behind_rpnStructure attset rounds next attrs)
        fun next less => ih (by omega) attrs

def Stored.Complete : Stored Oid → Prop
  | .unset => False
  | .apt operand => operand.attributes.isSome = true
  | .resultSet _ => True
  | .complex _ s1 s2 => s1.Complete ∧ s2.Complete

variable (attset) in
/-- What a round of `rpn_structure` makes of the text, as it begins, with what is left behind it. -/
inductive Round (rounds : Nat) (li : Parser) (num : Nat) (arrays : Arrays Oid) : Stored Oid → Parser → Arrays Oid → Prop where
  | complex {op : Operator} {li₁ li₂ next : Parser} {s1 s2 : Stored Oid} {arrays₁ arrays' : Arrays Oid} : rpnOperator li = (some op, li₁) →
      rpnStructureIn attset rounds (lex li₁) num arrays = (some s1, li₂, arrays₁) →
      rpnStructureIn attset rounds li₂ num arrays₁ = (some s2, next, arrays') → Round rounds li num arrays (.complex op s1 s2) next arrays'
  | term : li.queryLook = .text →
      Round rounds li num arrays (.apt (rpnTermAttributes li (some (getAttributeListIn num arrays)))) (lex li) arrays
  | resultSet : li.queryLook = .set → (lex li).queryLook ≠ .ends →
      Round rounds li num arrays (.resultSet (lex li).lexeme) (lex (lex li)) arrays
  | attr {li₁ next : Parser} {arrays₁ arrays' : Arrays Oid} {tree : Stored Oid} : li.queryLook = .attr →
      rpnAttrIn attset li num arrays = (true, li₁, arrays₁) →
      rpnStructureIn attset rounds li₁ (num + 1) arrays₁ = (some tree, next, arrays') → Round rounds li num arrays tree next arrays'
  | termType {next : Parser} {arrays' : Arrays Oid} {tree : Stored Oid} : li.queryLook = .termType →
      rpnStructureIn attset rounds (rpnTermType (lex li)) num arrays = (some tree, next, arrays') →
        Round rounds li num arrays tree next arrays'
  | attrset : li.queryLook = .attrset → Round rounds li num arrays .unset li arrays

variable {arrays arrays' : Arrays Oid}

theorem round_rpnComplexIn {num : Nat} {tree : Stored Oid}
    (read : rpnComplexIn (fun li arrays => rpnStructureIn attset rounds li num arrays) li arrays = (some tree, next, arrays')) :
    Round attset rounds li num arrays tree next arrays' := by
  unfold rpnComplexIn at read
  split at read
  · simp at read
  next op li₁ operator =>
    split at read
    · simp at read
    next s1 li₂ arrays₁ first =>
      split at read
      · simp at read
      next s2 li₃ arrays₂ second =>
        obtain ⟨rfl, rfl, rfl⟩ := read
        exact .complex operator first second

theorem rpnStructureIn_round {num : Nat} {tree : Stored Oid}
    (read : rpnStructureIn attset (rounds + 1) li num arrays = (some tree, next, arrays')) :
    Round attset rounds li num arrays tree next arrays' := by
  simp only [rpnStructureIn] at read
  split at read
  · exact round_rpnComplexIn read
  · exact round_rpnComplexIn read
  · exact round_rpnComplexIn read
  · exact round_rpnComplexIn read
  · next look =>
    simp only [rpnSimpleIn, look, Prod.mk.injEq, Option.some.injEq] at read
    obtain ⟨rfl, rfl, rfl⟩ := read
    exact .term look
  · next look =>
    simp only [rpnSimpleIn, look] at read
    split at read
    · simp at read
    next named =>
      obtain ⟨rfl, rfl, rfl⟩ := read
      exact .resultSet look named
  · next look =>
    split at read
    · simp at read
    next written => exact .attr look written read
  · next look => exact .termType look read
  · simp at read
  · next look =>
    obtain ⟨rfl, rfl, rfl⟩ := read
    exact .attrset look

theorem rpnStructureIn_attrset {num : Nat} {tree : Stored Oid}
    (look : li.queryLook = .attrset) (read : rpnStructureIn attset rounds li num arrays = (some tree, next, arrays')) : next = li := by
  cases rounds with
  | zero => simp [rpnStructureIn] at read
  | succ =>
    simp only [rpnStructureIn, look, Prod.mk.injEq] at read
    exact read.2.1.symm

theorem rpnStructureIn_complete {num : Nat} {tree : Stored Oid}
    (read : rpnStructureIn attset rounds li num arrays = (some tree, next, arrays')) : tree.Complete ∨ next.queryLook = .attrset := by
  induction rounds generalizing li next num arrays arrays' tree with
  | zero => simp [rpnStructureIn] at read
  | succ _ ih =>
    cases rpnStructureIn_round read with
    | complex _ first second =>
      rcases ih second with complete | attrset
      · rcases ih first with complete' | attrset
        · exact .inl ⟨complete', complete⟩
        · -- the second operand stops at the same token
          exact .inr (rpnStructureIn_attrset attrset second ▸ attrset)
      · exact .inr attrset
    | term => exact .inl rfl
    | resultSet => exact .inl trivial
    | attr _ _ tail => exact ih tail
    | termType _ tail => exact ih tail
    | attrset look => exact .inr look

variable {bib1 : Oid}

theorem settled_topSet (li : Parser) : Settled li (topSet attset bib1 li) := by
  unfold topSet
  dsimp only
  split
  · split
    · exact settled_fail _ _ (by decide)
    · exact settled_some _ ((lex_error _).trans ((lex_error _).trans (lex_error li)))
  · exact settled_some _ (lex_error li)

variable (attset bib1) in
/-- `yaz_pqf_parse` of a fresh parser: a query is returned just if there is no error, and it is complete. -/
def ParseConsistent (qbuf : List UInt8) : Prop :=
  ∀ arrays : Arrays Oid,
    ((yazPqfParseIn attset bib1 yazPqfCreate arrays qbuf).1.isSome = true ↔
        (yazPqfParseIn attset bib1 yazPqfCreate arrays qbuf).2.error = .none) ∧
      ∀ query ∈ (yazPqfParseIn attset bib1 yazPqfCreate arrays qbuf).1, query.2.Complete

variable (attset bib1) in
/-- `yaz_pqf_scan` of a fresh parser: an operand is returned just if there is no error, and it is complete. -/
def ScanConsistent (qbuf : List UInt8) : Prop :=
  ((yazPqfScan attset bib1 yazPqfCreate qbuf).2.1.isSome = true ↔ (yazPqfScan attset bib1 yazPqfCreate qbuf).2.2.error = .none) ∧
    ∀ apt ∈ (yazPqfScan attset bib1 yazPqfCreate qbuf).2.1, apt.attributes.isSome = true

theorem Settled.isSome_iff {α : Type} {result : Option α × Parser} (settled : Settled li result) (fresh : li.error = .none) :
    result.1.isSome = true ↔ result.2.error = .none := by
  obtain ⟨_ | a, next⟩ := result
  · exact iff_of_false Bool.false_ne_true settled
  · exact iff_of_true rfl (Eq.trans settled fresh)

theorem settled_pQueryRpnMkIn (li : Parser) (arrays : Arrays Oid) : Settled li (pQueryRpnMkIn attset bib1 li arrays) := by
  have enough := topSet_left attset bib1 li
  unfold pQueryRpnMkIn
  dsimp only
  split
  next failed => exact (settled_topSet li).of_none failed
  next set li₁ read =>
    rw [read] at enough
    have one := (settled_topSet li).of_some read
    have settled := (settled_rpnStructure attset enough (arrays.entries 0)).behind one
    rw [(rpnStructureIn_refines attset _ li₁ 0 arrays).1] at settled
    split
    next failed =>
      rw [failed] at settled
      exact settled.of_none rfl
    next tree li₂ arrays' stored =>
      rw [stored] at settled
      split
      · exact settled_fail _ _ (by decide)
      · exact settled_some _ (settled.of_some rfl)

theorem pQueryRpnMkIn_complete {query : Oid × Stored Oid}
    (accepted : (pQueryRpnMkIn attset bib1 li arrays).1 = some query) : query.2.Complete := by
  unfold pQueryRpnMkIn at accepted
  dsimp only at accepted
  split at accepted
  · simp at accepted
  · split at accepted
    · simp at accepted
    next tree li₂ arrays' stored =>
      split at accepted
      · simp at accepted
      next ends =>
        simp only [Option.some.injEq] at accepted
        rw [← accepted]
        exact (rpnStructureIn_complete stored).resolve_right fun attrset => by simp [attrset] at ends

theorem yazPqfParse_consistent (qbuf : List UInt8) : ParseConsistent attset bib1 qbuf := fun arrays =>
  ⟨(settled_pQueryRpnMkIn (pqfParserBegin yazPqfCreate qbuf) arrays).isSome_iff rfl, fun _ accepted => pQueryRpnMkIn_complete accepted⟩

/-! ### Scans -/

def Parser.Last (li : Parser) : Prop := li.queryLook ≠ .ends ∧ (lex li).queryLook = .ends

instance (li : Parser) : Decidable li.Last := inferInstanceAs (Decidable (_ ∧ _))

variable (attset) in
/-- Specifications, the first one for the attribute number `num`, of which one is refused at the last token of the query. -/
inductive EndsRefused : Parser → Nat → Prop where
  | refused {li : Parser} {num : Nat} : li.queryLook = .attr → (specEnd attset li num).1 = false → (specEnd attset li num).2.Last →
      EndsRefused li num
  | attr {li : Parser} {num : Nat} : li.queryLook = .attr → (specEnd attset li num).1 = true →
      EndsRefused (lex (specEnd attset li num).2) (num + 1) → EndsRefused li num
  | termType {li : Parser} {num : Nat} : li.queryLook = .termType → EndsRefused (rpnTermType (lex li)) num → EndsRefused li num

variable (attset) in
/-- A scan whose attributes are refused at the last token: at the name behind `@attrset`, or at a specification. -/
def ScanEndsRefused (qbuf : List UInt8) : Prop :=
  let first := lex (pqfParserBegin yazPqfCreate qbuf)
  if first.queryLook = .attrset then
    if (queryOidGetvalbyname attset (lex first)).isNone then (lex first).Last else EndsRefused attset (lex (lex first)) 0
  else EndsRefused attset first 0

theorem last_fail {error : PqfError} : (li.fail error).Last ↔ li.Last := by
  rw [Parser.Last, Parser.Last, lex_fail_look]
  exact Iff.rfl

theorem settled_scanAttributes (li : Parser) (attrs : List (Attr Oid)) :
    Settled li (scanAttributes attset rounds li attrs) := by
  induction rounds generalizing li attrs with
  | zero => exact settled_some _ rfl
  | succ _ ih =>
    rw [scanAttributes]
    split
    · split
      next failed => exact (settled_rpnAttr attset li attrs).of_none failed
      next read => exact (ih _ _).behind ((settled_rpnAttr attset li attrs).of_some read)
    · exact (ih _ _).behind ((rpnTermType_error _).trans (lex_error li))
    · exact settled_some _ rfl

/-- The attributes of a scan fail at the last token. -/
theorem scanAttributes_refused_iff (enough : li.left < rounds) (attrs : List (Attr Oid)) :
    ((scanAttributes attset rounds li attrs).1 = none ∧ (scanAttributes attset rounds li attrs).2.Last) ↔
      EndsRefused attset li attrs.length := by
  induction rounds generalizing li attrs with
  | zero => omega
  | succ _ ih =>
    rw [scanAttributes]
    split
    next look =>
      have ended := rpnAttr_ended attset li attrs
      have less := lex_left_lt (by simp [look]) li.behind_self
      have behind := (behind_rpnAttr attset li attrs).1
      -- an accepted specification is followed by the loop, a refused one ends it
      cases isEnd : (specEnd attset li attrs.length).1 with
      | true =>
        rw [isEnd, if_pos rfl] at ended
        obtain ⟨attr, read⟩ := ended
        rw [read] at behind ⊢
        dsimp only at behind ⊢
        rw [ih (by omega) (attrs ++ [attr]), List.length_append, List.length_singleton]
        constructor
        · exact .attr look isEnd
        · rintro (⟨_, refused, _⟩ | ⟨_, _, tail⟩ | ⟨other, _⟩)
          · rw [isEnd] at refused
            exact absurd refused Bool.true_eq_false_eq_False
          · exact tail
          · rw [look] at other
            exact absurd other (by decide)
      | false =>
        rw [isEnd, if_neg Bool.false_ne_true] at ended
        obtain ⟨error, -, failed⟩ := ended
        rw [failed]
        rw [last_fail]
        constructor
        · rintro ⟨-, last⟩
          exact .refused look isEnd last
        · rintro (⟨_, _, last⟩ | ⟨_, accepted, _⟩ | ⟨other, _⟩)
          · exact ⟨rfl, last⟩
          · rw [isEnd] at accepted
            exact absurd accepted Bool.false_ne_true
          · rw [look] at other
            exact absurd other (by decide)
    next look =>
      have less := lex_left_lt (by simp [look]) li.behind_self
      have behind := (behind_rpnTermType (lex li)).1
      rw [ih (by omega) attrs]
      constructor
      · exact .termType look
      · rintro (⟨other, _, _⟩ | ⟨other, _, _⟩ | ⟨_, tail⟩)
        · rw [look] at other
          exact absurd other (by decide)
        · rw [look] at other
          exact absurd other (by decide)
        · exact tail
    next noAttr noTermType =>
      refine iff_of_false (fun failed => absurd failed.1 (by simp)) ?_
      rintro (⟨look, _, _⟩ | ⟨look, _, _⟩ | ⟨look, _⟩)
      · exact noAttr look
      · exact noAttr look
      · exact noTermType look

variable (bib1) in
theorem pQueryScanAttributesMk_refused_iff (qbuf : List UInt8) :
    ((pQueryScanAttributesMk attset bib1 (pqfParserBegin yazPqfCreate qbuf)).2.1 = none ∧
        (pQueryScanAttributesMk attset bib1 (pqfParserBegin yazPqfCreate qbuf)).2.2.Last) ↔ ScanEndsRefused attset qbuf := by
  have enough := topSet_left attset bib1 (pqfParserBegin yazPqfCreate qbuf)
  have scanned (set : Oid) (li : Parser) (read : topSet attset bib1 (pqfParserBegin yazPqfCreate qbuf) = (some set, li)) :
      ((pQueryScanAttributesMk attset bib1 (pqfParserBegin yazPqfCreate qbuf)).2.1 = none ∧
        (pQueryScanAttributesMk attset bib1 (pqfParserBegin yazPqfCreate qbuf)).2.2.Last) ↔ EndsRefused attset li 0 := by
    rw [read] at enough
    rw [pQueryScanAttributesMk, read, ← List.length_nil (α := Attr Oid), ← scanAttributes_refused_iff enough []]
    dsimp only
    split
    next failed => rw [failed]; exact and_congr_left fun _ => iff_of_true rfl rfl
    next scanned => rw [scanned]; exact iff_of_false (fun none => absurd none.1 (by simp)) (fun none => absurd none.1 (by simp))
  rw [ScanEndsRefused]
  by_cases look : (lex (pqfParserBegin yazPqfCreate qbuf)).queryLook = .attrset
  · simp only [look, if_true]
    cases set : queryOidGetvalbyname attset (lex (lex (pqfParserBegin yazPqfCreate qbuf))) with
    | none =>
      have read : topSet attset bib1 (pqfParserBegin yazPqfCreate qbuf) =
          (none, (lex (lex (pqfParserBegin yazPqfCreate qbuf))).fail .attset) := by
        simp only [topSet, look, if_true, set]
      rw [pQueryScanAttributesMk, read]
      rw [last_fail]
      exact and_iff_right rfl
    | some set' => exact scanned set' _ (by simp only [topSet, look, if_true, set])
  · simp only [look, if_false]
    exact scanned bib1 _ (by simp only [topSet, look, if_false])

variable (attset bib1) in
theorem settled_pQueryScanAttributesMk (li : Parser) :
    Settled li (pQueryScanAttributesMk attset bib1 li).2 := by
  unfold pQueryScanAttributesMk
  dsimp only
  split
  next failed => exact (settled_topSet li).of_none failed
  next set li₁ read =>
    have one := (settled_topSet li).of_some read
    split
    next failed => exact ((settled_scanAttributes li₁ []).behind one).of_none failed
    next scanned => exact settled_some _ (((settled_scanAttributes li₁ []).behind one).of_some scanned)

theorem scanConsistent_iff (qbuf : List UInt8) : ScanConsistent attset bib1 qbuf ↔ ¬ ScanEndsRefused attset qbuf := by
  rw [← pQueryScanAttributesMk_refused_iff bib1]
  have settled := settled_pQueryScanAttributesMk attset bib1 (pqfParserBegin yazPqfCreate qbuf)
  rw [ScanConsistent, yazPqfScan, pQueryScanMk]
  rcases isScan : pQueryScanAttributesMk attset bib1 (pqfParserBegin yazPqfCreate qbuf) with ⟨set, attributes, li⟩
  rw [isScan] at settled
  dsimp only at settled ⊢
  by_cases ends : li.queryLook = .ends
  · rw [if_pos ends]
    refine iff_of_true ⟨iff_of_false Bool.false_ne_true ?_, fun _ none => absurd none (by simp)⟩ fun refused => refused.2.1 ends
    exact show PqfError.missing ≠ .none by decide
  · rw [if_neg ends]
    by_cases further : (lex li).queryLook = .ends
    · rw [if_neg (not_not_intro further)]
      cases attributes with
      | none =>
        -- the operand is returned with the error of its attributes
        refine iff_of_false (fun consistent => settled ?_) (not_not_intro ⟨rfl, ends, further⟩)
        exact (lex_error li) ▸ consistent.1.mp rfl
      | some =>
        refine iff_of_true ⟨iff_of_true rfl ?_, fun apt is => ?_⟩ fun refused => absurd refused.1 (by simp)
        · exact (lex_error li).trans settled
        · rw [← Option.some.inj is]
          rfl
    · rw [if_pos further]
      refine iff_of_true ⟨iff_of_false Bool.false_ne_true ?_, fun _ none => absurd none (by simp)⟩ fun refused => further refused.2.2
      exact show PqfError.extra ≠ .none by decide

/-- The results of a fresh parser are consistent with its error code unless a scan is refused at its last token. -/
theorem results_consistent_iff (attset : List UInt8 → Option Oid) (bib1 : Oid) (qbuf : List UInt8) :
    (ParseConsistent attset bib1 qbuf ∧ ScanConsistent attset bib1 qbuf) ↔ ¬ ScanEndsRefused attset qbuf := by
  rw [scanConsistent_iff]
  exact and_iff_right (yazPqfParse_consistent qbuf)

end

/-- `@attr foo` is scanned as the term `foo`, with the error that there is no such attribute set and without a list of attributes. -/
theorem results_inconsistent :
    yazPqfScan (fun _ => none) () yazPqfCreate (ascii "@attr foo") =
        (some (), some ⟨none, .general (ascii "foo")⟩, (yazPqfScan (fun _ => none) () yazPqfCreate (ascii "@attr foo")).2.2) ∧
      (yazPqfScan (fun _ => none) () yazPqfCreate (ascii "@attr foo")).2.2.error = .attset ∧
      ¬ (ParseConsistent (fun _ => none) () (ascii "@attr foo") ∧ ScanConsistent (fun _ => none) () (ascii "@attr foo")) := by
  refine ⟨by decide, by decide, fun consistent => ?_⟩
  exact absurd (consistent.2.1.mp (by decide)) (by decide)

end Yaz.Pqf
