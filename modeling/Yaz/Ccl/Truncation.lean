import Yaz.Ccl.Escapes

/-! The truncation operators of a CCL term: what an alias is by where it stands, and what `append_term` takes it for.

The index is compared when it has gone on over the alias, and an alias is looked for beyond the end of its token.
-/

set_option autoImplicit false

namespace Yaz.Ccl
open Yaz.Comstack (ascii)

theorem cmpOperator_take (aliases : List (List UInt8)) (input : List UInt8) {n : Nat} (fits : cmpOperator aliases input ≤ n) :
    cmpOperator aliases (input.take n) = cmpOperator aliases input := by
  induction aliases with
  | nil => rfl
  | cons cp _ ih =>
    rw [cmpOperator] at fits
    rw [cmpOperator, cmpOperator]
    by_cases here : input.take cp.length = cp
    · rw [if_pos here] at fits
      have within : (input.take n).take cp.length = cp := by rw [List.take_take, Nat.min_eq_left fits, here]
      rw [if_pos here, if_pos within]
    · rw [if_neg here] at fits
      have notWithin : (input.take n).take cp.length ≠ cp := by
        intro within
        have short : cp.length ≤ n := by
          have length := congrArg List.length within
          rw [List.length_take, List.length_take] at length
          omega
        rw [List.take_take, Nat.min_eq_left short] at within
        exact here within
      rw [if_neg here, if_neg notWithin, ih fits]

def TruncMode.plain (truncationAliases maskAliases : List (List UInt8)) : TruncMode :=
  { regexTrunc := false, z3958Trunc := false, truncationAliases := truncationAliases, maskAliases := maskAliases }

def CclParser.truncationAliases (cclp : CclParser) : List (List UInt8) :=
  (cclQualSearchSpecial cclp.bibset (ascii "truncation")).getD [ascii "?"]

def CclParser.maskAliases (cclp : CclParser) : List (List UInt8) := (cclQualSearchSpecial cclp.bibset (ascii "mask")).getD [ascii "#"]

/-- The octets of a token, by what is done for each of them; `left` octets are there, of which `skip` belong to an operator. -/
def readOctets (round : (left j : Nat) → Mark → UInt8 → List UInt8 → Except CclError OctetStep) :
    (left j skip : Nat) → (before : UInt8) → (quoteMode : Bool) → (src : List UInt8) → TermText → Except CclError TermText
  | 0, _, _, _, _, _, text => .ok text
  | _, _, _, _, _, [], text => .ok text
  | left + 1, j, skip + 1, _, quoteMode, c :: src, text => readOctets round left (j + 1) skip c quoteMode src text
  | left + 1, j, 0, before, quoteMode, c :: src, text =>
    match round (left + 1) j ⟨before = 92, quoteMode⟩ c src with
    | .error errorCode => .error errorCode
    | .ok step => readOctets round left (j + 1) (step.opSize - 1) c (quoteMode ^^ step.toggles) src (step.effect text)

section
variable (truncationAliases maskAliases : List (List UInt8)) (isFirst isLast : Bool)

theorem appendTerm_readOctets (mode : TruncMode) (srcLen left j skip : Nat) (before : UInt8) (quoteMode : Bool) (src : List UInt8)
    (text : TermText) :
    appendTerm mode srcLen isFirst isLast left j skip before quoteMode src text =
      readOctets (fun _ => mode.octetStep srcLen isFirst isLast) left j skip before quoteMode src text := by
  induction src generalizing left j skip before quoteMode text with
  | nil => cases left <;> cases skip <;> rfl
  | cons c src ih =>
    cases left with
    | zero => cases skip <;> rfl
    | succ left =>
      cases skip with
      | succ skip => exact ih left (j + 1) skip c quoteMode text
      | zero =>
        rw [appendTerm_octetStep, readOctets]
        cases mode.octetStep srcLen isFirst isLast j ⟨before = 92, quoteMode⟩ c src with
        | error => rfl
        | ok => exact ih _ _ _ _ _ _

/-- What an octet comes to when an alias is what it is by where it begins and ends within its token: at the beginning of the first one
it truncates on the left, at the end of the last one on the right, and elsewhere it is an error. -/
def placeStep (left j : Nat) (m : Mark) (c : UInt8) (src : List UInt8) : Except CclError OctetStep :=
  let trunc := cmpOperator truncationAliases ((c :: src).take left)
  let leads := isFirst && j = 0
  let ends := isLast && trunc = left
  if m.escaped then .ok { opSize := 1, effect := fun text => text.add [c] }
  else if c = 34 then .ok { opSize := 1, toggles := true, effect := id }
  else if !m.quoted && trunc ≠ 0 then
    if leads || ends then
      .ok { opSize := trunc, effect := fun text => { text with leftTrunc := text.leftTrunc || leads, rightTrunc := text.rightTrunc || ends } }
    else .error .truncNotEmbed
  else if !m.quoted && cmpOperator maskAliases (c :: src) ≠ 0 then .error .truncNotSingle
  else if c ≠ 92 then .ok { opSize := 1, effect := fun text => text.add [c] }
  else .ok { opSize := 1, effect := id }

/-- An alias that is taken for something else than it is: one that goes on behind the token, and at the beginning of the first token one
of several octets or one that is the whole term. -/
def Misplaced (left j : Nat) (m : Mark) (c : UInt8) (src : List UInt8) : Prop :=
  let trunc := cmpOperator truncationAliases (c :: src)
  (m.escaped = false ∧ c ≠ 34 ∧ m.quoted = false ∧ trunc ≠ 0) ∧
    (left < trunc ∨ (isFirst = true ∧ j = 0) ∧ (1 < trunc ∨ isLast = true ∧ left = 1))

def WellPlaced : (left j skip : Nat) → (before : UInt8) → (quoteMode : Bool) → (src : List UInt8) → Prop
  | 0, _, _, _, _, _ => True
  | _, _, _, _, _, [] => True
  | left + 1, j, skip + 1, _, quoteMode, c :: src => WellPlaced left (j + 1) skip c quoteMode src
  | left + 1, j, 0, before, quoteMode, c :: src =>
    ¬Misplaced truncationAliases isFirst isLast (left + 1) j ⟨before = 92, quoteMode⟩ c src ∧
      match placeStep truncationAliases maskAliases isFirst isLast (left + 1) j ⟨before = 92, quoteMode⟩ c src with
      | .error _ => True
      | .ok step => WellPlaced left (j + 1) (step.opSize - 1) c (quoteMode ^^ step.toggles) src

variable {truncationAliases maskAliases isFirst isLast}

section
variable {srcLen left j : Nat} {m : Mark} {c : UInt8} {src : List UInt8}

theorem octetStep_plain :
    (TruncMode.plain truncationAliases maskAliases).octetStep srcLen isFirst isLast j m c src =
      if m.escaped then .ok { opSize := 1, effect := fun text => text.add [c] }
      else if c = 34 then .ok { opSize := 1, toggles := true, effect := id }
      else if !m.quoted && cmpOperator truncationAliases (c :: src) ≠ 0 then
        if isFirst && j + (cmpOperator truncationAliases (c :: src) - 1) = 0 then
          .ok { opSize := cmpOperator truncationAliases (c :: src), effect := fun text => { text with leftTrunc := true } }
        else if isLast && j + (cmpOperator truncationAliases (c :: src) - 1) = srcLen - 1 then
          .ok { opSize := cmpOperator truncationAliases (c :: src), effect := fun text => { text with rightTrunc := true } }
        else .error .truncNotEmbed
      else if !m.quoted && cmpOperator maskAliases (c :: src) ≠ 0 then .error .truncNotSingle
      else if c ≠ 92 then .ok { opSize := 1, effect := fun text => text.add [c] }
      else .ok { opSize := 1, effect := id } := by
  rfl

theorem octetStep_noTrunc (noTrunc : m.escaped = true ∨ c = 34 ∨ m.quoted = true ∨ cmpOperator truncationAliases (c :: src) = 0) :
    (TruncMode.plain truncationAliases maskAliases).octetStep srcLen isFirst isLast j m c src =
      placeStep truncationAliases maskAliases isFirst isLast left j m c src := by
  have none : (!m.quoted && cmpOperator truncationAliases (c :: src) ≠ 0) = true → m.escaped = true ∨ c = 34 := by
    intro found
    simp at found
    rcases noTrunc with escaped | quote | quoted | none
    · exact .inl escaped
    · exact .inr quote
    · exact absurd quoted (by simp [found.1])
    · exact absurd none found.2
  have within : (!m.quoted && cmpOperator truncationAliases ((c :: src).take left) ≠ 0) = true → m.escaped = true ∨ c = 34 := by
    intro found
    rcases noTrunc with escaped | quote | quoted | none
    · exact .inl escaped
    · exact .inr quote
    · simp [quoted] at found
    · rw [cmpOperator_take _ _ (none ▸ Nat.zero_le left), none] at found
      simp at found
  rw [octetStep_plain, placeStep]
  by_cases escaped : m.escaped = true
  · rw [if_pos escaped, if_pos escaped]
  by_cases quote : c = 34
  · rw [if_neg escaped, if_pos quote, if_neg escaped, if_pos quote]
  rw [if_neg escaped, if_neg quote, if_neg escaped, if_neg quote]
  have neither : ¬(m.escaped = true ∨ c = 34) := by simp [escaped, quote]
  rw [if_neg (mt none neither), if_neg (mt within neither)]

theorem octetStep_trunc (found : m.escaped = false ∧ c ≠ 34 ∧ m.quoted = false ∧ cmpOperator truncationAliases (c :: src) ≠ 0) :
    (TruncMode.plain truncationAliases maskAliases).octetStep srcLen isFirst isLast j m c src =
      if isFirst && j + (cmpOperator truncationAliases (c :: src) - 1) = 0 then
        .ok { opSize := cmpOperator truncationAliases (c :: src), effect := fun text => { text with leftTrunc := true } }
      else if isLast && j + (cmpOperator truncationAliases (c :: src) - 1) = srcLen - 1 then
        .ok { opSize := cmpOperator truncationAliases (c :: src), effect := fun text => { text with rightTrunc := true } }
      else .error .truncNotEmbed := by
  obtain ⟨notEscaped, notQuote, notQuoted, found⟩ := found
  rw [octetStep_plain, if_neg (by simp [notEscaped]), if_neg notQuote, if_pos (by simpa [notQuoted] using found)]

theorem placeStep_trunc (found : m.escaped = false ∧ c ≠ 34 ∧ m.quoted = false ∧ cmpOperator truncationAliases (c :: src) ≠ 0)
    (fits : cmpOperator truncationAliases (c :: src) ≤ left) :
    placeStep truncationAliases maskAliases isFirst isLast left j m c src =
      if (isFirst && j = 0) || (isLast && cmpOperator truncationAliases (c :: src) = left) then
        .ok
          { opSize := cmpOperator truncationAliases (c :: src)
            effect := fun text =>
              { text with
                leftTrunc := text.leftTrunc || (isFirst && j = 0)
                rightTrunc := text.rightTrunc || (isLast && cmpOperator truncationAliases (c :: src) = left) } }
      else .error .truncNotEmbed := by
  obtain ⟨notEscaped, notQuote, notQuoted, found⟩ := found
  rw [placeStep, cmpOperator_take _ _ fits, if_neg (by simp [notEscaped]), if_neg notQuote, if_pos (by simpa [notQuoted] using found)]

theorem octetStep_eq_placeStep (some : 0 < left) (position : j + left = srcLen)
    (well : ¬Misplaced truncationAliases isFirst isLast left j m c src) :
    (TruncMode.plain truncationAliases maskAliases).octetStep srcLen isFirst isLast j m c src =
      placeStep truncationAliases maskAliases isFirst isLast left j m c src := by
  by_cases found : m.escaped = false ∧ c ≠ 34 ∧ m.quoted = false ∧ cmpOperator truncationAliases (c :: src) ≠ 0
  · rw [Misplaced, and_iff_right found, not_or, not_and, not_lt] at well
    obtain ⟨fits, leading⟩ := well
    rw [octetStep_trunc found, placeStep_trunc found fits]
    generalize cmpOperator truncationAliases (c :: src) = trunc at found fits leading ⊢
    by_cases leads : isFirst = true ∧ j = 0
    · obtain ⟨notLong, notWhole⟩ := not_or.mp (leading leads)
      obtain rfl : trunc = 1 := by omega
      have notEnds : (isLast && decide (1 = left)) = false := by
        simp only [Bool.and_eq_false_imp, decide_eq_false_iff_not]
        exact fun last whole => notWhole ⟨last, whole.symm⟩
      rw [if_pos (by simp [leads]), notEnds, if_pos (by simp [leads])]
      simp [leads]
    · have notLeads : (isFirst && decide (j = 0)) = false := by simpa using leads
      have notLeft : (isFirst && decide (j + (trunc - 1) = 0)) = false := by
        simp only [Bool.and_eq_false_imp, decide_eq_false_iff_not]
        exact fun first none => leads ⟨first, by omega⟩
      have atEnd : (j + (trunc - 1) = srcLen - 1) ↔ trunc = left := by omega
      rw [notLeads, notLeft, if_neg Bool.false_ne_true, decide_eq_decide.mpr atEnd, Bool.false_or]
      by_cases ends : (isLast && decide (trunc = left)) = true
      · rw [if_pos ends, if_pos ends, ends]
        simp
      · rw [if_neg ends, if_neg ends]
  · refine octetStep_noTrunc ?_
    simpa [or_iff_not_imp_left] using found

theorem octetStep_misplaced (some : 0 < left) (position : j + left = srcLen)
    (wrong : Misplaced truncationAliases isFirst isLast left j m c src) :
    (TruncMode.plain truncationAliases maskAliases).octetStep srcLen isFirst isLast j m c src = .error .truncNotEmbed ∨
      (j = 0 ∧ isFirst = true ∧ isLast = true) ∧
        (∃ step, placeStep truncationAliases maskAliases isFirst isLast left j m c src = .ok step ∧ step.opSize = left ∧
          ∀ text, step.effect text = { text with leftTrunc := true, rightTrunc := true }) ∧
        ∃ step, (TruncMode.plain truncationAliases maskAliases).octetStep srcLen isFirst isLast j m c src = .ok step ∧ step.opSize = left ∧
          ∀ text, step.effect text = { text with leftTrunc := true } ∨ step.effect text = { text with rightTrunc := true } := by
  obtain ⟨found, how⟩ := wrong
  rw [octetStep_trunc found]
  -- an alias with more octets than are left fits neither end of the term
  by_cases fits : left < cmpOperator truncationAliases (c :: src)
  · refine .inl ((if_neg ?_).trans (if_neg ?_))
    · simp only [Bool.and_eq_true, decide_eq_true_eq]
      omega
    · simp only [Bool.and_eq_true, decide_eq_true_eq]
      omega
  · obtain ⟨⟨first, start⟩, form⟩ := how.resolve_left fits
    rw [placeStep_trunc found (not_lt.mp fits)]
    generalize cmpOperator truncationAliases (c :: src) = trunc at found form fits ⊢
    subst first start
    -- the alias is the whole term, or it stands at the wrong end of one
    by_cases whole : isLast = true ∧ trunc = left
    · obtain ⟨rfl, rfl⟩ := whole
      refine .inr ⟨⟨rfl, rfl, rfl⟩, ⟨_, if_pos (by simp), rfl, fun text => by simp⟩, ?_⟩
      by_cases one : trunc = 1
      · exact ⟨_, if_pos (by simp [one]), rfl, fun text => .inl rfl⟩
      · refine ⟨_, (if_neg ?_).trans (if_pos ?_), rfl, fun text => .inr rfl⟩
        · simp only [Bool.and_eq_true, decide_eq_true_eq]
          omega
        · simp only [Bool.and_eq_true, decide_eq_true_eq]
          exact ⟨trivial, by omega⟩
    · refine .inl ((if_neg ?_).trans (if_neg ?_))
      · simp only [Bool.and_eq_true, decide_eq_true_eq]
        rintro ⟨-, short⟩
        rcases form with long | ⟨last, one⟩
        · omega
        · exact whole ⟨last, by omega⟩
      · simp only [Bool.and_eq_true, decide_eq_true_eq]
        rintro ⟨last, atEnd⟩
        exact whole ⟨last, by omega⟩

end

theorem readOctets_skip (round : (left j : Nat) → Mark → UInt8 → List UInt8 → Except CclError OctetStep) (left j : Nat) (before : UInt8)
    (quoteMode : Bool) (src : List UInt8) (text : TermText) : readOctets round left j left before quoteMode src text = .ok text := by
  induction src generalizing left j before with
  | nil => cases left <;> rfl
  | cons c _ ih =>
    cases left with
    | zero => rfl
    | succ left => exact ih left (j + 1) c

theorem readOctets_wellPlaced {srcLen left j : Nat} (position : j + left = srcLen) (skip : Nat) (before : UInt8) (quoteMode : Bool)
    (src : List UInt8) (text : TermText) (well : WellPlaced truncationAliases maskAliases isFirst isLast left j skip before quoteMode src) :
    readOctets (fun _ => (TruncMode.plain truncationAliases maskAliases).octetStep srcLen isFirst isLast) left j skip before
      quoteMode src text =
      readOctets (placeStep truncationAliases maskAliases isFirst isLast) left j skip before quoteMode src text := by
  induction src generalizing left j skip before quoteMode text with
  | nil => cases left <;> cases skip <;> rfl
  | cons c src ih =>
    cases left with
    | zero => cases skip <;> rfl
    | succ left =>
      have next : j + 1 + left = srcLen := by omega
      cases skip with
      | succ skip => exact ih next skip c quoteMode text well
      | zero =>
        obtain ⟨here, rest⟩ := well
        rw [readOctets, readOctets, octetStep_eq_placeStep (Nat.succ_pos left) position here]
        cases is : placeStep truncationAliases maskAliases isFirst isLast (left + 1) j ⟨before = 92, quoteMode⟩ c src with
        | error => rfl
        | ok =>
          rw [is] at rest
          exact ih next _ c _ _ rest

/-- A term with an alias that is taken for something else is an error, but for one that is nothing but an alias. -/
theorem readOctets_misplaced {srcLen left j : Nat} (position : j + left = srcLen) (skip : Nat) (before : UInt8) (quoteMode : Bool)
    (src : List UInt8) (text : TermText)
      (wrong : ¬WellPlaced truncationAliases maskAliases isFirst isLast left j skip before quoteMode src) :
    readOctets (fun _ => (TruncMode.plain truncationAliases maskAliases).octetStep srcLen isFirst isLast) left j skip before
      quoteMode src text =
        .error .truncNotEmbed ∨
      (j = 0 ∧ isFirst = true ∧ isLast = true) ∧
        readOctets (placeStep truncationAliases maskAliases isFirst isLast) left j skip before quoteMode src text =
          .ok { text with leftTrunc := true, rightTrunc := true } ∧
        ∃ read,
          readOctets (fun _ => (TruncMode.plain truncationAliases maskAliases).octetStep srcLen isFirst isLast) left j skip before
      quoteMode src text =
              .ok read ∧
            (read = { text with leftTrunc := true } ∨ read = { text with rightTrunc := true }) := by
  induction src generalizing left j skip before quoteMode text with
  | nil => cases left <;> cases skip <;> exact absurd trivial wrong
  | cons c src ih =>
    cases left with
    | zero => cases skip <;> exact absurd trivial wrong
    | succ left =>
      have next : j + 1 + left = srcLen := by omega
      cases skip with
      | succ skip =>
        rcases ih next skip c quoteMode text wrong with failed | ⟨⟨start, -⟩, -⟩
        · exact .inl failed
        · exact absurd start (Nat.succ_ne_zero j)
      | zero =>
        rw [WellPlaced, not_and_or, not_not] at wrong
        rw [readOctets, readOctets]
        -- the first mistake is here, or behind this octet, where a term that is nothing but an alias is past
        by_cases here : Misplaced truncationAliases isFirst isLast (left + 1) j ⟨before = 92, quoteMode⟩ c src
        · rcases @octetStep_misplaced truncationAliases maskAliases _ _ _ _ _ _ _ _ (Nat.succ_pos left) position here with
            failed | ⟨single, ⟨placed, isPlaced, placedSize, placedEffect⟩, read, isRead, readSize, readEffect⟩
          · rw [failed]
            exact .inl rfl
          · rw [isPlaced, isRead]
            refine .inr ⟨single, ?_, read.effect text, ?_, readEffect text⟩
            · dsimp only
              rw [placedSize, ← placedEffect text]
              exact readOctets_skip _ _ _ _ _ _ _
            · dsimp only
              rw [readSize]
              exact readOctets_skip _ _ _ _ _ _ _
        · rw [octetStep_eq_placeStep (Nat.succ_pos left) position here]
          have rest := wrong.resolve_left here
          cases is : placeStep truncationAliases maskAliases isFirst isLast (left + 1) j ⟨before = 92, quoteMode⟩ c src with
          | error =>
            rw [is] at rest
            exact absurd trivial rest
          | ok step =>
            rw [is] at rest
            rcases ih next _ c _ (step.effect text) rest with failed | ⟨⟨start, -⟩, -⟩
            · exact .inl failed
            · exact absurd start (Nat.succ_ne_zero j)

variable (truncationAliases maskAliases)

def placeTokens : (isFirst : Bool) → List Token → TermText → Except CclError TermText
  | _, [], text => .ok text
  | isFirst, t :: tokens, text =>
    let text := if text.dstTerm = [] then text else text.add t.wsPrefix
    match readOctets (placeStep truncationAliases maskAliases isFirst tokens.isEmpty) t.len 0 0 0 false t.name text with
    | .error errorCode => .error errorCode
    | .ok text => placeTokens false tokens text

def WellPlacedTokens : (isFirst : Bool) → List Token → TermText → Prop
  | _, [], _ => True
  | isFirst, t :: tokens, text =>
    let text := if text.dstTerm = [] then text else text.add t.wsPrefix
    WellPlaced truncationAliases maskAliases isFirst tokens.isEmpty t.len 0 0 0 false t.name ∧
      match readOctets (placeStep truncationAliases maskAliases isFirst tokens.isEmpty) t.len 0 0 0 false t.name text with
      | .error _ => True
      | .ok text => WellPlacedTokens false tokens text

variable {truncationAliases maskAliases}

theorem appendTokens_cons (mode : TruncMode) (isFirst : Bool) (t : Token) (tokens : List Token) (text : TermText) :
    appendTokens mode isFirst (t :: tokens) text =
      match
        readOctets (fun _ => mode.octetStep t.len isFirst tokens.isEmpty) t.len 0 0 0 false t.name
          (if text.dstTerm = [] then text else text.add t.wsPrefix) with
      | .error errorCode => .error errorCode
      | .ok text => appendTokens mode false tokens text := by
  rw [appendTokens, appendTerm_readOctets]
  cases readOctets (fun _ => mode.octetStep t.len isFirst tokens.isEmpty) t.len 0 0 0 false t.name
    (if text.dstTerm = [] then text else text.add t.wsPrefix) <;> rfl

theorem appendTokens_wellPlaced (isFirst : Bool) (tokens : List Token) (text : TermText)
    (well : WellPlacedTokens truncationAliases maskAliases isFirst tokens text) :
    appendTokens (TruncMode.plain truncationAliases maskAliases) isFirst tokens text =
      placeTokens truncationAliases maskAliases isFirst tokens text := by
  induction tokens generalizing isFirst text with
  | nil => rfl
  | cons t _ ih =>
    obtain ⟨here, rest⟩ := well
    rw [appendTokens_cons, placeTokens, readOctets_wellPlaced (Nat.zero_add t.len) 0 0 false t.name _ here]
    split at rest
    next => rfl
    next => exact ih false _ rest

def Misread (placed read : Except CclError TermText) : Prop :=
  read = .error .truncNotEmbed ∨
    ∃ placedText readText, placed = .ok placedText ∧ read = .ok readText ∧
      (placedText.leftTrunc && placedText.rightTrunc) = true ∧ (readText.leftTrunc && readText.rightTrunc) = false

theorem appendTokens_misread (isFirst : Bool) (tokens : List Token) (text : TermText)
    (fresh : isFirst = true → text.leftTrunc = false ∧ text.rightTrunc = false)
    (wrong : ¬WellPlacedTokens truncationAliases maskAliases isFirst tokens text) :
    Misread (placeTokens truncationAliases maskAliases isFirst tokens text)
      (appendTokens (TruncMode.plain truncationAliases maskAliases) isFirst tokens text) := by
  induction tokens generalizing isFirst text with
  | nil => exact absurd trivial wrong
  | cons t tokens ih =>
    rw [WellPlacedTokens, not_and_or] at wrong
    rw [appendTokens_cons, placeTokens]
    by_cases here : WellPlaced truncationAliases maskAliases isFirst tokens.isEmpty t.len 0 0 0 false t.name
    · rw [readOctets_wellPlaced (Nat.zero_add t.len) 0 0 false t.name _ here]
      have rest := wrong.resolve_left (not_not.mpr here)
      split at rest
      next => exact absurd trivial rest
      next placed _ =>
        exact ih false placed (fun first => absurd first Bool.false_ne_true) rest
    · rcases readOctets_misplaced (Nat.zero_add t.len) 0 0 false t.name (if text.dstTerm = [] then text else text.add t.wsPrefix) here with
        failed | ⟨⟨-, first, last⟩, placed, read, isRead, one⟩
      · rw [failed]
        exact .inl rfl
      · obtain rfl := List.isEmpty_iff.mp last
        rw [placed, isRead]
        refine .inr ⟨_, read, rfl, rfl, rfl, ?_⟩
        have start : (if text.dstTerm = [] then text else text.add t.wsPrefix).leftTrunc = false ∧
            (if text.dstTerm = [] then text else text.add t.wsPrefix).rightTrunc = false := by
          split <;> exact fresh first
        rcases one with rfl | rfl
        · exact (Bool.true_and _).trans start.2
        · exact (Bool.and_true _).trans start.1

/-! ### `ccl_term_one_use` -/

variable (qa : List Qual)

def truncation (left right : Bool) : Except CclError (List Attr) :=
  let tru (can value : Int) (otherwise : Except CclError (List Attr)) : Except CclError (List Attr) :=
    match qualValType qa CCL_BIB1_TRU can with
    | some set => .ok [{ set := set, type := CCL_BIB1_TRU, value := .numeric value }]
    | none => otherwise
  match left, right with
  | true, true => tru CCL_BIB1_TRU_CAN_BOTH 3 (.error .truncNotBoth)
  | false, true => tru CCL_BIB1_TRU_CAN_RIGHT 1 (.error .truncNotRight)
  | true, false => tru CCL_BIB1_TRU_CAN_LEFT 2 (.error .truncNotLeft)
  | false, false => tru CCL_BIB1_TRU_CAN_NONE 100 (.ok [])

theorem truncAttr_plain (text : TermText) (attset : Option (List UInt8)) :
    truncAttr qa text (TruncMode.plain truncationAliases maskAliases) attset = truncation qa text.leftTrunc text.rightTrunc := by
  rw [truncAttr]
  cases text.leftTrunc <;> cases text.rightTrunc <;> rfl

def otherAttrs (attrUse : Option (List UInt8 × Nat)) (isPhrase autoGroup : Bool) : List Attr :=
  let p := (termAttrs attrUse qa).foldl AttrList.add {}
  match p.structureValue, if autoGroup then some none else qualValType qa CCL_BIB1_STR CCL_BIB1_STR_WP with
  | none, some set => { set := set, type := CCL_BIB1_STR, value := .numeric (if isPhrase then 1 else 2) } :: p.attrList
  | _, _ => p.attrList

def placedTerm (placed : Except CclError TermText) (attrUse : Option (List UInt8 × Nat)) (isPhrase autoGroup : Bool) :
    Except CclError Term := do
  let text ← placed
  let trunc ← truncation qa text.leftTrunc text.rightTrunc
  return { term := text.dstTerm, qual := qa.head?.map Qual.name, attrList := trunc ++ otherAttrs qa attrUse isPhrase autoGroup }

variable {qa}

theorem cclTermOneUse_plain (cclp : CclParser) (lookahead : List Token) (attrUse : Option (List UInt8 × Nat)) (isPhrase autoGroup : Bool)
    (noRegex : qualValType qa CCL_BIB1_TRU CCL_BIB1_TRU_CAN_REGEX = none)
      (noZ3958 : qualValType qa CCL_BIB1_TRU CCL_BIB1_TRU_CAN_Z3958 = none) :
    cclTermOneUse cclp qa lookahead attrUse isPhrase autoGroup =
      placedTerm qa (appendTokens (TruncMode.plain cclp.truncationAliases cclp.maskAliases) true lookahead
        {}) attrUse isPhrase autoGroup := by
  rw [cclTermOneUse, placedTerm]
  simp only [noRegex, noZ3958]
  refine bind_congr fun text => ?_
  refine (congrArg (· >>= _) (truncAttr_plain qa text _)).trans (bind_congr fun trunc => ?_)
  rw [otherAttrs]
  generalize (if autoGroup = true then some none else qualValType qa CCL_BIB1_STR CCL_BIB1_STR_WP) = wordPhrase
  cases ((termAttrs attrUse qa).foldl AttrList.add {}).structureValue <;> cases wordPhrase <;> rfl

theorem truncation_both {left right : Bool} (same : truncation qa left right = truncation qa true true) : (left && right) = true := by
  rcases left <;> rcases right <;> dsimp only [truncation] at same
  case true.true => rfl
  all_goals
    exfalso
    split at same <;> split at same <;> simp at same

theorem truncation_eq_of_placedTerm {first second : TermText} {attrUse : Option (List UInt8 × Nat)} {isPhrase autoGroup : Bool}
    (same : placedTerm qa (.ok first) attrUse isPhrase autoGroup = placedTerm qa (.ok second) attrUse isPhrase autoGroup) :
    truncation qa first.leftTrunc first.rightTrunc = truncation qa second.leftTrunc second.rightTrunc := by
  change (truncation qa first.leftTrunc first.rightTrunc >>= _) = (truncation qa second.leftTrunc second.rightTrunc >>= _) at same
  cases one : truncation qa first.leftTrunc first.rightTrunc with
  | error =>
    cases two : truncation qa second.leftTrunc second.rightTrunc with
    | error =>
      rw [one, two] at same
      cases same
      rfl
    | ok =>
      rw [one, two] at same
      cases same
  | ok =>
    cases two : truncation qa second.leftTrunc second.rightTrunc with
    | error =>
      rw [one, two] at same
      cases same
    | ok =>
      rw [one, two] at same
      have attrLists := congrArg Term.attrList (Except.ok.inj same)
      exact congrArg Except.ok (List.append_cancel_right attrLists)

theorem truncation_notEmbed (left right : Bool) : truncation qa left right ≠ .error .truncNotEmbed := by
  intro same
  rcases left <;> rcases right <;> dsimp only [truncation] at same <;> split at same <;> cases same

theorem placedTerm_misread {placed read : Except CclError TermText} {attrUse : Option (List UInt8 × Nat)} {isPhrase autoGroup : Bool}
    (misread : Misread placed read) (same : placedTerm qa read attrUse isPhrase autoGroup =
      placedTerm qa placed attrUse isPhrase autoGroup) :
    placed = .error .truncNotEmbed := by
  rcases misread with rfl | ⟨placedText, readText, rfl, rfl, both, notBoth⟩
  · cases placed with
    | error =>
      cases same
      rfl
    | ok text =>
      exfalso
      change _ = (truncation qa text.leftTrunc text.rightTrunc >>= _) at same
      cases is : truncation qa text.leftTrunc text.rightTrunc with
      | error =>
        rw [is] at same
        cases same
        exact truncation_notEmbed _ _ is
      | ok =>
        rw [is] at same
        cases same
  · exfalso
    have truncations := truncation_eq_of_placedTerm same
    obtain ⟨left, right⟩ := (Bool.and_eq_true _ _).mp both
    rw [left, right] at truncations
    exact Bool.false_ne_true (notBoth.symm.trans (truncation_both truncations))

/-- The truncation of a term is told by where the aliases stand exactly when none is taken for something else, or there is one elsewhere
than at the beginning and at the end anyway. -/
theorem cclTermOneUse_truncation_iff (cclp : CclParser) (lookahead : List Token) (attrUse : Option (List UInt8 × Nat))
    (isPhrase autoGroup : Bool)
    (noRegex : qualValType qa CCL_BIB1_TRU CCL_BIB1_TRU_CAN_REGEX = none)
      (noZ3958 : qualValType qa CCL_BIB1_TRU CCL_BIB1_TRU_CAN_Z3958 = none) :
    cclTermOneUse cclp qa lookahead attrUse isPhrase autoGroup =
        placedTerm qa (placeTokens cclp.truncationAliases cclp.maskAliases true lookahead {}) attrUse isPhrase autoGroup ↔
      WellPlacedTokens cclp.truncationAliases cclp.maskAliases true lookahead {} ∨
        placeTokens cclp.truncationAliases cclp.maskAliases true lookahead {} = .error .truncNotEmbed := by
  rw [cclTermOneUse_plain cclp lookahead attrUse isPhrase autoGroup noRegex noZ3958]
  constructor
  · intro same
    by_contra neither
    obtain ⟨wrong, embed⟩ := not_or.mp neither
    exact embed (placedTerm_misread (appendTokens_misread true lookahead {} (fun _ => ⟨rfl, rfl⟩) wrong) same)
  · intro condition
    by_cases well : WellPlacedTokens cclp.truncationAliases cclp.maskAliases true lookahead {}
    · rw [appendTokens_wellPlaced true lookahead {} well]
    · have embed := condition.resolve_left well
      rcases @appendTokens_misread cclp.truncationAliases cclp.maskAliases true lookahead {} (fun _ => ⟨rfl, rfl⟩) well with
        failed | ⟨placedText, _, placed, _⟩
      · rw [failed, embed]
      · cases embed.symm.trans placed

end

theorem cclTermOneUse_truncation_right :
    let cclp : CclParser := { bibset := { list := [], special := [] } }
    let qa : List Qual := [{ name := ascii "ti", attrList := [{ set := none, type := CCL_BIB1_TRU, value := .numeric CCL_BIB1_TRU_CAN_RIGHT }] }]
    let t : Token := { kind := .term, name := ascii "a?", len := 2, wsPrefix := [] }
    cclTermOneUse cclp qa [t] none false false =
      placedTerm qa (placeTokens cclp.truncationAliases cclp.maskAliases true [t] {}) none false false := by
  intro cclp qa t
  refine (cclTermOneUse_truncation_iff cclp [t] none false false rfl rfl).mpr (.inl ⟨⟨?_, ?_, trivial⟩, trivial⟩)
  · exact fun wrong => wrong.1.2.2.2 (by decide)
  · rintro ⟨-, long | ⟨⟨-, start⟩, -⟩⟩
    · exact absurd long (by decide)
    · exact absurd start (by decide)

/-- With `**` as an alias `**a` is an error although it is only truncated on the left; and of `?` alone only the left side is
truncated. -/
theorem cclTermOneUse_truncation_leading :
    let stars : CclParser := { bibset := { list := [], special := [(ascii "truncation", [ascii "**"])] } }
    let default : CclParser := { bibset := { list := [], special := [] } }
    let can (value : Int) : Attr := { set := none, type := CCL_BIB1_TRU, value := .numeric value }
    let qa : List Qual := [{ name := ascii "ti", attrList := [can CCL_BIB1_TRU_CAN_LEFT, can CCL_BIB1_TRU_CAN_BOTH] }]
    let t (text : String) : Token := { kind := .term, name := ascii text, len := (ascii text).length, wsPrefix := [] }
    let tru (text : String) (value : Int) : Except CclError Term :=
      .ok { term := ascii text, qual := some (ascii "ti"), attrList := [{ set := none, type := CCL_BIB1_TRU, value := .numeric value }] }
    (cclTermOneUse stars qa [t "**a"] none false false = .error .truncNotEmbed ∧
        placedTerm qa (placeTokens stars.truncationAliases stars.maskAliases true [t "**a"] {}) none false false = tru "a" 2) ∧
      cclTermOneUse default qa [t "?"] none false false = tru "" 2 ∧
        placedTerm qa (placeTokens default.truncationAliases default.maskAliases true [t "?"] {}) none false false = tru "" 3 := by
  decide

end Yaz.Ccl
