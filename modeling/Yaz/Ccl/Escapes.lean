import Yaz.Ccl.Term

/-! Quotes and backslashes in the terms of a CCL query, as they are read by the tokenizer, by `has_ccl_masking` and by `append_term`.

The tokenizer pairs backslashes from left to right; the other two look at the octet before.
-/

set_option autoImplicit false

namespace Yaz.Ccl
open List
open Yaz.Comstack (ascii)

structure Mark where
  escaped : Bool
  quoted : Bool
  deriving DecidableEq

/-- How the octets behind a first quote are read, with the octets of `quotedLen`. -/
def quotedMarks : List UInt8 → List Mark
  | [] => []
  | [_] => [⟨false, true⟩]
  | c :: d :: rest =>
    if c = 34 then [⟨false, true⟩]
    else if c = 92 then ⟨false, true⟩ :: ⟨true, true⟩ :: quotedMarks rest
    else ⟨false, true⟩ :: quotedMarks (d :: rest)

/-- How the octets of a term are read, with the octets of `termLen`. -/
def termMarks : (fuel : Nat) → List UInt8 → List Mark
  | 0, _ => []
  | _, [] => []
  | fuel + 1, c :: rest =>
    if c ∈ ascii "(),%!><= \t\n\r" then []
    else if c = 92 ∧ rest ≠ [] then ⟨false, false⟩ :: ⟨true, false⟩ :: termMarks fuel (rest.drop 1)
    else if c = 34 then ⟨false, false⟩ :: (quotedMarks rest ++ termMarks fuel (rest.drop (quotedLen rest)))
    else ⟨false, false⟩ :: termMarks fuel rest

def nextEscaped (escaped : Bool) (c : UInt8) : Bool := !escaped && c = 92
def nextQuoted (escaped quoted : Bool) (c : UInt8) : Bool := quoted ^^ (!escaped && c = 34)

/-- Octets read from left to right: a backslash that is not escaped escapes the next octet, and a quote that is not escaped begins or
ends what is quoted. -/
def lexed : (escaped quoted : Bool) → List UInt8 → List Mark
  | _, _, [] => []
  | escaped, quoted, c :: octets => ⟨escaped, quoted⟩ :: lexed (nextEscaped escaped c) (nextQuoted escaped quoted c) octets

theorem quotedMarks_lexed (octets : List UInt8) (more : List UInt8) (few : more <+: octets.drop (quotedLen octets)) :
    lexed false true (octets.take (quotedLen octets) ++ more) = quotedMarks octets ++ lexed false false more := by
  induction octets using quotedMarks.induct with
  | case1 =>
    obtain rfl : more = [] := by simpa [quotedLen] using few
    rfl
  | case2 c =>
    obtain rfl : more = [] := by simpa [quotedLen] using few
    rfl
  | case3 d rest => rfl
  | case4 d rest notQuote ih =>
    rw [quotedLen, if_neg notQuote, if_pos rfl] at few ⊢
    rw [quotedMarks, if_neg notQuote, if_pos rfl]
    rw [take_succ_cons, take_succ_cons, cons_append, cons_append, cons_append, cons_append, ← ih few]
    rfl
  | case5 c d rest notQuote notBackslash ih =>
    rw [quotedLen, if_neg notQuote, if_neg notBackslash] at few ⊢
    rw [quotedMarks, if_neg notQuote, if_neg notBackslash]
    rw [take_succ_cons, cons_append, cons_append, ← ih few, lexed, nextEscaped, nextQuoted]
    rw [decide_eq_false notQuote, decide_eq_false notBackslash]
    rfl

theorem termMarks_lexed (fuel : Nat) (octets : List UInt8) :
    termMarks fuel octets = lexed false false (octets.take (termLen fuel octets)) := by
  induction fuel generalizing octets with
  | zero => cases octets <;> rfl
  | succ fuel ih =>
    cases octets with
    | nil => rfl
    | cons c rest =>
      rw [termMarks, termLen]
      split
      · rfl
      split
      next pair =>
        -- `\c` is two octets of the term, and the second one is escaped
        obtain ⟨isBackslash, some⟩ := pair
        obtain ⟨d, rest, rfl⟩ := exists_cons_of_ne_nil some
        rw [take_succ_cons, take_succ_cons, ih, isBackslash]
        rfl
      next notPair =>
        split
        next isQuote =>
          have front : (c :: rest).take (termLen fuel (rest.drop (quotedLen rest)) + (quotedLen rest + 1)) =
              34 :: (rest.take (quotedLen rest) ++ (rest.drop (quotedLen rest)).take (termLen fuel (rest.drop (quotedLen rest)))) := by
            rw [← take_add, ← Nat.add_assoc, take_succ_cons, isQuote, Nat.add_comm (quotedLen rest)]
          rw [front, lexed, ih, ← quotedMarks_lexed rest _ ( take_prefix _ _)]
          rfl
        next notQuote =>
          rw [take_succ_cons, ih, lexed, nextEscaped, nextQuoted, decide_eq_false notQuote]
          by_cases isBackslash : c = 92
          -- a backslash is taken alone only at the end of the query
          · have none : rest = [] := by
              by_contra some
              exact notPair ⟨isBackslash, some⟩
            rw [none, take_nil]
            rfl
          · rw [decide_eq_false isBackslash]
            rfl

/-- What an octet comes to: the octets to go on by, whether a quote begins or ends, and what is done to the term. -/
structure OctetStep where
  opSize : Nat
  toggles : Bool := false
  effect : TermText → TermText

/-- What `append_term` does for the octet number `j`, which is `c`, once it is read as escaped or not and as quoted or not. -/
def TruncMode.octetStep (mode : TruncMode) (srcLen : Nat) (isFirst isLast : Bool) (j : Nat) (m : Mark) (c : UInt8) (src : List UInt8) :
    Except CclError OctetStep :=
  let trunc := cmpOperator mode.truncationAliases (c :: src)
  let mask := cmpOperator mode.maskAliases (c :: src)
  if m.escaped then .ok { opSize := 1, effect := fun text => text.add (mode.escape c [92] ++ [c]) }
  else if c = 34 then .ok { opSize := 1, toggles := true, effect := id }
  else if !m.quoted && trunc ≠ 0 then
    if mode.regexTrunc then .ok { opSize := trunc, effect := fun text => text.add (ascii ".*") }
    else if mode.z3958Trunc then .ok { opSize := trunc, effect := fun text => text.add (ascii "?") }
    else if isFirst && j + (trunc - 1) = 0 then .ok { opSize := trunc, effect := fun text => { text with leftTrunc := true } }
    else if isLast && j + (trunc - 1) = srcLen - 1 then .ok { opSize := trunc, effect := fun text => { text with rightTrunc := true } }
    else .error .truncNotEmbed
  else if !m.quoted && mask ≠ 0 then
    if mode.regexTrunc then .ok { opSize := mask, effect := fun text => text.add (ascii ".") }
    else if mode.z3958Trunc then .ok { opSize := mask, effect := fun text => text.add (ascii "#") }
    else .error .truncNotSingle
  else if c ≠ 92 then .ok { opSize := 1, effect := fun text => text.add (mode.escape c [] ++ [c]) }
  else .ok { opSize := 1, effect := id }

section
variable (mode : TruncMode) (srcLen : Nat) (isFirst isLast : Bool)

theorem appendTerm_octetStep (left j : Nat) (before : UInt8) (quoteMode : Bool) (c : UInt8) (src : List UInt8) (text : TermText) :
    appendTerm mode srcLen isFirst isLast (left + 1) j 0 before quoteMode (c :: src) text =
      match mode.octetStep srcLen isFirst isLast j ⟨before = 92, quoteMode⟩ c src with
      | .error errorCode => .error errorCode
      | .ok step => appendTerm mode srcLen isFirst isLast left (j + 1) (step.opSize - 1) c (quoteMode ^^ step.toggles) src
          (step.effect text) := by
  rw [appendTerm, TruncMode.octetStep]
  simp only [decide_eq_true_eq]
  split_ifs
  all_goals simp only [Bool.xor_false, Bool.xor_true, id_eq, Nat.sub_self]

/-- How `append_term` reads the octets of a token that it looks at; those of an operator behind its first are passed over. -/
def appendMarks : (left j skip : Nat) → (before : UInt8) → (quoteMode : Bool) → (src : List UInt8) → List (Option Mark)
  | 0, _, _, _, _, _ => []
  | _, _, _, _, _, [] => []
  | left + 1, j, skip + 1, _, quoteMode, c :: src => none :: appendMarks left (j + 1) skip c quoteMode src
  | left + 1, j, 0, before, quoteMode, c :: src =>
    some ⟨before = 92, quoteMode⟩ ::
      match mode.octetStep srcLen isFirst isLast j ⟨before = 92, quoteMode⟩ c src with
      | .error _ => []
      | .ok step => appendMarks left (j + 1) (step.opSize - 1) c (quoteMode ^^ step.toggles) src

/-- How `has_ccl_masking` reads the octets of a token up to the first operator. -/
def maskingMarks : (srcLen : Nat) → (before : UInt8) → (quoteMode : Bool) → (src : List UInt8) → List (Option Mark)
  | 0, _, _, _ => []
  | _, _, _, [] => []
  | srcLen + 1, before, quoteMode, c :: src =>
    some ⟨before = 92, quoteMode⟩ ::
      if before = 92 then maskingMarks srcLen c quoteMode src
      else if c = 34 then maskingMarks srcLen c (!quoteMode) src
      else if !quoteMode && cmpOperator mode.truncationAliases (c :: src) ≠ 0 then []
      else if !quoteMode && cmpOperator mode.maskAliases (c :: src) ≠ 0 then []
      else maskingMarks srcLen c quoteMode src

/-- The term that is built when each octet is read as the tokenizer does: pairing backslashes and quotes that are not escaped are left
out, and the operators are those that are neither quoted nor escaped. -/
def readTerm : (left j skip : Nat) → (escaped quoted : Bool) → (src : List UInt8) → TermText → Except CclError TermText
  | 0, _, _, _, _, _, text => .ok text
  | _, _, _, _, _, [], text => .ok text
  | left + 1, j, skip + 1, escaped, quoted, c :: src, text =>
    readTerm left (j + 1) skip (nextEscaped escaped c) (nextQuoted escaped quoted c) src text
  | left + 1, j, 0, escaped, quoted, c :: src, text =>
    match mode.octetStep srcLen isFirst isLast j ⟨escaped, quoted⟩ c src with
    | .error errorCode => .error errorCode
    | .ok step => readTerm left (j + 1) (step.opSize - 1) (nextEscaped escaped c) (nextQuoted escaped quoted c) src (step.effect text)

/-- Along the octets that are looked at when each is read as the tokenizer does, none is behind an escaped backslash (`after`), nor
have the operators so far covered an odd number of quotes (`odd`). -/
def Unmistaken : (left j skip : Nat) → (escaped quoted after odd : Bool) → (src : List UInt8) → Prop
  | 0, _, _, _, _, _, _, _ => True
  | _, _, _, _, _, _, _, [] => True
  | left + 1, j, skip + 1, escaped, quoted, _, odd, c :: src =>
    Unmistaken left (j + 1) skip (nextEscaped escaped c) (nextQuoted escaped quoted c) (escaped && c = 92) (odd ^^ (!escaped && c = 34)) src
  | left + 1, j, 0, escaped, quoted, after, odd, c :: src =>
    after = false ∧ odd = false ∧
      match mode.octetStep srcLen isFirst isLast j ⟨escaped, quoted⟩ c src with
      | .error _ => True
      | .ok step =>
        Unmistaken left (j + 1) (step.opSize - 1) (nextEscaped escaped c) (nextQuoted escaped quoted c) (escaped && c = 92) false src

variable {mode srcLen isFirst isLast}

theorem toggles_octetStep {j : Nat} {m : Mark} {c : UInt8} {src : List UInt8} {step : OctetStep}
    (is : mode.octetStep srcLen isFirst isLast j m c src = .ok step) : step.toggles = (!m.escaped && decide (c = 34)) := by
  rw [TruncMode.octetStep] at is
  split_ifs at is <;> cases is <;> simp_all

def Agrees (read : List (Option Mark)) (marks : List Mark) : Prop := ∀ (i : Nat) (m : Mark), read[i]? = some (some m) → marks[i]? = some m

theorem agrees_nil (marks : List Mark) : Agrees [] marks := by
  intro i m is
  cases is

theorem agrees_cons_iff (first : Option Mark) (read : List (Option Mark)) (mark : Mark) (marks : List Mark) :
    Agrees (first :: read) (mark :: marks) ↔ (∀ m, first = some m → mark = m) ∧ Agrees read marks := by
  constructor
  · intro agrees
    exact ⟨fun m is => Option.some.inj (agrees 0 m (by rw [is]; rfl)), fun i m is => agrees (i + 1) m is⟩
  · rintro ⟨here, rest⟩ i m is
    cases i with
    | zero => exact congrArg some (here m (Option.some.inj is))
    | succ i => exact rest i m is

theorem before_next (escaped : Bool) (c : UInt8) : decide (c = 92) = (nextEscaped escaped c || (escaped && decide (c = 92))) := by
  rw [nextEscaped]
  cases escaped <;> simp

theorem apart_next (escaped : Bool) (c : UInt8) : (nextEscaped escaped c && (escaped && decide (c = 92))) = false := by
  rw [nextEscaped]
  cases escaped <;> simp

theorem appendMarks_agrees_iff (left j skip : Nat) {before : UInt8} {quoteMode escaped quoted after odd : Bool} (src : List UInt8)
    (look : decide (before = 92) = (escaped || after)) (apart : (escaped && after) = false) (quotes : quoteMode = (quoted ^^ odd)) :
    Agrees (appendMarks mode srcLen isFirst isLast left j skip before quoteMode src) (lexed escaped quoted (src.take left)) ↔
      Unmistaken mode srcLen isFirst isLast left j skip escaped quoted after odd src := by
  induction src generalizing left j skip before quoteMode escaped quoted after odd with
  | nil =>
    have none : appendMarks mode srcLen isFirst isLast left j skip before quoteMode [] = [] := by cases left <;> rfl
    rw [none]
    refine iff_of_true (agrees_nil _) ?_
    cases left <;> trivial
  | cons c src ih =>
    cases left with
    | zero => exact iff_of_true (agrees_nil _) trivial
    | succ left =>
      rw [take_succ_cons, lexed]
      cases skip with
      -- an octet of an alias is not looked at, but the next one looks back at it
      | succ skip =>
        rw [appendMarks, Unmistaken, agrees_cons_iff, and_iff_right (by simp)]
        refine ih left (j + 1) skip (before_next escaped c) (apart_next escaped c) ?_
        rw [quotes, nextQuoted, Bool.xor_assoc, Bool.xor_comm _ (odd ^^ _), Bool.xor_assoc, Bool.xor_self, Bool.xor_false]
      | zero =>
        rw [appendMarks, Unmistaken, agrees_cons_iff]
        -- the mark is right exactly when neither mistake is made
        have here : (∀ m, some (Mark.mk (decide (before = 92)) quoteMode) = some m → Mark.mk escaped quoted = m) ↔
          after = false ∧ odd = false := by
          rw [look, quotes]
          revert apart
          cases escaped <;> cases after <;> cases quoted <;> cases odd <;> simp
        rw [here, and_assoc]
        refine and_congr_right fun notAfter => and_congr_right fun notOdd => ?_
        subst notAfter notOdd
        rw [Bool.or_false] at look
        rw [Bool.xor_false] at quotes
        rw [look, quotes]
        cases is : mode.octetStep srcLen isFirst isLast j ⟨escaped, quoted⟩ c src with
        | error => exact iff_of_true (agrees_nil _) trivial
        | ok step =>
          refine ih left (j + 1) (step.opSize - 1) (before_next escaped c) (apart_next escaped c) ?_
          rw [toggles_octetStep is, nextQuoted, Bool.xor_false]

theorem appendTerm_eq_readTerm (left j skip : Nat) {before : UInt8} {quoteMode escaped quoted after odd : Bool} (src : List UInt8)
    (text : TermText) (look : decide (before = 92) = (escaped || after)) (quotes : quoteMode = (quoted ^^ odd))
    (unmistaken : Unmistaken mode srcLen isFirst isLast left j skip escaped quoted after odd src) :
    appendTerm mode srcLen isFirst isLast left j skip before quoteMode src text =
      readTerm mode srcLen isFirst isLast left j skip escaped quoted src text := by
  induction src generalizing left j skip before quoteMode escaped quoted after odd text with
  | nil => cases left <;> cases skip <;> rfl
  | cons c src ih =>
    cases left with
    | zero => cases skip <;> rfl
    | succ left =>
      cases skip with
      | succ skip =>
        rw [appendTerm, readTerm]
        refine ih left (j + 1) skip text (before_next escaped c) ?_ unmistaken
        rw [quotes, nextQuoted, Bool.xor_assoc, Bool.xor_comm _ (odd ^^ _), Bool.xor_assoc, Bool.xor_self, Bool.xor_false]
      | zero =>
        obtain ⟨rfl, rfl, rest⟩ := unmistaken
        rw [Bool.or_false] at look
        rw [Bool.xor_false] at quotes
        rw [appendTerm_octetStep, readTerm, look, quotes]
        cases is : mode.octetStep srcLen isFirst isLast j ⟨escaped, quoted⟩ c src with
        | error => rfl
        | ok step =>
          rw [is] at rest
          refine ih left (j + 1) (step.opSize - 1) (step.effect text) (before_next escaped c) ?_ rest
          rw [toggles_octetStep is, nextQuoted, Bool.xor_false]

theorem octetStep_one {j : Nat} {m : Mark} {c : UInt8} {src : List UInt8}
    (plain : m.escaped = true ∨ c = 34 ∨ m.quoted = true ∨
      cmpOperator mode.truncationAliases (c :: src) = 0 ∧ cmpOperator mode.maskAliases (c :: src) = 0) :
    ∃ step, mode.octetStep srcLen isFirst isLast j m c src = .ok step ∧ step.opSize = 1 := by
  rw [TruncMode.octetStep]
  split_ifs <;> simp_all

theorem unmistaken_next {left j : Nat} {escaped quoted : Bool} {c : UInt8} {src : List UInt8}
    (plain : escaped = true ∨ c = 34 ∨ quoted = true ∨
      cmpOperator mode.truncationAliases (c :: src) = 0 ∧ cmpOperator mode.maskAliases (c :: src) = 0)
    (unmistaken : Unmistaken mode srcLen isFirst isLast (left + 1) j 0 escaped quoted false false (c :: src)) :
    Unmistaken mode srcLen isFirst isLast left (j + 1) 0 (nextEscaped escaped c) (nextQuoted escaped quoted c)
      (escaped && c = 92) false src := by
  obtain ⟨step, is, one⟩ := @octetStep_one mode srcLen isFirst isLast j ⟨escaped, quoted⟩ c src plain
  rw [Unmistaken, is] at unmistaken
  obtain ⟨-, -, rest⟩ := unmistaken
  dsimp only at rest
  rwa [one] at rest

variable (mode)

def readMasking : (srcLen : Nat) → (escaped quoted : Bool) → (src : List UInt8) → Bool
  | 0, _, _, _ => false
  | _, _, _, [] => false
  | srcLen + 1, escaped, quoted, c :: src =>
    if escaped = false ∧ c ≠ 34 ∧ quoted = false ∧
        (cmpOperator mode.truncationAliases (c :: src) ≠ 0 ∨ cmpOperator mode.maskAliases (c :: src) ≠ 0) then true
    else readMasking srcLen (nextEscaped escaped c) (nextQuoted escaped quoted c) src

variable {mode}

/-- `has_ccl_masking` goes no further than `append_term`, and makes the same mistakes. -/
theorem maskingMarks_agrees (left j : Nat) {before : UInt8} {quoteMode escaped quoted after odd : Bool} (src : List UInt8)
    (look : decide (before = 92) = (escaped || after)) (quotes : quoteMode = (quoted ^^ odd))
    (unmistaken : Unmistaken mode srcLen isFirst isLast left j 0 escaped quoted after odd src) :
    Agrees (maskingMarks mode left before quoteMode src) (lexed escaped quoted (src.take left)) ∧
      hasCclMasking mode.truncationAliases mode.maskAliases left before quoteMode src = readMasking mode left escaped quoted src := by
  induction src generalizing left j before quoteMode escaped quoted after odd with
  | nil => cases left <;> exact ⟨agrees_nil _, rfl⟩
  | cons c src ih =>
    cases left with
    | zero => exact ⟨agrees_nil _, rfl⟩
    | succ left =>
      have both := unmistaken
      obtain ⟨rfl, rfl, -⟩ := both
      rw [Bool.or_false] at look
      rw [Bool.xor_false] at quotes
      -- an octet that is no operator for either reader
      have plainStep (plain : escaped = true ∨ c = 34 ∨ quoted = true ∨
          cmpOperator mode.truncationAliases (c :: src) = 0 ∧ cmpOperator mode.maskAliases (c :: src) = 0) :=
        ih left (j + 1) (before_next escaped c) (Bool.xor_false _).symm (unmistaken_next plain unmistaken)
      have isBefore : before = 92 ↔ escaped = true := by rw [← look, decide_eq_true_iff]
      rw [take_succ_cons, lexed, maskingMarks, agrees_cons_iff, hasCclMasking, readMasking, look, quotes]
      have here : ∀ m, some (Mark.mk escaped quoted) = some m → Mark.mk escaped quoted = m := fun m => Option.some.inj
      rw [and_iff_right here]
      by_cases isEscaped : escaped = true
      · rw [if_pos (isBefore.mpr isEscaped), if_pos (isBefore.mpr isEscaped), if_neg (fun all => by simp [isEscaped] at all)]
        have on := plainStep (.inl isEscaped)
        rwa [show nextQuoted escaped quoted c = quoted by rw [nextQuoted, isEscaped]; simp] at on ⊢
      · rw [Bool.not_eq_true] at isEscaped
        subst isEscaped
        have notBefore : ¬before = 92 := of_decide_eq_false look
        rw [if_neg notBefore, if_neg notBefore]
        by_cases isQuote : c = 34
        · rw [if_pos isQuote, if_pos isQuote, if_neg (fun all => all.2.1 isQuote)]
          have on := plainStep (.inr (.inl isQuote))
          rwa [show nextQuoted false quoted c = !quoted by rw [nextQuoted, isQuote]; simp] at on ⊢
        · rw [if_neg isQuote, if_neg isQuote]
          have quotedOn : nextQuoted false quoted c = quoted := by rw [nextQuoted, decide_eq_false isQuote]; simp
          by_cases operator : quoted = false ∧
            (cmpOperator mode.truncationAliases (c :: src) ≠ 0 ∨ cmpOperator mode.maskAliases (c :: src) ≠ 0)
          -- both stop at the first operator outside quotes; truncation is asked for before masking
          · obtain ⟨rfl, trunc | mask⟩ := operator
            · rw [if_pos (by simpa using trunc), if_pos (by simpa using trunc), if_pos ⟨rfl, isQuote, rfl, .inl trunc⟩]
              exact ⟨agrees_nil _, rfl⟩
            · rw [if_pos (⟨rfl, isQuote, rfl, .inr mask⟩ : false = false ∧ c ≠ 34 ∧ false = false ∧ _)]
              by_cases trunc : cmpOperator mode.truncationAliases (c :: src) = 0
              · rw [if_neg (by simpa using trunc), if_pos (by simpa using mask), if_neg (by simpa using trunc),
                  if_pos (by simpa using mask)]
                exact ⟨agrees_nil _, rfl⟩
              · rw [if_pos (by simpa using trunc), if_pos (by simpa using trunc)]
                exact ⟨agrees_nil _, rfl⟩
          · have plain : quoted = true ∨ cmpOperator mode.truncationAliases (c :: src) = 0 ∧
              cmpOperator mode.maskAliases (c :: src) = 0 := by
              rcases Bool.eq_false_or_eq_true quoted with isQuoted | notQuoted
              · exact .inl isQuoted
              · exact .inr (by simpa [notQuoted] using operator)
            have on := plainStep (.inr (.inr plain))
            rw [if_neg (fun all : false = false ∧ c ≠ 34 ∧ _ => operator all.2.2)]
            rw [quotedOn] at on ⊢
            rcases plain with rfl | ⟨noTrunc, noMask⟩
            · simpa using on
            · rw [noTrunc, noMask]
              simpa using on

end

theorem scanToken_term {cclp : CclParser} {c : UInt8} {rest : List UInt8} (isTerm : (scanToken cclp c rest).1 = .term) :
    (scanToken cclp c rest).2 = termLen (c :: rest).length (c :: rest) := by
  rw [scanToken] at isTerm ⊢
  split_ifs at isTerm ⊢
  rfl

theorem tokens_term (cclp : CclParser) (fuel : Nat) (cp : List UInt8) {t : Token} (isToken : t ∈ cclParserTokenize.tokens cclp fuel cp)
    (isTerm : t.kind = .term) : t.len = termLen t.name.length t.name := by
  induction fuel generalizing cp with
  | zero =>
    rw [cclParserTokenize.tokens.eq_def] at isToken
    dsimp only at isToken
    cases is : cp.dropWhile (fun c => decide (c = 32) || decide (c = 9) || decide (c = 13) || decide (c = 10)) <;>
      rw [is] at isToken <;> obtain rfl := mem_singleton.mp isToken <;> cases isTerm
  | succ _ ih =>
    rw [cclParserTokenize.tokens.eq_def] at isToken
    dsimp only at isToken
    cases is : cp.dropWhile (fun c => decide (c = 32) || decide (c = 9) || decide (c = 13) || decide (c = 10)) with
    | nil =>
      rw [is] at isToken
      obtain rfl := mem_singleton.mp isToken
      cases isTerm
    | cons =>
      rw [is] at isToken
      rcases mem_cons.mp isToken with rfl | later
      · exact scanToken_term isTerm
      · exact ih _ later

/-- The octets of a term are read by `has_ccl_masking` and by `append_term` as they were by the tokenizer, and so give what that
reading gives. -/
structure SameReading (mode : TruncMode) (isFirst isLast : Bool) (t : Token) : Prop where
  masking : Agrees (maskingMarks mode t.len 0 false t.name) (termMarks t.name.length t.name)
  isMasked : hasCclMasking mode.truncationAliases mode.maskAliases t.len 0 false t.name = readMasking mode t.len false false t.name
  append : Agrees (appendMarks mode t.len isFirst isLast t.len 0 0 0 false t.name) (termMarks t.name.length t.name)
  term (text : TermText) :
    appendTerm mode t.len isFirst isLast t.len 0 0 0 false t.name text =
      readTerm mode t.len isFirst isLast t.len 0 0 false false t.name text

/-- The quotes and backslashes of a term are read alike exactly when no octet is looked at behind an escaped backslash, nor behind
operators that covered an odd number of quotes. -/
theorem sameReading_iff (cclp : CclParser) (command : List UInt8) (mode : TruncMode) (isFirst isLast : Bool) (t : Token)
    (isToken : t ∈ cclParserTokenize cclp command) (isTerm : t.kind = .term) :
    SameReading mode isFirst isLast t ↔ Unmistaken mode t.len isFirst isLast t.len 0 0 false false false false t.name := by
  have marks : termMarks t.name.length t.name = lexed false false (t.name.take t.len) := by
    rw [tokens_term cclp _ command isToken isTerm]
    exact termMarks_lexed _ _
  have append := @appendMarks_agrees_iff mode t.len isFirst isLast t.len 0 0 0 false false false false false t.name rfl rfl rfl
  constructor
  · intro same
    exact append.mp (marks ▸ same.append)
  · intro unmistaken
    obtain ⟨masking, isMasked⟩ :=
      @maskingMarks_agrees mode t.len isFirst isLast t.len 0 0 false false false false false t.name rfl rfl unmistaken
    exact ⟨marks ▸ masking, isMasked, marks ▸ append.mpr unmistaken, fun text =>
      appendTerm_eq_readTerm t.len 0 0 t.name text rfl rfl unmistaken⟩

theorem sameReading_quoted :
    let t : Token := { kind := .term, name := ascii "\"a b\"\\c?", len := 8, wsPrefix := [] }
    let mode : TruncMode := { regexTrunc := false, z3958Trunc := false, truncationAliases := [ascii "?"], maskAliases := [ascii "#"] }
    t ∈ cclParserTokenize { bibset := { list := [], special := [] } } (ascii "\"a b\"\\c?") ∧ SameReading mode true true t := by
  intro t mode
  have isToken : t ∈ cclParserTokenize { bibset := { list := [], special := [] } } (ascii "\"a b\"\\c?") := by decide +kernel
  refine ⟨isToken, (sameReading_iff _ _ mode true true t isToken rfl).mpr ?_⟩
  repeat' constructor

/-- Of `a\\\\?` with two backslashes the tokenizer's reading is `a\\` truncated on the right; the term is `a\\?`. -/
theorem sameReading_backslashes :
    let t : Token := { kind := .term, name := ascii "a\\\\?", len := 4, wsPrefix := [] }
    let mode : TruncMode := { regexTrunc := false, z3958Trunc := false, truncationAliases := [ascii "?"], maskAliases := [ascii "#"] }
    t ∈ cclParserTokenize { bibset := { list := [], special := [] } } (ascii "a\\\\?") ∧
      readTerm mode t.len true true t.len 0 0 false false t.name {} = .ok { dstTerm := ascii "a\\", rightTrunc := true } ∧
      appendTerm mode t.len true true t.len 0 0 0 false t.name {} = .ok { dstTerm := ascii "a\\?" } ∧
      ¬SameReading mode true true t := by
  intro t mode
  have read : readTerm mode t.len true true t.len 0 0 false false t.name {} =
    .ok { dstTerm := ascii "a\\", rightTrunc := true } := by decide
  have append : appendTerm mode t.len true true t.len 0 0 0 false t.name {} = .ok { dstTerm := ascii "a\\?" } := by decide
  refine ⟨by decide +kernel, read, append, fun same => ?_⟩
  have term := same.term {}
  rw [read, append] at term
  cases term

end Yaz.Ccl
