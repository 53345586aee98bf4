import Mathlib.Data.List.Find
import Yaz.Pqf.Written

/-! What a token is taken for: terms that were written, keywords and the names of term types. -/

set_option autoImplicit false

namespace Yaz.Pqf
open List Yaz.Comstack

/-- A term that was written is one token of text, and its octets are those of the term. The blank behind a term is read with it
if there are no quotes. -/
theorem encoded_term_read (li : Parser) {term : List UInt8} (readable : termReadable term = true) (further : List UInt8) :
    (lexAt li (yazEncodePqfTerm term ++ further)).queryLook = .text ∧
      (lexAt li (yazEncodePqfTerm term ++ further)).queryPtr = (if Bare term then further else 32 :: further) ∧
      escapeString (lexAt li (yazEncodePqfTerm term ++ further)).lexeme = term := by
  have text : yazEncodePqfTerm term ++ further = termText term ++ 32 :: further := by
    rw [yazEncodePqfTerm_eq, append_assoc, singleton_append]
  obtain ⟨read, lexeme⟩ := lexAt_term li readable (separated_space further)
  rw [text]
  refine ⟨read.look, ?_, by rw [lexeme, escapeString_rawText]⟩
  by_cases bare : Bare term
  · obtain ⟨c, others, starts, notSpace, notBrace, notQuote, notAt⟩ := bare_head bare
    rw [if_pos bare, termText, if_pos bare, lexAt_token li starts notSpace ⟨notBrace, notQuote⟩ (fun isAt => absurd isAt notAt)
      (tokenLength_bare bare (separated_space further))]
    rfl
  · rw [if_neg bare, termText, if_neg bare, cons_append, append_assoc, cons_append, nil_append,
      lexAt_quoted li _ (quoted_noDigit bare readable _) (tokenLength_quoted bare _)]

theorem encoded_term_read_at : (lexAt yazPqfCreate (yazEncodePqfTerm [64, 97, 34, 92] ++ [120])).queryLook = .text ∧
    (lexAt yazPqfCreate (yazEncodePqfTerm [64, 97, 34, 92] ++ [120])).queryPtr = (if Bare [64, 97, 34, 92] then [120] else [32, 120]) ∧
    escapeString (lexAt yazPqfCreate (yazEncodePqfTerm [64, 97, 34, 92] ++ [120])).lexeme = [64, 97, 34, 92] :=
  encoded_term_read yazPqfCreate (by decide) [120]

/-- Behind a term in quotes the blank is left; in quotes, `@1 ` is not read as a term. -/
theorem encoded_term_not_read : (lexAt yazPqfCreate (yazEncodePqfTerm [97, 32] ++ [120])).queryPtr ≠ [120] ∧
    (lexAt yazPqfCreate (yazEncodePqfTerm [64, 49, 32] ++ [120])).queryLook ≠ .text := by
  decide

def nextToken (queryPtr : List UInt8) : Bool × List UInt8 :=
  let (sepChar, buf) := openSep (queryPtr.dropWhile (· = 32))
  (sepChar ≠ 32, buf.take (tokenLength sepChar buf))

def keywords : List (List UInt8 × Look) :=
  [(ascii "and", .and), (ascii "or", .or), (ascii "not", .not), (ascii "attr", .attr), (ascii "set", .set),
    (ascii "attrset", .attrset), (ascii "prox", .prox), (ascii "term", .termType)]

def lookFor (taken : List UInt8 → Bool) : Look := ((keywords.find? fun entry => taken entry.1).map (·.2)).getD .text

def exactLook : Bool × List UInt8 → Look
  | (false, 64 :: rest) => if rest.head?.any isDigit then .attr else lookFor fun name => rest = name
  | _ => .text

def Misses (word name : List UInt8) : Prop := word.length = name.length ∧ word.dropLast = name.dropLast ∧ word ≠ name

def Mistaken : Bool × List UInt8 → Prop
  | (false, 64 :: rest) => ∃ entry ∈ keywords, Misses rest entry.1
  | (true, 64 :: rest) => rest.head?.any isDigit = true
  | _ => False

def exactTermType (name : List UInt8) (before : TermType) : TermType :=
  if name = ascii "general" then .general
  else if name = ascii "numeric" then .numeric
  else if name = ascii "string" then .characterString
  else if name = ascii "oid" then .oid
  else if name = ascii "datetime" then .dateTime
  else if name = ascii "null" then .null
  else before

theorem tokenLength_le (sepChar : UInt8) (buf : List UInt8) : tokenLength sepChar buf ≤ buf.length := by
  fun_induction tokenLength sepChar buf with
  | case1 => exact Nat.le_refl _
  | case2 => exact Nat.zero_le _
  | case3 => exact Nat.le_refl _
  | case4 => exact Nat.zero_le _
  | case5 d rest _ ih =>
    simp only [length_cons]
    omega
  | case6 c d rest _ _ ih =>
    simp only [length_cons] at ih ⊢
    omega

variable {li : Parser}

theorem compareTerm_whole (within : li.lexLen ≤ li.lexBuf.length) (src : List UInt8) :
    compareTerm li src 0 = decide (li.lexeme = src) := by
  have length : li.lexeme.length = li.lexLen := length_take_of_le within
  rw [Bool.eq_iff_iff, compareTerm, decide_eq_true_eq, Bool.and_eq_true, decide_eq_true_eq, decide_eq_true_eq, Nat.sub_zero,
    Nat.add_zero, take_length, drop_zero]
  constructor
  · rintro ⟨same, is⟩
    rw [Parser.lexeme, same, is]
  · rintro rfl
    rw [length]
    exact ⟨rfl, rfl⟩

theorem compareTerm_behind (within : li.lexLen ≤ li.lexBuf.length) {c : UInt8} {rest : List UInt8}
    (lexeme : li.lexeme = c :: rest) (src : List UInt8) :
    compareTerm li src 1 = decide (rest.length = src.length ∧ rest.dropLast = src.dropLast) := by
  have length : li.lexLen = rest.length + 1 := by
    rw [← length_take_of_le within, ← Parser.lexeme, lexeme, length_cons]
  have behind : (li.lexBuf.drop 1).take rest.length = rest := by
    have dropped : li.lexeme.drop 1 = rest := by rw [lexeme, drop_succ_cons, drop_zero]
    rw [Parser.lexeme, length, drop_take, Nat.add_sub_cancel] at dropped
    exact dropped
  have front : (li.lexBuf.drop 1).take (rest.length - 1) = rest.take (rest.length - 1) := by
    have cut := congrArg (List.take (rest.length - 1)) behind
    rwa [take_take, Nat.min_eq_left (Nat.sub_le _ _)] at cut
  rw [Bool.eq_iff_iff, compareTerm, decide_eq_true_eq, Bool.and_eq_true, decide_eq_true_eq, decide_eq_true_eq, length,
    Nat.add_right_cancel_iff, dropLast_eq_take, dropLast_eq_take]
  refine and_congr_right fun same => ?_
  rw [← same, front]

theorem firstLook_cons (taken : List UInt8 × Look → Bool) (entry : List UInt8 × Look) (entries : List (List UInt8 × Look)) :
    (((entry :: entries).find? taken).map (·.2)).getD .text =
      if taken entry then entry.2 else ((entries.find? taken).map (·.2)).getD .text := by
  rw [find?_cons]
  cases taken entry <;> rfl

theorem keyword_eq_lookFor (li : Parser) : keyword li = lookFor fun name => compareTerm li name 1 := by
  simp only [lookFor, keywords, firstLook_cons]
  rfl

theorem keywords_apart : ∀ entry ∈ keywords, ∀ other ∈ keywords,
    entry.1.length = other.1.length ∧ entry.1.dropLast = other.1.dropLast → entry = other := by
  decide

theorem keywords_look : ∀ entry ∈ keywords, entry.2 ≠ .text := by decide

theorem lookFor_of_unique {taken : List UInt8 → Bool} {entry : List UInt8 × Look} (inside : entry ∈ keywords)
    (is : taken entry.1 = true) (unique : ∀ other ∈ keywords, taken other.1 = true → other = entry) : lookFor taken = entry.2 := by
  have found : keywords.find? (fun entry => taken entry.1) = some entry := by
    cases first : keywords.find? (fun entry => taken entry.1) with
    | none => exact absurd is (find?_eq_none.mp first entry inside)
    | some other => rw [unique other (mem_of_find?_eq_some first) (find?_some (p := fun entry : List UInt8 × Look => taken entry.1) first)]
  rw [lookFor, found]
  rfl

theorem lookFor_of_none {taken : List UInt8 → Bool} (none : ∀ entry ∈ keywords, ¬ taken entry.1 = true) : lookFor taken = .text := by
  rw [lookFor, find?_eq_none.mpr none]
  rfl

theorem lookFor_congr {taken taken' : List UInt8 → Bool} (same : ∀ entry ∈ keywords, taken entry.1 = taken' entry.1) :
    lookFor taken = lookFor taken' := by
  have found : keywords.find? (fun entry => taken entry.1) = keywords.find? (fun entry => taken' entry.1) := find?_congr same
  rw [lookFor, lookFor, found]

theorem lookFor_exact_iff (word : List UInt8) :
    (lookFor (fun name => word.length = name.length ∧ word.dropLast = name.dropLast) = lookFor fun name => word = name) ↔
      ¬ ∃ entry ∈ keywords, Misses word entry.1 := by
  constructor
  · rintro same ⟨entry, inside, length, front, other⟩
    have taken : lookFor (fun name => word.length = name.length ∧ word.dropLast = name.dropLast) = entry.2 := by
      refine lookFor_of_unique inside (decide_eq_true ⟨length, front⟩) fun other isOther is => ?_
      have also := of_decide_eq_true is
      exact keywords_apart other isOther entry inside ⟨also.1.symm.trans length, also.2.symm.trans front⟩
    have exact' : lookFor (fun name => word = name) = .text := by
      refine lookFor_of_none fun other' isOther is => ?_
      obtain rfl := of_decide_eq_true is
      have equal := keywords_apart _ isOther entry inside ⟨length, front⟩
      exact other (by rw [equal])
    rw [taken, exact'] at same
    exact keywords_look entry inside same
  · intro none
    refine lookFor_congr fun entry inside => decide_eq_decide.mpr ⟨fun both => ?_, fun is => by rw [is]; exact ⟨rfl, rfl⟩⟩
    by_contra other
    exact none ⟨entry, inside, both.1, both.2, other⟩

/-! ### What is read -/

theorem openSep_sepChar (mem : List UInt8) : (openSep mem).1 = 125 ∨ (openSep mem).1 = 34 ∨ (openSep mem).1 = 32 := by
  unfold openSep
  split
  · exact .inl rfl
  · exact .inr (.inl rfl)
  · exact .inr (.inr rfl)

theorem digit_inside {sepChar : UInt8} (known : sepChar = 125 ∨ sepChar = 34 ∨ sepChar = 32) (buf : List UInt8) :
    ((buf.take (tokenLength sepChar buf)).head? = some 64 ∧ ((buf.take (tokenLength sepChar buf)).drop 1).head?.any isDigit = true) ↔
      buf.head? = some 64 ∧ (buf.drop 1).head?.any isDigit = true := by
  have noAt : (64 : UInt8) ≠ sepChar := by rcases known with rfl | rfl | rfl <;> decide
  rcases buf with _ | ⟨c, _ | ⟨d, rest⟩⟩
  · exact Iff.rfl
  · have none : ∀ n, ((List.take n [c]).drop 1).head? = none := fun n => by cases n <;> simp
    rw [none]
    simp
  · by_cases isAt : c = 64
    · subst isAt
      have first : tokenLength sepChar (64 :: d :: rest) = tokenLength sepChar (d :: rest) + 1 :=
        tokenLength_plain noAt (by decide) (d :: rest)
      by_cases digit : isDigit d = true
      · have other : d ≠ sepChar := by
          rintro rfl
          rcases known with rfl | rfl | rfl <;> exact absurd digit (by decide)
        have second := tokenLength_plain other (digit_plain digit).2.1 rest
        rw [first, second]
        simp [digit]
      · rw [first, take_succ_cons]
        cases tokenLength sepChar (d :: rest) <;> simp [digit]
    · cases tokenLength sepChar (c :: d :: rest) <;> simp [isAt]

theorem lex_digit (token : li.queryPtr.dropWhile (· = 32) ≠ []) (isAt : (nextToken li.queryPtr).2.head? = some 64)
    (digit : ((nextToken li.queryPtr).2.drop 1).head?.any isDigit = true) :
    (lex li).queryLook = .attr ∧ (lex li).lexeme = [64] ∧ (lex li).lexLen ≤ (lex li).lexBuf.length ∧ (lex li).termType = li.termType := by
  have known := openSep_sepChar (li.queryPtr.dropWhile (· = 32))
  rcases opened : openSep (li.queryPtr.dropWhile (· = 32)) with ⟨sepChar, buf⟩
  rw [nextToken, opened] at isAt digit
  rw [opened] at known
  have inside := (digit_inside known buf).mp ⟨isAt, digit⟩
  have read : lex li = { li with lexBuf := buf, lexLen := 1, queryPtr := buf.drop 1, queryLook := .attr } := by
    rw [lex, queryToken]
    dsimp only
    rw [if_neg token, opened]
    rw [if_pos inside]
  obtain ⟨isAt, -⟩ := inside
  cases buf with
  | nil => cases isAt
  | cons =>
    obtain rfl := Option.some.inj isAt
    rw [read]
    exact ⟨rfl, rfl, Nat.succ_le_succ (Nat.zero_le _), rfl⟩

theorem lex_nextToken (token : li.queryPtr.dropWhile (· = 32) ≠ [])
    (noDigit : ¬ ((nextToken li.queryPtr).2.head? = some 64 ∧ ((nextToken li.queryPtr).2.drop 1).head?.any isDigit = true)) :
    (lex li).lexeme = (nextToken li.queryPtr).2 ∧ (lex li).lexLen ≤ (lex li).lexBuf.length ∧ (lex li).termType = li.termType ∧
      (lex li).queryLook =
        if (nextToken li.queryPtr).1 = false ∧ (nextToken li.queryPtr).2.head? = some 64 then keyword (lex li) else .text := by
  have known := openSep_sepChar (li.queryPtr.dropWhile (· = 32))
  rcases opened : openSep (li.queryPtr.dropWhile (· = 32)) with ⟨sepChar, buf⟩
  rw [nextToken, opened] at noDigit
  rw [opened] at known
  have read := lex_token li token opened fun both => noDigit ((digit_inside known buf).mpr both)
  rw [read, nextToken, opened]
  refine ⟨rfl, tokenLength_le _ _, rfl, ?_⟩
  have noBlank : sepChar = 32 ↔ decide (sepChar ≠ 32) = false := by simp
  have starts : (1 ≤ tokenLength sepChar buf ∧ buf.head? = some 64) ↔ (buf.take (tokenLength sepChar buf)).head? = some 64 := by
    cases tokenLength sepChar buf with
    | zero => simp
    | succ => cases buf <;> simp
  exact if_congr (and_congr noBlank starts) rfl rfl

theorem keyword_ne_ends (li : Parser) : keyword li ≠ .ends := by
  unfold keyword
  repeat' split
  all_goals exact Look.noConfusion

theorem lex_look_ne_ends (token : li.queryPtr.dropWhile (· = 32) ≠ []) : (lex li).queryLook ≠ .ends := by
  by_cases digit : (nextToken li.queryPtr).2.head? = some 64 ∧ ((nextToken li.queryPtr).2.drop 1).head?.any isDigit = true
  · rw [(lex_digit token digit.1 digit.2).1]
    exact Look.noConfusion
  · rw [(lex_nextToken token digit).2.2.2]
    split
    · exact keyword_ne_ends _
    · exact Look.noConfusion

theorem lex_within (token : li.queryPtr.dropWhile (· = 32) ≠ []) :
    (lex li).lexLen ≤ (lex li).lexBuf.length ∧ (lex li).termType = li.termType := by
  by_cases digit : (nextToken li.queryPtr).2.head? = some 64 ∧ ((nextToken li.queryPtr).2.drop 1).head?.any isDigit = true
  · exact (lex_digit token digit.1 digit.2).2.2
  · obtain ⟨-, within, same, -⟩ := lex_nextToken token digit
    exact ⟨within, same⟩

theorem lex_termType (li : Parser) : (lex li).termType = li.termType := by
  by_cases token : li.queryPtr.dropWhile (· = 32) = []
  · rw [lex_blank token]
  · exact (lex_within token).2

theorem termType_recognised (token : li.queryPtr.dropWhile (· = 32) ≠ []) :
    (rpnTermType (lex li)).termType = exactTermType (lex li).lexeme li.termType := by
  obtain ⟨within, same⟩ := lex_within token
  rw [rpnTermType, if_neg (lex_look_ne_ends token), lex_termType]
  simp only [compareTerm_whole within, decide_eq_true_eq, same]
  rfl

theorem keywords_letters : ∀ entry ∈ keywords, 2 ≤ entry.1.length ∧ entry.1.dropLast.head?.any isDigit = false := by decide

theorem misses_noDigit {word : List UInt8} {entry : List UInt8 × Look} (inside : entry ∈ keywords) (misses : Misses word entry.1) :
    ¬ word.head?.any isDigit = true := by
  obtain ⟨long, letter⟩ := keywords_letters entry inside
  obtain ⟨length, front, -⟩ := misses
  rw [← front] at letter
  match word, length, letter with
  | [], length, _ =>
    rw [← length] at long
    exact nomatch long
  | [_], length, _ =>
    rw [← length] at long
    exact absurd long (Nat.not_le.mpr (Nat.lt_succ_self 1))
  | c :: d :: rest, _, letter =>
    intro digit
    exact absurd (letter.symm.trans digit) (by decide)

/-- A keyword is read for every word that differs from it in the last character, and no term type for a name that differs. -/
theorem token_recognised_iff {li : Parser} (token : li.queryPtr.dropWhile (· = 32) ≠ []) :
    ((lex li).queryLook = exactLook (nextToken li.queryPtr) ∧
      (rpnTermType (lex li)).termType = exactTermType (lex li).lexeme li.termType) ↔ ¬ Mistaken (nextToken li.queryPtr) := by
  rw [and_iff_left (termType_recognised token)]
  have digit := lex_digit token
  have other := lex_nextToken token
  rcases is : nextToken li.queryPtr with ⟨quoted, _ | ⟨c, rest⟩⟩
  · rw [is] at other
    have look := (other (fun both => nomatch both.1)).2.2.2
    rw [if_neg (fun both => nomatch both.2)] at look
    cases quoted <;> exact iff_of_true look (fun wrong => wrong)
  · rw [is] at digit other
    by_cases isAt : c = 64
    · subst isAt
      by_cases isDigit' : rest.head?.any isDigit = true
      · have look := (digit rfl isDigit').1
        rw [look]
        cases quoted with
        | false =>
          refine iff_of_true ?_ ?_
          · rw [exactLook, if_pos isDigit']
          · rintro ⟨entry, inside, misses⟩
            exact misses_noDigit inside misses isDigit'
        | true => exact iff_of_false Look.noConfusion (fun right => right isDigit')
      · obtain ⟨lexeme, within, -, look⟩ := other (fun both => isDigit' both.2)
        cases quoted with
        | false =>
          have almost : keyword (lex li) =
              lookFor fun name => rest.length = name.length ∧ rest.dropLast = name.dropLast := by
            rw [keyword_eq_lookFor]
            exact lookFor_congr fun entry _ => compareTerm_behind within lexeme entry.1
          rw [if_pos ⟨rfl, rfl⟩, almost] at look
          rw [look, exactLook, if_neg isDigit']
          exact lookFor_exact_iff rest
        | true =>
          rw [if_neg (fun both => nomatch both.1)] at look
          exact iff_of_true look isDigit'
    · have noAt : (c :: rest).head? ≠ some 64 := by simpa using isAt
      have look := (other (fun both => noAt both.1)).2.2.2
      rw [if_neg (fun both => noAt both.2)] at look
      rw [look]
      refine iff_of_true ?_ ?_
      · unfold exactLook
        split
        next same => exact absurd (Prod.mk.inj same).2 (by simpa using fun is => absurd is isAt)
        · rfl
      · unfold Mistaken
        split
        next same => exact absurd (Prod.mk.inj same).2 (by simpa using fun is => absurd is isAt)
        next same => exact absurd (Prod.mk.inj same).2 (by simpa using fun is => absurd is isAt)
        · exact fun wrong => wrong

theorem token_recognised_and :
    ((lex { yazPqfCreate with queryPtr := [64, 97, 110, 100] }).queryLook = exactLook (nextToken [64, 97, 110, 100]) ∧
      (rpnTermType (lex { yazPqfCreate with queryPtr := [64, 97, 110, 100] })).termType =
        exactTermType (lex { yazPqfCreate with queryPtr := [64, 97, 110, 100] }).lexeme .general) ↔
          ¬ Mistaken (nextToken [64, 97, 110, 100]) :=
  @token_recognised_iff { yazPqfCreate with queryPtr := [64, 97, 110, 100] } (by decide)

/-- `@any` is read as `@and`. -/
theorem token_taken_for_and : (lex { yazPqfCreate with queryPtr := [64, 97, 110, 121] }).queryLook = .and ∧
    nextToken [64, 97, 110, 121] = (false, 64 :: ascii "any") ∧ exactLook (nextToken [64, 97, 110, 121]) = .text := by
  decide

end Yaz.Pqf
