import Yaz.Cql.Transform
import Mathlib.Data.List.TakeWhile

/-! Which words of a search clause are operands of the query in PQF. -/

set_option autoImplicit false

namespace Yaz.Cql
open List
open Yaz.Comstack (ascii)

def pieces (text : List UInt8) : List (List UInt8) := (text.splitOn 32).filter (· ≠ [])

def Clause.takesWords (cn : Clause) : Bool := cn.relates (ascii "all") || cn.relates (ascii "any")

def Clause.terms (cn : Clause) : List (List UInt8) := cn.u.term.getD [] :: cn.extraTerms

def Clause.words (cn : Clause) : List (List UInt8) := if cn.takesWords then cn.terms.flatMap pieces else cn.terms

def Clause.op (cn : Clause) : List UInt8 :=
  if cn.relates (ascii "all") then ascii "and" else if cn.relates (ascii "any") then ascii "or" else ascii "and"

def clauses : CqlNode → List Clause
  | .null => []
  | .st u modifiers extraTerms => [⟨u, chainOfModifiers modifiers, chainOfTerms extraTerms⟩]
  | .boolean _ left right _ => clauses left ++ clauses right
  | .sort _ _ _ search => clauses search

inductive Sign where
  | op (name : List UInt8)
  | word (octets : List UInt8)
  deriving DecidableEq

def Piece.sign : Piece → Option Sign
  | .text _ => none
  | .op name => some (.op name)
  | .leaf word _ => some (.word word)

def Emitted.signs (e : Emitted) : List Sign := e.out.filterMap Piece.sign

def joined (op : List UInt8) : List (List UInt8) → List Sign
  | [] => []
  | [word] => [.word word]
  | word :: next :: words => .op op :: .word word :: joined op (next :: words)

variable (e next : Emitted)

theorem signs_ignoring : (e.ignoring next).signs = e.signs ++ next.signs := filterMap_append

theorem signs_andThen : (e.andThen next).signs = e.signs ++ if e.r = 0 then next.signs else [] := by
  rw [Emitted.andThen]
  split
  · exact signs_ignoring e next
  · rw [append_nil]

theorem r_andThen : (e.andThen next).r = 0 ↔ e.r = 0 ∧ next.r = 0 := by
  rw [Emitted.andThen]
  split
  · next none => exact (and_iff_right none).symm
  · next error => exact iff_of_false error fun both => error both.1

theorem andThen_assoc (e f g : Emitted) : (e.andThen f).andThen g = e.andThen (f.andThen g) := by
  by_cases first : e.r = 0
  · have whole : e.andThen f = e.ignoring f := if_pos first
    have whole' : e.andThen (f.andThen g) = e.ignoring (f.andThen g) := if_pos first
    rw [whole, whole', Emitted.andThen, Emitted.andThen]
    by_cases second : f.r = 0
    · rw [if_pos second, if_pos (show (e.ignoring f).r = 0 from second)]
      simp only [Emitted.ignoring, append_assoc]
    · rw [if_neg second, if_neg (show (e.ignoring f).r ≠ 0 from second)]
  · have stop (next : Emitted) : e.andThen next = e := if_neg first
    rw [stop, stop, stop]

theorem andThen_empty_left (e : Emitted) : Emitted.andThen {} e = e := rfl

theorem andThen_empty_right (e : Emitted) : e.andThen {} = e := by
  obtain ⟨out, addinfo, r⟩ := e
  rw [Emitted.andThen]
  split
  · next none =>
    simp only at none
    rw [none]
    simp only [Emitted.ignoring, append_nil]
  · rfl

theorem signs_pr (piece : Piece) : (pr piece).signs = piece.sign.toList := by
  cases piece <;> rfl

theorem cqlPrAttrUri_r {ct : CqlTransform} {category : List UInt8} {uri val defaultVal : Option (List UInt8)} {errcode : Nat} :
    (cqlPrAttrUri ct category uri val defaultVal errcode).r = 0 ↔ (property ct category uri val defaultVal).isSome = true := by
  rw [cqlPrAttrUri]
  cases property ct category uri val defaultVal with
  | some => exact iff_of_true rfl rfl
  | none =>
    refine iff_of_false ?_ Bool.false_ne_true
    by_cases silent : errcode = 0
    · rw [if_pos silent]
      exact Nat.one_ne_zero
    · rw [if_neg silent]
      exact silent

variable (ct : CqlTransform)

theorem cqlPrAttrUri_signs (category : List UInt8) (uri val defaultVal : Option (List UInt8)) (errcode : Nat) :
    (cqlPrAttrUri ct category uri val defaultVal errcode).signs = [] := by
  rw [cqlPrAttrUri]
  split
  · rfl
  · split <;> rfl

theorem cqlPrAttr_signs (category : List UInt8) (val defaultVal : Option (List UInt8)) (errcode : Nat) :
    (cqlPrAttr ct category val defaultVal errcode).signs = [] := cqlPrAttrUri_signs ct category none val defaultVal errcode

def acceptsMarks (ct : CqlTransform) (marks : Marks) : Bool :=
  (property ct (ascii "position") none (some marks.position) none).isSome &&
    (!marks.masked ct || (property ct (ascii "truncation") none (some (ascii "z3958")) none).isSome)

def Clause.supported (ct : CqlTransform) (cn : Clause) : Bool :=
  (cn.u.indexUri.all fun ns => (property ct (ascii "index") (some ns) cn.u.index (some (ascii "serverChoice"))).isSome) &&
    cn.modifiers.all fun mod => mod.term.isSome || (property ct (ascii "relationModifier") none mod.index none).isSome

def accepts (ct : CqlTransform) (cn : Clause) (word : List UInt8) : Bool :=
  (!processTerm ct cn || acceptsMarks ct (marksOf word)) && cn.supported ct

theorem emitMarks_spec (marks : Marks) :
    ((emitMarks ct marks).r = 0 ↔ acceptsMarks ct marks = true) ∧ (emitMarks ct marks).signs = [] := by
  have silent : (if marks.masked ct then cqlPrAttr ct (ascii "truncation") (some (ascii "z3958")) none 28
      else if marks.trunc ≠ 0 then cqlPrAttr ct (ascii "truncation") (some marks.truncation) none 0
      else (cqlPrAttr ct (ascii "truncation") (some (ascii "none")) none 0).ignoring {}).signs = [] := by
    split
    · exact cqlPrAttr_signs ..
    · split
      · exact cqlPrAttr_signs ..
      · rw [signs_ignoring, cqlPrAttr_signs]
        rfl
  constructor
  · rw [emitMarks, r_andThen, acceptsMarks, Bool.and_eq_true, cqlPrAttr, cqlPrAttrUri_r]
    refine and_congr_right fun _ => ?_
    by_cases masked : marks.masked ct = true
    · rw [if_pos masked, masked, Bool.not_true, Bool.false_or, cqlPrAttr, cqlPrAttrUri_r]
    · have accepted : (!marks.masked ct || (property ct (ascii "truncation") none (some (ascii "z3958")) none).isSome) = true := by
        rw [Bool.eq_false_of_not_eq_true masked]
        rfl
      rw [if_neg masked]
      refine iff_of_true ?_ accepted
      by_cases trunc : marks.trunc ≠ 0
      · rw [if_pos trunc, cqlPrAttr, cqlPrAttrUri_r, Option.isSome_iff_ne_none]
        intro none
        -- without the truncation the term would be masked
        exact masked (by rw [Marks.masked, none]; simp [trunc])
      · rw [if_neg trunc]
        rfl
  · rw [emitMarks, signs_andThen, cqlPrAttr_signs, silent, ite_self, append_nil]

variable (cn : Clause)

theorem emitTruncation_spec (term : List UInt8) :
    ((emitTruncation ct cn term).r = 0 ↔ (!processTerm ct cn || acceptsMarks ct (marksOf term)) = true) ∧
      (emitTruncation ct cn term).signs = [] := by
  rw [emitTruncation]
  by_cases processed : processTerm ct cn = true
  · rw [if_pos processed, processed, Bool.not_true, Bool.false_or]
    exact emitMarks_spec ct (marksOf term)
  · rw [if_neg processed, Bool.eq_false_of_not_eq_true processed, Bool.not_false, Bool.true_or]
    split
    · exact ⟨iff_of_true rfl rfl, rfl⟩
    · next unmodified =>
      refine ⟨iff_of_true ?_ rfl, cqlPrAttr_signs ..⟩
      rw [cqlPrAttr, cqlPrAttrUri_r, property]
      -- no modifier keeps the term from being processed, so that it is the configuration
      cases looked : cqlLookupProperty ct (ascii "truncation") none (some (ascii "cql")) with
      | some => simp [looked]
      | none =>
        rw [Bool.not_eq_true, Bool.or_eq_false_iff] at unmodified
        exact absurd (by rw [processTerm, unmodified.1, unmodified.2, looked]; rfl) processed

variable (mods : List StStrings)

theorem emitRelationModifiers_spec :
    ((emitRelationModifiers ct mods).r = 0 ↔
        (mods.all fun mod => mod.term.isSome || (property ct (ascii "relationModifier") none mod.index none).isSome) = true) ∧
      (emitRelationModifiers ct mods).signs = [] := by
  induction mods with
  | nil => exact ⟨iff_of_true rfl rfl, rfl⟩
  | cons mod _ ih =>
    rw [emitRelationModifiers, r_andThen, signs_andThen, all_cons, Bool.and_eq_true, ih.1, ih.2, ite_self, append_nil]
    cases mod.term with
    | none =>
      rw [if_pos rfl, cqlPrAttr, cqlPrAttrUri_r]
      exact ⟨Iff.rfl, cqlPrAttrUri_signs ..⟩
    | some => exact ⟨and_congr_left fun _ => iff_of_true rfl rfl, rfl⟩

theorem emitIndex_spec :
    ((emitIndex ct cn).r = 0 ↔
        (cn.u.indexUri.all fun ns => (property ct (ascii "index") (some ns) cn.u.index (some (ascii "serverChoice"))).isSome) = true) ∧
      (emitIndex ct cn).signs = [] := by
  rw [emitIndex]
  cases cn.u.indexUri with
  | none => exact ⟨iff_of_true rfl rfl, rfl⟩
  | some => exact ⟨cqlPrAttrUri_r, cqlPrAttrUri_signs ..⟩

theorem emitTerm_spec (term : List UInt8) :
    ((emitTerm ct cn term).r = 0 ↔ accepts ct cn term = true) ∧
      (emitTerm ct cn term).signs = if accepts ct cn term then [.word term] else [] := by
  obtain ⟨truncation, truncation'⟩ := emitTruncation_spec ct cn term
  obtain ⟨index, index'⟩ := emitIndex_spec ct cn
  obtain ⟨modifiers, modifiers'⟩ := emitRelationModifiers_spec ct cn.modifiers
  have accepted : accepts ct cn term = true ↔ (emitTruncation ct cn term).r = 0 ∧ (emitIndex ct cn).r = 0 ∧
      (emitRelationModifiers ct cn.modifiers).r = 0 := by
    rw [accepts, Clause.supported, Bool.and_eq_true, Bool.and_eq_true, truncation, index, modifiers]
  constructor
  · rw [accepted, emitTerm, r_andThen, r_andThen, r_andThen]
    exact and_congr_right fun _ => and_congr_right fun _ => and_iff_left rfl
  · rw [emitTerm, signs_andThen, signs_andThen, signs_andThen, truncation', index', modifiers', signs_pr, Piece.sign]
    by_cases all : accepts ct cn term = true
    · -- the operand is behind the attributes, which are printed without an error
      obtain ⟨first, second, third⟩ := accepted.mp all
      rw [if_pos all, if_pos first, if_pos second, if_pos third]
      rfl
    · rw [if_neg all]
      simp only [nil_append]
      rw [accepted] at all
      split_ifs with first second third
      · exact absurd ⟨first, second, third⟩ all
      all_goals rfl

theorem emitExtraTerms_signs_iff (op : List UInt8) {terms : List (List UInt8)} (some' : terms ≠ [])
    (words : List (List UInt8)) :
    (emitExtraTerms ct cn op terms).signs = joined op words ↔
      (∀ term ∈ terms, accepts ct cn term = true) ∧ terms = words ∨
        words = [] ∧ ∃ term, terms = [term] ∧ accepts ct cn term = false := by
  induction terms generalizing words with
  | nil => exact absurd rfl some'
  | cons term terms ih =>
    cases terms with
    | nil =>
      rw [emitExtraTerms, (emitTerm_spec ct cn term).2]
      by_cases accepted : accepts ct cn term = true
      · rw [if_pos accepted]
        match words with
        | [] => simp [joined, accepted]
        | [word] => simp [joined, accepted]
        | word :: next :: words => simp [joined]
      · rw [if_neg accepted]
        match words with
        | [] => simp [joined, accepted]
        | [word] => simp [joined, accepted]
        | word :: next :: words => simp [joined]
    | cons ne terms =>
      have more := ih (cons_ne_nil ne terms)
      rw [emitExtraTerms, signs_andThen, signs_andThen, signs_pr, Piece.sign, if_pos (show (pr (.op op)).r = 0 from rfl),
        (emitTerm_spec ct cn term).2]
      have accepted := (emitTerm_spec ct cn term).1
      by_cases first : accepts ct cn term = true
      · rw [if_pos first, if_pos (accepted.mpr first)]
        match words with
        | [] => simp [joined]
        | [word] => simp [joined]
        | word :: next :: words =>
          have tail := more (next :: words)
          simp only [joined, Option.toList_some, singleton_append, List.cons.injEq, true_and, Sign.word.injEq, tail]
          simp [first]
          tauto
      · -- the operator is printed ahead of its first word, and nothing behind it
        rw [if_neg first, if_neg (fun none => first (accepted.mp none))]
        match words with
        | [] => simp [joined]
        | [word] => simp [joined]
        | word :: next :: words => simp [joined, first]

theorem emitTerms_eq (op : List UInt8) : emitTerms ct cn op = emitExtraTerms ct cn op cn.terms := by
  rw [emitTerms, Clause.terms]
  cases cn.extraTerms with
  | nil =>
    rw [if_pos rfl, andThen_empty_left, emitExtraTerms, emitExtraTerms, andThen_empty_right]
  | cons term terms => rw [if_neg (cons_ne_nil term terms), emitExtraTerms]

/-! ### The list of words of a term -/

def wordlist (term : List UInt8) : List (List UInt8) :=
  pieces term ++ if term = [] ∨ term.getLast? = some 32 then [[]] else []

variable (text : List UInt8)

theorem nil_not_mem_pieces : [] ∉ pieces text := by
  intro inside
  rw [pieces, mem_filter] at inside
  simp at inside

variable {word : List UInt8}

theorem pieces_bare (bare : 32 ∉ word) (some' : word ≠ []) : pieces word = [word] := by
  rw [pieces, splitOn_eq_singleton bare, filter_cons_of_pos (by simpa using some'), filter_nil]

theorem pieces_blank : pieces (32 :: text) = pieces text := by
  have split : ([] ++ 32 :: text).splitOn 32 = [] :: text.splitOn 32 := splitOn_append_cons_self_of_not_mem not_mem_nil text
  rw [pieces, show 32 :: text = [] ++ 32 :: text from rfl, split, filter_cons_of_neg (by simp), pieces]

theorem pieces_word (bare : 32 ∉ word) (some' : word ≠ []) (text : List UInt8) :
    pieces (word ++ 32 :: text) = word :: pieces (32 :: text) := by
  rw [pieces_blank, pieces, splitOn_append_cons_self_of_not_mem bare, filter_cons_of_pos (by simpa using some'), pieces]

theorem wordlist_blank : wordlist (32 :: text) = wordlist text := by
  rw [wordlist, wordlist, pieces_blank]
  congr 1
  cases text with
  | nil => rfl
  | cons => rw [getLast?_cons_cons]; simp

theorem wordlist_dropWhile : wordlist (text.dropWhile (· = 32)) = wordlist text := by
  induction text with
  | nil => rfl
  | cons c _ ih =>
    by_cases blank : c = 32
    · rw [dropWhile_cons_of_pos (by simpa using blank), ih, blank, wordlist_blank]
    · rw [dropWhile_cons_of_neg (by simpa using blank)]

theorem wordlist_bare (bare : 32 ∉ word) : wordlist word = [word] := by
  by_cases none : word = []
  · rw [none]
    rfl
  · have last : word.getLast? ≠ some 32 := fun last => bare (mem_of_getLast? last)
    rw [wordlist, pieces_bare bare none, if_neg (not_or.mpr ⟨none, last⟩), append_nil]

theorem wordlist_word (bare : 32 ∉ word) (some' : word ≠ []) (text : List UInt8) :
    wordlist (word ++ 32 :: text) = word :: wordlist (32 :: text) := by
  have last : (word ++ 32 :: text).getLast? = (32 :: text).getLast? :=
    getLast?_append_of_ne_nil word (cons_ne_nil 32 text)
  rw [wordlist, wordlist, pieces_word bare some', last, cons_append]
  simp

theorem first_word {text : List UInt8} (blank : 32 ∈ text.dropWhile (· = 32)) :
    ∃ word rest, text.dropWhile (· = 32) = word ++ 32 :: rest ∧ 32 ∉ word ∧ word ≠ [] := by
  obtain ⟨word, rest, split, bare⟩ := eq_append_cons_of_mem blank
  refine ⟨word, rest, split, bare, ?_⟩
  rintro rfl
  have head := head?_dropWhile_not (fun c : UInt8 => decide (c = 32)) text
  rw [split] at head
  simp at head

theorem wordlist_ne_nil : wordlist text ≠ [] := by
  rw [← wordlist_dropWhile text]
  by_cases blank : 32 ∈ text.dropWhile (· = 32)
  · obtain ⟨word, rest, split, bare, some'⟩ := first_word blank
    rw [split, wordlist_word bare some']
    exact cons_ne_nil _ _
  · rw [wordlist_bare blank]
    exact cons_ne_nil _ _

theorem emitWordlistFrom_eq (op : List UInt8) {rounds : Nat} {cp0 : List UInt8}
    (enough : cp0.length + 2 ≤ rounds) (lastTerm : Option (List UInt8)) :
    emitWordlistFrom ct cn op rounds (some cp0) lastTerm = emitExtraTerms ct cn op (lastTerm.toList ++ wordlist cp0) := by
  induction rounds generalizing cp0 lastTerm with
  | zero => omega
  | succ rounds ih =>
    -- a word is kept for the next round, which prints it with or without an operator
    obtain ⟨cp, isCp⟩ : ∃ cp, cp = cp0.dropWhile (· = 32) := ⟨_, rfl⟩
    have shorter : cp.length ≤ cp0.length := by
      rw [isCp]
      exact (dropWhile_suffix _).length_le
    have rest : emitWordlistFrom ct cn op rounds (if 32 ∈ cp then some (cp.dropWhile (· ≠ 32)) else none) (some (cp.takeWhile (· ≠ 32))) =
        emitExtraTerms ct cn op (wordlist cp0) := by
      rw [← wordlist_dropWhile cp0, ← isCp]
      by_cases blank : 32 ∈ cp
      · obtain ⟨word, text, split, bare, some'⟩ := first_word (isCp ▸ blank)
        rw [← isCp] at split
        have inside : ∀ c ∈ word, decide (c ≠ 32) = true := fun c member => decide_eq_true fun is => bare (is ▸ member)
        rw [if_pos blank, split, takeWhile_append_of_pos inside, dropWhile_append_of_pos inside,
          takeWhile_cons_of_neg (by decide), dropWhile_cons_of_neg (by decide), append_nil,
          ih (by rw [split, length_append] at shorter; have := length_pos_iff.mpr some'; omega), wordlist_word bare some']
        rfl
      · -- the last word is printed in one more round, which finds no text
        obtain ⟨more, rfl⟩ : ∃ more, rounds = more + 1 := ⟨rounds - 1, by omega⟩
        have whole : cp.takeWhile (· ≠ 32) = cp := takeWhile_eq_self_iff.mpr fun c member =>
          decide_eq_true fun is => blank (is ▸ member)
        rw [if_neg blank, wordlist_bare blank, whole]
        rfl
    cases lastTerm with
    | none =>
      rw [emitWordlistFrom, ← isCp, rest]
      exact andThen_empty_left _
    | some =>
      rw [emitWordlistFrom, ← isCp, rest]
      obtain ⟨word, words, list⟩ := exists_cons_of_ne_nil (wordlist_ne_nil cp0)
      rw [Option.toList_some, singleton_append, list, emitExtraTerms]
      exact andThen_assoc ..

theorem emitWordlist_eq (op : List UInt8) :
    emitWordlist ct cn op = emitExtraTerms ct cn op (wordlist (cn.u.term.getD [])) := by
  rw [emitWordlist, emitWordlistFrom_eq ct cn op (Nat.le_refl _), Option.toList_none, nil_append]

/-! ### A clause -/

def Clause.printed (cn : Clause) : List (List UInt8) := if cn.takesWords then wordlist (cn.u.term.getD []) else cn.terms

theorem Clause.printed_ne_nil : cn.printed ≠ [] := by
  rw [Clause.printed]
  split
  · exact wordlist_ne_nil _
  · exact cons_ne_nil _ _

theorem emitWords_eq : emitWords ct cn = emitExtraTerms ct cn cn.op cn.printed := by
  rw [emitWords, Clause.op, Clause.printed, Clause.takesWords]
  by_cases all : cn.relates (ascii "all") = true
  · rw [if_pos all, if_pos all, if_pos (by rw [all]; rfl), emitWordlist_eq]
  · by_cases any : cn.relates (ascii "any") = true
    · rw [if_neg all, if_neg all, if_pos any, if_pos any, if_pos (by rw [any, Bool.or_true]), emitWordlist_eq]
    · rw [if_neg all, if_neg all, if_neg any, if_neg any, if_neg (by simp [all, any]), emitTerms_eq]

/-- The words of a clause are printed whole: each is accepted, and where the relation asks for words they are all in the first term,
which ends in one of them. A clause without any words is right if its empty term is refused. -/
def Clause.Direct (ct : CqlTransform) (cn : Clause) : Prop :=
  if cn.isResultSet then cn.words = [cn.u.term.getD []]
  else
    (∀ word ∈ cn.words, accepts ct cn word = true) ∧
      (cn.takesWords = true → (∀ term ∈ cn.extraTerms, pieces term = []) ∧
        (cn.u.term.getD [] ≠ [] ∧ (cn.u.term.getD []).getLast? ≠ some 32 ∨
          pieces (cn.u.term.getD []) = [] ∧ accepts ct cn [] = false))

/-- What is printed for the words of a clause. -/
theorem emitWords_signs_iff (ordinary : cn.isResultSet = false) :
    (emitWords ct cn).signs = joined cn.op cn.words ↔ cn.Direct ct := by
  rw [emitWords_eq, emitExtraTerms_signs_iff ct cn cn.op cn.printed_ne_nil, Clause.Direct, ordinary, if_neg Bool.false_ne_true]
  cases takes : cn.takesWords with
  | false =>
    have words : cn.words = cn.terms := by rw [Clause.words, takes, if_neg Bool.false_ne_true]
    have printed : cn.printed = cn.terms := by rw [Clause.printed, takes, if_neg Bool.false_ne_true]
    rw [words, printed]
    constructor
    · rintro (⟨accepted, -⟩ | ⟨none, -⟩)
      · exact ⟨accepted, fun taken => absurd taken Bool.false_ne_true⟩
      · exact absurd none (cons_ne_nil _ _)
    · rintro ⟨accepted, -⟩
      exact .inl ⟨accepted, rfl⟩
  | true =>
    obtain ⟨term, isTerm⟩ : ∃ term, term = cn.u.term.getD [] := ⟨_, rfl⟩
    have words : cn.words = pieces term ++ cn.extraTerms.flatMap pieces := by
      rw [Clause.words, takes, if_pos rfl, Clause.terms, flatMap_cons, isTerm]
    have printed : cn.printed = pieces term ++ if term = [] ∨ term.getLast? = some 32 then [[]] else [] := by
      rw [Clause.printed, takes, if_pos rfl, ← isTerm, wordlist]
    have extra : cn.extraTerms.flatMap pieces = [] ↔ ∀ term ∈ cn.extraTerms, pieces term = [] := flatMap_eq_nil_iff
    rw [words, printed, ← isTerm, ← extra]
    constructor
    · rintro (⟨accepted, same⟩ | ⟨none, word, only, refused⟩)
      · rw [append_cancel_left_eq] at same
        by_cases ends : term = [] ∨ term.getLast? = some 32
        · -- the empty word is none of the words of the other terms
          rw [if_pos ends] at same
          obtain ⟨behind, _, inside⟩ := mem_flatMap.mp (same ▸ mem_singleton_self [])
          exact absurd inside (nil_not_mem_pieces behind)
        · rw [if_neg ends] at same accepted
          rw [← same]
          exact ⟨accepted, fun _ => ⟨rfl, .inl (not_or.mp ends)⟩⟩
      · obtain ⟨none', others⟩ := append_eq_nil_iff.mp none
        rw [none', others]
        refine ⟨fun _ inside => absurd inside not_mem_nil, fun _ => ⟨rfl, .inr ⟨rfl, ?_⟩⟩⟩
        rw [none', nil_append] at only
        by_cases ends : term = [] ∨ term.getLast? = some 32
        · rw [if_pos ends, singleton_inj] at only
          rw [only]
          exact refused
        · rw [if_neg ends] at only
          exact absurd only.symm (cons_ne_nil _ _)
    · rintro ⟨accepted, direct⟩
      obtain ⟨others, ends | ⟨none, refused⟩⟩ := direct rfl
      · rw [others] at accepted ⊢
        rw [if_neg (not_or.mpr ends)]
        exact .inl ⟨accepted, rfl⟩
      · have printed' := wordlist_ne_nil term
        rw [wordlist, none, nil_append] at printed'
        rw [none, others]
        refine .inr ⟨rfl, [], ?_, refused⟩
        split_ifs with ends
        · rfl
        · exact absurd (if_neg ends) printed'

theorem emitProxes_signs : (emitProxes mods).signs = [] := by
  induction mods with
  | nil => rfl
  | cons _ _ ih =>
    rw [emitProxes]
    split_ifs
    · exact ih
    · rw [signs_andThen, signs_pr, ih, ite_self]
      rfl
    · rfl

theorem emitValues_signs : (emitValues ct mods).signs = [] := by
  induction mods with
  | nil => rfl
  | cons mod _ ih =>
    rw [emitValues]
    cases mod.term with
    | none => exact ih
    | some =>
      rw [signs_andThen, signs_andThen, cqlPrAttrUri_signs, signs_pr, ih, ite_self]
      exact ite_self []

theorem emitWordsAndValues_signs : (emitWordsAndValues ct cn).signs = (emitWords ct cn).signs := by
  rw [emitWordsAndValues]
  split
  · rw [signs_ignoring, emitValues_signs, append_nil]
  · rfl

def Clause.Kept (ct : CqlTransform) (cn : Clause) : Prop := (emitClause ct cn).signs = joined cn.op cn.words

instance (ct : CqlTransform) (cn : Clause) : Decidable (cn.Kept ct) := inferInstanceAs (Decidable (_ = _))

theorem joined_eq_singleton_iff (op word : List UInt8) (words : List (List UInt8)) : [.word word] = joined op words ↔ words = [word] := by
  match words with
  | [] => exact iff_of_false (by simp [joined]) (by simp)
  | [only] => simp [joined, eq_comm]
  | first :: next :: words => exact iff_of_false (by simp [joined]) (by simp)

theorem Clause.kept_iff (success : (emitClause ct cn).r = 0) : cn.Kept ct ↔ cn.Direct ct := by
  rw [Clause.Kept]
  by_cases resultSet : cn.isResultSet = true
  · rw [emitClause, if_pos resultSet, signs_pr, Clause.Direct, if_pos resultSet]
    exact joined_eq_singleton_iff ..
  · have ordinary := Bool.eq_false_of_not_eq_true resultSet
    rw [emitClause, if_neg resultSet] at success ⊢
    by_cases none : cn.u.indexUri = none
    · rw [if_pos none] at success
      exact absurd success (by decide)
    · rw [if_neg none, r_andThen] at success
      obtain ⟨proxes, attributes⟩ := success
      -- only the words put signs among the attributes, and only if all in front of them is accepted
      have attributes' : ((cqlPrAttr ct (ascii "relation") cn.u.relation .none 19).andThen <|
          (cqlPrAttr ct (ascii "structure") cn.u.relation .none 24).andThen (emitWordsAndValues ct cn)).r = 0 := attributes
      rw [r_andThen, r_andThen] at attributes'
      obtain ⟨relation, structure', _⟩ := attributes'
      rw [if_neg none, signs_andThen, if_pos proxes, emitProxes_signs, signs_ignoring, cqlPrAttr_signs, signs_andThen, if_pos relation,
        cqlPrAttr_signs, signs_andThen, if_pos structure', cqlPrAttr_signs, emitWordsAndValues_signs]
      exact emitWords_signs_iff ct cn ordinary

theorem emitBooleanModifiers_signs (value : List UInt8) (mods : List StStrings) : (emitBooleanModifiers value mods).signs = [] := by
  have prox : (cqlPrProx mods).signs = [] := by
    rw [cqlPrProx]
    split <;> rfl
  by_cases isProx : value = ascii "prox"
  · rw [emitBooleanModifiers.eq_def, if_pos isProx, prox]
  · rw [emitBooleanModifiers.eq_def, if_neg isProx]
    cases mods <;> rfl

theorem emitNode_clauses (cn : CqlNode) (success : (emitNode ct cn).r = 0) :
    (emitNode ct cn).signs = (clauses cn).flatMap (fun clause => (emitClause ct clause).signs) ∧
      ∀ clause ∈ clauses cn, (emitClause ct clause).r = 0 := by
  induction cn with
  | null => exact ⟨rfl, fun _ inside => absurd inside not_mem_nil⟩
  | st =>
    refine ⟨(flatMap_singleton ..).symm, fun clause inside => ?_⟩
    rw [mem_singleton.mp inside]
    exact success
  | boolean _ _ _ _ ihLeft ihRight =>
    rw [emitNode, r_andThen, r_andThen, r_andThen] at success
    obtain ⟨_, modified, leftSuccess, rightSuccess⟩ := success
    obtain ⟨leftSigns, leftAll⟩ := ihLeft leftSuccess
    obtain ⟨rightSigns, rightAll⟩ := ihRight rightSuccess
    constructor
    · rw [emitNode, signs_andThen, signs_andThen, signs_andThen, if_pos leftSuccess, if_pos modified, emitBooleanModifiers_signs,
        leftSigns, rightSigns, clauses, flatMap_append]
      rfl
    · intro clause inside
      exact (mem_append.mp inside).elim (leftAll clause) (rightAll clause)
  | sort _ _ _ _ _ _ ih => exact ih success

/-- Of a query that is transformed the words are printed clause by clause, and they are all there if and only if each clause is direct. -/
theorem cqlTransformR_words_iff (ct : CqlTransform) (cn : CqlNode) (success : (cqlTransformR ct cn).r = 0) :
    (cqlTransformR ct cn).signs = (clauses (prefixed ct cn)).flatMap (fun clause => (emitClause ct clause).signs) ∧
      ((∀ clause ∈ clauses (prefixed ct cn), clause.Kept ct) ↔ ∀ clause ∈ clauses (prefixed ct cn), clause.Direct ct) := by
  obtain ⟨signs, all⟩ := emitNode_clauses ct (prefixed ct cn) success
  exact ⟨signs, forall₂_congr fun clause inside => clause.kept_iff ct (all clause inside)⟩

def titles : CqlTransform :=
  [⟨ascii "set", ascii "dc"⟩, ⟨ascii "set.dc", ascii "dc"⟩, ⟨ascii "index.dc.title", ascii "1=4"⟩, ⟨ascii "relation.*", ascii "2=3"⟩,
    ⟨ascii "structure.*", ascii "4=6"⟩, ⟨ascii "position.any", ascii "3=3"⟩]

/-- `title all` with these terms. -/
def titleAll (term : SearchTerm) (extra : ExtraTerms) : Top :=
  { query := .scoped (.single (.related ⟨.simpleString (ascii "title"), rfl⟩ ⟨.prefixName (ascii "all"), rfl⟩ .none (.terms term extra)))
    sortby := none }

/-- `title all "a b"` is transformed into two operands. -/
theorem cqlTransformR_words_two :
    let tree := (titleAll ⟨.simpleString [97, 32, 98], rfl⟩ .none).cql
    (cqlTransformR titles tree).r = 0 ∧ (cqlTransformR titles tree).signs = [.op (ascii "and"), .word [97], .word [98]] ∧
      ((∀ clause ∈ clauses (prefixed titles tree), clause.Kept titles) ↔ ∀ clause ∈ clauses (prefixed titles tree), clause.Direct titles) :=
  ⟨by decide, by decide, (cqlTransformR_words_iff titles _ (by decide)).2⟩

/-- `title all a b`, in which `b` is lost. -/
theorem titleAll_lost :
    let top := titleAll ⟨.simpleString [97], rfl⟩ (.more [98] .none)
    tokens false (ascii "title all a b") = top.tokens ∧ (cqlTransformR titles top.cql).r = 0 ∧
      (cqlTransformR titles top.cql).signs = [.word [97]] ∧ ¬ ∀ clause ∈ clauses (prefixed titles top.cql), clause.Kept titles := by
  decide

end Yaz.Cql
