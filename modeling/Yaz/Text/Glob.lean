import Mathlib.Data.List.Forall2

/-! Patterns with `*` and `?`: `match_glob.c`. -/

set_option autoImplicit false

namespace Yaz.Text
open List

variable {tolower : UInt8 → UInt8} {caseInsensitive : Bool}

/-- Two octets that are neither `*` nor `?` are taken for the same. -/
def sameOctet (tolower : UInt8 → UInt8) (caseInsensitive : Bool) (g c : UInt8) : Bool :=
  if caseInsensitive then tolower g = tolower c else g = c

/-- The `do` loop behind `*`: what is tried at every octet of the memory, the terminator as the last. Nothing is read behind the memory. -/
def starLoop (attempt : List UInt8 → Option Bool) : (text : List UInt8) → Option Bool
  | [] => none
  | c :: text => (attempt (c :: text)).bind fun found =>
    if found then some true else if c = 0 then some false else starLoop attempt text

/-- `yaz_match_glob2`: the text is the memory from its first octet on, `none` a read behind it. -/
def yazMatchGlob2 (tolower : UInt8 → UInt8) (caseInsensitive : Bool) : (glob text : List UInt8) → Option Bool
  | _, [] => none
  | [], c :: _ => some (c = 0)
  | g :: glob, c :: text =>
    if g = 42 then starLoop (yazMatchGlob2 tolower caseInsensitive glob) (c :: text)
    else if c = 0 then some false
    else if g ≠ 63 ∧ sameOctet tolower caseInsensitive g c = false then some false
    else yazMatchGlob2 tolower caseInsensitive glob text

def StandsFor (tolower : UInt8 → UInt8) (caseInsensitive : Bool) (g : UInt8) (piece : List UInt8) : Prop :=
  if g = 42 then True
  else if g = 63 then piece.length = 1
  else ∃ c, piece = [c] ∧ sameOctet tolower caseInsensitive g c = true

def GlobMatches (tolower : UInt8 → UInt8) (caseInsensitive : Bool) (glob text : List UInt8) : Prop :=
  ∃ pieces, List.Forall₂ (StandsFor tolower caseInsensitive) glob pieces ∧ pieces.flatten = text

theorem globMatches_nil {text : List UInt8} : GlobMatches tolower caseInsensitive [] text ↔ text = [] := by
  constructor
  · rintro ⟨pieces, stands, rfl⟩
    cases stands
    rfl
  · rintro rfl
    exact ⟨[], .nil, rfl⟩

theorem globMatches_cons {g : UInt8} {glob text : List UInt8} :
    GlobMatches tolower caseInsensitive (g :: glob) text ↔
      ∃ piece rest, text = piece ++ rest ∧ StandsFor tolower caseInsensitive g piece ∧ GlobMatches tolower caseInsensitive glob rest := by
  constructor
  · rintro ⟨pieces, stands, rfl⟩
    cases stands with
    | cons first others => exact ⟨_, _, flatten_cons, first, _, others, rfl⟩
  · rintro ⟨piece, rest, rfl, first, pieces, others, rfl⟩
    exact ⟨piece :: pieces, .cons first others, flatten_cons⟩

/-- A pattern that begins with `*` matches when the rest of it matches some end of the text. -/
theorem globMatches_star {glob text : List UInt8} :
    GlobMatches tolower caseInsensitive (42 :: glob) text ↔ ∃ rest, rest <:+ text ∧ GlobMatches tolower caseInsensitive glob rest := by
  rw [globMatches_cons]
  constructor
  · rintro ⟨piece, rest, rfl, -, matched⟩
    exact ⟨rest, suffix_append piece rest, matched⟩
  · rintro ⟨rest, ⟨piece, rfl⟩, matched⟩
    exact ⟨piece, rest, rfl, by simp [StandsFor], matched⟩

/-- Any other octet of a pattern takes one octet of the text. -/
theorem globMatches_octet {g c : UInt8} {glob text : List UInt8} (noStar : g ≠ 42) :
    GlobMatches tolower caseInsensitive (g :: glob) (c :: text) ↔
      (g = 63 ∨ sameOctet tolower caseInsensitive g c = true) ∧ GlobMatches tolower caseInsensitive glob text := by
  rw [globMatches_cons]
  constructor
  · rintro ⟨piece, rest, cut, stands, matched⟩
    rw [StandsFor, if_neg noStar] at stands
    split at stands
    · obtain ⟨d, rfl⟩ := length_eq_one_iff.mp stands
      obtain ⟨rfl, rfl⟩ := List.cons.inj cut
      exact ⟨.inl ‹_›, matched⟩
    · obtain ⟨d, rfl, same⟩ := stands
      obtain ⟨rfl, rfl⟩ := List.cons.inj cut
      exact ⟨.inr same, matched⟩
  · rintro ⟨octet, matched⟩
    refine ⟨[c], text, rfl, ?_, matched⟩
    rw [StandsFor, if_neg noStar]
    split
    · rfl
    · exact ⟨c, rfl, octet.resolve_left ‹_›⟩

theorem globMatches_cons_nil {g : UInt8} {glob : List UInt8} (noStar : g ≠ 42) :
    ¬GlobMatches tolower caseInsensitive (g :: glob) [] := by
  rw [globMatches_cons]
  rintro ⟨piece, rest, cut, stands, -⟩
  rw [(append_eq_nil_iff.mp cut.symm).1, StandsFor, if_neg noStar] at stands
  split at stands
  · cases stands
  · obtain ⟨c, none, -⟩ := stands
    cases none

def Answers (answer : Option Bool) (p : Prop) : Prop := ∃ found, answer = some found ∧ (found = true ↔ p)

theorem starLoop_answers {attempt : List UInt8 → Option Bool} {P : List UInt8 → Prop} {text : List UInt8} (noNul : 0 ∉ text)
    (answers : ∀ rest, 0 ∉ rest → Answers (attempt (rest ++ [0])) (P rest)) :
    Answers (starLoop attempt (text ++ [0])) (∃ rest, rest <:+ text ∧ P rest) := by
  induction text with
  | nil =>
    obtain ⟨found, tried, exact⟩ := answers [] noNul
    rw [nil_append] at tried ⊢
    refine ⟨found, ?_, ?_⟩
    · rw [starLoop, tried]
      cases found <;> rfl
    · rw [exact]
      exact ⟨fun holds => ⟨[], suffix_rfl, holds⟩, fun ⟨rest, ends, holds⟩ => suffix_nil.mp ends ▸ holds⟩
  | cons c text ih =>
    have inner : c ≠ 0 := fun nul => noNul (nul ▸ mem_cons_self)
    have behind : 0 ∉ text := fun nul => noNul (mem_cons_of_mem c nul)
    obtain ⟨found, tried, exact⟩ := answers (c :: text) noNul
    obtain ⟨later, searched, exactLater⟩ := ih behind
    refine ⟨found || later, ?_, ?_⟩
    · rw [cons_append] at tried ⊢
      rw [starLoop, tried]
      cases found
      · simpa [inner] using searched
      · rfl
    · rw [Bool.or_eq_true, exact, exactLater]
      constructor
      · rintro (holds | ⟨rest, ends, holds⟩)
        · exact ⟨_, suffix_rfl, holds⟩
        · exact ⟨rest, ends.trans (suffix_cons c text), holds⟩
      · rintro ⟨rest, ends, holds⟩
        rcases suffix_cons_iff.mp ends with rfl | ends
        · exact .inl holds
        · exact .inr ⟨rest, ends, holds⟩

/-- The matcher never reads behind the terminator of a text, and it finds a match exactly when the text can be cut into pieces
that the octets of the pattern stand for. -/
theorem yazMatchGlob2_exact {glob text : List UInt8} (noNul : 0 ∉ text) :
    Answers (yazMatchGlob2 tolower caseInsensitive glob (text ++ [0])) (GlobMatches tolower caseInsensitive glob text) := by
  induction glob generalizing text with
  | nil =>
    cases text with
    | nil => exact ⟨true, rfl, by simp [globMatches_nil]⟩
    | cons c =>
      have inner : c ≠ 0 := fun nul => noNul (nul ▸ mem_cons_self)
      exact ⟨false, by simp [yazMatchGlob2, inner], by simp [globMatches_nil]⟩
  | cons g _ ih =>
    by_cases star : g = 42
    · subst star
      have searched := starLoop_answers noNul fun rest noNul => ih noNul
      rw [← globMatches_star] at searched
      cases text with
      | nil => exact searched
      | cons => exact searched
    · cases text with
      | nil => exact ⟨false, by simp [yazMatchGlob2, star], by simp [globMatches_cons_nil star]⟩
      | cons c text =>
        have inner : c ≠ 0 := fun nul => noNul (nul ▸ mem_cons_self)
        have behind : 0 ∉ text := fun nul => noNul (mem_cons_of_mem c nul)
        obtain ⟨found, matched, exact⟩ := ih behind
        rw [cons_append, yazMatchGlob2, if_neg star, if_neg inner, Answers, globMatches_octet star]
        by_cases octet : g = 63 ∨ sameOctet tolower caseInsensitive g c = true
        · rw [if_neg (by simpa using or_iff_not_imp_left.mp octet)]
          exact ⟨found, matched, by simp [exact, octet]⟩
        · rw [if_pos (by simpa using octet)]
          exact ⟨false, rfl, by simp [octet]⟩

theorem yazMatchGlob2_exact_asterisks :
    Answers (yazMatchGlob2 id true [42, 97, 42, 98] ([120, 97, 99, 98] ++ [0])) (GlobMatches id true [42, 97, 42, 98] [120, 97, 99, 98]) :=
  yazMatchGlob2_exact (by decide)

end Yaz.Text
