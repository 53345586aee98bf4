import Mathlib.Data.List.DropRight

/-! The words of a text: its longest parts without blanks. -/

set_option autoImplicit false

namespace Yaz.Foundation
open List

variable {α : Type} {blank : α → Bool}

def wordsBy (blank : α → Bool) (text : List α) : List (List α) := (text.splitOnP blank).filter fun word => !word.isEmpty

theorem wordsBy_nil : wordsBy blank [] = [] := by
  rw [wordsBy, splitOnP_nil]
  rfl

theorem wordsBy_append_cons {c : α} (isBlank : blank c = true) (front behind : List α) :
    wordsBy blank (front ++ c :: behind) = wordsBy blank front ++ wordsBy blank behind := by
  rw [wordsBy, splitOnP_append_cons front behind isBlank, filter_append]
  rfl

theorem wordsBy_cons_blank {c : α} (isBlank : blank c = true) (behind : List α) : wordsBy blank (c :: behind) = wordsBy blank behind := by
  have apart := wordsBy_append_cons isBlank [] behind
  rwa [nil_append, wordsBy_nil, nil_append] at apart

theorem wordsBy_bare {word : List α} (bare : ∀ c ∈ word, blank c = false) (nonempty : word ≠ []) : wordsBy blank word = [word] := by
  rw [wordsBy, splitOnP_eq_singleton bare]
  exact filter_cons_of_pos (by simpa using nonempty)

theorem wordsBy_blanks_append {blanks : List α} (allBlank : ∀ c ∈ blanks, blank c = true) (behind : List α) :
    wordsBy blank (blanks ++ behind) = wordsBy blank behind := by
  induction blanks with
  | nil => rfl
  | cons c _ ih =>
    rw [cons_append, wordsBy_cons_blank (allBlank c mem_cons_self)]
    exact ih fun d member => allBlank d (mem_cons_of_mem c member)

theorem wordsBy_append_blanks (front : List α) {blanks : List α} (allBlank : ∀ c ∈ blanks, blank c = true) :
    wordsBy blank (front ++ blanks) = wordsBy blank front := by
  cases blanks with
  | nil => rw [append_nil]
  | cons c =>
    have rest := wordsBy_blanks_append (fun d member => allBlank d (mem_cons_of_mem c member)) []
    rw [append_nil, wordsBy_nil] at rest
    rw [wordsBy_append_cons (allBlank c mem_cons_self), rest, append_nil]

theorem wordsBy_word {word behind : List α} (bare : ∀ c ∈ word, blank c = false) (nonempty : word ≠ [])
    (apart : ∀ c ∈ behind.head?, blank c = true) : wordsBy blank (word ++ behind) = word :: wordsBy blank behind := by
  cases behind with
  | nil => rw [append_nil, wordsBy_bare bare nonempty, wordsBy_nil]
  | cons c =>
    have isBlank : blank c = true := apart c rfl
    rw [wordsBy_append_cons isBlank, wordsBy_bare bare nonempty, wordsBy_cons_blank isBlank, singleton_append]

theorem wordsBy_dropWhile (text : List α) : wordsBy blank (text.dropWhile blank) = wordsBy blank text := by
  have whole : wordsBy blank (text.takeWhile blank ++ text.dropWhile blank) = wordsBy blank (text.dropWhile blank) :=
    wordsBy_blanks_append (fun _ member => mem_takeWhile_imp member) _
  rw [takeWhile_append_dropWhile] at whole
  exact whole.symm

theorem wordsBy_rdropWhile (text : List α) : wordsBy blank (text.rdropWhile blank) = wordsBy blank text := by
  induction text using List.reverseRecOn with
  | nil => rfl
  | append_singleton text c ih =>
    by_cases isBlank : blank c = true
    · rw [rdropWhile_concat_pos _ _ _ isBlank, ih]
      refine (wordsBy_append_blanks text fun d member => ?_).symm
      rwa [mem_singleton.mp member]
    · rw [rdropWhile_concat_neg _ _ _ isBlank]

theorem blank_behind (text : List α) : ∀ c ∈ (text.dropWhile (!blank ·)).head?, blank c = true := by
  intro c first
  have stopped := head?_dropWhile_not (!blank ·) text
  rw [Option.mem_def.mp first] at stopped
  simpa using stopped

theorem wordsBy_front {text : List α} (starts : (text.takeWhile (!blank ·)) ≠ []) :
    wordsBy blank text = text.takeWhile (!blank ·) :: wordsBy blank (text.dropWhile (!blank ·)) := by
  have bare : ∀ c ∈ text.takeWhile (!blank ·), blank c = false := by
    intro c member
    simpa using mem_takeWhile_imp member
  have first := wordsBy_word bare starts (blank_behind text)
  rwa [takeWhile_append_dropWhile] at first

theorem wordsBy_eq_nil_iff {text : List α} : wordsBy blank text = [] ↔ ∀ c ∈ text, blank c = true := by
  constructor
  · intro none
    induction text with
    | nil => simp
    | cons c text ih =>
      by_cases isBlank : blank c = true
      · rw [wordsBy_cons_blank isBlank] at none
        intro d member
        rcases mem_cons.mp member with rfl | behind
        · exact isBlank
        · exact ih none d behind
      · have starts : (c :: text).takeWhile (!blank ·) ≠ [] := by
          rw [takeWhile_cons_of_pos (by simpa using isBlank)]
          exact cons_ne_nil _ _
        rw [wordsBy_front starts] at none
        cases none
  · intro allBlank
    have blanks := wordsBy_blanks_append allBlank []
    rwa [append_nil, wordsBy_nil] at blanks

end Yaz.Foundation
