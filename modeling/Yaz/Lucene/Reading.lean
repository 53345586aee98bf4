import Mathlib.Data.List.Basic

/-! How a query in the syntax of Lucene is read: white space separates clauses, a backslash escapes the octet behind it, and `AND`, `OR`
and `NOT` are operators where they stand bare. A `/` is an octet of a word, and what stands between brackets is read as elsewhere.
-/

set_option autoImplicit false

namespace Yaz.Lucene
open List

structure Letter where
  octet : UInt8
  escaped : Bool
  deriving DecidableEq

inductive Token where
  | and
  | or
  | not
  | parenthesis (opens : Bool)
  | range (opens inclusive : Bool)
  | colon
  | word (letters : List Letter)
  | phrase (octets : List UInt8)
  | unterminated
  deriving DecidableEq

def bare (octets : List UInt8) : List Letter := octets.map fun octet => { octet, escaped := false }

def wordToken (letters : List Letter) : Token :=
  if letters = bare [65, 78, 68] then .and
  else if letters = bare [79, 82] then .or
  else if letters = bare [78, 79, 84] then .not
  else .word letters

def isSpace (c : UInt8) : Bool := c = 32 || c = 9 || c = 10 || c = 13

def separator (c : UInt8) : Option (List Token) :=
  if isSpace c then some []
  else if c = 40 then some [.parenthesis true]
  else if c = 41 then some [.parenthesis false]
  else if c = 91 then some [.range true true]
  else if c = 93 then some [.range false true]
  else if c = 123 then some [.range true false]
  else if c = 125 then some [.range false false]
  else if c = 58 then some [.colon]
  else none

/-- Where the reader is: between tokens, or in a word or a phrase, perhaps behind a backslash. -/
inductive State where
  | between
  | word (letters : List Letter)
  | wordEscape (letters : List Letter)
  | phrase (octets : List UInt8)
  | phraseEscape (octets : List UInt8)
  deriving DecidableEq

def grow (letters : List Letter) (c : UInt8) : State :=
  if c = 92 then .wordEscape letters else .word (letters ++ [{ octet := c, escaped := false }])

def step : State → UInt8 → State × List Token
  | .between, c =>
    match separator c with
    | some tokens => (.between, tokens)
    | none => if c = 34 then (.phrase [], []) else (grow [] c, [])
  | .word letters, c =>
    match separator c with
    | some tokens => (.between, wordToken letters :: tokens)
    | none => if c = 34 then (.phrase [], [wordToken letters]) else (grow letters c, [])
  | .wordEscape letters, c => (.word (letters ++ [{ octet := c, escaped := true }]), [])
  | .phrase octets, c =>
    if c = 34 then (.between, [.phrase octets]) else if c = 92 then (.phraseEscape octets, []) else (.phrase (octets ++ [c]), [])
  | .phraseEscape octets, c => (.phrase (octets ++ [c]), [])

def run : State → List UInt8 → State × List Token
  | s, [] => (s, [])
  | s, c :: text => ((run (step s c).1 text).1, (step s c).2 ++ (run (step s c).1 text).2)

def finish : State → List Token
  | .between => []
  | .word letters => [wordToken letters]
  | _ => [.unterminated]

def tokens (text : List UInt8) : List Token := (run .between text).2 ++ finish (run .between text).1

theorem run_append (s : State) (text rest : List UInt8) :
    run s (text ++ rest) = ((run (run s text).1 rest).1, (run s text).2 ++ (run (run s text).1 rest).2) := by
  induction text generalizing s with
  | nil => rfl
  | cons _ _ ih => simp [run, ih]

def Settled (text : List UInt8) (found : List Token) : Prop := run .between text = (.between, found)

instance (text : List UInt8) (found : List Token) : Decidable (Settled text found) := inferInstanceAs (Decidable (_ = _))

structure Whole (text : List UInt8) (found : List Token) : Prop where
  ends : (run .between text).1 = .between ∨ ∃ letters, (run .between text).1 = .word letters
  reads : tokens text = found

def StartsWithSeparator (text : List UInt8) : Prop := text = [] ∨ ∃ c rest, text = c :: rest ∧ (separator c).isSome = true

theorem Settled.whole {text : List UInt8} {found : List Token} (settled : Settled text found) : Whole text found where
  ends := .inl (by rw [settled])
  reads := by rw [tokens, settled, finish, append_nil]

variable {found later : List Token}

theorem Settled.append {text rest : List UInt8} (settled : Settled text found) (whole : Whole rest later) :
    Whole (text ++ rest) (found ++ later) := by
  have together := run_append .between text rest
  rw [settled] at together
  constructor
  · rw [together]
    exact whole.ends
  · rw [tokens, together, ← whole.reads, tokens, append_assoc]

variable {letters : List Letter}

theorem step_word {c : UInt8} (separates : (separator c).isSome = true) :
    step (.word letters) c = ((step .between c).1, wordToken letters :: (step .between c).2) := by
  obtain ⟨now, is⟩ := Option.isSome_iff_exists.mp separates
  rw [step, step, is]

theorem Whole.append {text rest : List UInt8} (whole : Whole text found) (starts : StartsWithSeparator rest)
    (behind : Whole rest later) : Whole (text ++ rest) (found ++ later) := by
  obtain ⟨ends, reads⟩ := whole
  rcases ends with between | ⟨letters, inWord⟩
  · have settled : Settled text found := Prod.ext between (by rw [← reads, tokens, between, finish, append_nil])
    exact settled.append behind
  · have together := run_append .between text rest
    rw [inWord] at together
    rcases starts with rfl | ⟨c, rest, rfl, separates⟩
    · have nothing : later = [] := by rw [← behind.reads]; rfl
      rw [nothing, append_nil, append_nil]
      exact ⟨.inr ⟨letters, inWord⟩, reads⟩
    · rw [run, step_word separates] at together
      constructor
      · rw [together]
        exact behind.ends
      · rw [← reads, ← behind.reads, tokens, tokens, tokens, together, inWord, run, finish]
        simp

/-- The parts of a query without the texts that are searched for: a word before a colon names a field. -/
inductive Mark where
  | field (letters : List Letter)
  | clause
  | token (token : Token)
  deriving DecidableEq

def marks : List Token → List Mark
  | [] => []
  | .word letters :: .colon :: rest => .field letters :: marks rest
  | .word _ :: rest => .clause :: marks rest
  | .phrase _ :: rest => .clause :: marks rest
  | token :: rest => .token token :: marks rest

def Token.isText : Token → Bool
  | .word _ => true
  | .phrase _ => true
  | _ => false

inductive Alike : List Token → List Token → Prop where
  | nil : Alike [] []
  | same {token : Token} {rest rest' : List Token} : Alike rest rest' → Alike (token :: rest) (token :: rest')
  | text {token token' : Token} {rest rest' : List Token} : token.isText = true → token'.isText = true → rest.head? ≠ some .colon →
      Alike rest rest' → Alike (token :: rest) (token' :: rest')

theorem Alike.refl (found : List Token) : Alike found found := by
  induction found with
  | nil => exact .nil
  | cons _ _ ih => exact .same ih

theorem Alike.append {found' later' : List Token} (first : Alike found found') (behind : Alike later later')
    (noColon : later.head? ≠ some .colon) : Alike (found ++ later) (found' ++ later') := by
  induction first with
  | nil => exact behind
  | same _ ih => exact .same ih
  | @text token token' rest rest' isText isText' before _ ih =>
    refine .text isText isText' ?_ ih
    cases rest with
    | nil => exact noColon
    | cons => exact before

theorem Alike.head {found' : List Token} (alike : Alike found found') (noColon : found.head? ≠ some .colon) :
    found'.head? ≠ some .colon := by
  cases alike with
  | nil => exact noColon
  | same => exact noColon
  | text _ isText' =>
    intro is
    rw [head?_cons, Option.some.injEq] at is
    rw [is] at isText'
    exact absurd isText' (by decide)

end Yaz.Lucene
