import Yaz.Json.Writing

/-! A text that ends inside of a string is not accepted. -/

set_option autoImplicit false

namespace Yaz.Json
open List

/-- Where an octet stands: outside of strings, in one, behind its backslash, or before the last of the octets behind `\u`. -/
inductive Place where
  | outside
  | inside
  | escape
  | unicode (more : Nat)
  deriving DecidableEq

def Place.next : Place → UInt8 → Place
  | .outside, c => if c = 34 then .inside else .outside
  | .inside, c => if c = 34 then .outside else if c = 92 then .escape else .inside
  | .escape, c => if c = 117 then .unicode 3 else .inside
  | .unicode 0, _ => .inside
  | .unicode (more + 1), _ => .unicode more

def Leads (start : Place) (octets : List UInt8) (finish : Place) : Prop := 0 ∉ octets ∧ octets.foldl Place.next start = finish

instance (start finish : Place) (octets : List UInt8) : Decidable (Leads start octets finish) := inferInstanceAs (Decidable (_ ∧ _))

theorem Leads.append {start middle finish : Place} {front behind : List UInt8} (first : Leads start front middle)
    (second : Leads middle behind finish) : Leads start (front ++ behind) finish := by
  constructor
  · intro inside
    rcases mem_append.mp inside with inside | inside
    · exact first.1 inside
    · exact second.1 inside
  · rw [foldl_append, first.2, second.2]

def Cut (start : Place) (octets : List UInt8) : Prop := ∃ front behind, octets = front ++ 0 :: behind ∧ Leads start front .inside

variable {octets : List UInt8}

theorem Cut.append {start : Place} (isCut : Cut start octets) (more : List UInt8) : Cut start (octets ++ more) := by
  obtain ⟨front, behind, rfl, leads⟩ := isCut
  exact ⟨front, behind ++ more, by rw [append_assoc, cons_append], leads⟩

theorem Cut.behind {start middle : Place} {front : List UInt8} (leads : Leads start front middle) (isCut : Cut middle octets) :
    Cut start (front ++ octets) := by
  obtain ⟨inner, behind, rfl, more⟩ := isCut
  exact ⟨front ++ inner, behind, by rw [append_assoc], leads.append more⟩

theorem outside_noQuote (noQuote : 34 ∉ octets) : octets.foldl Place.next .outside = .outside := by
  induction octets with
  | nil => rfl
  | cons _ _ ih =>
    rw [mem_cons, not_or] at noQuote
    rw [foldl_cons, Place.next, if_neg (Ne.symm noQuote.1), ih noQuote.2]

theorem inside_chars {unicode : List UInt8 → Option (List UInt8)} {body out : List UInt8} (chars : Chars unicode body out) :
    body.foldl Place.next .inside = .inside := by
  induction chars with
  | nil => rfl
  | plain _ notQuote notBackslash _ ih => rw [foldl_cons, Place.next, if_neg notQuote, if_neg notBackslash, ih]
  | @escape c d body out escaped _ ih =>
    have notU : c ≠ 117 := by
      rintro rfl
      simp [simpleEscape] at escaped
    rw [foldl_cons, foldl_cons, show Place.next .inside 92 = .escape from rfl, Place.next, if_neg notU, ih]
  | @unicode four character body out length escaped _ ih =>
    rw [foldl_cons, foldl_cons, show Place.next (Place.next .inside 92) 117 = .unicode 3 from rfl, foldl_append]
    obtain ⟨a, b, c, d, rfl⟩ := length_eq_four.mp length
    exact ih

def endsOutside (octets : List UInt8) : Bool := octets.foldl Place.next .outside = .outside

theorem skips_endsOutside (unicode : List UInt8 → Option (List UInt8)) : Skips unicode endsOutside where
  outside := by
    intro octets rest noQuote
    rw [endsOutside, foldl_append, outside_noQuote noQuote, endsOutside]
  string := by
    intro body out rest chars
    rw [endsOutside, quoted, cons_append, foldl_cons, foldl_append, foldl_append,
      show Place.next .outside 34 = .inside from rfl, inside_chars chars]
    rfl

theorem jsonParse_cut {Number : Type} (strtod : List UInt8 → Nat × Number) {text : List UInt8} (leads : Leads .outside text .inside) :
    jsonParse strtod text = none := by
  cases parsed : jsonParse strtod text with
  | none => rfl
  | some =>
    have accepted : (jsonParserParse strtod [] text).isSome = true := by
      rw [← jsonParse, parsed]
      rfl
    obtain ⟨unit, isText⟩ := isJson_of_parsed ⟨leads.1, .inl rfl⟩ accepted
    have ends := isText.skipped (skips_endsOutside _)
    rw [endsOutside, leads.2] at ends
    cases ends

theorem writeChar_noNul {c : UInt8} (notNul : c ≠ 0) : 0 ∉ writeChar c := by
  have digits : ∀ n < 16, hexDigit n ≠ 0 := by decide
  have low := digits (c.toNat / 16 % 16) (by omega)
  have last := digits (c.toNat % 16) (by omega)
  have third := digits (c.toNat / 256 % 16) (by omega)
  have fourth := digits (c.toNat / 4096 % 16) (by omega)
  unfold writeChar
  split_ifs
  all_goals simp [Ne.symm low, Ne.symm last, Ne.symm third, Ne.symm fourth, Ne.symm notNul]

theorem leads_written (noNul : 0 ∉ octets) : Leads .inside (octets.flatMap writeChar) .inside := by
  constructor
  · intro inside
    obtain ⟨c, isOctet, written⟩ := mem_flatMap.mp inside
    exact writeChar_noNul (fun is => noNul (is ▸ isOctet)) written
  · exact inside_chars (chars_written noNul)

theorem cut_written (nul : 0 ∈ octets) : Cut .inside (octets.flatMap writeChar) := by
  obtain ⟨front, behind, rfl, noNul⟩ := eq_append_cons_of_mem nul
  refine ⟨front.flatMap writeChar, behind.flatMap writeChar, ?_, leads_written noNul⟩
  rw [flatMap_append, flatMap_cons, show writeChar 0 = [0] from rfl]
  rfl

end Yaz.Json
