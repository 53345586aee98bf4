import Yaz.Json.Accepting

/-! What the parser accepts is derived by the grammar.

An array goes on behind a list of elements that failed, so a value may be returned with an
error text. What is proved of every function is therefore about the error text at its end:
when there is none, there was none before and the value comes from the octets read.
-/

set_option autoImplicit false

namespace Yaz.Json
open List Yaz.Comstack

section
variable {Number : Type}

def Plain (subst : List (Int × Node Number)) (mem : List UInt8) : Prop := 0 ∉ mem ∧ (subst = [] ∨ 37 ∉ mem)

theorem Plain.behind {subst : List (Int × Node Number)} {front mem : List UInt8} (plain : Plain subst (front ++ mem)) :
    Plain subst mem := by
  obtain ⟨noNul, noPercent⟩ := plain
  constructor
  · exact fun inside => noNul (mem_append_right front inside)
  · rcases noPercent with none | absent
    · exact .inl none
    · exact .inr fun inside => absent (mem_append_right front inside)

def looseRules (Number : Type) : Rules Number := codeRules fun _ _ => True

end

/-! ### Outcomes -/

section
variable {Number α β : Type} {subst : List (Int × Node Number)} {p q : Parser}

/-- Without an error text at the end, the run from `p` gave a value that `denotes` the octets it has read. -/
def Outcome (subst : List (Int × Node Number)) (denotes : List UInt8 → α → Prop) (p : Parser)
    (result : Option α × Parser) : Prop :=
  result.2.errMsg = none → p.errMsg = none ∧ ∃ a, result.1 = some a ∧
    (Plain subst p.cp → ∃ text, p.cp = text ++ result.2.cp ∧ denotes text a)

variable {denotes : List UInt8 → α → Prop}

theorem Outcome.fail (message : String) : Outcome subst denotes p (none, q.fail message) := by
  intro noError
  simp [Parser.fail] at noError

theorem Outcome.done {a : α} (empty : denotes [] a) :
    Outcome subst denotes p (some a, p) :=
  fun noError => ⟨noError, a, rfl, fun _ => ⟨[], rfl, empty⟩⟩

theorem Outcome.failed {denotes' : List UInt8 → β → Prop} {result : Option β × Parser}
    (first : Outcome subst denotes p (none, q)) (kept : result.2.errMsg = none → q.errMsg = none) :
    Outcome subst denotes' p result := by
  intro noError
  obtain ⟨-, a, impossible, -⟩ := first (kept noError)
  simp at impossible

theorem Outcome.trans {denotes' combined : List UInt8 → β → Prop} {a : α}
    {result : Option β × Parser} (first : Outcome subst denotes p (some a, q)) (later : Outcome subst denotes' q result)
    (combine : ∀ front back b, denotes front a → denotes' back b → combined (front ++ back) b) :
    Outcome subst combined p result := by
  intro noError
  obtain ⟨between, b, gave, behind⟩ := later noError
  obtain ⟨before, a', same, front⟩ := first between
  refine ⟨before, b, gave, fun plain => ?_⟩
  obtain ⟨text, read, denoted⟩ := front plain
  rw [Option.some.injEq] at same
  subst same
  rw [read] at plain
  obtain ⟨text', read', denoted'⟩ := behind plain.behind
  refine ⟨text ++ text', ?_, combine text text' b denoted denoted'⟩
  rw [read, append_assoc, ← read']

variable {result : Option α × Parser}

theorem Outcome.mono {denotes' : List UInt8 → α → Prop}
    (outcome : Outcome subst denotes p result) (more : ∀ text a, denotes text a → denotes' text a) :
    Outcome subst denotes' p result := by
  intro noError
  obtain ⟨before, a, gave, read⟩ := outcome noError
  refine ⟨before, a, gave, fun plain => ?_⟩
  obtain ⟨text, same, denoted⟩ := read plain
  exact ⟨text, same, more text a denoted⟩

def andThen (result : Option α × Parser) (next : α → Parser → Option β × Parser) : Option β × Parser :=
  match result with
  | (none, q) => (none, q)
  | (some a, q) => next a q

@[simp] theorem andThen_none (q : Parser) (next : α → Parser → Option β × Parser) : andThen (none, q) next = (none, q) := rfl

@[simp] theorem andThen_some (a : α) (q : Parser) (next : α → Parser → Option β × Parser) :
    andThen (some a, q) next = next a q := rfl

theorem Outcome.bind {denotes' : α → List UInt8 → β → Prop}
    {next : α → Parser → Option β × Parser} (first : Outcome subst denotes p result)
    (later : ∀ a q, Outcome subst (denotes' a) q (next a q)) :
    Outcome subst (fun text b => ∃ a front back, text = front ++ back ∧ denotes front a ∧ denotes' a back b) p
      (andThen result next) := by
  rcases result with ⟨a, q⟩
  cases a with
  | none => exact first.failed id
  | some a => exact first.trans (later a q) fun front back b denoted denoted' => ⟨a, front, back, rfl, denoted, denoted'⟩

theorem Outcome.map (outcome : Outcome subst denotes p result)
    (f : α → β) :
    Outcome subst (fun text b => ∃ a, b = f a ∧ denotes text a) p
      (andThen result fun a q => (some (f a), q)) := by
  rcases result with ⟨a, q⟩
  cases a with
  | none => exact outcome.failed id
  | some a =>
    intro noError
    obtain ⟨before, a', same, read⟩ := outcome noError
    refine ⟨before, f a, rfl, fun plain => ?_⟩
    obtain ⟨text, front, denoted⟩ := read plain
    rw [Option.some.injEq] at same
    subst same
    exact ⟨text, front, a, rfl, denoted⟩

theorem AllBlank.append {front back : List UInt8} (first : AllBlank front) (later : AllBlank back) : AllBlank (front ++ back) := by
  intro c inside
  rcases mem_append.mp inside with before | behind
  · exact first c before
  · exact later c behind

theorem cp_look (p : Parser) : ∃ blank, AllBlank blank ∧ p.cp = blank ++ p.look.cp :=
  ⟨p.cp.takeWhile isBlank, all_eq_true.mp all_takeWhile, takeWhile_append_dropWhile.symm⟩

theorem Outcome.look (outcome : Outcome subst denotes p.look result) :
    Outcome subst (fun text a => ∃ blank rest, text = blank ++ rest ∧ AllBlank blank ∧ denotes rest a) p result := by
  obtain ⟨blank, allBlank, read⟩ := cp_look p
  have looked : Outcome subst (fun text (_ : Unit) => AllBlank text) p (some (), p.look) :=
    fun noError => ⟨noError, (), rfl, fun _ => ⟨blank, read, allBlank⟩⟩
  exact looked.trans outcome fun front back a isBlank denoted => ⟨front, back, rfl, isBlank, denoted⟩

theorem Outcome.move {c : UInt8}
    (first : p.cp.head? = some c) (outcome : Outcome subst denotes p.move result) :
    Outcome subst (fun text a => ∃ rest, text = c :: rest ∧ denotes rest a) p result := by
  have moved : Outcome subst (fun text (_ : Unit) => text = [c]) p (some (), p.move) := by
    intro noError
    refine ⟨noError, (), rfl, fun _ => ⟨[c], ?_, rfl⟩⟩
    cases read : p.cp with
    | nil => simp [read] at first
    | cons =>
      rw [read] at first
      simp only [head?_cons, Option.some.injEq] at first
      simp [Parser.move, read, first]
  exact moved.trans outcome fun front back a same denoted => ⟨back, by rw [same]; rfl, denoted⟩

end

section
variable {Number : Type} {subst : List (Int × Node Number)}

theorem jsonParseString_outcome (p : Parser) :
    Outcome subst (fun text octets => ∃ blank body, text = blank ++ quoted body ∧ AllBlank blank ∧
      Chars unicodeEscape body octets) p (jsonParseString p) := by
  have looked : Outcome subst (fun text octets => ∃ body, text = quoted body ∧ Chars unicodeEscape body octets) p.look
      (jsonParseString p) := by
    rw [jsonParseString]
    dsimp only
    split
    · exact .fail _
    next first =>
      have quote : p.look.cp.head? = some 34 := by simpa using first
      refine ((?_ : Outcome subst (fun text octets => ∃ body, text = body ++ [34] ∧ Chars unicodeEscape body octets)
        p.look.move _).move quote).mono ?_
      · split
        · exact .fail _
        next octets rest chars =>
          refine fun noError => ⟨noError, octets, rfl, fun plain => ?_⟩
          obtain ⟨body, same, isChars⟩ := chars_of_stringChars chars plain.1
          exact ⟨body ++ [34], by simp [same], body, rfl, isChars⟩
      · rintro text octets ⟨rest, rfl, body, rfl, chars⟩
        exact ⟨body, rfl, chars⟩
  refine looked.look.mono ?_
  rintro text octets ⟨blank, rest, rfl, isBlank, body, rfl, chars⟩
  exact ⟨blank, body, rfl, isBlank, chars⟩

theorem jsonParseNumber_outcome (strtod : List UInt8 → Nat × Number) (levels : Nat) (p : Parser) :
    Outcome subst (Value (looseRules Number) levels) p (jsonParseNumber strtod p) := by
  rw [jsonParseNumber]
  split
  · exact .fail _
  next rest read =>
    dsimp only
    split
    · exact .fail _
    · split
      · exact .fail _
      · intro noError
        refine ⟨noError, _, rfl, fun _ => ?_⟩
        obtain ⟨octets, same, isNumber⟩ := number_of_numberEnd read
        exact ⟨octets, same, .number isNumber trivial⟩

theorem jsonParseToken_outcome (levels : Nat) (p : Parser) :
    Outcome subst (Value (looseRules Number) levels) p (jsonParseToken subst p) := by
  have word : ∀ text : List UInt8, (p.cp.takeWhile isLower).take 7 = text → p.cp = text ++ p.cp.drop text.length := by
    intro text same
    have front : text <+: p.cp := same ▸ ( take_prefix 7 _).trans ( takeWhile_prefix isLower)
    exact (prefix_iff_eq_append.mp front).symm
  rw [jsonParseToken]
  split
  next percent =>
    dsimp only
    split
    next node found =>
      -- a substitution, in a text that has none
      refine fun noError => ⟨noError, node, rfl, fun plain => ?_⟩
      rcases plain.2 with none | absent
      · rw [none] at found
        simp at found
      · exact absurd (mem_of_mem_head? percent) absent
    · exact .fail _
  · dsimp only
    split
    next same => exact fun noError => ⟨noError, _, rfl, fun _ => ⟨_, by rw [same]; exact word _ same, .true⟩⟩
    · split
      next same => exact fun noError => ⟨noError, _, rfl, fun _ => ⟨_, by rw [same]; exact word _ same, .false⟩⟩
      · split
        next same => exact fun noError => ⟨noError, _, rfl, fun _ => ⟨_, by rw [same]; exact word _ same, .null⟩⟩
        · exact .fail _

/-! ### Containers -/

section
variable (value : Parser → Option (Node Number) × Parser)

theorem jsonParseElements_succ (rounds : Nat) (p : Parser) :
    jsonParseElements value (rounds + 1) p =
      if p.look.cp.head? = some 44 then
        andThen (value p.look.move) fun node q => andThen (jsonParseElements value rounds q) fun rest q => (some (.cons node rest), q)
      else (some .nil, p.look) := by
  rw [jsonParseElements]
  split
  · split
    next failed => rw [failed, andThen_none]
    next read =>
      rw [read, andThen_some]
      split <;> simp [*]
  · rfl

theorem jsonParseElementList_eq (p : Parser) :
    jsonParseElementList value p =
      andThen (value p) fun node q => andThen (jsonParseElements value q.cp.length q) fun rest q => (some (.cons node rest), q) := by
  rw [jsonParseElementList]
  split
  next failed => rw [failed, andThen_none]
  next read =>
    rw [read, andThen_some]
    split <;> simp [*]

theorem jsonParsePair_eq (p : Parser) :
    jsonParsePair value p =
      andThen (jsonParseString p) fun key q =>
        if q.look.cp.head? ≠ some 58 then (none, q.look.fail "missing :")
        else andThen (value q.look.move) fun node q => (some (key, node), q) := by
  rw [jsonParsePair]
  split
  next failed => rw [failed, andThen_none]
  next read =>
    rw [read, andThen_some]
    dsimp only
    split
    · rfl
    · split <;> simp [*]

theorem jsonParseMembers_succ (rounds : Nat) (p : Parser) :
    jsonParseMembers value (rounds + 1) p =
      if p.look.cp.head? = some 44 then
        andThen (jsonParsePair value p.look.move) fun pair q =>
          andThen (jsonParseMembers value rounds q) fun rest q => (some (.cons pair.1 pair.2 rest), q)
      else (some .nil, p.look) := by
  rw [jsonParseMembers]
  split
  · split
    next failed => rw [failed, andThen_none]
    next read =>
      rw [read, andThen_some]
      split <;> simp [*]
  · rfl

theorem jsonParseMemberList_eq (p : Parser) :
    jsonParseMemberList value p =
      andThen (jsonParsePair value p) fun pair q =>
        andThen (jsonParseMembers value q.cp.length q) fun rest q => (some (.cons pair.1 pair.2 rest), q) := by
  rw [jsonParseMemberList]
  split
  next failed => rw [failed, andThen_none]
  next read =>
    rw [read, andThen_some]
    split <;> simp [*]

end

def objectMembers (value : Option (Parser → Option (Node Number) × Parser)) (p : Parser) :
    Option (Members Number) × Parser :=
  if p.cp.head? ≠ some 125 then
    match value with
    | none => (none, p.fail "Too much nesting")
    | some value => jsonParseMemberList value p
  else (some .nil, p)

theorem jsonParseObject_eq (value : Option (Parser → Option (Node Number) × Parser)) (p : Parser) :
    jsonParseObject value p =
      if p.look.cp.head? ≠ some 123 then (none, p.look.fail "\x7b expected")
      else andThen (objectMembers value p.look.move.look) fun members q =>
        if q.look.cp.head? ≠ some 125 then (none, q.look.fail "Missing \x7d") else (some (.object members), q.look.move) := by
  rw [jsonParseObject]
  split
  · rfl
  · unfold objectMembers
    by_cases more : p.look.move.look.cp.head? ≠ some 125
    · simp only [if_pos more]
      cases value with
      | none => rfl
      | some value =>
        obtain ⟨list, q, read⟩ : ∃ list q, jsonParseMemberList value p.look.move.look = (list, q) := ⟨_, _, rfl⟩
        simp only [read]
        cases list <;> rfl
    · simp only [if_neg more]
      rfl

def Spaced (rules : Rules Number) (levels : Nat) (text : List UInt8) (node : Node Number) : Prop :=
  ∃ blank rest, text = blank ++ rest ∧ AllBlank blank ∧ Value rules levels rest node

def IsPair (rules : Rules Number) (levels : Nat) (text : List UInt8) (pair : List UInt8 × Node Number) : Prop :=
  ∃ before body between after value, text = before ++ (quoted body ++ (between ++ 58 :: (after ++ value))) ∧
    AllBlank before ∧ Chars rules.unicode body pair.1 ∧ AllBlank between ∧ AllBlank after ∧ Value rules levels value pair.2

section
variable {levels : Nat} {value : Parser → Option (Node Number) × Parser}
  (values : ∀ p, Outcome subst (Spaced (looseRules Number) levels) p (value p))
include values

theorem jsonParseElements_outcome (rounds : Nat) (p : Parser) :
    Outcome subst (fun text elements => ∃ tail behind, text = tail ++ behind ∧ AllBlank behind ∧
      ElementsTail (looseRules Number) levels tail elements) p (jsonParseElements value rounds p) := by
  induction rounds generalizing p with
  | zero => exact .done ⟨[], [], rfl, allBlank_nil, .nil⟩
  | succ _ ih =>
    rw [jsonParseElements_succ]
    split
    next comma =>
      have later := ((values p.look.move).bind fun node q => (ih q).map (Elements.cons node)).move comma
      refine later.look.mono ?_
      rintro text elements ⟨before, _, rfl, blankBefore, _, rfl, node, _, _, rfl, ⟨blank, first, rfl, isBlank, isValue⟩, rest,
        rfl, tail, behind, rfl, blankBehind, isTail⟩
      exact ⟨before ++ 44 :: (blank ++ (first ++ tail)), behind, by simp, blankBehind, .cons blankBefore isBlank isValue isTail⟩
    · have ends : Outcome subst (fun text (elements : Elements Number) => text = [] ∧ elements = .nil) p.look
          (some .nil, p.look) := .done ⟨rfl, rfl⟩
      refine ends.look.mono ?_
      rintro text elements ⟨blank, _, rfl, isBlank, rfl, rfl⟩
      exact ⟨[], blank, by simp, isBlank, .nil⟩

theorem jsonParseElementList_outcome (p : Parser) :
    Outcome subst (fun text elements => ∃ node rest before first tail behind, elements = .cons node rest ∧
      text = before ++ (first ++ (tail ++ behind)) ∧ AllBlank before ∧ Value (looseRules Number) levels first node ∧
      ElementsTail (looseRules Number) levels tail rest ∧ AllBlank behind) p (jsonParseElementList value p) := by
  rw [jsonParseElementList_eq]
  refine ((values p).bind fun node q => (jsonParseElements_outcome values q.cp.length q).map (Elements.cons node)).mono ?_
  rintro text elements ⟨node, _, _, rfl, ⟨before, first, rfl, isBlank, isValue⟩, rest, rfl, tail, behind, rfl, blankBehind, isTail⟩
  exact ⟨node, rest, before, first, tail, behind, rfl, by simp, isBlank, isValue, isTail, blankBehind⟩

theorem jsonParsePair_outcome (p : Parser) :
    Outcome subst (IsPair (looseRules Number) levels) p (jsonParsePair value p) := by
  rw [jsonParsePair_eq]
  have afterKey : ∀ key q, Outcome subst (fun text (pair : List UInt8 × Node Number) => ∃ between after first,
      text = between ++ 58 :: (after ++ first) ∧ pair.1 = key ∧ AllBlank between ∧ AllBlank after ∧
      Value (looseRules Number) levels first pair.2) q
      (if q.look.cp.head? ≠ some 58 then (none, q.look.fail "missing :")
        else andThen (value q.look.move) fun node q => (some (key, node), q)) := by
    intro key q
    split
    · exact .fail _
    next first =>
      have colon : q.look.cp.head? = some 58 := by simpa using first
      refine (((values q.look.move).map (Prod.mk key)).move colon).look.mono ?_
      rintro text pair ⟨between, _, rfl, blankBetween, _, rfl, node, rfl, after, first, rfl, blankAfter, isValue⟩
      exact ⟨between, after, first, rfl, rfl, blankBetween, blankAfter, isValue⟩
  refine ((jsonParseString_outcome p).bind afterKey).mono ?_
  rintro text ⟨_, node⟩ ⟨key, _, _, rfl, ⟨before, body, rfl, blankBefore, chars⟩, between, after, first, rfl, rfl, blankBetween,
    blankAfter, isValue⟩
  exact ⟨before, body, between, after, first, by simp, blankBefore, chars, blankBetween, blankAfter, isValue⟩

theorem jsonParseMembers_outcome (rounds : Nat) (p : Parser) :
    Outcome subst (fun text members => ∃ tail behind, text = tail ++ behind ∧ AllBlank behind ∧
      MembersTail (looseRules Number) levels tail members) p (jsonParseMembers value rounds p) := by
  induction rounds generalizing p with
  | zero => exact .done ⟨[], [], rfl, allBlank_nil, .nil⟩
  | succ _ ih =>
    rw [jsonParseMembers_succ]
    split
    next comma =>
      have later := ((jsonParsePair_outcome values p.look.move).bind fun pair q =>
        (ih q).map (Members.cons pair.1 pair.2)).move comma
      refine later.look.mono ?_
      rintro text members ⟨before, _, rfl, blankBefore, _, rfl, ⟨key, node⟩, _, _, rfl,
        ⟨blank, body, between, after, first, rfl, isBlank, chars, blankBetween, blankAfter, isValue⟩, rest, rfl, tail, behind,
        rfl, blankBehind, isTail⟩
      exact ⟨before ++ 44 :: (blank ++ (quoted body ++ (between ++ 58 :: (after ++ (first ++ tail))))), behind, by simp,
        blankBehind, .cons blankBefore isBlank chars blankBetween blankAfter isValue isTail⟩
    · have ends : Outcome subst (fun text (members : Members Number) => text = [] ∧ members = .nil) p.look
          (some .nil, p.look) := .done ⟨rfl, rfl⟩
      refine ends.look.mono ?_
      rintro text members ⟨blank, _, rfl, isBlank, rfl, rfl⟩
      exact ⟨[], blank, by simp, isBlank, .nil⟩

theorem jsonParseMemberList_outcome (p : Parser) :
    Outcome subst (fun text members => ∃ pair rest front tail behind, members = .cons pair.1 pair.2 rest ∧
      text = front ++ (tail ++ behind) ∧ IsPair (looseRules Number) levels front pair ∧
      MembersTail (looseRules Number) levels tail rest ∧ AllBlank behind) p (jsonParseMemberList value p) := by
  rw [jsonParseMemberList_eq]
  refine ((jsonParsePair_outcome values p).bind fun pair q =>
    (jsonParseMembers_outcome values q.cp.length q).map (Members.cons pair.1 pair.2)).mono ?_
  rintro text members ⟨pair, front, _, rfl, isPair, rest, rfl, tail, behind, rfl, blankBehind, isTail⟩
  exact ⟨pair, rest, front, tail, behind, rfl, rfl, isPair, isTail, blankBehind⟩

end

theorem spaced_look {p : Parser} {rules : Rules Number} {levels : Nat} {result : Option (Node Number) × Parser}
    (outcome : Outcome subst (Value rules levels) p.look result) : Outcome subst (Spaced rules levels) p result := outcome.look

def IsElements (rules : Rules Number) (levels : Nat) (text : List UInt8) (elements : Elements Number) : Prop :=
  (text = [] ∧ elements = .nil) ∨
    ∃ below node rest before first tail behind, levels = below + 1 ∧ elements = .cons node rest ∧
      text = before ++ (first ++ (tail ++ behind)) ∧ AllBlank before ∧ Value rules below first node ∧
      ElementsTail rules below tail rest ∧ AllBlank behind

def IsMembers (rules : Rules Number) (levels : Nat) (text : List UInt8) (members : Members Number) : Prop :=
  (text = [] ∧ members = .nil) ∨
    ∃ below pair rest front tail behind, levels = below + 1 ∧ members = .cons pair.1 pair.2 rest ∧
      text = front ++ (tail ++ behind) ∧ IsPair rules below front pair ∧ MembersTail rules below tail rest ∧ AllBlank behind

theorem closed_outcome {q : Parser} {c : UInt8} (node : Node Number) (closing : q.look.cp.head? = some c) :
    Outcome subst (fun text node' => ∃ behind, text = behind ++ [c] ∧ AllBlank behind ∧ node' = node) q
      (some node, q.look.move) := by
  have done : Outcome subst (fun text node' => text = [] ∧ node' = node) q.look.move (some node, q.look.move) :=
    .done ⟨rfl, rfl⟩
  refine (done.move closing).look.mono ?_
  rintro text node ⟨behind, _, rfl, isBlank, _, rfl, rfl, rfl⟩
  exact ⟨behind, rfl, isBlank, rfl⟩

section
variable {levels : Nat} {value : Option (Parser → Option (Node Number) × Parser)}
  (values : ∀ inner ∈ value, ∃ below, levels = below + 1 ∧ ∀ p, Outcome subst (Spaced (looseRules Number) below) p (inner p))
include values

theorem jsonParseArray_outcome (p : Parser) :
    Outcome subst (Spaced (looseRules Number) levels) p (jsonParseArray value p) := by
  apply spaced_look
  rw [jsonParseArray]
  split
  · exact .fail _
  next first =>
    have bracket : p.look.cp.head? = some 91 := by simpa using first
    cases value with
    | none => exact .fail _
    | some inner =>
      obtain ⟨below, rfl, inside⟩ := values inner rfl
      dsimp only
      have elements : Outcome subst (IsElements (looseRules Number) (below + 1)) p.look.move.look
          (if p.look.move.look.cp.head? ≠ some 93 then jsonParseElementList inner p.look.move.look
            else (some .nil, p.look.move.look)) := by
        split
        · refine (jsonParseElementList_outcome inside p.look.move.look).mono ?_
          rintro text elements ⟨node, rest, before, first, tail, behind, list⟩
          exact .inr ⟨below, node, rest, before, first, tail, behind, rfl, list⟩
        · exact .done (.inl ⟨rfl, rfl⟩)
      generalize (if p.look.move.look.cp.head? ≠ some 93 then jsonParseElementList inner p.look.move.look
        else (some Elements.nil, p.look.move.look)) = result at elements
      rcases result with ⟨list, q⟩
      have whole : Outcome subst (fun text node => ∃ front behind list, text = front ++ (behind ++ [93]) ∧
          IsElements (looseRules Number) (below + 1) front list ∧ AllBlank behind ∧ node = Node.array list) p.look.move.look
          (if q.look.cp.head? ≠ some 93 then (none, if q.look.errMsg.isNone then q.look.fail "expecting ]" else q.look)
            else (some (.array (list.getD .nil)), q.look.move)) := by
        split
        · -- no closing bracket: there is an error text
          intro noError
          split at noError
          · simp [Parser.fail] at noError
          next hasError =>
            rw [Option.isNone_iff_eq_none] at hasError
            exact absurd noError hasError
        next last =>
          have closing : q.look.cp.head? = some 93 := by simpa using last
          cases list with
          | none => exact elements.failed fun noError => noError
          | some list =>
            apply elements.trans (closed_outcome (.array list) closing)
            rintro front back node isElements ⟨behind, rfl, isBlank, rfl⟩
            exact ⟨front, behind, list, rfl, isElements, isBlank, rfl⟩
      refine (whole.look.move bracket).mono ?_
      rintro text node ⟨_, rfl, blank, _, rfl, isBlank, front, behind, list, rfl, isElements, blankBehind, rfl⟩
      rcases isElements with ⟨rfl, rfl⟩ | ⟨_, node, rest, before, first, tail, behind', same, rfl, rfl, blankBefore, isValue, isTail,
        blankBehind'⟩
      · have empty : Value (looseRules Number) (below + 1) (91 :: (blank ++ behind ++ [93])) (.array .nil) :=
          .emptyArray (isBlank.append blankBehind) (by simp)
        simpa using empty
      · obtain rfl := Nat.succ.inj same
        have array := Value.array (isBlank.append blankBefore) isValue isTail (blankBehind'.append blankBehind)
        simpa using array

theorem objectMembers_outcome (p : Parser) :
    Outcome subst (IsMembers (looseRules Number) levels) p (objectMembers value p) := by
  unfold objectMembers
  split
  · cases value with
    | none => exact .fail _
    | some inner =>
      obtain ⟨below, rfl, inside⟩ := values inner rfl
      refine (jsonParseMemberList_outcome inside p).mono ?_
      rintro text members ⟨pair, rest, front, tail, behind, list⟩
      exact .inr ⟨below, pair, rest, front, tail, behind, rfl, list⟩
  · exact .done (.inl ⟨rfl, rfl⟩)

theorem jsonParseObject_outcome (p : Parser) :
    Outcome subst (Spaced (looseRules Number) levels) p (jsonParseObject value p) := by
  apply spaced_look
  rw [jsonParseObject_eq]
  split
  · exact .fail _
  next first =>
    have brace : p.look.cp.head? = some 123 := by simpa using first
    have closed : ∀ (members : Members Number) (q : Parser),
        Outcome subst (fun text node => ∃ behind, text = behind ++ [125] ∧ AllBlank behind ∧ node = Node.object members) q
          (if q.look.cp.head? ≠ some 125 then (none, q.look.fail "Missing \x7d") else (some (.object members), q.look.move)) := by
      intro members q
      split
      · exact .fail _
      next last => exact closed_outcome (.object members) (by simpa using last)
    refine (((objectMembers_outcome values p.look.move.look).bind closed).look.move brace).mono ?_
    rintro text node ⟨_, rfl, blank, _, rfl, isBlank, list, front, _, rfl, isMembers, behind, rfl, blankBehind, rfl⟩
    rcases isMembers with ⟨rfl, rfl⟩ | ⟨below, ⟨key, node⟩, rest, _, tail, behind', rfl, rfl, rfl,
      ⟨before, body, between, after, first, rfl, blankBefore, chars, blankBetween, blankAfter, isValue⟩, isTail, blankBehind'⟩
    · have empty : Value (looseRules Number) levels (123 :: (blank ++ behind ++ [125])) (.object .nil) :=
        .emptyObject (isBlank.append blankBehind)
      simpa using empty
    · have object := Value.object (isBlank.append blankBefore) chars blankBetween blankAfter isValue isTail
        (blankBehind'.append blankBehind)
      simpa using object

end

theorem Spaced.before {rules : Rules Number} {levels : Nat} {blank text : List UInt8} {node : Node Number}
    (allBlank : AllBlank blank) (spaced : Spaced rules levels text node) : Spaced rules levels (blank ++ text) node := by
  obtain ⟨more, rest, rfl, isBlank, isValue⟩ := spaced
  exact ⟨blank ++ more, rest, by simp, allBlank.append isBlank, isValue⟩

theorem value_outcome (strtod : List UInt8 → Nat × Number) {levels : Nat}
    (values : ∀ inner ∈ innerValue strtod subst levels, ∃ below, levels = below + 1 ∧
      ∀ p, Outcome subst (Spaced (looseRules Number) below) p (inner p)) (p : Parser) :
    Outcome subst (Spaced (looseRules Number) levels) p (jsonParseValue strtod subst levels p) := by
  have looked : Outcome subst (Spaced (looseRules Number) levels) p.look (jsonParseValue strtod subst levels p) := by
    have exact' : ∀ text node, Value (looseRules Number) levels text node → Spaced (looseRules Number) levels text node :=
      fun text node isValue => ⟨[], text, rfl, allBlank_nil, isValue⟩
    rw [jsonParseValue_eq]
    split
    · have octets : Outcome subst _ p.look (jsonParseString p.look) := jsonParseString_outcome p.look
      have string : Outcome subst (Spaced (looseRules Number) levels) p.look
          (andThen (jsonParseString p.look) fun octets q => (some (Node.string octets : Node Number), q)) := by
        refine (octets.map _).mono ?_
        rintro text node ⟨octets, rfl, blank, body, rfl, isBlank, chars⟩
        exact ⟨blank, quoted body, rfl, isBlank, .string chars⟩
      generalize jsonParseString p.look = read at string ⊢
      rcases read with ⟨_ | octets, q⟩
      · exact string
      · exact string
    · split
      · exact (jsonParseNumber_outcome strtod levels p.look).mono exact'
      · split
        · exact jsonParseObject_outcome values p.look
        · split
          · exact jsonParseArray_outcome values p.look
          · exact (jsonParseToken_outcome levels p.look).mono exact'
  refine looked.look.mono ?_
  rintro text node ⟨blank, rest, rfl, isBlank, spaced⟩
  exact spaced.before isBlank

theorem jsonParseValue_outcome (strtod : List UInt8 → Nat × Number) (levels : Nat) (p : Parser) :
    Outcome subst (Spaced (looseRules Number) levels) p (jsonParseValue strtod subst levels p) := by
  induction levels generalizing p with
  | zero => exact value_outcome strtod (by simp [innerValue]) p
  | succ levels ih =>
    apply value_outcome strtod _ p
    intro inner same
    simp only [innerValue, Option.mem_def, Option.some.injEq] at same
    exact ⟨levels, rfl, same ▸ ih⟩

end

end Yaz.Json
