import Yaz.Cql.Prefixes
import Yaz.Cql.XcqlBuffer

/-! What of a CQL tree is in its XML, and when the XML is an element.

The pieces of the output are composed as the functions call each other; for each of them there is the forest that it tells.
-/

set_option autoImplicit false

namespace Yaz.Cql.Xcql
open List
open Yaz.Comstack (ascii)
open Yaz.Foundation.Element

def leaf (parent name : List UInt8) (text : Option (List UInt8)) : List Leaf :=
  text.toList.map fun text => { parent, name, text }

/-- The relation as it is shown: with a URI it is one of the context set `rel`. -/
def shownRelation (u : StStrings) : Option (List UInt8) :=
  u.relation.map fun relation => (if u.relationUri.isSome then ascii "rel." else []) ++ relation

def modifierParts : CqlNode → List Leaf
  | .st u modifiers _ =>
    leaf (ascii "modifier") (ascii "type") u.index ++
      (leaf (ascii "modifier") (ascii "comparison") u.relation ++
        (leaf (ascii "modifier") (ascii "value") u.term ++ modifierParts modifiers))
  | _ => []

def extraParts : CqlNode → List Leaf
  | .st u _ extraTerms => leaf (ascii "searchClause") (ascii "term") u.term ++ extraParts extraTerms
  | _ => []

def keyParts : CqlNode → List Leaf
  | .sort index next modifiers _ => leaf (ascii "key") (ascii "index") index ++ (modifierParts modifiers ++ keyParts next)
  | _ => []

def parts : CqlNode → List Leaf
  | .null => []
  | .st u modifiers extraTerms =>
    leaf (ascii "searchClause") (ascii "index") u.index ++
      (leaf (ascii "relation") (ascii "value") (shownRelation u) ++
        (modifierParts modifiers ++ (leaf (ascii "searchClause") (ascii "term") u.term ++ extraParts extraTerms)))
  | .boolean _ left right modifiers => modifierParts modifiers ++ (parts left ++ parts right)
  | .sort index next modifiers search => parts search ++ keyParts (.sort index next modifiers search)

def isPart (leaf : Leaf) : Bool :=
  [(ascii "searchClause", ascii "index"), (ascii "relation", ascii "value"), (ascii "modifier", ascii "type"),
    (ascii "modifier", ascii "comparison"), (ascii "modifier", ascii "value"), (ascii "searchClause", ascii "term"),
    (ascii "key", ascii "index")].contains (leaf.parent, leaf.name)

def booleans : CqlNode → Nat
  | .boolean _ left right _ => booleans left + booleans right + 1
  | .sort _ _ _ search => booleans search
  | _ => 0

def ShowsAll (text : List UInt8) (cn : CqlNode) : Prop :=
  ∃ name children, IsElement text name children ∧ (Xml.leaves [] (.element name children)).filter isPart = parts cn ∧
    (Xml.element name children).events.count (.start (ascii "leftOperand")) = booleans cn ∧
    (Xml.element name children).events.count (.start (ascii "rightOperand")) = booleans cn

/-- A relation with a URI beside an index without: `prefixes` starts what it does not end. -/
def unclosed : CqlNode → Nat
  | .st u _ _ => if u.indexUri.isNone && u.relationUri.isSome && u.relation.isSome then 1 else 0
  | .boolean _ left right _ => unclosed left + unclosed right
  | .sort _ _ _ search => unclosed search
  | .null => 0

def modifierStrings : CqlNode → List (List UInt8)
  | .st u modifiers _ => u.index.toList ++ (u.relation.toList ++ (u.term.toList ++ modifierStrings modifiers))
  | _ => []

def extraStrings : CqlNode → List (List UInt8)
  | .st u _ extraTerms => u.term.toList ++ extraStrings extraTerms
  | _ => []

def keyStrings : CqlNode → List (List UInt8)
  | .sort index next modifiers _ => index.toList ++ (modifierStrings modifiers ++ keyStrings next)
  | _ => []

def strings : CqlNode → List (List UInt8)
  | .null => []
  | .st u modifiers extraTerms =>
    u.indexUri.toList ++ (u.relationUri.toList ++ (u.index.toList ++ (u.relation.toList ++
      (modifierStrings modifiers ++ (u.term.toList ++ extraStrings extraTerms)))))
  | .boolean value left right modifiers => value.toList ++ (modifierStrings modifiers ++ (strings left ++ strings right))
  | .sort index next modifiers search => strings search ++ keyStrings (.sort index next modifiers search)

def IsModifiers : CqlNode → Prop
  | .null => True
  | .st u modifiers _ => u.index.isSome ∧ IsModifiers modifiers
  | _ => False

def IsExtraTerms : CqlNode → Prop
  | .null => True
  | .st u _ extraTerms => u.term.isSome ∧ IsExtraTerms extraTerms
  | _ => False

def IsSearch : CqlNode → Prop
  | .st u modifiers extraTerms =>
    (u.index.isSome ∧ u.relation.isSome ∧ u.term.isSome) ∧ IsModifiers modifiers ∧ IsExtraTerms extraTerms
  | .boolean value left right modifiers => value.isSome ∧ IsModifiers modifiers ∧ IsSearch left ∧ IsSearch right
  | _ => False

def IsKeys : CqlNode → Prop
  | .null => True
  | .sort index next modifiers _ => index.isSome ∧ IsModifiers modifiers ∧ IsKeys next
  | _ => False

theorem Modifiers.isModifiers (modifiers : Modifiers) : IsModifiers modifiers.cql := by
  induction modifiers with
  | none => trivial
  | named _ _ ih => exact ⟨rfl, ih⟩
  | valued _ _ _ _ ih => exact ⟨rfl, ih⟩

theorem Modifiers.isModifiers_in (around : List Assignment) (modifiers : Modifiers) : IsModifiers (modifiers.cqlIn around) := by
  induction modifiers with
  | none => trivial
  | named _ _ ih => exact ⟨rfl, ih⟩
  | valued _ _ _ _ ih => exact ⟨rfl, ih⟩

theorem ExtraTerms.isExtraTerms (extra : ExtraTerms) : IsExtraTerms extra.cql := by
  induction extra with
  | none => trivial
  | more _ _ ih => exact ⟨rfl, ih⟩

mutual
theorem CqlQuery.isSearch (around : List Assignment) (rel : Rel) (query : CqlQuery) : IsSearch (query.cqlIn around rel) := by
  match query with
  | .scoped clause => exact ScopedClause.isSearch around rel clause
  | .assigned name uri query => exact CqlQuery.isSearch _ rel query
  | .unnamed uri query => exact CqlQuery.isSearch _ rel query

theorem ScopedClause.isSearch (around : List Assignment) (rel : Rel) (clause : ScopedClause) : IsSearch (clause.cqlIn around rel) := by
  match clause with
  | .single clause => exact SearchClause.isSearch around rel clause
  | .boolean left op modifiers right =>
    exact ⟨rfl, Modifiers.isModifiers modifiers, ScopedClause.isSearch around rel left, SearchClause.isSearch around rel right⟩

theorem SearchClause.isSearch (around : List Assignment) (rel : Rel) (clause : SearchClause) : IsSearch (clause.cqlIn around rel) := by
  match clause with
  | .parenthesized query => exact CqlQuery.isSearch around rel query
  | .terms term extra => exact ⟨⟨rfl, rfl, rfl⟩, Modifiers.isModifiers_in around rel.modifiers, ExtraTerms.isExtraTerms extra⟩
  | .related index relation modifiers clause => exact SearchClause.isSearch around _ clause
end

theorem Top.shape (top : Top) :
    IsSearch top.cql ∨ ∃ index next modifiers search, top.cql = .sort index next modifiers search ∧
      IsKeys (.sort index next modifiers search) ∧ IsSearch search := by
  have search : IsSearch (top.query.cql serverChoice) := by
    have inside : top.query.cql serverChoice = top.query.cqlIn [] serverChoiceRel := top.query.cql_eq_cqlIn serverChoiceRel
    rw [inside]
    exact CqlQuery.isSearch [] serverChoiceRel top.query
  rw [Top.cql]
  cases top.sortby with
  | none => exact .inl search
  | some sortSpec =>
    obtain ⟨first, rest, -, cql⟩ := sortSpec.cql_eq
    refine .inr ⟨_, _, _, _, by dsimp only; rw [cql]; rfl, ⟨rfl, Modifiers.isModifiers first.modifiers, ?_⟩, search⟩
    cases rest.getLast? with
    | none => trivial
    | some last => exact ⟨rfl, Modifiers.isModifiers last.modifiers, trivial⟩

/-! ### Pieces -/

def isOperand (event : Event) : Bool := event = .start (ascii "leftOperand") || event = .start (ascii "rightOperand")

def clean (strings : List (List UInt8)) : Bool := strings.all fun text => text.all isCharacter

structure Emits (pieces strings : List (List UInt8)) (events : List Event) : Prop where
  short : ∀ piece ∈ pieces, piece.length ≤ 32
  characters : pieces.flatten.all isCharacter = clean strings
  tells : Tells pieces.flatten events
  noOperand : events.any isOperand = false

theorem clean_append (first second : List (List UInt8)) : clean (first ++ second) = (clean first && clean second) := all_append

theorem emits_nil : Emits [] [] [] :=
  { short := fun _ mem => (nomatch mem), characters := rfl, tells := tells_nil, noOperand := rfl }

theorem Emits.append {first second strings strings' : List (List UInt8)} {events events' : List Event}
    (one : Emits first strings events) (two : Emits second strings' events') :
    Emits (first ++ second) (strings ++ strings') (events ++ events') where
  short piece mem := (mem_append.mp mem).elim (one.short piece) (two.short piece)
  characters := by rw [flatten_append, all_append, one.characters, two.characters, clean_append]
  tells := by
    rw [flatten_append]
    exact one.tells.append two.tells
  noOperand := by rw [any_append, one.noOperand, two.noOperand, Bool.or_false]

theorem Emits.strings {pieces strings strings' : List (List UInt8)} {events : List Event} (emits : Emits pieces strings events)
    (same : clean strings = clean strings') : Emits pieces strings' events :=
  { emits with characters := emits.characters.trans same }

def IsTag (name : List UInt8) : Prop :=
  IsName name ∧ name.length ≤ 16 ∧ name ≠ ascii "leftOperand" ∧ name ≠ ascii "rightOperand"

instance (name : List UInt8) : Decidable (IsTag name) := inferInstanceAs (Decidable (_ ∧ _))

theorem isCharacter_of_isLetter {c : UInt8} (letter : isLetter c = true) : isCharacter c = true := by
  have low : (32 : UInt8) ≤ c := by
    simp only [isLetter, Bool.or_eq_true, Bool.and_eq_true, decide_eq_true_iff, UInt8.le_iff_toNat_le] at letter ⊢
    rcases letter with upper | lower
    · exact Nat.le_trans (by decide) upper.1
    · exact Nat.le_trans (by decide) lower.1
  simp [isCharacter, low]

def blanks (level : Nat) : List Xml := (List.replicate level 32).map .char

variable (level : Nat)

theorem emits_blanks : Emits (List.replicate level [32]) [] (eventsOf (blanks level)) where
  short piece mem := by
    rw [eq_of_mem_replicate mem]
    decide
  characters := by
    rw [all_flatten]
    exact all_eq_true.mpr fun piece mem => by
      rw [eq_of_mem_replicate mem]
      rfl
  tells := by
    have flat : (List.replicate level ([32] : List UInt8)).flatten = List.replicate level 32 := by
      rw [flatten_replicate_singleton]
    rw [flat, blanks, eventsOf_chars]
    exact tells_plain fun c mem => by
      rw [eq_of_mem_replicate mem]
      decide
  noOperand := by
    rw [blanks, eventsOf_chars]
    simp [isOperand]

theorem emits_prN {buf : List UInt8} {events : List Event} (one : Emits [buf] [] events) :
    Emits (prN buf level) [] (eventsOf (blanks level) ++ events) := (emits_blanks level).append one

variable {name : List UInt8}

theorem all_isCharacter (tag : IsTag name) : name.all isCharacter = true :=
  all_eq_true.mpr fun c mem => isCharacter_of_isLetter (tag.1.2 c mem)

theorem noOperand_start (tag : IsTag name) : isOperand (.start name) = false := by
  simp [isOperand, tag.2.2.1, tag.2.2.2]

theorem emits_tag {piece : List UInt8} {event : Event} (short : piece.length < 32) (characters : piece.all isCharacter = true)
    (tells : Tells piece [event]) (noOperand : isOperand event = false) : Emits [piece] [] [event] where
  short other mem := by
    rw [mem_singleton.mp mem]
    exact Nat.le_of_lt short
  characters := by
    rw [flatten_singleton, characters]
    rfl
  tells := by
    rw [flatten_singleton]
    exact tells
  noOperand := by rw [any_cons, noOperand, any_nil, Bool.or_false]

theorem Emits.line {piece : List UInt8} {event : Event} (emits : Emits [piece] [] [event]) (short : piece.length < 32) :
    Emits [piece ++ [10]] [] [event, .char 10] where
  short other mem := by
    rw [mem_singleton.mp mem, length_append]
    exact short
  characters := by
    have characters := emits.characters
    rw [flatten_singleton] at characters ⊢
    rw [all_append, characters]
    rfl
  tells := by
    have tells := emits.tells
    rw [flatten_singleton] at tells ⊢
    exact tells.append (tells_char (by decide))
  noOperand := by
    have noOperand := emits.noOperand
    rw [any_cons, any_nil, Bool.or_false] at noOperand
    rw [any_cons, noOperand]
    rfl

theorem startTag_length (tag : IsTag name) : (startTag name).length < 32 := by
  have := tag.2.1
  rw [startTag, length_cons, length_append, length_singleton]
  omega

theorem endTag_length (tag : IsTag name) : (endTag name).length < 32 := by
  have := tag.2.1
  rw [endTag, length_cons, length_cons, length_append, length_singleton]
  omega

theorem emits_start (tag : IsTag name) : Emits [startTag name] [] [.start name] := by
  refine emits_tag (startTag_length tag) ?_ (tells_startTag tag.1) (noOperand_start tag)
  rw [startTag, all_cons, all_append, all_isCharacter tag]
  rfl

theorem emits_stop (tag : IsTag name) : Emits [endTag name] [] [.stop name] := by
  refine emits_tag (endTag_length tag) ?_ (tells_endTag tag.1) rfl
  rw [endTag, all_cons, all_cons, all_append, all_isCharacter tag]
  rfl

theorem emits_startLine (tag : IsTag name) : Emits [startTag name ++ [10]] [] [.start name, .char 10] :=
  (emits_start tag).line (startTag_length tag)

theorem emits_stopLine (tag : IsTag name) : Emits [endTag name ++ [10]] [] [.stop name, .char 10] :=
  (emits_stop tag).line (endTag_length tag)

theorem prCdata_eq (buf : List UInt8) : prCdata buf = buf.map escaped := rfl

theorem escaped_length (c : UInt8) : (escaped c).length ≤ 32 := by
  unfold escaped
  split_ifs <;> simp

theorem emits_prCdata (buf : List UInt8) : Emits (prCdata buf) [buf] (buf.map .char) where
  short piece mem := by
    obtain ⟨c, -, rfl⟩ := mem_map.mp mem
    exact escaped_length c
  characters := by
    rw [prCdata_eq, ← flatMap_def, escaped_all, clean, all_cons, all_nil, Bool.and_true]
  tells := by
    rw [prCdata_eq, ← flatMap_def]
    exact tells_text buf
  noOperand := by simp [isOperand]

/-! ### Forests -/

def Prints (parent : List UInt8) (pieces strings : List (List UInt8)) (leaves : List Leaf) : Prop :=
  ∃ forest, Emits pieces strings (eventsOf forest) ∧ leavesOf parent forest = leaves

variable (parent : List UInt8)

theorem prints_nil : Prints parent [] [] [] := ⟨[], emits_nil, rfl⟩

theorem Prints.append {parent : List UInt8} {first second strings strings' : List (List UInt8)} {leaves leaves' : List Leaf}
    (one : Prints parent first strings leaves) (two : Prints parent second strings' leaves') :
    Prints parent (first ++ second) (strings ++ strings') (leaves ++ leaves') := by
  obtain ⟨forest, emits, rfl⟩ := one
  obtain ⟨forest', emits', rfl⟩ := two
  refine ⟨forest ++ forest', ?_, leavesOf_append parent forest forest'⟩
  rw [eventsOf_append]
  exact emits.append emits'

theorem Prints.strings {parent : List UInt8} {pieces strings strings' : List (List UInt8)} {leaves : List Leaf}
    (prints : Prints parent pieces strings leaves) (same : clean strings = clean strings') : Prints parent pieces strings' leaves := by
  obtain ⟨forest, emits, shown⟩ := prints
  exact ⟨forest, emits.strings same, shown⟩

theorem Prints.emits {parent : List UInt8} {pieces strings : List (List UInt8)} {leaves : List Leaf}
    (prints : Prints parent pieces strings leaves) : ∃ events, Emits pieces strings events ∧ surplus events = 0 := by
  obtain ⟨forest, emits, -⟩ := prints
  exact ⟨_, emits, surplus_eventsOf forest⟩

theorem prints_text (tag : IsTag name) (level : Nat) (text : List UInt8) :
    Prints parent (prText name level (prCdata text)) [text] [{ parent, name, text }] := by
  refine ⟨blanks level ++ [.element name (text.map .char), .char 10], ?_, ?_⟩
  · have emits := (emits_prN level (emits_start tag)).append ((emits_prCdata text).append (emits_prN 0 (emits_stopLine tag)))
    rw [eventsOf_append, prText]
    simpa [eventsOf, Xml.events, eventsOf_chars, blanks] using emits
  · rw [leavesOf_append, blanks, leavesOf_chars, leavesOf, leaves_text]
    rfl

theorem Emits.block (tag : IsTag name) (level : Nat) {inner strings : List (List UInt8)} {events : List Event}
    (emits : Emits inner strings events) :
    Emits (prBlock name level inner) strings
      (eventsOf (blanks level) ++ ([.start name, .char 10] ++ (events ++ (eventsOf (blanks level) ++ [.stop name, .char 10])))) := by
  have lines := (emits_prN level (emits_startLine tag)).append (emits.append (emits_prN level (emits_stopLine tag)))
  rw [nil_append, append_nil, append_assoc] at lines
  exact lines

def blockOf (name : List UInt8) (level : Nat) (forest : List Xml) : Xml := .element name (.char 10 :: (forest ++ blanks level))

theorem blockOf_leaves (parent name : List UInt8) (level : Nat) {forest : List Xml} (some : leavesOf name forest ≠ []) :
    (blockOf name level forest).leaves parent = leavesOf name forest := by
  have children : leavesOf name (.char 10 :: (forest ++ blanks level)) = leavesOf name forest := by
    rw [leavesOf, leavesOf_append, blanks, leavesOf_chars, append_nil]
    rfl
  rw [blockOf, leaves_element parent name (children ▸ some), children]

theorem Emits.blockOf (tag : IsTag name) (level : Nat) {inner strings : List (List UInt8)} {forest : List Xml}
    (emits : Emits inner strings (eventsOf forest)) :
    Emits (prBlock name level inner) strings (eventsOf (blanks level) ++ (blockOf name level forest).events ++ [.char 10]) := by
  have lines := emits.block tag level
  simpa [Xcql.blockOf, eventsOf, Xml.events, eventsOf_append] using lines

theorem Prints.block (tag : IsTag name) (level : Nat) {inner strings : List (List UInt8)}
    {leaves : List Leaf} (prints : Prints name inner strings leaves) (some : leaves ≠ []) :
    Prints parent (prBlock name level inner) strings leaves := by
  obtain ⟨forest, emits, rfl⟩ := prints
  refine ⟨blanks level ++ [blockOf name level forest, .char 10], ?_, ?_⟩
  · have lines := emits.blockOf tag level
    rw [append_assoc] at lines
    rw [eventsOf_append, eventsOf, eventsOf, eventsOf, append_nil]
    exact lines
  · rw [leavesOf_append, blanks, leavesOf_chars, nil_append, leavesOf, blockOf_leaves parent name level some, leavesOf, leavesOf,
      Xml.leaves, append_nil, append_nil]

theorem Prints.isElement (tag : IsTag name) (level : Nat) {inner strings : List (List UInt8)} {leaves : List Leaf}
    (prints : Prints name inner strings leaves) (some : leaves ≠ []) (plain : clean strings = true) :
    ∃ children, IsElement (prBlock name level inner).flatten name children ∧ Xml.leaves [] (.element name children) = leaves ∧
      (Xml.element name children).events.any isOperand = false := by
  obtain ⟨forest, emits, rfl⟩ := prints
  have lines := emits.blockOf tag level
  have noOperand := lines.noOperand
  rw [any_append, any_append, Bool.or_eq_false_iff, Bool.or_eq_false_iff] at noOperand
  refine ⟨.char 10 :: (forest ++ blanks level), ⟨lines.characters.trans plain, List.replicate level 32, [10], ?_, ?_⟩, ?_, noOperand.1.2⟩
  · simp [isWhite]
  · have tells := lines.tells
    rw [blanks, eventsOf_chars] at tells
    exact tells
  · exact blockOf_leaves [] name level some

theorem prints_optional (tag : IsTag name) (level : Nat) (text : Option (List UInt8)) :
    Prints parent (prOptional name level text) text.toList (leaf parent name text) := by
  cases text with
  | none => exact prints_nil parent
  | some text => exact prints_text parent tag level text

theorem leaf_some {parent : List UInt8} {text : Option (List UInt8)} (some : text.isSome = true) : leaf parent name text ≠ [] := by
  obtain ⟨text, rfl⟩ := Option.isSome_iff_exists.mp some
  exact cons_ne_nil _ _

variable {u : StStrings}

theorem modifierParts_some {modifiers extraTerms : CqlNode} (is : IsModifiers (.st u modifiers extraTerms)) :
    modifierParts (.st u modifiers extraTerms) ≠ [] :=
  fun none => leaf_some is.1 (append_eq_nil_iff.mp none).1

theorem prints_modLoop (m : CqlNode) (is : IsModifiers m) :
    Prints (ascii "modifiers") (modLoop level m) (modifierStrings m) (modifierParts m) := by
  induction m with
  | null => exact prints_nil _
  | st u modifiers _ ih =>
    obtain ⟨type, rest⟩ := is
    obtain ⟨index, indexed⟩ := Option.isSome_iff_exists.mp type
    have one := prints_optional (ascii "modifier") (by decide : IsTag (ascii "type")) (level + 4) u.index
    have inner := one.append ((prints_optional (ascii "modifier") (by decide : IsTag (ascii "comparison")) (level + 4) u.relation).append
      (prints_optional (ascii "modifier") (by decide : IsTag (ascii "value")) (level + 4) u.term))
    have block := inner.block (ascii "modifiers") (by decide) (level + 2) fun none => leaf_some type (append_eq_nil_iff.mp none).1
    have all := block.append (ih rest)
    rw [modLoop, modifierStrings, modifierParts]
    rw [indexed] at all ⊢
    simpa only [append_assoc, Option.getD_some, prOptional, Option.elim_some] using all
  | boolean => exact is.elim
  | sort => exact is.elim

theorem prints_cqlToXmlMod (m : CqlNode) (level : Nat) (is : IsModifiers m) :
    Prints parent (cqlToXmlMod m level) (modifierStrings m) (modifierParts m) := by
  cases m with
  | null => exact prints_nil parent
  | st => exact (prints_modLoop level _ is).block parent (by decide) level (modifierParts_some is)
  | boolean => exact is.elim
  | sort => exact is.elim

theorem prints_sortLoop (cn : CqlNode) (is : IsKeys cn) :
    Prints (ascii "sortKeys") (sortLoop level cn) (keyStrings cn) (keyParts cn) := by
  induction cn with
  | null => exact prints_nil _
  | sort index _ modifiers _ ih =>
    obtain ⟨some, modified, rest⟩ := is
    obtain ⟨index, rfl⟩ := Option.isSome_iff_exists.mp some
    have inner := (prints_text (ascii "key") (by decide : IsTag (ascii "index")) (level + 4) index).append
      (prints_cqlToXmlMod (ascii "key") modifiers (level + 6) modified)
    have block := inner.block (ascii "sortKeys") (by decide) (level + 2) (cons_ne_nil _ _)
    have all := block.append (ih rest)
    exact all
  | st => exact is.elim
  | boolean => exact is.elim

theorem prints_cqlSortToXml (cn : CqlNode) (level : Nat) (is : IsKeys cn) :
    Prints parent (cqlSortToXml cn level) (keyStrings cn) (keyParts cn) := by
  cases cn with
  | null => exact prints_nil parent
  | sort index next modifiers search =>
    have some : keyParts (.sort index next modifiers search) ≠ [] := fun none => leaf_some is.1 (append_eq_nil_iff.mp none).1
    exact (prints_sortLoop level _ is).block parent (by decide) level some
  | st => exact is.elim
  | boolean => exact is.elim

theorem prints_extraTermsLoop (cn : CqlNode) (is : IsExtraTerms cn) :
    Prints (ascii "searchClause") (extraTermsLoop level cn) (extraStrings cn) (extraParts cn) := by
  induction cn with
  | null => exact prints_nil _
  | st _ _ _ _ ih =>
    obtain ⟨some, rest⟩ := is
    obtain ⟨term, given⟩ := Option.isSome_iff_exists.mp some
    have all := (prints_text (ascii "searchClause") (by decide : IsTag (ascii "term")) level term).append (ih rest)
    rw [extraTermsLoop, extraStrings, extraParts, given]
    exact all
  | boolean => exact is.elim
  | sort => exact is.elim

def relationLeaves (u : StStrings) (modifiers : CqlNode) : List Leaf :=
  leaf (ascii "relation") (ascii "value") (shownRelation u) ++
    (leaf (ascii "relation") (ascii "identifier") u.relationUri ++ modifierParts modifiers)

theorem prints_prRelation {modifiers : CqlNode} (some : u.relation.isSome = true) (is : IsModifiers modifiers) (level : Nat) :
    Prints (ascii "searchClause") (prRelation u modifiers level)
      ((shownRelation u).toList ++ (u.relationUri.toList ++ modifierStrings modifiers)) (relationLeaves u modifiers) := by
  obtain ⟨relation, given⟩ := Option.isSome_iff_exists.mp some
  have shown : shownRelation u = Option.some ((if u.relationUri.isSome then ascii "rel." else []) ++ relation) := by
    rw [shownRelation, given, Option.map_some]
  have value : (if u.relationUri.isSome then prCdata (ascii "rel.") else []) ++ prCdata relation =
      prCdata ((if u.relationUri.isSome then ascii "rel." else []) ++ relation) := by
    rw [prCdata_eq, prCdata_eq, prCdata_eq, map_append]
    split_ifs <;> rfl
  have inner := (prints_text (ascii "relation") (by decide : IsTag (ascii "value")) (level + 2)
      ((if u.relationUri.isSome then ascii "rel." else []) ++ relation)).append
    ((prints_optional (ascii "relation") (by decide : IsTag (ascii "identifier")) (level + 2) u.relationUri).append
      (prints_cqlToXmlMod (ascii "relation") modifiers (level + 2) is))
  have block := inner.block (ascii "searchClause") (by decide) level (cons_ne_nil _ _)
  rw [prRelation, given, Option.elim_some, value, relationLeaves, shown]
  exact block

def prefixLeaves (u : StStrings) : List Leaf :=
  leaf (ascii "prefix") (ascii "identifier") u.indexUri ++
    (leaf (ascii "prefix") (ascii "name") (u.relationUri.map fun _ => ascii "rel") ++
      leaf (ascii "prefix") (ascii "identifier") u.relationUri)

theorem prints_indexPrefix (uri : List UInt8) :
    Prints (ascii "prefixes") (prBlock (ascii "prefix") level (prText (ascii "identifier") (level + 2) (prCdata uri))) [uri]
      [{ parent := ascii "prefix", name := ascii "identifier", text := uri }] :=
  (prints_text (ascii "prefix") (by decide : IsTag (ascii "identifier")) (level + 2) uri).block _ (by decide) level (cons_ne_nil _ _)

theorem prints_relationPrefix (uri : List UInt8) :
    Prints (ascii "prefixes")
      (prBlock (ascii "prefix") level
        (prText (ascii "name") (level + 2) (prCdata (ascii "rel")) ++ prText (ascii "identifier") (level + 2) (prCdata uri)))
      [uri]
      [{ parent := ascii "prefix", name := ascii "name", text := ascii "rel" },
        { parent := ascii "prefix", name := ascii "identifier", text := uri }] := by
  have inner := (prints_text (ascii "prefix") (by decide : IsTag (ascii "name")) (level + 2) (ascii "rel")).append
    (prints_text (ascii "prefix") (by decide : IsTag (ascii "identifier")) (level + 2) uri)
  exact (inner.block _ (by decide) level (cons_ne_nil _ _)).strings rfl

theorem prefixes_some {uri relation : List UInt8} (given : u.indexUri = some uri) (related : u.relation = some relation)
    (level : Nat) : prefixes u level =
      prBlock (ascii "prefixes") level
        (prBlock (ascii "prefix") (level + 2) (prText (ascii "identifier") (level + 4) (prCdata uri)) ++
          u.relationUri.elim [] fun uri => prBlock (ascii "prefix") (level + 2)
            (prText (ascii "name") (level + 4) (prCdata (ascii "rel")) ++ prText (ascii "identifier") (level + 4) (prCdata uri))) := by
  rw [prefixes, given, related, prBlock]
  cases u.relationUri with
  | none => simp [append_assoc]
  | some => simp [append_assoc]

theorem prints_prefixes (some : u.relation.isSome = true) (closed : u.indexUri.isSome = true ∨ u.relationUri = none)
    (level : Nat) : Prints (ascii "searchClause") (prefixes u level) (u.indexUri.toList ++ u.relationUri.toList) (prefixLeaves u) := by
  obtain ⟨relation, related⟩ := Option.isSome_iff_exists.mp some
  cases given : u.indexUri with
  | none =>
    rw [given] at closed
    have noUri := closed.resolve_left Bool.false_ne_true
    rw [prefixes, prefixLeaves, given, noUri]
    exact prints_nil _
  | some uri =>
    have one := prints_indexPrefix (level + 2) uri
    rw [prefixes_some given related, prefixLeaves, given]
    cases u.relationUri with
    | none => exact (one.append (prints_nil _)).block _ (by decide) level (cons_ne_nil _ _)
    | some uri' => exact (one.append (prints_relationPrefix (level + 2) uri')).block _ (by decide) level (cons_ne_nil _ _)

theorem surplus_blanks : surplus (eventsOf (blanks level)) = 0 := surplus_eventsOf _

theorem emits_prefixes (some : u.relation.isSome = true) (modifiers extraTerms : CqlNode) (level : Nat) :
    ∃ events, Emits (prefixes u level) (u.indexUri.toList ++ u.relationUri.toList) events ∧
      surplus events = unclosed (.st u modifiers extraTerms) := by
  by_cases closed : u.indexUri.isSome = true ∨ u.relationUri = none
  · obtain ⟨events, emits, balanced⟩ := (prints_prefixes some closed level).emits
    refine ⟨events, emits, balanced.trans ?_⟩
    have not : (u.indexUri.isNone && u.relationUri.isSome && u.relation.isSome) = false := by
      rcases closed with given | none
      · rw [← Option.not_isSome, given]
        rfl
      · rw [none]
        simp
    rw [unclosed, not]
    rfl
  · obtain ⟨noIndex, hasUri⟩ := not_or.mp closed
    rw [Bool.not_eq_true, Option.isSome_eq_false_iff, Option.isNone_iff_eq_none] at noIndex
    obtain ⟨uri, given⟩ := Option.ne_none_iff_exists'.mp hasUri
    obtain ⟨relation, related⟩ := Option.isSome_iff_exists.mp some
    obtain ⟨events, emits, balanced⟩ := (prints_relationPrefix (level + 2) uri).emits
    have start := emits_prN level (emits_startLine (by decide : IsTag (ascii "prefixes")))
    have all := start.append emits
    have pieces : prefixes u level = prN (startTag (ascii "prefixes") ++ [10]) level ++ prBlock (ascii "prefix") (level + 2)
        (prText (ascii "name") (level + 4) (prCdata (ascii "rel")) ++ prText (ascii "identifier") (level + 4) (prCdata uri)) := by
      rw [prefixes, noIndex, given, related]
      simp
    rw [pieces, noIndex, given]
    -- the start tag of the prefixes is left over
    refine ⟨_, all, ?_⟩
    rw [surplus_append, surplus_append, surplus_blanks, balanced, unclosed, noIndex, given, related]
    rfl

theorem handed_pr (pieces : List (List UInt8)) : (pieces.map Sent.pr).filterMap Sent.handed = pieces := by
  rw [filterMap_map]
  exact filterMap_some

/-- What `pr` gets of a part of the tree. -/
def handed (cn : CqlNode) (level : Nat) (sortNode : CqlNode) : List (List UInt8) := (cqlToXmlR cn level sortNode).filterMap Sent.handed

def clauseText (u : StStrings) (modifiers extraTerms sortNode : CqlNode) (level : Nat) : List (List UInt8) :=
  prOptional (ascii "index") level u.index ++
    (prRelation u modifiers level ++
      (prOptional (ascii "term") level u.term ++ (extraTermsLoop level extraTerms ++ cqlSortToXml sortNode level)))

theorem handed_st (u : StStrings) (modifiers extraTerms : CqlNode) (level : Nat) (sortNode : CqlNode) :
    handed (.st u modifiers extraTerms) level sortNode =
      prBlock (ascii "searchClause") level (prefixes u (level + 2) ++ clauseText u modifiers extraTerms sortNode (level + 2)) := by
  rw [handed, cqlToXmlR, handed_pr]
  rfl

def clauseLeaves (u : StStrings) (modifiers extraTerms sortNode : CqlNode) : List Leaf :=
  leaf (ascii "searchClause") (ascii "index") u.index ++
    (relationLeaves u modifiers ++ (leaf (ascii "searchClause") (ascii "term") u.term ++ (extraParts extraTerms ++ keyParts sortNode)))

def clauseStrings (u : StStrings) (modifiers extraTerms sortNode : CqlNode) : List (List UInt8) :=
  u.index.toList ++ (((shownRelation u).toList ++ (u.relationUri.toList ++ modifierStrings modifiers)) ++
    (u.term.toList ++ (extraStrings extraTerms ++ keyStrings sortNode)))

theorem prints_clauseText {modifiers extraTerms sortNode : CqlNode} (is : IsSearch (.st u modifiers extraTerms))
    (keys : IsKeys sortNode) (level : Nat) :
    Prints (ascii "searchClause") (clauseText u modifiers extraTerms sortNode level) (clauseStrings u modifiers extraTerms sortNode)
      (clauseLeaves u modifiers extraTerms sortNode) := by
  obtain ⟨⟨-, related, -⟩, modified, extra⟩ := is
  have index := prints_optional (ascii "searchClause") (by decide : IsTag (ascii "index")) level u.index
  have relation := prints_prRelation related modified level
  have term := prints_optional (ascii "searchClause") (by decide : IsTag (ascii "term")) level u.term
  exact index.append (relation.append (term.append
    ((prints_extraTermsLoop level extraTerms extra).append (prints_cqlSortToXml _ sortNode level keys))))

theorem clean_shownRelation (u : StStrings) : clean (shownRelation u).toList = clean u.relation.toList := by
  rw [shownRelation]
  cases u.relation with
  | none => rfl
  | some =>
    simp only [Option.map_some, Option.toList_some, clean, all_cons, all_nil, Bool.and_true, all_append]
    split_ifs
    · rfl
    · rfl

theorem clean_clause (u : StStrings) (modifiers extraTerms sortNode : CqlNode) :
    clean (u.indexUri.toList ++ u.relationUri.toList ++ clauseStrings u modifiers extraTerms sortNode) =
      clean (strings (.st u modifiers extraTerms) ++ keyStrings sortNode) := by
  rw [Bool.eq_iff_iff]
  simp only [clauseStrings, strings, clean_append, clean_shownRelation, Bool.and_eq_true]
  tauto

theorem surplus_block (name : List UInt8) (level : Nat) (events : List Event) :
    surplus (eventsOf (blanks level) ++ ([.start name, .char 10] ++ (events ++ (eventsOf (blanks level) ++ [.stop name, .char 10])))) =
      surplus events := by
  have start : surplus [.start name, .char 10] = 1 := rfl
  have stop : surplus [.stop name, .char 10] = -1 := rfl
  rw [surplus_append, surplus_append, surplus_append, surplus_append, surplus_blanks, start, stop]
  omega

theorem emits_handed {cn : CqlNode} (is : IsSearch cn) {sortNode : CqlNode} (keys : IsKeys sortNode) (level : Nat) :
    ∃ events, Emits (handed cn level sortNode) (Xcql.strings cn ++ keyStrings sortNode) events ∧ surplus events = unclosed cn := by
  induction cn generalizing level sortNode with
  | null => exact is.elim
  | st u modifiers extraTerms =>
    obtain ⟨events, prefixed, beyond⟩ := emits_prefixes is.1.2.1 modifiers extraTerms (level + 2)
    obtain ⟨events', clause, balanced⟩ := (prints_clauseText is keys (level + 2)).emits
    rw [handed_st]
    refine ⟨_, ((prefixed.append clause).block (by decide) level).strings (clean_clause u modifiers extraTerms sortNode), ?_⟩
    rw [surplus_block, surplus_append, beyond, balanced, add_zero]
  | boolean value left right modifiers ihLeft ihRight =>
    obtain ⟨named, modified, isLeft, isRight⟩ := is
    obtain ⟨value, rfl⟩ := Option.isSome_iff_exists.mp named
    have noKeys : IsKeys .null := trivial
    obtain ⟨eventsLeft, emitsLeft, overLeft⟩ := ihLeft isLeft noKeys (level + 4)
    obtain ⟨eventsRight, emitsRight, overRight⟩ := ihRight isRight noKeys (level + 4)
    have inner := (prints_text (ascii "boolean") (by decide : IsTag (ascii "value")) (level + 4) value).append
      (prints_cqlToXmlMod (ascii "boolean") modifiers (level + 4) modified)
    obtain ⟨eventsOp, emitsOp, overOp⟩ := (inner.block (ascii "triple") (by decide) (level + 2) (cons_ne_nil _ _)).emits
    obtain ⟨eventsSort, emitsSort, overSort⟩ := (prints_cqlSortToXml (ascii "triple") sortNode (level + 2) keys).emits
    have triple := ((emitsOp.append (emitsLeft.append (emitsRight.append emitsSort))).block (by decide : IsTag (ascii "triple")) level)
    have pieces : handed (.boolean (some value) left right modifiers) level sortNode = prBlock (ascii "triple") level
        (prBlock (ascii "boolean") (level + 2) (prText (ascii "value") (level + 4) (prCdata value) ++ cqlToXmlMod modifiers (level + 4)) ++
          (handed left (level + 4) .null ++ (handed right (level + 4) .null ++ cqlSortToXml sortNode (level + 2)))) := by
      have someLeft : left ≠ .null := fun none => by
        rw [none] at isLeft
        exact isLeft
      have someRight : right ≠ .null := fun none => by
        rw [none] at isRight
        exact isRight
      rw [handed, cqlToXmlR]
      dsimp only
      rw [if_neg someLeft, if_neg someRight]
      simp only [filterMap_append, handed_pr, filterMap_cons, Sent.handed, filterMap_nil, append_nil, Option.elim_some,
        prBlock, append_assoc]
      rfl
    rw [pieces]
    refine ⟨_, triple.strings ?_, ?_⟩
    · rw [Bool.eq_iff_iff]
      simp only [Xcql.strings, keyStrings, clean_append, Bool.and_eq_true, Option.toList_some, append_nil]
      tauto
    · rw [surplus_block, surplus_append, surplus_append, surplus_append, overOp, overLeft, overRight, overSort, unclosed]
      omega
  | sort => exact is.elim

theorem filter_leaf {parent : List UInt8} (text : Option (List UInt8)) (part : isPart { parent, name, text := [] } = true) :
    (leaf parent name text).filter isPart = leaf parent name text := by
  cases text with
  | none => rfl
  | some => exact filter_eq_self.mpr fun shown mem => by rw [mem_singleton.mp mem]; exact part

theorem filter_other {parent : List UInt8} (text : Option (List UInt8)) (other : isPart { parent, name, text := [] } = false) :
    (leaf parent name text).filter isPart = [] := by
  cases text with
  | none => rfl
  | some =>
    refine filter_eq_nil_iff.mpr fun shown mem => ?_
    rw [mem_singleton.mp mem]
    exact Bool.eq_false_iff.mp other

theorem filter_modifierParts (m : CqlNode) : (modifierParts m).filter isPart = modifierParts m := by
  induction m with
  | st _ _ _ ih =>
    rw [modifierParts, filter_append, filter_append, filter_append, filter_leaf _ (by decide), filter_leaf _ (by decide),
      filter_leaf _ (by decide), ih]
  | _ => rfl

theorem filter_extraParts (cn : CqlNode) : (extraParts cn).filter isPart = extraParts cn := by
  induction cn with
  | st _ _ _ _ ih => rw [extraParts, filter_append, filter_leaf _ (by decide), ih]
  | _ => rfl

theorem filter_keyParts (cn : CqlNode) : (keyParts cn).filter isPart = keyParts cn := by
  induction cn with
  | sort _ _ _ _ ih =>
    rw [keyParts, filter_append, filter_append, filter_leaf _ (by decide), filter_modifierParts, ih]
  | _ => rfl

theorem filter_clauseLeaves (u : StStrings) (modifiers extraTerms sortNode : CqlNode) :
    (prefixLeaves u ++ clauseLeaves u modifiers extraTerms sortNode).filter isPart =
      parts (.st u modifiers extraTerms) ++ keyParts sortNode := by
  simp only [prefixLeaves, clauseLeaves, relationLeaves, filter_append, parts, append_assoc]
  rw [filter_other _ (by decide), filter_other _ (by decide), filter_other _ (by decide), filter_leaf _ (by decide),
    filter_leaf _ (by decide), filter_other _ (by decide), filter_leaf _ (by decide), filter_modifierParts, filter_extraParts,
    filter_keyParts]
  rfl

/-! ### The whole tree -/

def Closed (cn : CqlNode) : Prop := booleans cn = 0 ∧ unclosed cn = 0 ∧ clean (Xcql.strings cn) = true

instance (cn : CqlNode) : Decidable (Closed cn) := inferInstanceAs (Decidable (_ ∧ _))

theorem Top.printed (top : Top) : ∃ search sortNode, IsSearch search ∧ IsKeys sortNode ∧ cqlToXml top.cql = handed search 0 sortNode ∧
    booleans top.cql = booleans search ∧ unclosed top.cql = unclosed search ∧
    Xcql.strings top.cql = Xcql.strings search ++ keyStrings sortNode ∧ parts top.cql = parts search ++ keyParts sortNode := by
  rcases Top.shape top with is | ⟨index, next, modifiers, search, tree, keys, is⟩
  · exact ⟨top.cql, .null, is, trivial, rfl, rfl, rfl, (append_nil _).symm, (append_nil _).symm⟩
  · rw [tree]
    exact ⟨search, .sort index next modifiers search, is, keys, rfl, rfl, rfl, rfl, rfl⟩

theorem count_operand {events : List Event} {event : Event} (noOperand : events.any isOperand = false) (is : isOperand event = true) :
    events.count event = 0 :=
  count_eq_zero.mpr fun mem => by
    have none := any_eq_false.mp noOperand event mem
    exact none is

theorem search_st {cn : CqlNode} (is : IsSearch cn) (single : booleans cn = 0) :
    ∃ u modifiers extraTerms, cn = .st u modifiers extraTerms := by
  cases cn with
  | null => exact is.elim
  | st u modifiers extraTerms => exact ⟨u, modifiers, extraTerms, rfl⟩
  | boolean => cases single
  | sort => exact is.elim

theorem prefixes_closed {modifiers extraTerms : CqlNode} (some : u.relation.isSome = true)
    (closed : unclosed (.st u modifiers extraTerms) = 0) : u.indexUri.isSome = true ∨ u.relationUri = none := by
  rw [unclosed, some, Bool.and_true] at closed
  cases given : u.indexUri with
  | some => exact .inl rfl
  | none =>
    refine .inr ?_
    rw [given] at closed
    cases related : u.relationUri with
    | none => rfl
    | some =>
      rw [related] at closed
      cases closed

theorem shows_clause {modifiers extraTerms sortNode : CqlNode} (is : IsSearch (.st u modifiers extraTerms))
    (keys : IsKeys sortNode) (closed : unclosed (.st u modifiers extraTerms) = 0)
    (plain : clean (Xcql.strings (.st u modifiers extraTerms) ++ keyStrings sortNode) = true) :
    ∃ children, IsElement (handed (.st u modifiers extraTerms) 0 sortNode).flatten (ascii "searchClause") children ∧
      (Xml.leaves [] (.element (ascii "searchClause") children)).filter isPart = parts (.st u modifiers extraTerms) ++ keyParts sortNode ∧
      (Xml.element (ascii "searchClause") children).events.any isOperand = false := by
  have prints := (prints_prefixes is.1.2.1 (prefixes_closed is.1.2.1 closed) 2).append (prints_clauseText is keys 2)
  have some : prefixLeaves u ++ clauseLeaves u modifiers extraTerms sortNode ≠ [] := fun none =>
    leaf_some is.1.1 (append_eq_nil_iff.mp (append_eq_nil_iff.mp none).2).1
  obtain ⟨children, element, leaves, noOperand⟩ :=
    prints.isElement (by decide) 0 some ((clean_clause u modifiers extraTerms sortNode).trans plain)
  rw [handed_st]
  exact ⟨children, element, leaves ▸ filter_clauseLeaves u modifiers extraTerms sortNode, noOperand⟩

theorem cqlToXml_shows_iff (top : Top) : ShowsAll (cqlToXml top.cql).flatten top.cql ↔ Closed top.cql := by
  obtain ⟨search, sortNode, is, keys, text, sameBooleans, sameUnclosed, sameStrings, sameParts⟩ := Top.printed top
  obtain ⟨events, emits, beyond⟩ := emits_handed is keys 0
  rw [ShowsAll, Closed, text, sameBooleans, sameUnclosed, sameStrings, sameParts]
  constructor
  · rintro ⟨name, children, element, -, lefts, -⟩
    have balanced := element.closed emits.tells
    obtain ⟨characters, before, behind, -, tells⟩ := element
    refine ⟨?_, by omega, emits.characters.symm.trans characters⟩
    -- the tags of operands are not among the events of the text
    have noOperand := emits.noOperand
    rw [emits.tells.unique tells, any_append, any_append, Bool.or_eq_false_iff, Bool.or_eq_false_iff] at noOperand
    rw [← lefts]
    exact count_operand noOperand.1.2 (by decide)
  · rintro ⟨single, closed, plain⟩
    obtain ⟨u, modifiers, extraTerms, rfl⟩ := search_st is single
    obtain ⟨children, element, shown, noOperand⟩ := shows_clause is keys closed plain
    refine ⟨_, children, element, shown, ?_, ?_⟩
    · exact (count_operand noOperand (by decide)).trans single.symm
    · exact (count_operand noOperand (by decide)).trans single.symm

theorem handed_some {cn : CqlNode} (is : IsSearch cn) (level : Nat) (sortNode : CqlNode) : handed cn level sortNode ≠ [] := by
  cases cn with
  | null => exact is.elim
  | st =>
    rw [handed_st, prBlock, prN]
    simp
  | boolean =>
    rw [handed, cqlToXmlR]
    simp [Sent.handed, prN]
  | sort => exact is.elim

/-- The XML of a tree is an element with all its parts, and it is delivered in a buffer, exactly if the tree is closed and no string of
the XML ends where an `int` does not reach. -/
theorem cqlToXml_complete_iff (top : Top) (out : OutBuffer) :
    ShowsAll (cqlToXml top.cql).flatten top.cql ∧ Delivers (cqlToXml top.cql).flatten out (cqlToXmlBuf top.cql out) ↔
      Closed top.cql ∧ ¬Overflows (cqlToXml top.cql) out.max := by
  obtain ⟨search, sortNode, is, keys, text, -⟩ := Top.printed top
  obtain ⟨events, emits, -⟩ := emits_handed is keys 0
  rw [← text] at emits
  rw [cqlToXml_shows_iff, cqlToXmlBuf_delivers_iff top.cql out emits.short (text ▸ handed_some is 0 sortNode)]

def word (text : List UInt8) : SearchTerm := ⟨.simpleString text, (rfl : true = true)⟩

/-- `a and b`. -/
def aAndB : Top :=
  { query := .scoped (.boolean (.single (.terms (word [97]) .none)) ⟨.and, rfl⟩ .none (.terms (word [98]) .none)), sortby := none }

/-- `>c="u" a c.r b`. -/
def prefixedRelation : Top :=
  { query := .assigned (word [99]) (word [117])
      (.scoped (.single (.related (word [97]) ⟨.prefixName [99, 46, 114], rfl⟩ .none (.terms (word [98]) .none))))
    sortby := none }

def hundredOctets : OutBuffer := { max := 100, octets := List.replicate 100 0, int := by decide, size := by decide }

theorem cqlToXml_incomplete :
    ¬(ShowsAll (cqlToXml aAndB.cql).flatten aAndB.cql ∧
        Delivers (cqlToXml aAndB.cql).flatten hundredOctets (cqlToXmlBuf aAndB.cql hundredOctets)) ∧
      ¬(ShowsAll (cqlToXml prefixedRelation.cql).flatten prefixedRelation.cql ∧
        Delivers (cqlToXml prefixedRelation.cql).flatten hundredOctets (cqlToXmlBuf prefixedRelation.cql hundredOctets)) := by
  constructor
  · rintro ⟨shows, -⟩
    exact absurd ((cqlToXml_shows_iff aAndB).mp shows) (by decide)
  · rintro ⟨shows, -⟩
    exact absurd ((cqlToXml_shows_iff prefixedRelation).mp shows) (by decide)

end Yaz.Cql.Xcql
