import Mathlib.Data.List.Basic

/-! Elements without attributes, and the texts of them: tags, characters, and references to what may not stand for itself.

A text is read octet by octet, so that what is behind a part of it depends on the mode and the events of the part only.
-/

set_option autoImplicit false

namespace Yaz.Foundation.Element
open List

/-! ### Reading -/

inductive Event where
  | start (name : List UInt8)
  | stop (name : List UInt8)
  | char (c : UInt8)
  deriving DecidableEq

inductive Mode where
  | content
  | tag (name : List UInt8)
  | reference (name : List UInt8)
  deriving DecidableEq

def isLetter (c : UInt8) : Bool := (65 ≤ c && c ≤ 90) || (97 ≤ c && c ≤ 122)

def IsName (name : List UInt8) : Prop := name ≠ [] ∧ ∀ c ∈ name, isLetter c = true

instance (name : List UInt8) : Decidable (IsName name) := inferInstanceAs (Decidable (_ ∧ _))

def isCharacter (c : UInt8) : Bool := 32 ≤ c || c = 9 || c = 10 || c = 13

def tagEvent : List UInt8 → Option Event
  | 47 :: name => if IsName name then some (.stop name) else none
  | name => if IsName name then some (.start name) else none

def referenced (name : List UInt8) : Option UInt8 :=
  if name = [97, 109, 112] then some 38 else if name = [108, 116] then some 60 else if name = [103, 116] then some 62 else none

def step : Mode → UInt8 → Option (Mode × List Event)
  | .content, c =>
    if c = 60 then some (.tag [], []) else if c = 38 then some (.reference [], []) else some (.content, [.char c])
  | .tag name, c => if c = 62 then (tagEvent name).map fun event => (.content, [event]) else some (.tag (name ++ [c]), [])
  | .reference name, c =>
    if c = 59 then (referenced name).map fun c => (.content, [.char c]) else some (.reference (name ++ [c]), [])

def run : Mode → List UInt8 → Option (Mode × List Event)
  | mode, [] => some (mode, [])
  | mode, c :: text => (step mode c).bind fun one => (run one.1 text).map fun rest => (rest.1, one.2 ++ rest.2)

attribute [local simp] run

theorem run_append (mode : Mode) (first second : List UInt8) :
    run mode (first ++ second) =
      (run mode first).bind fun one => (run one.1 second).map fun rest => (rest.1, one.2 ++ rest.2) := by
  induction first generalizing mode with
  | nil =>
    rw [nil_append, run, Option.bind_some]
    cases run mode second <;> rfl
  | cons c first ih =>
    rw [cons_append, run, run]
    cases step mode c with
    | none => rfl
    | some one =>
      rw [Option.bind_some, Option.bind_some, ih]
      cases run one.1 first with
      | none => rfl
      | some =>
        simp only [Option.bind_some, Option.map_some, Option.map_map]
        congr 1
        funext rest
        simp [append_assoc]

def Tells (text : List UInt8) (events : List Event) : Prop := run .content text = some (.content, events)

theorem tells_nil : Tells [] [] := rfl

theorem Tells.append {first second : List UInt8} {events events' : List Event} (one : Tells first events) (two : Tells second events') :
    Tells (first ++ second) (events ++ events') := by
  rw [Tells, run_append, one, Option.bind_some, two]
  rfl

theorem Tells.unique {text : List UInt8} {events events' : List Event} (tells : Tells text events) (tells' : Tells text events') :
    events = events' := (Prod.mk.inj (Option.some.inj (tells.symm.trans tells'))).2

variable {name : List UInt8}

theorem run_tag (noEnd : ∀ c ∈ name, c ≠ 62) (front : List UInt8) : run (.tag front) name = some (.tag (front ++ name), []) := by
  induction name generalizing front with
  | nil => simp [run]
  | cons c _ ih =>
    have other : c ≠ 62 := noEnd c mem_cons_self
    rw [run, step, if_neg other, Option.bind_some, ih fun d mem => noEnd d (mem_cons_of_mem _ mem)]
    simp

theorem isLetter_not {c : UInt8} (letter : isLetter c = true) : c ≠ 62 ∧ c ≠ 47 := by
  constructor <;> rintro rfl <;> revert letter <;> decide

def startTag (name : List UInt8) : List UInt8 := 60 :: (name ++ [62])

def endTag (name : List UInt8) : List UInt8 := 60 :: 47 :: (name ++ [62])

theorem tells_startTag (isName : IsName name) : Tells (startTag name) [.start name] := by
  have inside : ∀ c ∈ name, c ≠ 62 := fun c mem => (isLetter_not (isName.2 c mem)).1
  have event : tagEvent name = some (.start name) := by
    unfold tagEvent
    split
    · exact absurd rfl (isLetter_not (isName.2 47 mem_cons_self)).2
    · rw [if_pos isName]
  rw [Tells, startTag, run, step, if_pos rfl, Option.bind_some, run_append, run_tag inside, Option.bind_some, nil_append, run, step,
    if_pos rfl, event]
  rfl

theorem tells_endTag (isName : IsName name) : Tells (endTag name) [.stop name] := by
  have inside : ∀ c ∈ 47 :: name, c ≠ 62 := by
    rw [forall_mem_cons]
    exact ⟨by decide, fun c mem => (isLetter_not (isName.2 c mem)).1⟩
  have event : tagEvent (47 :: name) = some (.stop name) := if_pos isName
  rw [Tells, endTag, run, step, if_pos rfl, Option.bind_some, ← cons_append, run_append, run_tag inside, Option.bind_some, nil_append,
    run, step, if_pos rfl, event]
  rfl

theorem tells_char {c : UInt8} (plain : c ≠ 60 ∧ c ≠ 38) : Tells [c] [.char c] := by
  rw [Tells, run, step, if_neg plain.1, if_neg plain.2]
  rfl

theorem tells_plain {text : List UInt8} (plain : ∀ c ∈ text, c ≠ 60 ∧ c ≠ 38) : Tells text (text.map .char) := by
  induction text with
  | nil => exact tells_nil
  | cons c _ ih => exact (tells_char (plain c mem_cons_self)).append (ih fun d mem => plain d (mem_cons_of_mem _ mem))

def escaped (c : UInt8) : List UInt8 :=
  if c = 38 then [38, 97, 109, 112, 59] else if c = 60 then [38, 108, 116, 59] else if c = 62 then [38, 103, 116, 59] else [c]

theorem tells_escaped (c : UInt8) : Tells (escaped c) [.char c] := by
  unfold escaped
  split_ifs with amp lt gt
  · subst amp
    rfl
  · subst lt
    rfl
  · subst gt
    rfl
  · exact tells_char ⟨lt, amp⟩

variable (text : List UInt8)

theorem escaped_all : (text.flatMap escaped).all isCharacter = text.all isCharacter := by
  induction text with
  | nil => rfl
  | cons _ _ ih =>
    rw [flatMap_cons, all_append, ih, all_cons]
    congr 1
    unfold escaped
    split_ifs with amp lt gt
    · subst amp
      rfl
    · subst lt
      rfl
    · subst gt
      rfl
    · rw [all_cons, all_nil, Bool.and_true]

theorem tells_text : Tells (text.flatMap escaped) (text.map .char) := by
  induction text with
  | nil => exact tells_nil
  | cons c _ ih => exact (tells_escaped c).append ih

/-! ### Elements -/

inductive Xml where
  | char (c : UInt8)
  | element (name : List UInt8) (children : List Xml)

mutual
def Xml.events : Xml → List Event
  | .char c => [.char c]
  | .element name children => .start name :: (eventsOf children ++ [.stop name])

def eventsOf : List Xml → List Event
  | [] => []
  | x :: rest => x.events ++ eventsOf rest
end

attribute [local simp] Xml.events eventsOf

theorem eventsOf_append (first second : List Xml) : eventsOf (first ++ second) = eventsOf first ++ eventsOf second := by
  induction first with
  | nil => rfl
  | cons _ _ ih => rw [cons_append, eventsOf, ih, eventsOf, append_assoc]

theorem eventsOf_chars : eventsOf (text.map .char) = text.map .char := by
  induction text with
  | nil => rfl
  | cons _ _ ih => rw [map_cons, eventsOf, ih, Xml.events, map_cons, singleton_append]

def Event.isStart : Event → Bool
  | .start _ => true
  | _ => false

def Event.isStop : Event → Bool
  | .stop _ => true
  | _ => false

def surplus (events : List Event) : Int := events.countP Event.isStart - events.countP Event.isStop

theorem surplus_append (first second : List Event) : surplus (first ++ second) = surplus first + surplus second := by
  simp only [surplus, countP_append]
  omega

theorem surplus_chars : surplus (text.map .char) = 0 := by
  induction text with
  | nil => rfl
  | cons _ _ ih => simpa [surplus, Event.isStart, Event.isStop] using ih

mutual
theorem Xml.surplus_events : (x : Xml) → surplus x.events = 0
  | .char c => rfl
  | .element name children => by
    have inner := surplus_eventsOf children
    simp only [surplus, Xml.events, countP_cons, countP_append, countP_nil, Event.isStart, Event.isStop] at inner ⊢
    simp only [if_true, Bool.false_eq_true, if_false]
    omega

theorem surplus_eventsOf : (list : List Xml) → surplus (eventsOf list) = 0
  | [] => rfl
  | x :: rest => by
    rw [eventsOf, surplus_append, x.surplus_events, surplus_eventsOf rest]
    rfl
end

def isWhite (c : UInt8) : Bool := c = 32 || c = 9 || c = 10 || c = 13

def IsElement (text : List UInt8) (name : List UInt8) (children : List Xml) : Prop :=
  text.all isCharacter = true ∧ ∃ before behind : List UInt8, (before ++ behind).all isWhite = true ∧
    Tells text (before.map .char ++ (Xml.element name children).events ++ behind.map .char)

theorem IsElement.closed {text : List UInt8} {children : List Xml} (is : IsElement text name children) {events : List Event}
    (tells : Tells text events) : surplus events = 0 := by
  obtain ⟨-, before, behind, -, tells'⟩ := is
  rw [tells.unique tells', surplus_append, surplus_append, surplus_chars, surplus_chars, Xml.surplus_events]
  rfl

/-- An element with nothing but characters in it, and the name of the element around it. -/
structure Leaf where
  parent : List UInt8
  name : List UInt8
  text : List UInt8
  deriving DecidableEq

def Xml.char? : Xml → Option UInt8
  | .char c => some c
  | .element _ _ => none

def textOnly (list : List Xml) : Bool := list.all fun x => x.char?.isSome

mutual
def Xml.leaves (parent : List UInt8) : Xml → List Leaf
  | .char _ => []
  | .element name children =>
    if textOnly children then [{ parent, name, text := children.filterMap Xml.char? }] else leavesOf name children

def leavesOf (parent : List UInt8) : List Xml → List Leaf
  | [] => []
  | x :: rest => x.leaves parent ++ leavesOf parent rest
end

variable (parent : List UInt8)

attribute [local simp] Xml.leaves leavesOf

theorem leavesOf_append (first second : List Xml) :
    leavesOf parent (first ++ second) = leavesOf parent first ++ leavesOf parent second := by
  induction first with
  | nil => rfl
  | cons _ _ ih => rw [cons_append, leavesOf, ih, leavesOf, append_assoc]

theorem leavesOf_chars (text : List UInt8) : leavesOf parent (text.map .char) = [] := by
  induction text with
  | nil => rfl
  | cons _ _ ih => rw [map_cons, leavesOf, ih, Xml.leaves, append_nil]

theorem leavesOf_textOnly {list : List Xml} (only : textOnly list = true) : leavesOf parent list = [] := by
  induction list with
  | nil => rfl
  | cons x _ ih =>
    rw [textOnly, all_cons, Bool.and_eq_true] at only
    cases x with
    | char => rw [leavesOf, ih only.2, Xml.leaves, append_nil]
    | element => cases only.1

theorem leaves_element (parent name : List UInt8) {list : List Xml} (inner : leavesOf name list ≠ []) :
    Xml.leaves parent (.element name list) = leavesOf name list := by
  rw [Xml.leaves, if_neg fun only => inner (leavesOf_textOnly name only)]

theorem leaves_text (parent name text : List UInt8) :
    Xml.leaves parent (.element name (text.map .char)) = [{ parent, name, text }] := by
  have only : textOnly (text.map .char) = true := by simp [textOnly, Xml.char?]
  have back : (text.map Xml.char).filterMap Xml.char? = text := by
    rw [filterMap_map]
    exact filterMap_some
  rw [Xml.leaves, if_pos only, back]

end Yaz.Foundation.Element
