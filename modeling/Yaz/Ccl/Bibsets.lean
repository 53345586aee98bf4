import Yaz.Ccl.Query
import Yaz.Text.Tokenizer

/-! Sets of qualifiers in memory: how they are built and copied (`cclqual.c`).

A qualifier has an address, and the aliases of it are addresses; new ones come in front of the list. `Yaz.Ccl.Bibset` has what a query sees
of it.
-/

set_option autoImplicit false

variable {defined : List (List UInt8)}

namespace Yaz.Ccl
open List
open Yaz.Comstack (ascii)
open Yaz.Text (TokParse tokString yazTokCfgCreate yazTokMove yazTokParseBuf)

/-- `struct ccl_qualifier`; a pointer of `sub` may be null. -/
structure QualNode extends Qual where
  address : Nat
  sub : Option (List (Option Nat))
  deriving DecidableEq

def QualNode.noSub (q : QualNode) : Nat := q.sub.elim 0 List.length

/-- `struct ccl_qualifiers`, with the next address. -/
structure QualSet where
  list : List QualNode
  special : List (List UInt8 × List (List UInt8))
  fresh : Nat
  deriving DecidableEq

def cclQualMk : QualSet := { list := [], special := [], fresh := 0 }

/-- `ccl_qual_lookup` for a whole name. -/
def cclQualLookup (b : QualSet) (n : List UInt8) : Option QualNode := b.list.find? fun q => q.name = n

def cclQualNew (b : QualSet) (name : List UInt8) : QualSet :=
  { b with list := { address := b.fresh, name, attrList := [], sub := none } :: b.list, fresh := b.fresh + 1 }

def QualSet.change (b : QualSet) (address : Nat) (f : QualNode → QualNode) : QualSet :=
  { b with list := b.list.map fun q => if q.address = address then f q else q }

def combiSubs : QualSet → List (List UInt8) → QualSet × List (Option Nat)
  | b, [] => (b, [])
  | b, name :: names =>
    match cclQualLookup b name with
    | some q => ((combiSubs b names).1, some q.address :: (combiSubs b names).2)
    | none => ((combiSubs (cclQualNew b name) names).1, some b.fresh :: (combiSubs (cclQualNew b name) names).2)

/-- `ccl_qual_add_combi`; a name that is known is left as it is. -/
def cclQualAddCombi (b : QualSet) (n : List UInt8) (names : List (List UInt8)) : QualSet :=
  if (cclQualLookup b n).isSome then b
  else
    let subs := combiSubs (cclQualNew b n) names
    subs.1.change b.fresh fun q => { q with sub := some subs.2 }

/-- `ccl_qual_add_set`, with the attributes of its arrays. -/
def cclQualAddSet (b : QualSet) (name : List UInt8) (attrs : List Attr) : QualSet :=
  match cclQualLookup b name with
  | some q => b.change q.address fun q => { q with attrList := q.attrList ++ attrs }
  | none => (cclQualNew b name).change b.fresh fun q => { q with attrList := q.attrList ++ attrs }

def cclQualAddSpecialAr (b : QualSet) (n : List UInt8) (values : List (List UInt8)) : QualSet :=
  if b.special.any fun p => p.1 = n then { b with special := b.special.map fun p => if p.1 = n then (n, values) else p }
  else { b with special := (n, values) :: b.special }

/-- The strings that `ccl_qual_add_special` reads, if each call of the tokenizer returns; there may be so many of them. -/
def specialValues (rounds : Nat) : (calls : Nat) → TokParse → Option (List (List UInt8))
  | 0, _ => none
  | calls + 1, tp =>
    (yazTokMove yazTokCfgCreate rounds tp).bind fun moved =>
      if moved.1 = tokString then (specialValues rounds calls moved.2).map (moved.2.wrString :: ·) else some []

def cclQualAddSpecial (b : QualSet) (n cp : List UInt8) : Option QualSet :=
  (specialValues (cp.length + 1) (cp.length + 1) (yazTokParseBuf cp)).map (cclQualAddSpecialAr b n)

inductive QualCall where
  | set (name : List UInt8) (attrs : List Attr)
  | combi (n : List UInt8) (names : List (List UInt8))
  | special (n cp : List UInt8)
  deriving DecidableEq

def QualSet.call (b : QualSet) : QualCall → Option QualSet
  | .set name attrs => some (cclQualAddSet b name attrs)
  | .combi n names => some (cclQualAddCombi b n names)
  | .special n cp => cclQualAddSpecial b n cp

def QualSet.calls : QualSet → List QualCall → Option QualSet
  | b, [] => some b
  | b, call :: rest => (b.call call).bind fun b => b.calls rest

def matchUp : List QualNode → List QualNode → Option Nat → Option Nat
  | _, [], _ => none
  | [], q2 :: _, _ => some q2.address
  | q1 :: rest1, q2 :: rest2, sub => if some q1.address = sub then some q2.address else matchUp rest1 rest2 sub

def dupLoop (original : List QualNode) : List QualNode → List QualNode → List QualNode
  | [], copied => copied
  | q :: rest, copied =>
    let copy : QualNode := { address := copied.length, name := q.name, attrList := q.attrList, sub := none }
    dupLoop original rest (copied ++ [{ copy with sub := q.sub.map fun subs => subs.map (matchUp original (copied ++ [copy])) }])

def cclQualDup (b : QualSet) : QualSet :=
  { list := dupLoop b.list b.list [], special := b.special, fresh := b.list.length }

def QualSet.at (b : QualSet) (address : Nat) : Option Qual := (b.list.find? fun q => q.address = address).map QualNode.toQual

/-- `ccl_qual_search`, with the name and the attributes of what it returns; the parser is given without its qualifiers. -/
def QualSet.search (b : QualSet) (cclp : CclParser) (name : List UInt8) (nameLen seq : Nat) : Option Qual :=
  let cclp := { cclp with bibset := { list := [], special := b.special } }
  match b.list.find? fun q => cclp.sameName name q.name nameLen with
  | none => none
  | some q =>
    if q.noSub ≠ 0 then (((q.sub.getD [])[seq]?).join).bind b.at
    else if seq ≠ 0 then none
    else some q.toQual

/-- A copy with the meaning of the set: every search finds the same, the settings are equal, and no alias is null. -/
structure Preserved (b copy : QualSet) : Prop where
  search : ∀ cclp name nameLen seq, copy.search cclp name nameLen seq = b.search cclp name nameLen seq
  special : copy.special = b.special
  sub : ∀ q ∈ copy.list, ∀ subs ∈ q.sub, none ∉ subs

local instance lawfulText : LawfulBEq (List UInt8) := inferInstance

def AliasesNew : (defined : List (List UInt8)) → List QualCall → Prop
  | _, [] => True
  | defined, .set name _ :: rest => AliasesNew (name :: defined) rest
  | defined, .combi n names :: rest =>
    if n ∈ defined then AliasesNew defined rest else (∀ name ∈ names, name ∉ defined) ∧ AliasesNew (names ++ n :: defined) rest
  | defined, .special _ _ :: rest => AliasesNew defined rest

/-! ### What the calls keep -/

structure QualSet.Sound (b : QualSet) : Prop where
  order : b.list.Pairwise fun p q => q.address < p.address
  fresh : ∀ q ∈ b.list, q.address < b.fresh
  sub : ∀ q ∈ b.list, ∀ subs ∈ q.sub, ∀ s ∈ subs, ∃ p ∈ b.list, s = some p.address

def QualSet.Forward (b : QualSet) : Prop := ∀ q ∈ b.list, ∀ subs ∈ q.sub, ∀ s ∈ subs, ∀ a ∈ s, q.address ≤ a

def QualSet.Defines (b : QualSet) (defined : List (List UInt8)) : Prop := ∀ n, n ∈ defined ↔ ∃ q ∈ b.list, q.name = n

theorem cclQualMk_sound : cclQualMk.Sound where
  order := List.Pairwise.nil
  fresh := by simp [cclQualMk]
  sub := by simp [cclQualMk]

theorem cclQualMk_forward : cclQualMk.Forward := by simp [QualSet.Forward, cclQualMk]

theorem cclQualMk_defines : cclQualMk.Defines [] := by simp [QualSet.Defines, cclQualMk]

variable {b : QualSet} {n : List UInt8}

theorem cclQualLookup_found {q : QualNode} (found : cclQualLookup b n = some q) : q ∈ b.list ∧ q.name = n :=
  ⟨mem_of_find?_eq_some found, by simpa using find?_some found⟩

theorem cclQualLookup_missed (missed : cclQualLookup b n = none) : ∀ q ∈ b.list, q.name ≠ n := by
  simpa [cclQualLookup, find?_eq_none] using missed

theorem cclQualLookup_isSome (defines : b.Defines defined) (n : List UInt8) :
    (cclQualLookup b n).isSome ↔ n ∈ defined := by
  rw [defines n]
  simp [cclQualLookup, find?_isSome]

section New
variable {b : QualSet}

theorem cclQualNew_sound (sound : b.Sound) (name : List UInt8) : (cclQualNew b name).Sound where
  order := List.Pairwise.cons sound.fresh sound.order
  fresh := by
    intro q mem
    cases mem with
    | head => exact Nat.lt_succ_self b.fresh
    | tail _ old => exact Nat.lt_succ_of_lt (sound.fresh q old)
  sub := by
    intro q mem subs hasSubs s mems
    cases mem with
    | head => simp at hasSubs
    | tail _ old =>
      obtain ⟨p, memp, rfl⟩ := sound.sub q old subs hasSubs s mems
      exact ⟨p, mem_cons_of_mem _ memp, rfl⟩

theorem cclQualNew_forward (name : List UInt8) : (cclQualNew b name).Forward ↔ b.Forward := by
  simp [QualSet.Forward, cclQualNew]

theorem cclQualNew_defines (defines : b.Defines defined) (name : List UInt8) :
    (cclQualNew b name).Defines (name :: defined) := by
  intro n
  simp [cclQualNew, defines n, eq_comm]

end New

section Change
variable {b : QualSet} {f : QualNode → QualNode} {address : Nat}

theorem QualSet.mem_change {c : QualNode} :
    c ∈ (b.change address f).list ↔ ∃ q ∈ b.list, (if q.address = address then f q else q) = c := by
  simp [QualSet.change]

variable (keepsAddress : ∀ q, (f q).address = q.address)
include keepsAddress

theorem changed_address (q : QualNode) : (if q.address = address then f q else q).address = q.address := by
  split
  · exact keepsAddress q
  · rfl

theorem QualSet.change_sound (sound : b.Sound)
    (sub : ∀ q ∈ b.list, q.address = address → ∀ subs ∈ (f q).sub, ∀ s ∈ subs, ∃ p ∈ b.list, s = some p.address) :
    (b.change address f).Sound where
  order := by
    refine pairwise_map.mpr (sound.order.imp ?_)
    intro p q later
    rwa [changed_address keepsAddress, changed_address keepsAddress]
  fresh := by
    intro c mem
    obtain ⟨q, memq, rfl⟩ := mem_change.mp mem
    rw [changed_address keepsAddress]
    exact sound.fresh q memq
  sub := by
    intro c mem subs hasSubs s mems
    obtain ⟨q, memq, rfl⟩ := mem_change.mp mem
    have old : ∃ p ∈ b.list, s = some p.address := by
      split at hasSubs
      · exact sub q memq ‹_› subs hasSubs s mems
      · exact sound.sub q memq subs hasSubs s mems
    obtain ⟨p, memp, rfl⟩ := old
    exact ⟨_, mem_change.mpr ⟨p, memp, rfl⟩, by rw [changed_address keepsAddress]⟩

theorem QualSet.change_forward :
    (b.change address f).Forward ↔
      ∀ q ∈ b.list, ∀ subs ∈ (if q.address = address then f q else q).sub, ∀ s ∈ subs, ∀ a ∈ s, q.address ≤ a := by
  constructor
  · intro forward q mem subs hasSubs s mems a at_
    have le := forward _ (mem_change.mpr ⟨q, mem, rfl⟩) subs hasSubs s mems a at_
    rwa [changed_address keepsAddress] at le
  · intro forward c mem subs hasSubs s mems a at_
    obtain ⟨q, memq, rfl⟩ := mem_change.mp mem
    rw [changed_address keepsAddress]
    exact forward q memq subs hasSubs s mems a at_

omit keepsAddress in
theorem QualSet.change_defines (keepsName : ∀ q, (f q).name = q.name) {defined : List (List UInt8)} (defines : b.Defines defined) :
    (b.change address f).Defines defined := by
  intro n
  have name (q : QualNode) : (if q.address = address then f q else q).name = q.name := by
    split
    · exact keepsName q
    · rfl
  rw [defines n]
  constructor
  · rintro ⟨q, mem, rfl⟩
    exact ⟨_, mem_change.mpr ⟨q, mem, rfl⟩, name q⟩
  · rintro ⟨c, mem, rfl⟩
    obtain ⟨q, memq, rfl⟩ := mem_change.mp mem
    exact ⟨q, memq, (name q).symm⟩

omit keepsAddress in
theorem cclQualLookup_change (keepsName : ∀ q, (f q).name = q.name) (n : List UInt8) :
    cclQualLookup (b.change address f) n = (cclQualLookup b n).map fun q => if q.address = address then f q else q := by
  rw [cclQualLookup, QualSet.change, find?_map, cclQualLookup]
  congr 2
  funext q
  simp only [Function.comp_apply]
  split
  · rw [keepsName]
  · rfl

end Change

/-! ### One call -/

section Set
variable {b : QualSet} (name : List UInt8) (attrs : List Attr)

theorem addAttrs_sound (sound : b.Sound) (address : Nat) : (b.change address fun q => { q with attrList := q.attrList ++ attrs }).Sound :=
  QualSet.change_sound (fun _ => rfl) sound fun q mem _ => sound.sub q mem

theorem addAttrs_forward (address : Nat) :
    (b.change address fun q => { q with attrList := q.attrList ++ attrs }).Forward ↔ b.Forward := by
  have keepsAddress (q : QualNode) : { q with attrList := q.attrList ++ attrs }.address = q.address := rfl
  rw [QualSet.change_forward keepsAddress]
  -- the aliases of a qualifier are not touched
  have sub (q : QualNode) : (if q.address = address then { q with attrList := q.attrList ++ attrs } else q).sub = q.sub := by split <;> rfl
  simp only [sub, QualSet.Forward]

theorem addAttrs_defines (defines : b.Defines defined) (address : Nat) :
    (b.change address fun q => { q with attrList := q.attrList ++ attrs }).Defines defined := by
  have keepsName (q : QualNode) : { q with attrList := q.attrList ++ attrs }.name = q.name := rfl
  exact QualSet.change_defines keepsName defines

theorem cclQualAddSet_sound (sound : b.Sound) : (cclQualAddSet b name attrs).Sound := by
  unfold cclQualAddSet
  split
  · exact addAttrs_sound attrs sound _
  · exact addAttrs_sound attrs (cclQualNew_sound sound name) _

theorem cclQualAddSet_forward : (cclQualAddSet b name attrs).Forward ↔ b.Forward := by
  unfold cclQualAddSet
  split
  · exact addAttrs_forward attrs _
  · exact (addAttrs_forward attrs _).trans (cclQualNew_forward name)

theorem cclQualAddSet_defines (defines : b.Defines defined) :
    (cclQualAddSet b name attrs).Defines (name :: defined) := by
  unfold cclQualAddSet
  split
  case h_1 q found =>
    obtain ⟨mem, named⟩ := cclQualLookup_found found
    refine addAttrs_defines attrs (fun n => ?_) _
    rw [mem_cons, defines n]
    constructor
    · rintro (rfl | old)
      · exact ⟨q, mem, named⟩
      · exact old
    · exact Or.inr
  case h_2 => exact addAttrs_defines attrs (cclQualNew_defines defines name) _

end Set

section Combi
variable {b : QualSet}

attribute [local simp] combiSubs matchUp dupLoop AliasesNew

theorem combiSubs_sound (sound : b.Sound) (names : List (List UInt8)) :
    (combiSubs b names).1.Sound ∧ (∃ added, (combiSubs b names).1.list = added ++ b.list) ∧
      ∀ s ∈ (combiSubs b names).2, ∃ p ∈ (combiSubs b names).1.list, s = some p.address := by
  induction names generalizing b with
  | nil => exact ⟨sound, ⟨[], rfl⟩, by simp [combiSubs]⟩
  | cons name _ ih =>
    rw [combiSubs]
    split
    case h_1 q found =>
      obtain ⟨kept, ⟨added, list⟩, subs⟩ := ih sound
      refine ⟨kept, ⟨added, list⟩, ?_⟩
      intro s mem
      cases mem with
      | head => exact ⟨q, by rw [list]; exact mem_append_right _ (cclQualLookup_found found).1, rfl⟩
      | tail _ mem => exact subs s mem
    case h_2 missed =>
      obtain ⟨kept, ⟨added, list⟩, subs⟩ := ih (cclQualNew_sound sound name)
      refine ⟨kept, ⟨added ++ [{ address := b.fresh, name, attrList := [], sub := none }], ?_⟩, ?_⟩
      · rw [list, append_assoc]
        rfl
      intro s mem
      cases mem with
      | head => exact ⟨_, by rw [list]; exact mem_append_right _ mem_cons_self, rfl⟩
      | tail _ mem => exact subs s mem

theorem combiSubs_forward {own : Nat} {old : List (List UInt8)} (fresh : own ≤ b.fresh)
    (age : ∀ q ∈ b.list, own ≤ q.address ↔ q.name ∉ old) (known : ∀ n ∈ old, ∃ q ∈ b.list, q.name = n) (names : List (List UInt8)) :
    (∀ s ∈ (combiSubs b names).2, ∀ a ∈ s, own ≤ a) ↔ ∀ name ∈ names, name ∉ old := by
  induction names generalizing b with
  | nil => simp [combiSubs]
  | cons name _ ih =>
    rw [combiSubs]
    split
    case h_1 q found =>
      obtain ⟨mem, rfl⟩ := cclQualLookup_found found
      simp only [forall_mem_cons, Option.mem_def, Option.some.injEq, forall_eq', age q mem]
      exact and_congr_right fun _ => ih fresh age known
    case h_2 missed =>
      -- a name that is not known is not old, and what is made for it is younger
      have new : name ∉ old := by
        intro mem
        obtain ⟨q, memq, named⟩ := known name mem
        exact cclQualLookup_missed missed q memq named
      have rest := @ih (cclQualNew b name) (Nat.le_succ_of_le fresh) ?_ ?_
      · simp only [forall_mem_cons, Option.mem_def, Option.some.injEq, forall_eq']
        exact and_congr (iff_of_true fresh new) rest
      · intro q mem
        cases mem with
        | head => exact iff_of_true fresh new
        | tail _ mem => exact age q mem
      · intro n mem
        obtain ⟨q, memq, named⟩ := known n mem
        exact ⟨q, mem_cons_of_mem _ memq, named⟩

variable {defined : List (List UInt8)}

theorem combiSubs_defines (defines : b.Defines defined) (names : List (List UInt8)) :
    (combiSubs b names).1.Defines (names ++ defined) := by
  induction names generalizing b defined with
  | nil => exact defines
  | cons name _ ih =>
    rw [combiSubs]
    split
    case h_1 q found =>
      obtain ⟨mem, rfl⟩ := cclQualLookup_found found
      intro n
      rw [← ih defines n, cons_append, mem_cons, or_iff_right_of_imp]
      rintro rfl
      exact mem_append_right _ ((defines _).mpr ⟨q, mem, rfl⟩)
    case h_2 missed =>
      intro n
      rw [← ih (cclQualNew_defines defines name) n]
      simp only [cons_append, mem_cons, mem_append]
      tauto

theorem combiSubs_length (b : QualSet) (names : List (List UInt8)) : (combiSubs b names).2.length = names.length := by
  induction names generalizing b with
  | nil => rfl
  | cons _ _ ih =>
    rw [combiSubs]
    split
    case h_1 => rw [length_cons, ih, length_cons]
    case h_2 => rw [length_cons, ih, length_cons]

theorem combiSubs_lookup {q : QualNode} (known : cclQualLookup b n = some q) (names : List (List UInt8)) :
    cclQualLookup (combiSubs b names).1 n = some q := by
  induction names generalizing b with
  | nil => exact known
  | cons name _ ih =>
    rw [combiSubs]
    split
    case h_1 => exact ih known
    case h_2 missed =>
      have other : name ≠ n := by
        rintro rfl
        rw [known] at missed
        cases missed
      apply ih
      rw [cclQualLookup, cclQualNew, find?_cons_of_neg (by simpa using other)]
      exact known

variable {n : List UInt8} {names : List (List UInt8)}

theorem cclQualAddCombi_lookup (new : cclQualLookup b n = none) :
    cclQualLookup (cclQualAddCombi b n names) n =
      some { address := b.fresh, name := n, attrList := [], sub := some (combiSubs (cclQualNew b n) names).2 } := by
  have own : cclQualLookup (cclQualNew b n) n = some { address := b.fresh, name := n, attrList := [], sub := none } := by
    rw [cclQualLookup, cclQualNew, find?_cons_of_pos (by simp)]
  rw [cclQualAddCombi, new, Option.isSome_none, if_neg (by decide),
    @cclQualLookup_change _ (fun q => { q with sub := some (combiSubs (cclQualNew b n) names).2 }) _ (fun _ => rfl), combiSubs_lookup own,
    Option.map_some, if_pos rfl]

theorem cclQualAddCombi_sound (sound : b.Sound) : (cclQualAddCombi b n names).Sound := by
  unfold cclQualAddCombi
  split
  · exact sound
  · obtain ⟨kept, -, subs⟩ := combiSubs_sound (cclQualNew_sound sound n) names
    refine @QualSet.change_sound _ (fun q => { q with sub := some _ }) _ (fun _ => rfl) kept ?_
    intro q _ _ other hasSubs
    obtain rfl := Option.some.inj hasSubs
    exact subs

theorem combiSubs_old (b : QualSet) (names : List (List UInt8)) : ((combiSubs b names).1.Forward ↔ b.Forward) ∧
    ∀ q ∈ (combiSubs b names).1.list, q ∈ b.list ∨ q.sub = none := by
  induction names generalizing b with
  | nil => exact ⟨Iff.rfl, fun _ => Or.inl⟩
  | cons name _ ih =>
    rw [combiSubs]
    split
    case h_1 => exact ih b
    case h_2 =>
      obtain ⟨forward, old⟩ := ih (cclQualNew b name)
      refine ⟨forward.trans (cclQualNew_forward name), ?_⟩
      intro q mem
      cases old q mem with
      | inl before =>
        cases before with
        | head => exact Or.inr rfl
        | tail _ before => exact Or.inl before
      | inr fresh => exact Or.inr fresh

theorem cclQualAddCombi_forward (sound : b.Sound) (defines : b.Defines defined) :
    (cclQualAddCombi b n names).Forward ↔ b.Forward ∧ (n ∉ defined → ∀ name ∈ names, name ∉ defined) := by
  unfold cclQualAddCombi
  simp only [cclQualLookup_isSome defines]
  split
  case isTrue mem => simp [mem]
  case isFalse new =>
    set grown := (combiSubs (cclQualNew b n) names).1 with grownIs
    set own := (combiSubs (cclQualNew b n) names).2
    have aliases : (∀ s ∈ own, ∀ a ∈ s, b.fresh ≤ a) ↔ ∀ name ∈ names, name ∉ defined := by
      refine combiSubs_forward (Nat.le_succ _) ?_ ?_ names
      · intro q mem
        cases mem with
        | head => exact iff_of_true (Nat.le_refl _) new
        | tail _ old => exact iff_of_false (Nat.not_le.mpr (sound.fresh q old)) fun absent => absent ((defines _).mpr ⟨q, old, rfl⟩)
      · intro name known
        obtain ⟨q, mem, named⟩ := (defines name).mp known
        exact ⟨q, mem_cons_of_mem _ mem, named⟩
    have before : grown.Forward ↔ b.Forward := (combiSubs_old _ names).1.trans (cclQualNew_forward n)
    -- the only qualifier at this address has no aliases yet
    have single (q : QualNode) (mem : q ∈ grown.list) (here : q.address = b.fresh) : q.sub = none := by
      cases (combiSubs_old _ names).2 q mem with
      | inl old =>
        cases old with
        | head => rfl
        | tail _ old => exact absurd here (Nat.ne_of_lt (sound.fresh q old))
      | inr fresh => exact fresh
    have present : ∃ q ∈ grown.list, q.address = b.fresh := by
      obtain ⟨added, list⟩ := (combiSubs_sound (cclQualNew_sound sound n) names).2.1
      exact ⟨_, by rw [grownIs, list]; exact mem_append_right _ mem_cons_self, rfl⟩
    rw [@QualSet.change_forward _ (fun q => { q with sub := some own }) _ fun _ => rfl, ← before]
    simp only [new, not_false_eq_true, true_imp_iff, ← aliases]
    constructor
    · intro forward
      constructor
      · intro q mem subs hasSubs
        have here : q.address ≠ b.fresh := by
          intro here
          rw [single q mem here] at hasSubs
          cases hasSubs
        exact forward q mem subs (by rwa [if_neg here])
      · obtain ⟨q, mem, here⟩ := present
        rw [← here]
        exact forward q mem own (by rw [if_pos here]; rfl)
    · rintro ⟨forward, young⟩ q mem subs hasSubs
      split at hasSubs
      case isTrue here =>
        obtain rfl := Option.some.inj hasSubs
        rwa [here]
      case isFalse => exact forward q mem subs hasSubs

theorem cclQualAddCombi_defines (defines : b.Defines defined) :
    (cclQualAddCombi b n names).Defines (if n ∈ defined then defined else names ++ n :: defined) := by
  unfold cclQualAddCombi
  simp only [cclQualLookup_isSome defines]
  split
  · exact defines
  · exact @QualSet.change_defines _ (fun q => { q with sub := some _ }) _ (fun _ => rfl) _
      (combiSubs_defines (cclQualNew_defines defines n) names)

end Combi

theorem cclQualAddSpecial_list {b b' : QualSet} {n cp : List UInt8} (run : cclQualAddSpecial b n cp = some b') :
    b'.list = b.list ∧ b'.fresh = b.fresh := by
  obtain ⟨values, -, rfl⟩ := Option.map_eq_some_iff.mp run
  unfold cclQualAddSpecialAr
  split <;> exact ⟨rfl, rfl⟩

theorem QualSet.calls_forward {calls : List QualCall} {b b' : QualSet} {defined : List (List UInt8)} (sound : b.Sound)
    (defines : b.Defines defined) (run : b.calls calls = some b') : b'.Sound ∧ (b'.Forward ↔ b.Forward ∧ AliasesNew defined calls) := by
  induction calls generalizing b defined with
  | nil =>
    obtain rfl := Option.some.inj run
    exact ⟨sound, by simp [AliasesNew]⟩
  | cons call _ ih =>
    obtain ⟨after, called, ran⟩ := Option.bind_eq_some_iff.mp run
    cases call with
    | set name attrs =>
      obtain rfl := Option.some.inj called
      obtain ⟨kept, forward⟩ := ih (cclQualAddSet_sound name attrs sound) (cclQualAddSet_defines name attrs defines) ran
      rw [cclQualAddSet_forward] at forward
      exact ⟨kept, forward⟩
    | combi n =>
      obtain rfl := Option.some.inj called
      obtain ⟨kept, forward⟩ := ih (cclQualAddCombi_sound sound) (cclQualAddCombi_defines defines) ran
      refine ⟨kept, forward.trans ?_⟩
      rw [cclQualAddCombi_forward sound defines, and_assoc]
      refine and_congr_right fun _ => ?_
      by_cases known : n ∈ defined
      · simp [AliasesNew, known]
      · simp [AliasesNew, known]
    | special =>
      obtain ⟨list, fresh⟩ := cclQualAddSpecial_list called
      have same : after = { b with special := after.special } := by rw [← list, ← fresh]
      rw [same] at ran
      exact @ih { b with special := after.special } _ ⟨sound.order, sound.fresh, sound.sub⟩ defines ran

/-! ### The copy -/

def retarget (original : List QualNode) (i : Nat) (s : Option Nat) : Option Nat :=
  (original.findIdx? fun q => some q.address = s).filter fun p => p ≤ i

def copyOf (original : List QualNode) (i : Nat) (q : QualNode) : QualNode :=
  { address := i, name := q.name, attrList := q.attrList, sub := q.sub.map fun subs => subs.map (retarget original i) }

theorem matchUp_eq {original copied : List QualNode} {s : Option Nat} (found : ∃ q ∈ original, s = some q.address) :
    matchUp original copied s = (original.findIdx? fun q => some q.address = s).bind fun p => copied[p]?.map QualNode.address := by
  induction original generalizing copied with
  | nil => simp at found
  | cons q rest ih =>
    cases copied with
    | nil => simp [matchUp]
    | cons =>
      rw [matchUp]
      rw [findIdx?_cons]
      by_cases here : some q.address = s
      · simp [here]
      · simp only [here, if_false, decide_false, Bool.false_eq_true]
        rw [ih]
        · cases rest.findIdx? fun q => some q.address = s <;> simp
        · obtain ⟨p, mem, rfl⟩ := found
          cases mem with
          | head => exact absurd rfl here
          | tail _ mem => exact ⟨p, mem, rfl⟩

theorem matchUp_retarget {original copied : List QualNode} {i : Nat} {s : Option Nat}
    (numbered : copied.map QualNode.address = List.range (i + 1))
    (found : ∃ q ∈ original, s = some q.address) : matchUp original copied s = retarget original i s := by
  rw [matchUp_eq found, retarget]
  cases original.findIdx? fun q => some q.address = s with
  | none => rfl
  | some p =>
    rw [Option.bind_some, ← getElem?_map, numbered]
    by_cases reached : p ≤ i
    · rw [getElem?_range (Nat.lt_succ_of_le reached)]
      simp [Option.filter, reached]
    · rw [getElem?_eq_none (by simpa [Nat.succ_le_iff] using reached)]
      simp [Option.filter, reached]

theorem dupLoop_eq {original rest copied : List QualNode} (numbered : copied.map QualNode.address = List.range copied.length)
    (found : ∀ q ∈ rest, ∀ subs ∈ q.sub, ∀ s ∈ subs, ∃ p ∈ original, s = some p.address) :
    dupLoop original rest copied = copied ++ rest.mapIdx fun i q => copyOf original (copied.length + i) q := by
  induction rest generalizing copied with
  | nil => simp [dupLoop]
  | cons q _ ih =>
    have grown (c : QualNode) (here : c.address = copied.length) :
        (copied ++ [c]).map QualNode.address = List.range (copied.length + 1) := by
      rw [map_append, numbered, range_succ]
      simp [here]
    have copy : q.sub.map (fun subs => subs.map (matchUp original
        (copied ++ [{ address := copied.length, name := q.name, attrList := q.attrList, sub := none }])))
          = (copyOf original copied.length q).sub := by
      cases hasSubs : q.sub with
      | none => simp [copyOf, hasSubs]
      | some subs =>
        simp only [copyOf, hasSubs, Option.map_some, Option.some.injEq]
        apply map_congr_left
        intro s mem
        exact matchUp_retarget (grown _ rfl) (found q mem_cons_self subs hasSubs s mem)
    rw [dupLoop]
    simp only [copy]
    rw [ih (by rw [grown _ rfl, length_append]; rfl) fun q mem => found q (mem_cons_of_mem _ mem)]
    simp [mapIdx_cons, copyOf, Nat.add_comm, Nat.add_left_comm]

theorem cclQualDup_list (sound : b.Sound) : (cclQualDup b).list = b.list.mapIdx (copyOf b.list) := by
  have eq := @dupLoop_eq b.list b.list [] rfl sound.sub
  simpa [cclQualDup] using eq

section Copy
variable {b : QualSet} (sound : b.Sound) {i p : Nat} {q r : QualNode}
include sound

theorem QualSet.Sound.findIdx? (at_ : b.list[p]? = some r) : (b.list.findIdx? fun q => some q.address = some r.address) = some p := by
  obtain ⟨lt, rfl⟩ := List.getElem?_eq_some_iff.mp at_
  rw [findIdx?_eq_some_iff_getElem]
  refine ⟨lt, by simp, ?_⟩
  intro j before
  have older := pairwise_iff_getElem.mp sound.order j p (by omega) lt before
  simp
  omega

theorem retarget_eq (own : b.list[i]? = some q) (other : b.list[p]? = some r) :
    retarget b.list i (some r.address) = if q.address ≤ r.address then some p else none := by
  rw [retarget, sound.findIdx? other]
  obtain ⟨lti, rfl⟩ := List.getElem?_eq_some_iff.mp own
  obtain ⟨ltp, rfl⟩ := List.getElem?_eq_some_iff.mp other
  have before : p ≤ i ↔ b.list[i].address ≤ b.list[p].address := by
    have strict := pairwise_iff_getElem.mp sound.order
    rcases Nat.lt_trichotomy p i with lt | rfl | lt
    · have := strict p i ltp lti lt
      omega
    · simp
    · have := strict i p lti ltp lt
      omega
  simp [Option.filter, before]

theorem QualSet.Sound.at (at_ : b.list[p]? = some r) : b.at r.address = some r.toQual := by
  obtain ⟨lt, rfl⟩ := List.getElem?_eq_some_iff.mp at_
  rw [QualSet.at, find?_eq_some_iff_getElem.mpr]
  · rfl
  · refine ⟨by simp, p, lt, rfl, ?_⟩
    intro j before
    have older := pairwise_iff_getElem.mp sound.order j p (by omega) lt before
    simp
    omega

theorem cclQualDup_at (at_ : b.list[p]? = some r) : (cclQualDup b).at p = some r.toQual := by
  obtain ⟨lt, rfl⟩ := List.getElem?_eq_some_iff.mp at_
  have found : (b.list.mapIdx (copyOf b.list)).find? (fun c => c.address = p) = some (copyOf b.list p b.list[p]) := by
    rw [find?_eq_some_iff_getElem]
    refine ⟨by simp [copyOf], p, by simpa using lt, by simp, ?_⟩
    intro j before
    simp [copyOf]
    omega
  rw [QualSet.at, cclQualDup_list sound, found]
  rfl

theorem retarget_at (own : b.list[i]? = some q) {a : Nat} (mem : ∃ r ∈ b.list, some a = some r.address) (young : q.address ≤ a) :
    (retarget b.list i (some a)).bind (cclQualDup b).at = b.at a := by
  obtain ⟨r, mem, same⟩ := mem
  obtain rfl := Option.some.inj same
  obtain ⟨p, other⟩ := mem_iff_getElem?.mp mem
  rw [retarget_eq sound own other, if_pos young, sound.at other]
  exact cclQualDup_at sound other

end Copy

/-- The alias of a qualifier with the number `seq`. -/
def QualSet.aliasAt (b : QualSet) (q : QualNode) (seq : Nat) : Option Qual :=
  let subs : List (Option Nat) := q.sub.getD []
  (subs[seq]?).join.bind b.at

structure Like (b copy : QualSet) (q c : QualNode) : Prop where
  qual : c.toQual = q.toQual
  noSub : c.noSub = q.noSub
  aliasAt : ∀ seq, copy.aliasAt c seq = b.aliasAt q seq

theorem copyOf_like (sound : b.Sound) (forward : b.Forward) {i : Nat} {q : QualNode} (own : b.list[i]? = some q) :
    Like b (cclQualDup b) q (copyOf b.list i q) where
  qual := rfl
  noSub := by
    cases hasSubs : q.sub <;> simp [QualNode.noSub, copyOf, hasSubs]
  aliasAt := by
    intro seq
    have mem := mem_of_getElem? own
    cases hasSubs : q.sub with
    | none => simp [QualSet.aliasAt, copyOf, hasSubs]
    | some subs =>
      simp only [QualSet.aliasAt, copyOf, hasSubs, Option.map_some, Option.getD_some, getElem?_map]
      cases hasAlias : subs[seq]? with
      | none => rfl
      | some s =>
        have mems := mem_of_getElem? hasAlias
        obtain ⟨r, memr, rfl⟩ := sound.sub q mem subs hasSubs s mems
        exact retarget_at sound own ⟨r, memr, rfl⟩ (forward q mem subs hasSubs _ mems _ rfl)

theorem find?_forall₂ {α β : Type} {R : α → β → Prop} {l : List α} {l' : List β} (related : List.Forall₂ R l l')
    {p : α → Bool} {p' : β → Bool}
    (agree : ∀ a b, R a b → p' b = p a) : (l.find? p = none ∧ l'.find? p' = none) ∨
      ∃ a b, R a b ∧ l.find? p = some a ∧ l'.find? p' = some b := by
  induction related with
  | nil => exact Or.inl ⟨rfl, rfl⟩
  | @cons a b l l' here _ ih =>
    rw [find?_cons, find?_cons, agree a b here]
    cases p a with
    | true => exact Or.inr ⟨a, b, here, rfl, rfl⟩
    | false => exact ih

theorem search_like {b copy : QualSet} (like : List.Forall₂ (Like b copy) b.list copy.list) (special : copy.special = b.special)
    (cclp : CclParser) (name : List UInt8) (nameLen seq : Nat) : copy.search cclp name nameLen seq = b.search cclp name nameLen seq := by
  unfold QualSet.search
  rw [special]
  set parser : CclParser := { cclp with bibset := { list := [], special := b.special } }
  have agree (q c : QualNode) (here : Like b copy q c) : parser.sameName name c.name nameLen = parser.sameName name q.name nameLen := by
    rw [show c.name = q.name from congrArg Qual.name here.qual]
  rcases find?_forall₂ like agree with ⟨missed, missed'⟩ | ⟨q, c, here, found, found'⟩
  · simp only [missed, missed']
  · have same := here.aliasAt seq
    simp only [QualSet.aliasAt] at same
    simp only [found, found', here.noSub, same, here.qual]

theorem cclQualDup_preserves (sound : b.Sound) : Preserved b (cclQualDup b) ↔ b.Forward := by
  constructor
  · intro preserved q mem subs hasSubs s mems a at_
    obtain rfl : s = some a := at_
    obtain ⟨r, memr, same⟩ := sound.sub q mem subs hasSubs _ mems
    obtain rfl := Option.some.inj same
    obtain ⟨i, own⟩ := mem_iff_getElem?.mp mem
    obtain ⟨p, other⟩ := mem_iff_getElem?.mp memr
    -- otherwise the copy has a null pointer there
    by_contra older
    have null := retarget_eq sound own other
    rw [if_neg older] at null
    refine preserved.sub (copyOf b.list i q) ?_ (subs.map (retarget b.list i)) ?_ ?_
    · rw [cclQualDup_list sound, mem_iff_getElem?]
      exact ⟨i, by rw [getElem?_mapIdx, own]; rfl⟩
    · simp [copyOf, Option.mem_def.mp hasSubs]
    · rw [← null]
      exact mem_map_of_mem mems
  · intro forward
    refine ⟨search_like ?_ rfl, rfl, ?_⟩
    · rw [cclQualDup_list sound, forall₂_iff_get]
      refine ⟨by simp, ?_⟩
      intro i lt lt'
      simp only [get_eq_getElem, getElem_mapIdx]
      exact copyOf_like sound forward (getElem?_eq_getElem lt)
    · intro c memc subs hasSubs null
      rw [cclQualDup_list sound, mem_iff_getElem?] at memc
      obtain ⟨i, at_⟩ := memc
      rw [getElem?_mapIdx] at at_
      obtain ⟨q, own, rfl⟩ := Option.map_eq_some_iff.mp at_
      obtain ⟨olds, old, rfl⟩ := Option.map_eq_some_iff.mp hasSubs
      obtain ⟨s, mems, lost⟩ := mem_map.mp null
      have mem := mem_of_getElem? own
      obtain ⟨r, memr, rfl⟩ := sound.sub q mem olds old s mems
      obtain ⟨p, other⟩ := mem_iff_getElem?.mp memr
      rw [retarget_eq sound own other, if_pos (forward q mem olds old _ mems _ rfl)] at lost
      cases lost

/-- Copying a set of qualifiers keeps its meaning exactly when the aliases of a combination were not defined before it. -/
theorem cclQualDup_preserves_iff {calls : List QualCall} {b : QualSet} (built : cclQualMk.calls calls = some b) :
    Preserved b (cclQualDup b) ↔ AliasesNew [] calls := by
  obtain ⟨sound, forward⟩ := QualSet.calls_forward cclQualMk_sound cclQualMk_defines built
  rw [cclQualDup_preserves sound, forward]
  exact and_iff_right cclQualMk_forward

/-- A combination with two names, one of them its own. -/
theorem cclQualDup_preserves_own :
    Preserved (cclQualAddCombi cclQualMk (ascii "a") [ascii "a", ascii "b"])
        (cclQualDup (cclQualAddCombi cclQualMk (ascii "a") [ascii "a", ascii "b"])) ↔
      AliasesNew [] [.combi (ascii "a") [ascii "a", ascii "b"]] :=
  cclQualDup_preserves_iff rfl

/-- The qualifier `ti` and then a combination of it: the alias of the copy is null. -/
theorem cclQualDup_loses :
    ¬ ∀ calls b, cclQualMk.calls calls = some b → Preserved b (cclQualDup b) := by
  intro preserves
  have copy := (preserves [.set (ascii "ti") [], .combi (ascii "a") [ascii "ti"]] _ rfl).sub
  exact absurd copy (by decide)

end Yaz.Ccl
