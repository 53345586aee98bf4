import Yaz.Ccl.Query
import Yaz.Foundation.WordsBy

/-! Stop words: `ccl_stop_words.c`, and `ccl_search_stop` of `cclqual.c`.

`ccl_remove_stop_r` does not store what it gets for the operands of a node that stays: where an operand was
replaced by one of its own operands, the node points to one that was deleted.
-/

set_option autoImplicit false

namespace Yaz.Ccl
open List
open Yaz.Comstack (ascii)
open Yaz.Foundation

/-- `ccl_search_stop`; the name of the special is cut where its buffer ends. -/
def cclSearchStop (bibset : Bibset) (qname : Option (List UInt8)) (src : List UInt8) : Bool :=
  let own := qname.bind fun qname => cclQualSearchSpecial bibset ((ascii "stop." ++ qname).take 78)
  match own.or (cclQualSearchSpecial bibset (ascii "stop.*")) with
  | some slist => slist.any fun word => src.length = word.length && cclMemicmp word src src.length
  | none => false

/-- `blank_chars`. -/
def blankChar (c : UInt8) : Bool := (ascii " \r\n\t").contains c

/-- `struct ccl_stop_info`. -/
structure StopInfo where
  qualname : Option (List UInt8)
  term : List UInt8
  deriving DecidableEq

/-- The scan for a stop word from `cp` on: the first one, and the text without it. -/
def findStop (stop : List UInt8 → Bool) : (rounds : Nat) → (cp : List UInt8) → Option (List UInt8 × List UInt8)
  | 0, _ => none
  | rounds + 1, cp =>
    let cp0 := cp.dropWhile blankChar
    let word := cp0.takeWhile (!blankChar ·)
    let behind := cp0.dropWhile (!blankChar ·)
    if cp0 = [] then none
    else if stop word then some (word, cp.takeWhile blankChar ++ behind.dropWhile blankChar)
    else (findStop stop rounds behind).map fun (found, rest) => (found, cp.takeWhile blankChar ++ word ++ rest)

/-- The loop over `found`: the words that were removed, and the text. -/
def removeStops (stop : List UInt8 → Bool) : (rounds : Nat) → (term : List UInt8) → List (List UInt8) × List UInt8
  | 0, term => ([], term)
  | rounds + 1, term =>
    match findStop stop term.length term with
    | some (word, term) =>
      let (words, term) := removeStops stop rounds term
      (word :: words, term)
    | none => ([], term)

/-- What `ccl_remove_stop_r` returns for a node: the node itself, one that was below it, no node, or a node over one that was
deleted; `dangling` is also where it deletes what is no node. -/
inductive Removal where
  | kept (p : RpnNode)
  | moved (p : RpnNode)
  | gone
  | dangling
  deriving DecidableEq

def Removal.lifted : Removal → Removal
  | .kept p => .moved p
  | other => other

/-- `ccl_rpn_delete` goes on to `p[2]` of a proximity operator only, which has to be a node or a null pointer. -/
def Third.deletable (third : Third) (kind : RpnKind) : Bool :=
  match kind, third with
  | .prox, .attrs _ | .prox, .unset => false
  | _, _ => true

def Removal.over (kind : RpnKind) (third : Third) : (left right : Removal) → Removal
  | .gone, right => if third.deletable kind then right.lifted else .dangling
  | left, .gone => if third.deletable kind then left.lifted else .dangling
  | .kept left, .kept right => .kept (.bool kind left right third)
  | _, _ => .dangling

/-- `ccl_remove_stop_r`, with the items that were removed before and with them those of this node. -/
def cclRemoveStopR (bibset : Bibset) : (removedItems : List StopInfo) → RpnNode → Removal × List StopInfo
  | removedItems, .bool kind p0 p1 third =>
    let (left, removedItems) := cclRemoveStopR bibset removedItems p0
    let (right, removedItems) := cclRemoveStopR bibset removedItems p1
    (.over kind third left right, removedItems)
  | removedItems, .set setname => (.kept (.set setname), removedItems)
  | removedItems, .term t =>
    let (words, text) := removeStops (cclSearchStop bibset t.qual) t.term.length t.term
    let removedItems := removedItems ++ words.map fun word => { qualname := t.qual, term := word }
    if removedItems = [] then (.kept (.term { t with term := text }), removedItems)
    else
      let chopped := text.rdropWhile blankChar
      if chopped = [] then (.gone, removedItems) else (.kept (.term { t with term := chopped }), removedItems)

/-- A tree after `ccl_stop_words_tree`. -/
inductive TreeAfter where
  | tree (p : RpnNode)
  | null
  | dangling
  deriving DecidableEq

def Removal.after : Removal → TreeAfter
  | .kept p | .moved p => .tree p
  | .gone => .null
  | .dangling => .dangling

/-- What `ccl_stop_words_tree` returns and leaves: the tree, and what `ccl_stop_words_info` lists. -/
structure StopWords where
  value : Int
  tree : TreeAfter
  removedItems : List StopInfo
  deriving DecidableEq

def cclStopWordsTree (bibset : Bibset) (t : RpnNode) : StopWords :=
  let (r, removedItems) := cclRemoveStopR bibset [] t
  { value := if removedItems = [] then 0 else 1, tree := r.after, removedItems := removedItems }

def wordsOf (text : List UInt8) : List (List UInt8) := wordsBy blankChar text

section
variable {stop : List UInt8 → Bool} {cp : List UInt8}

theorem wordsOf_front (more : cp.dropWhile blankChar ≠ []) :
    (cp.dropWhile blankChar).takeWhile (!blankChar ·) ≠ [] ∧
      wordsOf cp = (cp.dropWhile blankChar).takeWhile (!blankChar ·) :: wordsOf ((cp.dropWhile blankChar).dropWhile (!blankChar ·)) := by
  have starts : (cp.dropWhile blankChar).takeWhile (!blankChar ·) ≠ [] := by
    obtain ⟨c, cp0, is⟩ := exists_cons_of_ne_nil more
    have first : blankChar c = false := by
      have := head_dropWhile_not blankChar more
      simpa [is] using this
    rw [is, takeWhile_cons_of_pos (by simpa using first)]
    exact cons_ne_nil _ _
  refine ⟨starts, ?_⟩
  rw [wordsOf, ← wordsBy_dropWhile, wordsBy_front starts]
  rfl

theorem length_behind (more : cp.dropWhile blankChar ≠ []) :
    ((cp.dropWhile blankChar).dropWhile (!blankChar ·)).length < cp.length := by
  have word := length_pos_iff.mpr (wordsOf_front more).1
  have parts := congrArg List.length (@List.takeWhile_append_dropWhile _ (!blankChar ·) (cp.dropWhile blankChar))
  have blanks := congrArg List.length (@List.takeWhile_append_dropWhile _ blankChar cp)
  rw [length_append] at parts blanks
  omega

theorem wordsOf_eq_nil (nothing : cp.dropWhile blankChar = []) : wordsOf cp = [] := by
  rw [wordsOf, ← wordsBy_dropWhile, nothing, wordsBy_nil]

structure Finds (stop : List UInt8 → Bool) (cp found rest : List UInt8) : Prop where
  isStop : stop found = true
  shorter : rest.length < cp.length
  blanks : ∃ tail, rest = cp.takeWhile blankChar ++ tail
  words : ∃ before behind, wordsOf cp = before ++ found :: behind ∧ wordsOf rest = before ++ behind ∧ ∀ word ∈ before, stop word = false

theorem findStop_none {rounds : Nat} (enough : cp.length ≤ rounds) (none : findStop stop rounds cp = none) :
    ∀ word ∈ wordsOf cp, stop word = false := by
  induction rounds generalizing cp with
  | zero =>
    obtain rfl := length_eq_zero_iff.mp (Nat.le_zero.mp enough)
    intro word member
    cases member
  | succ _ ih =>
    rw [findStop] at none
    split at none
    next nothing =>
      rw [wordsOf_eq_nil nothing]
      intro word member
      cases member
    next more =>
      split at none
      next => cases none
      next notStop =>
        rw [(wordsOf_front more).2]
        intro word member
        rcases mem_cons.mp member with rfl | behind
        · simpa using notStop
        · have := length_behind more
          exact ih (by omega) (Option.map_eq_none_iff.mp none) word behind

theorem Finds.apart {found rest : List UInt8} (finds : Finds stop cp found rest) (behind : ∀ c ∈ cp.head?, blankChar c = true) :
    ∀ c ∈ rest.head?, blankChar c = true := by
  obtain ⟨tail, rfl⟩ := finds.blanks
  cases cp with
  | nil =>
    obtain ⟨before, after, words, -⟩ := finds.words
    exact absurd words (by simp [wordsOf, wordsBy_nil])
  | cons d =>
    have isBlank := behind d rfl
    rw [takeWhile_cons_of_pos isBlank]
    intro c first
    cases first
    exact isBlank

theorem findStop_finds {rounds : Nat} {found rest : List UInt8} (is : findStop stop rounds cp = some (found, rest)) :
    Finds stop cp found rest := by
  induction rounds generalizing cp found rest with
  | zero => cases is
  | succ _ ih =>
    rw [findStop] at is
    split at is
    next => cases is
    next more =>
      obtain ⟨starts, front⟩ := wordsOf_front more
      have word := length_pos_iff.mpr starts
      have parts := congrArg List.length (@List.takeWhile_append_dropWhile _ (!blankChar ·) (cp.dropWhile blankChar))
      have blanks := congrArg List.length (@List.takeWhile_append_dropWhile _ blankChar cp)
      rw [length_append] at parts blanks
      -- the first word is a stop word, or it stays and the search goes on behind it
      split at is
      next isStop =>
        cases is
        refine ⟨isStop, ?_, ⟨_, rfl⟩, [], _, front, ?_, by simp⟩
        · have := length_dropWhile_le blankChar ((cp.dropWhile blankChar).dropWhile (!blankChar ·))
          rw [length_append]
          omega
        · rw [nil_append, wordsOf, wordsBy_blanks_append (fun _ member => mem_takeWhile_imp member), wordsBy_dropWhile]
          rfl
      next notStop =>
        obtain ⟨⟨found', rest'⟩, isRest, same⟩ := Option.map_eq_some_iff.mp is
        cases same
        have finds := ih isRest
        have apart := finds.apart (blank_behind _)
        obtain ⟨before, after, words, wordsRest, notBefore⟩ := finds.words
        refine ⟨finds.isStop, ?_, ⟨_, append_assoc _ _ _⟩,
          (cp.dropWhile blankChar).takeWhile (!blankChar ·) :: before, after, ?_, ?_, ?_⟩
        · have := finds.shorter
          rw [length_append, length_append]
          omega
        · rw [front, words, cons_append]
        · have bare : ∀ c ∈ (cp.dropWhile blankChar).takeWhile (!blankChar ·), blankChar c = false := by
            intro c member
            simpa using mem_takeWhile_imp member
          rw [wordsOf, append_assoc, wordsBy_blanks_append (fun _ member => mem_takeWhile_imp member),
            wordsBy_word bare starts apart, cons_append, ← wordsRest]
          rfl
        · intro w member
          rcases mem_cons.mp member with rfl | member
          · simpa using notStop
          · exact notBefore w member

theorem removeStops_words {rounds : Nat} {term : List UInt8} (enough : term.length ≤ rounds) :
    (removeStops stop rounds term).1 = (wordsOf term).filter stop ∧
      wordsOf (removeStops stop rounds term).2 = (wordsOf term).filter (!stop ·) := by
  induction rounds generalizing term with
  | zero =>
    obtain rfl := length_eq_zero_iff.mp (Nat.le_zero.mp enough)
    exact ⟨rfl, rfl⟩
  | succ rounds ih =>
    rw [removeStops]
    cases is : findStop stop term.length term with
    | none =>
      have none := findStop_none le_rfl is
      refine ⟨(filter_eq_nil_iff.mpr ?_).symm, (filter_eq_self.mpr ?_).symm⟩
      · intro word member
        rw [none word member]
        exact Bool.false_ne_true
      · intro word member
        rw [none word member]
        rfl
    | some both =>
      obtain ⟨found, rest⟩ := both
      -- the words before the one found are no stop words, and the loop goes on with a shorter text
      have finds := findStop_finds is
      obtain ⟨before, behind, words, wordsRest, notBefore⟩ := finds.words
      have notStops : before.filter stop = [] := by
        refine filter_eq_nil_iff.mpr fun word member => ?_
        rw [notBefore word member]
        exact Bool.false_ne_true
      have := finds.shorter
      obtain ⟨removed, left⟩ := ih (show rest.length ≤ rounds by omega)
      constructor
      · dsimp only
        rw [removed, words, wordsRest, filter_append, filter_append, notStops, filter_cons_of_pos finds.isStop]
        rfl
      · dsimp only
        rw [left, words, wordsRest, filter_append, filter_append, filter_cons_of_neg (by simp [finds.isStop])]

theorem removeStops_unchanged {rounds : Nat} {term : List UInt8} (none : (removeStops stop rounds term).1 = []) :
    (removeStops stop rounds term).2 = term := by
  cases rounds with
  | zero => rfl
  | succ =>
    rw [removeStops] at none ⊢
    cases is : findStop stop term.length term with
    | none => rfl
    | some =>
      rw [is] at none
      cases none

end

section
variable (bibset : Bibset)

def Term.stops (t : Term) : List (List UInt8) := (wordsOf t.term).filter (cclSearchStop bibset t.qual)
def Term.others (t : Term) : List (List UInt8) := (wordsOf t.term).filter (!cclSearchStop bibset t.qual ·)

def RpnNode.stopInfos : RpnNode → List StopInfo
  | .bool _ p0 p1 _ => p0.stopInfos ++ p1.stopInfos
  | .set _ => []
  | .term t => (t.stops bibset).map fun word => { qualname := t.qual, term := word }

def RpnNode.behindIt (behind : Bool) (p0 : RpnNode) : Bool := behind || !(p0.stopInfos bibset).isEmpty

/-- Nothing is left of the node; `behind` says that a word was removed before, and then a blank term is removed as well. -/
def RpnNode.vanishes : (behind : Bool) → RpnNode → Bool
  | behind, .bool kind p0 p1 third => third.deletable kind && (p0.vanishes behind && p1.vanishes (p0.behindIt bibset behind))
  | _, .set _ => false
  | behind, .term t => (t.others bibset).isEmpty && (behind || !(t.stops bibset).isEmpty)

def RpnNode.stays : (behind : Bool) → RpnNode → Bool
  | behind, .bool _ p0 p1 _ => p0.stays behind && p1.stays (p0.behindIt bibset behind)
  | _, .set _ => true
  | behind, .term t => !(RpnNode.term t).vanishes bibset behind

def RpnNode.leaves : (negative : Bool) → RpnNode → List (Bool × RpnNode)
  | negative, .bool kind p0 p1 _ => p0.leaves negative ++ p1.leaves (negative || kind = .not)
  | negative, p => [(negative, p)]

def RpnNode.survivors : (behind negative : Bool) → RpnNode → List (Bool × RpnNode)
  | behind, negative, .bool kind p0 p1 _ =>
    p0.survivors behind negative ++ p1.survivors (p0.behindIt bibset behind) (negative || kind = .not)
  | behind, negative, p => if p.vanishes bibset behind then [] else [(negative, p)]

def Cleaned : (out leaf : RpnNode) → Prop
  | .term out, .term t => out.qual = t.qual ∧ out.attrList = t.attrList ∧ wordsOf out.term = t.others bibset
  | .set out, .set setname => out = setname
  | _, _ => False

structure StopWordsLaw (tree r : RpnNode) : Prop where
  noStopWord : ∀ leaf ∈ r.leaves false, ∀ t, leaf.2 = .term t → ∀ word ∈ wordsOf t.term, cclSearchStop bibset t.qual word = false
  words : List.Forall₂ (fun out leaf => Cleaned bibset out.2 leaf.2) (r.leaves false) (tree.survivors bibset false false)
  negative : List.Forall₂ (fun out leaf => leaf.1 = true → out.1 = true) (r.leaves false) (tree.survivors bibset false false)
  again : cclStopWordsTree bibset r = { value := 0, tree := .tree r, removedItems := [] }

def RpnNode.meets : (behind : Bool) → RpnNode → Bool
  | behind, .bool kind p0 p1 third =>
    (p0.stays bibset behind && p1.stays bibset (p0.behindIt bibset behind)) ||
      (third.deletable kind && (p0.meets behind && p1.vanishes bibset (p0.behindIt bibset behind) ||
        kind ≠ .not && p0.vanishes bibset behind && p1.meets (p0.behindIt bibset behind)))
  | behind, p => !p.vanishes bibset behind

/-! ### Results for a node -/

variable {bibset}

abbrev SameLeaves (bibset : Bibset) : List (Bool × RpnNode) → List (Bool × RpnNode) → Prop :=
  List.Forall₂ fun out leaf => out.1 = leaf.1 ∧ Cleaned bibset out.2 leaf.2

def Removal.node? : Removal → Option RpnNode
  | .kept p | .moved p => some p
  | .gone | .dangling => none

theorem chopped_eq_nil {text : List UInt8} : text.rdropWhile blankChar = [] ↔ wordsOf text = [] := by
  rw [rdropWhile_eq_nil_iff, wordsOf, wordsBy_eq_nil_iff]

variable (removed : List StopInfo)

theorem remove_term (t : Term) :
    (cclRemoveStopR bibset removed (.term t)).2 = removed ++ (RpnNode.term t).stopInfos bibset ∧
      if (RpnNode.term t).vanishes bibset (!removed.isEmpty) then (cclRemoveStopR bibset removed (.term t)).1 = .gone
      else ∃ out, (cclRemoveStopR bibset removed (.term t)).1 = .kept (.term out) ∧ Cleaned bibset (.term out) (.term t) := by
  obtain ⟨words, others⟩ := @removeStops_words (cclSearchStop bibset t.qual) _ _ (le_refl t.term.length)
  rw [cclRemoveStopR, RpnNode.vanishes]
  dsimp only
  rw [words, show (wordsOf t.term).filter (cclSearchStop bibset t.qual) = t.stops bibset from rfl]
  change wordsOf (removeStops (cclSearchStop bibset t.qual) t.term.length t.term).2 = t.others bibset at others
  by_cases none : removed ++ (t.stops bibset).map (fun word => { qualname := t.qual, term := word : StopInfo }) = []
  · rw [if_pos none]
    refine ⟨rfl, ?_⟩
    rw [append_eq_nil_iff, map_eq_nil_iff] at none
    rw [none.1, none.2, if_neg (by simp)]
    exact ⟨_, rfl, rfl, rfl, others⟩
  · have behind : (!removed.isEmpty || !(t.stops bibset).isEmpty) = true := by
      rw [append_eq_nil_iff, map_eq_nil_iff] at none
      by_contra nothing
      simp only [Bool.or_eq_true, Bool.not_eq_true', isEmpty_eq_false_iff, not_or, not_not] at nothing
      exact none nothing
    rw [if_neg none, behind, Bool.and_true]
    by_cases gone : t.others bibset = []
    · rw [if_pos (chopped_eq_nil.mpr (others.trans gone)), gone, if_pos isEmpty_nil]
      exact ⟨rfl, rfl⟩
    · rw [if_neg fun chopped => gone (others.symm.trans (chopped_eq_nil.mp chopped)), if_neg (by simpa using gone)]
      refine ⟨rfl, _, rfl, rfl, rfl, ?_⟩
      rw [← others]
      exact wordsBy_rdropWhile _

theorem stopInfos_remove (p : RpnNode) :
    (cclRemoveStopR bibset removed p).2 = removed ++ p.stopInfos bibset := by
  induction p generalizing removed with
  | bool _ _ _ _ ih0 ih1 =>
    rw [cclRemoveStopR, RpnNode.stopInfos, ← append_assoc, ← ih0, ← ih1]
  | set => exact (append_nil removed).symm
  | term t => exact (remove_term removed t).1

theorem remove_bool (kind : RpnKind) (p0 p1 : RpnNode) (third : Third) :
    (cclRemoveStopR bibset removed (.bool kind p0 p1 third)).1 =
      .over kind third (cclRemoveStopR bibset removed p0).1 (cclRemoveStopR bibset (removed ++ p0.stopInfos bibset) p1).1 := by
  rw [cclRemoveStopR, ← stopInfos_remove]

theorem behindIt_eq (p0 : RpnNode) :
    p0.behindIt bibset (!removed.isEmpty) = !(removed ++ p0.stopInfos bibset).isEmpty := by
  cases removed <;> rfl

section

attribute [local simp] Removal.over Removal.lifted Removal.node?

theorem over_eq_gone (kind : RpnKind) (third : Third) (left right : Removal) :
    Removal.over kind third left right = .gone ↔ third.deletable kind = true ∧ left = .gone ∧ right = .gone := by
  by_cases deletable : third.deletable kind = true <;> cases left <;> cases right <;> simp [deletable]

theorem over_eq_kept (kind : RpnKind) (third : Third) (left right : Removal) (p : RpnNode) :
    Removal.over kind third left right = .kept p ↔ ∃ p0 p1, left = .kept p0 ∧ right = .kept p1 ∧ p = .bool kind p0 p1 third := by
  by_cases deletable : third.deletable kind = true <;> cases left <;> cases right <;> simp [deletable, eq_comm]

theorem over_eq_moved (kind : RpnKind) (third : Third) (left right : Removal) (p : RpnNode) :
    Removal.over kind third left right = .moved p ↔
      third.deletable kind = true ∧ (left = .gone ∧ right.node? = some p ∨ right = .gone ∧ left.node? = some p) := by
  by_cases deletable : third.deletable kind = true <;> cases left <;> cases right <;> simp [deletable]

end

theorem remove_gone_iff (p : RpnNode) :
    (cclRemoveStopR bibset removed p).1 = .gone ↔ p.vanishes bibset (!removed.isEmpty) = true := by
  induction p generalizing removed with
  | bool _ _ _ _ ih0 ih1 =>
    rw [remove_bool, over_eq_gone, ih0, ih1, RpnNode.vanishes, Bool.and_eq_true, Bool.and_eq_true, behindIt_eq]
  | set => simp [cclRemoveStopR, RpnNode.vanishes]
  | term t =>
    have result := (@remove_term bibset removed t).2
    split at result
    next vanishes => exact iff_of_true result vanishes
    next stays =>
      obtain ⟨out, kept, -⟩ := result
      rw [kept]
      exact iff_of_false (by simp) stays

theorem survivors_term (behind negative : Bool) (t : Term) :
    (RpnNode.term t).survivors bibset behind negative = if (RpnNode.term t).vanishes bibset behind then [] else [(negative, .term t)] :=
  rfl

theorem survivors_bool (behind negative : Bool) (kind : RpnKind) (p0 p1 : RpnNode) (third : Third) :
    (RpnNode.bool kind p0 p1 third).survivors bibset behind negative =
      p0.survivors bibset behind negative ++ p1.survivors bibset (p0.behindIt bibset behind) (negative || kind = .not) :=
  rfl

/-- A node stays where none of its terms vanishes, and then its leaves are those that it had. -/
theorem remove_kept (p : RpnNode) :
    if p.stays bibset (!removed.isEmpty) then
      ∃ out, (cclRemoveStopR bibset removed p).1 = .kept out ∧
        ∀ negative, SameLeaves bibset (out.leaves negative) (p.survivors bibset (!removed.isEmpty) negative)
    else ∀ out, (cclRemoveStopR bibset removed p).1 ≠ .kept out := by
  induction p generalizing removed with
  | bool kind p0 p1 third ih0 ih1 =>
    -- what was removed on the left counts for the right
    have left := ih0 removed
    have right := ih1 (removed ++ p0.stopInfos bibset)
    rw [← behindIt_eq] at right
    rw [remove_bool, RpnNode.stays]
    by_cases both : (p0.stays bibset (!removed.isEmpty) && p1.stays bibset (p0.behindIt bibset (!removed.isEmpty))) = true
    · rw [if_pos both]
      rw [Bool.and_eq_true] at both
      rw [if_pos both.1] at left
      rw [if_pos both.2] at right
      obtain ⟨out0, kept0, leaves0⟩ := left
      obtain ⟨out1, kept1, leaves1⟩ := right
      refine ⟨.bool kind out0 out1 third, ?_, fun negative => ?_⟩
      · exact (over_eq_kept ..).mpr ⟨out0, out1, kept0, kept1, rfl⟩
      · exact rel_append (leaves0 negative) (leaves1 _)
    · rw [if_neg both]
      intro out kept
      obtain ⟨out0, out1, kept0, kept1, -⟩ := (over_eq_kept ..).mp kept
      rw [Bool.and_eq_true, not_and_or] at both
      rcases both with none | none
      · rw [if_neg none] at left
        exact left out0 kept0
      · rw [if_neg none] at right
        exact right out1 kept1
  | set =>
    rw [RpnNode.stays, if_pos rfl]
    exact ⟨_, rfl, fun negative => .cons ⟨rfl, rfl⟩ .nil⟩
  -- a term whose words are all removed vanishes, and behind such a term a blank one as well
  | term t =>
    have result := (@remove_term bibset removed t).2
    rw [RpnNode.stays]
    split at result
    next vanishes =>
      rw [vanishes, if_neg (by decide)]
      intro out kept
      rw [result] at kept
      cases kept
    next stays =>
      obtain ⟨out, kept, cleaned⟩ := result
      rw [if_pos (by simpa using stays)]
      refine ⟨_, kept, fun negative => ?_⟩
      rw [survivors_term, if_neg stays]
      exact .cons ⟨rfl, cleaned⟩ .nil

theorem survivors_vanishing {behind : Bool} {p : RpnNode} (vanishes : p.vanishes bibset behind = true) (negative : Bool) :
    p.survivors bibset behind negative = [] := by
  induction p generalizing behind negative with
  | bool _ _ _ _ ih0 ih1 =>
    rw [RpnNode.vanishes, Bool.and_eq_true, Bool.and_eq_true] at vanishes
    rw [survivors_bool, ih0 vanishes.2.1, ih1 vanishes.2.2, append_nil]
  | set => cases vanishes
  | term => rw [survivors_term, if_pos vanishes]

theorem survivors_negative {behind : Bool} {p : RpnNode} : ∀ leaf ∈ p.survivors bibset behind true, leaf.1 = true := by
  induction p generalizing behind with
  | bool _ _ _ _ ih0 ih1 =>
    intro leaf member
    rw [survivors_bool, Bool.true_or, mem_append] at member
    exact member.elim (ih0 leaf) (ih1 leaf)
  | set =>
    intro leaf member
    obtain rfl := mem_singleton.mp member
    rfl
  | term =>
    intro leaf member
    rw [survivors_term] at member
    split at member
    · cases member
    · obtain rfl := mem_singleton.mp member
      rfl

theorem leaves_first (p : RpnNode) : ∃ leaf rest, p.leaves false = (false, leaf) :: rest := by
  induction p with
  | bool kind _ p1 _ ih0 =>
    obtain ⟨leaf, rest, is⟩ := ih0
    exact ⟨leaf, rest ++ p1.leaves (false || kind = .not), by rw [RpnNode.leaves, is, cons_append]⟩
  | set => exact ⟨_, [], rfl⟩
  | term => exact ⟨_, [], rfl⟩

theorem meets_of_stays {behind : Bool} {p : RpnNode} (stays : p.stays bibset behind = true) : p.meets bibset behind = true := by
  cases p with
  | bool =>
    rw [RpnNode.stays] at stays
    rw [RpnNode.meets, stays, Bool.true_or]
  | set => rfl
  | term => exact stays

variable {removed : List StopInfo}

theorem remove_of_stays {p : RpnNode} (stays : p.stays bibset (!removed.isEmpty) = true) :
    ∃ out, (cclRemoveStopR bibset removed p).1.node? = some out ∧
      SameLeaves bibset (out.leaves false) (p.survivors bibset (!removed.isEmpty) false) := by
  have result := @remove_kept bibset removed p
  rw [if_pos stays] at result
  obtain ⟨out, kept, leaves⟩ := result
  exact ⟨out, by rw [kept]; rfl, leaves false⟩

theorem remove_of_meets {p : RpnNode} (meets : p.meets bibset (!removed.isEmpty) = true) :
    ∃ out, (cclRemoveStopR bibset removed p).1.node? = some out ∧
      SameLeaves bibset (out.leaves false) (p.survivors bibset (!removed.isEmpty) false) := by
  induction p generalizing removed with
  | bool kind p0 p1 _ ih0 ih1 =>
    rw [RpnNode.meets, Bool.or_eq_true] at meets
    rcases meets with stays | meets
    · exact remove_of_stays stays
    rw [Bool.and_eq_true, Bool.or_eq_true] at meets
    obtain ⟨deletable, left | right⟩ := meets
    · rw [Bool.and_eq_true] at left
      obtain ⟨out, is, leaves⟩ := ih0 left.1
      have none := survivors_vanishing left.2 (false || kind = .not)
      rw [behindIt_eq] at left
      have gone := (remove_gone_iff _ p1).mpr left.2
      refine ⟨out, ?_, ?_⟩
      · rw [remove_bool, (over_eq_moved _ _ _ _ out).mpr ⟨deletable, .inr ⟨gone, is⟩⟩]
        rfl
      · rwa [survivors_bool, none, append_nil]
    · rw [Bool.and_eq_true, Bool.and_eq_true, behindIt_eq] at right
      obtain ⟨⟨notNot, vanishes⟩, meets⟩ := right
      obtain ⟨out, is, leaves⟩ := ih1 meets
      have none := survivors_vanishing vanishes false
      have gone := (remove_gone_iff _ p0).mpr vanishes
      have positive : (false || decide (kind = .not)) = false := by simpa using notNot
      refine ⟨out, ?_, ?_⟩
      · rw [remove_bool, (over_eq_moved _ _ _ _ out).mpr ⟨deletable, .inl ⟨gone, is⟩⟩]
        rfl
      · rwa [survivors_bool, none, nil_append, positive, behindIt_eq]
  | set => exact remove_of_stays rfl
  | term => exact remove_of_stays meets

theorem not_all_negative {out : RpnNode} {leaves : List (Bool × RpnNode)} (inside : ∀ leaf ∈ leaves, leaf.1 = true)
    (negative : List.Forall₂ (fun out leaf => leaf.1 = true → out.1 = true) (out.leaves false) leaves) : False := by
  obtain ⟨first, rest, is⟩ := leaves_first out
  rw [is] at negative
  cases negative with
  | cons kept => exact Bool.false_ne_true (kept (inside _ mem_cons_self))

theorem meets_of_kept {p out : RpnNode} (kept : (cclRemoveStopR bibset removed p).1 = .kept out) :
    p.meets bibset (!removed.isEmpty) = true := by
  have result := @remove_kept bibset removed p
  split at result
  next stays => exact meets_of_stays stays
  next => exact absurd kept (result out)

/-- Where a tree is left in which nothing negative became positive, the condition holds. -/
theorem meets_of_remove {p out : RpnNode} (is : (cclRemoveStopR bibset removed p).1.node? = some out)
    (negative : List.Forall₂ (fun out leaf => leaf.1 = true → out.1 = true) (out.leaves false)
      (p.survivors bibset (!removed.isEmpty) false)) : p.meets bibset (!removed.isEmpty) = true := by
  induction p generalizing removed with
  | bool kind p0 p1 third ih0 ih1 =>
    cases result : (cclRemoveStopR bibset removed (.bool kind p0 p1 third)).1 with
    | gone =>
      rw [result] at is
      cases is
    | dangling =>
      rw [result] at is
      cases is
    | kept => exact meets_of_kept result
    -- one operand is gone, and the other one takes the place of the node
    | moved p =>
      rw [result] at is
      obtain rfl : p = out := Option.some.inj is
      rw [remove_bool, over_eq_moved] at result
      obtain ⟨deletable, result⟩ := result
      rw [RpnNode.meets, deletable, Bool.true_and, Bool.or_eq_true, Bool.or_eq_true]
      rw [survivors_bool] at negative
      right
      rcases result with ⟨gone, isRight⟩ | ⟨gone, isLeft⟩
      · have vanishes := (remove_gone_iff _ p0).mp gone
        rw [survivors_vanishing vanishes, nil_append] at negative
        -- `a not b` without its `a` would leave `b` with its sign turned
        by_cases isNot : kind = .not
        · rw [decide_eq_true isNot, Bool.or_true] at negative
          exact (not_all_negative survivors_negative negative).elim
        · rw [decide_eq_false isNot, Bool.or_false, behindIt_eq] at negative
          have meets := ih1 isRight negative
          rw [← behindIt_eq] at meets
          right
          rw [vanishes, meets, decide_eq_true isNot]
          rfl
      · have vanishes := (remove_gone_iff _ p1).mp gone
        rw [← behindIt_eq] at vanishes
        rw [survivors_vanishing vanishes, append_nil] at negative
        left
        rw [vanishes, ih0 isLeft negative]
        rfl
  | set => rfl
  | term t =>
    rw [RpnNode.meets]
    · have stays : ¬(RpnNode.term t).vanishes bibset (!removed.isEmpty) = true := by
        intro vanishes
        rw [(remove_gone_iff _ _).mpr vanishes] at is
        cases is
      simpa using stays
    · intro kind p0 p1 third impossible
      cases impossible

theorem remove_nothing {p : RpnNode} (none : p.stopInfos bibset = []) : cclRemoveStopR bibset [] p = (.kept p, []) := by
  induction p with
  | bool _ _ _ _ ih0 ih1 =>
    rw [RpnNode.stopInfos, append_eq_nil_iff] at none
    rw [cclRemoveStopR, ih0 none.1]
    dsimp only
    rw [ih1 none.2]
    rfl
  | set => rfl
  | term t =>
    rw [RpnNode.stopInfos, map_eq_nil_iff] at none
    have words := (@removeStops_words (cclSearchStop bibset t.qual) _ _ (le_refl t.term.length)).1
    rw [show (wordsOf t.term).filter (cclSearchStop bibset t.qual) = [] from none] at words
    have text := removeStops_unchanged words
    rw [cclRemoveStopR]
    dsimp only
    rw [words, text]
    rfl

theorem stopInfos_eq_nil {p : RpnNode} {negative : Bool}
    (none : ∀ leaf ∈ p.leaves negative, ∀ t, leaf.2 = .term t → ∀ word ∈ wordsOf t.term, cclSearchStop bibset t.qual word = false) :
    p.stopInfos bibset = [] := by
  induction p generalizing negative with
  | bool _ _ _ _ ih0 ih1 =>
    rw [RpnNode.stopInfos, ih0 fun leaf member => none leaf (mem_append_left _ member),
      ih1 fun leaf member => none leaf (mem_append_right _ member), append_nil]
  | set => rfl
  | term t =>
    have nothing := none (negative, .term t) mem_cons_self t rfl
    rw [RpnNode.stopInfos, map_eq_nil_iff, Term.stops, filter_eq_nil_iff]
    intro word member
    rw [nothing word member]
    exact Bool.false_ne_true

theorem noStopWord_of_cleaned {leaves survivors : List (Bool × RpnNode)} (same : SameLeaves bibset leaves survivors) :
    ∀ leaf ∈ leaves, ∀ t, leaf.2 = .term t → ∀ word ∈ wordsOf t.term, cclSearchStop bibset t.qual word = false := by
  intro leaf member t is word inside
  induction same with
  | nil => cases member
  | @cons out first leaves survivors both _ ih =>
    rcases mem_cons.mp member with rfl | member
    · obtain ⟨-, cleaned⟩ := both
      rw [is] at cleaned
      cases source : first.2 with
      | term =>
        rw [source] at cleaned
        obtain ⟨qual, -, words⟩ := cleaned
        rw [words, Term.others, mem_filter] at inside
        rw [qual]
        simpa using inside.2
      | set =>
        rw [source] at cleaned
        exact cleaned.elim
      | bool =>
        rw [source] at cleaned
        exact cleaned.elim
    · exact ih member

theorem after_eq_tree {r : Removal} {p : RpnNode} : r.after = .tree p ↔ r.node? = some p := by
  cases r <;> simp [Removal.after, Removal.node?]

/-- Stop words are removed as they should be exactly under the condition. -/
theorem stopWordsLaw_iff (bibset : Bibset) (tree : RpnNode) :
    ((cclStopWordsTree bibset tree).removedItems = tree.stopInfos bibset ∧
        ∃ r, (cclStopWordsTree bibset tree).tree = .tree r ∧ StopWordsLaw bibset tree r) ↔ tree.meets bibset false = true := by
  have items : (cclStopWordsTree bibset tree).removedItems = tree.stopInfos bibset := stopInfos_remove [] tree
  rw [and_iff_right items]
  constructor
  · rintro ⟨r, is, law⟩
    exact @meets_of_remove bibset [] tree r (after_eq_tree.mp is) law.negative
  · intro meets
    obtain ⟨r, is, same⟩ := @remove_of_meets bibset [] tree meets
    have clean := noStopWord_of_cleaned same
    refine ⟨r, after_eq_tree.mpr is, clean, same.imp fun _ _ both => both.2, same.imp fun _ _ both negative => both.1.trans negative, ?_⟩
    rw [cclStopWordsTree, remove_nothing (stopInfos_eq_nil clean)]
    rfl

end

/-- With `the` as a stop word: of `the not x` the excluded term is left, and `(the and x) and y` has a node over one that was
deleted. -/
theorem stopWords_promoted :
    let bibset : Bibset := { list := [], special := [(ascii "stop.*", [ascii "the"])] }
    let word (text : String) : RpnNode := .term { term := ascii text, qual := none, attrList := [] }
    (cclStopWordsTree bibset (.bool .not (word "the") (word "x") .null)).tree = .tree (word "x") ∧
      (¬∃ r, (cclStopWordsTree bibset (.bool .not (word "the") (word "x") .null)).tree = .tree r ∧
        StopWordsLaw bibset (.bool .not (word "the") (word "x") .null) r) ∧
      (cclStopWordsTree bibset (.bool .and (.bool .and (word "the") (word "x") .null) (word "y") .null)).tree = .dangling := by
  intro bibset word
  have left : (cclStopWordsTree bibset (.bool .not (word "the") (word "x") .null)).tree = .tree (word "x") := by decide
  refine ⟨left, ?_, by decide⟩
  rintro ⟨r, is, law⟩
  obtain rfl : word "x" = r := TreeAfter.tree.inj (left.symm.trans is)
  have survivors : (RpnNode.bool .not (word "the") (word "x") .null).survivors bibset false false = [(true, word "x")] := by decide
  have negative := law.negative
  rw [survivors] at negative
  cases negative with
  | cons kept => exact Bool.false_ne_true (kept rfl)

end Yaz.Ccl
