import Yaz.Cql.Node

/-! Sort keys of SRU 1.1, as `cql_sortkeys.c` prints them for a chain of sort nodes. What is printed is one list of octets. -/

set_option autoImplicit false

namespace Yaz.Cql
open List Yaz.Comstack

/-- The loop of `pr_n`, which takes at most three octets at a time; `buf` is not moved. -/
def prLoop (buf : List UInt8) : (rounds left : Nat) → List UInt8
  | 0, _ => []
  | rounds + 1, left =>
    if left = 0 then []
    else if 4 ≤ left then buf.take 3 ++ prLoop buf rounds (left - 3)
    else buf.take left

def prN (buf : List UInt8) (len : Nat) : List UInt8 := prLoop buf len len

/-- What `cql_sort_modifiers` finds out. -/
structure SortModifiers where
  ascending : Bool := true
  caseSensitive : Bool := false
  missingValue : List UInt8 := ascii "highValue"
  deriving DecidableEq

def flagText (flag : Bool) : List UInt8 := if flag then ascii "1" else ascii "0"

def SortModifiers.text (m : SortModifiers) : List UInt8 :=
  flagText m.ascending ++ ascii "," ++ flagText m.caseSensitive ++ ascii "," ++ m.missingValue

/-- One modifier, with or without the prefix `sort.`; `none` is the result -1. -/
def SortModifiers.modify (m : SortModifiers) (index : List UInt8) : Option SortModifiers :=
  let indx := if index.take 5 = ascii "sort." then index.drop 5 else index
  if indx = ascii "ignoreCase" then some { m with caseSensitive := false }
  else if indx = ascii "respectCase" then some { m with caseSensitive := true }
  else if indx = ascii "ascending" then some { m with ascending := true }
  else if indx = ascii "descending" then some { m with ascending := false }
  else if indx = ascii "missingOmit" then some { m with missingValue := ascii "omit" }
  else if indx = ascii "missingFail" then some { m with missingValue := ascii "abort" }
  else if indx = ascii "missingLow" then some { m with missingValue := ascii "lowValue" }
  else if indx = ascii "missingHigh" then some { m with missingValue := ascii "highValue" }
  else none

/-- The loop of `cql_sort_modifiers`. -/
def cqlSortModifiers : CqlNode → SortModifiers → Option SortModifiers
  | .st u modifiers _, m => (m.modify (u.index.getD [])).bind (cqlSortModifiers modifiers)
  | _, m => some m

def splitIndex (indx : List UInt8) : Option (List UInt8 × List UInt8) :=
  if 46 ∈ indx then some (indx.takeWhile (· ≠ 46), (indx.dropWhile (· ≠ 46)).drop 1) else none

def indexText (indx : List UInt8) : List UInt8 :=
  match splitIndex indx with
  | some (front, path) => path ++ ascii "," ++ prN indx front.length
  | none => indx ++ ascii ","

/-- `cql_sortby_to_sortkeys`: the result, and what was printed. -/
def cqlSortbyToSortkeys : CqlNode → Int × List UInt8
  | .sort (some indx) next modifiers _ =>
    match cqlSortModifiers modifiers {} with
    | none => (-1, indexText indx ++ ascii ",")
    | some m =>
      let (r, out) := cqlSortbyToSortkeys next
      (r, indexText indx ++ ascii "," ++ m.text ++ (if next = .null then [] else ascii " ") ++ out)
  | .sort none next _ _ => cqlSortbyToSortkeys next
  | _ => (0, [])

structure SortKey where
  index : List UInt8
  modifiers : CqlNode
  deriving DecidableEq

/-- A chain of sort nodes that are linked by `next`. -/
inductive SortChain : CqlNode → List SortKey → Prop where
  | nil : SortChain .null []
  | cons {next : CqlNode} {keys : List SortKey} (index : List UInt8) (modifiers search : CqlNode) :
      SortChain next keys → SortChain (.sort (some index) next modifiers search) (⟨index, modifiers⟩ :: keys)

theorem SortChain.unique {cn : CqlNode} {keys keys' : List SortKey} (chain : SortChain cn keys) (chain' : SortChain cn keys') :
    keys = keys' := by
  induction chain generalizing keys' with
  | nil =>
    cases chain'
    rfl
  | cons _ _ _ _ ih =>
    cases chain' with
    | cons _ _ _ rest => rw [ih rest]

def SortKey.contextSet (key : SortKey) : List UInt8 := ((splitIndex key.index).map Prod.fst).getD []

def SortKey.path (key : SortKey) : List UInt8 := ((splitIndex key.index).map Prod.snd).getD key.index

def SortKey.sru (key : SortKey) : Option (List UInt8) :=
  (cqlSortModifiers key.modifiers {}).map fun m => key.path ++ ascii "," ++ key.contextSet ++ ascii "," ++ m.text

def spacedKeys : List (List UInt8) → List UInt8
  | [] => []
  | [key] => key
  | key :: keys => key ++ ascii " " ++ spacedKeys keys

def Repeats (octets : List UInt8) : Prop := ∀ i < octets.length, octets[i]? = octets[i % 3]?

instance (octets : List UInt8) : Decidable (Repeats octets) := inferInstanceAs (Decidable (∀ i < _, _))

attribute [local simp] prLoop

theorem prLoop_length (buf : List UInt8) {rounds left : Nat} (enough : left ≤ rounds) (inside : left ≤ buf.length) :
    (prLoop buf rounds left).length = left := by
  induction rounds generalizing left with
  | zero => exact (Nat.le_zero.mp enough).symm
  | succ _ ih =>
    rw [prLoop]
    split
    next nothing => exact nothing.symm
    · split
      next more =>
        rw [length_append, length_take_of_le (by omega), ih (by omega) (by omega)]
        omega
      · exact length_take_of_le inside

theorem prLoop_getElem? (buf : List UInt8) {rounds left : Nat} (enough : left ≤ rounds) (inside : left ≤ buf.length) {i : Nat}
    (within : i < left) : (prLoop buf rounds left)[i]? = buf[i % 3]? := by
  induction rounds generalizing left i with
  | zero => omega
  | succ rounds ih =>
    rw [prLoop, if_neg (by omega)]
    split
    next more =>
      have three : (buf.take 3).length = 3 := length_take_of_le (by omega)
      by_cases first : i < 3
      · rw [getElem?_append_left (by omega), getElem?_take_of_lt first, Nat.mod_eq_of_lt first]
      · -- the next three octets are printed from the start of the buffer again
        have behind : (prLoop buf rounds (left - 3))[i - 3]? = buf[(i - 3) % 3]? := ih (by omega) (by omega) (by omega)
        have place : (i - 3) % 3 = i % 3 := by omega
        rw [getElem?_append_right (by omega), three, behind, place]
    next few =>
      have place : i % 3 = i := Nat.mod_eq_of_lt (by omega)
      rw [getElem?_take_of_lt within, place]

theorem prN_eq_iff (front behind : List UInt8) : prN (front ++ behind) front.length = front ↔ Repeats front := by
  have inside : front.length ≤ (front ++ behind).length := by
    rw [length_append]
    omega
  have octet : ∀ i < front.length, (prN (front ++ behind) front.length)[i]? = front[i % 3]? := by
    intro i within
    have low : i % 3 < front.length := Nat.lt_of_le_of_lt (Nat.mod_le i 3) within
    rw [prN, prLoop_getElem? _ (Nat.le_refl _) inside within, getElem?_append_left low]
  constructor
  · intro same i within
    rw [← octet i within, same]
  · intro repeats
    refine ext_getElem? fun i => ?_
    by_cases within : i < front.length
    · rw [octet i within, repeats i within]
    · have long : (prN (front ++ behind) front.length).length ≤ i := by
        rw [prN, prLoop_length _ (Nat.le_refl _) inside]
        omega
      rw [getElem?_eq_none long, getElem?_eq_none (by omega)]

theorem splitIndex_some {indx front path : List UInt8} (split : splitIndex indx = some (front, path)) :
    ∃ behind, indx = front ++ behind := by
  rw [splitIndex] at split
  split at split
  · obtain ⟨rfl, -⟩ := Prod.mk.inj (Option.some.inj split)
    exact ⟨indx.dropWhile (· ≠ 46), takeWhile_append_dropWhile.symm⟩
  · exact nomatch split

theorem indexText_spec (key : SortKey) :
    (indexText key.index).length = (key.path ++ ascii "," ++ key.contextSet).length ∧
      (indexText key.index = key.path ++ ascii "," ++ key.contextSet ↔ Repeats key.contextSet) := by
  rw [indexText, SortKey.path, SortKey.contextSet]
  cases split : splitIndex key.index with
  | none =>
    refine ⟨by simp, iff_of_true (by simp) ?_⟩
    exact fun i within => absurd within (Nat.not_lt_zero i)
  | some both =>
    obtain ⟨front, path⟩ := both
    obtain ⟨behind, is⟩ := splitIndex_some split
    have length : (prN key.index front.length).length = front.length :=
      prLoop_length _ (Nat.le_refl _) (by rw [is, length_append]; omega)
    refine ⟨by simp [length], ?_⟩
    dsimp only [Option.map_some, Option.getD_some]
    rw [append_cancel_left_eq, is]
    exact prN_eq_iff front behind

def SortKey.printed (key : SortKey) : Option (List UInt8) :=
  (cqlSortModifiers key.modifiers {}).map fun m => indexText key.index ++ ascii "," ++ m.text

theorem printed_spec {key : SortKey} (supported : key.sru.isSome) :
    (key.printed.getD []).length = (key.sru.getD []).length ∧ (key.printed.getD [] = key.sru.getD [] ↔ Repeats key.contextSet) := by
  obtain ⟨length, same⟩ := indexText_spec key
  obtain ⟨m, is⟩ := Option.isSome_iff_exists.mp ((Option.isSome_map ..).symm.trans supported)
  rw [SortKey.printed, SortKey.sru, is]
  dsimp only [Option.map_some, Option.getD_some]
  rw [append_cancel_right_eq, append_cancel_right_eq]
  refine ⟨?_, same⟩
  simp only [length_append] at length ⊢
  rw [length]

theorem cqlSortbyToSortkeys_printed {cn : CqlNode} {keys : List SortKey} (chain : SortChain cn keys)
    (supported : ∀ key ∈ keys, key.sru.isSome) :
    cqlSortbyToSortkeys cn = (0, spacedKeys (keys.map fun key => key.printed.getD [])) := by
  induction chain with
  | nil => rfl
  | @cons next keys index modifiers search rest ih =>
    have behind := ih fun key inside => supported key (mem_cons_of_mem _ inside)
    have first := supported ⟨index, modifiers⟩ mem_cons_self
    obtain ⟨m, is⟩ := Option.isSome_iff_exists.mp ((Option.isSome_map ..).symm.trans first)
    have printed : (SortKey.printed ⟨index, modifiers⟩).getD [] = indexText index ++ ascii "," ++ m.text := by
      rw [SortKey.printed, is]
      rfl
    rw [cqlSortbyToSortkeys, is]
    rw [behind, map_cons, printed]
    cases rest with
    | nil => simp [spacedKeys]
    | cons =>
      rw [if_neg CqlNode.noConfusion]
      rfl

theorem spacedKeys_cons_cons (key key' : List UInt8) (keys : List (List UInt8)) :
    spacedKeys (key :: key' :: keys) = key ++ (ascii " " ++ spacedKeys (key' :: keys)) := by
  rw [spacedKeys, append_assoc]
  exact fun no => nomatch no

theorem spacedKeys_map_eq_iff {keys : List SortKey} {f g : SortKey → List UInt8} (same : ∀ key ∈ keys, (f key).length = (g key).length) :
    spacedKeys (keys.map f) = spacedKeys (keys.map g) ↔ ∀ key ∈ keys, f key = g key := by
  induction keys with
  | nil => exact iff_of_true rfl (fun _ inside => nomatch inside)
  | cons key keys ih =>
    have behind := ih fun other inside => same other (mem_cons_of_mem _ inside)
    have first := same key mem_cons_self
    rw [forall_mem_cons, ← behind]
    cases keys with
    | nil => simp [spacedKeys]
    | cons =>
      simp only [map_cons, spacedKeys_cons_cons]
      constructor
      · intro equal
        obtain ⟨front, rest⟩ := append_inj equal first
        exact ⟨front, append_cancel_left rest⟩
      · rintro ⟨front, rest⟩
        rw [front, rest]

/-- The keys of a chain are printed as keys of SRU 1.1 if each context set repeats its first three octets. -/
theorem cqlSortbyToSortkeys_iff {cn : CqlNode} {keys : List SortKey} (chain : SortChain cn keys)
    (supported : ∀ key ∈ keys, key.sru.isSome) :
    cqlSortbyToSortkeys cn = (0, spacedKeys (keys.map fun key => key.sru.getD [])) ↔ ∀ key ∈ keys, Repeats key.contextSet := by
  have each : ∀ key ∈ keys, (key.printed.getD [] = key.sru.getD [] ↔ Repeats key.contextSet) :=
    fun key inside => (printed_spec (supported key inside)).2
  rw [cqlSortbyToSortkeys_printed chain supported, Prod.mk.injEq, and_iff_right rfl,
    spacedKeys_map_eq_iff fun key inside => (printed_spec (supported key inside)).1]
  exact forall₂_congr each

/-- A key `dc.title` with a modifier, and one without a context set. -/
def titleAndDate : List SortKey :=
  [⟨ascii "dc.title", .st { index := some (ascii "sort.descending") } .null .null⟩, ⟨ascii "date", .null⟩]

theorem cqlSortbyToSortkeys_titleAndDate :
    cqlSortbyToSortkeys (.sort (some (ascii "dc.title")) (.sort (some (ascii "date")) .null .null .null)
        (.st { index := some (ascii "sort.descending") } .null .null) .null) =
      (0, spacedKeys (titleAndDate.map fun key => key.sru.getD [])) ↔ ∀ key ∈ titleAndDate, Repeats key.contextSet :=
  cqlSortbyToSortkeys_iff (.cons _ _ _ (.cons _ _ _ .nil)) (by decide)

/-- The context set `bath` is printed as `batb`. -/
theorem cqlSortbyToSortkeys_bath :
    cqlSortbyToSortkeys (.sort (some (ascii "bath.name")) .null .null .null) = (0, ascii "name,batb,1,0,highValue") ∧
      (SortKey.sru ⟨ascii "bath.name", .null⟩) = some (ascii "name,bath,1,0,highValue") := by
  decide

end Yaz.Cql
