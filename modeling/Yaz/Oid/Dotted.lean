import Mathlib.Data.List.TakeWhile
import Yaz.Oid.Standard
import Yaz.Pqf.Written

/-! Object identifiers as numbers with dots between them. -/

set_option autoImplicit false

namespace Yaz.Oid
open List
open Yaz.Comstack (ascii isDigit)
open Yaz.Http (decimal)
open Yaz.Pqf

variable {group rest : List UInt8}

/-- What `oid_dotstring_to_oid` has stored from index 0 on when it returns 0; a value is cut down to a `short`. -/
def oidDotstringStores (name : List UInt8) : Option (List Int16) :=
  (oidDotstringToOid name).map fun arcs => arcs.map Int16.ofNat ++ [-1]

def OID_SIZE : Nat := 20

def digitGroups : (most : Nat) → (name : List UInt8) → List (List UInt8) × List UInt8
  | 0, name => ([], name)
  | most + 1, name =>
    if name.takeWhile isDigit = [] then ([], name)
    else if (name.dropWhile isDigit).head? = some 46 ∧ (digitGroups most ((name.dropWhile isDigit).drop 1)).1 ≠ [] then
      (name.takeWhile isDigit :: (digitGroups most ((name.dropWhile isDigit).drop 1)).1,
        (digitGroups most ((name.dropWhile isDigit).drop 1)).2)
    else ([name.takeWhile isDigit], name.dropWhile isDigit)

def ReadsArcs (name : List UInt8) : Prop :=
  ∀ stored, oidDotstringStores name = some stored →
    stored.length ≤ OID_SIZE ∧ stored.map Int16.toInt = (digitGroups 19 name).1.map (fun group => (digitsValue 10 group 0 : Int)) ++ [-1]

/-- No dot is behind the groups, and the values are those of a `short`; a single group is not stored. -/
def WellDotted (name : List UInt8) : Prop :=
  (digitGroups 19 name).1 = [] ∨
    (digitGroups 19 name).2.head? ≠ some 46 ∧
      ((digitGroups 19 name).1.length = 1 ∨ ∀ group ∈ (digitGroups 19 name).1, digitsValue 10 group 0 < 2 ^ 15)

structure FittingOid where
  arcs : List Nat
  several : 2 ≤ arcs.length
  few : arcs.length ≤ 19
  shorts : ∀ arc ∈ arcs, arc < 2 ^ 15

theorem dottedArcs_dot (digits : ∀ c ∈ group, isDigit c = true) (some : group ≠ []) (oid : List Nat) (val : Nat) :
    dottedArcs (group ++ 46 :: rest) oid val = dottedArcs rest (if oid.length < 19 then oid ++ [digitsValue 10 group val] else oid) 0 := by
  induction group generalizing val with
  | nil => exact absurd rfl some
  | cons c group ih =>
    have digit : isDigit c = true := digits c mem_cons_self
    have behind : ∀ d ∈ group, isDigit d = true := fun d member => digits d (mem_cons_of_mem c member)
    rw [digitsValue_cons digit]
    cases group with
    | nil =>
      rw [singleton_append, dottedArcs, if_pos digit]
      rfl
    | cons d group =>
      have noDot : d ≠ 46 := fun dot => absurd (dot ▸ behind d mem_cons_self) (by decide)
      rw [cons_append, cons_append, dottedArcs, if_pos digit]
      simp only [noDot, if_false]
      exact ih behind (cons_ne_nil d group) _

theorem dottedArcs_stop (digits : ∀ c ∈ group, isDigit c = true) (stops : NoDigit rest) (noDot : rest.head? ≠ some 46) (oid : List Nat)
    (val : Nat) : dottedArcs (group ++ rest) oid val = (oid, digitsValue 10 group val) := by
  induction group generalizing val with
  | nil =>
    cases rest with
    | nil => rfl
    | cons c rest =>
      have other : isDigit c = false := stops c rfl
      cases rest <;> simp [dottedArcs, other, digitsValue]
  | cons c group ih =>
    have digit : isDigit c = true := digits c mem_cons_self
    have behind : ∀ d ∈ group, isDigit d = true := fun d member => digits d (mem_cons_of_mem c member)
    rw [digitsValue_cons digit, ← ih behind]
    cases whole : group ++ rest with
    | nil => simp [whole, dottedArcs, digit]
    | cons d =>
      have noDot : d ≠ 46 := by
        rintro rfl
        cases group with
        | nil => exact noDot (by rw [← nil_append rest, whole]; rfl)
        | cons =>
          cases whole
          exact absurd (behind 46 mem_cons_self) (by decide)
      rw [cons_append, whole, dottedArcs, if_pos digit]
      simp only [noDot, if_false]

theorem dottedArcs_length (name : List UInt8) (oid : List Nat) (val : Nat) : oid.length ≤ (dottedArcs name oid val).1.length := by
  fun_induction dottedArcs name oid val with
  | case4 c name oid val digit val' ih =>
    refine Nat.le_trans ?_ ih
    split <;> simp
  | case5 c d name oid val digit val' noDot ih => exact ih
  | _ => exact Nat.le_refl _

theorem spanDigits (name : List UInt8) : (∀ c ∈ name.takeWhile isDigit, isDigit c = true) ∧ NoDigit (name.dropWhile isDigit) ∧
    name = name.takeWhile isDigit ++ name.dropWhile isDigit := by
  refine ⟨fun c member => mem_takeWhile_imp member, fun c first => ?_, takeWhile_append_dropWhile.symm⟩
  have stopped := head?_dropWhile_not isDigit name
  rw [Option.mem_def.mp first] at stopped
  simpa using stopped

theorem digitGroups_length (most : Nat) (name : List UInt8) : (digitGroups most name).1.length ≤ most := by
  fun_induction digitGroups most name with
  | case3 most name some more ih => exact Nat.succ_le_succ ih
  | _ => simp

/-- The loop has stored the values of all groups but the last one, or there is a dot behind them and it has stored them all. -/
theorem dottedArcs_groups (most : Nat) (name : List UInt8) (oid : List Nat) (free : oid.length + most = 19)
    (some : (digitGroups most name).1 ≠ []) :
    if (digitGroups most name).2.head? = Option.some 46 then oid.length + (digitGroups most name).1.length ≤
      (dottedArcs name oid 0).1.length
    else (dottedArcs name oid 0).1 ++ [(dottedArcs name oid 0).2] =
      oid ++ (digitGroups most name).1.map fun group => digitsValue 10 group 0 := by
  induction most generalizing name oid with
  | zero => exact absurd rfl some
  | succ most ih =>
    obtain ⟨digits, stops, whole⟩ := spanDigits name
    have starts : name.takeWhile isDigit ≠ [] := fun none => some (by rw [digitGroups, if_pos none])
    by_cases dot : (name.dropWhile isDigit).head? = Option.some 46
    · obtain ⟨rest, behind⟩ : ∃ rest, name.dropWhile isDigit = 46 :: rest := head?_eq_some_iff.mp dot
      have step : dottedArcs name oid 0 = dottedArcs rest (oid ++ [digitsValue 10 (name.takeWhile isDigit) 0]) 0 := by
        conv_lhs => rw [whole, behind]
        rw [dottedArcs_dot digits starts, if_pos (by omega)]
      rw [step]
      by_cases more : (digitGroups most rest).1 = []
      · have last : digitGroups (most + 1) name = ([name.takeWhile isDigit], 46 :: rest) := by
          rw [digitGroups, if_neg starts, behind, drop_one, tail_cons, if_neg fun both => both.2 more]
        rw [last, head?_cons, if_pos rfl]
        have kept := dottedArcs_length rest (oid ++ [digitsValue 10 (name.takeWhile isDigit) 0]) 0
        rwa [length_append] at kept
      · have others : digitGroups (most + 1) name =
            (name.takeWhile isDigit :: (digitGroups most rest).1, (digitGroups most rest).2) := by
          rw [digitGroups, if_neg starts, behind, drop_one, tail_cons, if_pos ⟨rfl, more⟩]
        have later := ih rest (oid ++ [digitsValue 10 (name.takeWhile isDigit) 0]) (by rw [length_append, length_singleton]; omega) more
        rw [others]
        split
        · rw [if_pos ‹_›, length_append, length_singleton] at later
          rw [length_cons]
          omega
        · rw [if_neg ‹_›, append_assoc] at later
          exact later
    · have last : digitGroups (most + 1) name = ([name.takeWhile isDigit], name.dropWhile isDigit) := by
        rw [digitGroups, if_neg starts, if_neg fun both => dot both.1]
      have step : dottedArcs name oid 0 = (oid, digitsValue 10 (name.takeWhile isDigit) 0) := by
        conv_lhs => rw [whole]
        exact dottedArcs_stop digits stops dot oid 0
      rw [last, if_neg dot, step]
      rfl

theorem dottedArcs_printed (arcs oid : List Nat) (some : arcs ≠ []) (free : oid.length + arcs.length ≤ 19) :
    (dottedArcs ([46].intercalate (arcs.map decimal)) oid 0).1 ++
      [(dottedArcs ([46].intercalate (arcs.map decimal)) oid 0).2] = oid ++ arcs := by
  induction arcs generalizing oid with
  | nil => exact absurd rfl some
  | cons arc arcs ih =>
    cases arcs with
    | nil =>
      have single := @dottedArcs_stop _ [] (decimal_digits arc) (by simp [NoDigit]) (by simp) oid 0
      rw [append_nil, digitsValue_decimal] at single
      simp [List.intercalate, single]
    | cons next arcs =>
      have text : [46].intercalate ((arc :: next :: arcs).map decimal) =
        decimal arc ++ 46 :: [46].intercalate ((next :: arcs).map decimal) := by
        simp [List.intercalate]
      rw [text, dottedArcs_dot (decimal_digits arc) (decimal_ne_nil arc), digitsValue_decimal,
        if_pos (by rw [length_cons, length_cons] at free; omega),
        ih (oid ++ [arc]) (cons_ne_nil next arcs) (by simp only [length_append, length_cons, length_nil] at free ⊢; omega)]
      rw [append_assoc, singleton_append]

/-- What is stored when the loop has come to these arcs. -/
theorem oidDotstringStores_of {name : List UInt8} {arcs : List Nat} (loop : (dottedArcs name [] 0).1 ++ [(dottedArcs name [] 0).2] = arcs)
    (several : 2 ≤ arcs.length) : oidDotstringStores name = some (arcs.map Int16.ofNat ++ [-1]) := by
  have kept : (dottedArcs name [] 0).1 ≠ [] := by
    intro none
    rw [← loop, none, nil_append, length_singleton] at several
    omega
  rw [oidDotstringStores, oidDotstringToOid]
  generalize dottedArcs name [] 0 = read at kept loop ⊢
  obtain ⟨oid, val⟩ := read
  cases oid with
  | nil => exact absurd rfl kept
  | cons => rw [← loop]; rfl

theorem toInt_ofNat_iff (v : Nat) : (Int16.ofNat v).toInt = v ↔ v < 2 ^ 15 := by
  constructor
  · intro same
    have := Int16.toInt_lt (Int16.ofNat v)
    omega
  · exact Int16.toInt_ofNat_of_lt

theorem arcs_toInt_iff (values : List Nat) :
    (values.map Int16.ofNat ++ [-1]).map Int16.toInt = values.map (fun v : Nat => (v : Int)) ++ [-1] ↔ ∀ v ∈ values, v < 2 ^ 15 := by
  rw [map_append, map_map, map_singleton, show Int16.toInt (-1) = -1 from rfl, append_left_inj, map_inj_left]
  exact forall₂_congr fun v _ => toInt_ofNat_iff v

theorem readsArcs_iff (name : List UInt8) : ReadsArcs name ↔ WellDotted name := by
  by_cases starts : (digitGroups 19 name).1 = []
  · have noDigit : name.takeWhile isDigit = [] := by
      by_contra some
      rw [digitGroups, if_neg some] at starts
      split at starts <;> cases starts
    obtain ⟨-, stops, whole⟩ := spanDigits name
    rw [noDigit, nil_append] at whole
    have nothing : oidDotstringStores name = none := by
      rw [oidDotstringStores, oidDotstringToOid]
      cases name with
      | nil => rfl
      | cons c name =>
        have other : isDigit c = false := stops c (by rw [← whole]; rfl)
        cases name <;> simp [dottedArcs, other]
    refine iff_of_true ?_ (.inl starts)
    rw [ReadsArcs, nothing]
    exact fun stored some => nomatch some
  · have loop := dottedArcs_groups 19 name [] rfl starts
    have filled := length_pos_iff.mpr starts
    rw [WellDotted, or_iff_right starts]
    split at loop
    · -- a dot is behind the groups: one arc more is stored than there are groups
      refine iff_of_false (fun reads => ?_) fun right => right.1 ‹_›
      have stored := @oidDotstringStores_of name _ rfl (by rw [length_append, length_singleton]; omega)
      have lengths := congrArg List.length (reads _ stored).2
      simp only [length_map, length_append, length_cons, length_nil] at lengths
      omega
    · rw [nil_append] at loop
      rw [and_iff_right ‹_›]
      have counted := congrArg List.length loop
      rw [length_append, length_map, length_singleton] at counted
      by_cases single : (digitGroups 19 name).1.length = 1
      · have nothing : oidDotstringStores name = none := by
          have none : (dottedArcs name [] 0).1 = [] := length_eq_zero_iff.mp (by omega)
          rw [oidDotstringStores, oidDotstringToOid]
          generalize dottedArcs name [] 0 = read at none ⊢
          obtain ⟨oid, val⟩ := read
          cases none
          rfl
        refine iff_of_true ?_ (.inl single)
        rw [ReadsArcs, nothing]
        exact fun stored some => nomatch some
      · have stored := oidDotstringStores_of loop (by rw [length_map]; omega)
        have most := digitGroups_length 19 name
        rw [ReadsArcs, stored, or_iff_right single]
        have values := arcs_toInt_iff ((digitGroups 19 name).1.map fun group => digitsValue 10 group 0)
        rw [forall_mem_map] at values
        have cast : (digitGroups 19 name).1.map (fun group => (digitsValue 10 group 0 : Int)) =
            ((digitGroups 19 name).1.map fun group => digitsValue 10 group 0).map fun v : Nat => (v : Int) := map_map.symm
        rw [cast]
        have inside : ((((digitGroups 19 name).1.map fun group => digitsValue 10 group 0).map Int16.ofNat) ++ [-1]).length ≤ OID_SIZE := by
          simp only [length_append, length_map, length_singleton, OID_SIZE]
          omega
        constructor
        · exact fun reads => values.mp (reads _ rfl).2
        · intro shorts stored is
          obtain rfl := Option.some.inj is
          exact ⟨inside, values.mpr shorts⟩

/-- An identifier is read as it was printed, and of any text what is stored is right exactly when no dot is behind its groups of digits,
of which there are at most nineteen, and their values are those of a `short`. -/
theorem oidDotstring_exact_iff (name : List UInt8) :
    (ReadsArcs name ↔ WellDotted name) ∧
      ∀ oid : FittingOid, oidDotstringStores (oidOidToDotstring oid.arcs) = some (oid.arcs.map Int16.ofNat ++ [-1]) ∧
        (oid.arcs.map Int16.ofNat).map Int16.toInt = oid.arcs.map fun arc : Nat => (arc : Int) := by
  refine ⟨readsArcs_iff name, fun oid => ⟨?_, ?_⟩⟩
  · exact oidDotstringStores_of (dottedArcs_printed oid.arcs [] (ne_nil_of_length_pos (by have := oid.several; omega))
      (by simpa using oid.few)) oid.several
  · rw [map_map, map_inj_left]
    exact fun arc member => (toInt_ofNat_iff arc).mpr (oid.shorts arc member)

/-- `1.2.` is stored as three arcs. -/
theorem oidDotstring_trailing : ¬ReadsArcs (ascii "1.2.") := by
  intro reads
  exact absurd (reads [1, 2, 0, -1] (by decide)).2 (by decide)

end Yaz.Oid
