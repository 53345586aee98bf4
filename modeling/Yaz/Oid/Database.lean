import Yaz.Oid.Matching

/-! Databases of object identifiers: `oid_db.c`.

A database is a chain of tables. One that was made by `yaz_oid_db_new` begins with a table whose entries are a null pointer.
-/

set_option autoImplicit false

open List

namespace Yaz.Oid
open Yaz.Comstack (ascii)

/-- The tables from one `struct yaz_oid_db` on: their `entries`, where the pointers are set. -/
abbrev Database := List (Option (List Entry))

def yazOidDbNew : Database := [none]

def yazOidStd : Database := [some yazOidStandardEntries]

/-- What `yaz_string_to_oid` finds in one table. -/
def tableLookup (oclass : OidClass) (name : List UInt8) (entries : List Entry) : Option Entry :=
  (if oclass = .general then none else entries.find? fun e => yazMatchstr e.name name && e.oclass = oclass).or
    (entries.find? fun e => yazMatchstr e.name name)

namespace Database

/-- `yaz_string_to_oid`; it is `none` when a null pointer is followed. -/
def yazStringToOid (oclass : OidClass) (name : List UInt8) : Database → Option (Option (List Nat))
  | [] => some none
  | none :: _ => none
  | some entries :: next =>
    match tableLookup oclass name entries with
    | some e => some (some e.oid)
    | none => yazStringToOid oclass name next

/-- `yaz_oid_to_string`: the entry whose class and name are returned. -/
def yazOidToString (oid : List Nat) : Database → Option (Option Entry)
  | [] => some none
  | none :: _ => none
  | some entries :: next =>
    match entries.find? fun e => e.oid = oid with
    | some e => some (some e)
    | none => yazOidToString oid next

/-- `yaz_oid_trav`: the entries that the function is called for. -/
def yazOidTrav : Database → Option (List Entry)
  | [] => some []
  | none :: _ => none
  | some entries :: next => (yazOidTrav next).map (entries ++ ·)

/-- `yaz_oid_add`: if it returns 0, and the chain. -/
def yazOidAdd (oclass : OidClass) (name : List UInt8) (newOid : List Nat) (db : Database) : Option (Bool × Database) :=
  (yazStringToOid oclass name db).map fun oid =>
    if oid.isNone then (true, db ++ [some [{ oclass, oid := newOid, name }]]) else (false, db)

end Database

/-- The calls for a database; the identifier of `yaz_oid_to_string` may be a null pointer. -/
inductive DatabaseCall where
  | yazOidAdd (oclass : OidClass) (name : List UInt8) (newOid : List Nat)
  | yazStringToOid (oclass : OidClass) (name : List UInt8)
  | yazOidToString (oid : Option (List Nat))
  | yazOidTrav

def DatabaseCall.run (db : Database) : DatabaseCall → Option Database
  | .yazOidAdd oclass name newOid => (db.yazOidAdd oclass name newOid).map Prod.snd
  | .yazStringToOid oclass name => (db.yazStringToOid oclass name).map fun _ => db
  | .yazOidToString none => some db
  | .yazOidToString (some oid) => (db.yazOidToString oid).map fun _ => db
  | .yazOidTrav => db.yazOidTrav.map fun _ => db

inductive Origin where
  | yazOidDbNew
  | yazOidStd

def Origin.database : Origin → Database
  | .yazOidDbNew => Oid.yazOidDbNew
  | .yazOidStd => Oid.yazOidStd

def Registered (calls : List DatabaseCall) (e : Entry) : Prop :=
  e ∈ yazOidStandardEntries ∨ .yazOidAdd e.oclass e.name e.oid ∈ calls

def AddsAsMap (db : Database) : Prop :=
  ∀ oclass name newOid, ∃ found db', db.yazStringToOid oclass name = some found ∧
    db.yazOidAdd oclass name newOid = some (found.isNone, db') ∧
    (found = none → db'.yazStringToOid oclass name = some (some newOid)) ∧
    ∀ oclass' name' oid, db.yazStringToOid oclass' name' = some (some oid) → db'.yazStringToOid oclass' name' = some (some oid)

def FindsRegistered (calls : List DatabaseCall) (db : Database) : Prop :=
  ∀ oclass (name : LiteralName) oid, db.yazStringToOid oclass name = some (some oid) →
    ∃ e, Registered calls e ∧ e.oid = oid ∧ bareName e.name = bareName name

def BehavesAsMap (start : Database) (calls : List DatabaseCall) : Prop :=
  ∃ db, calls.foldlM DatabaseCall.run start = some db ∧ (∀ call, (DatabaseCall.run db call).isSome = true) ∧ AddsAsMap db ∧
    FindsRegistered calls db

variable {oclass : OidClass} {name : List UInt8} {oid : List Nat} {tables : List (List Entry)}

theorem tableLookup_some {entries : List Entry} {e : Entry} (found : tableLookup oclass name entries = some e) :
    e ∈ entries ∧ yazMatchstr e.name name = true := by
  rcases Option.or_eq_some_iff.mp found with inClass | ⟨-, inAny⟩
  · split at inClass
    · cases inClass
    · have both := find?_some inClass
      exact ⟨mem_of_find?_eq_some inClass, (Bool.and_eq_true_iff.mp both).1⟩
  · have matched := find?_some inAny
    exact ⟨mem_of_find?_eq_some inAny, matched⟩

theorem tableLookup_added (newOid : List Nat) :
    tableLookup oclass name [{ oclass, oid := newOid, name }] = some { oclass, oid := newOid, name } := by
  simp only [tableLookup, find?_cons, yazMatchstr_self, Bool.true_and, decide_true]
  split <;> rfl

/-- In a chain whose pointers are all set, the first table that has the name counts. -/
theorem yazStringToOid_tables :
    Database.yazStringToOid oclass name (tables.map some) = some ((tables.findSome? (tableLookup oclass name)).map Entry.oid) := by
  induction tables with
  | nil => rfl
  | cons entries _ ih =>
    rw [map_cons, Database.yazStringToOid, findSome?_cons]
    cases tableLookup oclass name entries with
    | none => exact ih
    | some => rfl

theorem yazOidToString_tables : (Database.yazOidToString oid (tables.map some)).isSome = true := by
  induction tables with
  | nil => rfl
  | cons _ _ ih =>
    rw [map_cons, Database.yazOidToString]
    split
    · rfl
    · exact ih

theorem yazOidTrav_tables : (Database.yazOidTrav (tables.map some)).isSome = true := by
  induction tables with
  | nil => rfl
  | cons => rwa [map_cons, Database.yazOidTrav, Option.isSome_map]

/-- A call appends at most one table with one entry. -/
theorem run_tables (call : DatabaseCall) : ∃ added : List Entry, (∀ e ∈ added, call = .yazOidAdd e.oclass e.name e.oid) ∧
    call.run (tables.map some) = some ((tables ++ added.map fun e => [e]).map some) := by
  have same : ∀ {α : Type} {answer : Option α}, answer.isSome = true →
      (answer.map fun _ => tables.map some) = some ((tables ++ ([] : List Entry).map fun e => [e]).map some) := by
    intro α answer there
    obtain ⟨value, rfl⟩ := Option.isSome_iff_exists.mp there
    rw [map_nil, append_nil]
    rfl
  have none : ∀ call : DatabaseCall, ∀ e ∈ ([] : List Entry), call = .yazOidAdd e.oclass e.name e.oid := fun _ _ member => nomatch member
  cases call with
  | yazOidAdd oclass name newOid =>
    rw [DatabaseCall.run, Database.yazOidAdd, yazStringToOid_tables, Option.map_some]
    split
    · exact ⟨[{ oclass, oid := newOid, name }], by simp, by simp⟩
    · exact ⟨[], none _, by simp⟩
  | yazStringToOid => exact ⟨[], none _, same (by rw [yazStringToOid_tables]; rfl)⟩
  | yazOidToString oid =>
    cases oid with
    | none => exact ⟨[], none _, by simp [DatabaseCall.run]⟩
    | some => exact ⟨[], none _, same yazOidToString_tables⟩
  | yazOidTrav => exact ⟨[], none _, same yazOidTrav_tables⟩

/-- The calls of a run append tables with what they register. -/
theorem foldlM_tables (calls : List DatabaseCall) : ∃ added : List Entry,
    (∀ e ∈ added, .yazOidAdd e.oclass e.name e.oid ∈ calls) ∧
    calls.foldlM DatabaseCall.run (tables.map some) = some ((tables ++ added.map fun e => [e]).map some) := by
  induction calls generalizing tables with
  | nil => exact ⟨[], fun _ member => (nomatch member), by simp⟩
  | cons call _ ih =>
    obtain ⟨first, isCall, step⟩ := @run_tables tables call
    obtain ⟨later, areCalls, rest⟩ := @ih (tables ++ first.map fun e => [e])
    refine ⟨first ++ later, fun e member => ?_, ?_⟩
    · rcases mem_append.mp member with member | member
      · rw [isCall e member]
        exact mem_cons_self
      · exact mem_cons_of_mem call (areCalls e member)
    · rw [foldlM_cons, step, Option.bind_eq_bind, Option.bind_some, rest, @List.map_append _ _ _ first, append_assoc]

theorem addsAsMap_tables : AddsAsMap (tables.map some) := by
  intro oclass name newOid
  have added : ∀ oclass' name', Database.yazStringToOid oclass' name' (tables.map some ++ [some [{ oclass, oid := newOid, name }]]) =
      some (((tables.findSome? (tableLookup oclass' name')).or
        (tableLookup oclass' name' [{ oclass, oid := newOid, name }])).map Entry.oid) := by
    intro oclass' name'
    have whole := @yazStringToOid_tables oclass' name' (tables ++ [[{ oclass, oid := newOid, name }]])
    rw [map_append, findSome?_append] at whole
    rw [map_singleton] at whole
    rw [whole, findSome?_singleton]
  cases found : tables.findSome? (tableLookup oclass name) with
  | some e =>
    refine ⟨some e.oid, tables.map some, ?_, ?_, nofun, fun _ _ _ known => known⟩
    · rw [yazStringToOid_tables, found]
      rfl
    · rw [Database.yazOidAdd, yazStringToOid_tables, found]
      rfl
  | none =>
    refine ⟨none, tables.map some ++ [some [{ oclass, oid := newOid, name }]], ?_, ?_, fun _ => ?_, fun oclass' name' oid known => ?_⟩
    · rw [yazStringToOid_tables, found]
      rfl
    · rw [Database.yazOidAdd, yazStringToOid_tables, found]
      rfl
    · rw [added, found, tableLookup_added]
      rfl
    · rw [yazStringToOid_tables] at known
      obtain ⟨e, first, rfl⟩ := Option.map_eq_some_iff.mp (Option.some.inj known)
      rw [added, first]
      rfl

/-- A database is a map in every run exactly when it is the standard one: any other is not fit for its first call. -/
theorem behavesAsMap_iff (origin : Origin) (calls : List DatabaseCall) : BehavesAsMap origin.database calls ↔ origin = .yazOidStd := by
  cases origin with
  | yazOidStd =>
    refine iff_of_true ?_ rfl
    obtain ⟨added, areCalls, run⟩ := @foldlM_tables [yazOidStandardEntries] calls
    refine ⟨_, run, fun call => ?_, addsAsMap_tables, ?_⟩
    · obtain ⟨more, -, step⟩ := @run_tables ([yazOidStandardEntries] ++ added.map fun e => [e]) call
      rw [step]
      rfl
    · intro oclass name oid known
      rw [yazStringToOid_tables] at known
      obtain ⟨e, first, rfl⟩ := Option.map_eq_some_iff.mp (Option.some.inj known)
      obtain ⟨table, member, inTable⟩ := exists_of_findSome?_eq_some first
      obtain ⟨isEntry, matched⟩ := tableLookup_some inTable
      refine ⟨e, ?_, rfl, ((yazMatchstr_iff name.2).mp matched).1⟩
      rcases mem_append.mp member with standard | new
      · rw [mem_singleton.mp standard] at isEntry
        exact .inl isEntry
      · obtain ⟨e', member', rfl⟩ := mem_map.mp new
        rw [mem_singleton.mp isEntry]
        exact .inr (areCalls e' member')
  | yazOidDbNew =>
    refine iff_of_false ?_ nofun
    rintro ⟨db, run, answers, -⟩
    have unchanged : ∀ calls : List DatabaseCall, ∀ db, calls.foldlM DatabaseCall.run [none] = some db → db = [none] := by
      intro calls
      induction calls with
      | nil => exact fun db run => (Option.some.inj run).symm
      | cons call _ ih =>
        intro db run
        rw [foldlM_cons] at run
        cases call with
        | yazOidToString oid =>
          cases oid with
          | none => exact ih db run
          | some => cases run
        | _ => cases run
    rw [unchanged calls db run] at answers
    exact absurd (answers .yazOidTrav) (by decide)

/-- The first name that is looked up in a database of its own. -/
theorem behavesAsMap_new : ¬BehavesAsMap yazOidDbNew [.yazStringToOid .recsyn (ascii "usmarc")] := by
  rintro ⟨db, run, -⟩
  cases run

end Yaz.Oid
