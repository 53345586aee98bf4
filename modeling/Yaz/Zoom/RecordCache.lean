import Yaz.Foundation.Chained
import Yaz.Zoom.Resultset

/-! The hash table of `zoom-record-cache.c`, with its chains and what a record is kept with.

Strings are without their NUL. Events and the render buffer of a record are left out.
-/

set_option autoImplicit false

namespace Yaz.Zoom
open Yaz.Foundation

/-- The sign of `strcmp`. -/
def strcmp (v1 v2 : List UInt8) : Int := if v1 = v2 then 0 else if v1 < v2 then -1 else 1

def yazStrcmpNull (v1 v2 : Option (List UInt8)) : Int :=
  match v1, v2 with
  | some v1, some v2 => strcmp v1 v2
  | some _, none => 1
  | none, some _ => -1
  | none, none => 0

theorem yazStrcmpNull_eq_zero_iff (v1 v2 : Option (List UInt8)) : yazStrcmpNull v1 v2 = 0 ↔ v1 = v2 := by
  cases v1 <;> cases v2 <;> simp only [yazStrcmpNull, strcmp]
  case some.some v1 v2 =>
    rw [Option.some.injEq]
    split
    next same => exact iff_of_true rfl same
    next differs => split <;> exact iff_of_false (by decide) differs
  all_goals simp

/-- Where `strrchr` finds the last `c`. -/
def strrchr (c : UInt8) : (text : List UInt8) → Option Nat
  | [] => none
  | octet :: text => ((strrchr c text).map (· + 1)).or (if octet = c then some 0 else none)

/-- `Z_SRW_diagnostic`. -/
structure SrwDiagnostic where
  uri : Option (List UInt8) := none
  details : Option (List UInt8) := none
  message : Option (List UInt8) := none
  deriving DecidableEq

/-- `struct ZOOM_record_p`. -/
structure Record (R : Type) where
  npr : R
  schema : Option (List UInt8)
  diagUri : Option (List UInt8)
  diagMessage : Option (List UInt8)
  diagDetails : Option (List UInt8)
  diagSet : Option (List UInt8)
  deriving DecidableEq

/-- `struct ZOOM_record_cache_p`, without the link to the next. -/
structure RecordCache (R : Type) where
  record : Record R
  elementSetName : Option (List UInt8)
  preferredSyntax : Option (List UInt8)
  schema : Option (List UInt8)
  pos : Int
  deriving DecidableEq

abbrev recordHashSize : Nat := 131

def recordHash (pos : Int) : Fin recordHashSize :=
  let pos := if pos < 0 then 0 else pos
  ⟨(pos % recordHashSize).toNat, by
    rw [Int.toNat_lt (Int.emod_nonneg pos (by decide))]
    exact Int.emod_lt_of_pos pos (by decide)⟩

variable {R : Type}

/-- The member `record_hash` of a result set. -/
abbrev RecordHash (R : Type) := Vector (List (RecordCache R)) recordHashSize

/-- `record_hash` of `ZOOM_resultset_create`. -/
def RecordHash.created : RecordHash R := .replicate recordHashSize []

def diagSetOf (uri : List UInt8) : List UInt8 :=
  match strrchr 47 uri with
  | some cp => uri.take cp
  | none => uri

/-- What `record_cache_add` leaves in `rec`. -/
def recordOf (npr : R) (schema : Option (List UInt8)) (diag : Option SrwDiagnostic) : Record R where
  npr := npr
  schema := schema
  diagUri := diag.bind SrwDiagnostic.uri
  diagMessage := diag.bind SrwDiagnostic.message
  diagDetails := diag.bind SrwDiagnostic.details
  diagSet := (diag.bind SrwDiagnostic.uri).map diagSetOf

/-- The test of the loop of `record_cache_add`. -/
def RecordCache.matches (rc : RecordCache R) (pos : Int) (format : Format) : Bool :=
  pos == rc.pos && yazStrcmpNull format.schema rc.schema == 0 && yazStrcmpNull format.elementSetName rc.elementSetName == 0
    && yazStrcmpNull format.preferredSyntax rc.preferredSyntax == 0

/-- The loop of `record_cache_add`, with what is then stored in the entry that it found. -/
def recordCacheStore (pos : Int) (format : Format) (record : Record R) : (rc : List (RecordCache R)) → Option (List (RecordCache R))
  | [] => none
  | rc :: next =>
    if rc.matches pos format then some ({ rc with record := record } :: next)
    else (recordCacheStore pos format record next).map (rc :: ·)

def recordCacheAdd (r : RecordHash R) (npr : R) (pos : Int) (format : Format) (diag : Option SrwDiagnostic) : RecordHash R :=
  let record := recordOf npr format.schema diag
  let chain := r[recordHash pos]
  match recordCacheStore pos format record chain with
  | some stored => r.set (recordHash pos) stored
  | none =>
    let rc : RecordCache R :=
      { record := record, elementSetName := format.elementSetName, preferredSyntax := format.preferredSyntax
        schema := format.schema, pos := pos }
    r.set (recordHash pos) (rc :: chain)

/-- The loop of `ZOOM_record_cache_lookup_i`. -/
def recordCacheFind (pos : Int) (format : Format) : (rc : List (RecordCache R)) → Option (Record R)
  | [] => none
  | rc :: next =>
    if pos = rc.pos then
      if yazStrcmpNull format.schema rc.schema ≠ 0 then recordCacheFind pos format next
      else if yazStrcmpNull format.elementSetName rc.elementSetName ≠ 0 then recordCacheFind pos format next
      else if yazStrcmpNull format.preferredSyntax rc.preferredSyntax ≠ 0 then recordCacheFind pos format next
      else some rc.record
    else recordCacheFind pos format next

def zoomRecordCacheLookupI (r : RecordHash R) (pos : Int) (format : Format) : Option (Record R) :=
  recordCacheFind pos format r[recordHash pos]

/-- `ZOOM_record_cache_lookup`, where `memcached` is `ZOOM_memcached_lookup`. -/
def zoomRecordCacheLookup (memcached : Int → Format → Option R) (r : RecordHash R) (pos : Int) (format : Format) :
    Option (Record R) × RecordHash R :=
  match zoomRecordCacheLookupI r pos format with
  | some record => (some record, r)
  | none =>
    match memcached pos format with
    | some npr =>
      let r := recordCacheAdd r npr pos format none
      (zoomRecordCacheLookupI r pos format, r)
    | none => (none, r)

/-- `ZOOM_memcached_lookup` where there is neither a server of memcached nor one of Redis. -/
def noMemcached : Int → Format → Option R := fun _ _ => none

def zoomResultsetCacheReset (r : RecordHash R) : RecordHash R := r.map fun _ => []

structure RecordKey where
  pos : Int
  format : Format
  deriving DecidableEq

def RecordKey.hash (key : RecordKey) : Fin recordHashSize := recordHash key.pos

def RecordCache.key (rc : RecordCache R) : RecordKey where
  pos := rc.pos
  format := { preferredSyntax := rc.preferredSyntax, elementSetName := rc.elementSetName, schema := rc.schema }

def RecordCache.pair (rc : RecordCache R) : RecordKey × Record R := (rc.key, rc.record)

theorem RecordCache.key_eq_iff (rc : RecordCache R) (pos : Int) (format : Format) :
    rc.key = ⟨pos, format⟩ ↔ pos = rc.pos ∧ format.schema = rc.schema ∧ format.elementSetName = rc.elementSetName ∧
      format.preferredSyntax = rc.preferredSyntax := by
  cases format
  rw [RecordCache.key, RecordKey.mk.injEq, Format.mk.injEq]
  constructor
  · rintro ⟨pos, named, set, schema⟩
    exact ⟨pos.symm, schema.symm, set.symm, named.symm⟩
  · rintro ⟨pos, schema, set, named⟩
    exact ⟨pos.symm, named.symm, set.symm, schema.symm⟩

theorem RecordCache.matches_iff (rc : RecordCache R) (pos : Int) (format : Format) : rc.matches pos format = true ↔
    rc.key = ⟨pos, format⟩ := by
  rw [RecordCache.key_eq_iff, RecordCache.matches]
  simp only [Bool.and_eq_true, beq_iff_eq, yazStrcmpNull_eq_zero_iff, and_assoc]

variable (pos : Int)

theorem map_recordCacheStore (format : Format) (record : Record R) (chain : List (RecordCache R)) :
    (recordCacheStore pos format record chain).map (List.map RecordCache.pair) =
      chainChange ⟨pos, format⟩ record (chain.map RecordCache.pair) := by
  induction chain with
  | nil => rfl
  | cons rc _ ih =>
    rw [recordCacheStore, List.map_cons, chainChange]
    by_cases same : rc.key = ⟨pos, format⟩
    · rw [if_pos ((rc.matches_iff pos format).mpr same), if_pos (show rc.pair.1 = _ from same), ← same]
      rfl
    · rw [if_neg fun found => same ((rc.matches_iff pos format).mp found), if_neg (show ¬ rc.pair.1 = _ from same), ← ih,
        Option.map_map, Option.map_map]
      rfl

theorem recordCacheFind_cons (format : Format) (rc : RecordCache R) (next : List (RecordCache R)) :
    recordCacheFind pos format (rc :: next) = if rc.key = ⟨pos, format⟩ then some rc.record else recordCacheFind pos format next := by
  simp only [recordCacheFind, RecordCache.key_eq_iff, ne_eq, yazStrcmpNull_eq_zero_iff, ite_not, ite_and]

theorem recordCacheFind_eq (format : Format) (chain : List (RecordCache R)) :
    recordCacheFind pos format chain = (chain.map RecordCache.pair).lookup ⟨pos, format⟩ := by
  induction chain with
  | nil => rfl
  | cons _ _ ih =>
    rw [recordCacheFind_cons, List.map_cons, lookup_cons_eq, ih]
    rfl

def Holds (r : RecordHash R) (table : Chained RecordKey.hash (Record R)) : Prop := r.map (List.map RecordCache.pair) = table.chains

variable {r : RecordHash R}

variable {table : Chained RecordKey.hash (Record R)}

theorem Holds.chain (holds : Holds r table) (i : Fin recordHashSize) :
    r[i].map RecordCache.pair = table.chains[i] := by
  rw [← holds]
  simp

theorem Holds.distinct (holds : Holds r table) (i : Fin recordHashSize) :
    (r[i].map RecordCache.key).Nodup := by
  have distinct := table.distinct i
  rw [← holds.chain i, List.map_map] at distinct
  exact distinct

theorem created_holds : Holds (R := R) .created .empty := by
  simp [Holds, RecordHash.created, Chained.empty]

theorem reset_holds (r : RecordHash R) : Holds (zoomResultsetCacheReset r) .empty := by
  simp only [Holds, zoomResultsetCacheReset, Chained.empty]
  ext i
  simp

theorem recordCacheAdd_holds (holds : Holds r table) (npr : R) (pos : Int)
    (format : Format) (diag : Option SrwDiagnostic) :
    Holds (recordCacheAdd r npr pos format diag) (table.put ⟨pos, format⟩ (recordOf npr format.schema diag)) := by
  have chain : r[recordHash pos].map RecordCache.pair = table.chains[RecordKey.hash ⟨pos, format⟩] := holds.chain (recordHash pos)
  have stored := map_recordCacheStore pos format (recordOf npr format.schema diag) r[recordHash pos]
  rw [chain] at stored
  rw [Holds, recordCacheAdd, Chained.put]
  simp only [chainPut]
  rw [← stored]
  cases recordCacheStore pos format (recordOf npr format.schema diag) r[recordHash pos] with
  | some =>
    rw [Option.map_some, Option.getD_some, ← holds]
    exact Vector.map_set ..
  | none =>
    rw [Option.map_none, Option.getD_none, ← chain, ← holds]
    exact Vector.map_set ..

theorem lookupI_eq_get (holds : Holds r table) (pos : Int) (format : Format) :
    zoomRecordCacheLookupI r pos format = table.get ⟨pos, format⟩ := by
  rw [zoomRecordCacheLookupI, recordCacheFind_eq, holds.chain]
  rfl

theorem lookup_noMemcached (r : RecordHash R) (pos : Int) (format : Format) :
    zoomRecordCacheLookup noMemcached r pos format = (zoomRecordCacheLookupI r pos format, r) := by
  rw [zoomRecordCacheLookup]
  cases zoomRecordCacheLookupI r pos format <;> rfl

inductive CacheCall (R : Type) where
  | add (npr : R) (pos : Int) (format : Format) (diag : Option SrwDiagnostic)
  | lookup (pos : Int) (format : Format)
  | reset

def RecordHash.call (r : RecordHash R) : CacheCall R → RecordHash R
  | .add npr pos format diag => recordCacheAdd r npr pos format diag
  | .lookup pos format => (zoomRecordCacheLookup noMemcached r pos format).2
  | .reset => zoomResultsetCacheReset r

def latestAdded (pos : Int) (format : Format) : (calls : List (CacheCall R)) → Option (Record R)
  | [] => none
  | .add npr addPos addFormat diag :: calls =>
    if addPos = pos ∧ addFormat = format then some (recordOf npr addFormat.schema diag) else latestAdded pos format calls
  | .lookup _ _ :: calls => latestAdded pos format calls
  | .reset :: _ => none

def CacheCall.update : CacheCall R → Option (Chained.Update RecordKey (Record R))
  | .add npr pos format diag => some (.put ⟨pos, format⟩ (recordOf npr format.schema diag))
  | .lookup _ _ => none
  | .reset => some .clear

theorem latest_updates (format : Format) (calls : List (CacheCall R)) :
    Chained.latest ⟨pos, format⟩ (calls.filterMap CacheCall.update) = latestAdded pos format calls := by
  induction calls with
  | nil => rfl
  | cons call _ ih =>
    cases call with
    | add =>
      rw [List.filterMap_cons, latestAdded, ← ih]
      simp only [CacheCall.update, Chained.latest, RecordKey.mk.injEq]
    | lookup => exact ih
    | reset => rfl

theorem call_holds (holds : Holds r table) (call : CacheCall R) :
    Holds (r.call call) (call.update.elim table table.update) := by
  cases call with
  | add npr pos format diag => exact recordCacheAdd_holds holds npr pos format diag
  | lookup =>
    rw [RecordHash.call, lookup_noMemcached]
    exact holds
  | reset => exact reset_holds r

theorem calls_hold (calls : List (CacheCall R)) (holds : Holds r table) :
    Holds (calls.foldl RecordHash.call r) ((calls.filterMap CacheCall.update).foldl Chained.update table) := by
  induction calls generalizing r table with
  | nil => exact holds
  | cons call _ ih =>
    have first := call_holds holds call
    rw [List.foldl_cons, List.filterMap_cons]
    cases changes : call.update with
    | none =>
      rw [changes] at first
      exact ih first
    | some =>
      rw [changes] at first
      exact ih first

/-- The chains refine a map from positions and formats to records. -/
theorem recordCache_refines (calls : List (CacheCall R)) :
    (∀ (pos : Int) (format : Format), (zoomRecordCacheLookup noMemcached (calls.foldl RecordHash.call .created) pos format).1 =
        latestAdded pos format calls.reverse) ∧
      ∀ i : Fin recordHashSize, ((calls.foldl RecordHash.call .created)[i].map (RecordCache.key (R := R))).Nodup := by
  have holds := calls_hold calls (created_holds (R := R))
  constructor
  · intro pos format
    rw [lookup_noMemcached, lookupI_eq_get holds, Chained.get_foldl_update, ← List.filterMap_reverse, latest_updates]
  · exact holds.distinct

end Yaz.Zoom
