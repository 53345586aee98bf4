import Yaz.Pqf.Printer

/-! Sort specifications: `sortspec.c`.

No key is one for databases.
-/

set_option autoImplicit false

namespace Yaz.Zoom
open Yaz.Comstack (ascii)
open Yaz.Json (isSpace)
open Yaz.Pqf (scanInt odrAtoi intText)

/-- What a result is sorted by: `Z_SortKey_sortAttributes` or `Z_SortKey_sortField`. -/
inductive SortKey where
  | sortAttributes (attributes : List (Int32 × Int64))
  | sortField (field : List UInt8)
  deriving DecidableEq

inductive MissingValue where
  | null
  | abort
  | missingValueData (buf : List UInt8)
  deriving DecidableEq

/-- `Z_SortKeySpec`. -/
structure SortKeySpec where
  key : SortKey
  descending : Bool := false
  caseSensitive : Bool := false
  missing : MissingValue := .null
  deriving DecidableEq

/-- `%63s`: the word, and what is behind it. -/
def scanWord (arg : List UInt8) : List UInt8 × List UInt8 :=
  let arg := arg.dropWhile isSpace
  let word := (arg.takeWhile fun c => !isSpace c).take 63
  (word, arg.drop word.length)

/-- `atoi`: `strtol`, and the low half of it. -/
def atoi (mem : List UInt8) : Int32 := Int32.ofInt (max (-2 ^ 63) (min (2 ^ 63 - 1) (scanInt 10 mem)))

def strchr (c : UInt8) (string : List UInt8) : Option (List UInt8) :=
  match string.dropWhile (· ≠ c) with
  | [] => none
  | found => some found

def sortAttributesFrom : (room : Nat) → (sortString : List UInt8) → List (Int32 × Int64)
  | 0, _ => []
  | room + 1, sortString =>
    match strchr 61 sortString with
    | none => []
    | some sep =>
      (atoi sortString, odrAtoi (sep.drop 1)) ::
        match strchr 44 sortString with
        | none => []
        | some rest => sortAttributesFrom room (rest.drop 1)

def sortFlags : List UInt8 → SortKeySpec → SortKeySpec
  | [], sks => sks
  | c :: rest, sks =>
    if c = 100 ∨ c = 68 ∨ c = 62 then sortFlags rest { sks with descending := true }
    else if c = 97 ∨ c = 65 ∨ c = 60 then sortFlags rest { sks with descending := false }
    else if c = 105 ∨ c = 73 then sortFlags rest { sks with caseSensitive := false }
    else if c = 83 ∨ c = 115 then sortFlags rest { sks with caseSensitive := true }
    else if c = 33 then sortFlags rest { sks with missing := .abort }
    else if c = 61 then { sks with missing := .missingValueData rest }
    else sortFlags rest sks

def sortKey (sortString : List UInt8) : SortKey :=
  match strchr 61 sortString with
  | some _ => .sortAttributes (sortAttributesFrom 10 sortString)
  | none => .sortField sortString

def sortKeys : (rounds : Nat) → (arg : List UInt8) → List SortKeySpec
  | 0, _ => []
  | rounds + 1, arg =>
    let (sortString, rest) := scanWord arg
    let (flags, rest) := scanWord rest
    if sortString = [] ∨ flags = [] then []
    else sortFlags flags { key := sortKey sortString } :: sortKeys rounds rest

/-- `yaz_sort_spec`; `none` is a null pointer. -/
def yazSortSpec (arg : List UInt8) : Option (List SortKeySpec) :=
  match sortKeys arg.length arg with
  | [] => none
  | specs => some specs

/-- The array of a specification has room for 20 keys, which is not looked at: the others are stored behind it. -/
def sortSpecOverruns (arg : List UInt8) : Bool := 20 < (sortKeys arg.length arg).length

/-! ### Writing

What is appended, and whether all keys were written.
-/

/-- The keys from the `i`-th on, up to the first that `each` does not write; it has written something nevertheless. -/
def writeKeys (each : Nat → SortKeySpec → List UInt8 × Bool) : (i : Nat) → List SortKeySpec → List UInt8 × Bool
  | _, [] => ([], true)
  | i, sks :: specs =>
    let (text, written) := each i sks
    if written then
      let later := writeKeys each (i + 1) specs
      (text ++ later.1, later.2)
    else (text, false)

def yazSortSpecToCql : List SortKeySpec → List UInt8 × Bool :=
  writeKeys (fun i sks =>
    let lead := ascii (if i = 0 then " SORTBY " else " ")
    match sks.key with
    | .sortAttributes _ => (lead, false)
    | .sortField field =>
      (lead ++ field ++ ascii (if sks.descending then "/descending" else "/ascending") ++
        ascii (if sks.caseSensitive then "/respectCase" else "/ignoreCase") ++
        match sks.missing with
        | .null => []
        | .abort => ascii "/missingFail"
        | .missingValueData buf => ascii "/missingValue=" ++ buf, true)) 0

/-- What `yaz_sort_spec_to_type7` appends for a key. -/
def type7Key (i : Nat) (sks : SortKeySpec) : List UInt8 × Bool :=
  ((match sks.key with
    | .sortAttributes attributes =>
      attributes.flatMap fun a => ascii " @attr " ++ intText a.1.toInt ++ ascii "=" ++ intText a.2.toInt
    | .sortField field => ascii " @attr 1=" ++ field) ++
    ascii (if sks.descending then " @attr 7=2 " else " @attr 7=1 ") ++ Http.decimal i, true)

/-- `yaz_sort_spec_to_type7`, which also inserts before what is there. -/
def yazSortSpecToType7 (specs : List SortKeySpec) (pqf : List UInt8) : List UInt8 :=
  (List.replicate specs.length (ascii "@or ")).flatten ++ pqf ++ (writeKeys type7Key 0 specs).1

def yazSortSpecToSrwSortkeys : List SortKeySpec → List UInt8 × Bool :=
  writeKeys (fun i sks =>
    let lead := ascii (if i = 0 then "" else " ")
    match sks.key with
    | .sortAttributes _ => (lead, false)
    | .sortField field =>
      (lead ++ field ++ ascii ",," ++ ascii (if sks.descending then "0" else "1") ++ ascii "," ++
        ascii (if sks.caseSensitive then "1" else "0") ++ ascii "," ++
        match sks.missing with
        | .null => ascii "highValue"
        | .abort => ascii "abort"
        | .missingValueData buf => buf, true)) 0

def yazSortSpecToSolrSortkeys : List SortKeySpec → List UInt8 × Bool :=
  writeKeys (fun i sks =>
    let lead := ascii (if i = 0 then "" else ",")
    match sks.key with
    | .sortAttributes _ => (lead, false)
    | .sortField field => (lead ++ field ++ ascii (if sks.descending then " desc" else " asc"), true)) 0

example : yazSortSpec (ascii "title a 1=4,2=3 ds=x") =
    some [{ key := .sortField (ascii "title") },
      { key := .sortAttributes [(1, 4),
        (2, 3)], descending := true, caseSensitive := true, missing := .missingValueData (ascii "x") }] := by
  decide

end Yaz.Zoom
