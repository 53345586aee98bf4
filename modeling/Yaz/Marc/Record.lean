import Mathlib.Data.List.TakeWhile
import Yaz.Http.Message
import Yaz.Iconv.Decoders

/-! MARC records: the nodes of a `yaz_marc_t`, and `yaz_marc_set_leader` of `marcdisp.c`.

There is no charset conversion, no leader specification and no debugging.
-/

set_option autoImplicit false

namespace Yaz.Marc
open Yaz.Comstack
open Yaz.Http (cString decimal)
open Yaz.Iconv (yazReadUTF8Char)

theorem cString_eq_self {octets : List UInt8} (noNul : 0 ∉ octets) : cString octets = octets := by
  rw [cString]
  apply List.takeWhile_eq_self_iff.mpr
  intro c inside
  have notNul : c ≠ 0 := fun is => noNul (is ▸ inside)
  simpa using notNul

theorem cString_append_nul {octets : List UInt8} (noNul : 0 ∉ octets) (behind : List UInt8) : cString (octets ++ 0 :: behind) = octets := by
  have all : ∀ c ∈ octets, decide (c ≠ 0) = true := by
    intro c inside
    have notNul : c ≠ 0 := fun is => noNul (is ▸ inside)
    simpa using notNul
  rw [cString, List.takeWhile_append_of_pos all]
  exact List.append_nil octets

/-- `struct yaz_marc_node`. A subfield is its `code_data`, with what is behind a NUL in it. -/
inductive Node where
  | datafield (tag indicator : List UInt8) (subfields : List (List UInt8))
  | controlfield (tag data : List UInt8)
  | comment (comment : List UInt8)
  | leader (leader : List UInt8)
  deriving DecidableEq

def Node.isField : Node → Bool
  | .datafield _ _ _ => true
  | .controlfield _ _ => true
  | _ => false

def fields (nodes : List Node) : List Node := nodes.filter Node.isField

/-- `yaz_marc_cprintf`: a buffer of 200 octets is not filled. -/
def marcCprintf (text : List UInt8) : Node := .comment (cString (text.take 198))

def atoiNCheck (buf : List UInt8) : Option Nat :=
  match yazAtoi 10 buf with
  | some (ret, val) => if ret = buf.length then some val else none
  | none => none

def atoiN (buf : List UInt8) : Nat := (atoiNCheck buf).getD 0

/-- `cdata_one_character` where nothing is converted. -/
def cdataOneCharacter (buf : List UInt8) : Nat :=
  let octets := yazReadUTF8Char (buf.take 4)
  if octets.errno = some .ok ∧ 0 < octets.noRead then octets.noRead else 1

theorem cdataOneCharacter_ascii {c : UInt8} (low : c ≤ 127) (rest : List UInt8) : cdataOneCharacter (c :: rest) = 1 := by
  have octet : yazReadUTF8Char ((c :: rest).take 4) = { x := c.toNat, noRead := 1, errno := some .ok } := by
    rw [List.take_succ_cons, yazReadUTF8Char]
    exact if_pos low
  rw [cdataOneCharacter, octet]
  rfl

def getSubfieldLen (data : List UInt8) (identifierLength : Nat) : Nat :=
  if 2 < identifierLength then identifierLength - 1 else cdataOneCharacter data

structure Lengths where
  indicatorLength : Nat
  identifierLength : Nat
  baseAddress : Nat
  lengthDataEntry : Nat
  lengthStarting : Nat
  lengthImplementation : Nat
  deriving DecidableEq

structure LeaderCheck where
  leader : List UInt8
  comments : List Node := []
  deriving DecidableEq

/-- `check_ascii`. -/
def LeaderCheck.ascii (check : LeaderCheck) (offset : Nat) (chDefault : UInt8) : LeaderCheck :=
  let c := check.leader.getD offset 0
  if c < 32 ∨ 127 < c then
    { leader := check.leader.set offset chDefault
      comments := check.comments ++ [marcCprintf (Comstack.ascii "Leader character at offset " ++ decimal offset ++
        Comstack.ascii " is non-ASCII. Setting value to '" ++ [chDefault] ++ Comstack.ascii "'")] }
  else check

/-- A number of the leader that is at least `least`; `digit` takes its place in the leader if it is not. -/
def LeaderCheck.number (check : LeaderCheck) (offset size least assumed : Nat) (digit : Option UInt8) (text : String) : Nat × LeaderCheck :=
  let bad : Nat × LeaderCheck :=
    (assumed,
      { leader := digit.elim check.leader (check.leader.set offset)
        comments := check.comments ++ [marcCprintf (Comstack.ascii text)] })
  match atoiNCheck ((check.leader.drop offset).take size) with
  | some value => if least ≤ value then (value, check) else bad
  | none => bad

/-- `yaz_marc_set_leader`. -/
def setLeader (leaderC : List UInt8) : Lengths × List Node :=
  let check : LeaderCheck := { leader := leaderC.take 24 }
  let check := ((((check.ascii 5 97).ascii 6 97).ascii 7 97).ascii 8 35).ascii 9 35
  let (indicatorLength, check) :=
    check.number 10 1 1 2 (some 50) "Indicator length at offset 10 should hold a number 1-9. Assuming 2"
  let (identifierLength, check) :=
    check.number 11 1 1 2 (some 50) "Identifier length at offset 11 should  hold a number 1-9. Assuming 2"
  let (baseAddress, check) := check.number 12 5 0 0 none "Base address at offsets 12..16 should hold a number. Assuming 0"
  let check := ((check.ascii 17 35).ascii 18 35).ascii 19 35
  let (lengthDataEntry, check) :=
    check.number 20 1 3 4 (some 52) "Length data entry at offset 20 should hold a number 3-9. Assuming 4"
  let (lengthStarting, check) :=
    check.number 21 1 4 5 (some 53) "Length starting at offset 21 should hold a number 4-9. Assuming 5"
  let (lengthImplementation, check) :=
    check.number 22 1 0 0 (some 48) "Length implementation at offset 22 should hold a number. Assuming 0"
  let check := check.ascii 23 48
  ({ indicatorLength, identifierLength, baseAddress, lengthDataEntry, lengthStarting, lengthImplementation },
    check.comments ++ [.leader check.leader])

end Yaz.Marc
