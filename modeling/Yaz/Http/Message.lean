import Yaz.Comstack.Complete

/-! The first line of a response of `http.c`, and the strings and numbers of its messages. -/

set_option autoImplicit false

namespace Yaz.Http
open Yaz.Comstack

def cString (octets : List UInt8) : List UInt8 := octets.takeWhile (· ≠ 0)

/-- `strchr("\r\n", c)`, which also finds the end of the string. -/
def isLineChar (c : UInt8) : Bool := c = 13 || c = 10 || c = 0

/-- `if (i < size-1 && buf[i] == '\r') i++`. -/
def skipCr (mem : List UInt8) : List UInt8 := if 2 ≤ mem.length ∧ mem.head? = some 13 then mem.drop 1 else mem

def spanLine (mem : List UInt8) : List UInt8 × List UInt8 :=
  (mem.takeWhile fun c => !isLineChar c, mem.dropWhile fun c => !isLineChar c)

/-- The digits of a status code: `i > j+3` after `n` of them. -/
def statusCode : List UInt8 → Nat → Nat → Option (Nat × List UInt8)
  | mem, n, code =>
    if mem.length ≤ 1 ∨ 3 < n then none
    else match mem with
      | [] => none
      | c :: rest => if isDigit c then statusCode rest (n + 1) (code * 10 + (c.toNat - 48)) else some (code, c :: rest)

/-- `yaz_decode_http_response_first`: code and version, and the octets from the LF on. -/
def yazDecodeHttpResponseFirst (buf : List UInt8) : Option ((Nat × List UInt8) × List UInt8) :=
  if buf.length < 10 ∨ buf.take 5 ≠ ascii "HTTP/" then none
  else
    let version := (buf.drop 5).takeWhile fun c => !(c = 32 || isLineChar c)
    let rest := (buf.drop 5).dropWhile fun c => !(c = 32 || isLineChar c)
    if rest.length ≤ 1 ∨ rest.head? ≠ some 32 then none
    else match statusCode (rest.drop 1) 0 0 with
      | none => none
      | some (code, rest) =>
        if rest.head? ≠ some 32 then none
        else
          let behind := (spanLine (rest.drop 1)).2
          if behind = [] then none
          else if (skipCr behind).head? = some 10 then some ((code, version), skipCr behind) else none

/-- `%d` of a number that is not negative. -/
def decimal (n : Nat) : List UInt8 :=
  if n < 10 then [UInt8.ofNat (48 + n)] else decimal (n / 10) ++ [UInt8.ofNat (48 + n % 10)]

end Yaz.Http
