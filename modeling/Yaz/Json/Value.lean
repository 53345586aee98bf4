import Yaz.Iconv.Utf8

/-! The parser and the writer of `json.c`.

A text is the list of its octets before the NUL, and `cp` what is left of it. Numbers are
read by `strtod`, a parameter that gives the number of octets used and the value.
-/

set_option autoImplicit false

namespace Yaz.Json
open Yaz.Ber Yaz.Comstack Yaz.Iconv

mutual

/-- `struct json_node`; the lists of an object and of an array are types of their own. -/
inductive Node (Number : Type) : Type where
  | object (members : Members Number)
  | array (elements : Elements Number)
  | string (octets : List UInt8)
  | number (value : Number)
  | true
  | false
  | null

inductive Members (Number : Type) : Type where
  | nil
  | cons (key : List UInt8) (value : Node Number) (rest : Members Number)

inductive Elements (Number : Type) : Type where
  | nil
  | cons (value : Node Number) (rest : Elements Number)

end

/-! ### Characters -/

def isSpace (c : UInt8) : Bool := c = 32 || (9 ≤ c.toNat && c.toNat ≤ 13)

def hexValue (c : UInt8) : Option Nat :=
  match digitValue c with
  | some digit => if digit < 16 then some digit else none
  | none => none

/-- The value of the hexadecimal digits at the front, of at most `width`, and their number. -/
def hexDigits : Nat → List UInt8 → Nat → Nat × Nat
  | width + 1, c :: rest, value =>
    match hexValue c with
    | some digit => ((hexDigits width rest (value * 16 + digit)).1 + 1, (hexDigits width rest (value * 16 + digit)).2)
    | none => (0, value)
  | _, _, value => (0, value)

def scanDigits (width : Nat) (mem : List UInt8) : Option (Nat × Nat) :=
  if (hexDigits width mem 0).1 = 0 then none else some (hexDigits width mem 0)

/-- Digits that may come after `0x`, all of them in `width` octets. -/
def scanMagnitude (width : Nat) (mem : List UInt8) : Option (Nat × Nat) :=
  if mem.head? = some 48 ∧ ((mem.drop 1).head? = some 120 ∨ (mem.drop 1).head? = some 88) then
    (scanDigits (width - 2) (mem.drop 2)).map fun (n, value) => (n + 2, value)
  else scanDigits width mem

/-- An `unsigned` in four octets, with its sign. -/
def scanUnsigned (mem : List UInt8) : Option (Nat × Nat) :=
  if mem.head? = some 43 then (scanMagnitude 3 (mem.drop 1)).map fun (n, value) => (n + 1, value)
  else if mem.head? = some 45 then (scanMagnitude 3 (mem.drop 1)).map fun (n, value) => (n + 1, (2 ^ 32 - value) % 2 ^ 32)
  else scanMagnitude 4 mem

/-- `sscanf(mem, "%4x%n", &code, &no_read)`: the number of octets read and the code; `none` if nothing was converted.
White space does not count for the width, a sign and the prefix `0x` do. -/
def scanHex4 (mem : List UInt8) : Option (Nat × Nat) :=
  (scanUnsigned (mem.dropWhile isSpace)).map fun (n, value) => (n + (mem.takeWhile isSpace).length, value)

/-- A character above NUL, as a signed `char`. -/
def isPositive (c : UInt8) : Bool := 0 < c.toNat && c.toNat < 128

/-- What follows `\u`: the octets of the character. -/
def unicodeEscape (mem : List UInt8) : Option (List UInt8) :=
  if 4 ≤ mem.length ∧ (mem.take 4).all isPositive then
    match scanHex4 mem with
    | some (4, code) => yazWriteUTF8Char code 6
    | _ => none
  else none

def simpleEscape (c : UInt8) : Option UInt8 :=
  if c = 34 then some 34
  else if c = 92 then some 92
  else if c = 47 then some 47
  else if c = 98 then some 8
  else if c = 102 then some 12
  else if c = 110 then some 10
  else if c = 114 then some 13
  else if c = 116 then some 9
  else none

/-- `json_one_char`: the octets of the character and what is left; `none` for the return value 0. -/
def jsonOneChar : List UInt8 → Option (List UInt8 × List UInt8)
  | [] => none
  | 92 :: c :: rest =>
    match simpleEscape c with
    | some out => some ([out], rest)
    | none => if c = 117 then (unicodeEscape rest).map (·, rest.drop 4) else none
  | c :: rest => if 0 < c.toNat ∧ c.toNat ≤ 31 then none else some ([c], rest)

theorem jsonOneChar_length {mem out rest : List UInt8} (read : jsonOneChar mem = some (out, rest)) :
    rest.length < mem.length := by
  unfold jsonOneChar at read
  split at read
  · simp at read
  · split at read
    · simp only [Option.some.injEq, Prod.mk.injEq] at read
      rw [← read.2]
      simp only [List.length_cons]
      omega
    · split at read
      · rw [Option.map_eq_some_iff] at read
        obtain ⟨octets, -, same⟩ := read
        simp only [Prod.mk.injEq] at same
        rw [← same.2, List.length_drop]
        simp only [List.length_cons]
        omega
      · simp at read
  · split at read
    · simp at read
    · simp only [Option.some.injEq, Prod.mk.injEq] at read
      rw [← read.2]
      simp

/-! ### The parser -/

structure Parser where
  cp : List UInt8
  errMsg : Option String
  deriving DecidableEq

def isBlank (c : UInt8) : Bool := c = 32 || c = 9 || c = 13 || c = 10

/-- `look_ch`: blanks are skipped, the character is the first one that is left. -/
def Parser.look (p : Parser) : Parser := { p with cp := p.cp.dropWhile isBlank }

/-- `move_ch`. -/
def Parser.move (p : Parser) : Parser := { p with cp := p.cp.drop 1 }

def Parser.fail (p : Parser) (message : String) : Parser := { p with errMsg := some message }

def stringChars (mem : List UInt8) : Except String (List UInt8 × List UInt8) :=
  match mem with
  | [] => .error "missing \""
  | c :: rest =>
    if c = 34 then .ok ([], rest)
    else match _read : jsonOneChar (c :: rest) with
      | none => .error "invalid character"
      | some (out, rest) =>
        match stringChars rest with
        | .error message => .error message
        | .ok (octets, rest) => .ok (out ++ octets, rest)
termination_by mem.length
decreasing_by exact jsonOneChar_length _read

def jsonParseString (p : Parser) : Option (List UInt8) × Parser :=
  let p := p.look
  if p.cp.head? ≠ some 34 then (none, p.fail "string expected")
  else
    let p := p.move
    match stringChars p.cp with
    | .error message => (none, p.fail message)
    | .ok (octets, rest) => (some octets, { p with cp := rest })

def someDigits (mem : List UInt8) : Option (List UInt8) :=
  if mem.head?.any isDigit then some (mem.dropWhile isDigit) else none

def integerPart (mem : List UInt8) : Option (List UInt8) :=
  match mem with
  | 48 :: rest => some rest
  | mem => someDigits mem

def fractionPart (mem : List UInt8) : Option (List UInt8) :=
  match mem with
  | 46 :: rest => someDigits rest
  | mem => some mem

def exponentPart (mem : List UInt8) : Option (List UInt8) :=
  match mem with
  | [] => some []
  | c :: rest =>
    if c = 101 ∨ c = 69 then someDigits (if rest.head? = some 43 ∨ rest.head? = some 45 then rest.drop 1 else rest)
    else some (c :: rest)

/-- The end of a number, `none` for a bad one. -/
def numberEnd (mem : List UInt8) : Option (List UInt8) := do
  let mem ← integerPart (if mem.head? = some 45 then mem.drop 1 else mem)
  let mem ← fractionPart mem
  exponentPart mem

section
variable {Number : Type} (strtod : List UInt8 → Nat × Number) (subst : List (Int × Node Number))

def jsonParseNumber (p : Parser) : Option (Node Number) × Parser :=
  match numberEnd p.cp with
  | none => (none, p.fail "bad number")
  | some rest =>
    let (used, value) := strtod p.cp
    if used = 0 then (none, p.fail "bad number")
    else if used ≠ p.cp.length - rest.length then (none, p.fail "bad number")
    else (some (.number value), { p with cp := rest })

/-- The index behind `%`, as an `int`, and what follows it. -/
def substIndex : List UInt8 → Int → Int × List UInt8
  | [], idx => (idx, [])
  | c :: rest, idx => if isDigit c then substIndex rest (wrapInt (idx * 10 + (c.toNat - 48))) else (idx, c :: rest)

/-- `json_parse_value` on anything but a container: a substitution or one of the words. -/
def jsonParseToken (p : Parser) : Option (Node Number) × Parser :=
  if p.cp.head? = some 37 then
    let (idx, rest) := substIndex (p.cp.drop 1) 0
    match subst.lookup idx with
    | some node => (some node, { p with cp := rest })
    | none => (none, ({ p with cp := rest } : Parser).fail "bad token")
  else
    let tok := (p.cp.takeWhile isLower).take 7
    let p := { p with cp := p.cp.drop tok.length }
    if tok = ascii "true" then (some .true, p)
    else if tok = ascii "false" then (some .false, p)
    else if tok = ascii "null" then (some .null, p)
    else (none, p.fail "bad token")

section
variable (value : Parser → Option (Node Number) × Parser)

/-- The loop `while (look_ch(p) == ',')` of `json_parse_elements` behind the first value. It ends in fewer rounds
than there are octets. -/
def jsonParseElements : Nat → Parser → Option (Elements Number) × Parser
  | 0, p => (some .nil, p)
  | rounds + 1, p =>
    let p := p.look
    if p.cp.head? = some 44 then
      match value p.move with
      | (none, p) => (none, p)
      | (some n, p) =>
        match jsonParseElements rounds p with
        | (none, p) => (none, p)
        | (some rest, p) => (some (.cons n rest), p)
    else (some .nil, p)

/-- `json_parse_elements`. -/
def jsonParseElementList (p : Parser) : Option (Elements Number) × Parser :=
  match value p with
  | (none, p) => (none, p)
  | (some n, p) =>
    match jsonParseElements value p.cp.length p with
    | (none, p) => (none, p)
    | (some rest, p) => (some (.cons n rest), p)

def jsonParsePair (p : Parser) : Option (List UInt8 × Node Number) × Parser :=
  match jsonParseString p with
  | (none, p) => (none, p)
  | (some key, p) =>
    let p := p.look
    if p.cp.head? ≠ some 58 then (none, p.fail "missing :")
    else match value p.move with
      | (none, p) => (none, p)
      | (some node, p) => (some (key, node), p)

/-- The loop of `json_parse_members` behind the first pair. -/
def jsonParseMembers : Nat → Parser → Option (Members Number) × Parser
  | 0, p => (some .nil, p)
  | rounds + 1, p =>
    let p := p.look
    if p.cp.head? = some 44 then
      match jsonParsePair value p.move with
      | (none, p) => (none, p)
      | (some (key, node), p) =>
        match jsonParseMembers rounds p with
        | (none, p) => (none, p)
        | (some rest, p) => (some (.cons key node rest), p)
    else (some .nil, p)

/-- `json_parse_members`. -/
def jsonParseMemberList (p : Parser) : Option (Members Number) × Parser :=
  match jsonParsePair value p with
  | (none, p) => (none, p)
  | (some (key, node), p) =>
    match jsonParseMembers value p.cp.length p with
    | (none, p) => (none, p)
    | (some rest, p) => (some (.cons key node rest), p)

end

/-- `json_parse_array`; without `value` the nesting is at its limit. A list of elements that failed leaves its
error text, and an array. -/
def jsonParseArray (value : Option (Parser → Option (Node Number) × Parser)) (p : Parser) :
    Option (Node Number) × Parser :=
  let p := p.look
  if p.cp.head? ≠ some 91 then (none, p.fail "expecting [")
  else
    let p := p.move
    match value with
    | none => (none, p.fail "Too much nesting")
    | some value =>
      let p := p.look
      let (elements, p) := if p.cp.head? ≠ some 93 then jsonParseElementList value p else (some .nil, p)
      let p := p.look
      if p.cp.head? ≠ some 93 then (none, if p.errMsg.isNone then p.fail "expecting ]" else p)
      else (some (.array (elements.getD .nil)), p.move)

def jsonParseObject (value : Option (Parser → Option (Node Number) × Parser)) (p : Parser) :
    Option (Node Number) × Parser :=
  let p := p.look
  if p.cp.head? ≠ some 123 then (none, p.fail "\x7b expected")
  else
    let p := p.move.look
    let (members, p) : Option (Members Number) × Parser :=
      if p.cp.head? ≠ some 125 then
        match value with
        | none => (none, p.fail "Too much nesting")
        | some value => jsonParseMemberList value p
      else (some .nil, p)
    match members with
    | none => (none, p)
    | some members =>
      let p := p.look
      if p.cp.head? ≠ some 125 then (none, p.fail "Missing \x7d")
      else (some (.object members), p.move)

/-- `json_parse_value` with the levels of nesting that are left. -/
def jsonParseValue : Nat → Parser → Option (Node Number) × Parser
  | levels, p =>
    let p := p.look
    let value : Option (Parser → Option (Node Number) × Parser) :=
      match levels with
      | 0 => none
      | levels + 1 => some (jsonParseValue levels)
    if p.cp.head? = some 34 then
      match jsonParseString p with
      | (none, p) => (none, p)
      | (some octets, p) => (some (.string octets), p)
    else if p.cp.head?.all (fun c => isDigit c || c = 45) then jsonParseNumber strtod p
    else if p.cp.head? = some 123 then jsonParseObject value p
    else if p.cp.head? = some 91 then jsonParseArray value p
    else jsonParseToken subst p

def maxLevel : Nat := 1000

def jsonParserParse (text : List UInt8) : Option (Node Number) :=
  match jsonParseValue strtod subst maxLevel { cp := text, errMsg := none } with
  | (none, _) => none
  | (some n, p) =>
    if p.errMsg.isSome then none
    else if p.look.cp ≠ [] then none
    else some n

end

/-- `json_parse`, without substitutions. -/
def jsonParse {Number : Type} (strtod : List UInt8 → Nat × Number) (text : List UInt8) : Option (Node Number) :=
  jsonParserParse strtod [] text

def hexDigit (n : Nat) : UInt8 := if n < 10 then UInt8.ofNat (48 + n) else UInt8.ofNat (87 + n)

/-- One octet of `wrbuf_json_write`. -/
def writeChar (c : UInt8) : List UInt8 :=
  if 0 < c.toNat ∧ c.toNat < 32 then
    92 :: (if c = 8 then [98]
      else if c = 12 then [102]
      else if c = 10 then [110]
      else if c = 13 then [114]
      else if c = 9 then [116]
      else [117, hexDigit (c.toNat / 4096 % 16), hexDigit (c.toNat / 256 % 16), hexDigit (c.toNat / 16 % 16),
        hexDigit (c.toNat % 16)])
  else if c = 34 then [92, 34]
  else if c = 92 then [92, 92]
  else [c]

/-- `wrbuf_json_puts` between quotes. -/
def writeString (octets : List UInt8) : List UInt8 := 34 :: octets.flatMap writeChar ++ [34]

/-- `json_indent`: blanks at the beginning of the buffer and of a line. -/
def jsonIndent (result : List UInt8) (indent : Int) : List UInt8 :=
  if result = [] ∨ result.getLast? = some 10 then result ++ List.replicate indent.toNat 32 else result

section
variable {Number : Type} (printf : Number → List UInt8)

def newline (indent : Int) : List UInt8 := if 0 ≤ indent then [10] else []

def subIndent (indent : Int) : Int := if 0 ≤ indent then indent + 2 else -1

mutual

/-- `json_write_wrbuf_r`; a number is written by `printf`. -/
def Node.write (node : Node Number) (result : List UInt8) (indent : Int) : List UInt8 :=
  match node with
  | .object .nil => jsonIndent result indent ++ [123, 125]
  | .object (.cons key value rest) =>
    let result := jsonIndent result indent ++ [123] ++ newline indent
    let result := if 0 ≤ indent then jsonIndent result (subIndent indent) else result
    let result := (Members.cons key value rest).write result (subIndent indent) ++ newline indent
    let result := if 0 ≤ indent then jsonIndent result indent else result
    result ++ [125]
  | .array .nil => jsonIndent result indent ++ [91, 93]
  | .array (.cons value rest) =>
    let result := jsonIndent result indent ++ [91] ++ newline indent
    let result := (Elements.cons value rest).write result (subIndent indent) ++ newline indent
    let result := if 0 ≤ indent then jsonIndent result indent else result
    result ++ [93]
  | .string octets => result ++ writeString octets
  | .number value => result ++ printf value
  | .true => result ++ ascii "true"
  | .false => result ++ ascii "false"
  | .null => result ++ ascii "null"

def Members.write (members : Members Number) (result : List UInt8) (indent : Int) : List UInt8 :=
  match members with
  | .nil => result
  | .cons key value rest =>
    let result := if 0 ≤ indent then jsonIndent result indent else result
    let result := result ++ writeString key ++ [58] ++ (if 0 ≤ indent then [32] else [])
    let result := value.write result indent
    match rest with
    | .nil => result
    | .cons key value rest => (Members.cons key value rest).write (result ++ [44] ++ newline indent) indent

def Elements.write (elements : Elements Number) (result : List UInt8) (indent : Int) : List UInt8 :=
  match elements with
  | .nil => result
  | .cons value rest =>
    let result := value.write result indent
    match rest with
    | .nil => result
    | .cons value rest => (Elements.cons value rest).write (result ++ [44] ++ newline indent) indent

end

def jsonWriteWrbuf (node : Node Number) (result : List UInt8) : List UInt8 := node.write printf result (-1)

def jsonWriteWrbufPretty (node : Node Number) (result : List UInt8) : List UInt8 := node.write printf result 0

end

end Yaz.Json
