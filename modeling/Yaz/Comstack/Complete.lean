import Yaz.Ber.Octets

/-! The completeness functions of `comstack.c`.

A scan over `buf` from `i` on is a function of the octets from `i` on, which is what
every test of the source compares: `i < len - 19` says that more than 19 octets are left.
-/

set_option autoImplicit false

namespace Yaz.Comstack
open Yaz.Ber

def ascii (text : String) : List UInt8 := text.toList.map fun c => UInt8.ofNat c.toNat

theorem ascii_ofList (chars : List Char) : ascii (String.ofList chars) = chars.map fun c => UInt8.ofNat c.toNat := by
  rw [ascii, String.toList_ofList]

theorem not_mem_ascii {c : UInt8} {chars : List Char} (other : chars.all (fun d => UInt8.ofNat d.toNat != c) = true) :
    c ∉ ascii (String.ofList chars) := by
  rw [ascii_ofList, List.mem_map]
  rintro ⟨d, inside, is⟩
  exact bne_iff_ne.mp (List.all_eq_true.mp other d inside) is

/-- What holds of the members of a list is decided along the list, also where their type is finite. -/
instance (priority := 1500) decidableForMembers {α : Type} (p : α → Prop) [DecidablePred p] (l : List α) : Decidable (∀ x ∈ l, p x) :=
  List.decidableBAll p l

def isDigit (c : UInt8) : Bool := 48 ≤ c.toNat && c.toNat ≤ 57

def isUpper (c : UInt8) : Bool := 65 ≤ c.toNat && c.toNat ≤ 90

def isLower (c : UInt8) : Bool := 97 ≤ c.toNat && c.toNat ≤ 122

def toLower (c : UInt8) : UInt8 := if isUpper c then c + 32 else c

/-- `yaz_strncasecmp` with a text of length `n` finds no difference. -/
def hasPrefix (text mem : List UInt8) : Bool := (mem.take text.length).map toLower = text.map toLower

def ulongMax : Nat := 2 ^ 64 - 1

def digitValue (c : UInt8) : Option Nat :=
  if isDigit c then some (c.toNat - 48)
  else if isUpper c then some (c.toNat - 55)
  else if isLower c then some (c.toNat - 87)
  else none

/-- The loop of `yaz_atoul` after `i` digits: their number and the value, `none` for an overflow. -/
def yazAtoul (base : Nat) : List UInt8 → Nat → Nat → Option (Nat × Nat)
  | [], i, val => some (i, val)
  | c :: rest, i, val =>
    match digitValue c with
    | none => some (i, val)
    | some digit =>
      if base ≤ digit then some (i, val)
      else if (ulongMax - digit) / base < val then none
      else yazAtoul base rest (i + 1) (val * base + digit)

/-- `yaz_atoi`; `none` for the return value -1. -/
def yazAtoi (base : Nat) (mem : List UInt8) : Option (Nat × Nat) :=
  match yazAtoul base mem 0 0 with
  | none => none
  | some (ret, val) => if intMax < val then none else some (ret, val)

/-- `skip_crlf`: the length of the line end at the front, 0 if there is none. -/
def skipCrlf (mem : List UInt8) : Nat :=
  if mem.take 2 = [13, 10] then 2 else if mem.head? = some 10 then 1 else 0

/-- What the scan of a message says: 0, -1, or its length together with the bodies of the chunks if
it was read as chunked. -/
inductive Frame where
  | incomplete
  | invalid
  | complete (len : Nat) (chunks : Option (List (List UInt8)))
  deriving DecidableEq

def Frame.ret : Frame → Int
  | .incomplete => 0
  | .invalid => -1
  | .complete len _ => len

def chunkLine : List UInt8 → Option Nat
  | [] => none
  | c :: rest =>
    if rest = [] then none
    else if skipCrlf (c :: rest) ≠ 0 then some (skipCrlf (c :: rest))
    else (chunkLine rest).map (· + 1)

def trailers (mem : List UInt8) : Option Nat :=
  match mem with
  | [] => none
  | c :: rest =>
    if skipCrlf (c :: rest) ≠ 0 then
      if skipCrlf ((c :: rest).drop (skipCrlf (c :: rest))) ≠ 0 then
        some (skipCrlf (c :: rest) + skipCrlf ((c :: rest).drop (skipCrlf (c :: rest))))
      else (trailers ((c :: rest).drop (skipCrlf (c :: rest)))).map (· + skipCrlf (c :: rest))
    else (trailers rest).map (· + 1)
termination_by mem.length
decreasing_by
  all_goals simp only [List.length_drop, List.length_cons]
  all_goals omega

/-- `cs_read_chunks` at `i`, with the bodies before it. -/
def csReadChunks (mem : List UInt8) (i : Nat) (bodies : List (List UInt8)) : Frame :=
  if mem = [] then .incomplete
  else match yazAtoi 16 mem with
    | none => .invalid
    | some (ret, chunkLen) =>
      if ret = 0 then .invalid
      else if chunkLen = 0 then
        match trailers (mem.drop ret) with
        | none => .incomplete
        | some n => .complete (i + ret + n) (some bodies)
      else match chunkLine (mem.drop ret) with
        | none => .incomplete
        | some n =>
          if intMax - (i + ret + n : Int) < chunkLen then .invalid
          else
            let body := mem.drop (ret + n)
            let rest := body.drop chunkLen
            if rest.length ≤ 2 then .incomplete
            else if skipCrlf rest = 0 then .incomplete
            else csReadChunks (rest.drop (skipCrlf rest)) (i + ret + n + chunkLen + skipCrlf rest)
              (bodies ++ [body.take chunkLen])
termination_by mem.length
decreasing_by
  simp +zetaDelta only [List.length_drop] at *
  omega

/-- The value of a `Transfer-Encoding` after `k` octets of it: its length, and whether it starts with
`chunked`. -/
def encodingValue (token : List UInt8) : List UInt8 → Nat → Bool → Option (Nat × Bool)
  | [], _, _ => none
  | c :: rest, k, chunked =>
    if (c :: rest).length ≤ 2 then none
    else
      let chunked := chunked || (k = 7 && hasPrefix (ascii "chunked") token)
      if skipCrlf (c :: rest) ≠ 0 then some (k, chunked) else encodingValue token rest (k + 1) chunked

def spaces (mem : List UInt8) : Nat := (mem.takeWhile (· = 32)).length

/-- What follows the empty line that ends at `i`. -/
def frameContent (mem : List UInt8) (i : Nat) (headOnly chunked : Bool) (contentLen : Int) : Frame :=
  if headOnly then .complete i none
  else if chunked then csReadChunks mem i []
  else if contentLen = -1 then .incomplete
  else if intMax - (i : Int) < contentLen then .invalid
  else if contentLen ≤ mem.length then .complete (i + contentLen.toNat) none
  else .incomplete

/-- `for (i = 2; i <= len - 2; )` of `cs_complete_http`. -/
def httpLoop (headOnly : Bool) (mem : List UInt8) (i : Nat) (chunked : Bool) (contentLen : Int) : Frame :=
  if mem.length < 2 then .incomplete
  else if 8192 < i then .invalid
  else
    let n := skipCrlf mem
    if n = 0 then httpLoop headOnly (mem.drop 1) (i + 1) chunked contentLen
    else
      let line := mem.drop n
      let m := skipCrlf line
      if m ≠ 0 then frameContent (line.drop m) (i + n + m) headOnly chunked contentLen
      else if 19 < line.length ∧ hasPrefix (ascii "Transfer-Encoding:") line then
        let value := line.drop (18 + spaces (line.drop 18))
        match encodingValue value value 0 chunked with
        | none => .incomplete
        | some (k, chunked) =>
          httpLoop headOnly (value.drop k) (i + n + 18 + spaces (line.drop 18) + k) chunked contentLen
      else if 16 < line.length ∧ hasPrefix (ascii "Content-Length:") line then
        let value := line.drop (15 + spaces (line.drop 15))
        if value = [] then .incomplete
        else match yazAtoi 10 value with
          | none => .invalid
          | some (noRead, len) =>
            if noRead = 0 then .invalid
            else httpLoop headOnly (value.drop noRead) (i + n + 15 + spaces (line.drop 15) + noRead) chunked len
      else httpLoop headOnly (line.drop 1) (i + n + 1) chunked contentLen
termination_by mem.length
decreasing_by
  all_goals simp only [List.length_drop] at *
  all_goals omega

/-- The octets before the first CR or LF; `none` if there is no such octet yet. -/
def firstLine : List UInt8 → Option (List UInt8)
  | [] => none
  | c :: rest => if c = 10 ∨ c = 13 then some [] else (firstLine rest).map (c :: ·)

/-- What the status line of a response says of its content: `head_only` and `content_len`. The texts
compared hold no CR or LF, so the octets of the line decide. -/
def statusLine (headOnly : Bool) (line : List UInt8) : Bool × Int :=
  if headOnly = false ∧ line.take 5 = ascii "HTTP/" ∧ 32 ∈ line.drop 5 then
    let code := line.drop (5 + ((line.drop 5).takeWhile (· ≠ 32)).length + 1)
    if code.head? = some 49 ∨ code.take 3 = ascii "204" ∨ code.take 3 = ascii "304" then (true, 0) else (false, -1)
  else (headOnly, 0)

def csCompleteHttp (buf : List UInt8) (headOnly : Bool) : Frame :=
  match firstLine buf with
  | none => .incomplete
  | some line =>
    httpLoop (statusLine headOnly line).1 (buf.drop 2) 2 false (statusLine headOnly line).2

/-- The test of `cs_complete_auto_x` for HTTP. -/
def looksLikeHttp (buf : List UInt8) : Bool :=
  5 < buf.length && (buf.take 4).all fun c => 0x20 ≤ c.toNat && c.toNat < 0x7f

def csCompleteAutoX (buf : List UInt8) (headOnly : Bool) : Int :=
  if looksLikeHttp buf then (csCompleteHttp buf headOnly).ret else completeBERn buf 0

def csCompleteAuto (buf : List UInt8) : Int := csCompleteAutoX buf false

def csCompleteAutoHead (buf : List UInt8) : Int := csCompleteAutoX buf true

end Yaz.Comstack
