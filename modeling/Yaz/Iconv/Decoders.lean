import Yaz.Iconv.Convert
import Yaz.Iconv.Greek
import Yaz.Json.Value

/-! The decoders that are built in: `iconv_decode_marc8.c`, `iconv_decode_iso5426.c`,
`iconv_decode_danmarc.c`, `utf8.c`, `ucs4.c`, `iso5428.c`, `advancegreek.c` and the readers
beside the encoders for ISO 8859-1 and `wchar_t`.

The tables that the build makes of `codetables.xml` are parameters.
-/

set_option autoImplicit false

namespace Yaz.Iconv
open Yaz.Comstack Yaz.Json

/-- What a function of type `yaz_conv_func_t` gives. -/
structure Conv where
  x : Nat
  noRead : Nat
  comb : Bool
  deriving DecidableEq

/-- A generated function such as `yaz_marc8_42_conv`, with the mask and the offset that it is called with. -/
structure ConvTable where
  conv : List UInt8 → Conv
  noRead_pos : ∀ inp, 0 < (conv inp).noRead
  noRead_le : ∀ inp, inp ≠ [] → (conv inp).noRead ≤ inp.length

/-- `latin1_comb`: a letter, a mark above or below it, and the letter with the mark. -/
def latin1Comb : List (Nat × Nat × Nat) :=
  [(0x41, 0x300, 0xc0), (0x41, 0x301, 0xc1), (0x41, 0x302, 0xc2), (0x41, 0x303, 0xc3), (0x41, 0x308, 0xc4), (0x41, 0x30a, 0xc5),
   (0x43, 0x327, 0xc7),
   (0x45, 0x300, 0xc8), (0x45, 0x301, 0xc9), (0x45, 0x302, 0xca), (0x45, 0x308, 0xcb),
   (0x49, 0x300, 0xcc), (0x49, 0x301, 0xcd), (0x49, 0x302, 0xce), (0x49, 0x308, 0xcf),
   (0x4e, 0x303, 0xd1),
   (0x4f, 0x300, 0xd2), (0x4f, 0x301, 0xd3), (0x4f, 0x302, 0xd4), (0x4f, 0x303, 0xd5), (0x4f, 0x308, 0xd6),
   (0x55, 0x300, 0xd9), (0x55, 0x301, 0xda), (0x55, 0x302, 0xdb), (0x55, 0x308, 0xdc),
   (0x59, 0x301, 0xdd),
   (0x61, 0x300, 0xe0), (0x61, 0x301, 0xe1), (0x61, 0x302, 0xe2), (0x61, 0x303, 0xe3), (0x61, 0x308, 0xe4), (0x61, 0x30a, 0xe5),
   (0x63, 0x327, 0xe7),
   (0x65, 0x300, 0xe8), (0x65, 0x301, 0xe9), (0x65, 0x302, 0xea), (0x65, 0x308, 0xeb),
   (0x69, 0x300, 0xec), (0x69, 0x301, 0xed), (0x69, 0x302, 0xee), (0x69, 0x308, 0xef),
   (0x6e, 0x303, 0xf1),
   (0x6f, 0x300, 0xf2), (0x6f, 0x301, 0xf3), (0x6f, 0x302, 0xf4), (0x6f, 0x303, 0xf5), (0x6f, 0x308, 0xf6),
   (0x75, 0x300, 0xf9), (0x75, 0x301, 0xfa), (0x75, 0x302, 0xfb), (0x75, 0x308, 0xfc),
   (0x79, 0x301, 0xfd), (0x79, 0x308, 0xff)]

def yazIso88591LookupY (v : Nat) : Option (Nat × Nat) :=
  if 0xc0 ≤ v ∧ v ≤ 0xff then (latin1Comb.find? fun row => v = row.2.2).map fun row => (row.1, row.2.1) else none

def yazIso88591LookupX12 (x1 x2 : Nat) : Option Nat :=
  (latin1Comb.find? fun row => x2 = row.2.1 ∧ x1 = row.1).map fun row => row.2.2

/-! ### MARC-8 and ISO 5426 -/

/-- `struct decoder_data`. The first `comb_size` entries of `comb_x` and `comb_no_read` are in `comb`. -/
structure CombData where
  g0Mode : UInt8
  g1Mode : UInt8
  combOffset : Nat
  comb : List (Nat × Nat)
  controlMode : Bool
  deriving DecidableEq

def skipOctet (p : UInt8 → Bool) : List UInt8 → List UInt8
  | [] => []
  | c :: rest => if p c then rest else c :: rest

def escapeSequence (inp : List UInt8) : Option (Bool × UInt8 × List UInt8) :=
  let set := skipOctet (· = 36) inp
  match skipOctet (· = 33) (skipOctet (fun c => c = 40 || c = 44 || c = 41 || c = 45) set) with
  | [] => none
  | final :: rest => some (set.head?.any fun c => c = 41 || c = 45, final, rest)

theorem skipOctet_length (p : UInt8 → Bool) (inp : List UInt8) : (skipOctet p inp).length ≤ inp.length := by
  cases inp with
  | nil => rfl
  | cons =>
    rw [skipOctet]
    split <;> simp

theorem escapeSequence_length {inp rest : List UInt8} {g1 : Bool} {final : UInt8} (read : escapeSequence inp = some (g1, final, rest)) :
    rest.length < inp.length := by
  rw [escapeSequence] at read
  have first := skipOctet_length (· = 36) inp
  have second := skipOctet_length (fun c => c = 40 || c = 44 || c = 41 || c = 45) (skipOctet (· = 36) inp)
  have third := skipOctet_length (· = 33) (skipOctet (fun c => c = 40 || c = 44 || c = 41 || c = 45) (skipOctet (· = 36) inp))
  split at read
  · simp at read
  next final' rest' left =>
    simp only [Option.some.injEq, Prod.mk.injEq] at read
    rw [left] at third
    rw [← read.2.2]
    simp only [List.length_cons] at third
    omega

def CombData.setMode (data : CombData) (g1 : Bool) (final : UInt8) : CombData :=
  if g1 then { data with g1Mode := final } else { data with g0Mode := final }

/-- The escape sequences at the front, and what is behind them; `none` if the last of them is not complete. -/
def skipEscapes (data : CombData) (inp : List UInt8) : CombData × Option (List UInt8) :=
  match inp with
  | [] => (data, some [])
  | c :: inp =>
    if c = 27 then
      match _read : escapeSequence inp with
      | none => (data, none)
      | some (g1, final, rest) => skipEscapes (data.setMode g1 final) rest
    else (data, some (c :: inp))
termination_by inp.length
decreasing_by
  have less := escapeSequence_length _read
  simp only [List.length_cons]
  omega

abbrev Tables := UInt8 → Option ConvTable

section
variable (tables : Tables)

/-- The character behind the escape sequences, which took `skipped` octets, and if it is a combining one. -/
def readChar (data : CombData) (skipped : Nat) (c : UInt8) (rest : List UInt8) : Read CombData × Bool :=
  if c = 32 then ({ x := 32, noRead := skipped + 1, data := data }, false)
  else if c < 32 ∧ data.controlMode then ({ x := c.toNat, noRead := skipped + 1, data := data }, false)
  else
    match tables (if c < 128 then data.g0Mode else data.g1Mode) with
    | none => ({ x := 0, noRead := 0, data := data, errno := some .eilseq }, false)
    | some table =>
      let conv := table.conv (c :: rest)
      ({ x := conv.x, noRead := skipped + conv.noRead, data := data }, conv.comb)

/-- `yaz_read_marc8_comb` and `yaz_read_iso5426_comb`. -/
def yazReadMarc8Comb (data : CombData) (inp : List UInt8) : Read CombData × Bool :=
  match skipEscapes data inp with
  | (data, none) => ({ x := 0, noRead := 0, data := data, errno := some .einval }, false)
  | (data, some []) => ({ x := 0, noRead := inp.length, data := data }, false)
  | (data, some (c :: rest)) => readChar tables data (inp.length - (rest.length + 1)) c rest

/-- The loop of `read_marc8`, for as many combining characters as there is room for. -/
def combLoop : Nat → CombData → List UInt8 → Read CombData
  -- there is no room: the last of them is stored, and it is what `x` holds
  | 0, data, _ =>
    let last := data.comb.getLastD (0, 0)
    { x := last.1, noRead := last.2, data := data }
  | rounds + 1, data, inp =>
    if inp = [] ∧ data.comb ≠ [] then { x := 0, noRead := 0, data := data, errno := some .einval }
    else
      match yazReadMarc8Comb tables data inp with
      | (read, comb) =>
        if ¬ comb ∨ read.x = 0 then read
        else combLoop rounds { read.data with comb := data.comb ++ [(read.x, read.noRead)] } (inp.drop read.noRead)

/-- `read_marc8` and `read_iso5426`. -/
def readMarc8 (data : CombData) (inp : List UInt8) : Read CombData :=
  match data.comb.drop data.combOffset with
  | (x, noRead) :: _ => { x := x, noRead := noRead, data := { data with combOffset := data.combOffset + 1 } }
  | [] => combLoop tables 8 { data with combOffset := 0, comb := [] } inp

/-- `read_marc8s`: a letter with one mark as one character, where ISO 8859-1 has it. -/
def readMarc8s (data : CombData) (inp : List UInt8) : Read CombData :=
  let read := readMarc8 tables data inp
  match read.data.comb with
  | [(mark, noRead)] =>
    match if read.x = 0 then none else yazIso88591LookupX12 read.x mark with
    | some y => { read with x := y, noRead := read.noRead + noRead, data := { read.data with comb := [] } }
    | none => read
  | _ => read

end

/-- `init_marc8` and `init_marc8c`. -/
def initMarc8 (controlMode : Bool) (_ : CombData) (_ : List UInt8) : Init CombData :=
  .ready { g0Mode := 66, g1Mode := 69, combOffset := 0, comb := [], controlMode := controlMode } 0

/-! ### DanMARC -/

def swapSeq : List (Nat × Nat) :=
  [(0x5e, 0x302), (0x5f, 0x332), (0x60, 0x300), (0xa8, 0x308), (0xaf, 0x304), (0xb4, 0x301), (0xb8, 0x327), (0x2c7, 0x30c),
   (0x2d8, 0x306), (0x2da, 0x30a), (0x2db, 0x328), (0x2dd, 0x30b)]

def yazDanmarcSwapToDanmarc (x : Nat) : Nat := ((swapSeq.find? fun row => row.2 = x).map (·.1)).getD x

def yazDanmarcSwapToUtf8 (x : Nat) : Nat := ((swapSeq.find? fun row => row.1 = x).map (·.2)).getD x

def yazDanmarcIsCombining (x : Nat) : Bool :=
  [(0x300, 0x36f), (0x1ab0, 0x1aff), (0x1dc0, 0x1dff), (0x20d0, 0x20ff), (0xfe20, 0xfe2f)].any fun range =>
    range.1 ≤ x && x ≤ range.2

def uSeq : List (Nat × Nat) :=
  [(0xa7, 0x2b9), (0xae, 0x2bc), (0xb0, 0x2bb), (0xb7, 0x2ba), (0xd8, 0x2014), (0xd9, 0x2191), (0xda, 0x2193), (0xe0, 0x309),
   (0xeb, 0xfe20), (0xec, 0xfe21), (0xf7, 0x326), (0xf8, 0x31c), (0xf9, 0x32e), (0xfa, 0xfe22), (0xfc, 0x308), (0xfd, 0xf0fd),
   (0xfe, 0xf0fe), (0xff, 0xf0ff)]

def hexValue : List UInt8 → Nat → Nat
  | [], value => value
  | c :: rest, value =>
    match digitValue c with
    | some digit => if digit < 16 then hexValue rest (value * 16 + digit) else value
    | none => value

def isHexDigit (c : UInt8) : Bool := (digitValue c).any (· < 16)

/-- `sscanf` with `%2lx` or `%4lx`: what is stored, if anything is. A sign and `0x` may stand in front. -/
def scanHex (width : Nat) (mem : List UInt8) : Option Nat :=
  let mem := ((mem.takeWhile (· ≠ 0)).dropWhile isSpace).take width
  let digits := skipOctet (fun c => c = 43 || c = 45) mem
  let hexed := digits.head? = some 48 ∧ ((digits.drop 1).head? = some 120 ∨ (digits.drop 1).head? = some 88)
  let digits := if hexed then digits.drop 2 else digits
  if digits.head?.any isHexDigit then
    some (if mem.head? = some 45 then (2 ^ 64 - hexValue digits 0) % 2 ^ 64 else hexValue digits 0)
  else none

structure Octets where
  x : Nat
  noRead : Nat
  errno : Option Errno := none
  deriving DecidableEq

def incomplete : Octets := { x := 0, noRead := 0, errno := some .einval }

/-- What is in a variable that is not set, by the octets that are read then. -/
abbrev Junk := List UInt8 → Nat

/-- `read_useq`, whose variable is not set when there is no digit. -/
def readUseq (junk : Junk) (inp : List UInt8) : Octets :=
  if inp.length < 4 then incomplete
  else
    let x := (scanHex 2 (inp.drop 2)).getD (junk (inp.take 4))
    { x := ((uSeq.find? fun row => x = row.1).map (·.2)).getD x, noRead := 4 }

def readDanmarc (junk : Junk) (inp : List UInt8) : Octets :=
  match inp with
  | [] => incomplete
  | [c] => if c = 64 then incomplete else { x := c.toNat, noRead := 1 }
  | c :: d :: _ =>
    if c ≠ 64 then { x := c.toNat, noRead := 1 }
    else if d = 64 ∨ d = 42 ∨ d = 0xa4 then { x := d.toNat, noRead := 2 }
    else if d = 0xe5 then { x := 0xa733, noRead := 2 }
    else if d = 0xc5 then { x := 0xa732, noRead := 2 }
    else if d = 85 then readUseq junk inp
    else if inp.length < 5 then incomplete
    else { x := (scanHex 4 (inp.drop 1)).getD 64, noRead := 5 }

/-- `comp` and `no_read`, with the last one first. -/
abbrev DanmarcData := List (Nat × Nat)

def readSwapped (junk : Junk) (inp : List UInt8) : Octets :=
  let read := readDanmarc junk inp
  { read with x := if read.x = 0 then 0 else yazDanmarcSwapToUtf8 read.x }

/-- The loop of `read_danmarc_comb`, for as many combining characters as there is room for. -/
def danmarcLoop (junk : Junk) : Nat → DanmarcData → List UInt8 → Read DanmarcData
  | 0, data, inp =>
    let read := readSwapped junk inp
    { x := read.x, noRead := read.noRead, data := data, errno := read.errno }
  | rounds + 1, data, inp =>
    let read := readSwapped junk inp
    if yazDanmarcIsCombining read.x then danmarcLoop junk rounds ((read.x, read.noRead) :: data) (inp.drop read.noRead)
    else { x := read.x, noRead := read.noRead, data := data, errno := read.errno }

def readDanmarcComb (junk : Junk) (data : DanmarcData) (inp : List UInt8) : Read DanmarcData :=
  match data with
  | (x, noRead) :: data => { x := x, noRead := noRead, data := data }
  | [] => danmarcLoop junk 4 [] inp

def initDanmarc (_ : DanmarcData) (_ : List UInt8) : Init DanmarcData := .ready [] 0

/-- `init_utf8`. An empty buffer has no first octet. -/
def initUtf8 (_ : Unit) (inp : List UInt8) : Init Unit :=
  if inp.head? ≠ some 0xef then .ready () 0
  else if inp.length < 3 then .failed .einval
  else if (inp.drop 1).head? ≠ some 0xbb ∧ (inp.drop 2).head? = some 0xbf then .ready () 3
  else .ready () 0

/-- A first octet with `n` more: the bits `first` of it and the least code that needs them all. -/
def utf8Sequence (first n least : Nat) (rest : List UInt8) : Octets :=
  if (rest.take n).all fun c => c.toNat / 64 = 2 then
    let x := (rest.take n).foldl (fun x c => x * 64 + c.toNat % 64) first
    if least ≤ x then { x := x, noRead := n + 1, errno := some .ok } else { x := x, noRead := 0, errno := some .eilseq }
  else { x := 0, noRead := 0, errno := some .eilseq }

def yazReadUTF8Char (inp : List UInt8) : Octets :=
  match inp with
  | [] => { x := 0, noRead := 0, errno := some .einval }
  | c :: rest =>
    if c ≤ 0x7f then { x := c.toNat, noRead := 1, errno := some .ok }
    else if c ≤ 0xbf ∨ 0xfe ≤ c then { x := 0, noRead := 0, errno := some .eilseq }
    else if c ≤ 0xdf ∧ 2 ≤ inp.length then utf8Sequence (c.toNat % 32) 1 0x80 rest
    else if c ≤ 0xef ∧ 3 ≤ inp.length then utf8Sequence (c.toNat % 16) 2 0x800 rest
    else if c ≤ 0xf7 ∧ 4 ≤ inp.length then utf8Sequence (c.toNat % 8) 3 0x10000 rest
    else if c ≤ 0xfb ∧ 5 ≤ inp.length then utf8Sequence (c.toNat % 4) 4 0x200000 rest
    else if c ≤ 0xfd ∧ 6 ≤ inp.length then utf8Sequence (c.toNat % 2) 5 0x4000000 rest
    else { x := 0, noRead := 0, errno := some .einval }

/-- An `int` as `unsigned long`. -/
def signExtend (n : Nat) : Nat := if n < 2 ^ 31 then n else n + (2 ^ 64 - 2 ^ 32)

def readUCS4 (inp : List UInt8) : Octets :=
  match inp with
  | a :: b :: c :: d :: _ => { x := signExtend (((a.toNat * 256 + b.toNat) * 256 + c.toNat) * 256 + d.toNat), noRead := 4 }
  | _ => incomplete

/-- `read_UCS4LE`, and `read_wchar_t` where a `wchar_t` is an `int` with its low octet first. -/
def readUCS4LE (inp : List UInt8) : Octets :=
  match inp with
  | a :: b :: c :: d :: _ => { x := signExtend (((d.toNat * 256 + c.toNat) * 256 + b.toNat) * 256 + a.toNat), noRead := 4 }
  | _ => incomplete

def readISO88591 (inp : List UInt8) : Octets := { x := (inp.headD 0).toNat, noRead := 1 }

def readGreek (codec : Greek.GreekCodec) (inp : List UInt8) : Octets :=
  match codec.read inp with
  | some r => { x := r.1, noRead := r.2 }
  | none => incomplete

def readIso54281984 : List UInt8 → Octets := readGreek Greek.iso5428

def readAdvancegreek : List UInt8 → Octets := readGreek Greek.advanceGreek

def statelessDecoder (read : List UInt8 → Octets) : Decoder Unit :=
  { initHandle := fun _ _ => .ready () 0
    readHandle := fun _ inp => let octets := read inp; { x := octets.x, noRead := octets.noRead, data := (), errno := octets.errno } }

/-- The names that `prepare_decoders` knows. -/
inductive Fromcode where
  | marc8
  | marc8s
  | marc8c
  | iso5426
  | utf8
  | ucs4
  | ucs4le
  | iso88591
  | iso5428
  | advancegreek
  | wchar
  | danmarc
  deriving DecidableEq

structure Marc8Conv where
  conv42 : ConvTable
  conv45 : ConvTable
  conv67 : ConvTable
  conv62 : ConvTable
  conv70 : ConvTable
  conv32 : ConvTable
  conv4E : ConvTable
  conv51 : ConvTable
  conv33 : ConvTable
  conv34 : ConvTable
  conv53 : ConvTable
  conv31 : ConvTable

/-- The switch of `yaz_read_marc8_comb`. -/
def Marc8Conv.tables (generated : Marc8Conv) : Tables := fun mode =>
  match mode with
  | 66 | 115 => some generated.conv42
  | 69 => some generated.conv45
  | 103 => some generated.conv67
  | 98 => some generated.conv62
  | 112 => some generated.conv70
  | 50 => some generated.conv32
  | 78 => some generated.conv4E
  | 81 => some generated.conv51
  | 51 => some generated.conv33
  | 52 => some generated.conv34
  | 83 => some generated.conv53
  | 49 => some generated.conv31
  | _ => none

structure Iso5426Conv where
  conv42 : ConvTable
  conv45 : ConvTable

/-- The switch of `yaz_read_iso5426_comb`. -/
def Iso5426Conv.tables (generated : Iso5426Conv) : Tables := fun mode =>
  match mode with
  | 66 | 115 => some generated.conv42
  | 69 => some generated.conv45
  | _ => none

structure Generated where
  marc8 : Marc8Conv
  iso5426 : Iso5426Conv

def Fromcode.Data : Fromcode → Type
  | .marc8 | .marc8s | .marc8c | .iso5426 => CombData
  | .danmarc => DanmarcData
  | _ => Unit

/-- The decoder that `prepare_decoders` finds. -/
def Fromcode.decoder (generated : Generated) (junk : Junk) : (code : Fromcode) → Decoder code.Data
  | .marc8 => { initHandle := initMarc8 false, readHandle := readMarc8 generated.marc8.tables }
  | .marc8s => { initHandle := initMarc8 false, readHandle := readMarc8s generated.marc8.tables }
  | .marc8c => { initHandle := initMarc8 true, readHandle := readMarc8 generated.marc8.tables }
  | .iso5426 => { initHandle := initMarc8 false, readHandle := readMarc8 generated.iso5426.tables }
  | .utf8 => { statelessDecoder yazReadUTF8Char with initHandle := initUtf8 }
  | .ucs4 => statelessDecoder readUCS4
  | .ucs4le => statelessDecoder readUCS4LE
  | .iso88591 => statelessDecoder readISO88591
  | .iso5428 => statelessDecoder readIso54281984
  | .advancegreek => statelessDecoder readAdvancegreek
  | .wchar => statelessDecoder readUCS4LE
  | .danmarc => { initHandle := initDanmarc, readHandle := readDanmarcComb junk }

end Yaz.Iconv
