import Yaz.Iconv.Decoders

/-! The encoders for UTF-8, ISO 8859-1 and DanMARC: `utf8.c`, `iconv_encode_iso_8859_1.c` and
`iconv_encode_danmarc.c`.
-/

set_option autoImplicit false

namespace Yaz.Iconv

def writeUTF8 (_ : Unit) (x outbytesleft : Nat) : Written Unit :=
  match yazWriteUTF8Char x outbytesleft with
  | some out => { out := out, data := (), errno := some .ok }
  | none => { out := [], data := (), failed := true, errno := some .e2big }

def utf8Encoder : Encoder Unit := { initHandle := id, writeHandle := writeUTF8, flushHandle := none }

/-- `write_iso_8859_1` when no letter waits for its mark; `out` was written already. -/
def writeLatin1 (out : List UInt8) (x outbytesleft : Nat) : Written Nat :=
  if 32 < x ∧ x < 127 then { out := out, data := x }
  else if 255 < x ∨ x < 1 then { out := out, data := 0, failed := true, errno := some .eilseq }
  else if outbytesleft < 1 then { out := out, data := 0, failed := true, errno := some .e2big }
  else { out := out ++ [UInt8.ofNat x], data := 0 }

/-- `write_iso_8859_1`; the state is `compose_char`. -/
def writeIso88591 (composeChar x outbytesleft : Nat) : Written Nat :=
  if composeChar = 0 then writeLatin1 [] x outbytesleft
  else if outbytesleft < 1 then { out := [], data := composeChar, failed := true, errno := some .e2big }
  else
    match yazIso88591LookupX12 composeChar x with
    | some y => writeLatin1 [] y outbytesleft
    | none => writeLatin1 [UInt8.ofNat composeChar] x (outbytesleft - 1)

def flushIso88591 (composeChar outbytesleft : Nat) : Written Nat :=
  if composeChar = 0 then { out := [], data := 0 }
  else if outbytesleft < 1 then { out := [], data := composeChar, failed := true, errno := some .e2big }
  else { out := [UInt8.ofNat composeChar], data := 0 }

def iso88591Encoder : Encoder Nat :=
  { initHandle := fun _ => 0, writeHandle := writeIso88591, flushHandle := some flushIso88591 }

/-- `struct encoder_data`: the combining characters with the last one first. -/
structure DanmarcEncoder where
  comp : List Nat
  baseChar : Nat
  dia : Bool
  deriving DecidableEq

/-- A digit of `%X`. -/
def upperHexDigit (n : Nat) : UInt8 := if n < 10 then UInt8.ofNat (48 + n) else UInt8.ofNat (55 + n)

/-- `write1`; the error is for no room or for a character that cannot be written. -/
def write1 (x outbytesleft : Nat) : Except Errno (List UInt8) :=
  if x = 64 ∨ x = 42 then if outbytesleft < 2 then .error .e2big else .ok [64, UInt8.ofNat x]
  else if x ≤ 0xff then if outbytesleft < 1 then .error .e2big else .ok [UInt8.ofNat x]
  else if x ≤ 0xffff then
    if outbytesleft < 6 then .error .e2big
    else if x = 0xa733 then .ok [64, 0xe5]
    else if x = 0xa732 then .ok [64, 0xc5]
    else .ok [64, upperHexDigit (x / 4096), upperHexDigit (x / 256 % 16), upperHexDigit (x / 16 % 16), upperHexDigit (x % 16)]
  else .error .eilseq

def DanmarcEncoder.composed (w : DanmarcEncoder) : DanmarcEncoder :=
  match w.comp with
  | [mark] =>
    match if w.baseChar = 0 then none else yazIso88591LookupX12 w.baseChar mark with
    | some y => { w with baseChar := y, comp := [] }
    | none => w
  | _ => w

/-- The loop of `flush_danmarc` over the combining characters: what is written and those that are left. -/
def flushComp (dia : Bool) : List Nat → Nat → List UInt8 × List Nat × Option Errno
  | [], _ => ([], [], none)
  | x :: comp, outbytesleft =>
    match write1 (if dia then yazDanmarcSwapToDanmarc x else x) outbytesleft with
    | .error errno => ([], x :: comp, some errno)
    | .ok out =>
      let (later, comp, errno) := flushComp dia comp (outbytesleft - out.length)
      (out ++ later, comp, errno)

def flushDanmarc (w : DanmarcEncoder) (outbytesleft : Nat) : Written DanmarcEncoder :=
  let w := w.composed
  match flushComp w.dia w.comp outbytesleft with
  | (out, comp, some errno) => { out := out, data := { w with comp := comp }, failed := true, errno := some errno }
  | (out, comp, none) =>
    if w.baseChar = 0 then { out := out, data := { w with comp := comp } }
    else
      match write1 w.baseChar (outbytesleft - out.length) with
      | .error errno => { out := out, data := { w with comp := comp }, failed := true, errno := some errno }
      | .ok base => { out := out ++ base, data := { w with comp := comp, baseChar := 0 } }

/-- `write_danmarc`: behind the fourth combining character the letter is written, and that one is the next letter. -/
def writeDanmarc (w : DanmarcEncoder) (x outbytesleft : Nat) : Written DanmarcEncoder :=
  let pushed := if yazDanmarcIsCombining x then { w with comp := x :: w.comp } else w
  if yazDanmarcIsCombining x ∧ pushed.comp.length < 4 then { out := [], data := pushed }
  else
    let flushed := flushDanmarc pushed outbytesleft
    if flushed.failed then flushed else { flushed with data := { flushed.data with baseChar := x } }

def danmarcEncoder : Encoder DanmarcEncoder :=
  { initHandle := fun w => { w with comp := [], baseChar := 0 }, writeHandle := writeDanmarc, flushHandle := some flushDanmarc }

end Yaz.Iconv
