import Yaz.Odr.Decode

/-! The ODR combinators in the direction `ODR_ENCODE`. -/

set_option autoImplicit false

namespace Yaz.Odr
open Yaz.Foundation Yaz.Ber

/-- `ber_enctag`; its array of groups has `sizeof(int)` entries. -/
def berEnctag (zclass tag : Int) (constructed : Bool) : Codec Bool :=
  if 2 ^ 28 ≤ tag then Run.stop .undefined else odrPutAll (enctagOctets zclass tag constructed)

/-- `ber_tag`: -1, 0 or 1. `present` is `*pp != 0`. -/
def berTagEncode (present : Bool) (zclass tag : Int) (constructed opt : Bool) (name : Option String) :
    Codec Int := do
  Run.modify tagReset
  if present then do
    if ← berEnctag zclass tag constructed then pure 1 else pure (-1)
  else do
    requireUnless opt 24 name
    pure 0

/-- The definite long form of `ber_enclen`: a place for the number of length octets, padding when
`exact`, the length octets, and then their number in its place. -/
def enclenLong (octets : List UInt8) (lenlen : Nat) (exact : Bool) : Codec Int := do
  let o ← Run.get
  let lenpos := o.pos
  let padding := if exact then List.replicate (lenlen - 1 - octets.length) (0 : UInt8) else []
  if ← odrPutAll (0 :: (padding ++ octets)) then do
    let o ← Run.get
    let count := o.pos - lenpos - 1
    let _ ← odrSeek lenpos
    if ← odrPutc (UInt8.ofNat (count % 128 + 128)) then do
      let _ ← odrSeekEnd
      let o ← Run.get
      pure ((o.pos : Int) - lenpos)
    else pure 0
  else pure 0

/-- `ber_enclen`: the number of octets, 0 for the indefinite form, -1 if the length does not fit.
A failing `odr_putc` also gives 0. -/
def berEnclen (len : Nat) (lenlen : Nat) (exact : Bool) : Codec Int :=
  if len ≤ 127 ∧ (lenlen = 1 ∨ exact = false) then do
    if ← odrPutc (UInt8.ofNat len) then pure 1 else pure 0
  else if lenlen = 1 then do
    let _ ← odrPutc 0x80
    pure 0
  else
    let octets := base256 4 len []
    if lenlen ≤ octets.length then pure (-1) else enclenLong octets lenlen exact

/-- `ber_encinteger`, as `ber_integer` uses its result. -/
def berIntegerEncode (val : BitVec 64) : Codec Bool := do
  let octets := dropSign (integerOctets val)
  if (← berEnclen octets.length 1 true) ≠ 1 then pure false
  else odrWrite octets

def berNullEncode : Codec Bool := odrPutc 0

/-- `ber_octetstring`. -/
def berOctetstringEncode (octets : List UInt8) : Codec Bool := do
  if (← berEnclen octets.length 5 false) < 0 then pure false
  else if octets.length = 0 then pure true
  else odrWrite octets

/-- The groups `ber_oidc` emits: the first two arcs share one. -/
def oidIds : List Int → List Int
  | first :: second :: rest => (first * 40 + second) :: rest
  | _ => []

/-- The group loop of `ber_oidc`. A negative `id` never shifts down to zero. -/
def oidPutGroups : List Int → Codec Bool
  | [] => pure true
  | id :: rest =>
    if id < 0 then Run.stop .undefined
    else do
      if ← odrPutAll (base128 5 id.toNat []) then oidPutGroups rest else pure false

/-- `ber_oidc` for the arcs before the terminating -1. -/
def berOidcEncode (arcs : List Int) : Codec Bool := do
  let o ← Run.get
  let lenp := o.pos
  if ← odrPutc 0 then do
    if arcs.length < 2 ∨ arcs.head?.any (· < 0) ∨ arcs[1]?.any (· < 0) then do
      odrSeterror .data 23
      pure false
    else do
      if ← oidPutGroups (oidIds arcs) then do
        let o ← Run.get
        let len := o.pos - lenp - 1
        let _ ← odrSeek lenp
        if (← berEnclen len 1 true) ≠ 1 then do
          odrSeterror .other 52
          pure false
        else do
          let _ ← odrSeekEnd
          pure true
      else pure false
  else pure false

/-! ### Elements -/

/-- The common part of `odr_integer`, `odr_null`, `odr_octetstring` and `odr_oid`; the pointer `*p`
is null when there is no value. -/
def odrElementEncode {α : Type} (tag : Int) (p : Option α) (opt : Bool) (name : Option String)
    (contents : α → Codec Bool) : Codec Bool := do
  let o ← Run.get
  if o.error.isSome then pure false
  else do
    Run.modify (defaultTag 0 tag)
    let o ← Run.get
    let res ← berTagEncode p.isSome o.tClass o.tTag false opt name
    if res < 0 then pure false
    else match p with
      | none => odrMissing opt name
      | some value => contents value

def odrIntegerEncode (p : Option (BitVec 64)) (opt : Bool) (name : Option String) : Codec Bool :=
  odrElementEncode 2 p opt name berIntegerEncode

def odrNullEncode (p : Option Unit) (opt : Bool) (name : Option String) : Codec Bool :=
  odrElementEncode 5 p opt name fun _ => berNullEncode

def odrOidEncode (p : Option (List Int)) (opt : Bool) (name : Option String) : Codec Bool :=
  odrElementEncode 6 p opt name berOidcEncode

def odrOctetstringEncode (p : Option (List UInt8)) (opt : Bool) (name : Option String) : Codec Bool :=
  odrElementEncode 4 p opt name fun octets => do
    if ← berOctetstringEncode octets then pure true
    else do
      odrSeterror .other 43
      pure false

def odrEnumEncode (p : Option (BitVec 64)) (opt : Bool) (name : Option String) : Codec Bool :=
  odrElementEncode 10 p opt name berIntegerEncode

/-- `ber_boolean`. -/
def berBooleanEncode (val : Int) : Codec Bool := do
  if (← berEnclen 1 1 true) ≠ 1 then pure false
  else odrPutc (UInt8.ofNat (val % 256).toNat)

def odrBoolEncode (p : Option Int) (opt : Bool) (name : Option String) : Codec Bool :=
  odrElementEncode 1 p opt name berBooleanEncode

/-- `ber_bitstring`: no unused bits. -/
def berBitstringEncode (bits : List UInt8) : Codec Bool := do
  if (← berEnclen (bits.length + 1) 5 false) < 0 then pure false
  else do
    if ← odrPutc 0 then
      if bits.length = 0 then pure true else odrWrite bits
    else pure false

def odrBitstringEncode (p : Option (List UInt8)) (opt : Bool) (name : Option String) : Codec Bool :=
  odrElementEncode 3 p opt name berBitstringEncode

/-- `odr_any`: `ber_any` dereferences the pointer without a look at it. -/
def odrAnyEncode (p : Option (List UInt8)) (opt : Bool) (name : Option String) : Codec Bool := do
  let o ← Run.get
  if o.error.isSome then pure false
  else match p with
    | none => Run.stop .undefined
    | some octets => do
      if ← odrWrite octets then pure true else odrMissing opt name

/-- `odr_constructed_begin`: the place for the length octets is written as zeros. -/
def odrConstructedBeginEncode (present : Bool) (zclass tag : Int) (name : Option String) : Codec Bool := do
  let o ← Run.get
  let lenlen := o.lenlen
  if o.error.isSome then pure false else do
    Run.modify fun o => defaultTag zclass tag { o with lenlen := 1 }
    let o ← Run.get
    let res ← berTagEncode present o.tClass o.tTag true true name
    if res ≤ 0 then pure false
    else do
      if ← stackPush then do
        Run.modify (setTop fun entry => { entry with lenlen := lenlen })
        if ← odrWrite (List.replicate lenlen 0) then do
          Run.modify fun o => setTop (fun entry => { entry with base := o.bp, baseOffset := o.pos }) o
          pure true
        else do
          stackPop
          pure false
      else pure false

/-- `odr_constructed_end`: the length goes into its place, or the indefinite form is closed. -/
def odrConstructedEndEncode : Codec Bool := do
  let o ← Run.get
  if o.error.isSome then pure false
  else match o.stack with
    | [] => do
      odrSeterror .other 34
      pure false
    | entry :: _ => do
      let _ ← odrSeek entry.lenOffset
      let res ← berEnclen (o.pos - entry.baseOffset) entry.lenlen true
      if res < 0 then do
        odrSeterror .lenov 37
        pure false
      else do
        let _ ← odrSeekEnd
        if res = 0 then do
          if ← odrPutAll [0, 0] then do
            stackPop
            pure true
          else pure false
        else do
          stackPop
          pure true

/-- `odr_sequence_begin`. -/
def odrSequenceBeginEncode (present : Bool) (name : Option String) : Codec Bool := do
  let o ← Run.get
  if o.error.isSome then pure false else do
    Run.modify (defaultTag 0 16)
    let o ← Run.get
    odrConstructedBeginEncode present o.tClass o.tTag name

/-- `odr_initmember`. -/
def odrInitmemberEncode (present : Bool) : Codec Bool := do
  let o ← Run.get
  if o.error.isSome then pure false
  else if present then pure true
  else do
    Run.modify fun o => { o with tClass := -1 }
    pure false

end Yaz.Odr
