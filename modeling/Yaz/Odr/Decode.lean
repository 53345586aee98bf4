import Yaz.Odr.State

/-! The ODR combinators in the direction `ODR_DECODE`.

A primitive decoder `ber_*` returns its value, or `none` for the C return value 0.
A combinator `odr_*` returns its C return value and what it leaves in `*p`.
Loops take a bound on their rounds from the size of the buffer.
-/

set_option autoImplicit false

namespace Yaz.Odr
open Yaz.Foundation Yaz.Ber

variable {α : Type}

/-! ### Constructed elements and identifiers -/

def odrConstructedMore : Codec Bool := do
  Run.enter .constructedMore
  let o ← Run.get
  if o.error.isSome then pure false
  else match o.stack with
    | [] => pure false
    | entry :: _ =>
      if 0 ≤ entry.len then pure (decide ((o.bp : Int) - entry.base < entry.len))
      else do
        let ended ← atEndOfContents
        pure (!ended)

/-- `!o->op->stack_top || odr_constructed_more(o)`. -/
def moreAhead : Codec Bool := do
  let o ← Run.get
  if o.stack.isEmpty then pure true else odrConstructedMore

/-- What `ber_tag` does before it looks at the direction: outside any constructed element every
call starts again at the beginning of the buffer. -/
def tagReset (o : Handle) : Handle :=
  if o.stack.isEmpty then
    { o with tClass := -1, pos := 0, top := 0, bp := 0, berTag := { o.berTag with lclass := -1 } }
  else { o with tClass := -1 }

/-- `if (odr_ber_tag->lclass < 0)`: fill the one-entry look-ahead. -/
def tagAhead (name : Option String) : Codec Bool := do
  let o ← Run.get
  if o.berTag.lclass < 0 then do
    let (res, cache) ← reading (berDectag o.ahead (odrMax o) o.berTag)
    Run.modify fun o => { o with berTag := { cache with br := res } }
    if res ≤ 0 then do
      odrSeterror .proto 26
      odrSetelement name
      pure false
    else pure true
  else pure true

/-- `o->bp += odr_ber_tag->br; odr_ber_tag->lclass = -1`. -/
def takeTag (o : Handle) : Handle :=
  { o with bp := o.bp + o.berTag.br.toNat, berTag := { o.berTag with lclass := -1 } }

/-- `ber_tag`: the constructed flag of the element when its tag matches, `none` for the return
value 0. -/
def berTagDecode (zclass tag : Int) (opt : Bool) (name : Option String) : Codec (Option Int) := do
  Run.enter (.tag zclass tag)
  Run.modify tagReset
  if ← moreAhead then do
    let ahead ← tagAhead name
    if ahead then do
      let o ← Run.get
      if zclass = o.berTag.lclass ∧ tag = o.berTag.ltag then do
        Run.modify takeTag
        pure (some o.berTag.lcons)
      else do
        requireUnless opt 27 name
        pure none
    else pure none
  else do
    requireUnless opt 25 name
    pure none

/-- `if (o->op->t_class < 0) { t_class = zclass; t_tag = tag; }`. -/
def defaultTag (zclass tag : Int) (o : Handle) : Handle :=
  if o.tClass < 0 then { o with tClass := zclass, tTag := tag } else o

def odrImplicitSettag (zclass tag : Int) : Codec Bool := do
  let o ← Run.get
  if o.error.isSome then pure false else do
    Run.modify (defaultTag zclass tag)
    pure true

def stackPush : Codec Bool := do
  let o ← Run.get
  if o.spare = 0 ∧ o.stack ≠ [] ∧ odrMaxStack ≤ o.stack.length then do
    odrSeterror .stack 30
    pure false
  else do
    Run.modify fun o => { o with
      stack := { base := o.bp, baseOffset := o.pos, len := 0, lenOffset := o.pos, lenlen := 0 } :: o.stack
      spare := o.spare - 1 }
    pure true

theorem failed_stackPush {o o' : Handle} (h : Run.Returns stackPush o false o') : o'.error.isSome := by
  rw [stackPush, Run.returns_get_bind_iff, Run.returns_ite_iff] at h
  split at h
  · rw [returns_odrSeterror_bind_iff, Run.returns_pure_iff] at h
    rw [← h.2]
    rfl
  · simp at h

def setTop (update : ConStack → ConStack) (o : Handle) : Handle :=
  { o with stack := match o.stack with | [] => [] | entry :: rest => update entry :: rest }

/-- The decoding part of `odr_constructed_begin`: read the length octets of the new entry. -/
def constructedLength : Codec Bool := do
  let o ← Run.get
  let (res, len) ← reading (berDeclen o.ahead (odrMax o))
  if res < 0 then do
    odrSeterror .other 31
    stackPop
    pure false
  else do
    advance res.toNat
    Run.modify (setTop fun entry => { entry with len := len, lenlen := res.toNat })
    let o ← Run.get
    if odrMax o < len then do
      odrSeterror .other 32
      stackPop
      pure false
    else do
      Run.modify (setTop fun entry => { entry with base := o.bp, baseOffset := o.pos })
      pure true

/-- `odr_constructed_begin`. -/
def odrConstructedBeginDecode (zclass tag : Int) (name : Option String) : Codec Bool := do
  let o ← Run.get
  if o.error.isSome then pure false else do
    Run.modify fun o => defaultTag zclass tag { o with lenlen := 1 }
    let o ← Run.get
    Run.enter (.constructedBegin o.tClass o.tTag)
    match ← berTagDecode o.tClass o.tTag true name with
    | none => pure false
    | some cons =>
      if cons = 0 then pure false
      else do
        if ← stackPush then constructedLength else pure false

/-- `*bp++ == 0 && *bp++ == 0`. -/
def takeEndOfContents : Codec Bool := do
  let first ← readAt 0
  advance 1
  if first = 0 then do
    let second ← readAt 0
    advance 1
    pure (decide (second = 0))
  else pure false

/-- `odr_constructed_end`. -/
def odrConstructedEndDecode : Codec Bool := do
  Run.enter .constructedEnd
  let o ← Run.get
  if o.error.isSome then pure false
  else match o.stack with
    | [] => do
      odrSeterror .other 34
      pure false
    | entry :: _ =>
      if entry.len < 0 then do
        if ← takeEndOfContents then do
          stackPop
          pure true
        else do
          odrSeterror .other 35
          pure false
      else if (o.bp : Int) - entry.base ≠ entry.len then do
        odrSeterror .conlen 36
        pure false
      else do
        stackPop
        pure true

/-- `odr_sequence_begin`. -/
def odrSequenceBeginDecode (name : Option String) : Codec Bool := do
  let o ← Run.get
  if o.error.isSome then pure false else do
    Run.modify (defaultTag 0 16)
    let o ← Run.get
    odrConstructedBeginDecode o.tClass o.tTag name

def odrPeektag : Codec (Option BerTag) := do
  let o ← Run.get
  if ← moreAhead then do
    let (res, cache) ← reading (berDectag o.ahead (odrMax o) {})
    if res ≤ 0 then do
      odrSeterror .required 49
      pure none
    else pure (some cache)
  else pure none

/-- `ber_integer`. -/
def berIntegerDecode : Codec (Option (BitVec 64)) := do
  Run.enter .decinteger
  let o ← Run.get
  let (res, val) ← reading (berDecinteger o.ahead (odrMax o))
  if res ≤ 0 then do
    odrSeterror .proto 50
    pure none
  else do
    advance res.toNat
    pure (some val)

/-- A byte read through a `char *`. -/
def signedChar (b : UInt8) : Int := Int.bmod b.toNat 256

/-- `ber_boolean`. -/
def berBooleanDecode : Codec (Option Int) := do
  let o ← Run.get
  let (res, len) ← reading (berDeclen o.ahead (odrMax o))
  if res < 0 then do
    odrSeterror .proto 9
    pure none
  else do
    advance res.toNat
    let o ← Run.get
    if len ≠ 1 ∨ odrMax o < len then do
      odrSeterror .proto 10
      pure none
    else do
      let b ← readAt 0
      advance 1
      pure (some (signedChar b))

/-- `ber_null`. -/
def berNullDecode : Codec (Option Unit) := do
  let o ← Run.get
  if odrMax o < 1 then do
    odrSeterror .proto 39
    pure none
  else do
    let b ← readAt 0
    advance 1
    if b ≠ 0 then do
      odrSeterror .proto 12
      pure none
    else pure (some ())

def oidSize : Nat := 20

/-- The inner loop of `ber_oidc`: one base-128 group, with the number of octets left after it. -/
def oidGroup : Nat → Int → Codec (Option (Int × Nat))
  | 0, _ => do
    odrSeterror .proto 21
    pure none
  | len + 1, id => do
    let b ← readAt 0
    let id := wrapInt (id * 128 + (b.toNat % 128 : Nat))
    advance 1
    if 128 ≤ b.toNat then oidGroup len id else pure (some (id, len))

def oidStore (arcs : List Int) (id : Int) : List Int :=
  if arcs = [] then
    let first := if 2 < wrapShort (id / 40) then 2 else wrapShort (id / 40)
    [first, wrapShort (id - first * 40)]
  else arcs ++ [wrapShort id]

/-- `while (len)` of `ber_oidc`; every group takes an octet, so `len` bounds the rounds. -/
def oidGroups (maxOidSize : Nat) : Nat → Nat → List Int → Codec (Option (List Int))
  | _, 0, arcs => pure (some arcs)
  | 0, _ + 1, _ => Run.stop .outOfRounds
  | rounds + 1, len + 1, arcs => do
    match ← oidGroup (len + 1) 0 with
    | none => pure none
    | some (id, rest) =>
      if id < 0 then do
        odrSeterror .data 23
        pure none
      else if maxOidSize ≤ (oidStore arcs id).length then do
        odrSeterror .proto 55
        pure none
      else oidGroups maxOidSize rounds rest (oidStore arcs id)

/-- `ber_oidc`. -/
def berOidcDecode (maxOidSize : Nat) : Codec (Option (List Int)) := do
  let o ← Run.get
  let (res, len) ← reading (berDeclen o.ahead (odrMax o))
  if res < 1 then do
    odrSeterror .proto 18
    pure none
  else if len < 0 then do
    odrSeterror .proto 19
    pure none
  else do
    advance res.toNat
    let o ← Run.get
    if odrMax o < len then do
      odrSeterror .proto 20
      pure none
    else match ← oidGroups maxOidSize len.toNat len.toNat [] with
      | none => pure none
      | some arcs =>
        if arcs.length < 2 ∨ arcs.head?.any (· < 0) ∨ arcs[1]?.any (· < 0) then do
          odrSeterror .data 23
          pure none
        else pure (some arcs)

/-- `ber_any`: `completeBER_n` delimits the element. -/
def berAnyDecode : Codec (Option (List UInt8)) := do
  let o ← Run.get
  let res := completeBERn o.ahead 0
  if res ≤ 0 then do
    odrSeterror .proto 2
    pure none
  else do
    let octets ← reading (slice? o.buf o.bp res.toNat)
    advance res.toNat
    pure (some octets)

/-! ### Typed elements -/

/-- The common part of `odr_integer`, `odr_null`, `odr_oid` and their kind: default tag,
identifier, and `contents` of the constructed flag when the element is there. -/
def odrElement (tag : Int) (opt : Bool) (name : Option String)
    (contents : Int → Codec (Bool × Option α)) : Codec (Bool × Option α) := do
  let o ← Run.get
  if o.error.isSome then pure (false, none)
  else do
    Run.modify (defaultTag 0 tag)
    let o ← Run.get
    match ← berTagDecode o.tClass o.tTag opt name with
    | none => do
      let ret ← odrMissing opt name
      pure (ret, none)
    | some cons => contents cons

def finish (value : Option α) : Bool × Option α := (value.isSome, value)

/-- `if (cons) { odr_seterror(o, OPROTO, id); return 0; }` before a primitive decoder. -/
def primitiveOnly (id : Nat) (contents : Codec (Option α)) (cons : Int) : Codec (Bool × Option α) :=
  if cons ≠ 0 then do
    odrSeterror .proto id
    pure (false, none)
  else do
    let value ← contents
    pure (finish value)

def odrIntegerDecode (opt : Bool) (name : Option String) : Codec (Bool × Option (BitVec 64)) :=
  odrElement 2 opt name (primitiveOnly 1 berIntegerDecode)

def odrEnumDecode (opt : Bool) (name : Option String) : Codec (Bool × Option (BitVec 64)) :=
  odrElement 10 opt name (primitiveOnly 54 berIntegerDecode)

def odrOidDecode (opt : Bool) (name : Option String) : Codec (Bool × Option (List Int)) :=
  odrElement 6 opt name (primitiveOnly 46 (berOidcDecode oidSize))

/-- `odr_bool` rejects a constructed encoding without setting an error. -/
def odrBoolDecode (opt : Bool) (name : Option String) : Codec (Bool × Option Int) :=
  odrElement 1 opt name fun cons =>
    if cons ≠ 0 then pure (false, none)
    else do
      let value ← berBooleanDecode
      pure (finish value)

/-- `odr_null` ignores the constructed flag. -/
def odrNullDecode (opt : Bool) (name : Option String) : Codec (Bool × Option Unit) :=
  odrElement 5 opt name fun _ => do
    let value ← berNullDecode
    pure (finish value)

def odpMoreChunks (base : Nat) (len : Int) : Codec Bool := do
  Run.enter (.moreChunks base len)
  if len = 0 then pure false
  else if len < 0 then do
    let ended ← atEndOfContents
    if ended then do
      advance 2
      pure false
    else pure true
  else do
    let o ← Run.get
    pure (decide ((o.bp : Int) - base < len))

/-- `while (odp_more_chunks(o, base, len)) if (!chunk) return 0; return 1;`. -/
def chunks (chunk : Codec Bool) (base : Nat) (len : Int) : Nat → Codec Bool
  | 0 => Run.stop .outOfRounds
  | rounds + 1 => do
    if ← odpMoreChunks base len then do
      if ← chunk then chunks chunk base len rounds else pure false
    else pure true

/-- `ber_octetstring` and `ber_bitstring`, up to the error of a bad length and to what is done with
primitive contents of a known length. The chunks of a constructed string go to fresh objects: the
caller's object keeps its initial, empty value. -/
def berStringDecode (lengthId : Nat) (primitive : Int → Codec (Option (List UInt8)))
    (chunk : Codec Bool) (rounds : Nat) (cons : Int) : Codec (Option (List UInt8)) := do
  let o ← Run.get
  let (res, len) ← reading (berDeclen o.ahead (odrMax o))
  if res < 0 then do
    odrSeterror .proto lengthId
    pure none
  else do
    advance res.toNat
    if cons ≠ 0 then do
      let o ← Run.get
      if ← chunks chunk o.bp len rounds then pure (some []) else pure none
    else primitive len

/-- Primitive contents of `ber_octetstring`. -/
def octetContents (len : Int) : Codec (Option (List UInt8)) := do
  let o ← Run.get
  if len < 0 then do
    odrSeterror .other 15
    pure none
  else if odrMax o < len then do
    odrSeterror .other 16
    pure none
  else do
    let octets ← reading (slice? o.buf o.bp len.toNat)
    advance len.toNat
    pure (some octets)

def odrBitmaskSize : Nat := 256

/-- Primitive contents of `ber_bitstring` for an object that holds `bits`; the octet that counts
the unused bits is skipped. -/
def bitContents (bits : List UInt8) (len : Int) : Codec (Option (List UInt8)) := do
  let o ← Run.get
  if len < 0 then do
    odrSeterror .other 5
    pure none
  else if len = 0 then pure (some bits)
  else if (odrBitmaskSize : Int) < len - 1 then do
    odrSeterror .other 6
    pure none
  else if odrMax o < len then do
    odrSeterror .other 7
    pure none
  else do
    let octets ← reading (slice? o.buf (o.bp + 1) (len.toNat - 1))
    advance len.toNat
    pure (some (bits ++ octets))

/-- `odr_octetstring`, with a bound on the nesting of constructed strings. -/
def odrOctetstringWithin : Nat → Bool → Option String → Codec (Bool × Option (List UInt8))
  | 0, _, _ => Run.stop .outOfRounds
  | depth + 1, opt, name =>
    odrElement 4 opt name fun cons => do
      let chunk : Codec Bool := do
        let (ret, _) ← odrOctetstringWithin depth false none
        pure ret
      match ← berStringDecode 14 octetContents chunk (depth + 1) cons with
      | some value => pure (true, some value)
      | none => do
        odrSeterror .other 43
        pure (false, none)

/-- `odr_bitstring`, with a bound on the nesting of constructed strings. -/
def odrBitstringWithin : Nat → Bool → Option String → Codec (Bool × Option (List UInt8))
  | 0, _, _ => Run.stop .outOfRounds
  | depth + 1, opt, name =>
    odrElement 3 opt name fun cons => do
      let chunk : Codec Bool := do
        let (ret, _) ← odrBitstringWithin depth false none
        pure ret
      let value ← berStringDecode 4 (bitContents []) chunk (depth + 1) cons
      pure (finish value)

def chunkOf (string : Codec (Bool × Option (List UInt8))) : Codec Bool := do
  let (ret, _) ← string
  pure ret

/-- The buffer of the wrapper that `odr_cstring` makes: it is null until primitive contents are read. -/
def wrapperBuf (cons : Int) (octets : List UInt8) : Option (List UInt8) := if cons ≠ 0 then none else some octets

/-- The common part of `odr_cstring` and `odr_iconv_string`, around what becomes of the wrapper. -/
def wrappedString (unwrap : Option (List UInt8) → Codec (Bool × Option (List UInt8))) (opt : Bool)
    (name : Option String) : Codec (Bool × Option (List UInt8)) := do
  let o ← Run.get
  odrElement 4 opt name fun cons => do
    match ← berStringDecode 14 octetContents (chunkOf (odrOctetstringWithin o.size false none)) (o.size + 1) cons with
    | some octets => unwrap (wrapperBuf cons octets)
    | none => pure (false, none)

/-- `*p = (char *) t->buf; *(*p + t->len) = '\0';` the octets in front of the terminator. -/
def terminated : Option (List UInt8) → Codec (Bool × Option (List UInt8))
  | some octets => pure (true, some octets)
  | none => Run.stop .undefined

def odrCstringDecode (opt : Bool) (name : Option String) : Codec (Bool × Option (List UInt8)) :=
  wrappedString terminated opt name

/-- `odr_iconv_string`; `convert` is what the conversion handle makes of a text, if there is a handle. -/
def odrIconvStringDecode (convert : Option (List UInt8 → Option (List UInt8))) (opt : Bool) (name : Option String) :
    Codec (Bool × Option (List UInt8)) :=
  wrappedString (fun buf =>
    match convert with
    | none => terminated buf
    | some convert =>
      match convert (buf.getD []) with
      | some text => pure (true, some text)
      | none => do
        odrSeterror .data 45
        pure (false, none)) opt name

def odrOctetstringDecode (opt : Bool) (name : Option String) : Codec (Bool × Option (List UInt8)) := do
  let o ← Run.get
  odrOctetstringWithin (o.size + 1) opt name

def odrBitstringDecode (opt : Bool) (name : Option String) : Codec (Bool × Option (List UInt8)) := do
  let o ← Run.get
  odrBitstringWithin (o.size + 1) opt name

/-- `odr_any`. -/
def odrAnyDecode (opt : Bool) (name : Option String) : Codec (Bool × Option (List UInt8)) := do
  Run.enter .any
  let o ← Run.get
  if o.error.isSome then pure (false, none)
  else match ← berAnyDecode with
    | some value => pure (true, some value)
    | none => do
      let ret ← odrMissing opt name
      pure (ret, none)

/-- `while (odr_sequence_more(o))` of `odr_sequence_x`, with the members decoded so far. -/
def sequenceLoop (type : Codec (Bool × Option α)) : Nat → List (Option α) → Codec (Bool × List (Option α))
  | 0, _ => Run.stop .outOfRounds
  | rounds + 1, members => do
    if ← odrConstructedMore then do
      let (ret, p) ← type
      if ret then sequenceLoop type rounds (members ++ [p]) else pure (false, members)
    else pure (true, members)

/-- `odr_sequence_of`. -/
def odrSequenceOfDecode (type : Codec (Bool × Option α)) (name : Option String) :
    Codec (Bool × Option (List (Option α))) := do
  if ← odrSequenceBeginDecode name then do
    let o ← Run.get
    let (ret, members) ← sequenceLoop type (o.size + 1) []
    if ret then do
      let closed ← odrConstructedEndDecode
      pure (closed, some members)
    else pure (false, none)
  else pure (false, none)

inductive TagMode where
  | none
  | implicit
  | explicit
  deriving DecidableEq

/-- `Odr_arm`. -/
structure Arm (α : Type) where
  tagmode : TagMode
  zclass : Int
  tag : Int
  which : Int
  type : Bool → Option String → Codec (Bool × Option α)
  name : Option String

/-- The look-ahead of `odr_choice`: it does not go through the cache of `ber_tag`. -/
def choicePeek (seen : Option (Int × Int)) : Codec (Option (Int × Int)) :=
  match seen with
  | some tag => pure (some tag)
  | none => do
    let o ← Run.get
    if ← moreAhead then do
      let (res, cache) ← reading (berDectag o.ahead (odrMax o) {})
      if res ≤ 0 then pure none else pure (some (cache.lclass, cache.ltag))
    else pure none

def taggedArm (arm : Arm α) : Codec (Bool × Option α) :=
  if arm.tagmode = .implicit then do
    let _ ← odrImplicitSettag arm.zclass arm.tag
    arm.type false arm.name
  else do
    if ← odrConstructedBeginDecode arm.zclass arm.tag none then do
      let (ret, p) ← arm.type false arm.name
      if ret then do
        let closed ← odrConstructedEndDecode
        pure (closed, p)
      else pure (false, none)
    else pure (false, none)

/-- The loop of `odr_choice` over its arms. -/
def choiceLoop (bias : Int) : Option (Int × Int) → List (Arm α) → Codec (Bool × Option α)
  | _, [] => pure (false, none)
  | seen, arm :: rest =>
    if 0 ≤ bias ∧ bias ≠ arm.which then choiceLoop bias seen rest
    else if arm.tagmode = .none then do
      let (ret, p) ← arm.type true arm.name
      if ret && p.isSome then pure (true, p) else choiceLoop bias seen rest
    else do
      match ← choicePeek seen with
      | none => pure (false, none)
      | some (cl, tg) =>
        if tg = arm.tag ∧ cl = arm.zclass then taggedArm arm
        else choiceLoop bias (some (cl, tg)) rest

/-- `odr_choice`. The value carries the arm that was taken. -/
def odrChoiceDecode (arms : List (Arm α)) : Codec (Bool × Option α) := do
  let o ← Run.get
  if o.error.isSome then pure (false, none)
  else do
    Run.modify fun o => { o with choiceBias := -1 }
    choiceLoop o.choiceBias none arms

/-- `odr_initmember`. -/
def odrInitmemberDecode : Codec Bool := do
  let o ← Run.get
  pure o.error.isNone

/-- A handle set up by `odr_setbuf(o, buf, len, 0)`. -/
def decoding (buf : List UInt8) : Handle := { buf := buf, size := buf.length, canGrow := false }

end Yaz.Odr
