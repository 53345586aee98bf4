import Yaz.Foundation.Run
import Yaz.Ber.Octets
import Mathlib.Tactic.Simps.Basic

/-! The ODR handle and its buffer.

One record holds what `struct odr` and `struct Odr_private` hold for both
directions. Encoding appends to a memory buffer through `odr_putc`, `odr_write` and
`odr_seek`; decoding reads `buf` at `bp`.
-/

set_option autoImplicit false

namespace Yaz.Odr
open Yaz.Foundation Yaz.Ber

inductive ErrorCode where
  | memory | syserr | space | required | unexpected | other | proto | data | stack | conlen | lenov | http
  deriving DecidableEq

/-- `struct odr_constack`. The entry's name and `lenb` are read by no codec. -/
structure ConStack where
  base : Nat
  baseOffset : Nat
  len : Int
  lenOffset : Nat
  lenlen : Nat
  deriving DecidableEq

/-- `stack` is the chain from `stack_top` down; `spare` counts the entries that were allocated
above `stack_top` and are reused, so no more of them than their number matters. `buf` is the
memory at `buf`: exactly `size` octets when decoding, those written so far when encoding. -/
structure Handle where
  error : Option ErrorCode := none
  errorId : Nat := 0
  element : String := ""
  buf : List UInt8 := []
  bp : Nat := 0
  pos : Nat := 0
  top : Nat := 0
  size : Nat := 0
  canGrow : Bool := true
  stack : List ConStack := []
  spare : Nat := 0
  berTag : BerTag := {}
  tClass : Int := -1
  tTag : Int := -1
  choiceBias : Int := -1
  lenlen : Nat := 1
  deriving DecidableEq

/-- Why a run of a codec does not return: a byte outside the buffer was read, the bound on the
rounds of a loop was reached, or the C code leaves defined behaviour (an `int` overflows, a local
array is overrun). -/
inductive Stop where
  | outOfRange
  | outOfRounds
  | undefined
  deriving DecidableEq

inductive Call where
  | tag (zclass tag : Int)
  | constructedBegin (zclass tag : Int)
  | constructedMore
  | constructedEnd
  | moreChunks (base : Nat) (len : Int)
  | decinteger
  | any
  deriving DecidableEq

abbrev Codec (α : Type) := Run Stop Handle (Call × Handle) α

def odrMaxStack : Nat := 2000

def odrMax (o : Handle) : Int := (o.size : Int) - o.bp

def odrSeterror (error : ErrorCode) (id : Nat) : Codec Unit :=
  Run.modify fun o => { o with error := some error, errorId := id, element := "" }

/-- `odr_setelement`: at most 79 characters of the name, if there is one. -/
def odrSetelement : Option String → Codec Unit
  | none => pure ()
  | some name => Run.modify fun o => { o with element := String.ofList (name.toList.take 79) }

/-- `if (!opt) { odr_seterror(o, OREQUIRED, id); odr_setelement(o, name); }`. -/
def requireUnless (opt : Bool) (id : Nat) (name : Option String) : Codec Unit :=
  if opt then pure () else do
    odrSeterror .required id
    odrSetelement name

def odrMissing (opt : Bool) (name : Option String) : Codec Bool := do
  let o ← Run.get
  if o.error.isSome then pure false else do
    requireUnless opt 53 name
    pure opt

/-- `ODR_STACK_POP`: the popped entry stays allocated. -/
def stackPop : Codec Unit :=
  Run.modify fun o => { o with stack := o.stack.tail, spare := o.spare + 1 }

/-- `odr_grow_block`: the size doubles, at least by `minBytes`. -/
def odrGrowBlock (minBytes : Nat) : Codec Bool := do
  let o ← Run.get
  if !o.canGrow then pure false
  else
    let togrow := max (if o.size = 0 then 1024 else o.size) minBytes
    if intMax < o.size + togrow then Run.stop .undefined
    else do
      Run.modify fun o => { o with size := o.size + togrow }
      pure true

/-- `needed && odr_grow_block(o, min_bytes)` does not fail. -/
def growIf (needed : Bool) (minBytes : Nat) : Codec Bool :=
  if needed then odrGrowBlock minBytes else pure true

/-- Overwrite the memory at `pos`. -/
def store (buf : List UInt8) (pos : Nat) (octets : List UInt8) : List UInt8 :=
  buf.take pos ++ octets ++ buf.drop (pos + octets.length)

/-- Store at the current position, advance it, and raise `top` to it. -/
def put (octets : List UInt8) (o : Handle) : Handle :=
  { o with
    buf := store o.buf o.pos octets
    pos := o.pos + octets.length
    top := max o.top (o.pos + octets.length) }

/-- The `odr_putc` macro; on failure it sets `error` only. -/
def odrPutc (c : UInt8) : Codec Bool := do
  let o ← Run.get
  if o.pos < o.size then do
    Run.modify (put [c])
    pure true
  else do
    if ← odrGrowBlock 1 then do
      Run.modify (put [c])
      pure true
    else do
      Run.modify fun o => { o with error := some .space }
      pure false

/-- `odr_putc` for each octet in turn, up to the first that fails. -/
def odrPutAll : List UInt8 → Codec Bool
  | [] => pure true
  | c :: rest => do
    if ← odrPutc c then odrPutAll rest else pure false

def odrWrite (octets : List UInt8) : Codec Bool := do
  let o ← Run.get
  if intMax < o.pos + octets.length then do
    odrSeterror .space 40
    pure false
  else do
    if ← growIf (decide (o.size ≤ o.pos + octets.length)) octets.length then do
      Run.modify (put octets)
      pure true
    else do
      odrSeterror .space 40
      pure false

/-- `odr_seek` to an absolute offset. -/
def odrSeek (offset : Nat) : Codec Bool := do
  let o ← Run.get
  if ← growIf (decide (o.size < offset)) (offset - o.size) then do
    Run.modify fun o => { o with pos := offset }
    pure true
  else do
    odrSeterror .space 41
    pure false

/-- `odr_seek(o, ODR_S_END, 0)`. -/
def odrSeekEnd : Codec Bool := do
  let o ← Run.get
  odrSeek o.top

/-- The memory at `bp`. -/
def Handle.ahead (o : Handle) : List UInt8 := o.buf.drop o.bp

/-- The byte at `bp + i`. -/
def readAt (i : Nat) : Codec UInt8 := do
  let o ← Run.get
  match o.buf[o.bp + i]? with
  | some b => pure b
  | none => Run.stop .outOfRange

def reading {α : Type} : Option α → Codec α
  | some value => pure value
  | none => Run.stop .outOfRange

/-- `len` bytes of memory from `start` on. -/
def slice? (buf : List UInt8) (start len : Nat) : Option (List UInt8) :=
  if start + len ≤ buf.length then some ((buf.drop start).take len) else none

@[simps]
def Handle.skip (o : Handle) (n : Nat) : Handle := { o with bp := o.bp + n }

def advance (n : Nat) : Codec Unit := Run.modify fun o => o.skip n

/-- `*bp == 0 && *(bp + 1) == 0`. -/
def atEndOfContents : Codec Bool := do
  if (← readAt 0) = 0 then do
    let second ← readAt 1
    pure (decide (second = 0))
  else pure false

/-! ### How the steps complete -/

section
variable {α β : Type} (o o' : Handle)

@[simp] theorem Handle.skip_zero : o.skip 0 = o := rfl

@[simp] theorem Handle.ahead_skip (n : Nat) : (o.skip n).ahead = o.ahead.drop n := by
  simp [Handle.ahead]

@[simp] theorem Handle.skip_skip (n m : Nat) : (o.skip n).skip m = o.skip (n + m) := by
  simp [Handle.skip, Nat.add_assoc]

@[simp] theorem returns_odrSeterror_bind_iff (error : ErrorCode) (id : Nat) (next : Unit → Codec β) (value : β) :
    Run.Returns (odrSeterror error id >>= next) o value o' ↔
      Run.Returns (next ()) { o with error := some error, errorId := id, element := "" } value o' :=
  Run.returns_modify_bind_iff _ _ _ _ _

@[simp] theorem returns_advance_bind_iff (n : Nat) (next : Unit → Codec β) (value : β) :
    Run.Returns (advance n >>= next) o value o' ↔
      Run.Returns (next ()) (o.skip n) value o' :=
  Run.returns_modify_bind_iff _ _ _ _ _

@[simp] theorem returns_stackPop_bind_iff (next : Unit → Codec β) (value : β) :
    Run.Returns (stackPop >>= next) o value o' ↔
      Run.Returns (next ()) { o with stack := o.stack.tail, spare := o.spare + 1 } value o' :=
  Run.returns_modify_bind_iff _ _ _ _ _

@[simp] theorem returns_reading_bind_iff (found : Option α) (next : α → Codec β) (value : β) :
    Run.Returns (reading found >>= next) o value o' ↔
      ∃ a, found = some a ∧ Run.Returns (next a) o value o' := by
  cases found <;> simp [reading]

@[simp] theorem returns_readAt_iff (i : Nat) (b : UInt8) :
    Run.Returns (readAt i) o b o' ↔ o.buf[o.bp + i]? = some b ∧ o = o' := by
  simp only [readAt, Run.returns_get_bind_iff]
  cases o.buf[o.bp + i]? <;> simp

@[simp] theorem returns_readAt_bind_iff (i : Nat) (next : UInt8 → Codec β) (value : β) :
    Run.Returns (readAt i >>= next) o value o' ↔
      ∃ b, o.buf[o.bp + i]? = some b ∧ Run.Returns (next b) o value o' := by
  simp only [Run.returns_bind_iff, returns_readAt_iff]
  constructor
  · rintro ⟨b, u, ⟨found, rfl⟩, h⟩
    exact ⟨b, found, h⟩
  · rintro ⟨b, found, h⟩
    exact ⟨b, o, ⟨found, rfl⟩, h⟩

theorem error_of_requireUnless {o o' : Handle} {id : Nat} {name : Option String}
    (h : Run.Returns (requireUnless false id name) o () o') : o'.error.isSome := by
  rw [requireUnless, if_neg (by simp), returns_odrSeterror_bind_iff] at h
  cases name with
  | none =>
    rw [← h.2]
    rfl
  | some =>
    rw [odrSetelement, Run.returns_modify_iff] at h
    rw [← h]
    rfl

theorem returns_odrMissing_iff (opt : Bool) (name : Option String) :
    Run.Returns (odrMissing opt name) o true o' ↔ o.error = none ∧ opt = true ∧ o = o' := by
  rw [odrMissing, Run.returns_get_bind_iff, Run.returns_ite_iff]
  split
  next broken =>
    rw [Run.returns_pure_iff]
    constructor
    · simp
    · rintro ⟨noError, -⟩
      simp [noError] at broken
  next noError =>
    cases opt with
    | true => simpa [requireUnless] using fun _ => by simpa using noError
    | false =>
      constructor
      · rw [Run.returns_bind_iff]
        rintro ⟨_, _, _, done⟩
        simp at done
      · simp

theorem error_of_odrMissing {o o' : Handle} {opt : Bool} {name : Option String}
    (h : Run.Returns (odrMissing opt name) o false o') : o'.error.isSome := by
  rw [odrMissing, Run.returns_get_bind_iff, Run.returns_ite_iff] at h
  split at h
  next broken =>
    exact h.2 ▸ broken
  · rw [Run.returns_bind_iff] at h
    obtain ⟨_, middle, failed, done⟩ := h
    rw [Run.returns_pure_iff] at done
    obtain ⟨rfl, rfl⟩ := done
    exact error_of_requireUnless failed

variable {c : Run.Contract Stop (Call × Handle)} {post : β → Handle → Prop}

@[simp] theorem upholds_odrSeterror_bind_iff (error : ErrorCode) (id : Nat) (next : Unit → Codec β) :
    Run.Upholds c (odrSeterror error id >>= next) o post ↔
      Run.Upholds c (next ()) { o with error := some error, errorId := id, element := "" } post :=
  Run.upholds_modify_bind_iff _ _ _

@[simp] theorem upholds_advance_bind_iff (n : Nat) (next : Unit → Codec β) :
    Run.Upholds c (advance n >>= next) o post ↔ Run.Upholds c (next ()) (o.skip n) post :=
  Run.upholds_modify_bind_iff _ _ _

@[simp] theorem upholds_stackPop_bind_iff (next : Unit → Codec β) :
    Run.Upholds c (stackPop >>= next) o post ↔
      Run.Upholds c (next ()) { o with stack := o.stack.tail, spare := o.spare + 1 } post :=
  Run.upholds_modify_bind_iff _ _ _

theorem upholds_reading_bind {found : Option α} {next : α → Codec β}
    (outside : found = none → c.allowed .outOfRange)
    (inside : ∀ value, found = some value → Run.Upholds c (next value) o post) :
    Run.Upholds c (reading found >>= next) o post := by
  cases found with
  | none => simpa [reading] using outside rfl
  | some value => simpa [reading] using inside value rfl

theorem upholds_readAt_bind {i : Nat} {next : UInt8 → Codec β}
    (outside : o.buf[o.bp + i]? = none → c.allowed .outOfRange)
    (inside : ∀ b, o.buf[o.bp + i]? = some b → Run.Upholds c (next b) o post) :
    Run.Upholds c (readAt i >>= next) o post := by
  rw [readAt, Run.bind_bind, Run.upholds_get_bind_iff]
  cases k : o.buf[o.bp + i]? with
  | none => simpa using outside k
  | some b => simpa using inside b k

end

end Yaz.Odr
