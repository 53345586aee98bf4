import Yaz.Iconv.Utf8

/-! `yaz_iconv` of `siconv.c`, over any decoder and any encoder.

A buffer is the list of its octets. A call also says which octets each read was given and how
many it took, and which codes the encoder has taken; the source keeps no record of these.
-/

set_option autoImplicit false

namespace Yaz.Iconv

/-- The codes of `yaz_iconv_error`. -/
inductive Errno where
  | ok
  | unknown
  | e2big
  | eilseq
  | einval
  deriving DecidableEq

structure Read (D : Type) where
  x : Nat
  noRead : Nat
  data : D
  errno : Option Errno := none
  deriving DecidableEq

inductive Init (D : Type) where
  | failed (errno : Errno)
  | ready (data : D) (noRead : Nat)
  deriving DecidableEq

/-- `struct yaz_iconv_decoder_s`. -/
structure Decoder (D : Type) where
  initHandle : D → List UInt8 → Init D
  readHandle : D → List UInt8 → Read D

structure Written (E : Type) where
  out : List UInt8
  data : E
  failed : Bool := false
  errno : Option Errno := none
  deriving DecidableEq

/-- `struct yaz_iconv_encoder_s`; the number is `outbytesleft`. -/
structure Encoder (E : Type) where
  initHandle : E → E
  writeHandle : E → Nat → Nat → Written E
  flushHandle : Option (E → Nat → Written E)

/-- `struct yaz_iconv_struct`, for encoders and decoders that are built in. -/
structure Cd (D E : Type) where
  myErrno : Errno
  initFlag : Bool
  noReadX : Nat
  ungetX : Nat
  encoder : E
  decoder : D
  deriving DecidableEq

/-- A call of the decoder: the octets that it was given and the number of those it took. -/
structure ReadEvent (D : Type) where
  data : D
  inbuf : List UInt8
  noRead : Nat
  deriving DecidableEq

/-- How a call of `yaz_iconv` ended: `r` is `none` for -1, and `inbuf` is what is left. -/
structure Call (D E : Type) where
  cd : Cd D E
  r : Option Nat
  inbuf : List UInt8
  out : List UInt8 := []
  reads : List (ReadEvent D) := []
  taken : List Nat := []
  codes : List Nat := []
  overran : Bool := false
  deriving DecidableEq

section
variable {D E : Type}

def Call.behind (call : Call D E) (out : List UInt8) (reads : List (ReadEvent D)) (taken codes : List Nat) : Call D E :=
  { call with
    out := out ++ call.out, reads := reads ++ call.reads, taken := taken ++ call.taken, codes := codes ++ call.codes }

variable (decoder : Decoder D) (encoder : Encoder E)

structure Round (D E : Type) where
  cd : Cd D E
  x : Nat
  noRead : Nat
  reads : List (ReadEvent D)

def Cd.round (cd : Cd D E) (inbuf : List UInt8) : Round D E :=
  if cd.ungetX ≠ 0 then { cd := cd, x := cd.ungetX, noRead := cd.noReadX, reads := [] }
  else
    let read := decoder.readHandle cd.decoder inbuf
    { cd := { cd with decoder := read.data, myErrno := read.errno.getD cd.myErrno }
      x := read.x, noRead := read.noRead, reads := [⟨cd.decoder, inbuf, read.noRead⟩] }

def Cd.write (cd : Cd D E) (x outbytesleft : Nat) : Written E :=
  if x = 0 then { out := [], data := cd.encoder } else encoder.writeHandle cd.encoder x outbytesleft

def Cd.wrote (cd : Cd D E) (written : Written E) : Cd D E :=
  { cd with encoder := written.data, myErrno := written.errno.getD cd.myErrno }

variable (cd : Cd D E)

@[simp] theorem Cd.wrote_decoder (written : Written E) : (cd.wrote written).decoder = cd.decoder := rfl

@[simp] theorem Cd.round_initFlag (inbuf : List UInt8) : (cd.round decoder inbuf).cd.initFlag = cd.initFlag := by
  unfold Cd.round
  split <;> rfl

@[simp] theorem Cd.round_ungetX (inbuf : List UInt8) : (cd.round decoder inbuf).cd.ungetX = cd.ungetX := by
  unfold Cd.round
  split <;> rfl

@[simp] theorem Cd.round_encoder (inbuf : List UInt8) : (cd.round decoder inbuf).cd.encoder = cd.encoder := by
  unfold Cd.round
  split <;> rfl

theorem Cd.round_read {cd : Cd D E} (none : cd.ungetX = 0) (inbuf : List UInt8) :
    cd.round decoder inbuf =
      let read := decoder.readHandle cd.decoder inbuf
      { cd := { cd with decoder := read.data, myErrno := read.errno.getD cd.myErrno }
        x := read.x, noRead := read.noRead, reads := [⟨cd.decoder, inbuf, read.noRead⟩] } := by
  rw [Cd.round, if_neg (not_not_intro none)]

theorem Cd.round_kept {cd : Cd D E} (kept : cd.ungetX ≠ 0) (inbuf : List UInt8) :
    cd.round decoder inbuf = { cd := cd, x := cd.ungetX, noRead := cd.noReadX, reads := [] } := by
  rw [Cd.round, if_pos kept]

/-- The loop of `yaz_iconv`; `start` is the length of the input that the call was given. -/
def convert (start : Nat) (cd : Cd D E) (inbuf : List UInt8) (outbytesleft : Nat) : Call D E :=
  if cd.ungetX = 0 ∧ inbuf = [] then { cd := cd, r := some (start - inbuf.length), inbuf := inbuf }
  else
    let round := cd.round decoder inbuf
    if cd.ungetX = 0 ∧ round.noRead = 0 then { cd := round.cd, r := none, inbuf := inbuf, reads := round.reads }
    else
      let written := round.cd.write encoder round.x outbytesleft
      let next := round.cd.wrote written
      -- the decoder cannot go back, so the code is kept
      if written.failed ∧ next.myErrno = .e2big then
        { cd := { next with ungetX := round.x, noReadX := round.noRead }, r := none, inbuf := inbuf
          out := written.out, reads := round.reads }
      -- in the source `*inbytesleft` wraps around here
      else if inbuf.length < round.noRead then
        { cd := { next with ungetX := 0 }, r := none, inbuf := [], out := written.out, reads := round.reads
          taken := [round.noRead], codes := if round.x = 0 then [] else [round.x], overran := true }
      else
        (convert start { next with ungetX := 0 } (inbuf.drop round.noRead) (outbytesleft - written.out.length)).behind
          written.out round.reads [round.noRead] (if round.x = 0 then [] else [round.x])
termination_by 2 * inbuf.length + if cd.ungetX = 0 then 0 else 1
decreasing_by
  rename_i notDone notStuck _ within
  rw [List.length_drop, if_pos trivial]
  split
  next kept =>
    have some : 0 < inbuf.length := List.length_pos_iff.mpr fun empty => notDone ⟨kept, empty⟩
    have read : (cd.round decoder inbuf).noRead ≠ 0 := fun none => notStuck ⟨kept, none⟩
    omega
  · omega

def flush (cd : Cd D E) (outbytesleft : Option Nat) : Call D E :=
  match outbytesleft with
  | none => { cd := { cd with initFlag := true, ungetX := 0 }, r := some 0, inbuf := [] }
  | some outbytesleft =>
    let kept := cd.write encoder cd.ungetX outbytesleft
    let cd := cd.wrote kept
    let flushed : Written E := match encoder.flushHandle with
      | none => { out := [], data := cd.encoder, failed := kept.failed }
      | some flushHandle => flushHandle cd.encoder (outbytesleft - kept.out.length)
    let cd := cd.wrote flushed
    { cd := { cd with initFlag := cd.initFlag || !flushed.failed, ungetX := 0 }
      r := if flushed.failed then none else some 0, inbuf := [], out := kept.out ++ flushed.out }

/-- `yaz_iconv` behind its first lines. -/
def Cd.goOn (cd : Cd D E) (start : Nat) (inbuf : Option (List UInt8)) (outbytesleft : Option Nat) : Call D E :=
  match inbuf with
  | none => flush encoder cd outbytesleft
  | some inbuf => convert decoder encoder start cd inbuf (outbytesleft.getD 0)

/-- `yaz_iconv`; `none` is a null pointer. -/
def yazIconv (cd : Cd D E) (inbuf : Option (List UInt8)) (outbytesleft : Option Nat) : Call D E :=
  let start := (inbuf.getD []).length
  if cd.initFlag then
    let cd := { cd with myErrno := .unknown, encoder := encoder.initHandle cd.encoder, ungetX := 0, noReadX := 0 }
    match decoder.initHandle cd.decoder (inbuf.getD []) with
    | .failed errno =>
      { cd := { cd with myErrno := errno, initFlag := errno = .einval }, r := none, inbuf := inbuf.getD [] }
    | .ready data noRead =>
      { cd with decoder := data, initFlag := false }.goOn decoder encoder start (inbuf.map (List.drop noRead)) outbytesleft
  else cd.goOn decoder encoder start inbuf outbytesleft

end

end Yaz.Iconv
