import Yaz.Iconv.Progress

/-! `wrbuf_iconv_write2` and `wrbuf_iconv_reset` of `wrbuf.c`.

What is converted goes through a buffer of 128 octets, which is appended when a call ends with the input or for want of room.
-/

set_option autoImplicit false

namespace Yaz.Wrbuf
open List Yaz.Iconv

/-- A call of `yaz_iconv` as its caller sees it: `r` is `none` for -1, and `inbuf` is what is left. `overran` says that a read
took more octets than were left. -/
structure Seen (C : Type) where
  cd : C
  r : Option Nat
  errno : Errno
  inbuf : List UInt8
  out : List UInt8
  overran : Bool := false

def Seen.full {C : Type} (call : Seen C) : Prop := call.r = none ∧ call.errno = .e2big

instance {C : Type} (call : Seen C) : Decidable call.full := inferInstanceAs (Decidable (_ ∧ _))

/-- What was appended, if the return value is -1, the descriptor, and what is left of the input; `overran` is that of any call. -/
structure Appended (C : Type) where
  added : List UInt8
  failed : Bool := false
  cd : C
  rest : List UInt8
  overran : Bool := false

def Appended.behind {C : Type} (appended : Appended C) (front : List UInt8) (overran : Bool) : Appended C :=
  { appended with added := front ++ appended.added, overran := overran || appended.overran }

section
variable {C : Type} (iconv : C → Option (List UInt8) → Nat → Seen C) (wfunc : UInt8 → List UInt8)

/-- The loop of `wrbuf_iconv_write2`, for `fuel` rounds at most. -/
def iconvLoop : (fuel : Nat) → C → List UInt8 → Option (Appended C)
  | 0, _, _ => none
  | fuel + 1, cd, inp =>
    if inp = [] then some { added := [], cd := cd, rest := [] }
    else
      let call := iconv cd (some inp) 128
      if call.r = none ∧ call.errno ≠ .e2big then
        some { added := [], failed := true, cd := call.cd, rest := call.inbuf, overran := call.overran }
      else (iconvLoop fuel call.cd call.inbuf).map fun later => later.behind (call.out.flatMap wfunc) call.overran

/-- `wrbuf_iconv_write2` with a descriptor; `wfunc` writes one octet after the other. -/
def wrbufIconvWrite2 (cd : C) (buf : List UInt8) : Option (Appended C) := iconvLoop iconv wfunc (buf.length + 1) cd buf

/-- `wrbuf_iconv_reset` with a descriptor. -/
def wrbufIconvReset (cd : C) : Appended C :=
  let call := iconv cd none 16
  { added := if call.r = none then [] else call.out, cd := call.cd, rest := [] }

def stagedLoop : (fuel : Nat) → C → List UInt8 → List UInt8
  | 0, _, _ => []
  | fuel + 1, cd, inp =>
    if inp = [] then []
    else
      let call := iconv cd (some inp) 128
      if call.full then stagedLoop fuel call.cd call.inbuf else if call.r = none then call.out else []

/-- What the loop may rely on: `during` holds of a descriptor in front of each call, and `idle` of one between two uses. A call ends with
the input or with an error, or it has taken something. -/
structure Serves (idle : C → Prop) where
  during : C → List UInt8 → Prop
  starts : ∀ {cd : C}, idle cd → ∀ inp, during cd inp
  ends : ∀ {cd : C}, during cd [] → idle cd
  stops : ∀ {cd : C} {inp : List UInt8}, inp ≠ [] → during cd inp → ¬ (iconv cd (some inp) 128).full → idle (iconv cd (some inp) 128).cd
  done : ∀ {cd : C} {inp : List UInt8}, inp ≠ [] → during cd inp → (iconv cd (some inp) 128).r ≠ none → (iconv cd (some inp) 128).inbuf = []
  goesOn : ∀ {cd : C} {inp : List UInt8}, inp ≠ [] → during cd inp → (iconv cd (some inp) 128).full →
    (iconv cd (some inp) 128).inbuf.length < inp.length ∧ during (iconv cd (some inp) 128).cd (iconv cd (some inp) 128).inbuf
  flushed : ∀ {cd : C}, idle cd → idle (iconv cd none 16).cd

variable {iconv wfunc}

/-- Calls that go on for want of room, with what they have converted, and the last call. -/
inductive Delivers (iconv : C → Option (List UInt8) → Nat → Seen C) : C → List UInt8 → List UInt8 → Seen C → Prop where
  | last {cd : C} {inp : List UInt8} (notEmpty : inp ≠ []) (within : (iconv cd (some inp) 128).overran = false)
      (ended : ¬ (iconv cd (some inp) 128).full) (done : (iconv cd (some inp) 128).r ≠ none → (iconv cd (some inp) 128).inbuf =
        []) : Delivers iconv cd inp [] (iconv cd (some inp) 128)
  | more {cd : C} {inp front : List UInt8} {final : Seen C} (notEmpty : inp ≠ [])
      (within : (iconv cd (some inp) 128).overran = false) (full : (iconv cd (some inp) 128).full)
      (shorter : (iconv cd (some inp) 128).inbuf.length < inp.length)
      (later : Delivers iconv (iconv cd (some inp) 128).cd (iconv cd (some inp) 128).inbuf front final) :
      Delivers iconv cd inp ((iconv cd (some inp) 128).out ++ front) final

theorem Delivers.loop {cd : C} {inp front : List UInt8} {final : Seen C} (delivers : Delivers iconv cd inp front final) {fuel : Nat}
    (enough : inp.length < fuel) :
    iconvLoop iconv wfunc fuel cd inp =
        some { added := (front ++ if final.r = none then [] else final.out).flatMap wfunc, failed := final.r = none, cd := final.cd
               rest := final.inbuf } ∧
      stagedLoop iconv fuel cd inp = if final.r = none then final.out else [] := by
  induction delivers generalizing fuel with
  | @last cd inp notEmpty within ended done =>
    cases fuel with
    | zero => exact absurd enough (Nat.not_lt_zero _)
    | succ fuel =>
      rw [iconvLoop, if_neg notEmpty, stagedLoop, if_neg notEmpty]
      rw [if_neg ended]
      refine ⟨?_, rfl⟩
      by_cases failed : (iconv cd (some inp) 128).r = none
      · rw [if_pos ⟨failed, fun full => ended ⟨failed, full⟩⟩, if_pos failed]
        simp [failed, within]
      · rw [if_neg (fun stop => failed stop.1), if_neg failed, done failed]
        cases fuel with
        | zero => exact absurd (length_pos_iff.mpr notEmpty) (by omega)
        | succ =>
          rw [iconvLoop, if_pos rfl]
          simp [Appended.behind, failed, within]
  | @more cd inp front final notEmpty within full shorter later ih =>
    cases fuel with
    | zero => exact absurd enough (Nat.not_lt_zero _)
    | succ fuel =>
      obtain ⟨appended, isStaged⟩ := @ih fuel (by omega)
      rw [iconvLoop, if_neg notEmpty, stagedLoop, if_neg notEmpty]
      rw [if_neg (fun stop => stop.2 full.2), appended, if_pos full, isStaged, Option.map_some, Appended.behind]
      simp only [flatMap_append, append_assoc, within, Bool.false_or, and_self]

end

/-- `yaz_iconv_t`, with a decoder and an encoder of its own or with one of the system. -/
inductive Descriptor (S : Type) where
  | builtIn (fromcode : Fromcode) (tocode : Tocode) (cd : Cd fromcode.Data tocode.Data)
  | system (cd : S)

def Descriptor.Opened {S : Type} : Descriptor S → Prop
  | .builtIn _ _ cd => cd.initFlag = true
  | .system _ => True

def Descriptor.seen {S : Type} {fromcode : Fromcode} {tocode : Tocode} (call : Call fromcode.Data tocode.Data) : Seen (Descriptor S) :=
  { cd := .builtIn fromcode tocode call.cd, r := call.r, errno := call.cd.myErrno, inbuf := call.inbuf, out := call.out,
    overran := call.overran }

section
variable (generated : Generated) (junk : Junk) (r : Marc8rConv) {S : Type} (system : S → Option (List UInt8) → Nat → Seen S)

/-- `yaz_iconv`, with `iconv` of the system. -/
def Descriptor.iconv : Descriptor S → Option (List UInt8) → Nat → Seen (Descriptor S)
  | .builtIn fromcode tocode cd, inp, room =>
    Descriptor.seen (yazIconv (fromcode.decoder generated junk) (tocode.encoder r) cd inp (some room))
  | .system cd, inp, room =>
    let call := system cd inp room
    { cd := .system call.cd, r := call.r, errno := call.errno, inbuf := call.inbuf, out := call.out }

/-- What is documented of `iconv`, for a buffer of 128 octets: it converts all, or up to what is illegal or incomplete, or as much as there
is room for, and then goes on from there. -/
structure IconvLaw (convert : S → List UInt8 → List UInt8 × List UInt8) : Prop where
  empty : ∀ cd, convert cd [] = ([], [])
  done : ∀ {cd : S} {inp : List UInt8}, inp ≠ [] → (system cd (some inp) 128).r ≠ none →
    (system cd (some inp) 128).inbuf = [] ∧ convert cd inp = ((system cd (some inp) 128).out, [])
  stopped : ∀ {cd : S} {inp : List UInt8}, inp ≠ [] → (system cd (some inp) 128).r = none → ¬ (system cd (some inp) 128).full →
    (system cd (some inp) 128).inbuf ≠ [] ∧ convert cd inp = ((system cd (some inp) 128).out, (system cd (some inp) 128).inbuf)
  full : ∀ {cd : S} {inp : List UInt8}, inp ≠ [] → (system cd (some inp) 128).full →
    (system cd (some inp) 128).inbuf ≠ [] ∧ (system cd (some inp) 128).inbuf.length < inp.length ∧
      convert cd inp = ((system cd (some inp) 128).out ++ (convert (system cd (some inp) 128).cd (system cd (some inp) 128).inbuf).1,
        (convert (system cd (some inp) 128).cd (system cd (some inp) 128).inbuf).2)

/-- The octets for an input up to what cannot be converted, written with room enough for each code, and what is left there;
`none` where a read takes more octets than there are. -/
def Descriptor.conversion (convert : S → List UInt8 → List UInt8 × List UInt8) :
    Descriptor S → List UInt8 → Option (List UInt8 × List UInt8)
  | .builtIn fromcode tocode cd, inp =>
    (cd.left (fromcode.decoder generated junk) inp).map fun rest =>
      (((tocode.encoder r).inFull (tocode.resumes r).bound (cd.started (tocode.encoder r))
        (cd.toCome (fromcode.decoder generated junk) inp)).1, rest)
  | .system cd, inp => some (convert cd inp)

/-- Each code for which the buffer of 128 octets had no room was refused at a good place. -/
def Descriptor.GoodPlaces : Descriptor S → List UInt8 → Prop
  | .builtIn fromcode tocode cd, inp =>
    GoodRooms (fromcode.decoder generated junk) (tocode.resumes r) cd inp (List.replicate (inp.length + 1) 128)
  | .system _, _ => True

variable {system} {convert : S → List UInt8 → List UInt8 × List UInt8}

def Descriptor.Idle : Descriptor S → Prop
  | .builtIn fromcode tocode cd =>
    cd.initFlag = false → Steady (fromcode.names generated junk) (tocode.roomy r) cd ∧ cd.ungetX = 0
  | .system _ => True

def Descriptor.During : Descriptor S → List UInt8 → Prop
  | .builtIn fromcode tocode cd, inp =>
    cd.initFlag = false → Steady (fromcode.names generated junk) (tocode.roomy r) cd ∧ (cd.ungetX ≠ 0 → inp ≠ [])
  | .system _, _ => True

def Descriptor.serves (law : IconvLaw system convert) :
    Serves (Descriptor.iconv generated junk r system) (Descriptor.Idle generated junk r (S := S)) :=
  { during := Descriptor.During generated junk r
    starts := by
      intro cd idle inp
      cases cd with
      | builtIn fromcode tocode cd => exact fun flag => ⟨(idle flag).1, fun kept => absurd (idle flag).2 kept⟩
      | system cd => trivial
    ends := by
      intro cd during
      cases cd with
      | builtIn fromcode tocode cd => exact fun flag => ⟨(during flag).1, by_contra fun kept => (during flag).2 kept rfl⟩
      | system cd => trivial
    stops := by
      intro cd inp _ during notFull
      cases cd with
      | builtIn fromcode tocode cd =>
        have call := @yazIconv_progressed inp _ _ _ (tocode.encoder r) (fromcode.names generated junk) _ 128 (tocode.roomy r) cd
          fun flag => (during flag).1
        exact fun flag => ⟨call.steady flag, by_contra fun kept => notFull (yazIconv_keptCode kept).2.2⟩
      | system cd => trivial
    done := by
      intro cd inp notEmpty during ended
      cases cd with
      | builtIn fromcode tocode cd =>
        have call := @yazIconv_progressed inp _ _ _ (tocode.encoder r) (fromcode.names generated junk) _ 128 (tocode.roomy r) cd
          fun flag => (during flag).1
        exact (call.done ended).2
      | system cd => exact (law.done notEmpty ended).1
    goesOn := by
      intro cd inp notEmpty during full
      cases cd with
      | builtIn fromcode tocode cd =>
        have call := @yazIconv_progressed inp _ _ _ (tocode.encoder r) (fromcode.names generated junk) _ 128 (tocode.roomy r) cd
          fun flag => (during flag).1
        exact ⟨call.shorter rfl notEmpty full, fun flag => ⟨call.steady flag, call.kept⟩⟩
      | system cd => exact ⟨(law.full notEmpty full).2.1, trivial⟩
    flushed := by
      intro cd idle
      cases cd with
      | builtIn fromcode tocode cd => exact yazIconv_flush_steady idle
      | system cd => trivial }

/-! ### What was converted -/

section
variable {D E : Type} {decoder : Decoder D} {encoder : Encoder E}

end

variable {generated junk r} {fromcode : Fromcode} {tocode : Tocode}

variable (generated junk r convert) in
/-- The conversion of all octets before the first that cannot be converted was appended, and no octet behind the input was read. -/
def Keeps (wfunc : UInt8 → List UInt8) (cd : Descriptor S) (buf : List UInt8) (appended : Appended (Descriptor S)) : Prop :=
  appended.overran = false ∧ ∃ octets rest, cd.conversion generated junk r convert buf = some (octets, rest) ∧
    appended.added = octets.flatMap wfunc ∧ appended.rest = rest ∧ (appended.failed = true ↔ rest ≠ [])

end

def openedUtf8 : Descriptor Unit :=
  .builtIn .utf8 .utf8 { myErrno := .unknown, initFlag := true, noReadX := 0, ungetX := 0, encoder := (), decoder := () }

end Yaz.Wrbuf
