import Yaz.Wrbuf.IconvWrite

/-! The conversion of the general terms of an RPN query: `query-charset.c`.

Of a query only the general terms are looked at. The terms are converted one after the other through one descriptor, in place.
-/

set_option autoImplicit false

namespace Yaz.Wrbuf
open Yaz.Iconv

section
variable {X : Type}

inductive ZTerm (X : Type) where
  | general (buf : List UInt8)
  | other (term : X)
  deriving DecidableEq

inductive ZOperand (X : Type) where
  | apt (attributes : X) (term : ZTerm X)
  | resultSetId (name : X)
  | resultAttr (result : X)
  deriving DecidableEq

/-- `Z_RPNStructure`. -/
inductive ZStructure (X : Type) where
  | simple (operand : ZOperand X)
  | complex (s1 s2 : ZStructure X) (roperator : X)
  deriving DecidableEq

def ZOperand.generals : ZOperand X → List (List UInt8)
  | .apt _ (.general buf) => [buf]
  | _ => []

def ZStructure.generals : ZStructure X → List (List UInt8)
  | .simple operand => operand.generals
  | .complex s1 s2 _ => s1.generals ++ s2.generals

def ZOperand.blank : ZOperand X → ZOperand X
  | .apt attributes (.general _) => .apt attributes (.general [])
  | operand => operand

def ZStructure.blank : ZStructure X → ZStructure X
  | .simple operand => .simple operand.blank
  | .complex s1 s2 roperator => .complex s1.blank s2.blank roperator

end

structure Checked (C A : Type) where
  r : Int
  value : A
  cd : C
  deriving DecidableEq

def Checked.map {C A B : Type} (checked : Checked C A) (f : A → B) : Checked C B :=
  { r := checked.r, value := f checked.value, cd := checked.cd }

section
variable {C X : Type} (iconv : C → Option (List UInt8) → Nat → Seen C)

/-- What `wrbuf_iconv_write` and `wrbuf_iconv_reset` append for a term, and the descriptor behind them. -/
def written (cd : C) (buf : List UInt8) : Option (List UInt8 × C) :=
  (wrbufIconvWrite2 iconv (fun c => [c]) cd buf).map fun wrote =>
    (wrote.added ++ (wrbufIconvReset iconv wrote.cd).added, (wrbufIconvReset iconv wrote.cd).cd)

structure Visit (C : Type) where
  cd : C
  buf : List UInt8
  octets : List UInt8

def stops (list : List (Visit C)) : Bool := list.any fun visit => visit.octets = []

def settle : List (Visit C) → List (List UInt8)
  | [] => []
  | visit :: later => if visit.octets = [] then visit.buf :: later.map Visit.buf else visit.octets :: settle later

variable {iconv} {cd after : C} {list : List (Visit C)}

structure Settled (list : List (Visit C)) (after : C) (q : ZStructure X) (checked : Checked C (ZStructure X)) : Prop where
  r : checked.r = if stops list then -1 else 0
  generals : checked.value.generals = settle list
  blank : checked.value.blank = q.blank
  cd : stops list = false → checked.cd = after

variable (complete : Visit C → Option (List UInt8))

/-- What is asked of the conversion of a query: it succeeds when each term has a complete conversion, with these in place of the terms;
otherwise each term is as it was or has its complete conversion. -/
structure AllOrNothing (q : ZStructure X) (list : List (Visit C)) (checked : Checked C (ZStructure X)) : Prop where
  succeeds : checked.r = 0 ↔ ∀ visit ∈ list, (complete visit).isSome = true
  replaced : (∀ visit ∈ list, (complete visit).isSome = true) →
    checked.value.generals.map some = list.map complete ∧ checked.value.blank = q.blank
  untruncated : (¬ ∀ visit ∈ list, (complete visit).isSome = true) →
    List.Forall₂ (fun visit octets => octets = visit.buf ∨ complete visit = some octets) list checked.value.generals

variable {complete}

end

section
variable (generated : Generated) (junk : Junk) (r : Marc8rConv) {S : Type} (system : S → Option (List UInt8) → Nat → Seen S)

def takesAll {E : Type} (encoder : Encoder E) (bound : E → Nat) (w : E) : List Nat → Bool
  | [] => true
  | x :: xs => !(encoder.writeHandle w x (bound w)).failed && takesAll encoder bound (encoder.writeHandle w x (bound w)).data xs

def Descriptor.takes : Descriptor S → List UInt8 → Bool
  | .builtIn fromcode tocode cd, inp =>
    takesAll (tocode.encoder r) (tocode.resumes r).bound (cd.started (tocode.encoder r)) (cd.toCome (fromcode.decoder generated junk) inp)
  | .system _, _ => true

variable (convert : S → List UInt8 → List UInt8 × List UInt8) (after : S → List UInt8 → S) (reset : S → List UInt8)

/-- The encoder behind the codes of an input, with room enough for each. -/
def encoderBehind {fromcode : Fromcode} {tocode : Tocode} (cd : Cd fromcode.Data tocode.Data) (inp : List UInt8) : tocode.Data :=
  ((tocode.encoder r).inFull (tocode.resumes r).bound (cd.started (tocode.encoder r)) (cd.toCome (fromcode.decoder generated junk) inp)).2

def Descriptor.resetOctets : Descriptor S → List UInt8 → List UInt8
  | .builtIn _ tocode cd, inp =>
    ((tocode.encoder r).flushed (encoderBehind generated junk r cd inp)
      ((tocode.resumes r).bound (encoderBehind generated junk r cd inp))).out
  | .system cd, inp => reset (after cd inp)

/-- The reset behind an input has room in 16 octets. -/
def Descriptor.Resets (system : S → Option (List UInt8) → Nat → Seen S) : Descriptor S → List UInt8 → Prop
  | .builtIn _ tocode cd, inp => ((tocode.encoder r).flushed (encoderBehind generated junk r cd inp) 16).failed = false
  | .system cd, inp => (system (after cd inp) none 16).r ≠ none

/-- The conversion of a whole input, of which the encoder refuses no code, and of the reset behind it. -/
def Descriptor.complete (d : Descriptor S) (inp : List UInt8) : Option (List UInt8) :=
  (d.conversion generated junk r convert inp).bind fun both =>
    if both.2 = [] ∧ d.takes generated junk r inp = true then some (both.1 ++ d.resetOctets generated junk r after reset inp) else none

variable {generated junk r system convert after reset}

variable (generated junk r system convert after) in
/-- What is asked of a term: each code that had no room in the buffer was refused at a good place, no read takes more octets than are left,
and the reset has room. -/
structure Descriptor.Covers (d : Descriptor S) (inp : List UInt8) : Prop where
  places : d.GoodPlaces generated junk r inp
  within : (d.conversion generated junk r convert inp).isSome = true
  resets : d.Resets generated junk r after system inp

instance decidableCovers (generated : Generated) (junk : Junk) (r : Marc8rConv) {S : Type} (system : S → Option (List UInt8) → Nat → Seen S)
    (convert : S → List UInt8 → List UInt8 × List UInt8) (after : S → List UInt8 → S) :
    (d : Descriptor S) → (inp : List UInt8) → Decidable (d.Covers generated junk r system convert after inp)
  | .builtIn fromcode tocode cd, inp =>
    have : Decidable ((Descriptor.builtIn fromcode tocode cd : Descriptor S).GoodPlaces generated junk r inp) :=
      inferInstanceAs (Decidable (GoodRooms _ _ _ _ _))
    have : Decidable ((Descriptor.builtIn fromcode tocode cd).Resets generated junk r after system inp) :=
      inferInstanceAs (Decidable (_ = false))
    decidable_of_iff (_ ∧ _ ∧ _) ⟨fun is => ⟨is.1, is.2.1, is.2.2⟩, fun is => ⟨is.1, is.2, is.3⟩⟩
  | .system cd, inp =>
    have : Decidable ((Descriptor.system cd).Resets generated junk r after system inp) := inferInstanceAs (Decidable (_ ≠ none))
    decidable_of_iff (_ ∧ _) ⟨fun is => ⟨trivial, is.1, is.2⟩, fun is => ⟨is.2, is.3⟩⟩

end

end Yaz.Wrbuf
