import Mathlib.Data.List.Basic

/-! The Greek character sets of `iso5428.c` and `advancegreek.c`.

The decoders collect accents, and in one set a shift, in any order before a letter. An octet that is no letter stands for
itself, and the encoders write each code below 256 as it is.
-/

set_option autoImplicit false

open List

namespace Yaz.Iconv.Greek

/-- The codes of an octet: without accent, with `tonos`, with `dialitika`, and with both. -/
structure GreekLetter where
  octet : UInt8
  plain : Nat
  tonos : Nat
  dialitika : Nat
  both : Nat

def letter (octet : UInt8) (x : Nat) : GreekLetter := ⟨octet, x, x, x, x⟩

def accented (octet : UInt8) (plain tonos : Nat) : GreekLetter := ⟨octet, plain, tonos, plain, tonos⟩

def GreekLetter.code (l : GreekLetter) (tonos dialitika : Bool) : Nat :=
  if tonos then if dialitika then l.both else l.tonos else if dialitika then l.dialitika else l.plain

/-- What the two codecs have in common: the octets of the accents and of the shift, the letters with and without a shift, and
the codes that the encoder has octets for. -/
structure GreekCodec where
  tonos : UInt8
  dialitika : UInt8
  shift : Option UInt8
  letters : (shift : Bool) → List GreekLetter
  written : List (Nat × List UInt8)

/-- The `switch` of `read_iso_5428_1984`. -/
def iso5428Letters : List GreekLetter :=
  [accented 0xe1 0x03b1 0x03ac, accented 0xc1 0x0391 0x0386, letter 0xe2 0x03b2, letter 0xc2 0x0392, letter 0xe4 0x03b3, letter 0xc4 0x0393,
    letter 0xe5 0x03b4, letter 0xc5 0x0394, accented 0xe6 0x03b5 0x03ad, accented 0xc6 0x0395 0x0388, letter 0xe9 0x03b6,
      letter 0xc9 0x0396,
    accented 0xea 0x03b7 0x03ae, accented 0xca 0x0397 0x0389, letter 0xeb 0x03b8, letter 0xcb 0x0398,
      ⟨0xec, 0x03b9, 0x03af, 0x03ca, 0x0390⟩,
    ⟨0xcc, 0x0399, 0x038a, 0x03aa, 0x038a⟩, letter 0xed 0x03ba, letter 0xcd 0x039a, letter 0xee 0x03bb, letter 0xce 0x039b,
      letter 0xef 0x03bc,
    letter 0xcf 0x039c, letter 0xf0 0x03bd, letter 0xd0 0x039d, letter 0xf1 0x03be, letter 0xd1 0x039e, accented 0xf2 0x03bf 0x03cc,
    accented 0xd2 0x039f 0x038c, letter 0xf3 0x03c0, letter 0xd3 0x03a0, letter 0xf5 0x03c1, letter 0xd5 0x03a1, letter 0xf7 0x03c2,
    letter 0xf6 0x03c3, letter 0xd6 0x03a3, letter 0xf8 0x03c4, letter 0xd8 0x03a4, ⟨0xf9, 0x03c5, 0x03cd, 0x03cb, 0x03b0⟩,
    ⟨0xd9, 0x03a5, 0x038e, 0x03ab, 0x038e⟩, letter 0xfa 0x03c6, letter 0xda 0x03a6, letter 0xfb 0x03c7, letter 0xdb 0x03a7,
      letter 0xfc 0x03c8,
    letter 0xdc 0x03a8, accented 0xfd 0x03c9 0x03ce, accented 0xdd 0x03a9 0x038f]

/-- The `switch` of `read_advancegreek` without `shift`. -/
def advanceGreekSmall : List GreekLetter :=
  [accented 0x81 0x03b1 0x03ac, letter 0x82 0x03b2, letter 0x83 0x03b3, letter 0x84 0x03b4, accented 0x85 0x03b5 0x03ad, letter 0x86 0x03b6,
    accented 0x87 0x03b7 0x03ae, letter 0x88 0x03b8, ⟨0x89, 0x03b9, 0x03af, 0x03ca, 0x0390⟩, letter 0x8a 0x03ba, letter 0x8b 0x03bb,
    letter 0x8c 0x03bc, letter 0x8d 0x03bd, letter 0x8e 0x03be, accented 0x8f 0x03bf 0x03cc, letter 0x90 0x03c0, letter 0x91 0x03c1,
    letter 0x92 0x03c2, letter 0x93 0x03c3, letter 0x94 0x03c4, ⟨0x95, 0x03c5, 0x03cd, 0x03cb, 0x03b0⟩, letter 0x96 0x03c6,
      letter 0x97 0x03c7,
    letter 0x98 0x03c8, accented 0x99 0x03c9 0x03ce]

/-- The same with `shift`. -/
def advanceGreekCapital : List GreekLetter :=
  [accented 0x81 0x0391 0x0386, letter 0x82 0x0392, letter 0x83 0x0393, letter 0x84 0x0394, accented 0x85 0x0395 0x0388, letter 0x86 0x0396,
    accented 0x87 0x0397 0x0389, letter 0x88 0x0398, ⟨0x89, 0x0399, 0x038a, 0x03aa, 0x038a⟩, letter 0x8a 0x039a, letter 0x8b 0x039b,
    letter 0x8c 0x039c, letter 0x8d 0x039d, letter 0x8e 0x039e, accented 0x8f 0x039f 0x038c, letter 0x90 0x03a0, letter 0x91 0x03a1,
    letter 0x92 0x03c2, letter 0x93 0x03a3, letter 0x94 0x03a4, ⟨0x95, 0x03a5, 0x038e, 0x03ab, 0x038e⟩, letter 0x96 0x03a6,
      letter 0x97 0x03a7,
    letter 0x98 0x03a8, accented 0x99 0x03a9 0x038f]

/-- The `switch` of `write_iso_5428_1984`. -/
def iso5428Written : List (Nat × List UInt8) :=
  [(0x03ac, [0xa2, 0xe1]), (0x03b1, [0xe1]), (0x0386, [0xa2, 0xc1]), (0x0391, [0xc1]), (0x03b2, [0xe2]), (0x0392, [0xc2]), (0x03b3, [0xe4]),
    (0x0393, [0xc4]), (0x03b4, [0xe5]), (0x0394, [0xc5]), (0x03ad, [0xa2, 0xe6]), (0x03b5, [0xe6]),
      (0x0388, [0xa2, 0xc6]), (0x0395, [0xc6]),
    (0x03b6, [0xe9]), (0x0396, [0xc9]), (0x03ae, [0xa2, 0xea]), (0x03b7, [0xea]), (0x0389, [0xa2, 0xca]),
      (0x0397, [0xca]), (0x03b8, [0xeb]),
    (0x0398, [0xcb]), (0x0390, [0xa2, 0xa3, 0xec]), (0x03af, [0xa2, 0xec]), (0x03ca, [0xa3, 0xec]), (0x03b9, [0xec]),
      (0x038a, [0xa2, 0xcc]),
    (0x03aa, [0xa3, 0xcc]), (0x0399, [0xcc]), (0x03ba, [0xed]), (0x039a, [0xcd]), (0x03bb, [0xee]), (0x039b, [0xce]), (0x03bc, [0xef]),
    (0x039c, [0xcf]), (0x03bd, [0xf0]), (0x039d, [0xd0]), (0x03be, [0xf1]), (0x039e, [0xd1]), (0x03cc, [0xa2, 0xf2]), (0x03bf, [0xf2]),
    (0x038c, [0xa2, 0xd2]), (0x039f, [0xd2]), (0x03c0, [0xf3]), (0x03a0, [0xd3]), (0x03c1, [0xf5]), (0x03a1, [0xd5]), (0x03c2, [0xf7]),
    (0x03c3, [0xf6]), (0x03a3, [0xd6]), (0x03c4, [0xf8]), (0x03a4, [0xd8]), (0x03b0, [0xa2, 0xa3, 0xf9]), (0x03cd, [0xa2, 0xf9]),
    (0x03cb, [0xa3, 0xf9]), (0x03c5, [0xf9]), (0x038e, [0xa2, 0xd9]), (0x03ab, [0xa3, 0xd9]), (0x03a5, [0xd9]), (0x03c6, [0xfa]),
    (0x03a6, [0xda]), (0x03c7, [0xfb]), (0x03a7, [0xdb]), (0x03c8, [0xfc]), (0x03a8, [0xdc]), (0x03ce, [0xa2, 0xfd]), (0x03c9, [0xfd]),
    (0x038f, [0xa2, 0xdd]), (0x03a9, [0xdd])]

/-- The `switch` of `write_advancegreek`. -/
def advanceGreekWritten : List (Nat × List UInt8) :=
  [(0x03ac, [0x9d, 0x81]), (0x03ad, [0x9d, 0x85]), (0x03ae, [0x9d, 0x87]), (0x03af, [0x9d, 0x89]), (0x03cc, [0x9d, 0x8f]),
    (0x03cd, [0x9d, 0x95]), (0x03ce, [0x9d, 0x99]), (0x0390, [0x9d, 0x9e, 0x89]), (0x03b0, [0x9d, 0x9e, 0x95]),
      (0x0386, [0x9d, 0x9f, 0x81]),
    (0x0388, [0x9d, 0x9f, 0x85]), (0x0389, [0x9d, 0x9f, 0x87]), (0x038a, [0x9d, 0x9f, 0x89]), (0x038c, [0x9d, 0x9f, 0x8f]),
    (0x038e, [0x9d, 0x9f, 0x95]), (0x038f, [0x9d, 0x9f, 0x99]), (0x03ca, [0x9e, 0x89]), (0x03cb, [0x9e, 0x95]),
      (0x03aa, [0x9e, 0x9f, 0x89]),
    (0x03ab, [0x9e, 0x9f, 0x95]), (0x0391, [0x9f, 0x81]), (0x0392, [0x9f, 0x82]), (0x0393, [0x9f, 0x83]), (0x0394, [0x9f, 0x84]),
    (0x0395, [0x9f, 0x85]), (0x0396, [0x9f, 0x86]), (0x0397, [0x9f, 0x87]), (0x0398, [0x9f, 0x88]), (0x0399, [0x9f, 0x89]),
    (0x039a, [0x9f, 0x8a]), (0x039b, [0x9f, 0x8b]), (0x039c, [0x9f, 0x8c]), (0x039d, [0x9f, 0x8d]), (0x039e, [0x9f, 0x8e]),
    (0x039f, [0x9f, 0x8f]), (0x03a0, [0x9f, 0x90]), (0x03a1, [0x9f, 0x91]), (0x03a3, [0x9f, 0x93]), (0x03a4, [0x9f, 0x94]),
    (0x03a5, [0x9f, 0x95]), (0x03a6, [0x9f, 0x96]), (0x03a7, [0x9f, 0x97]), (0x03a8, [0x9f, 0x98]),
      (0x03a9, [0x9f, 0x99]), (0x03b1, [0x81]),
    (0x03b2, [0x82]), (0x03b3, [0x83]), (0x03b4, [0x84]), (0x03b5, [0x85]), (0x03b6, [0x86]), (0x03b7, [0x87]), (0x03b8, [0x88]),
    (0x03b9, [0x89]), (0x03ba, [0x8a]), (0x03bb, [0x8b]), (0x03bc, [0x8c]), (0x03bd, [0x8d]), (0x03be, [0x8e]), (0x03bf, [0x8f]),
    (0x03c0, [0x90]), (0x03c1, [0x91]), (0x03c2, [0x92]), (0x03c3, [0x93]), (0x03c4, [0x94]), (0x03c5, [0x95]), (0x03c6, [0x96]),
    (0x03c7, [0x97]), (0x03c8, [0x98]), (0x03c9, [0x99])]

def iso5428 : GreekCodec :=
  { tonos := 0xa2, dialitika := 0xa3, shift := none, letters := fun _ => iso5428Letters, written := iso5428Written }

def advanceGreek : GreekCodec :=
  { tonos := 0x9d, dialitika := 0x9e, shift := some 0x9f, letters := fun shift => if shift then advanceGreekCapital else advanceGreekSmall,
    written := advanceGreekWritten }

namespace GreekCodec

/-! ### Reading and writing -/

def isMark (codec : GreekCodec) (c : UInt8) : Bool := c = codec.tonos || c = codec.dialitika || some c = codec.shift

/-- The loop over the marks: those that were there, the octet behind them, and the number of octets. -/
def readMarks (codec : GreekCodec) : (inp marks : List UInt8) → Option (List UInt8 × UInt8 × Nat)
  | [], _ => none
  | c :: inp, marks => if codec.isMark c then codec.readMarks inp (c :: marks) else some (marks, c, marks.length + 1)

/-- The `switch`; the default is the octet itself. -/
def letterCode (codec : GreekCodec) (marks : List UInt8) (c : UInt8) : Nat :=
  match (codec.letters (codec.shift.any (· ∈ marks))).find? fun l => l.octet = c with
  | some l => l.code (codec.tonos ∈ marks) (codec.dialitika ∈ marks)
  | none => c.toNat

/-- `read_iso_5428_1984`, `read_advancegreek`: the code and the number of octets, or `YAZ_ICONV_EINVAL`. -/
def read (codec : GreekCodec) (inp : List UInt8) : Option (Nat × Nat) :=
  (codec.readMarks inp []).map fun r => (codec.letterCode r.1 r.2.1, r.2.2)

/-- `write_iso_5428_1984`, `write_advancegreek`: the octets, or an error. -/
def write (codec : GreekCodec) (outbytesleft x : Nat) : Option (List UInt8) :=
  if outbytesleft < 3 then none
  else
    match codec.written.find? fun e => e.1 = x with
    | some e => some e.2
    | none => if 255 < x then none else some [UInt8.ofNat x]

def writeAll (codec : GreekCodec) : (outbytesleft : Nat) → (codes : List Nat) → Option (List UInt8)
  | _, [] => some []
  | outbytesleft, x :: codes =>
    (codec.write outbytesleft x).bind fun out => (codec.writeAll (outbytesleft - out.length) codes).map (out ++ ·)

def readAll (codec : GreekCodec) : (rounds : Nat) → (inp : List UInt8) → Option (List Nat)
  | _, [] => some []
  | 0, _ :: _ => none
  | rounds + 1, c :: inp => (codec.read (c :: inp)).bind fun r => (codec.readAll rounds ((c :: inp).drop r.2)).map (r.1 :: ·)

/-- A code of one octet that is read as a mark or a letter. -/
def Taken (codec : GreekCodec) (x : Nat) : Prop :=
  ∃ c : UInt8, c.toNat = x ∧ (codec.isMark c = true ∨ ∃ l ∈ codec.letters false, l.octet = c)

structure Proper (codec : GreekCodec) : Prop where
  same : (codec.letters true).map GreekLetter.octet = (codec.letters false).map GreekLetter.octet
  large : ∀ shift, ∀ l ∈ codec.letters shift, ∀ tonos dialitika, 255 < l.code tonos dialitika
  codes : ∀ e ∈ codec.written, 255 < e.1
  reads : ∀ e ∈ codec.written, codec.read e.2 = some (e.1, e.2.length)

theorem iso5428_proper : iso5428.Proper where
  same := rfl
  large := by decide
  codes := by decide
  reads := by decide

theorem advanceGreek_proper : advanceGreek.Proper where
  same := by decide
  large := by decide
  codes := by decide
  reads := by decide

variable {codec : GreekCodec} {inp out : List UInt8} {codes : List Nat}

theorem readMarks_append {marks : List UInt8} {r : List UInt8 × UInt8 × Nat} (read : codec.readMarks inp marks = some r)
    (rest : List UInt8) :
    codec.readMarks (inp ++ rest) marks = some r := by
  induction inp generalizing marks with
  | nil => cases read
  | cons _ _ ih =>
    rw [readMarks] at read
    rw [cons_append, readMarks]
    split at read
    · rw [if_pos ‹_›]
      exact ih read
    · rwa [if_neg ‹_›]

theorem read_append {r : Nat × Nat} (read : codec.read inp = some r) (rest : List UInt8) : codec.read (inp ++ rest) = some r := by
  obtain ⟨found, marks, rfl⟩ := Option.map_eq_some_iff.mp read
  rw [GreekCodec.read, readMarks_append marks rest]
  rfl

theorem readMarks_noRead {marks : List UInt8} {r : List UInt8 × UInt8 × Nat} (read : codec.readMarks inp marks = some r) :
    marks.length < r.2.2 ∧ r.2.2 ≤ marks.length + inp.length := by
  induction inp generalizing marks with
  | nil => cases read
  | cons _ _ ih =>
    rw [readMarks] at read
    split at read
    · have behind := ih read
      rw [length_cons] at behind ⊢
      omega
    · cases read
      exact ⟨Nat.lt_succ_self _, Nat.add_le_add_left (Nat.succ_pos _) _⟩

theorem read_noRead {r : Nat × Nat} (read : codec.read inp = some r) : 0 < r.2 ∧ r.2 ≤ inp.length := by
  obtain ⟨found, marks, rfl⟩ := Option.map_eq_some_iff.mp read
  simpa using readMarks_noRead marks

/-- What is behind the marks is no mark. -/
theorem readMarks_octet {marks : List UInt8} {r : List UInt8 × UInt8 × Nat} (read : codec.readMarks inp marks = some r) :
    codec.isMark r.2.1 = false := by
  induction inp generalizing marks with
  | nil => cases read
  | cons _ _ ih =>
    rw [readMarks] at read
    split at read
    · exact ih read
    · cases read
      exact Bool.eq_false_iff.mpr ‹_›

theorem letters_octet (proper : codec.Proper) {shift : Bool} {c : UInt8} :
    (∃ l ∈ codec.letters shift, l.octet = c) ↔ ∃ l ∈ codec.letters false, l.octet = c := by
  rw [← mem_map, ← mem_map]
  cases shift with
  | false => exact Iff.rfl
  | true => rw [proper.same]

/-- No code that is read is one that is taken. -/
theorem not_taken_of_read (proper : codec.Proper) {r : Nat × Nat} (read : codec.read inp = some r) : ¬codec.Taken r.1 := by
  obtain ⟨⟨marks, c, n⟩, found, rfl⟩ := Option.map_eq_some_iff.mp read
  rintro ⟨d, same, taken⟩
  change d.toNat = codec.letterCode marks c at same
  rw [letterCode] at same
  split at same
  · have large := proper.large _ _ (mem_of_find?_eq_some ‹_›) (codec.tonos ∈ marks) (codec.dialitika ∈ marks)
    have := d.toNat_lt
    omega
  · have none := find?_eq_none.mp ‹_›
    obtain rfl := UInt8.toNat_inj.mp same
    rcases taken with mark | isLetter
    · rw [readMarks_octet found] at mark
      cases mark
    · obtain ⟨l, member, octet⟩ := (letters_octet proper).mpr isLetter
      exact none l member (decide_eq_true octet)

/-- A code that is not taken is read from its octets, whatever is behind them. -/
theorem read_write (proper : codec.Proper) {outbytesleft x : Nat} (writes : codec.write outbytesleft x = some out) (free : ¬codec.Taken x) :
    out ≠ [] ∧ ∀ rest, codec.read (out ++ rest) = some (x, out.length) := by
  rw [write] at writes
  split at writes
  · cases writes
  · split at writes
    · obtain rfl := Option.some.inj writes
      rename_i e found
      have reads := proper.reads e (mem_of_find?_eq_some found)
      have code : e.1 = x := by simpa using find?_some found
      rw [code] at reads
      refine ⟨fun none => ?_, read_append reads⟩
      rw [none] at reads
      cases reads
    · split at writes
      · cases writes
      · obtain rfl := Option.some.inj writes
        have small : (UInt8.ofNat x).toNat = x := by
          rw [UInt8.toNat_ofNat']
          exact Nat.mod_eq_of_lt (by omega)
        have noMark : codec.isMark (UInt8.ofNat x) = false := Bool.eq_false_iff.mpr fun mark => free ⟨_, small, .inl mark⟩
        have noLetter : (codec.letters (codec.shift.any (· ∈ ([] : List UInt8)))).find? (fun l => l.octet = UInt8.ofNat x) = none :=
          find?_eq_none.mpr fun l member octet =>
            free ⟨_, small, .inr ((letters_octet proper).mp ⟨l, member, of_decide_eq_true octet⟩)⟩
        refine ⟨cons_ne_nil _ _, fun rest => ?_⟩
        have stops : codec.readMarks (UInt8.ofNat x :: rest) [] = some ([], UInt8.ofNat x, 1) := by simp [readMarks, noMark]
        rw [singleton_append, read, stops, Option.map_some, letterCode, noLetter]
        simp [small]

theorem not_taken_of_readAll (proper : codec.Proper) {rounds : Nat} (reads : codec.readAll rounds inp = some codes) :
    ∀ x ∈ codes, ¬codec.Taken x := by
  induction rounds generalizing inp codes with
  | zero =>
    cases inp with
    | nil => cases reads; simp
    | cons => cases reads
  | succ _ ih =>
    cases inp with
    | nil => cases reads; simp
    | cons =>
      obtain ⟨r, read, reads⟩ := Option.bind_eq_some_iff.mp reads
      obtain ⟨later, others, rfl⟩ := Option.map_eq_some_iff.mp reads
      intro x member
      rcases mem_cons.mp member with rfl | member
      · exact not_taken_of_read proper read
      · exact ih others x member

theorem readAll_writeAll (proper : codec.Proper) {outbytesleft : Nat} (writes : codec.writeAll outbytesleft codes = some out)
    (free : ∀ x ∈ codes, ¬codec.Taken x) {rounds : Nat} (enough : out.length ≤ rounds) : codec.readAll rounds out = some codes := by
  induction codes generalizing outbytesleft out rounds with
  | nil =>
    cases writes
    cases rounds <;> rfl
  | cons x _ ih =>
    obtain ⟨first, one, writes⟩ := Option.bind_eq_some_iff.mp writes
    obtain ⟨later, follows, rfl⟩ := Option.map_eq_some_iff.mp writes
    obtain ⟨nonempty, reads⟩ := read_write proper one (free x mem_cons_self)
    obtain ⟨c, others, rfl⟩ := exists_cons_of_ne_nil nonempty
    rw [length_append, length_cons] at enough
    obtain ⟨rounds, rfl⟩ := Nat.exists_eq_succ_of_ne_zero (show rounds ≠ 0 by omega)
    rw [cons_append, readAll, ← cons_append, reads, Option.bind_some]
    rw [drop_left, ih follows (fun y member => free y (mem_cons_of_mem x member)) (by omega)]
    rfl

end GreekCodec

inductive GreekSet where
  | iso5428
  | advanceGreek

def GreekSet.codec : GreekSet → GreekCodec
  | .iso5428 => Greek.iso5428
  | .advanceGreek => Greek.advanceGreek

/-- What the encoder writes comes back from the decoder exactly when none of the codes below 256 is one that the decoder takes
for a mark or for a letter. -/
theorem readAll_writeAll_iff (set : GreekSet) {outbytesleft : Nat} {codes : List Nat} {out : List UInt8}
    (writes : set.codec.writeAll outbytesleft codes = some out) :
    set.codec.readAll out.length out = some codes ↔ ∀ x ∈ codes, ¬set.codec.Taken x := by
  have proper : set.codec.Proper := by
    cases set with
    | iso5428 => exact GreekCodec.iso5428_proper
    | advanceGreek => exact GreekCodec.advanceGreek_proper
  exact ⟨GreekCodec.not_taken_of_readAll proper, fun free => GreekCodec.readAll_writeAll proper writes free (Nat.le_refl _)⟩

theorem readAll_writeAll_alpha : GreekSet.iso5428.codec.readAll 3 [0xa2, 0xe1, 65] = some [0x03ac, 65] ↔
    ∀ x ∈ [0x03ac, 65], ¬GreekSet.iso5428.codec.Taken x :=
  @readAll_writeAll_iff .iso5428 10 [0x03ac, 65] [0xa2, 0xe1, 65] (by decide)

/-- The pound sign in front of an alpha is swallowed as its accent. -/
theorem readAll_writeAll_pound : ¬∀ out, GreekSet.iso5428.codec.writeAll 10 [0xa2, 0x03b1] = some out →
    GreekSet.iso5428.codec.readAll out.length out = some [0xa2, 0x03b1] := by
  intro comes
  exact absurd (comes [0xa2, 0xe1] (by decide)) (by decide)

end Yaz.Iconv.Greek
