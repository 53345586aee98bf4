import Yaz.Iconv.Utf8Canonical

/-! Conversion from UTF-8 to UTF-8.

Each round of `yaz_iconv` takes the octets of one code and writes the same octets. What comes
before the first round is `init_utf8`, which is to skip a byte order mark.
-/

set_option autoImplicit false

namespace Yaz.Iconv
open List

theorem yazReadUTF8Char_noRead_pos {inp : List UInt8} (ok : (yazReadUTF8Char inp).errno = some .ok) :
    0 < (yazReadUTF8Char inp).noRead := by
  obtain ⟨x, -, read, -⟩ := yazReadUTF8Char_ok ok
  rw [read]
  simp only [utf8Encoded_length]
  omega

/-- `yaz_utf8_check`, of the octets in front of the NUL. -/
def yazUtf8Check (inp : List UInt8) : Bool :=
  if inp = [] then true
  else if (yazReadUTF8Char inp).errno = some .ok then yazUtf8Check (inp.drop (yazReadUTF8Char inp).noRead)
  else false
termination_by inp.length
decreasing_by
  rename_i notEmpty ok
  have some_ := List.length_pos_iff.mpr notEmpty
  have read := yazReadUTF8Char_noRead_pos ok
  rw [List.length_drop]
  omega

theorem codes_of_check {inp : List UInt8} (valid : yazUtf8Check inp = true) :
    ∃ codes : List Nat, (∀ x ∈ codes, x < 2 ^ 31) ∧ inp = codes.flatMap utf8Encoded := by
  fun_induction yazUtf8Check inp with
  | case1 => exact ⟨[], by simp, by simp⟩
  | case2 inp notEmpty ok ih =>
    obtain ⟨codes, small, rest⟩ := ih valid
    obtain ⟨x, below, read, written⟩ := yazReadUTF8Char_ok ok
    refine ⟨x :: codes, forall_mem_cons.mpr ⟨below, small⟩, ?_⟩
    rw [flatMap_cons, ← rest, written, read]
    exact (take_append_drop _ _).symm
  | case3 => simp at valid

theorem codes_ne_zero {codes : List Nat} (noNul : ∀ c ∈ codes.flatMap utf8Encoded, c ≠ 0) : ∀ x ∈ codes, x ≠ 0 := by
  rintro x inside rfl
  exact noNul 0 (mem_flatMap.mpr ⟨0, inside, by decide⟩) rfl

/-- The handles that `yaz_utf8_decoder` sets. -/
def utf8Decoder : Decoder Unit := { statelessDecoder yazReadUTF8Char with initHandle := initUtf8 }

theorem utf8Decoder_read {inp : List UInt8} {x n : Nat} (ok : yazReadUTF8Char inp = { x := x, noRead := n, errno := some .ok })
    (data : Unit) : utf8Decoder.readHandle data inp = { x := x, noRead := n, data := (), errno := some .ok } := by
  simp only [utf8Decoder, statelessDecoder, ok]

theorem convert_utf8 {codes : List Nat} (some_ : ∀ x ∈ codes, x < 2 ^ 31 ∧ x ≠ 0) {cd : Cd Unit Unit} (none : cd.ungetX = 0)
    (start : Nat) {room : Nat} (enough : (codes.flatMap utf8Encoded).length ≤ room) :
    let call := convert utf8Decoder utf8Encoder start cd (codes.flatMap utf8Encoded) room
    call.r = some start ∧ call.inbuf = [] ∧ call.out = codes.flatMap utf8Encoded := by
  induction codes generalizing cd room with
  | nil =>
    rw [flatMap_nil, convert, if_pos ⟨none, rfl⟩]
    exact ⟨rfl, rfl, rfl⟩
  | cons x codes ih =>
    rw [forall_mem_cons] at some_
    obtain ⟨⟨small, notZero⟩, later⟩ := some_
    rw [flatMap_cons, length_append] at enough
    have first : (utf8Encoded x).length = utf8More x + 1 := utf8Encoded_length x
    have notDone : ¬ (cd.ungetX = 0 ∧ utf8Encoded x ++ codes.flatMap utf8Encoded = []) := by
      rintro ⟨-, empty⟩
      have := congrArg List.length empty
      simp [first] at this
    have read := utf8Decoder_read (yazReadUTF8Char_text small (codes.flatMap utf8Encoded)) cd.decoder
    have written (data : Unit) : writeUTF8 data x room = { out := utf8Encoded x, data := (), errno := some .ok } := by
      rw [writeUTF8, yazWriteUTF8Char_eq, if_pos (by omega)]
    rw [flatMap_cons, convert, if_neg notDone, Cd.round_read _ none, read]
    simp only [Cd.write, if_neg notZero]
    rw [if_neg (by rintro ⟨-, nothing⟩; omega)]
    rw [show utf8Encoder.writeHandle = writeUTF8 from rfl, written]
    simp only [Cd.wrote, Bool.false_eq_true, false_and, if_false, length_append, drop_left]
    rw [if_neg (by omega)]
    obtain ⟨ends, nothing, out⟩ := @ih later
      { cd with myErrno := .ok, encoder := (), decoder := (), ungetX := 0 } rfl (room - (utf8Encoded x).length) (by omega)
    exact ⟨ends, nothing, congrArg (utf8Encoded x ++ ·) out⟩

theorem convert_check {text : List UInt8} (valid : yazUtf8Check text = true) (noNul : ∀ c ∈ text, c ≠ 0)
    {cd : Cd Unit Unit} (none : cd.ungetX = 0) (start : Nat) {room : Nat} (enough : text.length ≤ room) :
    let call := convert utf8Decoder utf8Encoder start cd text room
    call.r = some start ∧ call.inbuf = [] ∧ call.out = text := by
  obtain ⟨codes, small, rfl⟩ := codes_of_check valid
  exact convert_utf8 (fun x inside => ⟨small x inside, codes_ne_zero noNul x inside⟩) none start enough

theorem check_mark {rest : List UInt8} (valid : yazUtf8Check (0xef :: rest) = true) :
    ∃ b c tail, rest = b :: c :: tail ∧ yazUtf8Check tail = true := by
  rw [yazUtf8Check, if_neg (by simp)] at valid
  split at valid
  next ok =>
    rw [yazReadUTF8Char_first (n := 2) (f := 15) (by omega) (by omega) (by decide) (by decide)] at ok valid
    split at ok
    next within =>
      obtain ⟨x, read, -⟩ := utf8Sequence_ok within ok
      rw [read] at valid
      match rest, within with
      | b :: c :: tail, _ => exact ⟨b, c, tail, rfl, valid⟩
    · simp at ok
  · simp at valid

def withoutMark : List UInt8 → List UInt8
  | 0xef :: 0xbb :: 0xbf :: rest => rest
  | text => text

theorem withoutMark_of_ne {text : List UInt8} (other : ∀ rest, text ≠ 0xef :: 0xbb :: 0xbf :: rest) :
    withoutMark text = text := by
  unfold withoutMark
  split
  next rest => exact absurd rfl (other rest)
  · rfl

/-- Where `init_utf8` skips octets, or leaves a byte order mark. -/
def startsLikeMark (text : List UInt8) : Bool := text.head? = some 0xef ∧ (text.drop 2).head? = some 0xbf

def Preserved (cd : Cd Unit Unit) (text : List UInt8) (room : Nat) : Prop :=
  let call := yazIconv utf8Decoder utf8Encoder cd (some text) (some room)
  call.r = some text.length ∧ call.inbuf = [] ∧ call.out = withoutMark text

theorem yazIconv_opened {cd : Cd Unit Unit} (fresh : cd.initFlag = true) {text : List UInt8} {noRead : Nat}
    (ready : initUtf8 () text = .ready () noRead) (room : Nat) :
    yazIconv utf8Decoder utf8Encoder cd (some text) (some room) =
      convert utf8Decoder utf8Encoder text.length
        { cd with myErrno := .unknown, ungetX := 0, noReadX := 0, initFlag := false } (text.drop noRead) room := by
  have opens : utf8Decoder.initHandle cd.decoder text = .ready () noRead := ready
  rw [yazIconv, if_pos fresh]
  simp only [Option.getD_some, opens]
  rfl

/-- A string is preserved unless its first octet is that of a byte order mark and its third one too: a byte order mark
stays, and other three octets of that kind are left out. -/
theorem preserved_iff {cd : Cd Unit Unit} (fresh : cd.initFlag = true) {text : List UInt8}
    (valid : yazUtf8Check text = true) (noNul : ∀ c ∈ text, c ≠ 0) {room : Nat} (enough : text.length ≤ room) :
    Preserved cd text room ↔ startsLikeMark text = false := by
  unfold Preserved
  dsimp only
  by_cases marked : text.head? = some 0xef
  · obtain ⟨rest, rfl⟩ : ∃ rest, text = 0xef :: rest := head?_eq_some_iff.mp marked
    obtain ⟨b, c, tail, rfl, validTail⟩ := check_mark valid
    by_cases last : c = 0xbf
    · have like : startsLikeMark (0xef :: b :: c :: tail) = true := by simp [startsLikeMark, last]
      rw [like]
      simp only [Bool.true_eq_false, iff_false]
      rintro ⟨-, -, out⟩
      by_cases mark : b = 0xbb
      · -- the byte order mark is not taken for one
        have ready : initUtf8 () (0xef :: b :: c :: tail) = .ready () 0 := by simp [initUtf8, mark]
        rw [yazIconv_opened fresh ready, drop_zero, (convert_check valid noNul rfl _ enough).2.2, mark, last] at out
        have lengths := congrArg List.length out
        simp only [withoutMark, length_cons] at lengths
        omega
      · have ready : initUtf8 () (0xef :: b :: c :: tail) = .ready () 3 := by simp [initUtf8, mark, last]
        have fewer : ∀ c ∈ tail, c ≠ 0 := fun c inside => noNul c (by simp [inside])
        have isEnough : tail.length ≤ room := by
          simp only [length_cons] at enough
          omega
        have kept : withoutMark (0xef :: b :: c :: tail) = 0xef :: b :: c :: tail := withoutMark_of_ne (by simp [mark])
        rw [yazIconv_opened fresh ready, kept] at out
        have less := (@convert_check tail validTail fewer
          { cd with myErrno := .unknown, ungetX := 0, noReadX := 0, initFlag := false } rfl
          (0xef :: b :: c :: tail).length room isEnough).2.2
        have lengths := congrArg List.length (less.symm.trans out)
        simp only [length_cons] at lengths
        omega
    · have like : startsLikeMark (0xef :: b :: c :: tail) = false := by simp [startsLikeMark, last]
      have ready : initUtf8 () (0xef :: b :: c :: tail) = .ready () 0 := by simp [initUtf8, last]
      have kept : withoutMark (0xef :: b :: c :: tail) = 0xef :: b :: c :: tail := withoutMark_of_ne (by simp [last])
      rw [like, yazIconv_opened fresh ready, drop_zero, kept]
      exact iff_of_true (convert_check valid noNul rfl _ enough) rfl
  · have like : startsLikeMark text = false := by simp [startsLikeMark, marked]
    have ready : initUtf8 () text = .ready () 0 := by simp [initUtf8, marked]
    have kept : withoutMark text = text := withoutMark_of_ne fun rest same => marked (by simp [same])
    rw [like, yazIconv_opened fresh ready, drop_zero, kept]
    exact iff_of_true (convert_check valid noNul rfl _ enough) rfl

def openedUtf8 : Cd Unit Unit :=
  { myErrno := .unknown, initFlag := true, noReadX := 0, ungetX := 0, encoder := (), decoder := () }

theorem cafe_preserved : Preserved openedUtf8 [0x63, 0x61, 0x66, 0xc3, 0xa9] 8 :=
  (preserved_iff rfl (by decide +kernel) (by decide) (by decide)).mpr (by decide)

/-- A byte order mark stays, and the private character U+F03F is left out. -/
theorem marks_not_preserved :
    (yazUtf8Check [0xef, 0xbb, 0xbf, 0x61] = true ∧ ¬ Preserved openedUtf8 [0xef, 0xbb, 0xbf, 0x61] 8) ∧
      yazUtf8Check [0xef, 0x80, 0xbf, 0x61] = true ∧ ¬ Preserved openedUtf8 [0xef, 0x80, 0xbf, 0x61] 8 := by
  refine ⟨⟨by decide +kernel, ?_⟩, by decide +kernel, ?_⟩
  · exact fun kept => absurd kept.2.2 (by decide +kernel)
  · exact fun kept => absurd kept.2.2 (by decide +kernel)

end Yaz.Iconv
