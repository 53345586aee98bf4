import Yaz.Pqf.Parser

/-! The tokens of configuration texts: `tokenizer.c`.

A text ends at its NUL. Each loop is given a number of rounds, and there is no result where that is not enough; `char` is signed.
-/

set_option autoImplicit false

variable {ch : UInt8} {rounds more : Nat}

namespace Yaz.Text
open List
open Yaz.Pqf (cString)

/-- `struct yaz_tok_cfg`; the quotes in pairs, each with an end that is not NUL. -/
structure TokCfg where
  comment : List UInt8
  whiteSpace : List UInt8
  singleTokens : List UInt8
  quoteTokens : List (UInt8 × UInt8)
  ends : ∀ pair ∈ quoteTokens, pair.2 ≠ 0

def yazTokCfgCreate : TokCfg where
  comment := [35]
  whiteSpace := [32, 9, 13, 10]
  singleTokens := []
  quoteTokens := [(34, 34)]
  ends := by decide

def yazTokCfgSingleTokens (t : TokCfg) (simple : List UInt8) : TokCfg := { t with singleTokens := simple }

/-- `struct yaz_tok_parse` of a buffer, without the configuration; zero in `ungetByte` is no byte. -/
structure TokParse where
  ungetByte : UInt8
  wrString : List UInt8
  data : List UInt8
  deriving DecidableEq

def yazTokParseBuf (buf : List UInt8) : TokParse := { ungetByte := 0, wrString := [], data := buf }

/-- `read_buf`, which stays at the NUL. -/
def readBuf : List UInt8 → UInt8 × List UInt8
  | [] => (0, [])
  | ch :: rest => if ch = 0 then (0, ch :: rest) else (ch, rest)

def getByte (tp : TokParse) : UInt8 × TokParse :=
  if tp.ungetByte ≠ 0 then (tp.ungetByte, { tp with ungetByte := 0 }) else ((readBuf tp.data).1, { tp with data := (readBuf tp.data).2 })

def TokParse.rewind (tp : TokParse) : TokParse := { tp with wrString := [] }

def TokParse.putc (tp : TokParse) (ch : UInt8) : TokParse := { tp with wrString := tp.wrString ++ [ch] }

/-- `YAZ_TOK_EOF`. -/
def tokEof : Int := 0

/-- `YAZ_TOK_ERROR`. -/
def tokError : Int := -1

/-- `YAZ_TOK_STRING`. -/
def tokString : Int := -2

/-- `YAZ_TOK_QSTRING`. -/
def tokQstring : Int := -3

/-- A `char` as an `int`. -/
def signedChar (ch : UInt8) : Int := if ch < 128 then ch.toNat else ch.toNat - 256

section
variable (t : TokCfg)

def skipWhite : (rounds : Nat) → UInt8 → TokParse → Option (UInt8 × TokParse)
  | 0, _, _ => none
  | rounds + 1, ch, tp => if ch ≠ 0 ∧ ch ∈ t.whiteSpace then skipWhite rounds (getByte tp).1 (getByte tp).2 else some (ch, tp)

def quotedLoop (endCh : UInt8) : (rounds : Nat) → UInt8 → TokParse → Option (UInt8 × TokParse)
  | 0, _, _ => none
  | rounds + 1, ch, tp => if ch ≠ 0 ∧ ch ≠ endCh then quotedLoop endCh rounds ch (tp.putc ch) else some (ch, tp)

def isWhite (ch : UInt8) : Bool := ch ∈ t.whiteSpace

def isPlain (ch : UInt8) : Bool := ch ∉ t.whiteSpace && ch ∉ t.singleTokens && ch ∉ t.comment

def unquotedLoop : (rounds : Nat) → UInt8 → TokParse → Option (UInt8 × TokParse)
  | 0, _, _ => none
  | rounds + 1, ch, tp =>
    if ch ≠ 0 ∧ isPlain t ch = true then unquotedLoop rounds (getByte (tp.putc ch)).1 (getByte (tp.putc ch)).2 else some (ch, tp)

def closing (ch : UInt8) : Option UInt8 := (t.quoteTokens.find? fun pair => pair.1 = ch).map Prod.snd

/-- `yaz_tok_move`: what is looked at, and the state behind it. -/
def yazTokMove (rounds : Nat) (tp : TokParse) : Option (Int × TokParse) :=
  (skipWhite t rounds (getByte tp).1 (getByte tp).2).bind fun (ch, tp) =>
    if ch = 0 then some (tokEof, tp)
    else if ch ∈ t.comment then some (tokEof, tp)
    else if ch ∈ t.singleTokens then some (signedChar ch, tp)
    else
      match closing t ch with
      | some endCh =>
        (quotedLoop endCh rounds (getByte tp).1 (getByte tp).2.rewind).map fun (ch, tp) => (if ch = 0 then tokError else tokQstring, tp)
      | none => (unquotedLoop t rounds ch tp.rewind).map fun (ch, tp) => (tokString, { tp with ungetByte := ch })

end

inductive Token where
  | eof
  | error
  | string (octets : List UInt8)
  | qstring (octets : List UInt8)
  | single (ch : UInt8)
  deriving DecidableEq

/-- The token of a value of `look`, with `yaz_tok_parse_string`. -/
def seenToken (look : Int) (tp : TokParse) : Token :=
  if look = tokEof then .eof
  else if look = tokError then .error
  else if look = tokString then .string tp.wrString
  else if look = tokQstring then .qstring tp.wrString
  else .single (UInt8.ofNat (look % 256).toNat)

section
variable (t : TokCfg)

/-- Calls of `yaz_tok_move` up to the first that returns the end or an error; there may be so many calls. -/
def moveAll (rounds : Nat) : (calls : Nat) → TokParse → Option (List Token)
  | 0, _ => none
  | calls + 1, tp =>
    (yazTokMove t rounds tp).bind fun moved =>
      if moved.1 = tokEof ∨ moved.1 = tokError then some [seenToken moved.1 moved.2]
      else (moveAll rounds calls moved.2).map (seenToken moved.1 moved.2 :: ·)

def tokensOf : List UInt8 → List Token
  | [] => [.eof]
  | ch :: rest =>
    if ch ∈ t.whiteSpace then tokensOf rest
    else if ch ∈ t.comment then [.eof]
    else if ch ∈ t.singleTokens then .single ch :: tokensOf rest
    else
      match closing t ch with
      | some endCh =>
        if rest.dropWhile (· ≠ endCh) = [] then [.error]
        else .qstring (rest.takeWhile (· ≠ endCh)) :: tokensOf (rest.dropWhile (· ≠ endCh)).tail
      | none => .string (ch :: rest.takeWhile (isPlain t)) :: tokensOf (rest.dropWhile (isPlain t))
termination_by text => text.length
decreasing_by
  · simp
  · simp
  · have behind : (rest.dropWhile (· ≠ endCh)).length ≤ rest.length := (List.dropWhile_suffix _).length_le
    rw [List.length_tail, List.length_cons]
    omega
  · have behind : (rest.dropWhile (isPlain t)).length ≤ rest.length := (List.dropWhile_suffix _).length_le
    rw [List.length_cons]
    omega

/-- A text that the tokenizer gets through: quotes that are closed at once or open at the end, and no single token that is taken for the
value of another. -/
def Passable : List UInt8 → Prop
  | [] => True
  | ch :: rest =>
    if ch ∈ t.whiteSpace then Passable rest
    else if ch ∈ t.comment then True
    else if ch ∈ t.singleTokens then ch < 253 ∧ Passable rest
    else
      match closing t ch with
      | some endCh => rest = [] ∨ rest.head? = some endCh ∧ Passable rest.tail
      | none => Passable (rest.dropWhile (isPlain t))
termination_by text => text.length
decreasing_by
  · simp
  · simp
  · rw [List.length_tail, List.length_cons]
    omega
  · have behind : (rest.dropWhile (isPlain t)).length ≤ rest.length := (List.dropWhile_suffix _).length_le
    rw [List.length_cons]
    omega

def Tokenizes (buf : List UInt8) : Prop :=
  ∃ rounds, moveAll t rounds ((cString buf).length + 1) (yazTokParseBuf buf) = some (tokensOf t (cString buf))

end

def TokParse.pending (tp : TokParse) : List UInt8 := (if tp.ungetByte = 0 then [] else [tp.ungetByte]) ++ cString tp.data

/-- A byte that has been read of a text, with what is behind it; nothing is pushed back. -/
inductive ReadByte : UInt8 → TokParse → List UInt8 → Prop where
  | ended {tp : TokParse} : tp.ungetByte = 0 → tp.pending = [] → ReadByte 0 tp []
  | byte {ch : UInt8} {tp : TokParse} {rest : List UInt8} : ch ≠ 0 → tp.ungetByte = 0 → tp.pending = rest → ReadByte ch tp (ch :: rest)

theorem getByte_wrString (tp : TokParse) : (getByte tp).2.wrString = tp.wrString := by
  rw [getByte]
  split <;> rfl

theorem getByte_reads (tp : TokParse) : ReadByte (getByte tp).1 (getByte tp).2 tp.pending := by
  obtain ⟨ungetByte, wrString, data⟩ := tp
  by_cases pushed : ungetByte = 0
  · subst pushed
    cases data with
    | nil => exact .ended rfl rfl
    | cons ch rest =>
      by_cases nul : ch = 0
      · subst nul
        exact .ended rfl rfl
      · have front : TokParse.pending { ungetByte := 0, wrString, data := ch :: rest } = ch :: cString rest := by
          simp [TokParse.pending, cString, nul]
        have next : getByte { ungetByte := 0, wrString, data := ch :: rest } = (ch, { ungetByte := 0, wrString, data := rest }) := by
          simp [getByte, readBuf, nul]
        rw [front, next]
        exact .byte nul rfl rfl
  · have front : TokParse.pending { ungetByte, wrString, data } = ungetByte :: cString data := by
      rw [TokParse.pending, if_neg pushed]
      rfl
    have next : getByte { ungetByte, wrString, data } = (ungetByte, { ungetByte := 0, wrString, data }) := if_pos pushed
    rw [front, next]
    exact .byte pushed rfl rfl

theorem ReadByte.rewind {tp : TokParse} {text : List UInt8} (read : ReadByte ch tp text) : ReadByte ch tp.rewind text := by
  cases read with
  | ended unget nothing => exact .ended unget nothing
  | byte present unget rest => exact .byte present unget rest

theorem ReadByte.pending_unget {tp : TokParse} {text : List UInt8} (read : ReadByte ch tp text) :
    TokParse.pending { tp with ungetByte := ch } = text := by
  cases read with
  | ended unget nothing =>
    rw [TokParse.pending, if_pos unget] at nothing
    rw [TokParse.pending, if_pos rfl]
    exact nothing
  | byte present unget rest =>
    rw [TokParse.pending, if_pos unget] at rest
    rw [TokParse.pending, if_neg present]
    exact congrArg (ch :: ·) rest

section
variable {t : TokCfg}

theorem skipWhite_reads {rounds : Nat} {ch : UInt8} {tp : TokParse} {text : List UInt8} (read : ReadByte ch tp text)
    (enough : text.length < rounds) :
    ∃ ch' tp', skipWhite t rounds ch tp = some (ch', tp') ∧ ReadByte ch' tp' (text.dropWhile (isWhite t)) ∧
      tp'.wrString = tp.wrString := by
  induction rounds generalizing ch tp text with
  | zero => exact absurd enough (Nat.not_lt_zero _)
  | succ _ ih =>
    rw [skipWhite]
    cases read with
    | ended unget nothing =>
      rw [if_neg fun space => space.1 rfl]
      exact ⟨0, tp, rfl, .ended unget nothing, rfl⟩
    | @byte _ _ rest present unget pending =>
      by_cases white : ch ∈ t.whiteSpace
      · rw [if_pos ⟨present, white⟩, @List.dropWhile_cons_of_pos _ (isWhite t) _ _ (decide_eq_true white), ← getByte_wrString tp]
        have next := getByte_reads tp
        rw [pending] at next
        exact ih next (Nat.lt_of_succ_lt_succ enough)
      · rw [if_neg fun space => white space.2, @List.dropWhile_cons_of_neg _ (isWhite t) _ _ (by simpa [isWhite] using white)]
        exact ⟨ch, tp, rfl, .byte present unget pending, rfl⟩

theorem unquotedLoop_reads {rounds : Nat} {ch : UInt8} {tp : TokParse} {text : List UInt8} (read : ReadByte ch tp text)
    (enough : text.length < rounds) :
    ∃ ch' tp', unquotedLoop t rounds ch tp = some (ch', tp') ∧ ReadByte ch' tp' (text.dropWhile (isPlain t)) ∧
      tp'.wrString = tp.wrString ++ text.takeWhile (isPlain t) := by
  induction rounds generalizing ch tp text with
  | zero => exact absurd enough (Nat.not_lt_zero _)
  | succ _ ih =>
    rw [unquotedLoop]
    cases read with
    | ended unget nothing =>
      rw [if_neg fun plain => plain.1 rfl]
      exact ⟨0, tp, rfl, .ended unget nothing, (append_nil _).symm⟩
    | @byte _ _ rest present unget pending =>
      by_cases plain : isPlain t ch = true
      · rw [if_pos ⟨present, plain⟩, dropWhile_cons_of_pos plain, takeWhile_cons_of_pos plain]
        have next := getByte_reads (tp.putc ch)
        have same : (tp.putc ch).pending = rest := pending
        rw [same] at next
        obtain ⟨ch', tp', run, reads, written⟩ := ih next (Nat.lt_of_succ_lt_succ enough)
        refine ⟨ch', tp', run, reads, ?_⟩
        rw [written, getByte_wrString, TokParse.putc, append_assoc]
        rfl
      · rw [if_neg fun is => plain is.2, dropWhile_cons_of_neg plain, takeWhile_cons_of_neg plain]
        exact ⟨ch, tp, rfl, .byte present unget pending, (append_nil _).symm⟩

theorem quotedLoop_endless {endCh ch : UInt8} (present : ch ≠ 0) (content : ch ≠ endCh) (rounds : Nat) (tp : TokParse) :
    quotedLoop endCh rounds ch tp = none := by
  induction rounds generalizing tp with
  | zero => rfl
  | succ _ ih => rw [quotedLoop, if_pos ⟨present, content⟩, ih]

theorem rounds_mono {σ : Type} {goes : σ → Prop} [DecidablePred goes] {next : σ → σ} {loop : Nat → σ → Option σ}
    (zero : ∀ s, loop 0 s = none)
    (succ : ∀ rounds s, loop (rounds + 1) s = if goes s then loop rounds (next s) else some s) {rounds more : Nat} {s result : σ}
    (run : loop rounds s = some result) (le : rounds ≤ more) : loop more s = some result := by
  induction rounds generalizing more s with
  | zero =>
    rw [zero] at run
    cases run
  | succ _ ih =>
    obtain ⟨more, rfl⟩ : ∃ m, more = m + 1 := ⟨more - 1, by omega⟩
    rw [succ] at run ⊢
    split_ifs at run ⊢
    · exact ih run (by omega)
    · exact run

variable {result : UInt8 × TokParse}

theorem skipWhite_mono {tp : TokParse} (run : skipWhite t rounds ch tp = some result)
    (le : rounds ≤ more) : skipWhite t more ch tp = some result :=
  @rounds_mono _ (fun s => s.1 ≠ 0 ∧ s.1 ∈ t.whiteSpace) _ (fun s => getByte s.2)
    (fun rounds s => skipWhite t rounds s.1 s.2) (fun _ => rfl)
    (fun _ _ => rfl) _ _ (ch, tp) _ run le

theorem quotedLoop_mono {endCh : UInt8} {tp : TokParse}
    (run : quotedLoop endCh rounds ch tp = some result) (le : rounds ≤ more) : quotedLoop endCh more ch tp = some result :=
  @rounds_mono _ (fun s => s.1 ≠ 0 ∧ s.1 ≠ endCh) _ (fun s => (s.1, s.2.putc s.1)) (fun rounds s => quotedLoop endCh rounds s.1 s.2)
    (fun _ => rfl) (fun _ _ => rfl) _ _ (ch, tp) _ run le

theorem unquotedLoop_mono {tp : TokParse}
    (run : unquotedLoop t rounds ch tp = some result) (le : rounds ≤ more) : unquotedLoop t more ch tp = some result :=
  @rounds_mono _ (fun s => s.1 ≠ 0 ∧ isPlain t s.1 = true) _ (fun s => getByte (s.2.putc s.1))
    (fun rounds s => unquotedLoop t rounds s.1 s.2)
    (fun _ => rfl) (fun _ _ => rfl) _ _ (ch, tp) _ run le

theorem yazTokMove_mono {tp : TokParse} {result : Int × TokParse} (run : yazTokMove t rounds tp = some result)
    (le : rounds ≤ more) : yazTokMove t more tp = some result := by
  rw [yazTokMove] at run ⊢
  obtain ⟨⟨ch, after⟩, skipped, run⟩ := Option.bind_eq_some_iff.mp run
  rw [skipWhite_mono skipped le, Option.bind_some]
  dsimp only at run ⊢
  split_ifs at run ⊢
  · exact run
  · exact run
  · exact run
  · cases closes : closing t ch with
    | some =>
      rw [closes] at run
      obtain ⟨quoted, loop, rfl⟩ := Option.map_eq_some_iff.mp run
      dsimp only
      rw [quotedLoop_mono loop le]
      rfl
    | none =>
      rw [closes] at run
      obtain ⟨unquoted, loop, rfl⟩ := Option.map_eq_some_iff.mp run
      rw [unquotedLoop_mono loop le]
      rfl

theorem moveAll_mono {rounds more calls : Nat} {tp : TokParse} {tokens : List Token} (run : moveAll t rounds calls tp = some tokens)
    (le : rounds ≤ more) : moveAll t more calls tp = some tokens := by
  induction calls generalizing tp tokens with
  | zero => cases run
  | succ _ ih =>
    rw [moveAll] at run ⊢
    obtain ⟨moved, first, run⟩ := Option.bind_eq_some_iff.mp run
    rw [yazTokMove_mono first le, Option.bind_some]
    split_ifs at run ⊢
    · exact run
    · obtain ⟨rest, others, rfl⟩ := Option.map_eq_some_iff.mp run
      rw [ih others]
      rfl

/-! ### Calls -/

inductive Moves (t : TokCfg) : List UInt8 → Option (Int × TokParse) → Prop where
  | ended {tp : TokParse} : Moves t [] (some (tokEof, tp))
  | comment {ch : UInt8} {rest : List UInt8} {tp : TokParse} : ch ∈ t.comment → Moves t (ch :: rest) (some (tokEof, tp))
  | single {ch : UInt8} {rest : List UInt8} {tp : TokParse} : ch ∉ t.comment → ch ∈ t.singleTokens → tp.pending = rest → ch ≠ 0 →
      Moves t (ch :: rest) (some (signedChar ch, tp))
  | unclosed {ch endCh : UInt8} {tp : TokParse} : ch ∉ t.comment → ch ∉ t.singleTokens → closing t ch = some endCh →
      Moves t [ch] (some (tokError, tp))
  | closed {ch endCh : UInt8} {rest : List UInt8} {tp : TokParse} : ch ∉ t.comment → ch ∉ t.singleTokens → closing t ch = some endCh →
      tp.wrString = [] → tp.pending = rest → Moves t (ch :: endCh :: rest) (some (tokQstring, tp))
  | endless {ch endCh c : UInt8} {rest : List UInt8} : ch ∉ t.comment → ch ∉ t.singleTokens → closing t ch = some endCh → c ≠ endCh →
      Moves t (ch :: c :: rest) none
  | string {ch : UInt8} {rest : List UInt8} {tp : TokParse} : ch ∉ t.comment → ch ∉ t.singleTokens → closing t ch = none →
      tp.wrString = ch :: rest.takeWhile (isPlain t) → tp.pending = rest.dropWhile (isPlain t) → Moves t (ch :: rest) (some (tokString, tp))

theorem isWhite_false_of_dropWhile {text rest : List UInt8} (front : text.dropWhile (isWhite t) = ch :: rest) : ch ∉ t.whiteSpace := by
  have head := head?_dropWhile_not (isWhite t) text
  rw [front] at head
  simpa [isWhite] using head

theorem yazTokMove_moves {rounds : Nat} {tp : TokParse} (enough : tp.pending.length < rounds) :
    Moves t (tp.pending.dropWhile (isWhite t)) (yazTokMove t rounds tp) := by
  obtain ⟨ch, after, skipped, read, -⟩ := @skipWhite_reads t rounds _ _ _ (getByte_reads tp) enough
  have shorter : (tp.pending.dropWhile (isWhite t)).length ≤ tp.pending.length := (dropWhile_suffix _).length_le
  rw [yazTokMove, skipped, Option.bind_some]
  generalize isText : tp.pending.dropWhile (isWhite t) = text at read shorter ⊢
  cases read with
  | ended =>
    dsimp only
    rw [if_pos rfl]
    exact .ended
  | @byte _ _ rest present unget pending =>
    have noWhite := isWhite_false_of_dropWhile isText
    dsimp only
    rw [if_neg present]
    by_cases comment : ch ∈ t.comment
    · rw [if_pos comment]
      exact .comment comment
    · rw [if_neg comment]
      by_cases single : ch ∈ t.singleTokens
      · rw [if_pos single]
        exact .single comment single pending present
      · rw [if_neg single]
        cases closes : closing t ch with
        | none =>
          have plain : isPlain t ch = true := by simp [isPlain, noWhite, single, comment]
          have whole : ReadByte ch after.rewind (ch :: rest) := .byte present unget pending
          obtain ⟨ch', tp', run, reads, written⟩ := @unquotedLoop_reads t rounds ch after.rewind (ch :: rest) whole (by omega)
          rw [run, Option.map_some]
          refine .string comment single closes ?_ ?_
          · rw [takeWhile_cons_of_pos plain] at written
            exact written
          · rw [dropWhile_cons_of_pos plain] at reads
            exact reads.pending_unget
        | some endCh =>
          have next := (getByte_reads after).rewind
          obtain ⟨rounds, rfl⟩ : ∃ m, rounds = m + 1 := ⟨rounds - 1, by omega⟩
          rw [pending] at next
          dsimp only
          generalize (getByte after).1 = c at next ⊢
          have rewound : (getByte after).2.rewind.wrString = [] := rfl
          generalize (getByte after).2.rewind = quoted at next rewound ⊢
          cases next with
          | ended =>
            rw [quotedLoop, if_neg fun inside => inside.1 rfl]
            exact .unclosed comment single closes
          | @byte _ _ rest' present' unget' pending' =>
            by_cases empty : c = endCh
            · subst empty
              rw [quotedLoop, if_neg fun inside => inside.2 rfl, Option.map_some, if_neg present']
              exact .closed comment single closes rewound pending'
            · rw [quotedLoop_endless present' empty]
              exact .endless comment single closes empty

theorem tokensOf_white (text : List UInt8) : tokensOf t text = tokensOf t (text.dropWhile (isWhite t)) := by
  induction text with
  | nil => rfl
  | cons ch _ ih =>
    by_cases white : ch ∈ t.whiteSpace
    · rw [tokensOf, if_pos white, ih, @List.dropWhile_cons_of_pos _ (isWhite t) _ _ (decide_eq_true white)]
    · rw [@List.dropWhile_cons_of_neg _ (isWhite t) _ _ (by simpa [isWhite] using white)]

theorem passable_white (text : List UInt8) : Passable t text ↔ Passable t (text.dropWhile (isWhite t)) := by
  induction text with
  | nil => exact Iff.rfl
  | cons ch _ ih =>
    by_cases white : ch ∈ t.whiteSpace
    · rw [Passable, if_pos white, ih, @List.dropWhile_cons_of_pos _ (isWhite t) _ _ (decide_eq_true white)]
    · rw [@List.dropWhile_cons_of_neg _ (isWhite t) _ _ (by simpa [isWhite] using white)]

theorem signedChar_byte (ch : UInt8) : UInt8.ofNat (signedChar ch % 256).toNat = ch := by
  apply UInt8.toNat_inj.mp
  have size := ch.toNat_lt
  rw [UInt8.toNat_ofNat', signedChar]
  split <;> omega

theorem signedChar_low (present : ch ≠ 0) (low : ch < 253) :
    signedChar ch ≠ tokEof ∧ signedChar ch ≠ tokError ∧ signedChar ch ≠ tokString ∧ signedChar ch ≠ tokQstring := by
  have isLow : ch.toNat < 253 := low
  have positive : ch.toNat ≠ 0 := fun zero => present (UInt8.toNat_inj.mp zero)
  rw [signedChar, tokEof, tokError, tokString, tokQstring]
  split
  · omega
  · next high =>
    omega

theorem seenToken_single (present : ch ≠ 0) (low : ch < 253) (tp : TokParse) : seenToken (signedChar ch) tp = .single ch := by
  obtain ⟨noEof, noError, noString, noQstring⟩ := signedChar_low present low
  rw [seenToken, if_neg noEof, if_neg noError, if_neg noString, if_neg noQstring, signedChar_byte]

theorem seenToken_taken (high : ¬ ch < 253) (tp : TokParse) : seenToken (signedChar ch) tp ≠ .single ch := by
  have size := ch.toNat_lt
  have isHigh : ¬ ch.toNat < 253 := high
  have notAscii : ¬ ch < 128 := fun low => isHigh (Nat.lt_trans low (by decide))
  rw [seenToken, signedChar, if_neg notAscii, tokEof, tokError, tokString, tokQstring]
  split_ifs with eof error string quoted
  · simp
  · simp
  · simp
  · simp
  · omega

/-- The calls for a text get through it if the text lets them. -/
theorem moveAll_iff {rounds calls : Nat} {tp : TokParse} (enough : tp.pending.length < rounds) (many : tp.pending.length < calls) :
    moveAll t rounds calls tp = some (tokensOf t tp.pending) ↔ Passable t tp.pending := by
  induction calls generalizing tp with
  | zero => exact absurd many (Nat.not_lt_zero _)
  | succ calls ih =>
    have moves := @yazTokMove_moves t rounds tp enough
    have shorter : (tp.pending.dropWhile (isWhite t)).length ≤ tp.pending.length := (dropWhile_suffix _).length_le
    rw [tokensOf_white, passable_white, moveAll]
    generalize isText : tp.pending.dropWhile (isWhite t) = text at moves shorter ⊢
    generalize yazTokMove t rounds tp = moved at moves ⊢
    -- one case for each kind of token; the calls behind it are by induction
    cases moves with
    | ended =>
      rw [tokensOf, Passable]
      exact iff_of_true rfl trivial
    | @comment ch rest tp' isComment =>
      have noWhite := isWhite_false_of_dropWhile isText
      rw [tokensOf, Passable, if_neg noWhite, if_neg noWhite, if_pos isComment, if_pos isComment]
      exact iff_of_true rfl trivial
    | @single ch rest tp' noComment isSingle pending present =>
      have noWhite := isWhite_false_of_dropWhile isText
      rw [tokensOf, Passable, if_neg noWhite, if_neg noWhite, if_neg noComment, if_neg noComment, if_pos isSingle, if_pos isSingle,
        Option.bind_some]
      rw [length_cons] at shorter
      by_cases low : ch < 253
      · obtain ⟨noEof, noError, -, -⟩ := signedChar_low present low
        have behind := @ih tp' (by rw [pending]; omega) (by rw [pending]; omega)
        rw [pending] at behind
        rw [if_neg (not_or.mpr ⟨noEof, noError⟩), seenToken_single present low, ← behind]
        simp [low]
      · refine iff_of_false ?_ fun both => low both.1
        intro same
        split_ifs at same
        · exact seenToken_taken low tp' (List.cons.inj (Option.some.inj same)).1
        · obtain ⟨others, -, whole⟩ := Option.map_eq_some_iff.mp same
          exact seenToken_taken low tp' (List.cons.inj whole).1
    | @unclosed ch endCh tp' noComment noSingle closes =>
      have noWhite := isWhite_false_of_dropWhile isText
      rw [tokensOf, Passable, if_neg noWhite, if_neg noWhite, if_neg noComment, if_neg noComment, if_neg noSingle, if_neg noSingle, closes]
      exact iff_of_true rfl (Or.inl rfl)
    | @closed ch endCh rest tp' noComment noSingle closes empty pending =>
      have noWhite := isWhite_false_of_dropWhile isText
      have ends : (endCh :: rest).dropWhile (· ≠ endCh) = endCh :: rest := dropWhile_cons_of_neg (by simp)
      have nothing : (endCh :: rest).takeWhile (· ≠ endCh) = [] := takeWhile_cons_of_neg (by simp)
      rw [length_cons, length_cons] at shorter
      have behind := @ih tp' (by rw [pending]; omega) (by rw [pending]; omega)
      rw [pending] at behind
      rw [tokensOf, Passable, if_neg noWhite, if_neg noWhite, if_neg noComment, if_neg noComment, if_neg noSingle, if_neg noSingle, closes]
      dsimp only
      have goesOn : ¬ (tokQstring = tokEof ∨ tokQstring = tokError) := by decide
      rw [ends, nothing, if_neg (cons_ne_nil _ _), Option.bind_some, if_neg goesOn, tail_cons, head?_cons]
      have seen : seenToken tokQstring tp' = .qstring [] := by
        rw [← empty]
        rfl
      rw [seen, ← behind]
      simp
    | @endless ch endCh c rest noComment noSingle closes content =>
      have noWhite := isWhite_false_of_dropWhile isText
      rw [Passable, if_neg noWhite, if_neg noComment, if_neg noSingle, closes, Option.bind_none]
      refine iff_of_false (fun impossible => nomatch impossible) ?_
      rintro (impossible | ⟨same, -⟩)
      · cases impossible
      · exact content (Option.some.inj same)
    | @string ch rest tp' noComment noSingle opens written pending =>
      have noWhite := isWhite_false_of_dropWhile isText
      have less : (rest.dropWhile (isPlain t)).length ≤ rest.length := (dropWhile_suffix _).length_le
      rw [length_cons] at shorter
      have behind := @ih tp' (by rw [pending]; omega) (by rw [pending]; omega)
      rw [pending] at behind
      have seen : seenToken tokString tp' = .string (ch :: rest.takeWhile (isPlain t)) := by
        rw [← written]
        rfl
      rw [tokensOf, Passable, if_neg noWhite, if_neg noWhite, if_neg noComment, if_neg noComment, if_neg noSingle, if_neg noSingle, opens]
      have goesOn : ¬ (tokString = tokEof ∨ tokString = tokError) := by decide
      rw [Option.bind_some, if_neg goesOn, seen, ← behind]
      simp

/-- Which texts are got through, with all their tokens. -/
theorem tokenizes_iff (buf : List UInt8) : Tokenizes t buf ↔ Passable t (cString buf) := by
  have pending : (yazTokParseBuf buf).pending = cString buf := rfl
  constructor
  · rintro ⟨rounds, run⟩
    have more := moveAll_mono run (Nat.le_max_left rounds ((cString buf).length + 1))
    rw [← pending] at more ⊢
    exact (moveAll_iff (by omega) (Nat.lt_succ_self _)).mp more
  · intro passable
    rw [← pending] at passable
    exact ⟨(cString buf).length + 1, (moveAll_iff (Nat.lt_succ_self _) (Nat.lt_succ_self _)).mpr passable⟩

end

/-- A string in quotes, as the configuration has them from the start: no number of rounds is enough. -/
theorem quotes_not_tokenizes : ¬ Tokenizes yazTokCfgCreate [34, 97, 34] := by
  rintro ⟨rounds, run⟩
  have more := moveAll_mono run (Nat.le_succ rounds)
  have skipped : skipWhite yazTokCfgCreate (rounds + 1) (getByte (yazTokParseBuf [34, 97, 34])).1
    (getByte (yazTokParseBuf [34, 97, 34])).2 =
      some (34, { ungetByte := 0, wrString := [], data := [97, 34] }) := rfl
  have endless : yazTokMove yazTokCfgCreate (rounds + 1) (yazTokParseBuf [34, 97, 34]) = none := by
    rw [yazTokMove, skipped]
    exact Option.map_eq_none_iff.mpr (@quotedLoop_endless 34 97 (by decide) (by decide) _ _)
  have first : moveAll yazTokCfgCreate (rounds + 1) 4 (yazTokParseBuf [34, 97, 34]) = none := by rw [moveAll, endless, Option.bind_none]
  exact absurd (first.symm.trans more) (by simp)

end Yaz.Text
