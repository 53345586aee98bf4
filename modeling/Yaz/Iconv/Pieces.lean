import Yaz.Iconv.Splitting

/-! Where a piece of UTF-8 or DanMARC may end.

A piece of UTF-8 may end anywhere. In DanMARC a combining character stands before its letter, and
the decoder that has read it ahead will return it first if the letter is missing.
-/

set_option autoImplicit false

namespace Yaz.Iconv
open List Yaz.Json

theorem yazReadUTF8Char_lead {c : UInt8} (low : ¬ c ≤ 0x7f) (lead : ¬ (c ≤ 0xbf ∨ 0xfe ≤ c)) :
    ∃ first n least, ∀ rest, yazReadUTF8Char (c :: rest) =
      if n ≤ rest.length then utf8Sequence first n least rest else { x := 0, noRead := 0, errno := some .einval } := by
  have range : c ≤ 0xfd := by
    simp only [not_or, UInt8.not_le] at lead
    have upper := lead.2
    rw [UInt8.lt_iff_toNat_lt] at upper
    rw [UInt8.le_iff_toNat_le]
    simp only [UInt8.reduceToNat] at upper ⊢
    omega
  -- the tests for more octets are only made when there are too few for the fewer
  by_cases two : c ≤ 0xdf
  · have three : c ≤ 0xef := UInt8.le_trans two (by decide)
    have four : c ≤ 0xf7 := UInt8.le_trans two (by decide)
    have five : c ≤ 0xfb := UInt8.le_trans two (by decide)
    refine ⟨c.toNat % 32, 1, 0x80, fun rest => ?_⟩
    simp only [yazReadUTF8Char, low, lead, two, three, four, five, range, true_and, if_false, length_cons]
    split_ifs <;> first | rfl | omega
  by_cases three : c ≤ 0xef
  · have four : c ≤ 0xf7 := UInt8.le_trans three (by decide)
    have five : c ≤ 0xfb := UInt8.le_trans three (by decide)
    refine ⟨c.toNat % 16, 2, 0x800, fun rest => ?_⟩
    simp only [yazReadUTF8Char, low, lead, two, three, four, five, range, true_and, false_and, if_false, length_cons]
    split_ifs <;> first | rfl | omega
  by_cases four : c ≤ 0xf7
  · have five : c ≤ 0xfb := UInt8.le_trans four (by decide)
    refine ⟨c.toNat % 8, 3, 0x10000, fun rest => ?_⟩
    simp only [yazReadUTF8Char, low, lead, two, three, four, five, range, true_and, false_and, if_false, length_cons]
    split_ifs <;> first | rfl | omega
  by_cases five : c ≤ 0xfb
  · refine ⟨c.toNat % 4, 4, 0x200000, fun rest => ?_⟩
    simp only [yazReadUTF8Char, low, lead, two, three, four, five, range, true_and, false_and, if_false, length_cons]
    split_ifs <;> first | rfl | omega
  · refine ⟨c.toNat % 2, 5, 0x4000000, fun rest => ?_⟩
    simp only [yazReadUTF8Char, low, lead, two, three, four, five, range, true_and, false_and, if_false, length_cons]
    split_ifs <;> first | rfl | omega

theorem utf8Sequence_more {first n least : Nat} {rest : List UInt8} (enough : n ≤ rest.length) (more : List UInt8) :
    utf8Sequence first n least (rest ++ more) = utf8Sequence first n least rest := by
  rw [utf8Sequence, utf8Sequence, take_append_of_le_length enough]

theorem utf8Sequence_errno (first n least : Nat) (rest : List UInt8) :
    (utf8Sequence first n least rest).errno ≠ some .einval ∧
      ((utf8Sequence first n least rest).noRead = 0 → (utf8Sequence first n least rest).errno = some .eilseq) := by
  unfold utf8Sequence
  split
  · dsimp only
    split <;> simp
  · simp

theorem yazReadUTF8Char_more (inp more : List UInt8) :
    (yazReadUTF8Char inp).noRead = 0 ∧ (yazReadUTF8Char inp).errno = some .einval ∨
    yazReadUTF8Char (inp ++ more) = yazReadUTF8Char inp ∧
      ((yazReadUTF8Char inp).noRead = 0 → (yazReadUTF8Char inp).errno = some .eilseq) := by
  cases inp with
  | nil => exact .inl ⟨rfl, rfl⟩
  | cons c rest =>
    by_cases low : c ≤ 0x7f
    · right
      simp [yazReadUTF8Char, low]
    by_cases other : c ≤ 0xbf ∨ 0xfe ≤ c
    · right
      simp [yazReadUTF8Char, low, other]
    obtain ⟨first, n, least, read⟩ := yazReadUTF8Char_lead low other
    rw [cons_append, read, read]
    by_cases enough : n ≤ rest.length
    · right
      rw [if_pos enough, if_pos (by rw [length_append]; omega), utf8Sequence_more enough]
      exact ⟨rfl, (utf8Sequence_errno first n least rest).2⟩
    · left
      rw [if_neg enough]
      exact ⟨rfl, rfl⟩

variable {inp : List UInt8}

theorem initUtf8_more {data : Unit} {noRead : Nat} (some : inp ≠ []) (ready : initUtf8 () inp = .ready data noRead)
    (more : List UInt8) : initUtf8 () (inp ++ more) = .ready data noRead := by
  cases inp with
  | nil => exact absurd rfl some
  | cons c rest =>
    by_cases starts : c = 0xef
    · rcases rest with _ | ⟨a, _ | ⟨b, rest⟩⟩
      · simp [initUtf8, starts] at ready
      · simp [initUtf8, starts] at ready
      · have long : ¬ rest.length + more.length + 1 + 1 + 1 < 3 ∧ ¬ rest.length + 1 + 1 + 1 < 3 := by omega
        rw [← ready]
        simp [initUtf8, starts, long]
    · rw [← ready]
      simp [initUtf8, starts]

def utf8Splits : Splits utf8Accounts :=
  { valid := fun _ => True
    uncut := fun _ _ _ => true
    initValid := fun _ => trivial
    readValid := fun _ => trivial
    initMore := fun some ready => initUtf8_more some ready _
    notFull := fun _ => rfl
    stuck := by
      intro d inp more _ _ _ none
      rcases yazReadUTF8Char_more inp more with ⟨-, incomplete⟩ | ⟨same, illegal⟩
      · exact .inr ⟨incomplete, rfl⟩
      · left
        refine ⟨illegal none, ?_⟩
        simp only [statelessDecoder] at none ⊢
        rw [same, none]
    goesOn := by
      intro d inp more some _ _ _ taken
      rcases yazReadUTF8Char_more inp more with ⟨none, -⟩ | ⟨same, -⟩
      · exact absurd none taken
      · apply codesOf_more _ some taken (yazReadUTF8Char_noRead inp)
        simp only [statelessDecoder]
        rw [same] }

/-! ### DanMARC -/

/-- `sscanf` finds its digits where they have to be: it skips no blanks, and finds one behind `@U`. -/
def steady (inp : List UInt8) : Bool :=
  match inp with
  | 64 :: 85 :: c :: rest => !isSpace c && (scanHex 2 (c :: rest)).isSome
  | 64 :: d :: _ => !isSpace d
  | _ => true

theorem scanHex_more {width : Nat} {mem : List UInt8} (enough : width ≤ mem.length) (first : ∀ c ∈ mem.head?, isSpace c = false)
    (more : List UInt8) : scanHex width (mem ++ more) = scanHex width mem := by
  have noBlank : ∀ text : List UInt8, (∀ c ∈ text.head?, isSpace c = false) → text.dropWhile isSpace = text := by
    intro text none
    cases text with
    | nil => rfl
    | cons c => rw [dropWhile_cons, none c rfl, if_neg (by simp)]
  have front : ((mem ++ more).takeWhile (· ≠ 0)).take width = (mem.takeWhile (· ≠ 0)).take width := by
    clear first
    induction mem generalizing width with
    | nil =>
      rw [Nat.le_zero.mp enough]
      rfl
    | cons _ _ ih =>
      cases width with
      | zero => rfl
      | succ =>
        rw [cons_append, takeWhile_cons, takeWhile_cons]
        split
        · rw [take_succ_cons, take_succ_cons, ih (by simpa using enough)]
        · rfl
  have start : ∀ text : List UInt8, (∀ c ∈ text.head?, isSpace c = false) → ∀ c ∈ (text.takeWhile (· ≠ 0)).head?, isSpace c = false := by
    intro text none c inside
    cases text with
    | nil => simp at inside
    | cons =>
      rw [takeWhile_cons] at inside
      split at inside
      · exact none c inside
      · simp at inside
  cases width with
  | zero => simp [scanHex]
  | succ =>
    have whole : ∀ c ∈ (mem ++ more).head?, isSpace c = false := by
      cases mem with
      | nil => simp at enough
      | cons => exact first
    rw [scanHex, scanHex, noBlank _ (start _ whole), noBlank _ (start _ first), front]

theorem readUseq_more (junk : Junk) (enough : 4 ≤ inp.length) (first : ∀ c ∈ (inp.drop 2).head?, isSpace c = false)
    (more : List UInt8) : readUseq junk (inp ++ more) = readUseq junk inp := by
  have behind : (inp ++ more).drop 2 = inp.drop 2 ++ more := drop_append_of_le_length (by omega)
  rw [readUseq, readUseq, if_neg (by rw [length_append]; omega), if_neg (by omega), behind,
    scanHex_more (by rw [length_drop]; omega) first, take_append_of_le_length enough]

theorem readDanmarc_useq (junk : Junk) (rest : List UInt8) : readDanmarc junk (64 :: 85 :: rest) = readUseq junk (64 :: 85 :: rest) := by
  simp [readDanmarc]

theorem readDanmarc_code (junk : Junk) {d : UInt8} (notShort : ¬ (d = 64 ∨ d = 42 ∨ d = 0xa4 ∨ d = 0xe5 ∨ d = 0xc5)) (notUseq : d ≠ 85)
    (rest : List UInt8) :
    readDanmarc junk (64 :: d :: rest) =
      if rest.length < 3 then incomplete else { x := (scanHex 4 (d :: rest)).getD 64, noRead := 5 } := by
  simp only [not_or] at notShort
  rw [readDanmarc, if_neg (by simp), if_neg (by simp [notShort]), if_neg notShort.2.2.2.1, if_neg notShort.2.2.2.2, if_neg notUseq]
  have length : (64 :: d :: rest).length < 5 ↔ rest.length < 3 := by
    simp only [length_cons]
    omega
  simp only [length, drop_succ_cons, drop_zero]

theorem readDanmarc_more {junk : Junk} (more : List UInt8) (calm : steady inp = true) :
    readDanmarc junk inp = incomplete ∨ (readDanmarc junk inp).noRead ≠ 0 ∧ readDanmarc junk (inp ++ more) = readDanmarc junk inp := by
  rcases inp with _ | ⟨c, _ | ⟨d, rest⟩⟩
  · exact .inl rfl
  · by_cases isAt : c = 64
    · left
      simp [readDanmarc, isAt]
    · right
      cases more with
      | nil => simp [readDanmarc, isAt]
      | cons => simp [readDanmarc, isAt]
  · by_cases isAt : c = 64
    · subst isAt
      by_cases short : d = 64 ∨ d = 42 ∨ d = 0xa4 ∨ d = 0xe5 ∨ d = 0xc5
      · right
        rcases short with rfl | rfl | rfl | rfl | rfl <;> simp [readDanmarc]
      · by_cases useq : d = 85
        · subst useq
          rcases rest with _ | ⟨e, _ | ⟨f, rest⟩⟩
          · exact .inl rfl
          · exact .inl rfl
          · right
            simp only [steady, Bool.and_eq_true, Bool.not_eq_true'] at calm
            have long : 4 ≤ (64 :: 85 :: e :: f :: rest).length := by simp
            have same := readUseq_more junk long (by simp [calm.1]) more
            rw [cons_append, cons_append, readDanmarc_useq, readDanmarc_useq]
            refine ⟨?_, same⟩
            rw [readUseq, if_neg (by omega)]
            simp
        · rw [cons_append, cons_append, readDanmarc_code junk short useq, readDanmarc_code junk short useq]
          by_cases few : rest.length < 3
          · left
            rw [if_pos few]
          · right
            have first : isSpace d = false := by
              cases rest with
              | nil => simp at few
              | cons => simpa [steady, useq] using calm
            rw [if_neg few, if_neg (by rw [length_append]; omega), ← cons_append, scanHex_more _ (by simpa using first)]
            · simp
            · simp only [length_cons]
              omega
    · right
      simp [readDanmarc, isAt]

theorem readDanmarc_incomplete {junk : Junk} (none : (readDanmarc junk inp).noRead = 0) :
    readDanmarc junk inp = incomplete := by
  rcases inp with _ | ⟨c, _ | ⟨d, rest⟩⟩
  · rfl
  · by_cases isAt : c = 64
    · simp [readDanmarc, isAt]
    · simp [readDanmarc, isAt] at none
  · by_cases isAt : c = 64
    · subst isAt
      by_cases short : d = 64 ∨ d = 42 ∨ d = 0xa4 ∨ d = 0xe5 ∨ d = 0xc5
      · rcases short with rfl | rfl | rfl | rfl | rfl <;> simp [readDanmarc] at none
      · by_cases useq : d = 85
        · subst useq
          rw [readDanmarc_useq, readUseq] at none ⊢
          split at none
          next few => rw [if_pos few]
          · simp at none
        · rw [readDanmarc_code junk short useq] at none ⊢
          split at none
          next few => rw [if_pos few]
          · simp at none
    · simp [readDanmarc, isAt] at none

/-- No combining character and its letter, and no sequence with `sscanf`, is cut. Behind a combining character
(`first` is not set) there has to be another one. -/
def danmarcUncut (junk : Junk) : Nat → Bool → List UInt8 → List UInt8 → Bool
  | 0, first, inp, more => if (readSwapped junk inp).noRead = 0 then first else more = [] || steady inp
  | rounds + 1, first, inp, more =>
    if (readSwapped junk inp).noRead = 0 then first
    else
      (more = [] || steady inp) &&
        (!yazDanmarcIsCombining (readSwapped junk inp).x ||
          danmarcUncut junk rounds false (inp.drop (readSwapped junk inp).noRead) more)

theorem readSwapped_more {junk : Junk} {more : List UInt8} (taken : (readSwapped junk inp).noRead ≠ 0)
    (calm : (decide (more = []) || steady inp) = true) : readSwapped junk (inp ++ more) = readSwapped junk inp := by
  have noRead : (readSwapped junk inp).noRead = (readDanmarc junk inp).noRead := rfl
  rw [Bool.or_eq_true, decide_eq_true_eq] at calm
  rcases calm with rfl | calm
  · rw [append_nil]
  · rcases readDanmarc_more more calm with none | ⟨-, same⟩
    · rw [noRead, none] at taken
      exact absurd rfl taken
    · rw [readSwapped, same]
      rfl

variable {junk : Junk} {rounds : Nat} {data : DanmarcData}

theorem danmarcLoop_more {first : Bool} {more : List UInt8}
    (uncut : danmarcUncut junk rounds first inp more = true) (taken : (readSwapped junk inp).noRead ≠ 0) :
    danmarcLoop junk rounds data (inp ++ more) = danmarcLoop junk rounds data inp ∧ (danmarcLoop junk rounds data inp).noRead ≠ 0 := by
  induction rounds generalizing first data inp with
  | zero =>
    rw [danmarcUncut, if_neg taken] at uncut
    rw [danmarcLoop, danmarcLoop, readSwapped_more taken uncut]
    exact ⟨rfl, taken⟩
  | succ rounds ih =>
    rw [danmarcUncut, if_neg taken, Bool.and_eq_true] at uncut
    rw [danmarcLoop, danmarcLoop, readSwapped_more taken uncut.1]
    split
    next combining =>
      have within : (readSwapped junk inp).noRead ≤ inp.length := readDanmarc_noRead junk inp
      have later : danmarcUncut junk rounds false (inp.drop (readSwapped junk inp).noRead) more = true := by
        simpa [combining] using uncut.2
      have followed : (readSwapped junk (inp.drop (readSwapped junk inp).noRead)).noRead ≠ 0 := by
        intro none
        cases rounds with
        | zero =>
          rw [danmarcUncut, if_pos none] at later
          simp at later
        | succ =>
          rw [danmarcUncut, if_pos none] at later
          simp at later
      rw [drop_append_of_le_length within]
      exact ih later followed
    · exact ⟨rfl, taken⟩

def DanmarcValid (data : DanmarcData) : Prop := ∀ entry ∈ data, entry.2 ≠ 0

theorem danmarcLoop_valid (valid : DanmarcValid data) :
    DanmarcValid (danmarcLoop junk rounds data inp).data := by
  induction rounds generalizing data inp with
  | zero => exact valid
  | succ _ ih =>
    rw [danmarcLoop]
    split
    next combining =>
      apply ih
      intro entry inside
      rcases mem_cons.mp inside with rfl | before
      · intro none
        -- nothing was read, and 0 is no combining character
        have nothing : readDanmarc junk inp = incomplete := readDanmarc_incomplete none
        simp [readSwapped, nothing, incomplete, yazDanmarcIsCombining] at combining
      · exact valid entry before
    · exact valid

theorem danmarcLoop_incomplete (none : (readSwapped junk inp).noRead = 0) :
    danmarcLoop junk rounds data inp = { x := 0, noRead := 0, data := data, errno := some .einval } := by
  have nothing : readDanmarc junk inp = incomplete := readDanmarc_incomplete none
  have swapped : readSwapped junk inp = incomplete := by
    rw [readSwapped, nothing]
    rfl
  cases rounds with
  | zero => simp [danmarcLoop, swapped, incomplete]
  | succ => simp [danmarcLoop, swapped, incomplete, yazDanmarcIsCombining]

def danmarcWhole (junk : Junk) (data : DanmarcData) (inp more : List UInt8) : Bool := data ≠ [] || danmarcUncut junk 4 true inp more

def danmarcSplits (junk : Junk) : Splits (danmarcAccounts junk) :=
  { valid := DanmarcValid
    uncut := danmarcWhole junk
    initValid := by
      intro d data inp noRead ready
      simp only [initDanmarc, Init.ready.injEq] at ready
      rw [← ready.1]
      simp [DanmarcValid]
    readValid := by
      intro data inp valid
      cases data with
      | nil => exact danmarcLoop_valid (by simp [DanmarcValid])
      | cons entry data => exact fun other inside => valid other (List.mem_cons_of_mem _ inside)
    initMore := fun _ ready => ready
    notFull := fun _ => rfl
    stuck := by
      intro data inp more _ valid uncut none
      cases data with
      | nil =>
        right
        simp only [danmarcWhole, ne_eq, not_true_eq_false, decide_false, Bool.false_or] at uncut
        dsimp only [readDanmarcComb] at none ⊢
        by_cases nothing : (readSwapped junk inp).noRead = 0
        · rw [danmarcLoop_incomplete nothing]
          exact ⟨rfl, rfl⟩
        · exact absurd none (danmarcLoop_more uncut nothing).2
      | cons entry data => exact absurd none (valid entry (by simp))
    goesOn := by
      intro data inp more some owed _ uncut taken
      have kept := (danmarcAccounts junk).read some owed rfl
      apply codesOf_more _ some taken (by omega)
      cases data with
      | nil =>
        simp only [danmarcWhole, ne_eq, not_true_eq_false, decide_false, Bool.false_or] at uncut
        dsimp only [readDanmarcComb] at taken ⊢
        apply (danmarcLoop_more uncut _).1
        intro nothing
        rw [danmarcLoop_incomplete nothing] at taken
        exact absurd rfl taken
      | cons entry data => rfl }

end Yaz.Iconv
