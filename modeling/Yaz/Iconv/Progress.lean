import Yaz.Iconv.Buffers

/-! What a caller may rely on that gives `yaz_iconv` a fresh buffer for each call: a decoder that takes nothing says why, and an encoder
takes the first code into the buffer. So each call that had no room has taken something.
-/

set_option autoImplicit false

variable {inbuf : List UInt8}

namespace Yaz.Iconv
open List

section
variable {D E : Type}

/-! ### Decoders -/

structure Names (decoder : Decoder D) where
  valid : D → Prop
  init : ∀ {d data : D} {inp : List UInt8} {noRead : Nat}, decoder.initHandle d inp = .ready data noRead → valid data
  initFailed : ∀ {d : D} {inp : List UInt8} {errno : Errno}, decoder.initHandle d inp = .failed errno → errno = .einval
  read : ∀ {d : D} {inp : List UInt8}, valid d → valid (decoder.readHandle d inp).data
  stuck : ∀ {d : D} {inp : List UInt8}, valid d → inp ≠ [] → (decoder.readHandle d inp).noRead = 0 →
    (decoder.readHandle d inp).errno = some .eilseq ∨ (decoder.readHandle d inp).errno = some .einval

end

section
variable (generated : Generated) (junk : Junk) {inp : List UInt8}

theorem readSwapped_stuck (none : (readSwapped junk inp).noRead = 0) : (readSwapped junk inp).errno = some .einval := by
  have nothing : readDanmarc junk inp = incomplete := readDanmarc_incomplete none
  rw [readSwapped, nothing]
  rfl

theorem danmarcLoop_stuck {rounds : Nat} {data : DanmarcData} (none : (danmarcLoop junk rounds data inp).noRead = 0) :
    (danmarcLoop junk rounds data inp).errno = some .einval := by
  induction rounds generalizing data inp with
  | zero => exact readSwapped_stuck junk none
  | succ _ ih =>
    rw [danmarcLoop] at none ⊢
    split at none
    next combining =>
      rw [if_pos combining]
      exact ih none
    next other =>
      rw [if_neg other]
      exact readSwapped_stuck junk none

variable (tables : Tables) {data : CombData}

theorem yazReadMarc8Comb_errno (some : inp ≠ []) (none : (yazReadMarc8Comb tables data inp).1.noRead = 0) :
    (yazReadMarc8Comb tables data inp).1.errno = Option.some .eilseq ∨
      (yazReadMarc8Comb tables data inp).1.errno = Option.some .einval := by
  rw [yazReadMarc8Comb] at none ⊢
  rcases skipped : skipEscapes data inp with ⟨data', _ | _ | ⟨c, rest⟩⟩
  · exact .inr rfl
  · rw [skipped] at none
    exact absurd (length_eq_zero_iff.mp none) some
  · rw [skipped] at none
    exact .inl (readChar_stuck tables none).1

theorem combLoop_stuck {rounds : Nat} (valid : CombValid data) (begun : inp ≠ [] ∨ data.comb ≠ [])
    (full : rounds = 0 → data.comb ≠ []) (none : (combLoop tables rounds data inp).noRead = 0) :
    (combLoop tables rounds data inp).errno = some .eilseq ∨ (combLoop tables rounds data inp).errno = some .einval := by
  induction rounds generalizing data inp with
  | zero =>
    have last : data.comb.getLastD (0, 0) ∈ data.comb := by
      rw [getLastD_eq_getLast?, getLast?_eq_getLast_of_ne_nil (full rfl)]
      exact getLast_mem _
    exact absurd none (valid _ last)
  | succ _ ih =>
    by_cases missing : inp = [] ∧ data.comb ≠ []
    · rw [combLoop, if_pos missing]
      exact .inr rfl
    · have some : inp ≠ [] := by
        intro empty
        exact missing ⟨empty, begun.resolve_left (not_not_intro empty)⟩
      rw [combLoop_read tables missing] at none ⊢
      by_cases other : ¬(yazReadMarc8Comb tables data inp).2 ∨ (yazReadMarc8Comb tables data inp).1.x = 0
      · rw [if_pos other] at none ⊢
        exact yazReadMarc8Comb_errno tables some none
      · rw [if_neg other] at none ⊢
        refine ih ?_ (.inr (by simp)) (fun _ => by simp) none
        intro entry inside
        rcases mem_append.mp inside with before | new
        · exact valid entry before
        · rw [mem_singleton.mp new]
          exact fun nothing => other (.inr (yazReadMarc8Comb_stuck tables nothing))

theorem composeRead_stuck {read : Read CombData} (valid : CombValid read.data) (none : (composeRead read).noRead = 0) :
    composeRead read = read := by
  unfold composeRead at none ⊢
  split
  next mark noRead one =>
    have taken := valid (mark, noRead) (by rw [one]; exact mem_singleton.mpr rfl)
    split
    next y composed =>
      simp only [one, composed] at none
      exact absurd none (by dsimp only at taken; omega)
    · rfl
  · rfl

theorem readMarc8Or_stuck (compose : Bool) (valid : CombValid data) (some : inp ≠ [])
    (none : (readMarc8Or tables compose data inp).noRead = 0) :
    (readMarc8Or tables compose data inp).errno = Option.some .eilseq ∨
      (readMarc8Or tables compose data inp).errno = Option.some .einval := by
  rcases ahead : data.comb.drop data.combOffset with _ | ⟨entry, others⟩
  · have plain (nothing : (readMarc8 tables data inp).noRead = 0) :
        (readMarc8 tables data inp).errno = Option.some .eilseq ∨ (readMarc8 tables data inp).errno = Option.some .einval := by
      rw [readMarc8_start tables ahead] at nothing ⊢
      exact combLoop_stuck tables (by simp [CombValid]) (.inl some) (fun zero => absurd zero (by decide)) nothing
    cases compose with
    | false => exact plain none
    | true =>
      have valid' : CombValid (readMarc8 tables data inp).data := @readMarc8Or_valid tables data inp false valid
      have same : readMarc8Or tables true data inp = readMarc8 tables data inp := composeRead_stuck valid' none
      rw [same] at none ⊢
      exact plain none
  · rw [readMarc8Or_ahead tables compose ahead] at none
    have inside : entry ∈ data.comb := mem_of_mem_drop (by rw [ahead]; simp)
    exact absurd none (valid entry inside)

end

def NamesStuck (read : List UInt8 → Octets) : Prop :=
  ∀ inp, (read inp).noRead = 0 → (read inp).errno = some .eilseq ∨ (read inp).errno = some .einval

theorem readUCS4_stuck : NamesStuck readUCS4 := by
  intro inp none
  unfold readUCS4 at none ⊢
  split at none
  · simp at none
  · exact .inr rfl

theorem readUCS4LE_stuck : NamesStuck readUCS4LE := by
  intro inp none
  unfold readUCS4LE at none ⊢
  split at none
  · simp at none
  · exact .inr rfl

theorem readGreek_stuck (codec : Greek.GreekCodec) : NamesStuck (readGreek codec) := by
  intro inp none
  unfold readGreek at none ⊢
  split at none
  next r read => exact absurd none (Greek.GreekCodec.read_noRead read).1.ne'
  · exact .inr rfl

theorem readISO88591_stuck : NamesStuck readISO88591 := by
  intro inp none
  simp [readISO88591] at none

theorem yazReadUTF8Char_stuck : NamesStuck yazReadUTF8Char := by
  intro inp none
  rcases yazReadUTF8Char_more inp [] with ⟨-, incomplete⟩ | ⟨-, illegal⟩
  · exact .inr incomplete
  · exact .inl (illegal none)

def statelessNames {read : List UInt8 → Octets} (stuck : NamesStuck read) : Names (statelessDecoder read) :=
  { valid := fun _ => True
    init := fun _ => trivial
    initFailed := fun (failed : Init.ready () 0 = .failed _) => by cases failed
    read := fun _ => trivial
    stuck := fun _ _ none => stuck _ none }

def utf8Names : Names { statelessDecoder yazReadUTF8Char with initHandle := initUtf8 } :=
  { statelessNames yazReadUTF8Char_stuck with
    init := fun _ => trivial
    initFailed := fun (failed : initUtf8 () _ = .failed _) => utf8Accounts.initFailed (d := ()) failed }

def marc8Names (tables : Tables) (compose controlMode : Bool) : Names (marc8Decoder tables compose controlMode) :=
  { valid := CombValid
    init := (marc8Splits tables compose controlMode).initValid
    initFailed := fun failed => by cases failed
    read := fun valid => readMarc8Or_valid tables compose valid
    stuck := readMarc8Or_stuck tables compose }

def danmarcNames (junk : Junk) : Names { initHandle := initDanmarc, readHandle := readDanmarcComb junk } :=
  { valid := DanmarcValid
    init := (danmarcSplits junk).initValid
    initFailed := fun (failed : Init.ready [] 0 = .failed _) => by cases failed
    read := fun valid => (danmarcSplits junk).readValid valid
    stuck := by
      intro data inp valid _ none
      cases data with
      | nil => exact .inr (danmarcLoop_stuck junk none)
      | cons entry data => exact absurd none (valid entry List.mem_cons_self) }

def Fromcode.names (generated : Generated) (junk : Junk) : (code : Fromcode) → Names (code.decoder generated junk)
  | .marc8 => marc8Names generated.marc8.tables false false
  | .marc8s => marc8Names generated.marc8.tables true false
  | .marc8c => marc8Names generated.marc8.tables false true
  | .iso5426 => marc8Names generated.iso5426.tables false false
  | .utf8 => utf8Names
  | .ucs4 => statelessNames readUCS4_stuck
  | .ucs4le => statelessNames readUCS4LE_stuck
  | .iso88591 => statelessNames readISO88591_stuck
  | .iso5428 => statelessNames (readGreek_stuck _)
  | .advancegreek => statelessNames (readGreek_stuck _)
  | .wchar => statelessNames readUCS4LE_stuck
  | .danmarc => danmarcNames junk

/-- An encoder that takes the first code into a buffer of this size: `ready` holds of it behind a code that was taken, and `kept` behind
one that had no room, whether or not that one can be resumed. -/
structure Roomy {E : Type} {encoder : Encoder E} (resumes : Resumes encoder) (size : Nat) where
  ready : E → Prop
  kept : E → Prop
  readyKept : ∀ {w : E}, ready w → kept w
  valid : ∀ {w : E}, ready w → resumes.valid w
  init : ∀ w, ready (encoder.initHandle w)
  fits : ∀ {w : E} (x : Nat), kept w → ¬ (encoder.writeHandle w x size).Refused ∧ ready (encoder.writeHandle w x size).data
  taken : ∀ {w : E} {x room : Nat}, ready w → ¬ (encoder.writeHandle w x room).Refused → ready (encoder.writeHandle w x room).data
  refused : ∀ {w : E} {x room : Nat}, ready w → (encoder.writeHandle w x room).Refused → kept (encoder.writeHandle w x room).data
  flushed : ∀ {w : E} {room : Nat}, ready w → ready (encoder.flushed w room).data

def Roomy.of_enough {E : Type} {encoder : Encoder E} {resumes : Resumes encoder} {size : Nat} (ready : E → Prop)
    (valid : ∀ {w : E}, ready w → resumes.valid w) (init : ∀ w, ready (encoder.initHandle w))
    (fits : ∀ {w : E} (x : Nat), ready w → ¬ (encoder.writeHandle w x size).Refused)
    (keeps : ∀ {w : E} {x room : Nat}, ready w → ready (encoder.writeHandle w x room).data)
    (flushed : ∀ {w : E} {room : Nat}, ready w → ready (encoder.flushed w room).data) : Roomy resumes size :=
  { ready := ready, kept := ready, readyKept := id, valid := valid, init := init, fits := fun x isReady => ⟨fits x isReady, keeps isReady⟩
    taken := fun isReady _ => keeps isReady, refused := fun isReady _ => keeps isReady, flushed := flushed }

def utf8Roomy : Roomy utf8Resumes 128 :=
  Roomy.of_enough (fun _ => True) (fun _ => trivial) (fun _ => trivial)
    (by
      rintro w x - ⟨failed, -⟩
      obtain ⟨out, written⟩ := yazWriteUTF8Char_enough x
      have larger : yazWriteUTF8Char x 128 = some out := yazWriteUTF8Char_more (by decide) written
      simp [utf8Encoder, writeUTF8, larger] at failed)
    (fun _ => trivial) (fun _ => trivial)

def iso88591Roomy : Roomy iso88591Resumes 128 :=
  Roomy.of_enough (fun _ => True) (fun _ => trivial) (fun _ => trivial)
    (by
      intro w x _
      change ¬(writeIso88591 w x 128).Refused
      rw [writeIso88591]
      split
      · exact writeLatin1_enough _ (by decide)
      · rw [if_neg (by decide)]
        split
        · exact writeLatin1_enough _ (by decide)
        · exact writeLatin1_enough _ (by decide))
    (fun _ => trivial) (fun _ => trivial)

def DanmarcEncoder.Marks (w : DanmarcEncoder) : Prop := ∀ x ∈ w.comp, yazDanmarcIsCombining x = true

theorem DanmarcEncoder.composed_marks {w : DanmarcEncoder} (marks : w.Marks) : w.composed.Marks := by
  rw [DanmarcEncoder.composed]
  split
  · split
    · exact fun x inside => absurd inside not_mem_nil
    · exact marks
  · exact marks

theorem write1_mark {x room : Nat} {dia : Bool} {errno : Errno} (mark : yazDanmarcIsCombining x = true)
    (failed : write1 (if dia then yazDanmarcSwapToDanmarc x else x) room = .error errno) : errno = .e2big := by
  have small : x ≤ 0xffff := by
    simp only [yazDanmarcIsCombining, any_cons, any_nil, Bool.or_false, Bool.or_eq_true, Bool.and_eq_true, decide_eq_true_eq] at mark
    omega
  have swapped : yazDanmarcSwapToDanmarc x ≤ 0xffff := by
    rw [yazDanmarcSwapToDanmarc]
    cases found : swapSeq.find? fun row => row.2 = x with
    | none => exact small
    | some row =>
      have rows : ∀ row ∈ swapSeq, row.1 ≤ 0xffff := by decide
      exact rows row (mem_of_find?_eq_some found)
  have either : (if dia then yazDanmarcSwapToDanmarc x else x) ≤ 0xffff := by
    split
    · exact swapped
    · exact small
  rw [write1] at failed
  generalize (if dia then yazDanmarcSwapToDanmarc x else x) = y at either failed
  split_ifs at failed
  all_goals
    cases failed
    rfl

theorem flushComp_marks {dia : Bool} {comp : List Nat} {room : Nat} (marks : ∀ x ∈ comp, yazDanmarcIsCombining x = true) :
    (flushComp dia comp room).2.1 <:+ comp ∧ ∀ errno ∈ (flushComp dia comp room).2.2, errno = .e2big := by
  induction comp generalizing room with
  | nil => exact ⟨suffix_rfl, by simp [flushComp]⟩
  | cons x comp ih =>
    obtain ⟨mark, later⟩ := forall_mem_cons.mp marks
    rw [flushComp]
    cases written : write1 (if dia then yazDanmarcSwapToDanmarc x else x) room with
    | error =>
      refine ⟨suffix_rfl, ?_⟩
      rintro found ⟨⟩
      exact write1_mark mark written
    | ok out =>
      obtain ⟨suffix, full⟩ := @ih (room - out.length) later
      exact ⟨suffix.trans (suffix_cons x comp), full⟩

theorem flushDanmarc_marks {w : DanmarcEncoder} {room : Nat} (marks : w.Marks) :
    (flushDanmarc w room).data.comp <:+ w.composed.comp ∧ (¬ (flushDanmarc w room).Refused → (flushDanmarc w room).data.comp = []) := by
  obtain ⟨suffix, full⟩ := @flushComp_marks w.composed.dia w.composed.comp room (DanmarcEncoder.composed_marks marks)
  rw [flushDanmarc_eq]
  cases errno : (flushComp w.composed.dia w.composed.comp room).2.2 with
  | none =>
    rw [putBase_comp]
    exact ⟨nil_suffix, fun _ => rfl⟩
  | some found =>
    refine ⟨suffix, fun notRefused => absurd ⟨rfl, ?_⟩ notRefused⟩
    exact congrArg some (full found errno)

theorem writeDanmarc_marks {w : DanmarcEncoder} {x room : Nat} (marks : w.Marks) :
    (writeDanmarc w x room).data.Marks ∧ (writeDanmarc w x room).data.comp.length ≤ w.comp.length + 1 ∧
      (¬ (writeDanmarc w x room).Refused → (writeDanmarc w x room).data.comp.length ≤ 3) := by
  have flushed {v : DanmarcEncoder} (isMarks : v.Marks) (length : v.comp.length ≤ w.comp.length + 1) :
      (keepBase x (flushDanmarc v room)).data.Marks ∧ (keepBase x (flushDanmarc v room)).data.comp.length ≤ w.comp.length + 1 ∧
        (¬ (keepBase x (flushDanmarc v room)).Refused → (keepBase x (flushDanmarc v room)).data.comp.length ≤ 3) := by
    obtain ⟨suffix, none⟩ := @flushDanmarc_marks v room isMarks
    rw [DanmarcEncoder.Marks, keepBase_comp, keepBase_refused]
    refine ⟨fun y inside => v.composed_marks isMarks y (suffix.subset inside), ?_, fun notRefused => by simp [none notRefused]⟩
    exact suffix.length_le.trans (v.composed_length.trans length)
  cases mark : yazDanmarcIsCombining x with
  | false =>
    rw [writeDanmarc_letter mark]
    exact flushed marks (Nat.le_succ _)
  | true =>
    have marksThen : ({ w with comp := x :: w.comp } : DanmarcEncoder).Marks := forall_mem_cons.mpr ⟨mark, marks⟩
    by_cases few : (x :: w.comp).length < 4
    · have pushed : writeDanmarc w x room = { out := [], data := { w with comp := x :: w.comp } } := by
        rw [writeDanmarc, mark]
        exact if_pos ⟨rfl, few⟩
      rw [pushed]
      exact ⟨marksThen, Nat.le_refl _, fun _ => Nat.le_of_lt_succ few⟩
    · have pushed : writeDanmarc w x room = keepBase x (flushDanmarc { w with comp := x :: w.comp } room) := by
        rw [writeDanmarc, mark]
        exact if_neg fun both => few both.2
      rw [pushed]
      exact flushed marksThen (Nat.le_refl _)

def danmarcRoomy : Roomy danmarcResumes 128 :=
  { ready := fun w => w.Marks ∧ w.comp.length ≤ 3
    kept := fun w => w.Marks ∧ w.comp.length ≤ 4
    readyKept := fun ⟨marks, few⟩ => ⟨marks, by omega⟩
    valid := fun _ => trivial
    init := fun w => ⟨fun x inside => absurd inside List.not_mem_nil, Nat.zero_le _⟩
    fits := by
      rintro w x ⟨marks, few⟩
      have notRefused := @writeDanmarc_enough 128 w x (by omega)
      obtain ⟨marksThen, -, fewThen⟩ := @writeDanmarc_marks w x 128 marks
      exact ⟨notRefused, marksThen, fewThen notRefused⟩
    taken := by
      rintro w x room ⟨marks, few⟩ notRefused
      obtain ⟨marksThen, -, fewThen⟩ := @writeDanmarc_marks w x room marks
      exact ⟨marksThen, fewThen notRefused⟩
    refused := by
      rintro w x room ⟨marks, few⟩ -
      obtain ⟨marksThen, more, -⟩ := @writeDanmarc_marks w x room marks
      exact ⟨marksThen, more.trans (by omega)⟩
    flushed := by
      rintro w room ⟨marks, few⟩
      obtain ⟨suffix, -⟩ := @flushDanmarc_marks w room marks
      exact ⟨fun y inside => w.composed_marks marks y (suffix.subset inside), suffix.length_le.trans (w.composed_length.trans few)⟩ }

section
variable (r : Marc8rConv) (lossMode : LossMode)

theorem takenBack_paged {put : Put} {w : Marc8Encoder} (paged : w.Paged) : (put.takenBack w).data.Paged := by
  intro some
  refine paged fun none => some ?_
  rw [Put.takenBack, none]
  rfl

theorem yazWriteMarc8Generic_paged {w : Marc8Encoder} (x : Nat) {room : Nat} (paged : w.Paged) :
    (yazWriteMarc8Generic r lossMode w x room).data.Paged ∧ (32 ≤ room → ¬ (yazWriteMarc8Generic r lossMode w x room).written.Refused) := by
  rcases decomposed : yazIso88591LookupY x with _ | ⟨x1, x2⟩
  · have isPart := yazWriteMarc82_part r lossMode x
    rw [yazWriteMarc8Generic, decomposed]
    exact ⟨isPart.keeps paged, fun enough => isPart.fits paged (by omega)⟩
  · have same : yazWriteMarc8Generic r lossMode w x room =
        inTwo (fun w => yazWriteMarc82 r lossMode w x1) (fun w => yazWriteMarc82 r lossMode w x2) w room := by
      rw [yazWriteMarc8Generic, decomposed]
      rfl
    rw [same]
    have isPart := yazWriteMarc82_part r lossMode x1
    have isNext := yazWriteMarc82_part r lossMode x2
    have short := @isPart.short w room paged
    cases failed : (yazWriteMarc82 r lossMode w x1 room).failed with
    | true =>
      rw [inTwo_stopped failed]
      exact ⟨isPart.keeps paged, fun enough => isPart.fits paged (by omega)⟩
    | false =>
      have pagedThen := @isPart.keeps w room paged
      by_cases refused : (yazWriteMarc82 r lossMode (yazWriteMarc82 r lossMode w x1 room).data x2
          (room - (yazWriteMarc82 r lossMode w x1 room).out.length)).Refused
      · rw [inTwo_takenBack failed refused]
        exact ⟨takenBack_paged paged, fun enough => absurd refused (isNext.fits pagedThen (by omega))⟩
      · rw [inTwo_goesOn failed refused]
        exact ⟨isNext.keeps pagedThen, fun _ => followedBy_refused isNext refused⟩

def marc8Roomy : Roomy (marc8Resumes r lossMode) 128 :=
  Roomy.of_enough Marc8Encoder.Paged id (fun _ => initMarc8Encoder_paged)
    (fun x paged => (yazWriteMarc8Generic_paged r lossMode x paged).2 (by decide))
    (fun paged => (yazWriteMarc8Generic_paged r lossMode _ paged).1)
    (fun paged => flushMarc8_part.keeps paged)

end

def Tocode.roomy (r : Marc8rConv) : (code : Tocode) → Roomy (code.resumes r) 128
  | .marc8 lossMode => marc8Roomy r lossMode
  | .iso88591 => iso88591Roomy
  | .danmarc => danmarcRoomy
  | .utf8 => utf8Roomy

/-! ### Calls -/

section
variable {D E : Type} {decoder : Decoder D} {encoder : Encoder E} (names : Names decoder) {resumes : Resumes encoder} {size : Nat}
  (roomy : Roomy resumes size)

structure Steady (cd : Cd D E) : Prop where
  decoder : names.valid cd.decoder
  ready : cd.ungetX = 0 → roomy.ready cd.encoder
  kept : cd.ungetX ≠ 0 → roomy.kept cd.encoder ∧ cd.noReadX ≠ 0

structure Progressed (inbuf : List UInt8) (outbytesleft : Nat) (call : Call D E) : Prop where
  steady : call.cd.initFlag = false → Steady names roomy call.cd
  done : call.r ≠ none → call.cd.ungetX = 0 ∧ call.inbuf = []
  named : call.r = none → call.overran = false → call.cd.ungetX = 0 → call.cd.myErrno = .eilseq ∨ call.cd.myErrno = .einval
  kept : call.cd.ungetX ≠ 0 → call.inbuf ≠ []
  within : call.inbuf.length ≤ inbuf.length
  shorter : outbytesleft = size → inbuf ≠ [] → call.refused → call.inbuf.length < inbuf.length

variable {names roomy} {cd : Cd D E}

theorem Steady.holds (steady : Steady names roomy cd) : roomy.kept cd.encoder := by
  by_cases none : cd.ungetX = 0
  · exact roomy.readyKept (steady.ready none)
  · exact (steady.kept none).1

theorem Steady.read (steady : Steady names roomy cd) (inbuf : List UInt8) :
    names.valid (cd.round decoder inbuf).cd.decoder := by
  rw [Cd.round]
  split
  · exact steady.decoder
  · exact names.read steady.decoder

theorem write_cases {cd : Cd D E} {x outbytesleft : Nat} (ready : roomy.kept cd.encoder)
    (room : roomy.ready cd.encoder ∨ outbytesleft = size) :
    ((cd.write encoder x outbytesleft).failed = true ∧ (cd.wrote (cd.write encoder x outbytesleft)).myErrno = .e2big ∧
        x ≠ 0 ∧ outbytesleft ≠ size ∧ roomy.kept (cd.write encoder x outbytesleft).data) ∨
      ¬ ((cd.write encoder x outbytesleft).failed = true ∧ (cd.wrote (cd.write encoder x outbytesleft)).myErrno = .e2big) ∧
        (x = 0 ∨ roomy.ready (cd.write encoder x outbytesleft).data) := by
  by_cases none : x = 0
  · rw [Cd.write, if_pos none]
    exact .inr ⟨fun both => Bool.false_ne_true both.1, .inl none⟩
  · rw [Cd.write, if_neg none]
    have same : ((encoder.writeHandle cd.encoder x outbytesleft).failed = true ∧
        (cd.wrote (encoder.writeHandle cd.encoder x outbytesleft)).myErrno = .e2big) ↔
          (encoder.writeHandle cd.encoder x outbytesleft).Refused := by
      refine and_congr_right fun failed => ?_
      obtain ⟨errno, is⟩ := Option.ne_none_iff_exists'.mp ((resumes.write x).named failed)
      rw [Cd.wrote, is]
      exact ⟨congrArg some, Option.some.inj⟩
    by_cases refused : (encoder.writeHandle cd.encoder x outbytesleft).Refused
    · have small : outbytesleft ≠ size := by
        rintro rfl
        exact (roomy.fits x ready).1 refused
      obtain ⟨failed, errno⟩ := same.mpr refused
      exact .inl ⟨failed, errno, none, small, roomy.refused (room.resolve_right small) refused⟩
    · refine .inr ⟨fun both => refused (same.mp both), .inr ?_⟩
      rcases room with isReady | rfl
      · exact roomy.taken isReady refused
      · exact (roomy.fits x ready).2

theorem Steady.taken (steady : Steady names roomy cd)
    (notStuck : ¬ (cd.ungetX = 0 ∧ (cd.round decoder inbuf).noRead = 0)) : (cd.round decoder inbuf).noRead ≠ 0 := by
  intro nothing
  by_cases none : cd.ungetX = 0
  · exact notStuck ⟨none, nothing⟩
  · rw [Cd.round_kept decoder none] at nothing
    exact (steady.kept none).2 nothing

theorem Steady.wrote (steady : Steady names roomy cd) {outbytesleft : Nat}
    (room : cd.ungetX = 0 ∨ outbytesleft = size)
    (free : ¬ (((cd.round decoder inbuf).cd.write encoder (cd.round decoder inbuf).x outbytesleft).failed = true ∧
      ((cd.round decoder inbuf).cd.wrote
        ((cd.round decoder inbuf).cd.write encoder (cd.round decoder inbuf).x outbytesleft)).myErrno = .e2big)) :
    roomy.ready ((cd.round decoder inbuf).cd.write encoder (cd.round decoder inbuf).x outbytesleft).data := by
  have same : (cd.round decoder inbuf).cd.encoder = cd.encoder := Cd.round_encoder decoder cd inbuf
  rcases @write_cases D E encoder resumes size roomy (cd.round decoder inbuf).cd (cd.round decoder inbuf).x outbytesleft
    (same ▸ steady.holds)
    (room.imp_left fun none => same ▸ steady.ready none) with ⟨failed, errno, -⟩ | ⟨-, nothing | ready⟩
  · exact absurd ⟨failed, errno⟩ free
  · rw [nothing, Cd.write, if_pos rfl, same]
    refine steady.ready ?_
    by_contra kept
    rw [Cd.round_kept decoder kept] at nothing
    exact kept nothing
  · exact ready

theorem convert_progressed {start : Nat} {cd : Cd D E} {inbuf : List UInt8} {outbytesleft : Nat} (steady : Steady names roomy cd)
    (room : cd.ungetX = 0 ∨ outbytesleft = size) :
    Progressed names roomy inbuf outbytesleft (convert decoder encoder start cd inbuf outbytesleft) := by
  fun_induction convert decoder encoder start cd inbuf outbytesleft with
  | case1 cd inbuf outbytesleft done =>
    refine ⟨fun _ => steady, fun _ => done, fun none => by simp at none, fun kept => absurd done.1 kept, Nat.le_refl _,
      fun _ _ refused => by simp [Call.refused] at refused⟩
  -- the decoder takes nothing: it says why, and the reason is not that there is no room
  | case2 cd inbuf outbytesleft notDone round stuck =>
    have some : inbuf ≠ [] := fun empty => notDone ⟨stuck.1, empty⟩
    have isRound : round = _ := Cd.round_read decoder stuck.1 inbuf
    have nothing : (decoder.readHandle cd.decoder inbuf).noRead = 0 := by
      have none := stuck.2
      rwa [isRound] at none
    have errno := names.stuck steady.decoder some nothing
    have named : round.cd.myErrno = .eilseq ∨ round.cd.myErrno = .einval := by
      rw [isRound]
      dsimp only
      rcases errno with illegal | incomplete
      · rw [illegal]
        exact .inl rfl
      · rw [incomplete]
        exact .inr rfl
    refine ⟨fun _ => ⟨steady.read inbuf, ?_, ?_⟩, fun never => absurd rfl never, fun _ _ _ => named, fun _ => some, Nat.le_refl _, ?_⟩
    · intro _
      rw [Cd.round_encoder]
      exact steady.ready stuck.1
    · intro kept
      exact absurd ((Cd.round_ungetX decoder cd inbuf).trans stuck.1) kept
    · rintro - - ⟨-, full⟩
      rw [full] at named
      simp at named
  -- no room: this is not the first code into the buffer, so something was taken
  | case3 cd inbuf outbytesleft notDone round notStuck written next refused =>
    have same : round.cd.encoder = cd.encoder := Cd.round_encoder decoder cd inbuf
    have taken : round.noRead ≠ 0 := steady.taken notStuck
    rcases @write_cases D E encoder resumes size roomy round.cd round.x outbytesleft (same ▸ steady.holds)
      (room.imp_left fun none => same ▸ steady.ready none) with ⟨-, -, some, small, kept⟩ | ⟨goesOn, -⟩
    · refine ⟨fun _ => ⟨steady.read inbuf, fun none => absurd none some, fun _ => ⟨kept, taken⟩⟩, fun never => absurd rfl never,
        fun _ _ none => absurd none some, ?_, Nat.le_refl _, fun full => absurd full small⟩
      exact fun _ empty => notDone ⟨room.resolve_right small, empty⟩
    · exact absurd refused goesOn
  -- `*inbytesleft` wraps around: all is taken
  | case4 cd inbuf outbytesleft notDone round notStuck written next free outside =>
    refine ⟨fun _ => ⟨steady.read inbuf, fun _ => steady.wrote room free, fun kept => absurd rfl kept⟩, fun never => absurd rfl never,
      fun _ within => absurd within.symm Bool.false_ne_true, fun kept => absurd rfl kept, Nat.zero_le _, fun _ some _ =>
        length_pos_iff.mpr some⟩
  | case5 cd inbuf outbytesleft notDone round notStuck written next free within ih =>
    have taken : round.noRead ≠ 0 := steady.taken notStuck
    have later := ih ⟨steady.read inbuf, fun _ => steady.wrote room free, fun kept => absurd rfl kept⟩ (.inl rfl)
    have left : (inbuf.drop round.noRead).length = inbuf.length - round.noRead := length_drop
    refine ⟨later.steady, later.done, later.named, later.kept, ?_, ?_⟩
    · exact later.within.trans (by omega)
    · intro _ some _
      exact lt_of_le_of_lt later.within (by omega)

theorem yazIconv_progressed {cd : Cd D E} (steady : cd.initFlag = false → Steady names roomy cd) :
    Progressed names roomy inbuf size (yazIconv decoder encoder cd (some inbuf) (some size)) := by
  cases flag : cd.initFlag with
  | false =>
    rw [yazIconv, flag]
    exact convert_progressed (steady flag) (.inr rfl)
  | true =>
    rw [yazIconv, flag]
    simp only [if_true, Option.getD_some]
    cases init : decoder.initHandle cd.decoder inbuf with
    | failed =>
      have incomplete := names.initFailed init
      subst incomplete
      refine ⟨fun begun => ?_, fun never => absurd rfl never, fun _ _ _ => .inr rfl, fun kept => absurd rfl kept, Nat.le_refl _, ?_⟩
      · simp at begun
      · rintro - - ⟨-, full⟩
        cases full
    | ready data noRead =>
      dsimp only [Option.map_some, Cd.goOn, Option.getD_some]
      have later := @convert_progressed D E decoder encoder names resumes size roomy inbuf.length
        { cd with
          myErrno := .unknown, encoder := encoder.initHandle cd.encoder, ungetX := 0, noReadX := 0, decoder := data, initFlag := false }
        (inbuf.drop noRead) size ⟨names.init init, fun _ => roomy.init _, fun kept => absurd rfl kept⟩ (.inl rfl)
      have less : (inbuf.drop noRead).length ≤ inbuf.length := by
        rw [length_drop]
        omega
      refine ⟨later.steady, later.done, later.named, later.kept, later.within.trans less, ?_⟩
      intro _ some refused
      by_cases none : inbuf.drop noRead = []
      · have within := later.within
        rw [none] at within ⊢
        exact lt_of_le_of_lt within (length_pos_iff.mpr some)
      · exact lt_of_lt_of_le (later.shorter rfl none refused) less

theorem flush_decoder (cd : Cd D E) (room : Option Nat) : (flush encoder cd room).cd.decoder = cd.decoder := by
  cases room <;> rfl

theorem flush_steady {room : Nat} (flag : cd.initFlag = false) (steady : Steady names roomy cd) (none : cd.ungetX = 0) :
    Steady names roomy (flush encoder cd (some room)).cd ∧ (flush encoder cd (some room)).cd.ungetX = 0 := by
  have wrote := @flush_wrote D E encoder cd room none flag resumes.flush.named
  refine ⟨⟨?_, fun _ => ?_, fun kept => absurd wrote.none kept⟩, wrote.none⟩
  · rw [flush_decoder]
    exact steady.decoder
  · rw [wrote.data]
    exact roomy.flushed (steady.ready none)

theorem yazIconv_flush_steady {room : Nat} (steady : cd.initFlag = false → Steady names roomy cd ∧ cd.ungetX = 0)
    (begun : (yazIconv decoder encoder cd none (some room)).cd.initFlag = false) :
    Steady names roomy (yazIconv decoder encoder cd none (some room)).cd ∧
      (yazIconv decoder encoder cd none (some room)).cd.ungetX = 0 := by
  cases flag : cd.initFlag with
  | false =>
    obtain ⟨isSteady, none⟩ := steady flag
    rw [yazIconv, flag]
    exact flush_steady flag isSteady none
  | true =>
    rw [yazIconv, flag] at begun ⊢
    simp only [if_true, Option.getD_none] at begun ⊢
    cases init : decoder.initHandle cd.decoder [] with
    | failed =>
      rw [init, names.initFailed init] at begun
      simp at begun
    | ready => exact flush_steady rfl ⟨names.init init, fun _ => roomy.init _, fun kept => absurd rfl kept⟩ rfl

end

section
variable {D E : Type}

/-- What is left of an input behind all the codes that can be read of it; `none` if a read takes more octets than there are. -/
def leftOf (decoder : Decoder D) (d : D) (inp : List UInt8) : Option (List UInt8) :=
  if inp = [] then some []
  else
    let read := decoder.readHandle d inp
    if read.noRead = 0 then some inp
    else if inp.length < read.noRead then none
    else leftOf decoder read.data (inp.drop read.noRead)
termination_by inp.length
decreasing_by
  rename_i some stuck _
  have positive := List.length_pos_iff.mpr some
  have taken : (decoder.readHandle d inp).noRead ≠ 0 := stuck
  rw [List.length_drop]
  omega

def Cd.left (decoder : Decoder D) (cd : Cd D E) (inp : List UInt8) : Option (List UInt8) :=
  if cd.initFlag then
    match decoder.initHandle cd.decoder inp with
    | .failed _ => some inp
    | .ready data noRead => leftOf decoder data (inp.drop noRead)
  else if cd.ungetX = 0 then leftOf decoder cd.decoder inp
  else if inp.length < cd.noReadX then none
  else leftOf decoder cd.decoder (inp.drop cd.noReadX)

variable {decoder : Decoder D} {encoder : Encoder E} {cd : Cd D E}

/-- Where a call leaves off: with a code that it kept it goes on, and otherwise it has come to what is left. -/
structure Leaves (decoder : Decoder D) (left : Option (List UInt8)) (call : Call D E) : Prop where
  kept : call.cd.ungetX ≠ 0 → call.cd.left decoder call.inbuf = left
  ended : call.cd.ungetX = 0 → left = if call.overran then none else some call.inbuf
  stuck : call.cd.ungetX = 0 → call.r = none → call.overran = false → call.inbuf ≠ []

end

end Yaz.Iconv
