import Yaz.Iconv.Encoders

/-! No read takes more octets than there are, and at the end of the input all were taken.

A decoder that returns a letter before the marks in front of it owes the octets of the marks.
`Accounts` says that what it takes and what it then owes is never more than what is left.
-/

set_option autoImplicit false

namespace Yaz.Iconv
open List

section
variable {D E : Type}

/-- A decoder that keeps account: `pending` is what it owes, `full` says when it does not keep account,
and `marked` that it skips the start of an input. -/
structure Accounts (decoder : Decoder D) where
  pending : D → Nat
  full : D → List UInt8 → Bool
  marked : List UInt8 → Bool
  init : ∀ {d data : D} {inp : List UInt8} {noRead : Nat},
    decoder.initHandle d inp = .ready data noRead → noRead ≤ inp.length ∧ pending data = 0
  unmarked : ∀ {d data : D} {inp : List UInt8} {noRead : Nat},
    decoder.initHandle d inp = .ready data noRead → marked inp = false → noRead = 0
  initFailed : ∀ {d : D} {inp : List UInt8} {errno : Errno}, decoder.initHandle d inp = .failed errno → errno = .einval
  read : ∀ {d : D} {inp : List UInt8}, inp ≠ [] → pending d ≤ inp.length → full d inp = false →
    (decoder.readHandle d inp).noRead + pending (decoder.readHandle d inp).data ≤ inp.length

variable {decoder : Decoder D} (accounts : Accounts decoder) (encoder : Encoder E)

def Accounts.owed (cd : Cd D E) : Nat :=
  accounts.pending cd.decoder + if cd.ungetX = 0 then 0 else cd.noReadX

structure Accounts.Kept (inbuf : List UInt8) (call : Call D E) : Prop where
  overran : call.overran = false
  within : ∀ event ∈ call.reads, event.noRead ≤ event.inbuf.length
  balance : call.taken.sum + call.inbuf.length = inbuf.length
  owed : call.cd.initFlag = false → accounts.owed call.cd ≤ call.inbuf.length
  complete : call.r.isSome → call.inbuf = []

variable {cd : Cd D E} {inbuf : List UInt8}

theorem Accounts.round (owed : accounts.owed cd ≤ inbuf.length)
    (notDone : ¬ (cd.ungetX = 0 ∧ inbuf = [])) (notFull : ∀ event ∈ (cd.round decoder inbuf).reads,
      accounts.full event.data event.inbuf = false) :
    (cd.round decoder inbuf).noRead + accounts.pending (cd.round decoder inbuf).cd.decoder ≤ inbuf.length ∧
      ∀ event ∈ (cd.round decoder inbuf).reads, event.noRead ≤ event.inbuf.length := by
  rw [Accounts.owed] at owed
  by_cases kept : cd.ungetX = 0
  · have some : inbuf ≠ [] := fun empty => notDone ⟨kept, empty⟩
    rw [if_pos kept] at owed
    rw [Cd.round_read decoder kept] at notFull ⊢
    have read := accounts.read some owed (notFull ⟨cd.decoder, inbuf, _⟩ (mem_singleton.mpr rfl))
    constructor
    · exact read
    · intro event inside
      rw [mem_singleton.mp inside]
      dsimp only
      omega
  · rw [if_neg kept] at owed
    rw [Cd.round_kept decoder kept]
    constructor
    · dsimp only
      omega
    · simp

theorem convert_kept {start : Nat} {outbytesleft : Nat}
    (owed : accounts.owed cd ≤ inbuf.length)
    (notFull : ∀ event ∈ (convert decoder encoder start cd inbuf outbytesleft).reads, accounts.full event.data event.inbuf = false) :
    accounts.Kept inbuf (convert decoder encoder start cd inbuf outbytesleft) := by
  fun_induction convert decoder encoder start cd inbuf outbytesleft with
  | case1 cd inbuf outbytesleft done =>
    exact ⟨rfl, by simp, by simp, fun _ => owed, fun _ => done.2⟩
  | case2 cd inbuf outbytesleft notDone round stuck =>
    have total : round.noRead + accounts.pending round.cd.decoder ≤ inbuf.length := (accounts.round owed notDone notFull).1
    refine ⟨rfl, (accounts.round owed notDone notFull).2, by simp, fun _ => ?_, by simp⟩
    rw [Accounts.owed, if_pos (by rw [Cd.round_ungetX]; exact stuck.1)]
    dsimp only
    omega
  | case3 cd inbuf outbytesleft notDone round notStuck written next refused =>
    have total : round.noRead + accounts.pending round.cd.decoder ≤ inbuf.length := (accounts.round owed notDone notFull).1
    refine ⟨rfl, (accounts.round owed notDone notFull).2, by simp, fun _ => ?_, by simp⟩
    rw [Accounts.owed]
    dsimp only [next]
    rw [Cd.wrote_decoder]
    split <;> omega
  | case4 cd inbuf outbytesleft notDone round notStuck written next room outside =>
    have total : round.noRead + accounts.pending round.cd.decoder ≤ inbuf.length := (accounts.round owed notDone notFull).1
    omega
  | case5 cd inbuf outbytesleft notDone round notStuck written next room within ih =>
    have front : ∀ event ∈ round.reads, accounts.full event.data event.inbuf = false := by
      intro event inside
      exact notFull event (by simp [Call.behind, inside])
    have total : round.noRead + accounts.pending round.cd.decoder ≤ inbuf.length := (accounts.round owed notDone front).1
    have later := ih ?_ ?_
    · refine ⟨later.overran, ?_, ?_, later.owed, later.complete⟩
      · intro event inside
        rcases mem_append.mp inside with first | others
        · exact (accounts.round owed notDone front).2 event first
        · exact later.within event others
      · have sum := later.balance
        simp only [Call.behind, sum_cons, singleton_append, length_drop] at sum ⊢
        omega
    · have left : (inbuf.drop round.noRead).length = inbuf.length - round.noRead := length_drop
      rw [Accounts.owed, if_pos rfl]
      rw [Cd.wrote_decoder]
      omega
    · intro event inside
      exact notFull event (by simp [Call.behind, inside])

/-- A request of the caller: the octets that were left and more, no input, or another input behind a flush. -/
inductive Request where
  | convert (more : List UInt8) (outbytesleft : Nat)
  | flush (outbytesleft : Option Nat)
  | restart
  deriving DecidableEq

/-- A descriptor and what its caller knows: what is left of the input, the octets that were given of it
and those that were taken, and how the last call ended. `reads` and `starts` are for every input. -/
structure Session (D E : Type) where
  cd : Cd D E
  rest : List UInt8
  given : Nat
  taken : List Nat
  r : Option Nat
  reads : List (ReadEvent D)
  starts : List (List UInt8)
  deriving DecidableEq

def Session.opened (decoderData : D) (encoderData : E) : Session D E :=
  { cd := { myErrno := .unknown, initFlag := true, noReadX := 0, ungetX := 0, encoder := encoderData, decoder := decoderData }
    rest := [], given := 0, taken := [], r := none, reads := [], starts := [] }

def Session.request (decoder : Decoder D) (encoder : Encoder E) (session : Session D E) : Request → Session D E
  | .convert more outbytesleft =>
    let call := yazIconv decoder encoder session.cd (some (session.rest ++ more)) (some outbytesleft)
    { cd := call.cd, rest := call.inbuf, given := session.given + more.length, taken := session.taken ++ call.taken
      r := call.r, reads := session.reads ++ call.reads
      starts := if session.cd.initFlag then session.starts ++ [session.rest ++ more] else session.starts }
  | .flush outbytesleft =>
    let call := yazIconv decoder encoder session.cd none outbytesleft
    { session with
      cd := call.cd, r := none
      starts := if session.cd.initFlag then session.starts ++ [[]] else session.starts }
  | .restart => if session.cd.initFlag then { session with rest := [], given := 0, taken := [], r := none } else session

structure Accounts.Sound (session : Session D E) : Prop where
  owed : session.cd.initFlag = false → accounts.owed session.cd ≤ session.rest.length
  within : ∀ event ∈ session.reads, event.noRead ≤ event.inbuf.length
  balance : session.taken.sum + session.rest.length = session.given
  complete : session.r.isSome → session.rest = []

theorem yazIconv_kept {outbytesleft : Nat}
    (owed : cd.initFlag = false → accounts.owed cd ≤ inbuf.length) (unmarked : cd.initFlag = true → accounts.marked inbuf = false)
    (notFull : ∀ event ∈ (yazIconv decoder encoder cd (some inbuf) (some outbytesleft)).reads,
      accounts.full event.data event.inbuf = false) :
    accounts.Kept inbuf (yazIconv decoder encoder cd (some inbuf) (some outbytesleft)) := by
  cases flag : cd.initFlag with
  | false =>
    rw [yazIconv, flag] at notFull ⊢
    exact convert_kept accounts encoder (owed flag) notFull
  | true =>
    rw [yazIconv, flag] at notFull ⊢
    simp only [if_true, Option.getD_some] at notFull ⊢
    cases init : decoder.initHandle cd.decoder inbuf with
    | failed =>
      have incomplete := accounts.initFailed init
      exact ⟨rfl, by simp, by simp, by simp [incomplete], by simp⟩
    | ready =>
      obtain rfl := accounts.unmarked init (unmarked flag)
      have nothing := (accounts.init init).2
      rw [init] at notFull
      apply convert_kept accounts encoder _ notFull
      rw [Accounts.owed, if_pos rfl]
      dsimp only
      omega

theorem flush_owed {outbytesleft : Option Nat} {left : Nat} (owed : cd.initFlag = false → accounts.owed cd ≤ left)
    (flag : (yazIconv decoder encoder cd none outbytesleft).cd.initFlag = false) :
    accounts.owed (yazIconv decoder encoder cd none outbytesleft).cd ≤ left := by
  have flushed : ∀ (cd : Cd D E), (flush encoder cd outbytesleft).cd.decoder = cd.decoder ∧
    (flush encoder cd outbytesleft).cd.ungetX = 0 := by
    intro cd
    unfold flush
    split <;> exact ⟨rfl, rfl⟩
  cases first : cd.initFlag with
  | false =>
    have before := owed first
    rw [yazIconv, first] at flag ⊢
    rw [Accounts.owed] at before ⊢
    simp only [Bool.false_eq_true, if_false, Cd.goOn]
    rw [(flushed cd).1, (flushed cd).2, if_pos rfl]
    omega
  | true =>
    rw [yazIconv, first] at flag ⊢
    simp only [if_true, Option.getD_none] at flag ⊢
    cases init : decoder.initHandle cd.decoder [] with
    | failed =>
      rw [init] at flag
      simp [accounts.initFailed init] at flag
    | ready =>
      have nothing := (accounts.init init).2
      simp only [Option.map_none, Cd.goOn]
      rw [Accounts.owed, (flushed _).1, (flushed _).2, if_pos rfl]
      dsimp only
      omega

theorem Session.request_sound {session : Session D E} {request : Request} (sound : accounts.Sound session)
    (unmarked : ∀ start ∈ (session.request decoder encoder request).starts, accounts.marked start = false)
    (notFull : ∀ event ∈ (session.request decoder encoder request).reads, accounts.full event.data event.inbuf = false) :
    accounts.Sound (session.request decoder encoder request) := by
  cases request with
  | convert more outbytesleft =>
    have kept : accounts.Kept (session.rest ++ more)
      (yazIconv decoder encoder session.cd (some (session.rest ++ more)) (some outbytesleft)) := by
      apply yazIconv_kept accounts encoder
      · intro flag
        have owed := sound.owed flag
        rw [length_append]
        omega
      · intro flag
        exact unmarked _ (by simp [Session.request, flag])
      · intro event inside
        exact notFull event (by simp [Session.request, inside])
    refine ⟨kept.owed, ?_, ?_, kept.complete⟩
    · intro event inside
      rcases mem_append.mp inside with before | new
      · exact sound.within event before
      · exact kept.within event new
    · have before := sound.balance
      have new := kept.balance
      simp only [Session.request, sum_append, length_append] at new ⊢
      omega
  | flush =>
    refine ⟨?_, sound.within, sound.balance, by simp [Session.request]⟩
    intro flag
    exact flush_owed accounts encoder sound.owed flag
  | restart =>
    rw [Session.request] at unmarked notFull ⊢
    split
    next flag =>
      refine ⟨?_, sound.within, rfl, by simp⟩
      intro other
      simp [flag] at other
    · exact sound

def Session.run (decoder : Decoder D) (encoder : Encoder E) (session : Session D E) (requests : List Request) : Session D E :=
  requests.foldl (Session.request decoder encoder) session

theorem Session.request_logs (decoder : Decoder D) (session : Session D E) (request : Request) :
    session.reads ⊆ (session.request decoder encoder request).reads ∧
      session.starts ⊆ (session.request decoder encoder request).starts := by
  cases request with
  | convert =>
    constructor
    · exact subset_append_left _ _
    · simp only [Session.request]
      split
      · exact subset_append_left _ _
      · exact List.Subset.refl _
  | flush =>
    constructor
    · exact List.Subset.refl _
    · simp only [Session.request]
      split
      · exact subset_append_left _ _
      · exact List.Subset.refl _
  | restart =>
    rw [Session.request]
    split <;> exact ⟨List.Subset.refl _, List.Subset.refl _⟩

theorem Session.run_logs (decoder : Decoder D) (session : Session D E) (requests : List Request) :
    session.reads ⊆ (session.run decoder encoder requests).reads ∧ session.starts ⊆ (session.run decoder encoder requests).starts := by
  induction requests generalizing session with
  | nil => exact ⟨List.Subset.refl _, List.Subset.refl _⟩
  | cons request _ ih =>
    have first := session.request_logs encoder decoder request
    have later := ih (session.request decoder encoder request)
    exact ⟨List.Subset.trans first.1 later.1, List.Subset.trans first.2 later.2⟩

theorem Session.run_sound {session : Session D E} {requests : List Request} (sound : accounts.Sound session)
    (unmarked : ∀ start ∈ (session.run decoder encoder requests).starts, accounts.marked start = false)
    (notFull : ∀ event ∈ (session.run decoder encoder requests).reads, accounts.full event.data event.inbuf = false) :
    accounts.Sound (session.run decoder encoder requests) := by
  induction requests generalizing session with
  | nil => exact sound
  | cons request requests ih =>
    have logs := (session.request decoder encoder request).run_logs encoder decoder requests
    apply ih _ unmarked notFull
    apply session.request_sound accounts encoder sound
    · intro start inside
      exact unmarked start (logs.2 inside)
    · intro event inside
      exact notFull event (logs.1 inside)

end

/-! ### The decoders -/

def statelessAccounts {read : List UInt8 → Octets} (within : ∀ inp, inp ≠ [] → (read inp).noRead ≤ inp.length) :
    Accounts (statelessDecoder read) :=
  { pending := fun _ => 0
    full := fun _ _ => false
    marked := fun _ => false
    init := by
      intro d data inp noRead ready
      simp only [statelessDecoder, Init.ready.injEq] at ready
      exact ⟨by omega, rfl⟩
    unmarked := by
      intro d data inp noRead ready _
      simp only [statelessDecoder, Init.ready.injEq] at ready
      exact ready.2.symm
    initFailed := by
      intro d inp errno failed
      simp [statelessDecoder] at failed
    read := fun some _ _ => within _ some }

theorem readGreek_noRead (codec : Greek.GreekCodec) (inp : List UInt8) : (readGreek codec inp).noRead ≤ inp.length := by
  unfold readGreek
  split
  next r read => exact (Greek.GreekCodec.read_noRead read).2
  · exact Nat.zero_le _

theorem utf8Sequence_noRead (first n least : Nat) (rest : List UInt8) : (utf8Sequence first n least rest).noRead ≤ n + 1 := by
  unfold utf8Sequence
  split
  · dsimp only
    split
    · exact Nat.le_refl _
    · exact Nat.zero_le _
  · exact Nat.zero_le _

variable (inp : List UInt8)

theorem yazReadUTF8Char_noRead : (yazReadUTF8Char inp).noRead ≤ inp.length := by
  unfold yazReadUTF8Char
  split
  · exact Nat.le_refl _
  next c rest =>
    -- every branch has tested for the octets that it takes
    split
    · simp
    · split
      · exact Nat.zero_le _
      · split
        next enough => exact Nat.le_trans (utf8Sequence_noRead _ _ _ _) enough.2
        · split
          next enough => exact Nat.le_trans (utf8Sequence_noRead _ _ _ _) enough.2
          · split
            next enough => exact Nat.le_trans (utf8Sequence_noRead _ _ _ _) enough.2
            · split
              next enough => exact Nat.le_trans (utf8Sequence_noRead _ _ _ _) enough.2
              · split
                next enough => exact Nat.le_trans (utf8Sequence_noRead _ _ _ _) enough.2
                · exact Nat.zero_le _

theorem readUCS4_noRead : (readUCS4 inp).noRead ≤ inp.length := by
  unfold readUCS4
  split
  · simp
  · exact Nat.zero_le _

theorem readUCS4LE_noRead : (readUCS4LE inp).noRead ≤ inp.length := by
  unfold readUCS4LE
  split
  · simp
  · exact Nat.zero_le _

variable {inp : List UInt8}

theorem readISO88591_noRead (some : inp ≠ []) : (readISO88591 inp).noRead ≤ inp.length :=
  length_pos_iff.mpr some

/-- The three octets that `init_utf8` skips; its test is for an octet other than that of the mark. -/
def utf8Marked (inp : List UInt8) : Bool :=
  inp.head? = some 0xef && (inp.drop 1).head? ≠ some 0xbb && (inp.drop 2).head? = some 0xbf

theorem initUtf8_ready {data : Unit} {noRead : Nat} (ready : initUtf8 () inp = .ready data noRead) :
    noRead ≤ inp.length ∧ (noRead = 0 ∨ utf8Marked inp = true) := by
  rw [initUtf8] at ready
  split at ready
  · simp only [Init.ready.injEq] at ready
    exact ⟨by omega, .inl ready.2.symm⟩
  next starts =>
    split at ready
    · simp at ready
    next enough =>
      split at ready
      next mark =>
        simp only [Init.ready.injEq] at ready
        simp only [ne_eq, Decidable.not_not] at starts
        refine ⟨by omega, .inr ?_⟩
        rw [utf8Marked, starts, mark.2]
        simpa using mark.1
      · simp only [Init.ready.injEq] at ready
        exact ⟨by omega, .inl ready.2.symm⟩

def utf8Accounts : Accounts { statelessDecoder yazReadUTF8Char with initHandle := initUtf8 } :=
  { statelessAccounts (fun inp _ => yazReadUTF8Char_noRead inp) with
    marked := utf8Marked
    init := fun ready => ⟨(initUtf8_ready ready).1, rfl⟩
    unmarked := fun ready none => (initUtf8_ready ready).2.resolve_right (by simp [none])
    initFailed := by
      intro d inp errno failed
      simp only [initUtf8] at failed
      split at failed
      · simp at failed
      · split at failed
        · simp only [Init.failed.injEq] at failed
          exact failed.symm
        · split at failed <;> simp at failed
    read := fun _ _ _ => yazReadUTF8Char_noRead _ }

/-! DanMARC. -/

theorem readUseq_noRead (junk : Junk) (inp : List UInt8) : (readUseq junk inp).noRead ≤ inp.length := by
  unfold readUseq
  split
  · exact Nat.zero_le _
  · dsimp only
    omega

theorem readDanmarc_noRead (junk : Junk) (inp : List UInt8) : (readDanmarc junk inp).noRead ≤ inp.length := by
  unfold readDanmarc
  split
  · exact Nat.zero_le _
  · split
    · exact Nat.zero_le _
    · simp
  · repeat' split
    all_goals first
      | exact readUseq_noRead junk _
      | exact Nat.zero_le _
      | simp only [length_cons] at *; omega

def danmarcPending (data : DanmarcData) : Nat := (data.map Prod.snd).sum

theorem danmarcLoop_noRead (junk : Junk) {rounds : Nat} {data : DanmarcData} {total : Nat}
    (within : danmarcPending data + inp.length ≤ total) :
    (danmarcLoop junk rounds data inp).noRead + danmarcPending (danmarcLoop junk rounds data inp).data ≤ total := by
  have read : (readSwapped junk inp).noRead ≤ inp.length := readDanmarc_noRead junk inp
  induction rounds generalizing data inp with
  | zero =>
    rw [danmarcLoop]
    dsimp only
    omega
  | succ _ ih =>
    rw [danmarcLoop]
    split
    · apply ih _ (readDanmarc_noRead junk _)
      have pushed : danmarcPending (((readSwapped junk inp).x, (readSwapped junk inp).noRead) :: data) =
          (readSwapped junk inp).noRead + danmarcPending data := by
        simp [danmarcPending]
      rw [pushed, length_drop]
      omega
    · dsimp only
      omega

def danmarcAccounts (junk : Junk) : Accounts { initHandle := initDanmarc, readHandle := readDanmarcComb junk } :=
  { pending := danmarcPending
    full := fun _ _ => false
    marked := fun _ => false
    init := by
      intro d data inp noRead ready
      simp only [initDanmarc, Init.ready.injEq] at ready
      rw [← ready.1]
      exact ⟨by omega, rfl⟩
    unmarked := by
      intro d data inp noRead ready _
      simp only [initDanmarc, Init.ready.injEq] at ready
      exact ready.2.symm
    initFailed := by
      intro d inp errno failed
      simp [initDanmarc] at failed
    read := by
      intro data inp _ owed _
      cases data with
      | nil => exact danmarcLoop_noRead junk (by simp [danmarcPending])
      | cons entry data => simpa [danmarcPending, readDanmarcComb] using owed }

/-! MARC-8 and ISO 5426. -/

theorem skipEscapes_length {data data' : CombData} {rest : List UInt8} (skipped : skipEscapes data inp = (data', some rest)) :
    rest.length ≤ inp.length := by
  fun_induction skipEscapes data inp with
  | case1 data => simp_all
  | case2 data inp incomplete => simp at skipped
  | case3 data inp g1 final after read ih =>
    have less := escapeSequence_length read
    have later := ih skipped
    simp only [length_cons]
    omega
  | case4 data c inp other =>
    simp only [Prod.mk.injEq, Option.some.injEq] at skipped
    rw [← skipped.2]

section
variable (tables : Tables) (data : CombData)

theorem readChar_noRead (skipped : Nat) (c : UInt8) (rest : List UInt8) :
    (readChar tables data skipped c rest).1.noRead ≤ skipped + (rest.length + 1) := by
  unfold readChar
  split
  · dsimp only
    omega
  · split
    · dsimp only
      omega
    · split
      · exact Nat.zero_le _
      next table _ =>
        have taken := table.noRead_le (c :: rest) (by simp)
        simp only [length_cons] at taken ⊢
        omega

theorem readChar_data (skipped : Nat) (c : UInt8) (rest : List UInt8) :
    (readChar tables data skipped c rest).1.data = data := by
  unfold readChar
  repeat' split
  all_goals rfl

theorem yazReadMarc8Comb_noRead (inp : List UInt8) : (yazReadMarc8Comb tables data inp).1.noRead ≤ inp.length := by
  unfold yazReadMarc8Comb
  split
  · exact Nat.zero_le _
  · exact Nat.le_refl _
  next data' c rest skipped =>
    have length := skipEscapes_length skipped
    have taken := readChar_noRead tables data' (inp.length - (rest.length + 1)) c rest
    rw [length_cons] at length
    omega

theorem skipEscapes_comb (comb : List (Nat × Nat)) (inp : List UInt8) :
    skipEscapes { data with comb := comb } inp = ({ (skipEscapes data inp).1 with comb := comb }, (skipEscapes data inp).2) := by
  fun_induction skipEscapes data inp with
  | case1 data => rw [skipEscapes]
  | case2 data inp incomplete =>
    rw [skipEscapes, if_pos rfl]
    split
    · rfl
    next read =>
      rw [incomplete] at read
      simp at read
  | case3 data inp g1 final after read ih =>
    rw [skipEscapes, if_pos rfl]
    split
    next none =>
      rw [read] at none
      simp at none
    next g1' final' after' again =>
      rw [read] at again
      obtain ⟨rfl, rfl, rfl⟩ := again
      rw [← ih]
      cases g1 <;> rfl
  | case4 data c inp other => rw [skipEscapes, if_neg other]

theorem yazReadMarc8Comb_comb (comb : List (Nat × Nat)) (inp : List UInt8) :
    yazReadMarc8Comb tables { data with comb := comb } inp =
      ({ (yazReadMarc8Comb tables data inp).1 with data := { (yazReadMarc8Comb tables data inp).1.data with comb := comb } },
        (yazReadMarc8Comb tables data inp).2) := by
  rw [yazReadMarc8Comb, yazReadMarc8Comb, skipEscapes_comb]
  rcases skipEscapes data inp with ⟨data', _ | _ | ⟨c, rest⟩⟩
  · rfl
  · rfl
  · dsimp only [readChar]
    split
    · rfl
    · split
      · rfl
      · cases tables (if c < 128 then data'.g0Mode else data'.g1Mode) with
        | none => rfl
        | some => rfl

theorem skipEscapes_offset (inp : List UInt8) : (skipEscapes data inp).1.combOffset = data.combOffset := by
  fun_induction skipEscapes data inp with
  | case1 data => rfl
  | case2 data inp incomplete => rfl
  | case3 data inp g1 final after read ih =>
    rw [ih, CombData.setMode]
    split <;> rfl
  | case4 data c inp other => rfl

theorem yazReadMarc8Comb_offset (inp : List UInt8) :
    (yazReadMarc8Comb tables data inp).1.data.combOffset = data.combOffset := by
  have same := skipEscapes_offset data inp
  unfold yazReadMarc8Comb
  split
  next skipped => rwa [skipped] at same
  next skipped => rwa [skipped] at same
  next data' c rest skipped =>
    rw [skipped] at same
    rw [readChar_data]
    exact same

theorem yazReadMarc8Comb_kept (inp : List UInt8) : (yazReadMarc8Comb tables data inp).1.data.comb = data.comb := by
  have same := yazReadMarc8Comb_comb tables data data.comb inp
  rw [same]

/-- The first `n` characters of an input are combining ones. -/
def startsCombining : Nat → CombData → List UInt8 → Bool
  | 0, _, _ => true
  | n + 1, data, inp =>
    match yazReadMarc8Comb tables data inp with
    | (read, comb) => comb && read.x ≠ 0 && startsCombining n read.data (inp.drop read.noRead)

def combSum (comb : List (Nat × Nat)) : Nat := (comb.map Prod.snd).sum

def combPending (data : CombData) : Nat := combSum (data.comb.drop data.combOffset)

theorem combSum_append (comb : List (Nat × Nat)) (x noRead : Nat) : combSum (comb ++ [(x, noRead)]) = combSum comb + noRead := by
  simp [combSum]

theorem startsCombining_comb (n : Nat) (data : CombData) (comb : List (Nat × Nat)) (inp : List UInt8) :
    startsCombining tables n { data with comb := comb } inp = startsCombining tables n data inp := by
  induction n generalizing data inp with
  | zero => rfl
  | succ _ ih =>
    rw [startsCombining, startsCombining, yazReadMarc8Comb_comb]
    rcases yazReadMarc8Comb tables data inp with ⟨read, comb'⟩
    dsimp only
    rw [ih]

variable {data : CombData}

theorem combLoop_noRead {rounds : Nat} {total : Nat} (offset : data.combOffset = 0)
    (within : combSum data.comb + inp.length ≤ total) (notFull : startsCombining tables rounds data inp = false) :
    (combLoop tables rounds data inp).noRead + combPending (combLoop tables rounds data inp).data ≤ total := by
  induction rounds generalizing data inp with
  | zero => simp [startsCombining] at notFull
  | succ _ ih =>
    have length := yazReadMarc8Comb_noRead tables data inp
    have sameOffset := yazReadMarc8Comb_offset tables data inp
    have sameComb := yazReadMarc8Comb_kept tables data inp
    rw [combLoop]
    split
    · rw [combPending, offset, drop_zero]
      dsimp only
      omega
    · rw [startsCombining] at notFull
      generalize yazReadMarc8Comb tables data inp = result at length sameOffset sameComb notFull ⊢
      dsimp only at length sameOffset sameComb notFull ⊢
      split
      · rw [combPending, sameOffset, offset, drop_zero, sameComb]
        omega
      next combining =>
        simp only [not_or, Bool.not_eq_true] at combining
        apply ih
        · exact sameOffset.trans offset
        · rw [combSum_append, length_drop]
          omega
        · rw [startsCombining_comb]
          simpa [combining] using notFull

def eightCombining (data : CombData) (inp : List UInt8) : Bool :=
  data.comb.length ≤ data.combOffset && startsCombining tables 8 { data with combOffset := 0 } inp

theorem readMarc8_noRead (owed : combPending data ≤ inp.length)
    (notFull : eightCombining tables data inp = false) :
    (readMarc8 tables data inp).noRead + combPending (readMarc8 tables data inp).data ≤ inp.length := by
  rw [readMarc8]
  cases pending : data.comb.drop data.combOffset with
  | nil =>
    apply combLoop_noRead tables rfl (by simp [combSum])
    have none : data.comb.length ≤ data.combOffset := drop_eq_nil_iff.mp pending
    rw [startsCombining_comb tables 8 { data with combOffset := 0 } []]
    simpa [eightCombining, none] using notFull
  | cons _ others =>
    have later : data.comb.drop (data.combOffset + 1) = others := by
      rw [← drop_drop, pending]
      rfl
    rw [combPending, pending] at owed
    rw [combPending, later]
    simpa [combSum] using owed

theorem combLoop_offset (rounds : Nat) (data : CombData) (inp : List UInt8) :
    (combLoop tables rounds data inp).data.combOffset = data.combOffset := by
  induction rounds generalizing data inp with
  | zero => rfl
  | succ _ ih =>
    have sameOffset := yazReadMarc8Comb_offset tables data inp
    rw [combLoop]
    split
    · rfl
    · generalize yazReadMarc8Comb tables data inp = result at sameOffset ⊢
      dsimp only at sameOffset ⊢
      split
      · exact sameOffset
      · rw [ih]
        exact sameOffset

theorem lookupX12_self (mark : Nat) : yazIso88591LookupX12 mark mark = none := by
  have different : ∀ row ∈ latin1Comb, row.2.1 ≠ row.1 := by decide
  rw [yazIso88591LookupX12, Option.map_eq_none_iff, find?_eq_none]
  intro row inside
  simp only [decide_eq_true_eq]
  rintro ⟨same, again⟩
  exact different row inside (same.symm.trans again)

theorem readMarc8_offset {mark noRead : Nat}
    (one : (readMarc8 tables data inp).data.comb = [(mark, noRead)]) :
    (readMarc8 tables data inp).data.combOffset = 0 ∨ (readMarc8 tables data inp).x = mark := by
  rw [readMarc8] at one ⊢
  cases pending : data.comb.drop data.combOffset with
  | nil =>
    left
    exact combLoop_offset tables 8 _ inp
  | cons =>
    right
    rw [pending] at one
    rw [one] at pending
    cases offset : data.combOffset with
    | zero =>
      rw [offset] at pending
      simp only [drop_zero, List.cons.injEq] at pending
      rw [← pending.1]
    | succ =>
      rw [offset] at pending
      simp at pending

theorem readMarc8s_noRead (owed : combPending data ≤ inp.length)
    (notFull : eightCombining tables data inp = false) :
    (readMarc8s tables data inp).noRead + combPending (readMarc8s tables data inp).data ≤ inp.length := by
  have kept := readMarc8_noRead tables owed notFull
  rw [readMarc8s]
  split
  next mark noRead one =>
    split
    next y composed =>
      rw [combPending, one] at kept
      split at composed
      · simp at composed
      · rcases readMarc8_offset tables one with start | isMark
        · rw [start] at kept
          simpa [combPending, combSum] using kept
        · rw [isMark, lookupX12_self] at composed
          simp at composed
    · exact kept
  · exact kept

end

def marc8Accounts {tables : Tables} {read : CombData → List UInt8 → Read CombData} (controlMode : Bool)
    (kept : ∀ {data : CombData} {inp : List UInt8}, combPending data ≤ inp.length → eightCombining tables data inp = false →
      (read data inp).noRead + combPending (read data inp).data ≤ inp.length) :
    Accounts { initHandle := initMarc8 controlMode, readHandle := read } :=
  { pending := combPending
    full := eightCombining tables
    marked := fun _ => false
    init := by
      intro d data inp noRead ready
      simp only [initMarc8, Init.ready.injEq] at ready
      rw [← ready.1]
      exact ⟨by omega, rfl⟩
    unmarked := by
      intro d data inp noRead ready _
      simp only [initMarc8, Init.ready.injEq] at ready
      exact ready.2.symm
    initFailed := by
      intro d inp errno failed
      simp [initMarc8] at failed
    read := fun _ owed notFull => kept owed notFull }

/-! ### All of them -/

variable (generated : Generated) (junk : Junk)

def Fromcode.eightInARow : (code : Fromcode) → code.Data → List UInt8 → Bool
  | .marc8 | .marc8s | .marc8c => eightCombining generated.marc8.tables
  | .iso5426 => eightCombining generated.iso5426.tables
  | .utf8 | .ucs4 | .ucs4le | .iso88591 | .iso5428 | .advancegreek | .wchar | .danmarc => fun _ _ => false

def Fromcode.skipsStart : Fromcode → List UInt8 → Bool
  | .utf8 => utf8Marked
  | _ => fun _ => false

theorem Fromcode.accounts (code : Fromcode) :
    ∃ accounts : Accounts (code.decoder generated junk),
      accounts.full = code.eightInARow generated ∧ accounts.marked = code.skipsStart := by
  cases code with
  | marc8 => exact ⟨marc8Accounts false (readMarc8_noRead generated.marc8.tables), rfl, rfl⟩
  | marc8s => exact ⟨marc8Accounts false (readMarc8s_noRead generated.marc8.tables), rfl, rfl⟩
  | marc8c => exact ⟨marc8Accounts true (readMarc8_noRead generated.marc8.tables), rfl, rfl⟩
  | iso5426 => exact ⟨marc8Accounts false (readMarc8_noRead generated.iso5426.tables), rfl, rfl⟩
  | utf8 => exact ⟨utf8Accounts, rfl, rfl⟩
  | ucs4 => exact ⟨statelessAccounts fun inp _ => readUCS4_noRead inp, rfl, rfl⟩
  | ucs4le => exact ⟨statelessAccounts fun inp _ => readUCS4LE_noRead inp, rfl, rfl⟩
  | iso88591 => exact ⟨statelessAccounts fun _ some => readISO88591_noRead some, rfl, rfl⟩
  | iso5428 => exact ⟨statelessAccounts fun inp _ => readGreek_noRead _ inp, rfl, rfl⟩
  | advancegreek => exact ⟨statelessAccounts fun inp _ => readGreek_noRead _ inp, rfl, rfl⟩
  | wchar => exact ⟨statelessAccounts fun inp _ => readUCS4LE_noRead inp, rfl, rfl⟩
  | danmarc => exact ⟨danmarcAccounts junk, rfl, rfl⟩

/-- Whatever is requested of a descriptor, no read takes more than is left, and an input that is
converted to its end was taken to its end, no more and no less. -/
theorem Session.run_within {E : Type} (encoder : Encoder E) (encoderData : E) (code : Fromcode) (data : code.Data) (requests : List Request)
    (unskipped : ∀ start ∈ ((opened data encoderData).run (code.decoder generated junk) encoder requests).starts,
      code.skipsStart start = false)
    (notEight : ∀ event ∈ ((opened data encoderData).run (code.decoder generated junk) encoder requests).reads,
      code.eightInARow generated event.data event.inbuf = false) :
    let session := (opened data encoderData).run (code.decoder generated junk) encoder requests
    (∀ event ∈ session.reads, event.noRead ≤ event.inbuf.length) ∧
      session.taken.sum + session.rest.length = session.given ∧ (session.r.isSome → session.taken.sum = session.given) := by
  obtain ⟨accounts, full, marked⟩ := code.accounts generated junk
  rw [← full] at notEight
  rw [← marked] at unskipped
  have start : accounts.Sound (opened data encoderData) := ⟨by simp [opened], by simp [opened], rfl, by simp [opened]⟩
  have sound := run_sound accounts encoder start unskipped notEight
  refine ⟨sound.within, sound.balance, ?_⟩
  intro complete
  have all := sound.balance
  rw [sound.complete complete] at all
  exact all

def octetTable (code : UInt8 → Nat) (comb : Bool) : ConvTable :=
  { conv := fun inp => { x := code (inp.headD 0), noRead := 1, comb := comb && code (inp.headD 0) ≠ 0 }
    noRead_pos := fun _ => Nat.one_pos
    noRead_le := fun _ some => List.length_pos_iff.mpr some }

def sampleMarc8 : Marc8Conv :=
  let letters := octetTable (fun c => if 33 ≤ c.toNat ∧ c.toNat ≤ 126 then c.toNat else 0) false
  let marks := octetTable (fun c => if c = 0xe1 then 0x300 else 0) true
  let none := octetTable (fun _ => 0) false
  { conv42 := letters, conv45 := marks, conv67 := none, conv62 := none, conv70 := none, conv32 := none, conv4E := none
    conv51 := none, conv33 := none, conv34 := none, conv53 := none, conv31 := none }

def sampleGenerated : Generated :=
  { marc8 := sampleMarc8, iso5426 := { conv42 := sampleMarc8.conv42, conv45 := sampleMarc8.conv45 } }

def noCombData : CombData := { g0Mode := 0, g1Mode := 0, combOffset := 0, comb := [], controlMode := false }

def sampleRequests : List Request := [.convert [0xe1, 0x61] 1, .convert [0x62] 10, .flush (some 10)]

theorem Session.run_sampleRequests :
    let session := (opened noCombData ()).run (Fromcode.marc8.decoder sampleGenerated 0) utf8Encoder sampleRequests
    (∀ event ∈ session.reads, event.noRead ≤ event.inbuf.length) ∧ session.taken.sum + session.rest.length = session.given ∧
      (session.r.isSome → session.taken.sum = session.given) :=
  Session.run_within sampleGenerated 0 utf8Encoder () .marc8 noCombData sampleRequests (by decide +kernel) (by decide +kernel)

def eightMarks : List UInt8 := [0xe1, 0xe1, 0xe1, 0xe1, 0xe1, 0xe1, 0xe1, 27, 41, 33, 69, 0xe1, 0x61]

theorem Session.run_eightMarks :
    ∃ event ∈ ((opened noCombData ()).run (Fromcode.marc8.decoder sampleGenerated 0) utf8Encoder [.convert eightMarks 100]).reads,
      event.noRead = 5 ∧ event.inbuf.length = 1 := by
  decide +kernel

end Yaz.Iconv
