import Yaz.Ccl.Runs

/-! Rules for parses of the CCL parser, and what is kept of the tokens: there is an end of line behind the current token, and tokens that
are put in are terms.
-/

set_option autoImplicit false

namespace Yaz.Ccl
open List

/-! ### Rules -/

def Outcome.Meets {α : Type} (outcome : Outcome α) (post : α → State → Prop) (fault : Prop) : Prop :=
  match outcome with
  | .ok a st => post a st
  | .null st => st.errorCode ≠ .ok
  | .undefined => fault
  | .tooDeep => False

section
variable {α β : Type} {st st' mid : State} {post post' : α → State → Prop} {fault fault' : Prop}

theorem Outcome.Meets.mono {outcome : Outcome α} (meets : outcome.Meets post fault)
    (implies : ∀ a st, outcome = .ok a st → post a st → post' a st)
    (reason : fault → fault') : outcome.Meets post' fault' := by
  cases outcome with
  | ok a st => exact implies a st rfl meets
  | null => exact meets
  | undefined => exact reason meets
  | tooDeep => exact meets

variable {x : Parse α}

theorem bind_of_ok {a : α} (is : x st = .ok a mid) (f : α → Parse β) : (x >>= f) st = f a mid := by
  change Parse.bind x f st = _
  rw [Parse.bind, is]

theorem bind_of_null (is : x st = .null mid) (f : α → Parse β) : (x >>= f) st = .null mid := by
  change Parse.bind x f st = _
  rw [Parse.bind, is]

theorem bind_of_undefined (is : x st = .undefined) (f : α → Parse β) : (x >>= f) st = .undefined := by
  change Parse.bind x f st = _
  rw [Parse.bind, is]

theorem meets_bind {f : α → Parse β} {between : α → State → Prop} {post : β → State → Prop} (first : (x st).Meets between fault)
    (later : ∀ a mid, x st = .ok a mid → between a mid → (f a mid).Meets post fault) : ((x >>= f) st).Meets post fault := by
  cases is : x st with
  | ok a mid =>
    rw [is] at first
    rw [bind_of_ok is]
    exact later a mid is first
  | null =>
    rw [is] at first
    rw [bind_of_null is]
    exact first
  | undefined =>
    rw [is] at first
    rw [bind_of_undefined is]
    exact first
  | tooDeep =>
    rw [is] at first
    exact first.elim

theorem meets_pure {a : α} (is : post a st) : ((pure a : Parse α) st).Meets post fault := is

theorem meets_fail {errorCode : CclError} (some : errorCode ≠ .ok) : ((fail errorCode : Parse α) st).Meets post fault := some

theorem meets_ofExcept {result : Except CclError α} (named : result ≠ .error .ok) (is : ∀ a, result = .ok a → post a st) :
    (ofExcept result st).Meets post fault := by
  cases result with
  | ok a => exact is a rfl
  | error => exact fun none => named (congrArg Except.error none)

theorem kind_of {t : Token} (found : st.tokens[st.look]? = some t) : kind st = .ok t.kind st := kind_ok.mpr ⟨⟨t, found, rfl⟩, rfl⟩

theorem kind_beyond (none : st.tokens[st.look]? = none) : kind st = .undefined := by
  refine bind_of_undefined ?_ _
  rw [lookToken, none]
  rfl

theorem lookToken_of {t : Token} (found : st.tokens[st.look]? = some t) : lookToken st = .ok t st := lookToken_ok.mpr ⟨found, rfl⟩

theorem advance_of {t : Token} (found : st.tokens[st.look]? = some t) : advance st = .ok () { st with look := st.look + 1 } :=
  advance_ok.mpr ⟨(List.getElem?_eq_some_iff.mp found).1, rfl⟩

theorem advanceBy_of (number : Nat) : advanceBy number st = .ok () { st with look := st.look + number } := rfl

end

section
variable {cclp : CclParser} {qa : List Qual}

theorem exceptBind_named {α β : Type} {x : Except CclError α} {f : α → Except CclError β} (first : x ≠ .error .ok)
    (later : ∀ a, x = .ok a → f a ≠ .error .ok) : (x >>= f) ≠ .error .ok := by
  cases x with
  | error => exact fun is => first (congrArg Except.error (Except.error.inj is))
  | ok a => exact later a rfl

theorem appendTerm_named (mode : TruncMode) (srcLen : Nat) (isFirst isLast : Bool) (left j skip : Nat) (before : UInt8) (quoteMode : Bool)
    (src : List UInt8) (text : TermText) : appendTerm mode srcLen isFirst isLast left j skip before quoteMode src text ≠ .error .ok := by
  induction left generalizing j skip before quoteMode src text with
  | zero =>
    rw [appendTerm]
    nofun
  | succ _ ih =>
    cases src with
    | nil =>
      rw [appendTerm]
      · nofun
      · nofun
    | cons =>
      cases skip with
      | succ =>
        rw [appendTerm]
        exact ih _ _ _ _ _ _
      | zero =>
        rw [appendTerm]
        split_ifs
        all_goals first
          | exact ih _ _ _ _ _ _
          | nofun

theorem appendTokens_named (mode : TruncMode) (isFirst : Bool) (tokens : List Token) (text : TermText) :
    appendTokens mode isFirst tokens text ≠ .error .ok := by
  induction tokens generalizing isFirst text with
  | nil => nofun
  | cons _ _ ih =>
    rw [appendTokens]
    exact exceptBind_named (appendTerm_named _ _ _ _ _ _ _ _ _ _ _) fun _ _ => ih _ _

theorem truncAttr_named (text : TermText) (mode : TruncMode) (attset : Option (List UInt8)) :
    truncAttr qa text mode attset ≠ .error .ok := by
  rw [truncAttr]
  dsimp only
  split_ifs
  all_goals first
    | (split <;> nofun)
    | nofun

variable (lookahead : List Token)

theorem cclTermOneUse_named (attrUse : Option (List UInt8 × Nat)) (isPhrase autoGroup : Bool) :
    cclTermOneUse cclp qa lookahead attrUse isPhrase autoGroup ≠ .error .ok := by
  rw [cclTermOneUse]
  refine exceptBind_named (appendTokens_named _ _ _ _) fun _ _ => ?_
  refine exceptBind_named (truncAttr_named _ _ _) fun _ _ => ?_
  nofun

theorem cclTermUses_named (isPhrase autoGroup : Bool) (p : Option RpnNode) (uses : List (List UInt8 × Nat)) :
    cclTermUses cclp qa lookahead isPhrase autoGroup p uses ≠ .error .ok := by
  induction uses generalizing p with
  | nil => nofun
  | cons _ _ ih =>
    rw [cclTermUses]
    exact exceptBind_named (cclTermOneUse_named _ _ _ _) fun _ _ => ih _

theorem cclTermMultiUse_named (isPhrase autoGroup : Bool) : cclTermMultiUse cclp qa lookahead isPhrase autoGroup ≠ .error .ok := by
  rw [cclTermMultiUse]
  refine exceptBind_named (cclTermUses_named _ _ _ _ _) fun p _ => ?_
  cases p with
  | some => nofun
  | none =>
    refine exceptBind_named (cclTermOneUse_named _ _ _ _) fun _ _ => ?_
    nofun

theorem foldlM_splitStep_named {splitRest : List Token → Except CclError RpnNode} (rest : ∀ ar, splitRest ar ≠ .error .ok) (ar : List Token)
    (lengths : List Nat) (pTop : Option RpnNode) : lengths.foldlM (splitStep cclp qa splitRest ar) pTop ≠ .error .ok := by
  induction lengths generalizing pTop with
  | nil => nofun
  | cons _ _ ih =>
    rw [foldlM_cons]
    refine exceptBind_named ?_ fun _ _ => ih _
    rw [splitStep]
    refine exceptBind_named (cclTermMultiUse_named _ _ _) fun _ _ => ?_
    split
    · refine exceptBind_named (rest _) fun _ _ => ?_
      nofun
    · nofun

theorem splitRecur_named (subLen fuel : Nat) (ar : List Token) : splitRecur cclp qa subLen fuel ar ≠ .error .ok := by
  induction fuel generalizing ar with
  | zero => nofun
  | succ _ ih =>
    rw [splitRecur]
    refine exceptBind_named (foldlM_splitStep_named (fun _ => ih _) _ _ _) fun pTop _ => ?_
    cases pTop with
    | some => nofun
    | none => nofun

end

/-! ### Tokens -/

def others (tokens : List Token) : List TokenKind := (tokens.map Token.kind).filter fun k => k ≠ .term

theorem others_append (front rest : List Token) : others (front ++ rest) = others front ++ others rest := by
  rw [others, map_append, filter_append, others, others]

theorem others_term {t : Token} (isTerm : t.kind = .term) (rest : List Token) : others (t :: rest) = others rest := by
  rw [others, map_cons, filter_cons, if_neg (by simpa using isTerm), others]

theorem others_other {t : Token} (noTerm : t.kind ≠ .term) (rest : List Token) : others (t :: rest) = t.kind :: others rest := by
  rw [others, map_cons, filter_cons, if_pos (by simpa using noTerm), others]

theorem others_drop_suffix {m n : Nat} (less : m ≤ n) (tokens : List Token) : others (tokens.drop n) <:+ others (tokens.drop m) := by
  obtain ⟨k, rfl⟩ := Nat.exists_eq_add_of_le less
  rw [← drop_drop]
  exact ⟨others ((tokens.drop m).take k), by rw [← others_append, take_append_drop]⟩

def Ended : List Token → Prop
  | [] => False
  | t :: rest => (t.kind = .eol ∧ isDash t = false) ∧ rest = [] ∨ t.kind ≠ .eol ∧ Ended rest

theorem Ended.tail {t : Token} {rest : List Token} (ended : Ended (t :: rest)) (more : t.kind ≠ .eol) : Ended rest := by
  rcases ended with last | later
  · exact absurd last.1.1 more
  · exact later.2

theorem Ended.notEmpty {tokens : List Token} (ended : Ended tokens) : tokens ≠ [] := by
  rintro rfl
  exact ended

theorem ended_append {front rest : List Token} (some : rest ≠ []) : Ended (front ++ rest) ↔ (∀ t ∈ front, t.kind ≠ .eol) ∧ Ended rest := by
  induction front with
  | nil => simp
  | cons _ front ih =>
    have more : front ++ rest ≠ [] := append_ne_nil_of_right_ne_nil _ some
    rw [cons_append, Ended, ih, forall_mem_cons]
    simp [more, and_assoc]

structure Ready (st : State) : Prop where
  ended : Ended st.tokens
  inside : st.look < st.tokens.length

section
variable {st st' mid : State}

theorem Ready.parts (ready : Ready st) : (∀ t ∈ st.tokens.take st.look, t.kind ≠ .eol) ∧ Ended (st.tokens.drop st.look) := by
  have some : st.tokens.drop st.look ≠ [] := by
    rw [Ne, drop_eq_nil_iff]
    exact Nat.not_le_of_lt ready.inside
  refine (ended_append some).mp ?_
  rw [take_append_drop]
  exact ready.ended

theorem Ready.found (ready : Ready st) : ∃ t, st.tokens[st.look]? = some t ∧
    st.tokens.drop st.look = t :: st.tokens.drop (st.look + 1) := by
  have found := getElem?_eq_getElem ready.inside
  exact ⟨_, found, drop_look found⟩

variable {t : Token}

theorem Ready.next (ready : Ready st) (found : st.tokens[st.look]? = some t) (more : t.kind ≠ .eol) :
    Ready { st with look := st.look + 1 } := by
  refine ⟨ready.ended, ?_⟩
  have rest := (drop_look found ▸ ready.parts.2 : Ended (t :: st.tokens.drop (st.look + 1))).tail more
  have some := rest.notEmpty
  rw [Ne, drop_eq_nil_iff] at some
  exact Nat.lt_of_not_le some

theorem Ready.last (ready : Ready st) (found : st.tokens[st.look]? = some t) (eol : t.kind = .eol) : st.look + 1 = st.tokens.length := by
  have rest := (drop_look found ▸ ready.parts.2 : Ended (t :: st.tokens.drop (st.look + 1)))
  rcases rest with last | later
  · have none := drop_eq_nil_iff.mp last.2
    exact Nat.le_antisymm ready.inside none
  · exact absurd eol later.1

theorem Ready.dash (ready : Ready st) (found : st.tokens[st.look]? = some t) (dash : isDash t = true) : t.kind ≠ .eol := by
  have rest := (drop_look found ▸ ready.parts.2 : Ended (t :: st.tokens.drop (st.look + 1)))
  rcases rest with last | later
  · exact absurd dash (by simp [last.1.2])
  · exact later.1

theorem Ready.run (ready : Ready st) {list : List TokenKind} (noEol : TokenKind.eol ∉ list) {number : Nat}
    (few : number ≤ (runOf list (st.tokens.drop st.look)).length) : Ready { st with look := st.look + number } := by
  refine ⟨ready.ended, ?_⟩
  have short : (runOf list (st.tokens.drop st.look)).length < (st.tokens.drop st.look).length := by
    have ended := ready.parts.2
    generalize st.tokens.drop st.look = tokens at ended
    induction tokens with
    | nil => exact ended.elim
    | cons t _ ih =>
      by_cases isTerm : t.kind ∈ list
      · have more : t.kind ≠ .eol := fun is => noEol (is ▸ isTerm)
        rw [runOf_cons isTerm]
        exact Nat.succ_lt_succ (ih (ended.tail more))
      · rw [runOf_other isTerm]
        exact Nat.succ_pos _
  rw [length_drop] at short
  exact (by omega : st.look + number < st.tokens.length)

/-! ### What is kept -/

/-- What was put in is terms that are not before the token that was looked at, and none of the tokens is looked at again before it. -/
structure Follows (st st' : State) : Prop where
  look : st.look ≤ st'.look
  before : st'.tokens.take st.look = st.tokens.take st.look
  others : others (st'.tokens.drop st.look) = others (st.tokens.drop st.look)
  ready : Ready st'

theorem Ready.follows (ready : Ready st') (same : st'.tokens = st.tokens) (look : st.look ≤ st'.look) : Follows st st' :=
  ⟨look, by rw [same], by rw [same], ready⟩

theorem Ready.onward (next : Ready { st with look := st.look + 1 }) : Follows st { st with look := st.look + 1 } :=
  next.follows rfl (Nat.le_succ _)

theorem Follows.trans (first : Follows st mid) (second : Follows mid st') : Follows st st' := by
  have before : (st'.tokens.take mid.look).take st.look = (mid.tokens.take mid.look).take st.look := by rw [second.before]
  rw [take_take, take_take, Nat.min_eq_left first.look] at before
  refine ⟨first.look.trans second.look, before.trans first.before, ?_, second.ready⟩
  have split (tokens : List Token) : Ccl.others (tokens.drop st.look) =
      Ccl.others ((tokens.take mid.look).drop st.look) ++ Ccl.others (tokens.drop mid.look) := by
    have behind : tokens.drop mid.look = (tokens.drop st.look).drop (mid.look - st.look) := by
      rw [drop_drop, Nat.add_sub_cancel' first.look]
    rw [behind, ← others_append, drop_take, take_append_drop]
  calc Ccl.others (st'.tokens.drop st.look) = Ccl.others (mid.tokens.drop st.look) := by
        rw [split st'.tokens, split mid.tokens, second.before, second.others]
    _ = Ccl.others (st.tokens.drop st.look) := first.others

theorem Follows.from_later {la : Nat} (later : st.look ≤ la) (inside : la < st.tokens.length) (ended : Ended st.tokens)
    (follows : Follows { st with look := la } st') : Follows st st' := by
  have here : Ready { st with look := la } := ⟨ended, inside⟩
  exact (@Ready.follows st _ here rfl later).trans follows

theorem Follows.again (follows : Follows st st') : Follows st { st' with look := st.look } :=
  ⟨Nat.le_refl _, follows.before, follows.others, follows.ready.ended, Nat.lt_of_le_of_lt follows.look follows.ready.inside⟩

def State.ahead (st : State) : List TokenKind := Ccl.others (st.tokens.drop st.look)

theorem Follows.suffix (follows : Follows st st') : st'.ahead <:+ st.ahead := by
  rw [State.ahead, State.ahead, ← follows.others]
  exact others_drop_suffix follows.look _

theorem Follows.shorter (follows : Follows st st') : st'.ahead.length ≤ st.ahead.length := follows.suffix.length_le

theorem Follows.count (follows : Follows st st') (k : TokenKind) : st'.ahead.count k ≤ st.ahead.count k := follows.suffix.sublist.count_le k

theorem ahead_next (found : st.tokens[st.look]? = some t) (noTerm : t.kind ≠ .term) :
    st.ahead = t.kind :: State.ahead { st with look := st.look + 1 } := by
  rw [State.ahead, drop_look found, others_other noTerm]
  rfl

theorem Ready.ahead_pos (ready : Ready st) : 0 < st.ahead.length := by
  have ended := ready.parts.2
  rw [State.ahead]
  generalize st.tokens.drop st.look = tokens at ended
  induction tokens with
  | nil => exact ended.elim
  | cons t _ ih =>
    by_cases isTerm : t.kind = .term
    · rw [others_term isTerm]
      exact ih (ended.tail (by simp [isTerm]))
    · rw [others_other isTerm]
      exact Nat.succ_pos _

theorem ahead_length_le (st : State) : st.ahead.length ≤ (st.tokens.drop st.look).length := by
  rw [State.ahead, others]
  exact (length_filter_le _ _).trans (length_map _).le

end

section
variable {cclp : CclParser} {qa : List Qual} {list : List TokenKind} {st : State}

def AtOther (list : List TokenKind) (st : State) : Prop := ∃ t, st.tokens[st.look]? = some t ∧ t.kind ∉ list

structure Passes (list : List TokenKind) (multi : Bool) (st st' : State) : Prop where
  tokens : st'.tokens = st.tokens
  look : st.look ≤ st'.look
  ready : Ready st'
  all : multi = true → AtOther list st'

theorem Passes.follows {multi : Bool} {st' : State} (passes : Passes list multi st st') : Follows st st' :=
  passes.ready.follows passes.tokens passes.look

theorem searchTermSplitList_meets (noEol : TokenKind.eol ∉ list) (multi : Bool) (ready : Ready st) :
    (searchTermSplitList cclp qa list st).Meets (fun _ st' => Passes list multi st st') False := by
  obtain ⟨t, found, -⟩ := ready.found
  rw [searchTermSplitList, bind_of_ok (lookToken_of found), bind_of_ok (ahead_ok.mpr ⟨rfl, rfl⟩)]
  split
  · exact meets_fail (by decide)
  · have behind := ready.run noEol (Nat.le_refl (runOf list (st.tokens.drop st.look)).length)
    obtain ⟨u, foundBehind, -⟩ := behind.found
    have other : u.kind ∉ list := by
      refine @behind_run list (st.tokens.drop st.look) u ?_
      rw [getElem?_drop]
      exact foundBehind
    rw [bind_of_ok (advanceBy_of _)]
    exact meets_ofExcept (splitRecur_named _ _ _) fun _ _ => ⟨rfl, Nat.le_add_right _ _, behind, fun _ => ⟨u, foundBehind, other⟩⟩

theorem searchTermLoop_meets (noEol : TokenKind.eol ∉ list) {multi : Bool} {fuel : Nat} {pTop : Option RpnNode} (ready : Ready st)
    (enough : st.tokens.length < st.look + fuel) :
    (searchTermLoop cclp qa list multi fuel pTop st).Meets (fun _ st' => Passes list multi st st') False := by
  induction fuel generalizing st pTop with
  | zero => exact absurd ready.inside (by omega)
  | succ fuel ih =>
    obtain ⟨t, found, drop⟩ := ready.found
    unfold searchTermLoop
    rw [bind_of_ok (lookToken_of found)]
    dsimp only
    split
    -- each round passes a comma, ends the loop, or passes the tokens of a term, so `fuel` is enough
    next comma =>
      have isComma : t.kind = .comma := by
        rw [Bool.and_eq_true, decide_eq_true_eq] at comma
        exact comma.2
      rw [bind_of_ok (advance_of found)]
      refine (@ih { st with look := st.look + 1 } pTop (ready.next found (by simp [isComma])) (by dsimp only; omega)).mono ?_ id
      exact fun _ _ _ passes => ⟨passes.tokens, (Nat.le_succ _).trans passes.look, passes.ready, passes.all⟩
    next =>
      rw [bind_of_ok (ahead_ok.mpr ⟨rfl, rfl⟩)]
      have few := (takeTerm_bounds list (listMode qa).autoGroup (maxTokens (listMode qa) multi) 0 false (st.tokens.drop st.look)).2
      have noMore (none : (takeTerm list (listMode qa).autoGroup (maxTokens (listMode qa) multi) 0 false (st.tokens.drop st.look)).1 = 0) :
          AtOther list st := by
        rw [drop] at none
        exact ⟨t, found, takeTerm_zero (maxTokens_pos _ _) none⟩
      generalize takeTerm list (listMode qa).autoGroup (maxTokens (listMode qa) multi) 0 false (st.tokens.drop st.look) =
        taken at few noMore ⊢
      split
      next none =>
        cases pTop with
        | none => exact meets_fail (by decide)
        | some => exact meets_pure ⟨rfl, Nat.le_refl _, ready, fun _ => noMore none⟩
      next some =>
        have behind := ready.run noEol (few.trans (by omega))
        rw [bind_of_ok (advanceBy_of _)]
        refine @meets_bind _ _ _ _ _ _ (fun _ st' => st' = { st with look := st.look + taken.1 }) _ ?_ ?_
        · exact meets_ofExcept (cclTermMultiUse_named _ _ _) fun _ _ => rfl
        · rintro p mid - rfl
          split
          next =>
            refine (@ih { st with look := st.look + taken.1 } _ behind (by dsimp only; omega)).mono ?_ id
            exact fun _ _ _ passes => ⟨passes.tokens, (Nat.le_add_right _ _).trans passes.look, passes.ready, passes.all⟩
          next single => exact meets_pure ⟨rfl, Nat.le_add_right _ _, behind, fun all => absurd all single⟩

theorem searchTermX_meets (noEol : TokenKind.eol ∉ list) {multi : Bool} (ready : Ready st) :
    (searchTermX cclp qa list multi st).Meets (fun _ st' => Passes list multi st st') False := by
  rw [searchTermX]
  split
  · exact searchTermSplitList_meets noEol multi ready
  · exact searchTermLoop_meets noEol ready (by omega)

end

theorem splitRange_kept (tokens : List Token) : others (splitRange tokens) = others tokens ∧
    (Ended tokens → Ended (splitRange tokens)) := by
  cases tokens with
  | nil => exact ⟨rfl, id⟩
  | cons t rest =>
    rw [splitRange]
    split
    next isTerm =>
      have tail (ended : Ended (t :: rest)) : Ended rest := ended.tail (by simp [isTerm])
      have term (name : List UInt8) (len : Nat) : (newToken name len).kind = .term := rfl
      have more {u : Token} {tokens : List Token} (is : u.kind = .term) (ended : Ended tokens) : Ended (u :: tokens) :=
        .inr ⟨by simp [is], ended⟩
      dsimp only
      split
      · exact ⟨by simp [others, newToken, isTerm], fun ended => more isTerm (more (term _ _) (tail ended))⟩
      · split
        · exact ⟨by simp [others, newToken, isTerm], fun ended => more isTerm (more (term _ _) (tail ended))⟩
        · split
          · refine ⟨by simp [others, newToken, isTerm], fun ended => ?_⟩
            exact more isTerm (more (term _ _) (more (term _ _) (tail ended)))
          · cases rest with
            | nil => exact ⟨rfl, id⟩
            | cons u =>
              dsimp only
              split
              next next =>
                have isNext : u.kind = .term := next.2.1
                refine ⟨by simp [others, newToken, isTerm, isNext], fun ended => ?_⟩
                exact more isTerm (more (term _ _) (more isNext ((tail ended).tail (by simp [isNext]))))
              · exact ⟨rfl, id⟩
    · exact ⟨rfl, id⟩

theorem afterRelation_follows {ap : List Qual} {rel : Int} {st : State} (ready : Ready st) {t : Token}
    (found : st.tokens[st.look]? = some t)
    (more : t.kind ≠ .eol) : Follows { st with look := st.look + 1 } (afterRelation ap rel st) := by
  have behind := ready.next found more
  rw [afterRelation]
  split
  · obtain ⟨same, ended⟩ := splitRange_kept (st.tokens.drop (st.look + 1))
    obtain ⟨before, endedBehind⟩ := behind.parts
    have long : (st.tokens.take (st.look + 1)).length = st.look + 1 := length_take_of_le (Nat.le_of_lt behind.inside)
    have some := length_pos_iff.mpr (ended endedBehind).notEmpty
    refine ⟨Nat.le_refl _, ?_, ?_, ?_, ?_⟩
    · exact take_left' long
    · change others ((st.tokens.take (st.look + 1) ++ splitRange (st.tokens.drop (st.look + 1))).drop (st.look + 1)) = _
      rw [drop_left' long]
      exact same
    · exact (ended_append (ended endedBehind).notEmpty).mpr ⟨before, ended endedBehind⟩
    · change st.look + 1 < (st.tokens.take (st.look + 1) ++ splitRange (st.tokens.drop (st.look + 1))).length
      rw [length_append, long]
      omega
  · exact behind.follows rfl (Nat.le_refl _)

end Yaz.Ccl
