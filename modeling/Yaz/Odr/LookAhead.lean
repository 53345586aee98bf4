import Yaz.Odr.Built

/-! Coherence of the one-entry tag look-ahead of `ber_tag`.

The cache is filled at the current position and emptied when the identifier is consumed.
Whatever moves the position in between makes it stale: among the combinators only
`odr_any` can.
-/

set_option autoImplicit false

namespace Yaz.Odr
open Yaz.Foundation Yaz.Ber Run

/-- The cached identifier is the one `ber_dectag` finds at the current position. -/
def Handle.Coherent (o : Handle) : Prop :=
  berDectag o.ahead (odrMax o) {} = some (o.berTag.br, { o.berTag with br := 0 })

instance (o : Handle) : Decidable o.Coherent :=
  inferInstanceAs (Decidable (berDectag o.ahead (odrMax o) {} = some (o.berTag.br, { o.berTag with br := 0 })))

/-- `ber_tag` is entered inside a constructed element only with an empty or a coherent cache. -/
def coherentTag : Call × Handle → Bool
  | (.tag _ _, o) => o.stack.isEmpty || o.berTag.lclass < 0 || o.Coherent
  | _ => true

/-- `odr_any` is entered inside a constructed element only with an empty cache. -/
def emptyAtAny : Call × Handle → Bool
  | (.any, o) => o.error.isSome || o.stack.isEmpty || o.berTag.lclass < 0
  | _ => true

def lookAheadContract : Contract Stop (Call × Handle) where
  assumed := fun event => emptyAtAny event
  kept := fun event => coherentTag event
  allowed := fun _ => True

/-- `odr_constructed_more`, as far as it does not fail. -/
def Handle.More (o : Handle) : Prop :=
  ∃ entry rest, o.stack = entry :: rest ∧
    if 0 ≤ entry.len then (o.bp : Int) - entry.base < entry.len
    else ¬ (o.buf[o.bp]? = some 0 ∧ o.buf[o.bp + 1]? = some 0)

/-- The cache is empty or of no use, or it is coherent and the enclosing element has not ended: in
that state `odr_constructed_end` fails. -/
def Handle.CacheKept (o : Handle) : Prop :=
  o.error.isSome ∨ o.stack = [] ∨ o.berTag.lclass < 0 ∨ (o.Coherent ∧ o.More)

def Handle.CacheUsed (o : Handle) : Prop := o.error.isSome ∨ o.berTag.lclass < 0

theorem Handle.CacheUsed.kept {o : Handle} (used : o.CacheUsed) : o.CacheKept :=
  used.elim .inl fun empty => .inr (.inr (.inl empty))

theorem upholds_constructedMore (o : Handle) :
    Upholds lookAheadContract odrConstructedMore o fun more o' => o' = o ∧ (more = true → o.More) := by
  refine .enter_bind fun _ => ⟨rfl, ?_⟩
  rw [upholds_get_bind_iff, upholds_ite_iff]
  split
  · simp
  · cases top : o.stack with
    | nil => simp
    | cons entry rest =>
      rw [upholds_ite_iff]
      split
      next definite => 
        simp only [upholds_pure_iff, decide_eq_true_eq, true_and]
        exact fun inside => ⟨entry, rest, top, by rwa [if_pos definite]⟩
      next indefinite =>
        have ended : Upholds lookAheadContract atEndOfContents o fun ended o' =>
            o' = o ∧ (ended = false → ¬ (o.buf[o.bp]? = some 0 ∧ o.buf[o.bp + 1]? = some 0)) := by
          refine upholds_readAt_bind o (fun _ => trivial) fun first here => ?_
          rw [upholds_ite_iff]
          split
          · refine upholds_readAt_bind o (fun _ => trivial) fun second there => ?_
            simp only [upholds_pure_iff, decide_eq_false_iff_not, there, Option.some.injEq, true_and]
            exact fun nonzero both => nonzero both.2
          next nonzero =>
            simp only [upholds_pure_iff, true_and, Nat.add_zero] at here ⊢
            simp [here, nonzero]
        refine ended.bind ?_
        rintro ended t ⟨rfl, test⟩
        simp only [upholds_pure_iff, Bool.not_eq_true', true_and]
        exact fun open' => ⟨entry, rest, top, by rw [if_neg indefinite]; exact test open'⟩

/-! ### Contents -/

/-- Contents only move the position and report errors, which leaves `inv` as it is. -/
structure Unmoved (c : Contract Stop (Call × Handle)) (inv : Handle → Prop) : Prop where
  outside : c.allowed .outOfRange
  outOfRounds : c.allowed .outOfRounds
  integer : ∀ o, c.kept (.decinteger, o)
  moreChunks : ∀ base len o, c.kept (.moreChunks base len, o)
  failed : ∀ o error id, inv o → inv { o with error := some error, errorId := id, element := "" }
  skip : ∀ o n, inv o → inv (o.skip n)

namespace Unmoved
variable {c : Contract Stop (Call × Handle)} {inv : Handle → Prop} {α β : Type} (unmoved : Unmoved c inv)
include unmoved

theorem reject (error : ErrorCode) (id : Nat) (value : α) :
    Triple c inv (do odrSeterror error id
                     pure value) fun _ => inv := by
  intro o holds
  simpa using unmoved.failed o error id holds

theorem read {i : Nat} {next : UInt8 → Codec α} (h : ∀ b, Triple c inv (next b) fun _ => inv) :
    Triple c inv (readAt i >>= next) fun _ => inv :=
  fun o holds => upholds_readAt_bind o (fun _ => unmoved.outside) fun b _ => h b o holds

theorem take {found : Option α} {next : α → Codec β} (h : ∀ value, Triple c inv (next value) fun _ => inv) :
    Triple c inv (reading found >>= next) fun _ => inv :=
  fun o holds => upholds_reading_bind o (fun _ => unmoved.outside) fun value _ => h value o holds

theorem advance {next : Unit → Codec α} {n : Nat} (h : Triple c inv (next ()) fun _ => inv) :
    Triple c inv (advance n >>= next) fun _ => inv :=
  .bind (.modify fun o => unmoved.skip o n) fun _ => h

omit unmoved in
theorem inspect {next : Handle → Codec α} (h : ∀ o, Triple c inv (next o) fun _ => inv) :
    Triple c inv (Run.get >>= next) fun _ => inv := by
  intro o holds
  rw [upholds_get_bind_iff]
  exact h o o holds

omit unmoved in
theorem done (value : α) : Triple c inv (pure value : Codec α) fun _ => inv :=
  .pure fun _ kept => kept

theorem integerContents : Triple c inv berIntegerDecode fun _ => inv := by
  intro o holds
  refine .enter_bind fun _ => ⟨unmoved.integer o, ?_⟩
  refine inspect (fun o => unmoved.take ?_) o holds
  rintro ⟨res, value⟩
  exact .ite (unmoved.reject _ _ _) (unmoved.advance (done _))

theorem booleanContents : Triple c inv berBooleanDecode fun _ => inv := by
  refine inspect fun o => unmoved.take ?_
  rintro ⟨res, len⟩
  refine .ite (unmoved.reject _ _ _) (unmoved.advance (inspect fun o => .ite (unmoved.reject _ _ _) ?_))
  exact unmoved.read fun b => unmoved.advance (done _)

theorem nullContents : Triple c inv berNullDecode fun _ => inv := by
  refine inspect fun o => .ite (unmoved.reject _ _ _) (unmoved.read fun b => unmoved.advance ?_)
  exact .ite (unmoved.reject _ _ _) (done _)

theorem oidGroupContents (len : Nat) (id : Int) : Triple c inv (oidGroup len id) fun _ => inv := by
  induction len generalizing id with
  | zero => exact unmoved.reject _ _ _
  | succ _ ih => exact unmoved.read fun b => unmoved.advance (.ite (ih _) (done _))

theorem oidGroupsContents (maxOidSize rounds len : Nat) (arcs : List Int) :
    Triple c inv (oidGroups maxOidSize rounds len arcs) fun _ => inv := by
  induction rounds generalizing len arcs with
  | zero =>
    cases len with
    | zero => rw [oidGroups]; exact done _
    | succ =>
      intro o _
      simpa [oidGroups] using unmoved.outOfRounds
  | succ _ ih =>
    cases len with
    | zero => rw [oidGroups]; exact done _
    | succ =>
      rw [oidGroups]
      refine .bind (unmoved.oidGroupContents _ _) ?_
      rintro (_ | ⟨id, left⟩)
      · exact done _
      · exact .ite (unmoved.reject _ _ _) (.ite (unmoved.reject _ _ _) (ih _ _))

theorem oidcContents (maxOidSize : Nat) : Triple c inv (berOidcDecode maxOidSize) fun _ => inv := by
  refine inspect fun o => unmoved.take ?_
  rintro ⟨res, len⟩
  refine .ite (unmoved.reject _ _ _) (.ite (unmoved.reject _ _ _) (unmoved.advance (inspect fun o => ?_)))
  refine .ite (unmoved.reject _ _ _) (.bind (unmoved.oidGroupsContents _ _ _ _) ?_)
  rintro (_ | arcs)
  · exact done _
  · exact .ite (unmoved.reject _ _ _) (done _)

theorem octetContents (len : Int) : Triple c inv (octetContents len) fun _ => inv :=
  inspect fun _ => .ite (unmoved.reject _ _ _) (.ite (unmoved.reject _ _ _)
    (unmoved.take fun _ => unmoved.advance (done _)))

theorem bitContents (bits : List UInt8) (len : Int) : Triple c inv (bitContents bits len) fun _ => inv :=
  inspect fun _ => .ite (unmoved.reject _ _ _) (.ite (done _) (.ite (unmoved.reject _ _ _)
    (.ite (unmoved.reject _ _ _) (unmoved.take fun _ => unmoved.advance (done _)))))

theorem endOfContents : Triple c inv atEndOfContents fun _ => inv :=
  unmoved.read fun _ => .ite (unmoved.read fun _ => done _) (done _)

theorem moreChunksContents (base : Nat) (len : Int) : Triple c inv (odpMoreChunks base len) fun _ => inv := by
  intro o holds
  refine .enter_bind fun _ => ⟨unmoved.moreChunks base len o, ?_⟩
  refine Triple.ite (done _) (.ite (.bind unmoved.endOfContents fun _ => ?_) ?_) o holds
  · exact .ite (unmoved.advance (done _)) (done _)
  · exact inspect fun _ => done _

end Unmoved

/-! ### Identifiers -/

theorem upholds_moreAhead (o : Handle) :
    Upholds lookAheadContract moreAhead o fun more o' => o' = o ∧ (more = true → o.stack = [] ∨ o.More) := by
  rw [moreAhead, upholds_get_bind_iff, upholds_ite_iff]
  split
  next outermost => simpa using .inl (by simpa using outermost)
  · exact (upholds_constructedMore o).mono fun _ _ reached => ⟨reached.1, fun more => .inr (reached.2 more)⟩

theorem Handle.CacheKept.failed (o : Handle) (error : ErrorCode) (id : Nat) (element : String)
    (_ : o.CacheKept) : Handle.CacheKept { o with error := some error, errorId := id, element := element } :=
  .inl rfl

theorem upholds_tagAhead (name : Option String) (o : Handle) (cached : o.berTag.lclass < 0 ∨ o.Coherent) :
    Upholds lookAheadContract (tagAhead name) o fun ahead o' =>
      if ahead then o'.Coherent ∧ ∃ cache, o' = { o with berTag := cache } else o'.error.isSome := by
  rw [tagAhead, upholds_get_bind_iff, upholds_ite_iff]
  split
  · refine upholds_reading_bind o (fun _ => trivial) ?_
    rintro ⟨res, cache⟩ found
    rw [upholds_modify_bind_iff, upholds_ite_iff]
    split
    · rw [← bind_bind]
      refine (upholds_failed name fun _ => ?_).bind fun _ => .pure fun t (broken : t.error.isSome) => ?_
      · rfl
      · simpa using broken
    next positive =>
      rw [upholds_pure_iff]
      refine ⟨?_, _, rfl⟩
      obtain ⟨used, rest, ahead, -, room, stable, -⟩ := berDectag_append found (by omega)
      have again := stable rest (odrMax o) {} room
      rw [← ahead] at again
      exact again
  next full =>
    rw [upholds_pure_iff]
    exact ⟨cached.resolve_left full, _, rfl⟩

theorem tagReset_stack (o : Handle) : (tagReset o).stack = o.stack := by
  unfold tagReset
  split <;> rfl

theorem tagReset_error (o : Handle) : (tagReset o).error = o.error := by
  unfold tagReset
  split <;> rfl

theorem Handle.CacheKept.reset {o : Handle} (kept : o.CacheKept) (noError : o.error = none) :
    (tagReset o).berTag.lclass < 0 ∨ ((tagReset o).Coherent ∧ (tagReset o).More) := by
  unfold tagReset
  split
  · exact .inl (by decide : (-1 : Int) < 0)
  next inside =>
    obtain broken | outermost | empty | coherent := kept
    · simp [noError] at broken
    · simp [outermost] at inside
    · exact .inl empty
    · exact .inr coherent

theorem lookAhead_tag (zclass tag : Int) (opt : Bool) (name : Option String) :
    Triple lookAheadContract (fun o => o.CacheKept ∧ o.error = none) (berTagDecode zclass tag opt name)
      fun found o => (found.isSome → o.CacheUsed) ∧ o.CacheKept := by
  rintro o ⟨kept, noError⟩
  refine .enter_bind fun _ => ⟨?_, ?_⟩
  · simp only [lookAheadContract, coherentTag, Bool.or_eq_true, List.isEmpty_iff, decide_eq_true_eq]
    obtain broken | outermost | empty | ⟨coherent, -⟩ := kept
    · simp [noError] at broken
    · exact .inl (.inl outermost)
    · exact .inl (.inr empty)
    · exact .inr coherent
  · rw [upholds_modify_bind_iff]
    have require (id : Nat) : Triple lookAheadContract Handle.CacheKept (do
        requireUnless opt id name
        pure (none : Option Int)) fun found o => (found.isSome → o.CacheUsed) ∧ o.CacheKept :=
      .bind (triple_requireUnless Handle.CacheKept.failed opt id name) fun _ => .pure fun _ kept => ⟨by simp, kept⟩
    have cached := kept.reset noError
    refine (upholds_moreAhead _).bind ?_
    rintro more t ⟨rfl, test⟩
    rw [upholds_ite_iff]
    split
    next inside =>
      refine (upholds_tagAhead name _ (cached.imp_right And.left)).bind ?_
      rintro ahead t reached
      rw [upholds_ite_iff]
      split
      next found =>
        rw [if_pos found] at reached
        obtain ⟨coherent, cache, rfl⟩ := reached
        rw [upholds_get_bind_iff, upholds_ite_iff]
        split
        · rw [upholds_modify_bind_iff, upholds_pure_iff]
          have used : Handle.CacheUsed (takeTag { tagReset o with berTag := cache }) :=
            .inr (by decide : (-1 : Int) < 0)
          exact ⟨fun _ => used, used.kept⟩
        · refine require 27 _ (.inr ?_)
          obtain outermost | more := test inside
          · exact .inl outermost
          · exact .inr (.inr ⟨coherent, more⟩)
      next missing =>
        rw [if_neg missing] at reached
        rw [upholds_pure_iff]
        exact ⟨by simp, .inl reached⟩
    · refine require 25 _ ?_
      exact .inr (.inr cached)

theorem lookAhead_constructedBegin (zclass tag : Int) (name : Option String) :
    Triple lookAheadContract Handle.CacheKept (odrConstructedBeginDecode zclass tag name)
      fun _ => Handle.CacheKept := by
  intro o kept
  rw [odrConstructedBeginDecode, upholds_get_bind_iff, upholds_ite_iff]
  split
  · simpa using kept
  next noError =>
    rw [upholds_modify_bind_iff, upholds_get_bind_iff]
    refine .enter_bind fun _ => ⟨rfl, ?_⟩
    have started : (defaultTag zclass tag { o with lenlen := 1 }).CacheKept ∧
        (defaultTag zclass tag { o with lenlen := 1 }).error = none := by
      unfold defaultTag
      split <;> exact ⟨kept, by simpa using noError⟩
    refine (lookAhead_tag _ _ true name _ started).bind ?_
    rintro (_ | cons)
    · exact .pure fun _ reached => reached.2
    · have used : Triple lookAheadContract Handle.CacheUsed (do
          if ← stackPush then constructedLength else pure false) fun _ => Handle.CacheUsed := by
        have failed (o : Handle) (error : ErrorCode) (id : Nat) :
            Handle.CacheUsed { o with error := some error, errorId := id, element := "" } := .inl rfl
        refine .bind ?_ fun pushed => .ite ?_ (.pure fun _ kept => kept)
        · intro t used
          rw [stackPush, upholds_get_bind_iff, upholds_ite_iff]
          split
          · simpa using failed t _ _
          · simpa [Handle.CacheUsed] using used
        · intro t used
          rw [constructedLength, upholds_get_bind_iff]
          refine upholds_reading_bind t (fun _ => trivial) ?_
          rintro ⟨res, len⟩ found
          rw [upholds_ite_iff]
          split
          · simp [Handle.CacheUsed]
          · rw [upholds_advance_bind_iff, upholds_modify_bind_iff, upholds_get_bind_iff, upholds_ite_iff]
            split
            · simp [Handle.CacheUsed]
            · simpa [Handle.CacheUsed, setTop] using used
      refine .ite (.pure fun _ reached => reached.2) ?_
      exact used.weaken (fun _ reached => reached.1 rfl) fun _ _ kept => kept.kept

theorem lookAhead_constructedEnd :
    Triple lookAheadContract Handle.CacheKept odrConstructedEndDecode fun _ => Handle.CacheKept := by
  intro o kept
  refine .enter_bind fun _ => ⟨rfl, ?_⟩
  rw [upholds_get_bind_iff, upholds_ite_iff]
  split
  · simpa using kept
  next noError =>
    cases top : o.stack with
    | nil => simpa using .inl rfl
    | cons entry =>
      -- closing the element needs its end at the current position, so the cache must be empty
      have popped (t : Handle) (same : t.berTag = o.berTag) (ended : ¬ o.More) :
          Handle.CacheKept { t with stack := t.stack.tail, spare := t.spare + 1 } := by
        obtain broken | outermost | empty | ⟨-, more⟩ := kept
        · exact absurd broken noError
        · simp [outermost] at top
        · exact .inr (.inr (.inl (by simpa [same] using empty)))
        · exact absurd more ended
      have notMore (h : ¬ if 0 ≤ entry.len then (o.bp : Int) - entry.base < entry.len
          else ¬ (o.buf[o.bp]? = some 0 ∧ o.buf[o.bp + 1]? = some 0)) : ¬ o.More := by
        rintro ⟨_, _, same, more⟩
        rw [top, List.cons.injEq] at same
        exact h (same.1 ▸ more)
      rw [upholds_ite_iff]
      split
      next indefinite =>
        have closing : Upholds lookAheadContract takeEndOfContents o fun closed t => t.berTag = o.berTag ∧
            (closed = true → o.buf[o.bp]? = some 0 ∧ o.buf[o.bp + 1]? = some 0) := by
          refine upholds_readAt_bind o (fun _ => trivial) fun first here => ?_
          rw [upholds_advance_bind_iff, upholds_ite_iff]
          split
          next zero =>
            refine upholds_readAt_bind _ (fun _ => trivial) fun second there => ?_
            simp only [upholds_advance_bind_iff, upholds_pure_iff, decide_eq_true_eq, Handle.skip_berTag, true_and]
            rintro rfl
            exact ⟨zero ▸ here, there⟩
          · simp
        refine closing.bind ?_
        rintro closed t ⟨same, zeros⟩
        rw [upholds_ite_iff]
        split
        next done =>
          simp only [upholds_stackPop_bind_iff, upholds_pure_iff]
          refine popped t same (notMore ?_)
          rw [if_neg (by omega), not_not]
          exact zeros done
        · simpa using .inl rfl
      next definite =>
        rw [upholds_ite_iff]
        split
        · simpa using .inl rfl
        next length =>
          simp only [upholds_stackPop_bind_iff, upholds_pure_iff]
          refine popped o rfl (notMore ?_)
          rw [if_pos (by omega)]
          omega

theorem lookAhead_any (opt : Bool) (name : Option String) :
    Triple lookAheadContract Handle.CacheKept (odrAnyDecode opt name) fun _ => Handle.CacheKept := by
  intro o kept
  refine .enter_bind fun empty => ⟨rfl, ?_⟩
  rw [upholds_get_bind_iff, upholds_ite_iff]
  split
  · simpa using kept
  next noError =>
    have moved (n : Nat) : (o.skip n).CacheKept := by
      simp only [lookAheadContract, emptyAtAny, Bool.or_eq_true, List.isEmpty_iff, decide_eq_true_eq] at empty
      obtain (broken | outermost) | used := empty
      · exact absurd broken noError
      · exact .inr (.inl outermost)
      · exact .inr (.inr (.inl used))
    have framed : Upholds lookAheadContract berAnyDecode o fun _ => Handle.CacheKept := by
      rw [berAnyDecode, upholds_get_bind_iff, upholds_ite_iff]
      split
      · simpa using .inl rfl
      · refine upholds_reading_bind o (fun _ => trivial) fun octets _ => ?_
        simpa using moved _
    refine framed.bind ?_
    rintro (_ | value)
    · exact .bind (triple_missing Handle.CacheKept.failed opt name) fun ret => .pure fun _ reached => reached.1
    · exact .pure fun _ kept => kept

theorem unmovedCache : Unmoved lookAheadContract Handle.CacheUsed where
  outside := trivial
  outOfRounds := trivial
  integer _ := rfl
  moreChunks _ _ _ := rfl
  failed _ _ _ _ := .inl rfl
  skip _ _ used := used

theorem lookAheadRules : StepRules lookAheadContract Handle.CacheKept Handle.CacheUsed where
  inv_of_fresh _ used := used.kept
  inv_failed := Handle.CacheKept.failed
  fresh_skip _ _ used := used
  inv_bias _ kept := kept
  inv_settag o zclass tag kept := by unfold defaultTag; split <;> exact kept
  outOfRounds := trivial
  undefined := trivial
  dectag _ _ := .inl trivial
  declen _ _ := .inl trivial
  tag := lookAhead_tag
  constructedBegin := lookAhead_constructedBegin
  constructedMore o kept := (upholds_constructedMore o).mono fun _ _ reached => reached.1 ▸ kept
  constructedEnd := lookAhead_constructedEnd
  moreChunks := unmovedCache.moreChunksContents
  integer := unmovedCache.integerContents
  boolean := unmovedCache.booleanContents
  null := unmovedCache.nullContents
  oidc := unmovedCache.oidcContents
  octetContents := unmovedCache.octetContents
  bitContents := unmovedCache.bitContents
  any := lookAhead_any

/-- As long as `odr_any` is not called over a filled look-ahead, every call of `ber_tag` inside a
constructed element finds the look-ahead empty or coherent. -/
theorem built_tag_coherent {α : Type} {run : Codec α} (built : Built run) (buf : List UInt8)
    (empty : ∀ event ∈ (run (decoding buf)).events, emptyAtAny event) :
    ∀ event ∈ (run (decoding buf)).events, coherentTag event :=
  (lookAheadRules.built built (decoding buf) (.inr (.inl rfl)) empty).1

def anyBetween : Ty :=
  .sequence (.cons "a" true .integer (.cons "b" false .any (.cons "c" false .integer .nil)))

/-- The cache is coherent at every entry of `ber_tag`. -/
def AllCoherent (events : List (Call × Handle)) : Prop := ∀ event ∈ events, coherentTag event

theorem anyBetween_coherent_if_present :
    AllCoherent (anyBetween.decode false none (decoding [0x30, 8, 2, 1, 7, 4, 0, 2, 1, 5])).events :=
  built_tag_coherent (anyBetween.decode_built false none) _ (by decide +kernel)

/-- Without the optional member the look-ahead for it outlives the ANY behind it. -/
theorem anyBetween_stale_if_absent :
    ¬ ∀ event ∈ (anyBetween.decode false none (decoding [0x30, 6, 4, 1, 0xaa, 2, 1, 5])).events,
      coherentTag event := by
  decide +kernel

end Yaz.Odr
