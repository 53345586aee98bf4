import Mathlib.Data.List.TakeWhile

/-! The pieces of a string between delimiters: `nmemsdup.c`. -/

set_option autoImplicit false

namespace Yaz.Text
open List

variable {delim dstr piece rest : List UInt8} {escapeChar : UInt8} {collapse substEscape : Bool}

inductive Scan (α : Type) where
  | done (result : α)
  | outside
  | busy
  deriving DecidableEq

/-- The loop over a piece: the piece, and the memory from its end on. It is `none` when the loop reads behind the memory. -/
def pieceLoop (delim : List UInt8) (escapeChar : UInt8) : (cp : List UInt8) → Option (List UInt8 × List UInt8)
  | [] => none
  | c :: cp =>
    if c = 0 ∨ c ∈ delim then some ([], c :: cp)
    else if c = escapeChar then
      match cp with
      | [] => none
      | d :: cp => (pieceLoop delim escapeChar cp).map fun r => (c :: d :: r.1, r.2)
    else (pieceLoop delim escapeChar cp).map fun r => (c :: r.1, r.2)

def skipDelims (delim : List UInt8) (escapeChar : UInt8) (cp : List UInt8) : List UInt8 :=
  cp.dropWhile fun c => c ≠ 0 ∧ c ∈ delim ∧ c ≠ escapeChar

/-- One pass over the string; the first one has no `darray` yet. -/
def strsplitPass (delim : List UInt8) (collapse : Bool) (escapeChar : UInt8) :
    (rounds : Nat) → (cp : List UInt8) → (i : Nat) → (darray : Option (List (List UInt8))) → Scan (Nat × Option (List (List UInt8)))
  | 0, _, _, _ => .busy
  | rounds + 1, cp, i, darray =>
    let cp := if collapse then skipDelims delim escapeChar cp else cp
    if collapse ∧ cp.head? = some 0 then .done (i, darray)
    else
      match pieceLoop delim escapeChar cp with
      | none => .outside
      | some (piece, cp) =>
        let darray := darray.map (· ++ [piece])
        if collapse then strsplitPass delim collapse escapeChar rounds cp (i + 1) darray
        else if cp.head? = some 0 then .done (i + 1, darray)
        else strsplitPass delim collapse escapeChar rounds (cp.drop 1) (i + 1) darray

def substEscapes (escapeChar : UInt8) : List UInt8 → List UInt8
  | [] => []
  | [c] => [c]
  | c :: d :: src => if c = escapeChar then d :: substEscapes escapeChar src else c :: substEscapes escapeChar (d :: src)

/-- `nmem_strsplit_escape2`: the count, and the array if there is one. It is as large as the first pass has counted. -/
def nmemStrsplitEscape2 (rounds : Nat) (delim dstr : List UInt8) (collapse : Bool) (escapeChar : UInt8) (substEscape : Bool) :
    Scan (Nat × Option (List (List UInt8))) :=
  match strsplitPass delim collapse escapeChar rounds (dstr ++ [0]) 0 none with
  | .done (0, _) => .done (0, none)
  | .done (num, _) =>
    match strsplitPass delim collapse escapeChar rounds (dstr ++ [0]) 0 (some []) with
    | .done (i, darray) =>
      if num < i then .outside
      else .done (i, darray.map fun pieces => if substEscape then pieces.map (substEscapes escapeChar) else pieces)
    | other => other
  | other => other

def Bare (delim : List UInt8) (escapeChar : UInt8) : List UInt8 → Prop
  | [] => True
  | c :: piece =>
    c ∉ delim ∧
      if c = escapeChar then
        match piece with
        | [] => False
        | _ :: piece => Bare delim escapeChar piece
      else Bare delim escapeChar piece

inductive Joined (delim : List UInt8) (escapeChar : UInt8) : (dstr : List UInt8) → (pieces : List (List UInt8)) → Prop
  | last {piece : List UInt8} (bare : Bare delim escapeChar piece) : Joined delim escapeChar piece [piece]
  | cut {piece rest : List UInt8} {d : UInt8} {pieces : List (List UInt8)} (bare : Bare delim escapeChar piece) (isDelim : d ∈ delim)
      (others : Joined delim escapeChar rest pieces) : Joined delim escapeChar (piece ++ d :: rest) (piece :: pieces)

/-- The longest parts of the string without an unescaped delimiter: delimiters or the ends of the string stand around each. -/
inductive Runs (delim : List UInt8) (escapeChar : UInt8) : (dstr : List UInt8) → (pieces : List (List UInt8)) → Prop
  | delims {gap : List UInt8} (all : ∀ c ∈ gap, c ∈ delim) : Runs delim escapeChar gap []
  | run {gap piece rest : List UInt8} {pieces : List (List UInt8)} (all : ∀ c ∈ gap, c ∈ delim) (nonempty : piece ≠ [])
      (bare : Bare delim escapeChar piece) (ends : ∀ c ∈ rest.head?, c ∈ delim) (others : Runs delim escapeChar rest pieces) :
      Runs delim escapeChar (gap ++ (piece ++ rest)) (piece :: pieces)

def SplitsExactly (delim dstr : List UInt8) (collapse : Bool) (escapeChar : UInt8) (substEscape : Bool) : Prop :=
  ∃ rounds pieces,
    strsplitPass delim collapse escapeChar rounds (dstr ++ [0]) 0 none = .done (pieces.length, none) ∧
    nmemStrsplitEscape2 rounds delim dstr collapse escapeChar substEscape =
        .done (pieces.length,
          if pieces = [] then none else some (if substEscape then pieces.map (substEscapes escapeChar) else pieces)) ∧
      if collapse then Runs delim escapeChar dstr pieces else Joined delim escapeChar dstr pieces

def dangling (delim : List UInt8) (escapeChar : UInt8) : List UInt8 → Bool
  | [] => false
  | c :: dstr =>
    if c ∉ delim ∧ c = escapeChar then
      match dstr with
      | [] => true
      | _ :: dstr => dangling delim escapeChar dstr
    else dangling delim escapeChar dstr

/-- The loop over a piece ends at a delimiter or at the end of the string, unless it goes past the end. -/
theorem pieceLoop_spec (noNul : 0 ∉ dstr) :
    pieceLoop delim escapeChar (dstr ++ [0]) = none ∧ dangling delim escapeChar dstr = true ∨
      ∃ piece rest, pieceLoop delim escapeChar (dstr ++ [0]) = some (piece, rest ++ [0]) ∧ dstr = piece ++ rest ∧
        Bare delim escapeChar piece ∧ (∀ c ∈ rest.head?, c ∈ delim) ∧ dangling delim escapeChar rest = dangling delim escapeChar dstr := by
  fun_induction dangling delim escapeChar dstr with
  | case1 => exact .inr ⟨[], [], by simp [pieceLoop], rfl, trivial, by simp, rfl⟩
  | case2 c isEscape =>
    have inner : c ≠ 0 := fun nul => noNul (nul ▸ mem_cons_self)
    refine .inl ⟨?_, rfl⟩
    rw [cons_append, pieceLoop.eq_def]
    simp only [isEscape.2] at inner isEscape ⊢
    simp [inner, isEscape.1, pieceLoop]
  | case3 c isEscape d dstr ih =>
    have inner : c ≠ 0 := fun nul => noNul (nul ▸ mem_cons_self)
    have behind : 0 ∉ dstr := fun nul => noNul (mem_cons_of_mem c (mem_cons_of_mem d nul))
    have step : pieceLoop delim escapeChar (c :: d :: dstr ++ [0]) =
        (pieceLoop delim escapeChar (dstr ++ [0])).map fun r => (c :: d :: r.1, r.2) := by
      rw [cons_append, cons_append, pieceLoop.eq_def]
      simp only [isEscape.2] at inner isEscape ⊢
      simp [inner, isEscape.1]
    rw [step]
    rcases ih behind with ⟨past, isDangling⟩ | ⟨piece, rest, found, rfl, bare, ends, same⟩
    · exact .inl ⟨by rw [past]; rfl, isDangling⟩
    · refine .inr ⟨c :: d :: piece, rest, by rw [found]; rfl, rfl, ?_, ends, same⟩
      rw [Bare.eq_def]
      exact ⟨isEscape.1, by rwa [if_pos isEscape.2]⟩
  | case4 c dstr plain ih =>
    have inner : c ≠ 0 := fun nul => noNul (nul ▸ mem_cons_self)
    have behind : 0 ∉ dstr := fun nul => noNul (mem_cons_of_mem c nul)
    by_cases isDelim : c ∈ delim
    · refine .inr ⟨[], c :: dstr, ?_, rfl, trivial, by simpa using isDelim, ?_⟩
      · rw [cons_append, pieceLoop.eq_def]
        simp [isDelim]
      · rw [dangling.eq_def]
        simp only [plain, if_false]
    · have other : c ≠ escapeChar := fun isEscape => plain ⟨isDelim, isEscape⟩
      have step : pieceLoop delim escapeChar (c :: dstr ++ [0]) =
          (pieceLoop delim escapeChar (dstr ++ [0])).map fun r => (c :: r.1, r.2) := by
        rw [cons_append, pieceLoop.eq_def]
        simp [inner, isDelim, other]
      rw [step]
      rcases ih behind with ⟨past, isDangling⟩ | ⟨piece, rest, found, rfl, bare, ends, same⟩
      · exact .inl ⟨by rw [past]; rfl, isDangling⟩
      · refine .inr ⟨c :: piece, rest, by rw [found]; rfl, rfl, ?_, ends, same⟩
        rw [Bare.eq_def]
        exact ⟨isDelim, by rwa [if_neg other]⟩

theorem Bare.not_mem (isDelim : escapeChar ∈ delim) (bare : Bare delim escapeChar piece) : escapeChar ∉ piece := by
  induction piece with
  | nil => exact not_mem_nil
  | cons c _ ih =>
    rw [Bare.eq_def] at bare
    have other : c ≠ escapeChar := fun isEscape => bare.1 (isEscape ▸ isDelim)
    simp only [if_neg other] at bare
    rw [mem_cons, not_or]
    exact ⟨other.symm, ih bare.2⟩

theorem dangling_append {gap : List UInt8} (all : ∀ c ∈ gap, c ∈ delim) :
    dangling delim escapeChar (gap ++ rest) = dangling delim escapeChar rest := by
  induction gap with
  | nil => rfl
  | cons c _ ih =>
    have isDelim : c ∈ delim := all c mem_cons_self
    rw [cons_append, dangling.eq_def]
    simp only [isDelim, not_true_eq_false, false_and, if_false]
    exact ih fun d member => all d (mem_cons_of_mem c member)

/-- The delimiters that are passed over before a piece. -/
theorem skipDelims_spec (noNul : 0 ∉ dstr) :
    ∃ gap rest, dstr = gap ++ rest ∧ skipDelims delim escapeChar (dstr ++ [0]) = rest ++ [0] ∧ (∀ c ∈ gap, c ∈ delim ∧ c ≠ escapeChar) ∧
      ∀ c ∈ rest.head?, c ∈ delim → c = escapeChar := by
  induction dstr with
  | nil => exact ⟨[], [], rfl, by simp [skipDelims], by simp, by simp⟩
  | cons c dstr ih =>
    have inner : c ≠ 0 := fun nul => noNul (nul ▸ mem_cons_self)
    by_cases skipped : c ∈ delim ∧ c ≠ escapeChar
    · obtain ⟨gap, rest, rfl, skips, all, stops⟩ := ih fun nul => noNul (mem_cons_of_mem c nul)
      refine ⟨c :: gap, rest, rfl, ?_, ?_, stops⟩
      · rw [cons_append, skipDelims, dropWhile_cons_of_pos (by simp [inner, skipped])]
        exact skips
      · intro d member
        rcases mem_cons.mp member with rfl | member
        · exact skipped
        · exact all d member
    · refine ⟨[], c :: dstr, rfl, ?_, by simp, ?_⟩
      · rw [cons_append, skipDelims, dropWhile_cons_of_neg (by simpa [inner] using skipped)]
      · intro d first isDelim
        cases first
        exact not_not.mp fun other => skipped ⟨isDelim, other⟩

theorem strsplitPass_joined {dstr : List UInt8} (noNul : 0 ∉ dstr) (ends : dangling delim escapeChar dstr = false) :
    ∃ pieces, Joined delim escapeChar dstr pieces ∧ ∀ rounds, dstr.length < rounds → ∀ i darray,
      strsplitPass delim false escapeChar rounds (dstr ++ [0]) i darray = .done (i + pieces.length, darray.map (· ++ pieces)) := by
  rcases @pieceLoop_spec delim dstr escapeChar noNul with ⟨-, isDangling⟩ | ⟨piece, rest, found, cut, bare, stops, same⟩
  · rw [ends] at isDangling
    cases isDangling
  · cases rest with
    | nil =>
      rw [append_nil] at cut
      refine ⟨[piece], by rw [cut]; exact .last bare, fun rounds enough i darray => ?_⟩
      obtain ⟨rounds, rfl⟩ := Nat.exists_eq_succ_of_ne_zero (Nat.ne_of_gt (Nat.zero_lt_of_lt enough))
      simp [strsplitPass, found]
    | cons d rest =>
      have isDelim : d ∈ delim := stops d rfl
      have inner : d ≠ 0 := fun nul => noNul (by rw [cut, nul]; exact mem_append_right _ mem_cons_self)
      have shorter : rest.length < dstr.length := by rw [cut, length_append, length_cons]; omega
      have apart : dangling delim escapeChar rest = false := by
        rw [← @dangling_append _ rest _ [d] (by simpa using isDelim), singleton_append, same, ends]
      obtain ⟨pieces, others, passes⟩ := @strsplitPass_joined rest
        (fun nul => noNul (by rw [cut]; exact mem_append_right _ (mem_cons_of_mem d nul))) apart
      refine ⟨piece :: pieces, by rw [cut]; exact .cut bare isDelim others, fun rounds enough i darray => ?_⟩
      obtain ⟨rounds, rfl⟩ := Nat.exists_eq_succ_of_ne_zero (Nat.ne_of_gt (Nat.zero_lt_of_lt enough))
      have later := passes rounds (by omega) (i + 1) (darray.map (· ++ [piece]))
      rw [strsplitPass]
      simp only [Bool.false_eq_true, false_and, if_false, found, cons_append, head?_cons, Option.some.injEq, inner, drop_one,
        tail_cons, later, Option.map_map, length_cons]
      simp [Function.comp_def, Nat.add_comm, Nat.add_left_comm]
termination_by dstr.length

theorem strsplitPass_runs {dstr : List UInt8} (noNul : 0 ∉ dstr) (ends : dangling delim escapeChar dstr = false)
    (inert : escapeChar ∈ delim → escapeChar ∉ dstr) :
    ∃ pieces, Runs delim escapeChar dstr pieces ∧ ∀ rounds, dstr.length < rounds → ∀ i darray,
      strsplitPass delim true escapeChar rounds (dstr ++ [0]) i darray = .done (i + pieces.length, darray.map (· ++ pieces)) := by
  obtain ⟨gap, text, start, skips, all, stops⟩ := @skipDelims_spec delim dstr escapeChar noNul
  have inText : ∀ c ∈ text, c ∈ dstr := fun c member => start ▸ mem_append_right gap member
  have allDelim : ∀ c ∈ gap, c ∈ delim := fun c member => (all c member).1
  have starts : ∀ c ∈ text.head?, c ∉ delim := by
    intro c first isDelim
    have isEscape := stops c first isDelim
    exact inert (isEscape ▸ isDelim) (isEscape ▸ inText c (mem_of_mem_head? first))
  cases text with
  | nil =>
    rw [append_nil] at start
    refine ⟨[], by rw [start]; exact .delims allDelim, fun rounds enough i darray => ?_⟩
    obtain ⟨rounds, rfl⟩ := Nat.exists_eq_succ_of_ne_zero (Nat.ne_of_gt (Nat.zero_lt_of_lt enough))
    simp [strsplitPass, skips]
  | cons c text =>
    have inner : c ≠ 0 := fun nul => noNul (nul ▸ inText c mem_cons_self)
    have same : dangling delim escapeChar (c :: text) = false := by rw [← dangling_append allDelim, ← start, ends]
    rcases @pieceLoop_spec delim (c :: text) escapeChar (fun nul => noNul (inText 0 nul)) with
      ⟨-, isDangling⟩ | ⟨piece, rest, found, cut, bare, after, apart⟩
    · rw [same] at isDangling
      cases isDangling
    · have nonempty : piece ≠ [] := by
        rintro rfl
        rw [nil_append] at cut
        exact starts c rfl (after c (cut ▸ rfl))
      have shorter : rest.length < dstr.length := by
        have := length_pos_iff.mpr nonempty
        rw [start, cut, length_append, length_append]
        omega
      have inRest : ∀ c ∈ rest, c ∈ dstr := fun d member => inText d (cut ▸ mem_append_right piece member)
      obtain ⟨pieces, others, passes⟩ := @strsplitPass_runs rest (fun nul => noNul (inRest 0 nul)) (apart.trans same)
        fun isDelim member => inert isDelim (inRest escapeChar member)
      refine ⟨piece :: pieces, by rw [start, cut]; exact .run allDelim nonempty bare after others, fun rounds enough i darray => ?_⟩
      obtain ⟨rounds, rfl⟩ := Nat.exists_eq_succ_of_ne_zero (Nat.ne_of_gt (Nat.zero_lt_of_lt enough))
      have later := passes rounds (by omega) (i + 1) (darray.map (· ++ [piece]))
      rw [strsplitPass]
      simp only [if_true, skips, cons_append, head?_cons, Option.some.injEq, inner, and_false, if_false]
      rw [← cons_append, found]
      simp only [later, Option.map_map, length_cons]
      simp [Function.comp_def, Nat.add_comm, Nat.add_left_comm]
termination_by dstr.length

/-- What keeps a pass from its end is still there behind a piece. -/
theorem strsplitPass_endless (noNul : 0 ∉ dstr)
    (never : dangling delim escapeChar dstr = true ∨ collapse = true ∧ escapeChar ∈ delim ∧ escapeChar ∈ dstr) (rounds i : Nat)
    (darray : Option (List (List UInt8))) (result : Nat × Option (List (List UInt8))) :
    strsplitPass delim collapse escapeChar rounds (dstr ++ [0]) i darray ≠ .done result := by
  induction rounds generalizing dstr i darray with
  | zero => exact fun finished => nomatch finished
  | succ _ ih =>
    have starts : ∃ text, (if collapse then skipDelims delim escapeChar (dstr ++ [0]) else dstr ++ [0]) = text ++ [0] ∧ 0 ∉ text ∧
        (dangling delim escapeChar text = true ∨ collapse = true ∧ escapeChar ∈ delim ∧ escapeChar ∈ text) := by
      cases collapse with
      | false => exact ⟨dstr, rfl, noNul, never⟩
      | true =>
        obtain ⟨gap, text, rfl, skips, all, -⟩ := @skipDelims_spec delim dstr escapeChar noNul
        refine ⟨text, skips, fun nul => noNul (mem_append_right gap nul), never.imp ?_ ?_⟩
        · rw [dangling_append fun c member => (all c member).1]
          exact id
        · rintro ⟨collapses, isDelim, member⟩
          refine ⟨collapses, isDelim, (mem_append.mp member).resolve_left fun skipped => (all _ skipped).2 rfl⟩
    obtain ⟨text, skips, noNul, never⟩ := starts
    rw [strsplitPass]
    simp only [skips]
    have notEnded : ∀ {text}, 0 ∉ text → (dangling delim escapeChar text = true ∨ collapse = true ∧ escapeChar ∈ delim ∧
      escapeChar ∈ text) →
        (text ++ [0]).head? ≠ some 0 := by
      rintro text noNul never
      cases text with
      | nil => simp [dangling] at never
      | cons => exact fun nul => noNul (Option.some.inj nul ▸ mem_cons_self)
    rw [if_neg fun ended => notEnded noNul never ended.2]
    rcases @pieceLoop_spec delim text escapeChar noNul with ⟨past, -⟩ | ⟨piece, rest, found, rfl, bare, after, same⟩
    · rw [past]
      exact fun finished => nomatch finished
    · rw [found]
      have behind : 0 ∉ rest := fun nul => noNul (mem_append_right piece nul)
      have still : dangling delim escapeChar rest = true ∨ collapse = true ∧ escapeChar ∈ delim ∧ escapeChar ∈ rest := by
        rw [same]
        refine never.imp id fun ⟨collapses, isDelim, member⟩ => ⟨collapses, isDelim, ?_⟩
        exact (mem_append.mp member).resolve_left (bare.not_mem isDelim)
      dsimp only
      split
      · exact ih behind still _ _
      · rw [if_neg (notEnded behind still)]
        cases rest with
        | nil => exact absurd (still.resolve_right fun collapses => ‹¬collapse = true› collapses.1) (by simp [dangling])
        | cons d =>
          rw [cons_append, drop_one, tail_cons]
          refine ih (fun nul => behind (mem_cons_of_mem d nul)) (.inl ?_) _ _
          have isDangling := still.resolve_right fun collapses => ‹¬collapse = true› collapses.1
          rwa [← singleton_append, dangling_append (by simpa using after d rfl)] at isDangling

/-- The pieces are right exactly when the string does not end in an escape character that escapes nothing and, where delimiters are
collapsed, no escape character that is a delimiter itself is in the string. -/
theorem nmemStrsplitEscape2_exact_iff (noNul : 0 ∉ dstr) :
    SplitsExactly delim dstr collapse escapeChar substEscape ↔
      dangling delim escapeChar dstr = false ∧ (collapse = true → escapeChar ∈ delim → escapeChar ∉ dstr) := by
  constructor
  · rintro ⟨rounds, pieces, finished, -, -⟩
    by_contra wrong
    have never : dangling delim escapeChar dstr = true ∨ collapse = true ∧ escapeChar ∈ delim ∧ escapeChar ∈ dstr := by
      by_contra right
      refine wrong ⟨by simpa using fun isDangling => right (.inl isDangling), fun collapses isDelim member =>
        right (.inr ⟨collapses, isDelim, member⟩)⟩
    exact strsplitPass_endless noNul never rounds 0 none _ finished
  · rintro ⟨ends, inert⟩
    have right : ∃ pieces, (if collapse then Runs delim escapeChar dstr pieces else Joined delim escapeChar dstr pieces) ∧
        ∀ rounds, dstr.length < rounds → ∀ i darray,
          strsplitPass delim collapse escapeChar rounds (dstr ++ [0]) i darray = .done (i + pieces.length, darray.map (· ++ pieces)) := by
      cases collapse with
      | false => exact strsplitPass_joined noNul ends
      | true => exact strsplitPass_runs noNul ends (inert rfl)
    obtain ⟨pieces, are, passes⟩ := right
    have counted := passes _ (Nat.lt_succ_self _) 0 none
    have filled := passes _ (Nat.lt_succ_self _) 0 (some [])
    rw [Nat.zero_add] at counted filled
    refine ⟨dstr.length + 1, pieces, counted, ?_, are⟩
    rw [nmemStrsplitEscape2, counted, filled]
    cases pieces with
    | nil => rfl
    | cons => simp

theorem nmemStrsplitEscape2_exact_escaped : SplitsExactly [44] [97, 92, 44, 98, 44, 99] false 92 true ↔
    dangling [44] 92 [97, 92, 44, 98, 44, 99] = false ∧ (false = true → 92 ∈ [(44 : UInt8)] → 92 ∉ [(97 : UInt8), 92, 44, 98, 44, 99]) :=
  @nmemStrsplitEscape2_exact_iff [44] [97, 92, 44, 98, 44, 99] 92 false true (by decide)

/-- An escape character at the end of the string takes the loop past its terminator. -/
theorem nmemStrsplitEscape2_dangling : ¬SplitsExactly [44] [97, 92] false 92 true := by
  rintro ⟨rounds, pieces, finished, -, -⟩
  exact @strsplitPass_endless [44] [97, 92] 92 false (by decide) (.inl (by decide)) rounds 0 none _ finished

end Yaz.Text
