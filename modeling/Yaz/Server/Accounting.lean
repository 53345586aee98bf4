import Yaz.Server.Records

/-! What a response says about its records, and when that is so. -/

set_option autoImplicit false

namespace Yaz.Server
open List

section
variable {R : Type} (fetch : Int → FetchRr R)

def FetchRr.signalsEnd (freq : FetchRr R) : Bool := freq.errcode = 0 && freq.record.isNone

inductive FetchRr.StandsBy (freq : FetchRr R) : NamePlusRecord R → Prop where
  | record {buf : R} {format : RecordSyntax} {record : External R} : freq.errcode = 0 → freq.record = some buf →
      freq.outputFormat = some format → zExtRecordOid format buf freq.len = some record →
      freq.StandsBy (.databaseRecord freq.basename record)
  | error : freq.errcode ≠ 0 → freq.surrogateFlag = true →
      freq.StandsBy (surrogatediagrec freq.basename freq.errcode freq.errstring)
  | tooLong {error : Int} : error = recordExceedsPreferredMessageSize ∨ error = recordExceedsMaximumRecordSize → freq.errcode = 0 →
      freq.record ≠ none → freq.StandsBy (surrogatediagrec freq.basename error none)

/-- The positions from `start` on. -/
def positions (start : Int) (n : Nat) : List Int := (List.range n).map fun i : Nat => start + i

/-- The account of a list: its records stand for the positions from `start` on, and `next` is the first position that they do not
stand for, or 0 where the last of them was the last of the set or the backend said that there are no more. -/
structure Accounted (start next : Int) (list : List (NamePlusRecord R)) (asked represented : List Int) : Prop where
  consecutive : represented = positions start list.length
  standing : List.Forall₂ (fun position record => (fetch position).StandsBy record) represented list
  next : next = start + list.length ∨
    (next = 0 ∧ ((∃ last ∈ represented.getLast?, (fetch last).lastInSet = true) ∨ ∃ last ∈ asked.getLast?, (fetch last).signalsEnd = true))

def NeverBehindLast (asked : List Int) : Prop := asked.Pairwise fun position _ => (fetch position).lastInSet = false

variable (a : Association) (start toget : Int)

/-- The answers of a backend that `pack_records` gives a right account of. -/
def orderly : (left : Nat) → (recno dumpedRecords : Int) → Bool
  | 0, _, _ => true
  | left + 1, recno, dumpedRecords =>
    let freq := fetch recno
    let last := freq.lastInSet
    (last || recno ≠ intMax) &&
    match freq.taken a start toget recno dumpedRecords with
    | .failed => false
    | .missing | .unusable => true
    -- what follows is yet to come, so this may not be the last
    | .dropped => !last
    | .surrogate => start ≤ recno && recno ≠ intMax && (left = 0 || !last) && orderly left (recno + 1) dumpedRecords
    | .tooLong _ thisLength =>
      start ≤ recno && recno ≠ intMax && (left = 0 || !last) && orderly left (recno + 1) (dumpedRecords + thisLength)
    | .kept _ => start ≤ recno && (last || orderly left (recno + 1) dumpedRecords)

variable {fetch a start toget}

def FetchRr.Means (start recno : Int) (freq : FetchRr R) : Taken R → Prop
  | .failed => freq.errcode ≠ 0
  | .surrogate => freq.errcode ≠ 0 ∧ freq.surrogateFlag = true
  | .missing => freq.signalsEnd = true
  | .dropped => start < recno ∧ freq.signalsEnd = false
  | .tooLong error _ =>
    (error = recordExceedsPreferredMessageSize ∨ error = recordExceedsMaximumRecordSize) ∧ freq.errcode = 0 ∧ freq.record ≠ none
  | .unusable => True
  | .kept record => ∃ buf format, freq.errcode = 0 ∧ freq.record = some buf ∧ freq.outputFormat = some format ∧
      zExtRecordOid format buf freq.len = some record

theorem FetchRr.taken_means (freq : FetchRr R) (recno dumpedRecords : Int) :
    freq.Means start recno (freq.taken a start toget recno dumpedRecords) := by
  rw [FetchRr.taken]
  split
  next error =>
    split
    · exact error
    next local_ => exact ⟨error, by simpa using local_⟩
  next noError =>
    have free : freq.errcode = 0 := by simpa using noError
    split
    next none => simp [FetchRr.Means, FetchRr.signalsEnd, free, none]
    next record is =>
      have some : freq.record ≠ none := by simp [is]
      have keep : freq.Means start recno (freq.external record) := by
        rw [FetchRr.external]
        split
        · trivial
        next databaseRecord made =>
          obtain ⟨format, isFormat, made⟩ := Option.bind_eq_some_iff.mp made
          exact ⟨record, format, free, is, isFormat, made⟩
      dsimp only
      split
      · split
        next small => exact ⟨small.2, by simp [FetchRr.signalsEnd, is]⟩
        · split
          · split
            · exact ⟨.inl rfl, free, some⟩
            · exact keep
          · exact ⟨.inr rfl, free, some⟩
      · exact keep

def Packed.list (packed : Packed R) : List (NamePlusRecord R) := packed.records.elim [] Records.list

/-- The account of what was packed from a position on; there is none of a null pointer. -/
structure Packed.Settled (fetch : Int → FetchRr R) (position : Int) (packed : Packed R) : Prop where
  inRange : packed.overflowed = false
  asked : NeverBehindLast fetch packed.asked
  account : packed.records ≠ none → Accounted fetch position packed.next packed.list packed.asked packed.represented

def Packed.Miscounts (fetch : Int → FetchRr R) (position : Int) (packed : Packed R) : Prop :=
  packed.represented = [] ∧ (packed.next = 0 ∨ position < packed.next) ∧ ∀ last ∈ packed.asked.getLast?, (fetch last).signalsEnd = false

variable {packed : Packed R}

theorem Packed.Miscounts.notAccounted {position earlier : Int} (miscounts : packed.Miscounts fetch position)
    (none : packed.list = []) (positive : 1 ≤ earlier) (before : earlier ≤ position) :
    ¬ Accounted fetch earlier packed.next packed.list packed.asked packed.represented := by
  obtain ⟨represented, next, asked⟩ := miscounts
  intro account
  rcases account.next with same | ⟨zero, ⟨last, inside, -⟩ | ⟨last, inside, ends⟩⟩
  · rw [none] at same
    simp only [length_nil, Nat.cast_zero, add_zero] at same
    omega
  · rw [represented] at inside
    simp at inside
  · rw [asked last inside] at ends
    simp at ends

attribute [local simp] packLoop orderly

theorem packLoop_asked (left : Nat) (recno dumpedRecords next : Int) :
    ∃ later, (packLoop a start toget fetch (left + 1) recno dumpedRecords next).asked = recno :: later := by
  rw [packLoop]
  exact ⟨_, rfl⟩

variable {record : NamePlusRecord R}

theorem Packed.behind_diagnostic {recno : Int} {diagnostic : DefaultDiagFormat}
    (is : (packed.behind recno record).records = some (.nonSurrogateDiagnostic diagnostic)) :
    packed.records = some (.nonSurrogateDiagnostic diagnostic) ∧ packed.behind recno record = packed := by
  rw [Packed.behind] at is ⊢
  split at is
  · simp at is
  · exact ⟨is, rfl⟩

variable {left : Nat}

theorem packLoop_miscounts {recno dumpedRecords next : Int} {diagnostic : DefaultDiagFormat}
    (is : (packLoop a start toget fetch left recno dumpedRecords next).records = some (.nonSurrogateDiagnostic diagnostic)) :
    (packLoop a start toget fetch left recno dumpedRecords next).Miscounts fetch recno := by
  induction left generalizing recno dumpedRecords next with
  | zero => simp [packLoop, Packed.ending] at is
  | succ left ih =>
    -- the diagnostic of a later round is that of this one
    have later {dumped next : Int} {record : NamePlusRecord R}
        (is : ((if recno = intMax then Packed.undefined else packLoop a start toget fetch left (recno + 1) dumped next).behind
          recno record).records = some (.nonSurrogateDiagnostic diagnostic)) :
        (((if recno = intMax then Packed.undefined else packLoop a start toget fetch left (recno + 1) dumped next).behind
          recno record).asking recno).Miscounts fetch recno := by
      obtain ⟨isInner, same⟩ := Packed.behind_diagnostic is
      rw [same]
      split at isInner
      · simp [Packed.undefined] at isInner
      next within =>
        rw [if_neg within]
        obtain ⟨represented, count, asked⟩ := ih isInner
        refine ⟨represented, count.imp_right (Int.lt_trans (Int.lt_succ recno)), ?_⟩
        cases left with
        | zero => simp [packLoop, Packed.ending] at isInner
        | succ left =>
          obtain ⟨behind, isAsked⟩ := @packLoop_asked R fetch a start toget left (recno + 1) dumped next
          rw [isAsked] at asked
          rw [Packed.asking, isAsked, getLast?_cons_cons]
          exact asked
    have means := @FetchRr.taken_means R a start toget (fetch recno) recno dumpedRecords
    rw [packLoop] at is ⊢
    dsimp only [Packed.asking] at is ⊢
    split at is
    · simp [Packed.undefined] at is
    next within =>
      rw [if_neg within]
      split at is
      next failed =>
        rw [failed] at means
        refine ⟨rfl, ?_, ?_⟩
        · dsimp only
          split
          · exact .inl rfl
          · exact .inr (by omega)
        · simp only [getLast?_singleton, Option.mem_def, Option.some.injEq, forall_eq']
          simp only [FetchRr.Means] at means
          simp [FetchRr.signalsEnd, means]
      · exact later is
      · simp [Packed.ending] at is
      · simp [Packed.ending] at is
      · exact later is
      · simp at is
      · by_cases last : (fetch recno).lastInSet = true
        · simp [last, Packed.behind, Packed.ending] at is
        · simp only [if_neg last] at is ⊢
          exact later is

theorem positions_succ (start : Int) (n : Nat) : positions start (n + 1) = start :: positions (start + 1) n := by
  rw [positions, positions, range_succ_eq_map, map_cons, map_map, Nat.cast_zero, add_zero]
  congr 1
  apply map_congr_left
  intro i _
  simp only [Function.comp_apply, Nat.cast_succ]
  omega

theorem Accounted.cons_iff {recno next : Int} {list : List (NamePlusRecord R)} {behind represented : List Int}
    (stands : (fetch recno).StandsBy record) (goesOn : (fetch recno).lastInSet = false) :
    Accounted fetch recno next (record :: list) (recno :: (recno + 1) :: behind) (recno :: represented) ↔
      Accounted fetch (recno + 1) next list ((recno + 1) :: behind) represented := by
  have length : recno + ((record :: list).length : Int) = recno + 1 + (list.length : Int) := by
    rw [length_cons, Nat.cast_succ]
    omega
  have last : (∃ last ∈ (recno :: represented).getLast?, (fetch last).lastInSet = true) ↔
      ∃ last ∈ represented.getLast?, (fetch last).lastInSet = true := by
    cases represented with
    | nil => simp [goesOn]
    | cons => rw [getLast?_cons_cons]
  constructor
  · rintro ⟨consecutive, standing, count⟩
    rw [length_cons, positions_succ, List.cons.injEq] at consecutive
    rw [length, getLast?_cons_cons, last] at count
    exact ⟨consecutive.2, (forall₂_cons.mp standing).2, count⟩
  · rintro ⟨consecutive, standing, count⟩
    refine ⟨?_, .cons stands standing, ?_⟩
    · rw [length_cons, positions_succ, ← consecutive]
    · rw [length, getLast?_cons_cons, last]
      exact count

theorem neverBehindLast_cons {recno : Int} {behind : List Int} :
    NeverBehindLast fetch (recno :: (recno + 1) :: behind) ↔
      (fetch recno).lastInSet = false ∧ NeverBehindLast fetch ((recno + 1) :: behind) := by
  rw [NeverBehindLast, NeverBehindLast, pairwise_cons]
  apply and_congr_left
  intro _
  constructor
  · exact fun all => all (recno + 1) (mem_cons_self ..)
  · exact fun goesOn _ _ => goesOn

/-- One round, where the loop goes on. -/
theorem settled_goOn {recno dumped next : Int} (positive : 1 ≤ recno)
    (stands : (fetch recno).StandsBy record) (goesOn : (fetch recno).lastInSet = false) :
    (((packLoop a start toget fetch (left + 1) (recno + 1) dumped next).behind recno record).asking recno).Settled fetch recno ↔
      (packLoop a start toget fetch (left + 1) (recno + 1) dumped next).Settled fetch (recno + 1) := by
  obtain ⟨behind, isAsked⟩ := @packLoop_asked R fetch a start toget left (recno + 1) dumped next
  have miscounts (diagnostic : DefaultDiagFormat) := @packLoop_miscounts R fetch a start toget (left + 1) (recno + 1) dumped next diagnostic
  generalize packLoop a start toget fetch (left + 1) (recno + 1) dumped next = packed at isAsked miscounts ⊢
  have askedBehind : (packed.behind recno record).asked = (recno + 1) :: behind := by
    rw [Packed.behind]
    split
    · exact isAsked
    · exact isAsked
  have overflowed : (packed.behind recno record).overflowed = packed.overflowed := by
    rw [Packed.behind]
    split <;> rfl
  have account : (((packed.behind recno record).asking recno).records ≠ none →
      Accounted fetch recno ((packed.behind recno record).asking recno).next ((packed.behind recno record).asking recno).list
        (recno :: (recno + 1) :: behind) ((packed.behind recno record).asking recno).represented) ↔
      (packed.records ≠ none → Accounted fetch (recno + 1) packed.next packed.list ((recno + 1) :: behind) packed.represented) := by
    rcases is : packed.records with _ | diagnostic | list
    · simp [Packed.behind, Packed.asking, is]
    · -- a diagnostic is not accounted for at any position
      have none : packed.list = [] := by
        rw [Packed.list, is]
        rfl
      have wrong := miscounts diagnostic is
      have same : packed.behind recno record = packed := by
        rw [Packed.behind, is]
      have here := wrong.notAccounted none positive (by omega)
      have further := wrong.notAccounted none (show 1 ≤ recno + 1 by omega) (by omega)
      rw [isAsked] at here further
      have hereToo : ¬ Accounted fetch recno packed.next packed.list (recno :: (recno + 1) :: behind) packed.represented := by
        intro account
        apply here
        refine ⟨account.consecutive, account.standing, ?_⟩
        have count := account.next
        exact count
      rw [same]
      apply iff_of_false
      · exact fun account => hereToo (account (by simp [Packed.asking, is]))
      · exact fun account => further (account (by simp))
    · have inner : packed.list = list := by
        rw [Packed.list, is]
        rfl
      have outer : (packed.behind recno record).asking recno = { packed with
          records := some (.databaseOrSurDiagnostics (record :: list)), represented := recno :: packed.represented
          asked := recno :: packed.asked } := by
        rw [Packed.behind, is]
        rfl
      rw [outer, inner]
      simp only [ne_eq, reduceCtorEq, not_false_eq_true, forall_const]
      exact Accounted.cons_iff stands goesOn
  have never := @neverBehindLast_cons R fetch recno behind
  have askedHere : ((packed.behind recno record).asking recno).asked = recno :: (recno + 1) :: behind := by
    rw [Packed.asking, askedBehind]
  constructor
  · rintro ⟨inRange, asked, accounted⟩
    rw [askedHere] at asked accounted
    refine ⟨overflowed.symm.trans inRange, ?_, ?_⟩
    · rw [isAsked]
      exact (never.mp asked).2
    · rw [isAsked]
      exact account.mp accounted
  · rintro ⟨inRange, asked, accounted⟩
    rw [isAsked] at asked accounted
    refine ⟨overflowed.trans inRange, ?_, ?_⟩
    · rw [askedHere]
      exact never.mpr ⟨goesOn, asked⟩
    · rw [askedHere]
      exact account.mpr accounted

theorem settled_alone {recno position : Int} (some : packed.records ≠ none) (list : packed.list = [])
    (represented : packed.represented = []) (inRange : packed.overflowed = false) (asked : packed.asked = []) :
    (packed.asking recno).Settled fetch position ↔ packed.next = position ∨ (packed.next = 0 ∧ (fetch recno).signalsEnd = true) := by
  have listHere : (packed.asking recno).list = [] := list
  constructor
  · rintro ⟨-, -, account⟩
    have count := (account some).next
    rw [listHere] at count
    dsimp only [Packed.asking] at count
    rw [asked, represented] at count
    simpa using count
  · intro count
    refine ⟨inRange, ?_, ?_⟩
    · dsimp only [Packed.asking]
      rw [asked]
      exact pairwise_singleton _ _
    · intro _
      rw [listHere]
      dsimp only [Packed.asking]
      rw [asked, represented]
      exact ⟨rfl, .nil, by simpa using count⟩

theorem settled_full {recno : Int} (stands : (fetch recno).StandsBy record) :
    (((Packed.ending (if (fetch recno).lastInSet then 0
      else recno + 1) .success).behind recno record).asking recno).Settled fetch recno := by
  refine ⟨rfl, pairwise_singleton _ _, ?_⟩
  intro _
  refine ⟨by simp [positions, Packed.asking, Packed.behind, Packed.ending, Packed.list, Records.list], .cons stands .nil, ?_⟩
  split
  next last => exact .inr ⟨rfl, .inl ⟨recno, rfl, last⟩⟩
  · exact .inl rfl

theorem settled_round {recno dumped : Int} (positive : 1 ≤ recno)
    (stands : (fetch recno).StandsBy record)
    (ih : ∀ {recno dumped next : Int}, 1 ≤ recno → start ≤ recno → left ≠ 0 →
      ((packLoop a start toget fetch left recno dumped next).Settled fetch recno ↔ orderly fetch a start toget left recno dumped = true))
    (started : start ≤ recno) :
    (((if recno = intMax then Packed.undefined
        else packLoop a start toget fetch left (recno + 1) dumped (if (fetch recno).lastInSet then 0 else recno + 1)).behind
      recno record).asking recno).Settled fetch recno ↔
      recno ≠ intMax ∧ (left = 0 ∨ (fetch recno).lastInSet = false) ∧ orderly fetch a start toget left (recno + 1) dumped = true := by
  by_cases full : recno = intMax
  · rw [if_pos full]
    apply iff_of_false
    · rintro ⟨inRange, -, -⟩
      simp [Packed.undefined, Packed.behind, Packed.asking] at inRange
    · exact fun both => both.1 full
  · rw [if_neg full]
    cases left with
    | zero => simp [settled_full stands, full, orderly, packLoop]
    | succ left =>
      cases last : (fetch recno).lastInSet with
      | false =>
        rw [settled_goOn positive stands last, ih (by omega) (by omega) (by omega)]
        simp [full]
      | true =>
        -- the next position is asked for all the same
        obtain ⟨behind, isAsked⟩ := @packLoop_asked R fetch a start toget left (recno + 1) dumped 0
        apply iff_of_false
        · rintro ⟨-, asked, -⟩
          have same : (((packLoop a start toget fetch (left + 1) (recno + 1) dumped (if true = true then 0 else recno + 1)).behind
              recno record).asking recno).asked = recno :: (recno + 1) :: behind := by
            rw [if_pos rfl, Packed.asking, Packed.behind]
            split
            · exact congrArg (recno :: ·) isAsked
            · exact congrArg (recno :: ·) isAsked
          rw [same, neverBehindLast_cons, last] at asked
          simp at asked
        · simp

theorem packLoop_settled {recno dumped next : Int} (positive : 1 ≤ recno) (started : start ≤ recno) (some : left ≠ 0) :
    (packLoop a start toget fetch left recno dumped next).Settled fetch recno ↔ orderly fetch a start toget left recno dumped = true := by
  induction left generalizing recno dumped next with
  | zero => exact absurd rfl some
  | succ _ ih =>
    have means := @FetchRr.taken_means R a start toget (fetch recno) recno dumped
    rw [packLoop, orderly]
    by_cases overflows : recno = intMax ∧ (fetch recno).lastInSet = false
    · rw [if_pos overflows]
      apply iff_of_false
      · rintro ⟨inRange, -, -⟩
        simp [Packed.undefined, Packed.asking] at inRange
      · have outside : ((fetch recno).lastInSet || decide (recno ≠ intMax)) = false := by
          rw [overflows.2]
          simp [overflows.1]
        rw [outside, Bool.false_and]
        simp
    · rw [if_neg overflows]
      have within : ((fetch recno).lastInSet || decide (recno ≠ intMax)) = true := by
        cases last : (fetch recno).lastInSet with
        | true => rfl
        | false => simpa [last] using overflows
      rw [within, Bool.true_and]
      cases is : (fetch recno).taken a start toget recno dumped with
      | failed =>
        rw [is] at means
        rw [settled_alone (by simp) rfl rfl rfl rfl]
        have noEnd : (fetch recno).signalsEnd = false := by
          simp only [FetchRr.Means] at means
          simp [FetchRr.signalsEnd, means]
        dsimp only
        split
        · simp [noEnd]
          omega
        · simp [noEnd]
      | missing =>
        rw [is] at means
        rw [settled_alone (by simp [Packed.ending]) rfl rfl rfl rfl]
        have ends : (fetch recno).signalsEnd = true := means
        simp [Packed.ending, ends]
      | unusable =>
        refine iff_of_true ⟨rfl, pairwise_singleton _ _, ?_⟩ rfl
        simp [Packed.asking]
      | dropped =>
        rw [is] at means
        rw [settled_alone (by simp [Packed.ending]) rfl rfl rfl rfl]
        have noEnd : (fetch recno).signalsEnd = false := means.2
        dsimp only [Packed.ending]
        cases last : (fetch recno).lastInSet with
        | true =>
          simp [noEnd]
          omega
        | false =>
          simp only [Bool.false_eq_true, if_false]
          rw [if_pos (by omega)]
          simp
      | surrogate =>
        rw [is] at means
        rw [settled_round positive (.error means.1 means.2) ih started]
        simp [started, and_assoc]
      | tooLong =>
        rw [is] at means
        rw [settled_round positive (.tooLong means.1 means.2.1 means.2.2) ih started]
        simp [started, and_assoc]
      | kept record =>
        rw [is] at means
        obtain ⟨buf, format, free, isBuf, isFormat, made⟩ := means
        have stands : (fetch recno).StandsBy (.databaseRecord (fetch recno).basename record) := .record free isBuf isFormat made
        dsimp only
        by_cases last : (fetch recno).lastInSet = true
        · rw [if_pos last]
          exact iff_of_true (settled_full stands) (by simp [started, last])
        · have notFull : recno ≠ intMax := fun full => overflows ⟨full, by simpa using last⟩
          rw [if_neg last, settled_round positive stands ih started]
          simp [started, last, notFull]

/-- A first position that is too large for an `int`. -/
theorem packLoop_astray {dumped next : Int} (outside : intMax < start) :
    (packLoop a start toget fetch (left + 1) intMax dumped next).Settled fetch start ↔
      orderly fetch a start toget (left + 1) intMax dumped = true := by
  have means := @FetchRr.taken_means R a start toget (fetch intMax) intMax dumped
  have notStarted : ¬ start ≤ intMax := by omega
  have nonzero : (0 : Int) ≠ start := by
    have large : (0 : Int) ≤ intMax := by decide
    omega
  have stopped (record : NamePlusRecord R) : ¬ ((Packed.undefined.behind intMax record).asking intMax).Settled fetch start := by
    rintro ⟨inRange, -, -⟩
    simp [Packed.undefined, Packed.behind, Packed.asking] at inRange
  rw [packLoop, orderly]
  cases last : (fetch intMax).lastInSet with
  | false =>
    rw [if_pos ⟨rfl, rfl⟩]
    apply iff_of_false
    · rintro ⟨inRange, -, -⟩
      simp [Packed.undefined, Packed.asking] at inRange
    · simp
  | true =>
    rw [if_neg (by simp)]
    simp only [if_true, Bool.true_or, Bool.true_and, ne_eq, not_true, decide_false, Bool.and_false, Bool.false_and, notStarted]
    cases is : (fetch intMax).taken a start toget intMax dumped with
    | failed =>
      rw [is] at means
      rw [settled_alone (by simp) rfl rfl rfl rfl]
      have noEnd : (fetch intMax).signalsEnd = false := by
        simp only [FetchRr.Means] at means
        simp [FetchRr.signalsEnd, means]
      simp [noEnd, nonzero]
    | missing =>
      rw [is] at means
      rw [settled_alone (by simp [Packed.ending]) rfl rfl rfl rfl]
      have ends : (fetch intMax).signalsEnd = true := means
      simp [Packed.ending, ends]
    | unusable =>
      refine iff_of_true ⟨rfl, pairwise_singleton _ _, ?_⟩ rfl
      simp [Packed.asking]
    | dropped =>
      rw [is] at means
      exact absurd (Int.le_of_lt means.1) notStarted
    | surrogate => exact iff_of_false (stopped _) (by simp)
    | tooLong => exact iff_of_false (stopped _) (by simp)
    | kept =>
      apply iff_of_false
      · rintro ⟨-, -, account⟩
        have consecutive := (account (by simp [Packed.asking, Packed.behind, Packed.ending])).consecutive
        simp [Packed.asking, Packed.behind, Packed.ending, Packed.list, Records.list, positions] at consecutive
        omega
      · simp

theorem packLoop_start {start num dumped next : Int} (positive : 1 ≤ start) (some : 0 < num) :
    (packLoop a start toget fetch (odrIntToInt num).toNat (odrIntToInt start) dumped next).Settled fetch start ↔
      orderly fetch a start toget (odrIntToInt num).toNat (odrIntToInt start) dumped = true := by
  have large : (1 : Int) ≤ intMax := by decide
  obtain ⟨left, is⟩ : ∃ left, (odrIntToInt num).toNat = left + 1 := by
    apply Nat.exists_eq_succ_of_ne_zero
    rw [odrIntToInt]
    split
    · omega
    · split <;> omega
  rw [is]
  by_cases outside : intMax < start
  · have clipped : odrIntToInt start = intMax := if_pos (by omega)
    rw [clipped]
    exact packLoop_astray outside
  · have same : odrIntToInt start = start := by
      rw [odrIntToInt]
      split
      · omega
      · rw [if_neg (by omega)]
    rw [same]
    exact packLoop_settled positive (Int.le_refl start) (Nat.succ_ne_zero left)

/-! ### Responses -/

def Response.list (response : Response R) : List (NamePlusRecord R) := response.records.elim [] Records.list

structure Served.Accounts (fetch : Int → FetchRr R) (start : Int) (served : Served R) : Prop where
  inRange : served.overflowed = false
  asked : NeverBehindLast fetch served.asked
  account : ∀ response ∈ served.response,
    Accounted fetch start response.nextResultSetPosition response.list served.asked served.represented ∧
      response.numberOfRecordsReturned = response.list.length

/-- `pack_records` is asked for some records, and the backend is orderly. -/
def orderlyRequest (a : Association) (backend : Backend R) (start num : Int) : Bool :=
  (backend.presentError start num).1 = 0 && 0 < num &&
    orderly backend.fetch a start (odrIntToInt num) (odrIntToInt num).toNat (odrIntToInt start) 0

/-- What becomes of a request for records, where `bend_present` leaves `refused` for the number of records. -/
def serve (a : Association) (backend : Backend R) (start num refused : Int) (status : PresentStatus) : Served R :=
  let error := backend.presentError start num
  if error.1 ≠ 0 then
    { response := some {
        records := some (diagrec error.1 error.2), numberOfRecordsReturned := refused, nextResultSetPosition := 0,
        presentStatus := some status } }
  else
    let packed := packRecords a start backend.fetch num
    { response := packed.records.map fun records => {
        records := some records, numberOfRecordsReturned := packed.num, nextResultSetPosition := packed.next,
        presentStatus := some packed.pres }
      asked := packed.asked, represented := packed.represented, overflowed := packed.overflowed }

theorem serve_accounts {backend : Backend R} {start num refused : Int} {status : PresentStatus} (positive : 1 ≤ start) :
    (serve a backend start num refused status).Accounts backend.fetch start ↔ orderlyRequest a backend start num = true := by
  rw [serve, orderlyRequest]
  by_cases error : (backend.presentError start num).1 = 0
  · rw [if_neg (not_not_intro error)]
    simp only [error, decide_true, Bool.true_and]
    rw [packRecords]
    have low : odrIntToInt num < 0 ↔ num < 0 := by
      have large : (1 : Int) ≤ intMax := by decide
      rw [odrIntToInt]
      split
      · omega
      · split <;> omega
    by_cases negative : num < 0
    · rw [if_pos (low.mpr negative)]
      have notPositive : ¬ 0 < num := by omega
      apply iff_of_false
      · rintro ⟨-, -, account⟩
        have number := (account _ rfl).2
        simp only [Response.list, diagrec, Option.elim, Records.list, length_nil, Nat.cast_zero] at number
        omega
      · simp [notPositive]
    · rw [if_neg (fun is => negative (low.mp is))]
      by_cases zero : num = 0
      · subst zero
        have none : odrIntToInt 0 = 0 := by decide
        apply iff_of_false
        · rintro ⟨-, -, account⟩
          have count := (account _ rfl).1.next
          simp [none, packLoop, Packed.ending, Response.list, Records.list] at count
          omega
        · simp
      · have some : 0 < num := by omega
        have settled := @packLoop_start R backend.fetch a (odrIntToInt num) start num 0 0 positive some
        simp only [some, decide_true, Bool.true_and]
        rw [← settled]
        generalize packLoop a start (odrIntToInt num) backend.fetch (odrIntToInt num).toNat (odrIntToInt start) 0 0 = packed
        constructor
        · rintro ⟨inRange, asked, account⟩
          refine ⟨inRange, asked, ?_⟩
          intro isSome
          obtain ⟨records, is⟩ := Option.ne_none_iff_exists'.mp isSome
          have here := (account _ (by rw [is]; rfl)).1
          rw [Packed.list, is]
          exact here
        · rintro ⟨inRange, asked, account⟩
          refine ⟨inRange, asked, ?_⟩
          intro response is
          obtain ⟨records, isRecords, rfl⟩ := Option.map_eq_some_iff.mp is
          have here := account (by simp [isRecords])
          rw [Packed.list, isRecords] at here
          refine ⟨here, ?_⟩
          rw [isRecords]
          rfl
  · rw [if_pos error]
    apply iff_of_false
    · rintro ⟨-, -, account⟩
      have count := (account _ rfl).1.next
      simp [Response.list, diagrec, Records.list] at count
      omega
    · simp [error]

def PresentRequest.orderly (a : Association) (backend : Backend R) (req : PresentRequest) : Bool :=
  orderlyRequest a backend req.resultSetStartPoint req.numberOfRecordsRequested

def SearchRequest.orderly (a : Association) (backend : Backend R) (req : SearchRequest) (bsrt : SearchRr) : Bool :=
  bsrt.errcode ≠ 0 || req.toget bsrt.hits = 0 || orderlyRequest a backend 1 (req.toget bsrt.hits)

def Served.AccountsSearch (backend : Backend R) (req : SearchRequest) (bsrt : SearchRr) (served : Served R) : Prop :=
  (∀ response ∈ served.response, response.numberOfRecordsReturned = response.list.length) ∧
    (bsrt.errcode = 0 → req.toget bsrt.hits ≠ 0 → served.Accounts backend.fetch 1)

theorem processPresentRequest_eq (backend : Backend R) (req : PresentRequest) :
    processPresentRequest a backend req = serve a backend req.resultSetStartPoint req.numberOfRecordsRequested 0 .failure := rfl

theorem responseSearchRequest_eq (backend : Backend R) {req : SearchRequest} {bsrt : SearchRr} (noError : bsrt.errcode = 0)
    (some : req.toget bsrt.hits ≠ 0) :
    responseSearchRequest a backend req bsrt = serve a backend 1 (req.toget bsrt.hits) (req.toget bsrt.hits) .success := by
  rw [responseSearchRequest, if_neg (not_not_intro noError), if_pos some]
  rfl

theorem responseSearchRequest_accounts {backend : Backend R} {req : SearchRequest} {bsrt : SearchRr} :
    (responseSearchRequest a backend req bsrt).AccountsSearch backend req bsrt ↔ req.orderly a backend bsrt = true := by
  rw [Served.AccountsSearch, SearchRequest.orderly]
  by_cases noError : bsrt.errcode = 0
  · by_cases none : req.toget bsrt.hits = 0
    · apply iff_of_true
      · refine ⟨?_, fun _ some => absurd none some⟩
        intro response is
        rw [responseSearchRequest, if_neg (not_not_intro noError), if_neg (not_not_intro none), Option.mem_def, Option.some.injEq] at is
        rw [← is]
        rfl
      · simp [none]
    · rw [responseSearchRequest_eq backend noError none]
      have accounts := @serve_accounts R a backend 1 (req.toget bsrt.hits) (req.toget bsrt.hits) .success (Int.le_refl 1)
      simp only [noError, none, ne_eq, not_true, not_false_eq_true, decide_false, Bool.false_or, forall_const]
      rw [← accounts]
      constructor
      · exact fun both => both.2
      · exact fun account => ⟨fun response is => (account.account response is).2, account⟩
  · apply iff_of_true
    · refine ⟨?_, fun free => absurd free noError⟩
      intro response is
      rw [responseSearchRequest, if_pos noError, Option.mem_def, Option.some.injEq] at is
      rw [← is]
      rfl
    · simp [noError]

/-- A response gives a right account of its records just where the backend is orderly. -/
theorem responses_account_iff (a : Association) (backend : Backend R) :
    (∀ req : PresentRequest, 1 ≤ req.resultSetStartPoint →
      ((processPresentRequest a backend req).Accounts backend.fetch req.resultSetStartPoint ↔ req.orderly a backend = true)) ∧
    ∀ (req : SearchRequest) (bsrt : SearchRr),
      (responseSearchRequest a backend req bsrt).AccountsSearch backend req bsrt ↔ req.orderly a backend bsrt = true := by
  constructor
  · intro req positive
    rw [processPresentRequest_eq]
    exact serve_accounts positive
  · exact fun _ _ => responseSearchRequest_accounts

end

def sampleBackend : Backend Unit :=
  { bendPresent := none
    fetch := fun position =>
      if position ≤ 2 then { record := some (), len := 10, outputFormat := some .sutrs, lastInSet := position = 2 }
      else { errcode := presentRequestOutOfRange } }

theorem processPresentRequest_sample :
    (processPresentRequest { preferredMessageSize := 1000, maximumRecordSize := 1000 } sampleBackend
      ⟨1, 5⟩).Accounts sampleBackend.fetch 1 :=
  ((responses_account_iff { preferredMessageSize := 1000, maximumRecordSize := 1000 } sampleBackend).1 ⟨1, 5⟩ (by decide)).mpr
    (by decide)

def brokenBackend : Backend Unit :=
  { bendPresent := none
    fetch := fun position =>
      if position = 1 then { errcode := 14, surrogateFlag := true, lastInSet := true } else { errcode := presentRequestOutOfRange } }

/-- The position behind the last one is asked for, and the diagnostic for the record is lost. -/
theorem processPresentRequest_broken :
    let served := processPresentRequest { preferredMessageSize := 1000, maximumRecordSize := 1000 } brokenBackend ⟨1, 2⟩
    served.asked = [1, 2] ∧ (brokenBackend.fetch 1).lastInSet = true ∧
      served.response = some {
        records := some (diagrec presentRequestOutOfRange (some [50])), numberOfRecordsReturned := 0, nextResultSetPosition := 3
        presentStatus := some .failure } ∧
      ¬ served.Accounts brokenBackend.fetch 1 := by
  have both : (processPresentRequest { preferredMessageSize := 1000, maximumRecordSize := 1000 } brokenBackend ⟨1, 2⟩).asked = [1, 2] := by
    decide
  have last : (brokenBackend.fetch 1).lastInSet = true := by decide
  refine ⟨both, last, by decide +kernel, ?_⟩
  rintro ⟨-, asked, -⟩
  rw [both, NeverBehindLast, pairwise_cons] at asked
  have notLast := asked.1 2 (by simp)
  rw [last] at notLast
  simp at notLast

end Yaz.Server
