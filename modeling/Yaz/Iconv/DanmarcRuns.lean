import Yaz.Iconv.DanmarcText
import Yaz.Iconv.Buffers
import Mathlib.Tactic.Abel

/-! What a run of the DanMARC encoder keeps and what it writes.

The encoder holds a letter and the marks that were written behind it. A step writes some of what
it holds, and what is written and held together is what was held and taken before: nothing is
lost, but the fourth mark in a row is taken as a mark and as the next letter.
-/

set_option autoImplicit false

namespace Yaz.Iconv
open List

variable {w : DanmarcEncoder} {x room : Nat}

/-! ### The marks that are held -/

def maxComp : Nat := 4

inductive EncoderCall where
  | write (x outbytesleft : Nat)
  | flush (outbytesleft : Nat)
  deriving DecidableEq

def EncoderCall.perform (w : DanmarcEncoder) : EncoderCall → Written DanmarcEncoder
  | .write x outbytesleft => writeDanmarc w x outbytesleft
  | .flush outbytesleft => flushDanmarc w outbytesleft

/-- The index in `comp` that a call stores at, if it does: the number of marks that are held, which is `sz`. -/
def EncoderCall.storesAt (w : DanmarcEncoder) : EncoderCall → Option Nat
  | .write x _ => if yazDanmarcIsCombining x then some w.comp.length else none
  | .flush _ => none

/-- `sz` stays inside the array, and so does a store. -/
structure EncoderCall.Within (w : DanmarcEncoder) (call : EncoderCall) : Prop where
  before : w.comp.length ≤ maxComp
  store : ∀ i ∈ call.storesAt w, i < maxComp
  after : (call.perform w).data.comp.length ≤ maxComp

def EncoderCall.Fits (w : DanmarcEncoder) : EncoderCall → Prop
  | .write x outbytesleft =>
    yazDanmarcIsCombining x = true → w.comp.length = 3 → write1 (markCode w.dia x) outbytesleft ≠ .error .e2big
  | .flush _ => True

def DanmarcEncoder.Always (property : DanmarcEncoder → EncoderCall → Prop) : DanmarcEncoder → List EncoderCall → Prop
  | _, [] => True
  | w, call :: rest => property w call ∧ DanmarcEncoder.Always property (call.perform w).data rest

/-- The state that `init_danmarc` leaves. -/
def initDanmarcEncoder (dia : Bool) : DanmarcEncoder := { comp := [], baseChar := 0, dia := dia }

variable (dia : Bool)

theorem flushComp_suffix (comp : List Nat) (room : Nat) : (flushComp dia comp room).2.1 <:+ comp := by
  induction comp generalizing room with
  | nil => exact suffix_rfl
  | cons x comp ih =>
    rw [flushComp]
    split
    · exact suffix_rfl
    next out written => exact (ih (room - out.length)).trans (suffix_cons x comp)

theorem composed_suffix (w : DanmarcEncoder) : w.composed.comp <:+ w.comp := by
  rw [DanmarcEncoder.composed]
  split
  · split
    · exact nil_suffix
    · exact suffix_rfl
  · exact suffix_rfl

theorem composed_dia (w : DanmarcEncoder) : w.composed.dia = w.dia := by
  rw [DanmarcEncoder.composed]
  split
  · split <;> rfl
  · rfl

theorem flushDanmarc_suffix (w : DanmarcEncoder) (room : Nat) : (flushDanmarc w room).data.comp <:+ w.comp := by
  rw [flushDanmarc_eq]
  split
  · exact (flushComp_suffix _ _ _).trans (composed_suffix w)
  · rw [putBase_comp]
    exact nil_suffix

theorem composed_four (four : w.comp.length = 4) : w.composed = w := by
  rw [DanmarcEncoder.composed]
  split
  next mark one =>
    rw [one] at four
    simp at four
  · rfl

theorem flushDanmarc_four (four : w.comp.length = 4) (mark : ∀ x ∈ w.comp.head?, yazDanmarcIsCombining x = true)
    (fits : ∀ x ∈ w.comp.head?, write1 (markCode w.dia x) room ≠ .error .e2big) :
    (flushDanmarc w room).data.comp.length ≤ 3 := by
  rw [flushDanmarc_eq, composed_four four]
  obtain ⟨x, comp, isComp⟩ : ∃ x comp, w.comp = x :: comp := exists_cons_of_length_eq_add_one four
  rw [isComp] at four mark fits ⊢
  have writable := markCode_writable w.dia (mark x rfl)
  have written : ∃ out, write1 (markCode w.dia x) room = .ok out := by
    cases result : write1 (markCode w.dia x) room with
    | ok out => exact ⟨out, rfl⟩
    | error =>
      have large := write1_more (x := markCode w.dia x) (show room ≤ room + 6 by omega) (fits x rfl)
      rw [result, write1_writable writable.2 (by omega)] at large
      cases large
  obtain ⟨out, written⟩ := written
  have left : (flushComp w.dia (x :: comp) room).2.1 <:+ comp := by
    rw [flushComp]
    rw [markCode] at written
    rw [written]
    exact flushComp_suffix _ _ _
  rw [length_cons] at four
  have few := left.length_le
  split
  · dsimp only
    omega
  · rw [putBase_comp]
    exact Nat.zero_le _

theorem writeDanmarc_held (mark : yazDanmarcIsCombining x = true) (few : w.comp.length < 3) (room : Nat) :
    writeDanmarc w x room = { out := [], data := { w with comp := x :: w.comp } } := by
  rw [writeDanmarc, mark]
  exact if_pos ⟨rfl, Nat.succ_lt_succ few⟩

theorem writeDanmarc_fourth (mark : yazDanmarcIsCombining x = true) (full : 3 ≤ w.comp.length) (room : Nat) :
    writeDanmarc w x room = keepBase x (flushDanmarc { w with comp := x :: w.comp } room) := by
  rw [writeDanmarc, mark]
  exact if_neg fun both => absurd both.2 (Nat.not_lt.mpr (Nat.succ_le_succ full))

theorem EncoderCall.within {call : EncoderCall} (few : w.comp.length ≤ 3) (fits : call.Fits w) :
    call.Within w ∧ (call.perform w).data.comp.length ≤ 3 := by
  suffices behind : (call.perform w).data.comp.length ≤ 3 by
    refine ⟨⟨?_, ?_, ?_⟩, behind⟩
    · unfold maxComp
      omega
    · intro i stored
      cases call with
      | write =>
        rw [EncoderCall.storesAt, Option.mem_def] at stored
        split at stored
        · cases stored
          unfold maxComp
          omega
        · cases stored
      | flush => cases stored
    · unfold maxComp
      omega
  cases call with
  | flush room => exact (flushDanmarc_suffix w room).length_le.trans few
  | write x room =>
    rw [EncoderCall.perform]
    cases mark : yazDanmarcIsCombining x with
    | false =>
      rw [writeDanmarc_letter mark, keepBase_comp]
      exact (flushDanmarc_suffix w room).length_le.trans few
    | true =>
      by_cases full : w.comp.length = 3
      · rw [writeDanmarc_fourth mark (by omega), keepBase_comp]
        apply flushDanmarc_four
        · simp [full]
        · rintro x ⟨⟩
          exact mark
        · rintro x ⟨⟩
          exact fits mark full
      · rw [writeDanmarc_held mark (by omega)]
        rw [length_cons]
        omega

theorem within_of_fits {calls : List EncoderCall} (few : w.comp.length ≤ 3) (fits : w.Always (fun w call => call.Fits w) calls) :
    w.Always (fun w call => call.Within w) calls := by
  induction calls generalizing w with
  | nil => trivial
  | cons _ _ ih =>
    obtain ⟨within, few'⟩ := EncoderCall.within few fits.1
    exact ⟨within, ih few' fits.2⟩

/-! ### What is written and what is held -/

def DanmarcEncoder.Marked (w : DanmarcEncoder) : Prop := ∀ x ∈ w.comp, yazDanmarcIsCombining x = true

def DanmarcEncoder.base (w : DanmarcEncoder) : List Nat := if w.baseChar = 0 then [] else [w.baseChar]

def DanmarcEncoder.held (w : DanmarcEncoder) : Multiset Nat := parts w.dia w.comp + parts w.dia w.base

/-- Octets that are those of codes, which together with `left` are apart what `all` is. -/
def Conserves (dia : Bool) (text : List UInt8) (left all : Multiset Nat) : Prop :=
  ∃ codes : List Nat, (∀ c ∈ codes, Writable c) ∧ text = codes.flatMap danmarcOctets ∧ parts dia codes + left = all

theorem Conserves.nothing (all : Multiset Nat) : Conserves dia [] all all :=
  ⟨[], by simp, rfl, by simp⟩

theorem Conserves.one (writable : Writable x) (left : Multiset Nat) :
    Conserves dia (danmarcOctets x) left (apart dia x + left) :=
  ⟨[x], by simpa using writable, by simp, by simp⟩

theorem Conserves.andThen {dia : Bool} {front back : List UInt8} {left middle all : Multiset Nat}
    (first : Conserves dia front middle all) (second : Conserves dia back left middle) :
    Conserves dia (front ++ back) left all := by
  obtain ⟨codes, writable, rfl, rfl⟩ := first
  obtain ⟨more, writable', rfl, rfl⟩ := second
  refine ⟨codes ++ more, ?_, by simp, by rw [parts_append, add_assoc]⟩
  intro c inside
  exact (mem_append.mp inside).elim (writable c) (writable' c)

theorem Conserves.add {dia : Bool} {text : List UInt8} {left all : Multiset Nat} (conserves : Conserves dia text left all)
    (more : Multiset Nat) : Conserves dia text (left + more) (all + more) := by
  obtain ⟨codes, writable, rfl, rfl⟩ := conserves
  exact ⟨codes, writable, rfl, (add_assoc _ _ _).symm⟩

theorem flushComp_conserves {comp : List Nat} (marked : ∀ x ∈ comp, yazDanmarcIsCombining x = true) (room : Nat) :
    Conserves dia (flushComp dia comp room).1 (parts dia (flushComp dia comp room).2.1) (parts dia comp) := by
  induction comp generalizing room with
  | nil => exact .nothing dia _
  | cons _ comp ih =>
    rw [forall_mem_cons] at marked
    rw [flushComp]
    split
    · exact .nothing dia _
    next out written =>
      obtain ⟨rfl, -⟩ := write1_ok written
      have mark := Conserves.one dia (markCode_writable dia marked.1) (parts dia comp)
      rw [apart_markCode, ← parts_cons] at mark
      exact mark.andThen (ih marked.2 _)

theorem putBase_conserves (w : DanmarcEncoder) (out : List UInt8) (room : Nat) :
    ∃ text, (putBase w out room).out = out ++ text ∧
      Conserves w.dia text (parts w.dia (putBase w out room).data.base) (parts w.dia w.base) := by
  unfold putBase
  split
  · exact ⟨[], by simp, .nothing _ _⟩
  next some_ =>
    split
    · exact ⟨[], by simp, .nothing _ _⟩
    next base written =>
      obtain ⟨rfl, small⟩ := write1_ok written
      refine ⟨_, rfl, ?_⟩
      have letter : w.base = [w.baseChar] := if_neg some_
      have none_ : DanmarcEncoder.base { w with baseChar := 0 } = [] := if_pos rfl
      rw [letter, none_, parts_cons]
      exact .one _ ⟨by omega, small⟩ _

theorem composed_held (w : DanmarcEncoder) : w.composed.held = w.held := by
  rw [DanmarcEncoder.composed]
  split
  next mark one =>
    split
    next y found =>
      split at found
      · cases found
      next some_ =>
        have letter : w.base = [w.baseChar] := if_neg some_
        have positive : y ≠ 0 := by
          have known : ∀ row ∈ latin1Comb, row.2.2 ≠ 0 := by decide
          rw [yazIso88591LookupX12, Option.map_eq_some_iff] at found
          obtain ⟨row, is, rfl⟩ := found
          exact known row (mem_of_find?_eq_some is)
        have together : DanmarcEncoder.base { w with baseChar := y, comp := [] } = [y] := if_neg positive
        simp only [DanmarcEncoder.held, together, letter, one, parts_cons, parts_nil, add_zero, zero_add]
        rw [apart_composed w.dia found, add_comm]
    · rfl
  · rfl

theorem flushDanmarc_conserves (marked : w.Marked) (room : Nat) :
    Conserves w.dia (flushDanmarc w room).out (flushDanmarc w room).data.held w.held := by
  have marked' : ∀ x ∈ w.composed.comp, yazDanmarcIsCombining x = true :=
    fun x inside => marked x ((composed_suffix w).mem inside)
  have marks := (flushComp_conserves w.composed.dia marked' room).add (parts w.composed.dia w.composed.base)
  rw [← composed_held w, ← composed_dia w, flushDanmarc_eq]
  split
  · exact marks
  next all =>
    rw [flushComp_none all] at marks
    obtain ⟨text, out, base⟩ := putBase_conserves { w.composed with comp := [] }
      (flushComp w.composed.dia w.composed.comp room).1
      (room - (flushComp w.composed.dia w.composed.comp room).1.length)
    rw [out]
    have held := base.add 0
    simp only [add_zero] at held
    refine marks.andThen ?_
    simp only [parts_nil, zero_add, DanmarcEncoder.held, putBase_comp, putBase_dia]
    exact held

/-! ### With room enough -/

theorem flushComp_succeeds {comp : List Nat} (marked : ∀ x ∈ comp, yazDanmarcIsCombining x = true)
    (enough : 6 * comp.length ≤ room) : (flushComp dia comp room).2.2 = none := by
  induction comp generalizing room with
  | nil => rfl
  | cons x _ ih =>
    rw [forall_mem_cons] at marked
    rw [length_cons] at enough
    have written := write1_writable (markCode_writable dia marked.1).2 (show 6 ≤ room by omega)
    have short := (danmarcOctets_length (markCode dia x)).2
    rw [flushComp]
    rw [markCode] at written short
    rw [written]
    exact ih marked.2 (by omega)

theorem flushDanmarc_succeeds (marked : w.Marked) (small : w.baseChar ≤ 0xffff) (enough : 6 * (w.comp.length + 1) ≤ room) :
    (flushDanmarc w room).failed = false ∧ (flushDanmarc w room).data = { w with comp := [], baseChar := 0 } := by
  have few := (composed_suffix w).length_le
  have marked' : ∀ x ∈ w.composed.comp, yazDanmarcIsCombining x = true :=
    fun x inside => marked x ((composed_suffix w).mem inside)
  have marks := flushComp_succeeds w.composed.dia marked' (show 6 * w.composed.comp.length ≤ room by omega)
  have length : (flushComp w.composed.dia w.composed.comp room).1.length ≤ 6 * w.composed.comp.length :=
    (flushComp_enough (by omega)).2
  have small' : w.composed.baseChar ≤ 0xffff := by
    rw [DanmarcEncoder.composed]
    split
    · split
      next y found =>
        split at found
        · cases found
        · have known : ∀ row ∈ latin1Comb, row.2.2 ≤ 0xffff := by decide
          rw [yazIso88591LookupX12, Option.map_eq_some_iff] at found
          obtain ⟨row, is, rfl⟩ := found
          exact known row (mem_of_find?_eq_some is)
      · exact small
    · exact small
  have same := composed_dia w
  rw [flushDanmarc_eq, marks]
  dsimp only
  unfold putBase
  split
  next none_ =>
    refine ⟨rfl, ?_⟩
    rw [none_, same]
  · rw [write1_writable small' (by omega)]
    refine ⟨rfl, ?_⟩
    rw [same]

def fourMarks : List Nat → Bool
  | a :: b :: c :: d :: rest => [a, b, c, d].all yazDanmarcIsCombining || fourMarks (b :: c :: d :: rest)
  | _ => false

/-- The codes that are taken twice: the fourth mark of a row, when `held` marks are there already. -/
def takenTwice : Nat → List Nat → List Nat
  | _, [] => []
  | held, x :: rest =>
    if yazDanmarcIsCombining x then if held < 3 then takenTwice (held + 1) rest else x :: takenTwice 0 rest
    else takenTwice 0 rest

def DanmarcEncoder.text (w : DanmarcEncoder) : List (Nat × Nat) → Nat → List UInt8
  | [], last => (flushDanmarc w last).out
  | (x, room) :: rest, last => (writeDanmarc w x room).out ++ DanmarcEncoder.text (writeDanmarc w x room).data rest last

structure DanmarcEncoder.Ready (w : DanmarcEncoder) : Prop where
  marked : w.Marked
  few : w.comp.length ≤ 3
  small : w.baseChar ≤ 0xffff

theorem held_none : DanmarcEncoder.held { comp := [], baseChar := 0, dia := dia } = 0 := by
  simp [DanmarcEncoder.held, DanmarcEncoder.base]

theorem held_next (positive : x ≠ 0) (dia : Bool) :
    DanmarcEncoder.held { comp := [], baseChar := x, dia := dia } = apart dia x := by
  simp [DanmarcEncoder.held, DanmarcEncoder.base, positive]

theorem held_mark (w : DanmarcEncoder) (x : Nat) :
    DanmarcEncoder.held { w with comp := x :: w.comp } = w.held + apart w.dia x := by
  simp only [DanmarcEncoder.held, DanmarcEncoder.base, parts_cons]
  abel

theorem writeDanmarc_conserves (ready : w.Ready) (writable : Writable x) (enough : 30 ≤ room) (rest : List Nat) :
    (writeDanmarc w x room).data.Ready ∧ (writeDanmarc w x room).data.dia = w.dia ∧
      ∃ all, Conserves w.dia (writeDanmarc w x room).out (writeDanmarc w x room).data.held all ∧
        all + parts w.dia (takenTwice (writeDanmarc w x room).data.comp.length rest) =
          w.held + apart w.dia x + parts w.dia (takenTwice w.comp.length (x :: rest)) := by
  obtain ⟨marked, few, small⟩ := ready
  cases mark : yazDanmarcIsCombining x with
  | false =>
    obtain ⟨succeeded, data⟩ := flushDanmarc_succeeds marked small (show 6 * (w.comp.length + 1) ≤ room by omega)
    have conserves := (flushDanmarc_conserves marked room).add (apart w.dia x)
    rw [data, held_none, zero_add] at conserves
    rw [writeDanmarc_letter mark, keepBase, succeeded, if_neg (by simp), data]
    refine ⟨⟨by simp [DanmarcEncoder.Marked], by simp, writable.2⟩, rfl, w.held + apart w.dia x, ?_, ?_⟩
    · nth_rewrite 1 [← held_next writable.1.ne'] at conserves
      exact conserves
    · simp [takenTwice, mark]
  | true =>
    have marked' : ∀ y ∈ x :: w.comp, yazDanmarcIsCombining y = true := forall_mem_cons.mpr ⟨mark, marked⟩
    by_cases full : w.comp.length < 3
    · rw [writeDanmarc_held mark full]
      refine ⟨⟨marked', full, small⟩, rfl, _, .nothing _ _, ?_⟩
      rw [held_mark]
      simp [takenTwice, mark, full]
    · have four : 6 * ((x :: w.comp).length + 1) ≤ room := by
        rw [length_cons]
        omega
      obtain ⟨succeeded, data⟩ := flushDanmarc_succeeds (w := { w with comp := x :: w.comp }) marked' small four
      -- the mark is written with the others, and kept as a letter
      have conserves := (flushDanmarc_conserves (w := { w with comp := x :: w.comp }) marked' room).add (apart w.dia x)
      rw [data, held_none, zero_add, held_mark] at conserves
      rw [writeDanmarc_fourth mark (by omega), keepBase, succeeded, if_neg (by simp), data]
      refine ⟨⟨by simp [DanmarcEncoder.Marked], by simp, writable.2⟩, rfl, w.held + apart w.dia x + apart w.dia x, ?_, ?_⟩
      · nth_rewrite 1 [← held_next writable.1.ne'] at conserves
        exact conserves
      · simp [takenTwice, mark, full, add_assoc]

theorem text_conserves {calls : List (Nat × Nat)} {last : Nat} (ready : w.Ready)
    (writable : ∀ call ∈ calls, Writable call.1 ∧ 30 ≤ call.2) (enough : 30 ≤ last) :
    Conserves w.dia (w.text calls last) 0
      (w.held + parts w.dia (calls.map (·.1)) + parts w.dia (takenTwice w.comp.length (calls.map (·.1)))) := by
  induction calls generalizing w with
  | nil =>
    have few := ready.few
    obtain ⟨-, data⟩ := flushDanmarc_succeeds ready.marked ready.small (show 6 * (w.comp.length + 1) ≤ last by omega)
    have conserves := flushDanmarc_conserves ready.marked last
    rw [data, held_none] at conserves
    simpa [DanmarcEncoder.text, takenTwice] using conserves
  | cons call calls ih =>
    obtain ⟨x, room⟩ := call
    rw [forall_mem_cons] at writable
    obtain ⟨ready', dia, all, conserves, total⟩ :=
      writeDanmarc_conserves ready writable.1.1 writable.1.2 (calls.map (·.1))
    have later := ih ready' writable.2
    rw [dia] at later
    have first := conserves.add (parts w.dia (calls.map (·.1)) +
      parts w.dia (takenTwice (writeDanmarc w x room).data.comp.length (calls.map (·.1))))
    rw [← add_assoc] at first
    have sum : w.held + parts w.dia (((x, room) :: calls).map (·.1)) +
        parts w.dia (takenTwice w.comp.length (((x, room) :: calls).map (·.1))) =
        all + (parts w.dia (calls.map (·.1)) +
          parts w.dia (takenTwice (writeDanmarc w x room).data.comp.length (calls.map (·.1)))) := by
      rw [map_cons, parts_cons, add_left_comm all, total]
      abel
    rw [sum]
    exact first.andThen later

theorem fourMarks_letter {marks codes : List Nat} (few : marks.length ≤ 3) (letter : yazDanmarcIsCombining x = false) :
    fourMarks (marks ++ x :: codes) = fourMarks codes := by
  have behind : fourMarks (x :: codes) = fourMarks codes := by
    match codes with
    | [] | [_] | [_, _] => rfl
    | b :: c :: d :: rest => simp [fourMarks, letter]
  match marks, few with
  | [], _ => exact behind
  | [a], _ =>
    rw [← behind]
    match codes with
    | [] | [_] => rfl
    | c :: d :: rest => simp [fourMarks, letter]
  | [a, b], _ =>
    rw [← behind]
    match codes with
    | [] => rfl
    | [c] => simp [fourMarks, letter]
    | c :: d :: rest => simp [fourMarks, letter]
  | [a, b, c], _ =>
    rw [← behind]
    match codes with
    | [] => simp [fourMarks, letter]
    | [d] => simp [fourMarks, letter]
    | d :: e :: rest => simp [fourMarks, letter]

theorem takenTwice_nil_iff {marks : List Nat} (marked : ∀ x ∈ marks, yazDanmarcIsCombining x = true) (few : marks.length ≤ 3)
    (codes : List Nat) : takenTwice marks.length codes = [] ↔ fourMarks (marks ++ codes) = false := by
  induction codes generalizing marks with
  | nil =>
    rw [append_nil]
    match marks, few with
    | [], _ | [_], _ | [_, _], _ | [_, _, _], _ => simp [takenTwice, fourMarks]
  | cons x _ ih =>
    cases mark : yazDanmarcIsCombining x with
    | false =>
      rw [fourMarks_letter few mark, takenTwice, mark, if_neg (by simp)]
      exact @ih [] (by simp) (by simp)
    | true =>
      rw [takenTwice, mark, if_pos rfl]
      by_cases full : marks.length < 3
      · have longer := @ih (marks ++ [x])
          (by simpa [or_imp, forall_and] using ⟨marked, mark⟩) (by rw [length_append, length_singleton]; omega)
        rw [if_pos full, ← singleton_append, ← append_assoc, ← longer, length_append, length_singleton]
      · obtain ⟨a, b, c, rfl⟩ : ∃ a b c, marks = [a, b, c] := length_eq_three.mp (by omega)
        rw [if_neg full]
        simp only [forall_mem_cons] at marked
        simp [fourMarks, marked.1, marked.2.1, marked.2.2.1, mark]

theorem text_writable (marked : w.Marked) (calls : List (Nat × Nat)) (last : Nat) :
    ∃ codes : List Nat, (∀ c ∈ codes, Writable c) ∧ w.text calls last = codes.flatMap danmarcOctets := by
  induction calls generalizing w with
  | nil =>
    obtain ⟨codes, writable, out, -⟩ := flushDanmarc_conserves marked last
    exact ⟨codes, writable, out⟩
  | cons call _ ih =>
    obtain ⟨x, room⟩ := call
    have step : (∃ codes : List Nat, (∀ c ∈ codes, Writable c) ∧ (writeDanmarc w x room).out = codes.flatMap danmarcOctets) ∧
        (writeDanmarc w x room).data.Marked := by
      cases mark : yazDanmarcIsCombining x with
      | false =>
        obtain ⟨codes, writable, out, -⟩ := flushDanmarc_conserves marked room
        rw [writeDanmarc_letter mark, keepBase_out, DanmarcEncoder.Marked, keepBase_comp]
        exact ⟨⟨codes, writable, out⟩, fun y inside => marked y ((flushDanmarc_suffix w room).mem inside)⟩
      | true =>
        have marked' : ∀ y ∈ x :: w.comp, yazDanmarcIsCombining y = true := forall_mem_cons.mpr ⟨mark, marked⟩
        by_cases full : w.comp.length < 3
        · rw [writeDanmarc_held mark full]
          exact ⟨⟨[], by simp, rfl⟩, marked'⟩
        · obtain ⟨codes, writable, out, -⟩ := flushDanmarc_conserves (w := { w with comp := x :: w.comp }) marked' room
          rw [writeDanmarc_fourth mark (by omega), keepBase_out, DanmarcEncoder.Marked, keepBase_comp]
          exact ⟨⟨codes, writable, out⟩, fun y inside => marked' y ((flushDanmarc_suffix _ room).mem inside)⟩
    obtain ⟨⟨codes, writable, out⟩, marked'⟩ := step
    obtain ⟨more, writable', out'⟩ := ih marked'
    refine ⟨codes ++ more, ?_, ?_⟩
    · intro c inside
      exact (mem_append.mp inside).elim (writable c) (writable' c)
    · rw [DanmarcEncoder.text, out, out', flatMap_append]

def WrittenOnce (junk : Junk) (dia : Bool) (calls : List (Nat × Nat)) (last : Nat) : Prop :=
  parts dia (danmarcCodes junk ((initDanmarcEncoder dia).text calls last)) = parts dia (calls.map (·.1))

theorem writtenOnce_iff (junk : Junk) (dia : Bool) {calls : List (Nat × Nat)} {last : Nat}
    (some_ : ∀ call ∈ calls, call.1 ≠ 0 ∧ 30 ≤ call.2) (enough : 30 ≤ last) :
    WrittenOnce junk dia calls last ↔
      fourMarks (calls.map (·.1)) = false ∧ ∀ x ∈ calls.map (·.1), x ≤ 0xffff := by
  unfold WrittenOnce
  by_cases small : ∀ x ∈ calls.map (·.1), x ≤ 0xffff
  · have writable : ∀ call ∈ calls, Writable call.1 ∧ 30 ≤ call.2 := by
      intro call inside
      obtain ⟨positive, room⟩ := some_ call inside
      exact ⟨⟨Nat.pos_of_ne_zero positive, small call.1 (mem_map_of_mem inside)⟩, room⟩
    have ready : (initDanmarcEncoder dia).Ready := ⟨by simp [DanmarcEncoder.Marked, initDanmarcEncoder], by simp [initDanmarcEncoder],
      by simp [initDanmarcEncoder]⟩
    obtain ⟨codes, isWritable, text, total⟩ := text_conserves ready writable enough
    have twice := @takenTwice_nil_iff [] (by simp) (by simp) (calls.map (·.1))
    rw [nil_append, length_nil] at twice
    rw [text, danmarcCodes_octets junk isWritable, ← twice, and_iff_left small]
    rw [add_zero, show (initDanmarcEncoder dia).held = 0 from held_none dia, zero_add] at total
    change parts dia codes = parts dia _ + parts dia (takenTwice 0 _) at total
    rw [total, add_eq_left]
    cases takenTwice 0 (calls.map (·.1)) with
    | nil => simp
    | cons x =>
      refine iff_of_false (fun none_ => ?_) (by simp)
      exact apart_ne_zero dia x (Multiset.le_zero.mp (none_ ▸ Multiset.le_add_right _ _))
  · obtain ⟨codes, isWritable, text⟩ :=
      text_writable (w := initDanmarcEncoder dia) (by simp [DanmarcEncoder.Marked, initDanmarcEncoder]) calls last
    rw [text, danmarcCodes_octets junk isWritable]
    refine iff_of_false ?_ fun both => small both.2
    intro same
    push Not at small
    obtain ⟨x, inside, large⟩ := small
    have isPart : x ∈ parts dia (calls.map (·.1)) := by
      obtain ⟨front, back, split⟩ := append_of_mem inside
      rw [split, parts_append, parts_cons, apart_large dia large]
      simp
    rw [← same] at isPart
    have := parts_small dia (fun c is => (isWritable c is).2) x isPart
    omega

/-- A run in which the fourth mark of a row always finds room for its octets stays inside the array. With room enough a run
writes each code that it took once, if no four marks stand in a row and all codes are below 2^16, and only then. -/
theorem danmarc_runs (junk : Junk) (dia : Bool) :
    (∀ calls, (initDanmarcEncoder dia).Always (fun w call => call.Fits w) calls →
      (initDanmarcEncoder dia).Always (fun w call => call.Within w) calls) ∧
    ∀ calls last, (∀ call ∈ calls, call.1 ≠ 0 ∧ 30 ≤ call.2) → 30 ≤ last →
      (WrittenOnce junk dia calls last ↔
        fourMarks (calls.map (·.1)) = false ∧ ∀ x ∈ calls.map (·.1), x ≤ 0xffff) :=
  ⟨fun _ fits => within_of_fits (Nat.zero_le _) fits, fun _ _ some_ enough => writtenOnce_iff junk dia some_ enough⟩

/-- A letter with two marks, in small buffers and in large ones. -/
theorem danmarc_runs_twoMarks :
    (initDanmarcEncoder true).Always (fun w call => call.Within w)
      [.write 0x61 1, .write 0x301 0, .write 0x323 0, .write 0x62 2, .write 0x62 6, .flush 1] ∧
    WrittenOnce 0 true [(0x61, 30), (0x301, 30), (0x323, 30), (0x62, 30)] 30 := by
  refine ⟨(danmarc_runs 0 true).1 _ ?_, ((danmarc_runs 0 true).2 _ _ (by decide) (by decide)).mpr (by decide)⟩
  simp [DanmarcEncoder.Always, EncoderCall.Fits, initDanmarcEncoder, EncoderCall.perform, writeDanmarc, yazDanmarcIsCombining,
    flushDanmarc, DanmarcEncoder.composed, flushComp, write1, yazDanmarcSwapToDanmarc, swapSeq]

/-- The fourth mark of a row finds no room and is given again: it goes behind the array. With room enough it is written
twice. -/
theorem danmarc_runs_fourMarks :
    ¬ (initDanmarcEncoder false).Always (fun w call => call.Within w)
      [.write 0x61 6, .write 0x300 6, .write 0x301 6, .write 0x302 6, .write 0x303 0, .write 0x303 6] ∧
    ¬ WrittenOnce 0 false [(0x61, 30), (0x300, 30), (0x301, 30), (0x302, 30), (0x303, 30)] 30 := by
  constructor
  · rintro ⟨-, -, -, -, -, within, -⟩
    exact absurd (within.store 4 (by decide)) (by decide)
  · intro once
    exact absurd ((writtenOnce_iff 0 false (by decide) (by decide)).mp once).1 (by decide)

end Yaz.Iconv
