import Yaz.Marc.MarcxmlMarkup

/-! The comments of the reader of ISO 2709 in MARCXML: only the one with the octets of a directory entry can leak, and all that
are behind it have no dashes and no quotes.
-/

set_option autoImplicit false

namespace Yaz.Marc
open List
open Yaz.Comstack
open Yaz.Http (cString decimal)
open Yaz.Foundation.Markup

/-! ### Comments without octets of the record -/

def Calm (nodes : List Node) : Prop := ∀ text ∈ remarks nodes, dash ∉ text ∨ gt ∉ text

def Quiet (nodes : List Node) : Prop := ∀ text ∈ remarks nodes, dash ∉ text ∧ quot ∉ text ∧ apos ∉ text

theorem Quiet.calm {nodes : List Node} (quiet : Quiet nodes) : Calm nodes := fun text inside => .inl (quiet text inside).1

theorem remarks_append (first second : List Node) : remarks (first ++ second) = remarks first ++ remarks second := by
  rw [remarks, map_append, filterMap_append]
  rfl

theorem Calm.append {first second : List Node} (one : Calm first) (two : Calm second) : Calm (first ++ second) := by
  intro text inside
  rw [remarks_append] at inside
  exact (mem_append.mp inside).elim (one text) (two text)

theorem Quiet.append {first second : List Node} (one : Quiet first) (two : Quiet second) : Quiet (first ++ second) := by
  intro text inside
  rw [remarks_append] at inside
  exact (mem_append.mp inside).elim (one text) (two text)

theorem quiet_nil : Quiet [] := fun _ inside => nomatch inside

theorem mem_marcCprintf {text remark : List UInt8} (is : remark ∈ remarks [marcCprintf text]) {c : UInt8}
    (inside : c ∈ remark) : c ∈ text := by
  have one : remark = cString (cString (text.take 198)) := by
    simpa [remarks, marcCprintf, Node.remark] using is
  rw [one] at inside
  exact mem_of_mem_take ((takeWhile_sublist _).subset ((takeWhile_sublist _).subset inside))

theorem calm_marcCprintf {text : List UInt8} (noGt : gt ∉ text) : Calm [marcCprintf text] :=
  fun _ is => .inr fun inside => noGt (mem_marcCprintf is inside)

theorem quiet_marcCprintf {text : List UInt8} (noDash : dash ∉ text) (noQuot : quot ∉ text) (noApos : apos ∉ text) :
    Quiet [marcCprintf text] :=
  fun _ is => ⟨fun inside => noDash (mem_marcCprintf is inside), fun inside => noQuot (mem_marcCprintf is inside),
    fun inside => noApos (mem_marcCprintf is inside)⟩

theorem quiet_of_parts {parts : List (List UInt8)} (each : ∀ part ∈ parts, dash ∉ part ∧ quot ∉ part ∧ apos ∉ part) :
    Quiet [marcCprintf parts.flatten] := by
  apply quiet_marcCprintf
  · intro inside
    obtain ⟨part, member, inside⟩ := mem_flatten.mp inside
    exact (each part member).1 inside
  · intro inside
    obtain ⟨part, member, inside⟩ := mem_flatten.mp inside
    exact (each part member).2.1 inside
  · intro inside
    obtain ⟨part, member, inside⟩ := mem_flatten.mp inside
    exact (each part member).2.2 inside

theorem decimal_quiet (n : Nat) : dash ∉ decimal n ∧ quot ∉ decimal n ∧ apos ∉ decimal n := by
  have content := decimal_content n
  exact ⟨fun inside => absurd (Yaz.Pqf.decimal_digits n dash inside) (by decide), fun inside => (content _ inside).2.2.1 rfl,
    fun inside => (content _ inside).2.2.2 rfl⟩

theorem quiet_numbered {before : List UInt8} (n : Nat) {behind : List UInt8} (first : dash ∉ before ∧ quot ∉ before ∧ apos ∉ before)
    (last : dash ∉ behind ∧ quot ∉ behind ∧ apos ∉ behind) : Quiet [marcCprintf (before ++ decimal n ++ behind)] := by
  have whole := @quiet_of_parts [before, decimal n, behind] (by
    intro part inside
    simp only [mem_cons, not_mem_nil, or_false] at inside
    rcases inside with rfl | rfl | rfl
    · exact first
    · exact decimal_quiet n
    · exact last)
  simpa only [flatten_cons, flatten_nil, append_nil, append_assoc] using whole

variable (mem : List UInt8)

theorem quiet_endComments (i endOffset dataLength : Nat) : Quiet (endComments mem i endOffset dataLength) := by
  rw [endComments]
  apply Quiet.append
  · split
    · have whole := @quiet_numbered (ascii "Separator but not at end of field length=") dataLength []
        (by rw [ascii_ofList]; decide) (by decide)
      rwa [append_nil] at whole
    · exact quiet_nil
  · split
    · exact quiet_nil
    · have whole := @quiet_numbered (ascii "No separator at end of field length=") dataLength []
        (by rw [ascii_ofList]; decide) (by decide)
      rwa [append_nil] at whole

theorem quiet_readField (indicatorLength : Nat) (tag : List UInt8) (i dataLength : Nat) :
    Quiet (readField mem indicatorLength tag i dataLength) := by
  rw [readField, readFieldWith]
  split
  · intro text inside
    exact quiet_endComments _ _ _ _ text inside
  · intro text inside
    exact quiet_endComments _ _ _ _ text inside

theorem quiet_readFields (recordLength : Nat) (lengths : Lengths) (endOfDirectory rounds entryP : Nat) :
    Quiet (readFields mem recordLength lengths endOfDirectory rounds entryP) := by
  induction rounds generalizing entryP with
  | zero => exact quiet_nil
  | succ _ ih =>
    rw [readFields, readFieldsWith]
    split
    · exact quiet_nil
    · dsimp only
      split
      · exact quiet_nil
      · split
        · generalize atoiN _ + lengths.baseAddress + atoiN _ - 1 = endOffset
          have whole := @quiet_of_parts [ascii "Directory offset ", decimal entryP, ascii ": Data out of bounds ",
            decimal endOffset, ascii " >= ", decimal recordLength] (by
              intro part inside
              simp only [mem_cons, not_mem_nil, or_false] at inside
              rcases inside with rfl | rfl | rfl | rfl | rfl | rfl
              · rw [ascii_ofList]
                decide
              · exact decimal_quiet entryP
              · rw [ascii_ofList]
                decide
              · exact decimal_quiet endOffset
              · rw [ascii_ofList]
                decide
              · exact decimal_quiet recordLength)
          simpa only [flatten_cons, flatten_nil, append_nil, append_assoc] using whole
        · exact (quiet_readField _ _ _ _ _).append (ih _)

theorem LeaderCheck.calm_ascii {check : LeaderCheck} (calm : Calm check.comments) (offset : Nat) {chDefault : UInt8}
    (noGt : chDefault ≠ gt) :
    Calm (check.ascii offset chDefault).comments := by
  rw [LeaderCheck.ascii]
  split
  · apply calm.append
    apply calm_marcCprintf
    intro inside
    simp only [mem_append, mem_singleton] at inside
    rcases inside with (((inside | inside) | inside) | inside) | inside
    · exact not_mem_ascii (by decide) inside
    · exact (decimal_content offset _ inside).2.1 rfl
    · exact not_mem_ascii (by decide) inside
    · exact noGt inside.symm
    · exact not_mem_ascii (by decide) inside
  · exact calm

theorem LeaderCheck.calm_number {check : LeaderCheck} (calm : Calm check.comments) (offset size least assumed : Nat) (digit : Option UInt8)
    {text : String} (noGt : gt ∉ Comstack.ascii text) : Calm (check.number offset size least assumed digit text).2.comments := by
  have bad : Calm (check.comments ++ [marcCprintf (Comstack.ascii text)]) := calm.append (calm_marcCprintf noGt)
  rw [LeaderCheck.number]
  split
  · split
    · exact calm
    · exact bad
  · exact bad

theorem calm_setLeader (leaderC : List UInt8) : Calm (setLeader leaderC).2 := by
  rw [setLeader]
  apply Calm.append
  · apply LeaderCheck.calm_ascii _ _ (by decide)
    apply LeaderCheck.calm_number _ _ _ _ _ _ (not_mem_ascii (by decide))
    apply LeaderCheck.calm_number _ _ _ _ _ _ (not_mem_ascii (by decide))
    apply LeaderCheck.calm_number _ _ _ _ _ _ (not_mem_ascii (by decide))
    apply LeaderCheck.calm_ascii _ _ (by decide)
    apply LeaderCheck.calm_ascii _ _ (by decide)
    apply LeaderCheck.calm_ascii _ _ (by decide)
    apply LeaderCheck.calm_number _ _ _ _ _ _ (not_mem_ascii (by decide))
    apply LeaderCheck.calm_number _ _ _ _ _ _ (not_mem_ascii (by decide))
    apply LeaderCheck.calm_number _ _ _ _ _ _ (not_mem_ascii (by decide))
    iterate 5 apply LeaderCheck.calm_ascii _ _ (by decide)
    exact quiet_nil.calm
  · exact quiet_nil.calm

/-! ### The octets of a directory entry -/

theorem leaks_cons_other {c : UInt8} (noDash : c ≠ dash) (text : List UInt8) : Leaks (c :: text) ↔ Leaks text := by
  constructor
  · rintro ⟨before, behind, parts⟩
    cases before with
    | nil => exact absurd (List.cons.inj parts).1 noDash
    | cons _ before => exact ⟨before, behind, (List.cons.inj parts).2⟩
  · rintro ⟨before, behind, rfl⟩
    exact ⟨c :: before, behind, rfl⟩

theorem leaks_append_left {before : List UInt8} (noDash : dash ∉ before) (text : List UInt8) : Leaks (before ++ text) ↔ Leaks text := by
  induction before with
  | nil => rfl
  | cons c _ ih =>
    have other : c ≠ dash := fun is => noDash (is ▸ mem_cons_self)
    rw [cons_append, leaks_cons_other other, ih fun inside => noDash (mem_cons_of_mem c inside)]

variable (text : List UInt8)

theorem leaks_append_paren : Leaks (text ++ [41]) ↔ Leaks text := by
  constructor
  · rintro ⟨before, behind, parts⟩
    rcases eq_nil_or_concat behind with rfl | ⟨front, last, rfl⟩
    · have ending := congrArg List.getLast? parts
      simp [gt] at ending
    · rw [concat_eq_append, ← append_assoc] at parts
      obtain ⟨parts, -⟩ := append_inj' parts rfl
      exact ⟨before, front, parts⟩
  · rintro ⟨before, behind, rfl⟩
    exact ⟨before, behind ++ [41], by simp only [append_assoc]⟩

theorem leaks_cons_dash : Leaks (dash :: text) ↔ (∃ behind, text = dash :: gt :: behind) ∨ Leaks text := by
  constructor
  · rintro ⟨before, behind, parts⟩
    cases before with
    | nil => exact Or.inl ⟨behind, (List.cons.inj parts).2⟩
    | cons _ before => exact Or.inr ⟨before, behind, (List.cons.inj parts).2⟩
  · rintro (⟨behind, rfl⟩ | ⟨before, behind, rfl⟩)
    · exact ⟨[], behind, rfl⟩
    · exact ⟨dash :: before, behind, rfl⟩

theorem writeEscaped_cons (c : UInt8) (text : List UInt8) :
    (32 ≤ c ∧ c ≤ 126 ∧ writeEscaped (c :: text) = c :: writeEscaped text) ∨
      (¬ (32 ≤ c ∧ c ≤ 126) ∧ ∃ d e, writeEscaped (c :: text) = [92, 120, d, e] ++ writeEscaped text ∧
        ∀ x ∈ [92, 120, d, e], x ≠ dash ∧ x ≠ 0) := by
  have hex : ∀ n : Nat, n < 16 → writeEscaped.hexDigit n ≠ dash ∧ writeEscaped.hexDigit n ≠ 0 := by decide
  rw [writeEscaped, flatMap_cons]
  by_cases odd : c < 32 ∨ 126 < c
  · right
    have high : c.toNat / 16 < 16 := by
      have octet := c.toNat_lt
      omega
    have low : c.toNat % 16 < 16 := Nat.mod_lt _ (by decide)
    refine ⟨?_, _, _, by rw [if_pos odd]; rfl, ?_⟩
    · rintro ⟨least, most⟩
      rcases odd with below | above
      · exact absurd least (UInt8.not_le.mpr below)
      · exact absurd most (UInt8.not_le.mpr above)
    · intro x inside
      simp only [mem_cons, not_mem_nil, or_false] at inside
      rcases inside with rfl | rfl | rfl | rfl
      · decide
      · decide
      · exact hex _ high
      · exact hex _ low
  · left
    refine ⟨UInt8.not_lt.mp fun below => odd (Or.inl below), UInt8.not_lt.mp fun above => odd (Or.inr above), ?_⟩
    rw [if_neg odd]
    rfl

theorem writeEscaped_front {x : UInt8} (noEscape : x ≠ 92) {text rest : List UInt8} (is : writeEscaped text = x :: rest) :
    ∃ more, text = x :: more ∧ rest = writeEscaped more := by
  cases text with
  | nil => cases is
  | cons c text =>
    rcases writeEscaped_cons c text with ⟨-, -, same⟩ | ⟨-, d, e, escaped, -⟩
    · rw [same] at is
      obtain ⟨rfl, rfl⟩ := List.cons.inj is
      exact ⟨text, rfl, rfl⟩
    · rw [escaped] at is
      exact absurd (List.cons.inj is).1.symm noEscape

theorem writeEscaped_plain {c : UInt8} (least : 32 ≤ c) (most : c ≤ 126) (text : List UInt8) :
    writeEscaped (c :: text) = c :: writeEscaped text := by
  rcases writeEscaped_cons c text with ⟨-, -, same⟩ | ⟨odd, -⟩
  · exact same
  · exact absurd ⟨least, most⟩ odd

theorem leaks_writeEscaped : Leaks (writeEscaped text) ↔ Leaks text := by
  induction text with
  | nil => rfl
  | cons c text ih =>
    rcases writeEscaped_cons c text with ⟨-, -, same⟩ | ⟨odd, d, e, escaped, others⟩
    · rw [same]
      by_cases isDash : c = dash
      · cases isDash
        have front : (∃ behind, writeEscaped text = dash :: gt :: behind) ↔ ∃ behind, text = dash :: gt :: behind := by
          constructor
          · rintro ⟨behind, is⟩
            obtain ⟨more, rfl, next⟩ := writeEscaped_front (by decide) is
            obtain ⟨rest, rfl, -⟩ := writeEscaped_front (by decide) next.symm
            exact ⟨rest, rfl⟩
          · rintro ⟨behind, rfl⟩
            refine ⟨writeEscaped behind, ?_⟩
            rw [writeEscaped_plain (by decide) (by decide), writeEscaped_plain (by decide) (by decide)]
        rw [leaks_cons_dash, leaks_cons_dash, front, ih]
      · rw [leaks_cons_other isDash, leaks_cons_other isDash, ih]
    · have notDash : c ≠ dash := fun is => odd (is ▸ ⟨by decide, by decide⟩)
      rw [escaped, leaks_append_left (fun inside => (others dash inside).1 rfl), leaks_cons_other notDash, ih]

theorem writeEscaped_length : (writeEscaped text).length ≤ 4 * text.length := by
  induction text with
  | nil => exact Nat.le_refl 0
  | cons c text =>
    rw [length_cons]
    rcases writeEscaped_cons c text with ⟨-, -, same⟩ | ⟨-, d, e, escaped, -⟩
    · rw [same, length_cons]
      omega
    · rw [escaped, length_append]
      simp only [length_cons, length_nil]
      omega

theorem writeEscaped_noNul : 0 ∉ writeEscaped text := by
  induction text with
  | nil => exact not_mem_nil
  | cons c text ih =>
    intro inside
    rcases writeEscaped_cons c text with ⟨least, -, same⟩ | ⟨-, d, e, escaped, others⟩
    · rw [same] at inside
      rcases mem_cons.mp inside with rfl | inside
      · exact absurd least (by decide)
      · exact ih inside
    · rw [escaped] at inside
      rcases mem_append.mp inside with inside | inside
      · exact (others 0 inside).2 rfl
      · exact ih inside

def badValue (entryP : Nat) (entry : List UInt8) : List UInt8 :=
  ascii "Directory offset " ++ decimal entryP ++
    ascii ": Bad value for data length and/or length starting (" ++ writeEscaped entry ++ ascii ")"

theorem badValue_remark {entryP : Nat} (small : entryP < 10 ^ 10) {entry : List UInt8} (short : entry.length ≤ 21) :
    marcCprintf (badValue entryP entry) = .comment (badValue entryP entry) ∧ cString (badValue entryP entry) = badValue entryP entry := by
  have number := @decimal_length_le entryP 10 (by decide) small
  have escaped := writeEscaped_length entry
  have first : (ascii "Directory offset ").length = 17 := by rw [ascii_ofList]; rfl
  have second : (ascii ": Bad value for data length and/or length starting (").length = 52 := by rw [ascii_ofList]; rfl
  have third : (ascii ")").length = 1 := by decide
  have few : (badValue entryP entry).length ≤ 198 := by
    rw [badValue, length_append, length_append, length_append, length_append, first, second, third]
    omega
  have noNul : 0 ∉ badValue entryP entry := by
    intro inside
    simp only [badValue, mem_append] at inside
    rcases inside with (((inside | inside) | inside) | inside) | inside
    · exact not_mem_ascii (by decide) inside
    · have digit := Yaz.Pqf.decimal_digits entryP 0 inside
      exact absurd digit (by decide)
    · exact not_mem_ascii (by decide) inside
    · exact writeEscaped_noNul entry inside
    · exact not_mem_ascii (by decide) inside
  have whole := cString_eq_self noNul
  constructor
  · rw [marcCprintf, take_of_length_le few, whole]
  · exact whole

theorem leaks_badValue (entryP : Nat) (entry : List UInt8) : Leaks (badValue entryP entry) ↔ Leaks entry := by
  have noDash : dash ∉ ascii "Directory offset " ++ decimal entryP ++
      ascii ": Bad value for data length and/or length starting (" := by
    intro inside
    simp only [mem_append] at inside
    rcases inside with (inside | inside) | inside
    · exact not_mem_ascii (by decide) inside
    · have digit := Yaz.Pqf.decimal_digits entryP dash inside
      exact absurd digit (by decide)
    · exact not_mem_ascii (by decide) inside
  rw [badValue, append_assoc, leaks_append_left noDash, show ascii ")" = [41] from rfl, leaks_append_paren, leaks_writeEscaped]

/-! ### The nodes of a record -/

def stopEntry (mem : List UInt8) : Option (List UInt8) :=
  match atoiNCheck (mem.take 5) with
  | none => none
  | some recordLength =>
    let lengths := (setLeader mem).1
    match scanDirectory mem recordLength lengths.lengthDataEntry lengths.lengthStarting recordLength 24 with
    | (some endOfDirectory, _ :: _) => some ((mem.drop endOfDirectory).take (3 + lengths.lengthDataEntry + lengths.lengthStarting))
    | _ => none

def EntryLeaks (mem : List UInt8) : Prop := ∃ entry, stopEntry mem = some entry ∧ Leaks entry

theorem scanDirectory_cases (recordLength lengthDataEntry lengthStarting rounds p : Nat) :
    (scanDirectory mem recordLength lengthDataEntry lengthStarting rounds p).2 = [] ∨
      ((scanDirectory mem recordLength lengthDataEntry lengthStarting rounds p).1 = none ∧
        Quiet (scanDirectory mem recordLength lengthDataEntry lengthStarting rounds p).2) ∨
      ∃ entryP, entryP < recordLength ∧ scanDirectory mem recordLength lengthDataEntry lengthStarting rounds p =
        (some entryP, [marcCprintf (badValue entryP ((mem.drop entryP).take (3 + lengthDataEntry + lengthStarting)))]) := by
  induction rounds generalizing p with
  | zero => exact Or.inl rfl
  | succ _ ih =>
    rw [scanDirectory]
    split
    · exact Or.inl rfl
    · split
      · right
        left
        exact ⟨rfl, quiet_numbered p (by rw [ascii_ofList]; decide) (by rw [ascii_ofList]; decide)⟩
      next inside =>
        split
        · exact ih _
        · right
          right
          exact ⟨p, by omega, rfl⟩

theorem calm_sealed {nodes : List Node} (calm : Calm nodes) : ∀ text ∈ remarks nodes, ¬ Leaks text :=
  fun text inside leaks => (calm text inside).elim (· leaks.mem.1) (· leaks.mem.2)

theorem atoiNCheck_le {buf : List UInt8} {n : Nat} (is : atoiNCheck (buf.take 5) = some n) : n ≤ 99999 := by
  have below := atoiNCheck_lt is
  have five : 10 ^ (buf.take 5).length ≤ 10 ^ 5 := Nat.pow_le_pow_right (by decide) (length_take_le 5 _)
  omega

theorem quiet_base (baseAddress endOfDirectory : Nat) :
    Quiet (if baseAddress ≠ endOfDirectory + 1 then
      [marcCprintf (ascii "Base address not at end of directory, base " ++ decimal baseAddress ++ ascii ", end " ++
        decimal (endOfDirectory + 1))] else []) := by
  split
  · have whole := @quiet_of_parts [ascii "Base address not at end of directory, base ", decimal baseAddress, ascii ", end ",
      decimal (endOfDirectory + 1)] (by
        intro part inside
        simp only [mem_cons, not_mem_nil, or_false] at inside
        rcases inside with rfl | rfl | rfl | rfl
        · rw [ascii_ofList]
          decide
        · exact decimal_quiet _
        · rw [ascii_ofList]
          decide
        · exact decimal_quiet _)
    simpa only [flatten_cons, flatten_nil, append_nil, append_assoc] using whole
  · exact quiet_nil

/-- The nodes of a record have no leader, or no comment with octets of the record, or one. -/
theorem readIso2709_diagnosed (bsize : Int) :
    (∀ beyond, writeMarcxml beyond (readIso2709 mem bsize).2 = none) ∨
      (Calm (readIso2709 mem bsize).2 ∧ stopEntry mem = none) ∨
      ∃ before behind entryP entry, (readIso2709 mem bsize).2 = before ++ .comment (badValue entryP entry) :: behind ∧
        Calm before ∧ Quiet behind ∧ stopEntry mem = some entry ∧ cString (badValue entryP entry) = badValue entryP entry := by
  rw [readIso2709, readIso2709With, stopEntry]
  cases number : atoiNCheck (mem.take 5) with
  | none => exact Or.inl fun beyond => rfl
  | some recordLength =>
    have five := atoiNCheck_le number
    dsimp only
    split
    · exact Or.inl fun beyond => rfl
    · split
      · exact Or.inl fun beyond => rfl
      · right
        have leader := calm_setLeader mem
        obtain ⟨nine, nine'⟩ := setLeader_le mem
        have cases := scanDirectory_cases mem recordLength (setLeader mem).1.lengthDataEntry
          (setLeader mem).1.lengthStarting recordLength 24
        generalize setLeader mem = read at leader nine nine' cases
        obtain ⟨lengths, leaderNodes⟩ := read
        dsimp only at leader nine nine' cases ⊢
        generalize scanDirectory mem recordLength lengths.lengthDataEntry lengths.lengthStarting recordLength 24 = scan at cases
        rcases cases with none | ⟨noEnd, quiet⟩ | ⟨entryP, inside, is⟩
        · obtain ⟨_ | endOfDirectory, comments⟩ := scan
          · cases none
            left
            exact ⟨leader.append quiet_nil.calm, rfl⟩
          · cases none
            left
            exact ⟨((leader.append quiet_nil.calm).append (quiet_base _ _).calm).append (quiet_readFields _ _ _ _ _ _).calm, rfl⟩
        · obtain ⟨_ | endOfDirectory, comments⟩ := scan
          · left
            exact ⟨leader.append quiet.calm, rfl⟩
          · cases noEnd
        · rw [is]
          right
          have room := length_take_le (3 + lengths.lengthDataEntry + lengths.lengthStarting) (mem.drop entryP)
          obtain ⟨one, two⟩ := @badValue_remark entryP (by omega)
            ((mem.drop entryP).take (3 + lengths.lengthDataEntry + lengths.lengthStarting))
            (by omega)
          refine ⟨leaderNodes, _, entryP, _, ?_, leader, (quiet_base lengths.baseAddress entryP).append
            (quiet_readFields mem recordLength lengths entryP entryP 24), rfl, two⟩
          rw [one, readFields]
          simp only [append_assoc, cons_append, nil_append]

theorem tokens_writeMarcxml {mem : List UInt8} {bsize : Int} {beyond : List UInt8 → List UInt8} {output : List UInt8}
    (written : writeMarcxml beyond (readIso2709 mem bsize).2 = some output) :
    tokens output = markup ((readIso2709 mem bsize).2.map Node.shape) ↔ ¬ EntryLeaks mem := by
  rcases readIso2709_diagnosed mem bsize with none | ⟨calm, noEntry⟩ | ⟨before, behind, entryP, entry, nodes, calm, quiet, stop, plain⟩
  · rw [none beyond] at written
    cases written
  · constructor
    · rintro - ⟨entry, stop, -⟩
      rw [noEntry] at stop
      cases stop
    · intro _
      exact writeMarcxml_sealed written (calm_sealed calm)
  · rw [nodes] at written ⊢
    have same : EntryLeaks mem ↔ Leaks (cString (badValue entryP entry)) := by
      rw [plain, leaks_badValue]
      constructor
      · rintro ⟨entry', stop', leaks⟩
        rw [stop] at stop'
        cases stop'
        exact leaks
      · intro leaks
        exact ⟨entry, stop, leaks⟩
    rw [same]
    constructor
    · intro is leaks
      exact writeMarcxml_leaking written (calm_sealed calm) (calm_sealed quiet.calm) (fun text inside => (quiet text inside).2) leaks is
    · intro holds
      apply writeMarcxml_sealed written
      intro text inside
      rw [remarks_append] at inside
      rcases mem_append.mp inside with inside | inside
      · exact calm_sealed calm text inside
      · rcases mem_cons.mp inside with rfl | inside
        · exact holds
        · exact calm_sealed quiet.calm text inside

/-- Two records of one shape, one of which does not leak at least, have the same markup exactly where neither leaks; a record
that leaks does not have the markup of its shape. -/
theorem marcxml_same_markup (mem mem' : List UInt8) (bsize bsize' : Int) (beyond beyond' : List UInt8 → List UInt8)
    (output output' : List UInt8)
    (written : writeMarcxml beyond (readIso2709 mem bsize).2 = some output)
    (written' : writeMarcxml beyond' (readIso2709 mem' bsize').2 = some output')
    (same : (readIso2709 mem bsize).2.map Node.shape = (readIso2709 mem' bsize').2.map Node.shape) :
    (tokens output = markup ((readIso2709 mem bsize).2.map Node.shape) ↔ ¬ EntryLeaks mem) ∧
      (¬ EntryLeaks mem ∨ ¬ EntryLeaks mem' → (tokens output = tokens output' ↔ ¬ EntryLeaks mem ∧ ¬ EntryLeaks mem')) := by
  have one := tokens_writeMarcxml written
  have two := tokens_writeMarcxml written'
  rw [← same] at two
  refine ⟨one, ?_⟩
  rintro (holds | holds)
  · rw [one.mpr holds]
    exact ⟨fun is => ⟨holds, two.mp is.symm⟩, fun both => (two.mpr both.2).symm⟩
  · rw [two.mpr holds]
    exact ⟨fun is => ⟨one.mp is, holds⟩, fun both => one.mpr both.1⟩

def entryRecord (entry : String) : List UInt8 := ascii "00038nam a2200025 a 4500" ++ ascii entry ++ [ISO2709_FS, ISO2709_RS]

theorem entryRecord_same_markup :
    ∃ output output', writeMarcxml (fun _ => []) (readIso2709 (entryRecord "abcdefghijkl") (-1)).2 = some output ∧
      writeMarcxml (fun _ => []) (readIso2709 (entryRecord "<b>&ABCDEFGH") (-1)).2 = some output' ∧ tokens output = tokens output' := by
  have first : (writeMarcxml (fun _ => []) (readIso2709 (entryRecord "abcdefghijkl") (-1)).2).isSome = true := by decide
  have second : (writeMarcxml (fun _ => []) (readIso2709 (entryRecord "<b>&ABCDEFGH") (-1)).2).isSome = true := by decide
  obtain ⟨output, written⟩ := Option.isSome_iff_exists.mp first
  obtain ⟨output', written'⟩ := Option.isSome_iff_exists.mp second
  have holds : ¬ EntryLeaks (entryRecord "abcdefghijkl") := by
    rintro ⟨entry, stop, leaks⟩
    have is : stopEntry (entryRecord "abcdefghijkl") = some (ascii "abcdefghijkl") := by rw [ascii_ofList]; decide
    rw [is] at stop
    cases stop
    exact absurd leaks.mem.1 (by decide)
  have holds' : ¬ EntryLeaks (entryRecord "<b>&ABCDEFGH") := by
    rintro ⟨entry, stop, leaks⟩
    have is : stopEntry (entryRecord "<b>&ABCDEFGH") = some (ascii "<b>&ABCDEFGH") := by rw [ascii_ofList]; decide
    rw [is] at stop
    cases stop
    exact absurd leaks.mem.1 (by decide)
  exact ⟨output, output', written, written',
    ((marcxml_same_markup _ _ (-1) (-1) (fun _ => []) (fun _ => []) output output' written written' (by decide)).2 (Or.inl holds)).mpr
      ⟨holds, holds'⟩⟩

theorem entryRecord_other_markup :
    (readIso2709 (entryRecord "abcdefghijkl") 38).2.map Node.shape = (readIso2709 (entryRecord "--><b>abcdef") 38).2.map Node.shape ∧
      (writeMarcxml (fun _ => []) (readIso2709 (entryRecord "abcdefghijkl") 38).2).map tokens =
        some [.start (ascii "record xmlns=\"\""), .start (ascii "leader"), .stop (ascii "leader"), .comment,
          .stop (ascii "record")] ∧
      (writeMarcxml (fun _ => []) (readIso2709 (entryRecord "--><b>abcdef") 38).2).map tokens =
        some [.start (ascii "record xmlns=\"\""), .start (ascii "leader"), .stop (ascii "leader"), .comment,
          .start (ascii "b"), .stray, .stop (ascii "record")] := by
  decide +kernel

end Yaz.Marc
