import Yaz.Marc.Line
import Yaz.Marc.Numbers

/-! A record that is written as lines is read again, where each line is one that the reader takes for what it is. -/

set_option autoImplicit false

namespace Yaz.Marc
open List
open Yaz.Comstack
open Yaz.Ber (intMax)

structure IsLineTag (tag : List UInt8) : Prop where
  length : tag.length = 3
  octets : ∀ c ∈ tag, c ≠ 0 ∧ c ≠ 32
  head : tag.head? ≠ some 36 ∧ tag.head? ≠ some 40

def isLineData (c : UInt8) : Bool := c ≠ 36 && c ≠ 95 && c ≠ 42 && c ≠ 13 && c ≠ 10 && c ≠ 0

def IsLineSubfield (s : List UInt8) : Prop := ∃ code data, s = code :: data ∧ isAlnum code = true ∧ data.all isLineData = true

def Node.LineValid : Node → Prop
  | .datafield tag indicator subfields =>
    IsLineTag tag ∧ indicator.length = 2 ∧ 0 ∉ indicator ∧ subfields ≠ [] ∧ ∀ s ∈ subfields, IsLineSubfield s
  | .controlfield tag data => IsLineTag tag ∧ data.all isLineData = true
  | _ => False

/-- The records in question: a leader of 24 ASCII characters with a number in front, and fields. -/
structure LineRecord (leader : List UInt8) (fs : List Node) : Prop where
  length : leader.length = 24
  octets : ∀ c ∈ leader, c ≠ 0 ∧ c ≤ 127
  number : (leader.take 5).all isDigit = true
  valid : ∀ n ∈ fs, n.LineValid

def isDatafield : Node → Bool
  | .datafield _ _ _ => true
  | _ => false

def noLineEnd (octets : List UInt8) : Bool := octets.all fun c => c ≠ 13 && c ≠ 10

def Node.keepsLine : Node → Bool
  | .datafield tag indicator _ => noLineEnd tag && noLineEnd indicator
  | .controlfield tag data => noLineEnd tag && !data.isEmpty
  | _ => true

/-- A leader that `yaz_marc_set_leader` leaves as it is, in one line, with codes of one octet if there are data fields. -/
structure LeaderKept (leader : List UInt8) (fs : List Node) : Prop where
  set : (setLeader leader).2 = [.leader leader]
  line : noLineEnd leader = true
  code : fs.any isDatafield = true → ∀ identifierLength, atoiNCheck ((leader.drop 11).take 1) = some identifierLength → identifierLength ≤ 2

variable {c : UInt8}

theorem endsLine_false (other : c ≠ 0 ∧ c ≠ 13 ∧ c ≠ 10) : endsLine c = false := by
  simp [endsLine, other]

theorem yazGets_line {text more : List UInt8} (inside : ∀ d ∈ text, endsLine d = false) (next : c ≠ 13 ∧ c ≠ 0) :
    yazGets (text ++ 10 :: c :: more) = (text, c :: more) := by
  have taken : (text ++ 10 :: c :: more).takeWhile (fun c => !endsLine c) = text := by
    rw [takeWhile_append_of_pos fun d member => by rw [inside d member]; rfl]
    exact append_nil text
  rw [yazGets, taken, drop_left, skipLineEnd]
  simp [next]

theorem yazMarcLineGets_line {text more : List UInt8} (some' : text ≠ []) (inside : ∀ d ∈ text, endsLine d = false)
    (next : c ≠ 13 ∧ c ≠ 0 ∧ c ≠ 32) : yazMarcLineGets (text ++ 10 :: c :: more) = (some text, c :: more) := by
  rw [yazMarcLineGets, yazGets_line inside ⟨next.1, next.2.1⟩]
  cases text with
  | nil => exact absurd rfl some'
  | cons =>
    dsimp only
    rw [continueLine, fourBlanks, if_neg next.2.2, if_neg next.2.1]

theorem yazMarcLineGets_empty (more : List UInt8) : (yazMarcLineGets (10 :: more)).1 = none := by
  have none : (yazGets (10 :: more)).1 = [] := rfl
  rw [yazMarcLineGets]
  generalize yazGets (10 :: more) = got at none
  obtain ⟨text, rest⟩ := got
  cases none
  rfl

variable {data : List UInt8}

theorem nextMarker_skip (markerCh : UInt8) (markerSkip : Bool) (noMarker : markerCh ∉ data) (before : UInt8) (rest : List UInt8) :
    nextMarker markerCh markerSkip before (data ++ rest) =
      (nextMarker markerCh markerSkip (data.getLastD before) rest).map (· + data.length) := by
  induction data generalizing before with
  | nil =>
    rw [nil_append, getLastD_nil, length_nil]
    cases nextMarker markerCh markerSkip before rest <;> rfl
  | cons c data ih =>
    have other : c ≠ markerCh := fun is => noMarker (is ▸ mem_cons_self)
    have rest' := ih (fun inside => noMarker (mem_cons_of_mem c inside)) c
    rw [cons_append, nextMarker, if_neg (fun all => other all.1), rest', length_cons]
    have last : (c :: data).getLastD before = data.getLastD c := by
      cases data with
      | nil => rfl
      | cons => rfl
    rw [last, Option.map_map]
    congr 1

def lineSubfield : List UInt8 → List UInt8
  | [] => []
  | code :: data => [32, 36, code, 32] ++ data

theorem alnum_noMarker {code : UInt8} (alnum : isAlnum code = true) : code ≠ 36 ∧ endsLine code = false ∧ code ≤ 127 := by
  refine ⟨?_, endsLine_false ⟨?_, ?_, ?_⟩, ?_⟩
  · rintro rfl
    cases alnum
  · rintro rfl
    cases alnum
  · rintro rfl
    cases alnum
  · rintro rfl
    cases alnum
  · have range : code.toNat ≤ 127 := by
      simp only [isAlnum, isUpper, isLower, isDigit, Bool.or_eq_true, Bool.and_eq_true, decide_eq_true_eq] at alnum
      omega
    exact range

theorem IsLineSubfield.octets {s : List UInt8} (is : IsLineSubfield s) : ∀ c ∈ lineSubfield s, endsLine c = false := by
  obtain ⟨code, data, rfl, alnum, clean⟩ := is
  intro c inside
  rcases mem_append.mp inside with inside | inside
  · simp only [mem_cons, not_mem_nil, or_false] at inside
    rcases inside with rfl | rfl | rfl | rfl
    · rfl
    · rfl
    · exact (alnum_noMarker alnum).2.1
    · rfl
  · have one := all_eq_true.mp clean c inside
    simp only [isLineData, Bool.and_eq_true, decide_eq_true_eq] at one
    exact endsLine_false ⟨one.2, one.1.1.2, one.1.2⟩

theorem lineData_noMarker (clean : data.all isLineData = true) : 36 ∉ data := by
  intro inside
  have one := all_eq_true.mp clean 36 inside
  exact absurd one (by decide)

variable {subfields : List (List UInt8)}

/-- The subfields that are written are those that are read. -/
theorem lineSubfields_written (valid : ∀ s ∈ subfields, IsLineSubfield s) {code : UInt8} (alnum : isAlnum code = true)
    (clean : data.all isLineData = true) {rounds : Nat} (enough : subfields.length < rounds) :
    lineSubfields 36 true rounds (code :: 32 :: data ++ subfields.flatMap lineSubfield) = (code :: data) :: subfields := by
  induction subfields generalizing code data rounds with
  | nil =>
    cases rounds with
    | zero => cases enough
    | succ =>
      have noMarker : (36 : UInt8) ∉ code :: 32 :: data := by
        simp [lineData_noMarker clean, (alnum_noMarker alnum).1.symm]
      have last : nextMarker 36 true 36 (code :: 32 :: data) = none := by
        have whole := nextMarker_skip 36 true noMarker 36 []
        rw [append_nil] at whole
        rw [whole]
        rfl
      rw [flatMap_nil, append_nil, lineSubfields, last]
      rw [lineCodeData, if_pos ⟨rfl, by simp, rfl⟩, take_length]
      rfl
  | cons s subfields ih =>
    obtain ⟨code', data', rfl, alnum', clean'⟩ := valid s mem_cons_self
    cases rounds with
    | zero => cases enough
    | succ =>
      have later := ih (fun t inside => valid t (mem_cons_of_mem _ inside)) alnum' clean' (Nat.lt_of_succ_lt_succ enough)
      have noMarker : (36 : UInt8) ∉ code :: 32 :: data := by
        simp [lineData_noMarker clean, (alnum_noMarker alnum).1.symm]
      generalize rest : subfields.flatMap lineSubfield = tail at later
      have found : nextMarker 36 true 36 (code :: 32 :: data ++ (32 :: 36 :: code' :: 32 :: (data' ++ tail))) = some (data.length + 3) := by
        rw [nextMarker_skip 36 true noMarker 36]
        have one : nextMarker 36 true ((code :: 32 :: data).getLastD 36) (32 :: 36 :: code' :: 32 :: (data' ++ tail)) = some 1 := by
          rw [nextMarker, if_neg (fun all => absurd all.1 (by decide)), nextMarker, if_pos ⟨rfl, by simpa using alnum', Or.inr rfl⟩]
          rfl
        rw [one]
        simp only [Option.map_some, length_cons]
        congr 1
        omega
      rw [flatMap_cons, rest, lineSubfield, append_assoc, show [32, 36, code', 32] ++ (data' ++ tail) =
        32 :: 36 :: code' :: 32 :: (data' ++ tail) from rfl, lineSubfields, found]
      have behind : (code :: 32 :: data ++ 32 :: 36 :: code' :: 32 :: (data' ++ tail)).drop (data.length + 3 + 1) =
        code' :: 32 :: data' ++ tail := by
        rw [show data.length + 3 + 1 = (code :: 32 :: data).length + 2 by simp, ← drop_drop, drop_left]
        rfl
      have front : (code :: 32 :: data ++ 32 :: 36 :: code' :: 32 :: (data' ++ tail)).take (data.length + 2) = code :: 32 :: data := by
        rw [show data.length + 2 = (code :: 32 :: data).length by simp, take_left]
      dsimp only
      rw [behind, later, show data.length + 3 - true.toNat = data.length + 2 from rfl, lineCodeData, if_pos ⟨rfl, by omega, rfl⟩, front]
      rfl

def Node.line : Node → List UInt8
  | .datafield tag indicator subfields => tag ++ 32 :: (indicator ++ subfields.flatMap lineSubfield)
  | .controlfield tag data => tag ++ 32 :: data
  | _ => []

theorem getD_append_right (first second : List UInt8) (j : Nat) : (first ++ second).getD (first.length + j) 0 = second.getD j 0 := by
  rw [getD_eq_getElem?_getD, getElem?_append_right (Nat.le_add_right _ _), Nat.add_sub_cancel_left, ← getD_eq_getElem?_getD]

theorem getD_mem {octets : List UInt8} {j : Nat} (inside : j < octets.length) : octets.getD j 0 ∈ octets := by
  rw [getD_eq_getElem?_getD, getElem?_eq_getElem inside, Option.getD_some]
  exact getElem_mem inside

theorem lineSubfield_length (valid : ∀ s ∈ subfields, IsLineSubfield s) :
    subfields.length ≤ (subfields.flatMap lineSubfield).length := by
  induction subfields with
  | nil => exact Nat.le_refl 0
  | cons s _ ih =>
    have rest := ih fun t inside => valid t (mem_cons_of_mem s inside)
    obtain ⟨code, data, rfl, -, -⟩ := valid s mem_cons_self
    rw [flatMap_cons, length_append, length_cons, lineSubfield, length_append]
    simp only [length_cons, length_nil]
    omega

theorem lineField_control {tag : List UInt8} (length : tag.length = 3) (clean : data.all isLineData = true) :
    lineField (tag ++ 32 :: data) = .controlfield tag data := by
  have four : (tag ++ [32]).length = 4 := by rw [length_append, length]; rfl
  have whole : tag ++ 32 :: data = tag ++ [32] ++ data := by simp
  have noMarker : ∀ j, 4 + j < (tag ++ 32 :: data).length → (tag ++ 32 :: data).getD (4 + j) 0 ≠ 36 ∧
    (tag ++ 32 :: data).getD (4 + j) 0 ≠ 95 ∧
      (tag ++ 32 :: data).getD (4 + j) 0 ≠ 42 := by
    intro j inside
    have octet : (tag ++ 32 :: data).getD (4 + j) 0 = data.getD j 0 := by
      rw [whole, ← four]
      exact getD_append_right _ _ j
    rw [whole, length_append, four] at inside
    have one := all_eq_true.mp clean _ (getD_mem (Nat.lt_of_add_lt_add_left inside))
    simp only [isLineData, Bool.and_eq_true, decide_eq_true_eq] at one
    rw [octet]
    exact ⟨one.1.1.1.1.1, one.1.1.1.1.2, one.1.1.1.2⟩
  have noField : ¬ (8 ≤ (tag ++ 32 :: data).length ∧
      ((tag ++ 32 :: data).getD (if (tag ++ 32 :: data).getD 6 0 = 32 then 7 else 6) 0 = 36 ∨
        (tag ++ 32 :: data).getD (if (tag ++ 32 :: data).getD 6 0 = 32 then 7 else 6) 0 = 95 ∨
        (tag ++ 32 :: data).getD (if (tag ++ 32 :: data).getD 6 0 = 32 then 7 else 6) 0 = 42)) := by
    rintro ⟨eight, marker⟩
    have none : ∀ j, j = 2 ∨ j = 3 → ¬ ((tag ++ 32 :: data).getD (4 + j) 0 = 36 ∨ (tag ++ 32 :: data).getD (4 + j) 0 = 95 ∨
        (tag ++ 32 :: data).getD (4 + j) 0 = 42) := by
      intro j few marker
      obtain ⟨one, two, three⟩ := noMarker j (by omega)
      exact marker.elim one fun marker => marker.elim two three
    split at marker
    · exact none 3 (Or.inr rfl) marker
    · exact none 2 (Or.inl rfl) marker
  rw [lineField, if_neg noField, if_pos rfl, ← length, take_left]
  congr 1
  rw [whole, ← four, drop_left]

theorem lineField_data {tag indicator : List UInt8} (length : tag.length = 3) (two : indicator.length = 2)
    (some' : subfields ≠ []) (valid : ∀ s ∈ subfields, IsLineSubfield s) :
    lineField (tag ++ 32 :: (indicator ++ subfields.flatMap lineSubfield)) = .datafield tag indicator subfields := by
  cases subfields with
  | nil => exact absurd rfl some'
  | cons s subfields =>
    obtain ⟨code, data, rfl, alnum, clean⟩ := valid s mem_cons_self
    generalize rest : subfields.flatMap lineSubfield = tail
    have six : (tag ++ 32 :: indicator).length = 6 := by rw [length_append, length_cons, length, two]
    have whole : tag ++ 32 :: (indicator ++ ((code :: data) :: subfields).flatMap lineSubfield) =
        (tag ++ 32 :: indicator) ++ (32 :: 36 :: code :: 32 :: (data ++ tail)) := by
      rw [flatMap_cons, rest, lineSubfield]
      simp
    have front : (tag ++ 32 :: (indicator ++ ((code :: data) :: subfields).flatMap lineSubfield)).take 3 = tag := by
      rw [← length, take_left]
    have indicators : ((tag ++ 32 :: (indicator ++ ((code :: data) :: subfields).flatMap lineSubfield)).drop 4).take 2 = indicator := by
      have four : (tag ++ [32]).length = 4 := by rw [length_append, length]; rfl
      rw [show tag ++ 32 :: (indicator ++ ((code :: data) :: subfields).flatMap lineSubfield) =
        tag ++ [32] ++ (indicator ++ ((code :: data) :: subfields).flatMap lineSubfield) by simp, ← four, drop_left, ← two, take_left]
    rw [lineField, front, indicators, whole]
    generalize tag ++ 32 :: indicator = start at six
    have octet : ∀ j, (start ++ (32 :: 36 :: code :: 32 :: (data ++ tail))).getD (6 + j) 0 =
      (32 :: 36 :: code :: 32 :: (data ++ tail)).getD j 0 := by
      intro j
      rw [← six]
      exact getD_append_right _ _ j
    have blank : (start ++ (32 :: 36 :: code :: 32 :: (data ++ tail))).getD 6 0 = 32 := octet 0
    have marker : (start ++ (32 :: 36 :: code :: 32 :: (data ++ tail))).getD 7 0 = 36 := octet 1
    have skips : (start ++ (32 :: 36 :: code :: 32 :: (data ++ tail))).getD (7 + 2) 0 = 32 := octet 3
    have behind : (start ++ (32 :: 36 :: code :: 32 :: (data ++ tail))).drop (7 + 1) = code :: 32 :: data ++ tail := by
      rw [show 7 + 1 = start.length + 2 by rw [six], ← drop_drop, drop_left]
      rfl
    have many : 8 ≤ (start ++ (32 :: 36 :: code :: 32 :: (data ++ tail))).length := by
      rw [length_append, six]
      simp only [length_cons]
      omega
    have found : (if 8 ≤ (start ++ (32 :: 36 :: code :: 32 :: (data ++ tail))).length ∧
      ((36 : UInt8) = 36 ∨ (36 : UInt8) = 95 ∨ (36 : UInt8) = 42)
        then (36 : UInt8) else 0) = 36 := if_pos ⟨many, Or.inl rfl⟩
    rw [if_pos blank, marker, found, if_neg (by decide), skips, behind]
    have enough : subfields.length < (start ++ (32 :: 36 :: code :: 32 :: (data ++ tail))).length := by
      have least : subfields.length ≤ tail.length := by
        rw [← rest]
        exact lineSubfield_length fun t inside => valid t (mem_cons_of_mem _ inside)
      rw [length_append, six]
      simp only [length_cons, length_append]
      omega
    have read := lineSubfields_written (fun t inside => valid t (mem_cons_of_mem _ inside)) alnum clean enough
    rw [rest] at read
    rw [decide_eq_true (show (32 : UInt8) = 32 from rfl), read]

theorem Node.line_parts {n : Node} (valid : n.LineValid) (keeps : n.keepsLine = true) :
    ∃ tag text, n.line = tag ++ 32 :: text ∧ IsLineTag tag ∧ text ≠ [] ∧ (∀ d ∈ n.line, endsLine d = false) ∧ lineField n.line = n := by
  have tagOctets : ∀ {tag : List UInt8}, IsLineTag tag → noLineEnd tag = true → ∀ d ∈ tag, endsLine d = false := by
    intro tag isTag oneLine d inside
    have ends := all_eq_true.mp oneLine d inside
    simp only [Bool.and_eq_true, decide_eq_true_eq] at ends
    exact endsLine_false ⟨(isTag.octets d inside).1, ends.1, ends.2⟩
  cases n with
  | comment => cases valid
  | leader => cases valid
  | controlfield tag data =>
    obtain ⟨isTag, clean⟩ := valid
    simp only [Node.keepsLine, Bool.and_eq_true, Bool.not_eq_true', isEmpty_eq_false_iff] at keeps
    refine ⟨tag, data, rfl, isTag, keeps.2, ?_, lineField_control isTag.length clean⟩
    intro d inside
    rcases mem_append.mp inside with inside | inside
    · exact tagOctets isTag keeps.1 d inside
    · rcases mem_cons.mp inside with rfl | inside
      · rfl
      · have one := all_eq_true.mp clean d inside
        simp only [isLineData, Bool.and_eq_true, decide_eq_true_eq] at one
        exact endsLine_false ⟨one.2, one.1.1.2, one.1.2⟩
  | datafield tag =>
    obtain ⟨isTag, two, noNul, some', subfieldsValid⟩ := valid
    simp only [Node.keepsLine, Bool.and_eq_true] at keeps
    refine ⟨tag, _, rfl, isTag, ?_, ?_, lineField_data isTag.length two some' subfieldsValid⟩
    · intro empty
      rw [(append_eq_nil_iff.mp empty).1] at two
      cases two
    · intro d inside
      rcases mem_append.mp inside with inside | inside
      · exact tagOctets isTag keeps.1 d inside
      · rcases mem_cons.mp inside with rfl | inside
        · rfl
        · rcases mem_append.mp inside with inside | inside
          · have ends := all_eq_true.mp keeps.2 d inside
            simp only [Bool.and_eq_true, decide_eq_true_eq] at ends
            exact endsLine_false ⟨fun is => noNul (is ▸ inside), ends.1, ends.2⟩
          · obtain ⟨s, member, inside⟩ := mem_flatMap.mp inside
            exact (subfieldsValid s member).octets d inside

/-- The reader goes from one field to the next. -/
theorem readLines_field {n : Node} (valid : n.LineValid) (keeps : n.keepsLine = true) (next : c ≠ 13 ∧ c ≠ 0 ∧ c ≠ 32)
    (rounds : Nat) (more : List UInt8) :
    (readLines (rounds + 1) true (n.line ++ 10 :: c :: more)).1 = (readLines rounds true (c :: more)).1 ∧
      (readLines (rounds + 1) true (n.line ++ 10 :: c :: more)).2.1 = n :: (readLines rounds true (c :: more)).2.1 := by
  obtain ⟨tag, text, line, isTag, some', octets, field⟩ := n.line_parts valid keeps
  have length := isTag.length
  have lineSome : n.line ≠ [] := by
    rw [line]
    simp
  have long : 4 < n.line.length := by
    have least := length_pos_of_ne_nil some'
    rw [line, length_append, length_cons, length]
    omega
  have inTag : ∀ j, j < 3 → n.line.getD j 0 ∈ tag := by
    intro j few
    have same : n.line.getD j 0 = tag.getD j 0 := by
      rw [line, getD_eq_getElem?_getD, getElem?_append_left (by omega), ← getD_eq_getElem?_getD]
    rw [same]
    exact getD_mem (by omega)
  have blank : n.line.getD 3 0 = 32 := by
    have octet := getD_append_right tag (32 :: text) 0
    rw [length, Nat.add_zero] at octet
    rw [line, octet]
    rfl
  have head : n.line.head? = tag.head? := by
    cases tag with
    | nil => cases length
    | cons =>
      rw [line]
      rfl
  -- the blank behind the tag is no digit
  have noLeader : ¬ (n.line.length = 24 ∧ (atoiNCheck (n.line.take 5)).isSome = true) := by
    rintro ⟨-, number⟩
    obtain ⟨value, is⟩ := Option.isSome_iff_exists.mp number
    have inside : (32 : UInt8) ∈ n.line.take 5 := by
      rw [line, show tag ++ 32 :: text = tag ++ [32] ++ text by simp, take_append]
      apply mem_append_left
      rw [take_of_length_le (by rw [length_append, length]; decide)]
      exact mem_append_right _ (mem_singleton.mpr rfl)
    exact absurd (atoiNCheck_all is 32 inside) (by decide)
  have isField : 4 < n.line.length ∧ n.line.getD 0 0 ≠ 32 ∧ n.line.getD 1 0 ≠ 32 ∧ n.line.getD 2 0 ≠ 32 ∧ n.line.getD 3 0 = 32 :=
    ⟨long, (isTag.octets _ (inTag 0 (by decide))).2, (isTag.octets _ (inTag 1 (by decide))).2,
      (isTag.octets _ (inTag 2 (by decide))).2, blank⟩
  rw [readLines, yazMarcLineGets_line lineSome octets next]
  dsimp only
  rw [if_neg (by omega), if_neg (by rw [head]; exact isTag.head.1), if_neg (by rw [head]; exact isTag.head.2), if_neg noLeader,
    if_pos isField, field]
  exact ⟨rfl, rfl⟩

variable {fs : List Node}

theorem lines_next (valid : ∀ n ∈ fs, n.LineValid) (keeps : ∀ n ∈ fs, n.keepsLine = true) (rest : List UInt8) :
    ∃ c more, fs.flatMap (fun n => n.line ++ [10]) ++ 10 :: rest = c :: more ∧ c ≠ 13 ∧ c ≠ 0 ∧ c ≠ 32 := by
  cases fs with
  | nil => exact ⟨10, rest, rfl, by decide, by decide, by decide⟩
  | cons n fs =>
    obtain ⟨tag, text, line, isTag, -, octets, -⟩ := n.line_parts (valid n mem_cons_self) (keeps n mem_cons_self)
    cases tag with
    | nil => cases isTag.length
    | cons c tag =>
      have member : c ∈ n.line := by
        rw [line]
        exact mem_cons_self
      have ends := octets c member
      have octet := isTag.octets c mem_cons_self
      refine ⟨c, tag ++ 32 :: text ++ [10] ++ (fs.flatMap (fun n => n.line ++ [10]) ++ 10 :: rest), ?_, ?_, octet⟩
      · rw [flatMap_cons, line]
        simp
      · rintro rfl
        cases ends

theorem lines_length (fs : List Node) : fs.length ≤ (fs.flatMap fun n => n.line ++ [10]).length := by
  induction fs with
  | nil => exact Nat.le_refl 0
  | cons =>
    rw [flatMap_cons, length_append, length_append, length_cons, length_singleton]
    omega

theorem readLines_fields (valid : ∀ n ∈ fs, n.LineValid) (keeps : ∀ n ∈ fs, n.keepsLine = true) {rounds : Nat}
    (enough : fs.length < rounds) (rest : List UInt8) :
    (readLines rounds true (fs.flatMap (fun n => n.line ++ [10]) ++ 10 :: rest)).1 = true ∧
      (readLines rounds true (fs.flatMap (fun n => n.line ++ [10]) ++ 10 :: rest)).2.1 = fs := by
  induction fs generalizing rounds with
  | nil =>
    cases rounds with
    | zero => cases enough
    | succ =>
      have none := yazMarcLineGets_empty rest
      rw [flatMap_nil, nil_append, readLines]
      generalize yazMarcLineGets (10 :: rest) = got at none
      obtain ⟨line, stream⟩ := got
      cases none
      exact ⟨rfl, rfl⟩
  | cons n fs ih =>
    cases rounds with
    | zero => cases enough
    | succ rounds =>
      have validRest : ∀ m ∈ fs, m.LineValid := fun m inside => valid m (mem_cons_of_mem n inside)
      have keepsRest : ∀ m ∈ fs, m.keepsLine = true := fun m inside => keeps m (mem_cons_of_mem n inside)
      obtain ⟨header, nodes⟩ := ih validRest keepsRest (Nat.lt_of_succ_lt_succ enough)
      obtain ⟨c, more, is, next⟩ := lines_next validRest keepsRest rest
      rw [is] at header nodes
      rw [flatMap_cons, append_assoc, append_assoc, is, singleton_append]
      have step := readLines_field (valid n mem_cons_self) (keeps n mem_cons_self) ⟨next.1, next.2.1, next.2.2⟩ rounds more
      rw [header, nodes] at step
      exact step

theorem writeLineSubfield_eq {s : List UInt8} (is : IsLineSubfield s) (beyond : List UInt8 → List UInt8) {identifierLength : Nat}
    (few : identifierLength ≤ 2) : writeLineSubfield beyond identifierLength s = lineSubfield s := by
  obtain ⟨code, data, rfl, alnum, clean⟩ := is
  have noNul : 0 ∉ data := by
    intro inside
    have one := all_eq_true.mp clean 0 inside
    exact absurd one (by decide)
  have one : getSubfieldLen (code :: data ++ 0 :: beyond (code :: data)) identifierLength = 1 := by
    rw [getSubfieldLen, if_neg (by omega), cons_append, cdataOneCharacter_ascii (alnum_noMarker alnum).2.2]
  rw [writeLineSubfield, one, cons_append, take_succ_cons, take_zero, drop_succ_cons, drop_zero, cString_append_nul noNul, lineSubfield]
  rfl

theorem writeLineNode_eq {n : Node} (valid : n.LineValid) (beyond : List UInt8 → List UInt8) {identifierLength : Nat}
    (few : isDatafield n = true → identifierLength ≤ 2) : writeLineNode beyond identifierLength n = n.line ++ [10] := by
  have tagNoNul : ∀ {tag : List UInt8}, IsLineTag tag → 0 ∉ tag := fun isTag inside => (isTag.octets 0 inside).1 rfl
  cases n with
  | comment => cases valid
  | leader => cases valid
  | controlfield _ data =>
    obtain ⟨isTag, clean⟩ := valid
    have noNul : 0 ∉ data := by
      intro inside
      have one := all_eq_true.mp clean 0 inside
      exact absurd one (by decide)
    rw [writeLineNode, Node.line, cString_eq_self (tagNoNul isTag), cString_eq_self noNul]
    simp only [append_assoc]
    rfl
  | datafield _ _ subfields =>
    obtain ⟨isTag, -, noNul, -, subfieldsValid⟩ := valid
    have each : subfields.flatMap (writeLineSubfield beyond identifierLength) = subfields.flatMap lineSubfield := by
      apply flatMap_congr
      intro s inside
      exact writeLineSubfield_eq (subfieldsValid s inside) beyond (few rfl)
    rw [writeLineNode, Node.line, cString_eq_self (tagNoNul isTag), cString_eq_self noNul, each]
    simp only [append_assoc, cons_append]
    rfl

theorem readLines_leader {leader : List UInt8} (record : LineRecord leader fs) (kept : LeaderKept leader fs)
    (next : c ≠ 13 ∧ c ≠ 0 ∧ c ≠ 32) (rounds : Nat) (more : List UInt8) :
    (readLines (rounds + 1) false (leader ++ 10 :: c :: more)).1 = (readLines rounds true (c :: more)).1 ∧
      (readLines (rounds + 1) false (leader ++ 10 :: c :: more)).2.1 = .leader leader :: (readLines rounds true (c :: more)).2.1 := by
  have length := record.length
  have large : intMax = 2 ^ 31 - 1 := rfl
  have lineSome : leader ≠ [] := by
    rintro rfl
    cases length
  have octets : ∀ d ∈ leader, endsLine d = false := by
    intro d inside
    have ends := all_eq_true.mp kept.line d inside
    simp only [Bool.and_eq_true, decide_eq_true_eq] at ends
    exact endsLine_false ⟨(record.octets d inside).1, ends.1, ends.2⟩
  have digits := all_eq_true.mp record.number
  have number : (atoiNCheck (leader.take 5)).isSome = true := by
    have below := digitsValue_lt digits 0
    have five : 10 ^ (leader.take 5).length ≤ 10 ^ 5 := Nat.pow_le_pow_right (by decide) (length_take_le 5 _)
    rw [atoiNCheck_digits digits (by omega)]
    rfl
  have head : ∀ d : UInt8, isDigit d = false → leader.head? ≠ some d := by
    intro d other is
    cases leader with
    | nil => cases is
    | cons e =>
      have digit := digits e (by rw [take_succ_cons]; exact mem_cons_self)
      rw [Option.some.inj is] at digit
      rw [digit] at other
      cases other
  rw [readLines, yazMarcLineGets_line lineSome octets next]
  dsimp only
  rw [if_neg (by omega), if_neg (head 36 rfl), if_neg (head 40 rfl), if_pos ⟨length, number⟩, if_neg Bool.false_ne_true, kept.set]
  exact ⟨rfl, rfl⟩

/-- A record that is written as lines is read again, with its leader and its fields, where its leader is one that is kept, no
line end is in a tag or an indicator and no control field is empty. -/
theorem line_read_again (leader : List UInt8) (fs : List Node) (record : LineRecord leader fs) (kept : LeaderKept leader fs)
    (keeps : ∀ n ∈ fs, n.keepsLine = true) (beyond : List UInt8 → List UInt8) (output : List UInt8)
    (written : writeLine beyond (.leader leader :: fs) = some output) (rest : List UInt8) :
    (readLine (output ++ rest)).1 = 0 ∧ (readLine (output ++ rest)).2.1 = .leader leader :: fs := by
  have noNul : 0 ∉ leader := fun inside => (record.octets 0 inside).1 rfl
  obtain ⟨identifierLength, number, output_eq⟩ : ∃ identifierLength, atoiNCheck ((leader.drop 11).take 1) = some identifierLength ∧
      leader ++ [10] ++ fs.flatMap (writeLineNode beyond identifierLength) ++ [10] = output := by
    simp only [writeLine, findSome?_cons, Option.bind_eq_bind, Option.bind_some, Option.bind_eq_some_iff] at written
    obtain ⟨identifierLength, number, output_eq⟩ := written
    refine ⟨identifierLength, number, ?_⟩
    rw [← Option.some.inj output_eq, flatMap_cons, writeLineNode, cString_eq_self noNul]
    rfl
  have each : fs.flatMap (writeLineNode beyond identifierLength) = fs.flatMap fun n => n.line ++ [10] := by
    apply flatMap_congr
    intro n inside
    apply writeLineNode_eq (record.valid n inside) beyond
    intro isData
    exact kept.code (any_eq_true.mpr ⟨n, inside, isData⟩) identifierLength number
  have stream : output ++ rest = leader ++ 10 :: (fs.flatMap (fun n => n.line ++ [10]) ++ 10 :: rest) := by
    rw [← output_eq, each]
    simp only [append_assoc, cons_append, nil_append]
  obtain ⟨c, more, is, next⟩ := lines_next record.valid keeps rest
  have enough : fs.length < (output ++ rest).length := by
    have least := lines_length fs
    rw [stream, length_append, length_cons, length_append]
    omega
  obtain ⟨header, nodes⟩ := readLines_fields record.valid keeps enough rest
  obtain ⟨first, second⟩ := readLines_leader record kept ⟨next.1, next.2.1, next.2.2⟩ (output ++ rest).length more
  rw [← is, ← stream] at first second
  rw [header] at first
  rw [nodes] at second
  rw [readLine]
  generalize readLines ((output ++ rest).length + 1) false (output ++ rest) = read at first second
  obtain ⟨headerCreated, read, left⟩ := read
  cases first
  exact ⟨rfl, second⟩

def lineLeader : List UInt8 := ascii "00000nam a2200000 a 4500"

theorem lineLeader_read_again :
    ∃ output, writeLine (fun _ => []) [.leader lineLeader, .controlfield (ascii "001") (ascii " 42 "),
        .datafield (ascii "245") (ascii "1 ") [ascii "a  Title ", ascii "b"]] = some output ∧
      (readLine output).2.1 = [.leader lineLeader, .controlfield (ascii "001") (ascii " 42 "),
        .datafield (ascii "245") (ascii "1 ") [ascii "a  Title ", ascii "b"]] := by
  have record : LineRecord lineLeader [.controlfield (ascii "001") (ascii " 42 "),
      .datafield (ascii "245") (ascii "1 ") [ascii "a  Title ", ascii "b"]] := by
    refine ⟨by decide, by decide, by decide, ?_⟩
    intro n inside
    simp only [mem_cons, not_mem_nil, or_false] at inside
    rcases inside with rfl | rfl
    · exact ⟨⟨by decide, by decide, by decide⟩, by decide⟩
    · refine ⟨⟨by decide, by decide, by decide⟩, by decide, by decide, by decide, ?_⟩
      intro s inside
      simp only [mem_cons, not_mem_nil, or_false] at inside
      rcases inside with rfl | rfl
      · exact ⟨97, ascii "  Title ", by decide, by decide, by decide⟩
      · exact ⟨98, [], by decide, by decide, by decide⟩
  have kept : LeaderKept lineLeader [.controlfield (ascii "001") (ascii " 42 "),
      .datafield (ascii "245") (ascii "1 ") [ascii "a  Title ", ascii "b"]] := by
    refine ⟨by decide, by decide, ?_⟩
    intro _ identifierLength is
    have two : atoiNCheck ((lineLeader.drop 11).take 1) = some 2 := by decide
    rw [two] at is
    cases is
    decide
  refine ⟨_, rfl, ?_⟩
  have read := line_read_again _ _ record kept (by decide) (fun _ => []) _ rfl []
  rw [append_nil] at read
  exact read.2

/-- Records that are not read again: the leader is changed, or is two lines, or says that codes have two octets; a tag or an indicator is on
two lines; a control field is empty. -/
def changedRecords : List (List UInt8 × List Node) :=
  [(ascii "00000nam a0200000 a 4500", []),
   (ascii "00000nam a22000\n0 a 4500", []),
   (ascii "00000nam a2300000 a 4500", [.datafield (ascii "245") (ascii "10") [ascii "aTitle"]]),
   (lineLeader, [.controlfield (ascii "00\n") (ascii "42")]),
   (lineLeader, [.datafield (ascii "245") (ascii "1\n") [ascii "aTitle"]]),
   (lineLeader, [.controlfield (ascii "001") []])]

def NotReadAgain (records : List (List UInt8 × List Node)) : Prop :=
  ∀ record ∈ records, LineRecord record.1 record.2 ∧
    ∃ output, writeLine (fun _ => []) (.leader record.1 :: record.2) = some output ∧ (readLine output).2.1 ≠ .leader record.1 :: record.2

theorem changedRecords_not_read_again : NotReadAgain changedRecords := by
  have title : ∀ indicator : List UInt8, indicator.length = 2 → 0 ∉ indicator →
      Node.LineValid (.datafield (ascii "245") indicator [ascii "aTitle"]) := by
    intro indicator two noNul
    refine ⟨⟨by decide, by decide, by decide⟩, two, noNul, by decide, ?_⟩
    intro s inside
    rcases mem_singleton.mp inside with rfl
    exact ⟨97, ascii "Title", by decide, by decide, by decide⟩
  have none : ∀ n ∈ ([] : List Node), n.LineValid := fun n inside => nomatch inside
  have one : ∀ n : Node, n.LineValid → ∀ m ∈ [n], m.LineValid := by
    intro n valid m inside
    rcases mem_singleton.mp inside with rfl
    exact valid
  intro record inside
  simp only [changedRecords, mem_cons, not_mem_nil, or_false] at inside
  rcases inside with rfl | rfl | rfl | rfl | rfl | rfl
  · exact ⟨⟨by decide, by decide, by decide, none⟩, _, rfl, by decide⟩
  · exact ⟨⟨by decide, by decide, by decide, none⟩, _, rfl, by decide⟩
  · exact ⟨⟨by decide, by decide, by decide, one _ (title _ (by decide) (by decide))⟩, _, rfl, by decide⟩
  · exact ⟨⟨by decide, by decide, by decide, one _ ⟨⟨by decide, by decide, by decide⟩, by decide⟩⟩, _, rfl, by decide⟩
  · exact ⟨⟨by decide, by decide, by decide, one _ (title _ (by decide) (by decide))⟩, _, rfl, by decide⟩
  · exact ⟨⟨by decide, by decide, by decide, one _ ⟨⟨by decide, by decide, by decide⟩, by decide⟩⟩, _, rfl, by decide⟩

end Yaz.Marc
