import Yaz.Iconv.Consumption
import Yaz.Marc.Iso2709Writing

/-! A record that is written as ISO 2709 is read again.

The directory is read entry by entry as long as each has 12 octets, and a field that is read there is the one that was written, unless
it is a control field that is taken for a data field.
-/

set_option autoImplicit false

variable {mem rest : List UInt8} {p dataOffset : Nat}

namespace Yaz.Marc
open List
open Yaz.Comstack
open Yaz.Http (cString decimal)
open Yaz.Ber (intMax)

theorem getD_drop {mem octets : List UInt8} {i : Nat} (there : mem.drop i = octets) (j : Nat) : mem.getD (i + j) 0 = octets.getD j 0 := by
  rw [← there, getD_eq_getElem?_getD, getD_eq_getElem?_getD, getElem?_drop]

theorem splitSubfields_data {data : List UInt8} (clean : ∀ c ∈ data, isSeparator c = false ∧ c ≠ ISO2709_IDFS)
    (rest codeData : List UInt8) :
    splitSubfields (data ++ rest) false codeData =
      ((splitSubfields rest false (codeData ++ data)).1, data.length + (splitSubfields rest false (codeData ++ data)).2) := by
  induction data generalizing codeData with
  | nil => simp
  | cons c _ ih =>
    obtain ⟨noSeparator, noIdfs⟩ := clean c mem_cons_self
    have more := ih (fun d inside => clean d (mem_cons_of_mem c inside)) (codeData ++ [c])
    rw [cons_append, splitSubfields, if_neg (by simp [noSeparator]), if_neg (fun both => noIdfs both.1)]
    rw [if_neg Bool.false_ne_true, more]
    simp only [append_assoc, singleton_append, length_cons, Prod.mk.injEq, true_and]
    omega

theorem IsSubfield.clean {s : List UInt8} (is : IsSubfield s) : ∀ c ∈ s, isSeparator c = false ∧ c ≠ ISO2709_IDFS := by
  obtain ⟨code, data, rfl, above, -, clean⟩ := is
  intro c inside
  rcases mem_cons.mp inside with rfl | inside
  · constructor
    · have notRs : c ≠ ISO2709_RS := fun is => absurd (is ▸ above) (by decide)
      have notFs : c ≠ ISO2709_FS := fun is => absurd (is ▸ above) (by decide)
      simp [isSeparator, notRs, notFs]
    · intro is
      exact absurd (is ▸ above) (by decide)
  · exact (isClean_ne (all_eq_true.mp clean c inside)).2

theorem splitSubfields_written {subfields : List (List UInt8)} (valid : ∀ s ∈ subfields, IsSubfield s) (first : Bool)
    (codeData : List UInt8) :
    splitSubfields (subfields.flatMap fun s => ISO2709_IDFS :: s) first codeData =
      (someSubfield codeData ++ subfields, (subfields.flatMap fun s => ISO2709_IDFS :: s).length) := by
  induction subfields generalizing first codeData with
  | nil => simp [splitSubfields]
  | cons s subfields ih =>
    have is := valid s mem_cons_self
    have more := ih (fun t inside => valid t (mem_cons_of_mem s inside)) false s
    have starts : startsCode (s ++ subfields.flatMap fun s => ISO2709_IDFS :: s) = true := by
      obtain ⟨code, data, rfl, above, -, -⟩ := is
      simpa [startsCode] using above
    have octets : someSubfield s = [s] := by
      obtain ⟨code, data, rfl, -, -, -⟩ := is
      rfl
    rw [flatMap_cons, cons_append, splitSubfields, if_neg (by decide), if_pos ⟨rfl, starts⟩,
      splitSubfields_data is.clean, nil_append, more, octets]
    simp only [singleton_append, length_cons, length_append]

theorem endComments_fields (mem : List UInt8) (i endOffset dataLength : Nat) : fields (endComments mem i endOffset dataLength) = [] := by
  rw [endComments]
  split <;> split <;> rfl

/-- A field that is where the directory says is read as it was written, if it is not mistaken. -/
theorem readField_valid {mem following : List UInt8} {i : Nat} {n : Node} (isField : n.isField = true) (valid : n.Valid)
    (there : mem.drop i = n.fieldData ++ following) :
    ∃ m comments, readField mem 2 n.tag i n.fieldData.length = m :: comments ∧ m.isField = true ∧ fields comments = [] ∧
      (m = n ↔ n.mistaken following = false) := by
  cases n with
  | comment => cases isField
  | leader => cases isField
  | datafield tag indicator subfields =>
    obtain ⟨-, tagNoNul, dataTag, two, indicatorAscii, subfieldsValid⟩ := valid
    have indicatorNoNul : 0 ∉ indicator := fun inside => absurd (indicatorAscii 0 inside).1 (by decide)
    have raw : (subfields.flatMap fun s => ISO2709_IDFS :: cString s) = subfields.flatMap fun s => ISO2709_IDFS :: s := by
      apply flatMap_congr
      intro s inside
      rw [cString_eq_self (subfieldsValid s inside).noNul]
    obtain ⟨a, b, rfl⟩ : ∃ a b, indicator = [a, b] := length_eq_two.mp two
    have aLow := (indicatorAscii a (by simp)).2
    have bLow := (indicatorAscii b (by simp)).2
    rw [Node.fieldData, raw, cString_eq_self indicatorNoNul] at there
    rw [Node.tag, Node.fieldData, raw, cString_eq_self indicatorNoNul]
    have whole := splitSubfields_written subfieldsValid true []
    generalize data : (subfields.flatMap fun s => ISO2709_IDFS :: s) = octets at there whole
    have second : mem.drop (i + 1) = b :: (octets ++ [ISO2709_FS] ++ following) := by
      rw [← drop_drop, there]
      rfl
    have third : mem.drop (i + 2) = octets ++ [ISO2709_FS] ++ following := by
      rw [← drop_drop, there]
      rfl
    have next : (indicatorEndWith sizeofPlain mem 2 i ()).1 = i + 2 := by
      simp only [indicatorEndWith, sizeofPlain]
      rw [there]
      rw [show [a, b] ++ octets ++ [ISO2709_FS] ++ following = a :: (b :: octets ++ [ISO2709_FS] ++ following) from rfl,
        cdataOneCharacter_ascii aLow,
        second, cdataOneCharacter_ascii bLow]
    have ind : (mem.drop i).take 2 = [a, b] := by
      rw [there]
      rfl
    have flag : identifierFlag mem 2 tag i = 1 := if_pos dataTag
    have size : i + ([a, b] ++ octets ++ [ISO2709_FS]).length - 1 - (i + 2) = octets.length := by
      simp only [length_append, length_cons, length_nil]
      omega
    have region : (mem.drop (i + 2)).take octets.length = octets := by
      rw [third, append_assoc, take_left]
    have read : readField mem 2 tag i ([a, b] ++ octets ++ [ISO2709_FS]).length =
        .datafield tag [a, b] subfields :: endComments mem (i + 2 + octets.length) (i + ([a, b] ++ octets ++ [ISO2709_FS]).length - 1)
          ([a, b] ++ octets ++ [ISO2709_FS]).length := by
      rw [readField, readFieldWith, flag]
      dsimp only
      rw [if_pos (by decide), Nat.sub_self, Nat.add_zero, next, size, region, whole, Nat.add_sub_cancel_left, ind, cString_eq_self tagNoNul,
        cString_eq_self indicatorNoNul]
      rfl
    exact ⟨_, _, read, rfl, endComments_fields _ _ _ _, ⟨fun _ => rfl, fun _ => rfl⟩⟩
  | controlfield tag data =>
    obtain ⟨-, tagNoNul, controlTag, clean⟩ := valid
    have noNul := clean_noNul clean
    have octet : ∀ j, mem.getD (i + j) 0 = (cString data ++ ISO2709_FS :: following).getD j 0 := by
      intro j
      apply getD_drop
      rw [there, Node.fieldData, append_assoc]
      rfl
    have flags : identifierFlag mem 2 tag i =
        if (cString data ++ ISO2709_FS :: following).getD 2 0 = ISO2709_IDFS then 1
        else if (cString data ++ ISO2709_FS :: following).getD 3 0 = ISO2709_IDFS then 2 else 0 := by
      rw [identifierFlag, if_neg (fun not => not controlTag), if_pos (by decide), octet 2, Nat.add_assoc, octet 3]
    rw [Node.tag]
    cases mistaken : Node.mistaken (.controlfield tag data) following with
    | true =>
      have some : identifierFlag mem 2 tag i ≠ 0 := by
        rw [flags]
        simp only [Node.mistaken, Bool.or_eq_true, decide_eq_true_eq] at mistaken
        rcases mistaken with first | second
        · rw [if_pos first]
          decide
        · rw [if_pos second]
          split <;> decide
      rw [readField, readFieldWith]
      rw [if_pos some]
      exact ⟨_, _, rfl, rfl, endComments_fields _ _ _ _, ⟨fun same => Node.noConfusion same, fun no => Bool.noConfusion no⟩⟩
    | false =>
      have none : identifierFlag mem 2 tag i = 0 := by
        simp only [Node.mistaken, Bool.or_eq_false_iff, decide_eq_false_iff_not] at mistaken
        rw [flags, if_neg mistaken.1, if_neg mistaken.2]
      rw [readField, readFieldWith]
      dsimp only
      rw [if_neg (not_not_intro none)]
      have size : i + (Node.fieldData (.controlfield tag data)).length - 1 - i = data.length := by
        rw [Node.fieldData, cString_eq_self noNul, length_append, length_singleton]
        omega
      have region : (mem.drop i).take data.length = data := by
        rw [there, Node.fieldData, cString_eq_self noNul, append_assoc, take_left]
      have all : (data.takeWhile fun c => !isSeparator c) = data := by
        apply takeWhile_eq_self_iff.mpr
        intro c inside
        rw [(isClean_ne (all_eq_true.mp clean c inside)).2.1]
        rfl
      rw [size, region, all, cString_eq_self noNul, cString_eq_self tagNoNul]
      exact ⟨_, _, rfl, rfl, endComments_fields _ _ _ _, ⟨fun _ => rfl, fun _ => rfl⟩⟩

theorem marcCprintf_fields (text : List UInt8) : fields [marcCprintf text] = [] := rfl

theorem fields_ifComment (p : Prop) [Decidable p] (text : List UInt8) : fields (if p then [marcCprintf text] else []) = [] := by
  split <;> rfl

theorem fields_append (first second : List Node) : fields (first ++ second) = fields first ++ fields second := filter_append ..

theorem scanDirectory_entry {mem tag digits rest : List UInt8} {p : Nat} (there : mem.drop p = tag ++ (digits ++ rest))
    (three : tag.length = 3)
    (noEnd : tag.head? ≠ some ISO2709_FS) (nine : 9 ≤ digits.length) (all : ∀ c ∈ digits, isDigit c = true) (recordLength rounds : Nat) :
    (scanDirectory mem recordLength 4 5 (rounds + 1) p).1 =
      if recordLength ≤ p + 12 then none else (scanDirectory mem recordLength 4 5 rounds (p + 12)).1 := by
  have first : mem.getD p 0 ≠ ISO2709_FS := by
    cases tag with
    | nil => cases three
    | cons =>
      have octet := getD_drop there 0
      rw [Nat.add_zero] at octet
      rw [octet]
      intro is
      exact noEnd (congrArg some is)
  have numbers : ((mem.drop (p + 3)).take (4 + 5)).all isDigit = true := by
    rw [← drop_drop, there, ← three, drop_left, take_append_of_le_length nine]
    apply all_eq_true.mpr
    intro c inside
    exact all c (mem_of_mem_take inside)
  rw [scanDirectory, if_neg first]
  by_cases out : recordLength ≤ p + 12
  · rw [if_pos out, if_pos out]
  · rw [if_neg out, if_neg out, if_pos numbers]

theorem scanDirectory_ge {mem : List UInt8} {recordLength rounds p e : Nat}
    (ends : (scanDirectory mem recordLength 4 5 rounds p).1 = some e) : p ≤ e := by
  induction rounds generalizing p with
  | zero => cases ends
  | succ _ ih =>
    rw [scanDirectory] at ends
    split at ends
    · exact Nat.le_of_eq (Option.some.inj ends)
    · split at ends
      · cases ends
      · split at ends
        · have later := ih ends
          omega
        · exact Nat.le_of_eq (Option.some.inj ends)

theorem scanDirectory_fields (mem : List UInt8) (recordLength rounds p : Nat) :
    fields (scanDirectory mem recordLength 4 5 rounds p).2 = [] := by
  induction rounds generalizing p with
  | zero => rfl
  | succ _ ih =>
    rw [scanDirectory]
    split
    · rfl
    · split
      · exact marcCprintf_fields _
      · split
        · exact ih (p + (3 + 4 + 5))
        · exact marcCprintf_fields _

theorem Node.dirEntry_digits {n : Node} (valid : n.Valid) (isField : n.isField = true) (dataOffset : Nat) (rest : List UInt8) :
    n.dirEntry dataOffset ++ rest = n.tag ++ ((padded 4 n.fieldData.length ++ padded 5 dataOffset) ++ rest) := by
  rw [n.dirEntry_eq valid isField, append_assoc, append_assoc, append_assoc]

theorem Node.dirEntry_allDigits (n : Node) (dataOffset : Nat) :
    ∀ c ∈ padded 4 n.fieldData.length ++ padded 5 dataOffset, isDigit c = true := by
  intro c inside
  rcases mem_append.mp inside with length | start
  · exact padded_digits _ _ c length
  · exact padded_digits _ _ c start

def standardLengths (baseAddress lengthImplementation : Nat) : Lengths :=
  { indicatorLength := 2, identifierLength := 2, baseAddress, lengthDataEntry := 4, lengthStarting := 5, lengthImplementation }

theorem readFields_entry {n : Node} (there : mem.drop p = n.dirEntry dataOffset ++ rest)
    (valid : n.Valid) (isField : n.isField = true) (fits : n.fieldData.length ≤ 9999) (small : dataOffset < 100000)
    {recordLength endOfDirectory : Nat} (inDirectory : p ≠ endOfDirectory) (base impl rounds : Nat)
    (inRecord : dataOffset + base + n.fieldData.length ≤ recordLength) :
    readFields mem recordLength (standardLengths base impl) endOfDirectory (rounds + 1) p =
      readField mem 2 n.tag (dataOffset + base) n.fieldData.length ++
        readFields mem recordLength (standardLengths base impl) endOfDirectory rounds (p + 12) := by
  have three := (valid.tag isField).1
  have four : (padded 4 n.fieldData.length).length = 4 := padded_length (by decide) (by omega)
  have five : (padded 5 dataOffset).length = 5 := padded_length (by decide) small
  have some := n.fieldData_pos isField
  have large : intMax = 2 ^ 31 - 1 := rfl
  have tag : (mem.drop p).take 3 = n.tag := by
    rw [there, n.dirEntry_digits valid isField, ← three, take_left]
  have afterTag : mem.drop (p + 3) = padded 4 n.fieldData.length ++ (padded 5 dataOffset ++ rest) := by
    rw [← drop_drop, there, n.dirEntry_digits valid isField, ← three, drop_left, append_assoc]
  have length : atoiN ((mem.drop (p + 3)).take 4) = n.fieldData.length := by
    rw [afterTag, take_append_of_le_length (by omega), take_of_length_le (by omega)]
    exact atoiN_padded 4 (by omega)
  have afterLength : mem.drop (p + 3 + 4) = padded 5 dataOffset ++ rest := by
    rw [← drop_drop, afterTag]
    nth_rewrite 1 [← four]
    rw [drop_left]
  have start : atoiN ((mem.drop (p + 3 + 4)).take 5) = dataOffset := by
    rw [afterLength, take_append_of_le_length (by omega), take_of_length_le (by omega)]
    exact atoiN_padded 5 (by omega)
  rw [readFields, readFieldsWith, if_neg inDirectory]
  dsimp only [standardLengths]
  rw [tag, length, start, if_neg (by omega), if_neg (by omega)]
  rfl

theorem dirEntry_drop {n : Node} (there : mem.drop p = n.dirEntry dataOffset ++ rest)
    (twelve : (n.dirEntry dataOffset).length = 12) : mem.drop (p + 12) = rest := by
  rw [← drop_drop, there, ← twelve, drop_left]

theorem scanDirectory_aligned {good : List Node} (valid : ∀ n ∈ good, n.Valid) (areFields : ∀ n ∈ good, n.isField = true)
    (fits : ∀ n ∈ good, n.fitsEntry = true) {mem rest : List UInt8} {p dataOffset : Nat}
      (there : mem.drop p = dirOf dataOffset good ++ rest)
    (small : dataOffset + (good.flatMap Node.fieldData).length < 100000) {recordLength : Nat}
      (inRecord : p + 12 * good.length < recordLength)
    (rounds : Nat) :
    (scanDirectory mem recordLength 4 5 (good.length + rounds) p).1 = (scanDirectory mem recordLength 4 5 rounds (p + 12 * good.length)).1 ∧
      mem.drop (p + 12 * good.length) = rest := by
  induction good generalizing p dataOffset with
  | nil =>
    rw [length_nil, Nat.zero_add, Nat.mul_zero, Nat.add_zero]
    exact ⟨rfl, there⟩
  | cons n good ih =>
    have isField := areFields n mem_cons_self
    have isValid := valid n mem_cons_self
    have fitting := fits n mem_cons_self
    simp only [Node.fitsEntry, Bool.and_eq_true, decide_eq_true_eq] at fitting
    rw [flatMap_cons, length_append] at small
    rw [length_cons] at inRecord ⊢
    rw [dirOf, append_assoc] at there
    have twelve := (@Node.dirEntry_length n isValid isField dataOffset (by omega)).1 fitting.1
    have nine : 9 ≤ (padded 4 n.fieldData.length ++ padded 5 dataOffset).length := by
      rw [n.dirEntry_eq isValid isField, append_assoc, length_append, (isValid.tag isField).1] at twelve
      omega
    have next := dirEntry_drop there twelve
    rw [n.dirEntry_digits isValid isField] at there
    have step := scanDirectory_entry there (isValid.tag isField).1 fitting.2 nine (n.dirEntry_allDigits dataOffset) recordLength
      (good.length + rounds)
    rw [if_neg (by omega)] at step
    have later := ih (fun m inside => valid m (mem_cons_of_mem n inside)) (fun m inside => areFields m (mem_cons_of_mem n inside))
      (fun m inside => fits m (mem_cons_of_mem n inside)) next (by omega) (by omega)
    rw [show good.length + 1 + rounds = good.length + rounds + 1 by omega, step,
      show p + 12 * (good.length + 1) = p + 12 + 12 * good.length by omega]
    exact later

theorem readFields_aligned {good : List Node} (valid : ∀ n ∈ good, n.Valid) (areFields : ∀ n ∈ good, n.isField = true)
    (fits : ∀ n ∈ good, n.fitsEntry = true) {mem rest after : List UInt8} {p dataOffset base : Nat}
    (there : mem.drop p = dirOf dataOffset good ++ rest) (dataThere : mem.drop (dataOffset + base) = good.flatMap Node.fieldData ++ after)
    (small : dataOffset + (good.flatMap Node.fieldData).length < 100000) {recordLength endOfDirectory : Nat}
    (inRecord : dataOffset + base + (good.flatMap Node.fieldData).length ≤ recordLength)
      (inDirectory : p + 12 * good.length ≤ endOfDirectory)
    (impl rounds : Nat) :
    ∃ ms, fields (readFields mem recordLength (standardLengths base impl) endOfDirectory (good.length + rounds) p) =
        ms ++ fields (readFields mem recordLength (standardLengths base impl) endOfDirectory rounds (p + 12 * good.length)) ∧
      ms.length = good.length ∧ (ms = good ↔ plain good after = true) := by
  induction good generalizing p dataOffset with
  | nil =>
    refine ⟨[], ?_, rfl, ⟨fun _ => rfl, fun _ => rfl⟩⟩
    rw [length_nil, Nat.zero_add, Nat.mul_zero, Nat.add_zero, nil_append]
  | cons n good ih =>
    have isField := areFields n mem_cons_self
    have isValid := valid n mem_cons_self
    have fitting := fits n mem_cons_self
    simp only [Node.fitsEntry, Bool.and_eq_true, decide_eq_true_eq] at fitting
    rw [flatMap_cons, length_append] at small inRecord
    rw [flatMap_cons, append_assoc] at dataThere
    rw [length_cons] at inDirectory
    rw [dirOf, append_assoc] at there
    have twelve := (@Node.dirEntry_length n isValid isField dataOffset (by omega)).1 fitting.1
    have step := @readFields_entry mem _ p dataOffset n there isValid isField fitting.1 (by omega) recordLength endOfDirectory
      (by omega) base impl
      (good.length + rounds) (by omega)
    obtain ⟨m, comments, read, mField, commentsFields, same⟩ := readField_valid isField isValid dataThere
    have dataNext : mem.drop (dataOffset + n.fieldData.length + base) = good.flatMap Node.fieldData ++ after := by
      rw [show dataOffset + n.fieldData.length + base = dataOffset + base + n.fieldData.length by omega, ← drop_drop, dataThere, drop_left]
    obtain ⟨ms, later, length, all⟩ := ih (fun k inside => valid k (mem_cons_of_mem n inside))
      (fun k inside => areFields k (mem_cons_of_mem n inside)) (fun k inside => fits k (mem_cons_of_mem n inside))
      (dirEntry_drop there twelve) dataNext (by omega) (by omega) (by omega)
    refine ⟨m :: ms, ?_, by rw [length_cons, length_cons, length], ?_⟩
    · rw [length_cons, show good.length + 1 + rounds = good.length + rounds + 1 by omega, step, fields_append, read, fields_field mField,
        commentsFields, later, show p + 12 * (good.length + 1) = p + 12 + 12 * good.length by omega, singleton_append, cons_append]
    · rw [plain, Bool.and_eq_true, Bool.not_eq_true', ← same, ← all]
      constructor
      · intro both
        exact List.cons.inj both
      · intro both
        rw [both.1, both.2]

theorem cString_length_le (octets : List UInt8) : (cString octets).length ≤ octets.length := (takeWhile_sublist _).length_le

theorem someSubfield_length (codeData : List UInt8) :
    ((someSubfield codeData).flatMap fun s => ISO2709_IDFS :: cString s).length ≤ codeData.length + 1 := by
  have short := cString_length_le codeData
  rw [someSubfield]
  split
  · exact Nat.zero_le _
  · rw [flatMap_singleton, length_cons]
    omega

theorem splitSubfields_length (octets : List UInt8) (first : Bool) (codeData : List UInt8) :
    ((splitSubfields octets first codeData).1.flatMap fun s => ISO2709_IDFS :: cString s).length ≤ codeData.length + octets.length + 1 := by
  have short := someSubfield_length codeData
  induction octets generalizing first codeData with
  | nil => exact short
  | cons c _ ih =>
    rw [splitSubfields, length_cons]
    split
    · dsimp only
      omega
    · split
      · have later := ih false [] (someSubfield_length [])
        rw [flatMap_append, length_append]
        rw [length_nil] at later
        omega
      · have later := ih false (if first then codeData else codeData ++ [c]) (someSubfield_length _)
        dsimp only
        have more : (if first = true then codeData else codeData ++ [c]).length ≤ codeData.length + 1 := by
          split
          · omega
          · rw [length_append, length_singleton]
        omega

theorem cdataOneCharacter_le (buf : List UInt8) : cdataOneCharacter buf ≤ 4 := by
  have read := Yaz.Iconv.yazReadUTF8Char_noRead (buf.take 4)
  have four := length_take_le 4 buf
  rw [cdataOneCharacter]
  split <;> omega

theorem readField_length (mem tag : List UInt8) (i dataLength : Nat) :
    ∃ m comments, readField mem 2 tag i dataLength = m :: comments ∧ m.isField = true ∧ m.fieldData.length ≤ dataLength + 10 := by
  rw [readField, readFieldWith]
  split
  · refine ⟨_, _, rfl, rfl, ?_⟩
    have behind : i ≤ i + (identifierFlag mem 2 tag i - 1) := Nat.le_add_right i _
    generalize i + (identifierFlag mem 2 tag i - 1) = start at behind
    have eight : start ≤ (indicatorEndWith sizeofPlain mem 2 start ()).1 ∧ (indicatorEndWith sizeofPlain mem 2 start ()).1 ≤ start + 8 := by
      have first := cdataOneCharacter_le (mem.drop start)
      have second := cdataOneCharacter_le (mem.drop (start + cdataOneCharacter (mem.drop start)))
      simp only [indicatorEndWith, sizeofPlain]
      omega
    generalize (indicatorEndWith sizeofPlain mem 2 start ()).1 = next at eight
    have indicator := cString_length_le ((mem.drop start).take (next - start))
    have indicatorTaken := length_take_le (next - start) (mem.drop start)
    have again := cString_length_le (cString ((mem.drop start).take (next - start)))
    have subfields := splitSubfields_length ((mem.drop next).take (i + dataLength - 1 - next)) true []
    have region := length_take_le (i + dataLength - 1 - next) (mem.drop next)
    rw [length_nil] at subfields
    rw [Node.fieldData, length_append, length_append, length_singleton]
    omega
  · refine ⟨_, _, rfl, rfl, ?_⟩
    have cut := cString_length_le (((mem.drop i).take (i + dataLength - 1 - i)).takeWhile fun c => !isSeparator c)
    have whole := (takeWhile_sublist (fun c => !isSeparator c) (l := (mem.drop i).take (i + dataLength - 1 - i))).length_le
    have region := length_take_le (i + dataLength - 1 - i) (mem.drop i)
    have again := cString_length_le (cString (((mem.drop i).take (i + dataLength - 1 - i)).takeWhile fun c => !isSeparator c))
    rw [Node.fieldData, length_append, length_singleton]
    omega

theorem readFields_long {n : Node} (there : mem.drop p = n.dirEntry dataOffset ++ rest)
    (valid : n.Valid) (isField : n.isField = true) (long : 10000 ≤ n.fieldData.length) (notSo : n.fieldData.length < 100000)
    (recordLength endOfDirectory base impl rounds : Nat) (more : List Node) :
    fields (readFields mem recordLength (standardLengths base impl) endOfDirectory rounds p) ≠ n :: more := by
  have three := (valid.tag isField).1
  have large : intMax = 2 ^ 31 - 1 := rfl
  have four : (padded 4 (n.fieldData.length / 10)).length = 4 := padded_length (by decide) (by omega)
  have exactly : padded 4 (n.fieldData.length / 10) = decimal (n.fieldData.length / 10) := by
    have least : 10 ^ 3 ≤ n.fieldData.length / 10 := by omega
    rw [padded, Nat.sub_eq_zero_of_le (length_le_decimal least)]
    rfl
  -- the last digit of the length is taken for the first of the start
  have length : atoiN ((mem.drop (p + 3)).take 4) = n.fieldData.length / 10 := by
    rw [← drop_drop, there, n.dirEntry_digits valid isField, ← three, drop_left, padded_long (by omega) (by decide), ← exactly,
      append_assoc, append_assoc, take_append_of_le_length (by omega), take_of_length_le (by omega)]
    exact atoiN_padded 4 (by omega)
  cases rounds with
  | zero => rintro ⟨⟩
  | succ =>
    rw [readFields, readFieldsWith]
    dsimp only [standardLengths]
    rw [length]
    split
    · rintro ⟨⟩
    · split
      · rintro ⟨⟩
      · split
        · rintro ⟨⟩
        · obtain ⟨m, comments, read, mField, short⟩ := readField_length mem ((mem.drop p).take 3)
            (atoiN ((mem.drop (p + 3 + 4)).take 5) + base) (n.fieldData.length / 10)
          rw [readField] at read
          rw [fields_append, read, fields_field mField, cons_append]
          intro same
          have is : m = n := (List.cons.inj same).1
          rw [is] at short
          omega

theorem readFields_unfitting {n : Node} (there : mem.drop p = n.dirEntry dataOffset ++ rest)
    (valid : n.Valid) (isField : n.isField = true) (unfit : n.fitsEntry = false) (notSo : n.fieldData.length < 100000)
    {recordLength scanRounds endOfDirectory : Nat} (ends : (scanDirectory mem recordLength 4 5 scanRounds p).1 = some endOfDirectory)
    (base impl rounds : Nat) (more : List Node) :
    fields (readFields mem recordLength (standardLengths base impl) endOfDirectory rounds p) ≠ n :: more := by
  by_cases long : 10000 ≤ n.fieldData.length
  · exact readFields_long there valid isField long notSo recordLength endOfDirectory base impl rounds more
  · -- the tag ends the directory
    have first : n.tag.head? = some ISO2709_FS := by
      simp only [Node.fitsEntry, Bool.and_eq_false_iff, decide_eq_false_iff_not, not_not] at unfit
      rcases unfit with not | is
      · omega
      · exact is
    have separator : mem.getD p 0 = ISO2709_FS := by
      rw [n.dirEntry_digits valid isField] at there
      have octet := getD_drop there 0
      rw [Nat.add_zero] at octet
      rw [octet]
      cases tag : n.tag with
      | nil =>
        rw [tag] at first
        cases first
      | cons =>
        rw [tag] at first
        exact Option.some.inj first
    cases scanRounds with
    | zero => cases ends
    | succ =>
      rw [scanDirectory, if_pos separator] at ends
      cases rounds with
      | zero => exact fun same => nomatch same
      | succ =>
        rw [readFields, readFieldsWith, if_pos (Option.some.inj ends)]
        exact fun same => nomatch same

theorem slice_set {leader : List UInt8} {offset size k : Nat} (c : UInt8) (other : k < offset ∨ offset + size ≤ k) :
    ((leader.set k c).drop offset).take size = (leader.drop offset).take size := by
  rcases other with before | behind
  · rw [drop_set_of_lt before]
  · rw [drop_set, if_neg (by omega), take_set_of_le (by omega)]

theorem LeaderCheck.ascii_slice (check : LeaderCheck) {offset size k : Nat} (c : UInt8) (other : k < offset ∨ offset + size ≤ k) :
    ((check.ascii k c).leader.drop offset).take size = (check.leader.drop offset).take size := by
  rw [LeaderCheck.ascii]
  split
  · exact slice_set c other
  · rfl

theorem LeaderCheck.ascii_fields (check : LeaderCheck) (k : Nat) (c : UInt8) :
    fields (check.ascii k c).comments = fields check.comments := by
  rw [LeaderCheck.ascii]
  split
  · dsimp only
    rw [fields_append, marcCprintf_fields, append_nil]
  · rfl

theorem LeaderCheck.number_eq (check : LeaderCheck) {offset size least value : Nat} (assumed : Nat) (digit : Option UInt8) (text : String)
    (is : atoiNCheck ((check.leader.drop offset).take size) = some value) (enough : least ≤ value) :
    check.number offset size least assumed digit text = (value, check) := by
  rw [LeaderCheck.number, is]
  exact if_pos enough

theorem LeaderCheck.number_fields (check : LeaderCheck) (offset size least assumed : Nat) (digit : Option UInt8) (text : String) :
    fields (check.number offset size least assumed digit text).2.comments = fields check.comments := by
  have bad : fields (check.comments ++ [marcCprintf (Comstack.ascii text)]) = fields check.comments := by
    rw [fields_append, marcCprintf_fields, append_nil]
  rw [LeaderCheck.number]
  split
  · split
    · rfl
    · exact bad
  · exact bad

/-- The leader is read as it was meant. -/
theorem setLeader_standard {leaderC : List UInt8} {baseAddress : Nat} (indicators : (leaderC.drop 10).take 1 = [50])
    (identifiers : (leaderC.drop 11).take 1 = [50]) (base : atoiNCheck ((leaderC.drop 12).take 5) = some baseAddress)
    (entries : (leaderC.drop 20).take 1 = [52]) (starts : (leaderC.drop 21).take 1 = [53]) :
    (∃ impl, (setLeader leaderC).1 = standardLengths baseAddress impl) ∧ fields (setLeader leaderC).2 = [] := by
  have slice : ∀ offset size, offset + size ≤ 24 → ((leaderC.take 24).drop offset).take size = (leaderC.drop offset).take size := by
    intro offset size inside
    rw [drop_take, take_take, Nat.min_eq_left (by omega)]
  generalize first : ((((({ leader := leaderC.take 24 } : LeaderCheck).ascii 5 97).ascii 6 97).ascii 7 97).ascii 8 35).ascii 9 35 = check
  have same : ∀ offset size, 9 < offset → offset + size ≤ 24 → (check.leader.drop offset).take size = (leaderC.drop offset).take size := by
    intro offset size behind inside
    rw [← first]
    iterate 5 rw [LeaderCheck.ascii_slice _ _ (by omega)]
    exact slice offset size inside
  have checkFields : fields check.comments = [] := by
    rw [← first]
    iterate 5 rw [LeaderCheck.ascii_fields]
    rfl
  have two : ∀ offset text, (leaderC.drop offset).take 1 = [50] → 9 < offset → offset + 1 ≤ 24 →
      check.number offset 1 1 2 (some 50) text = (2, check) := by
    intro offset text is behind inside
    apply LeaderCheck.number_eq
    · rw [same offset 1 behind inside, is]
      rfl
    · decide
  have address : ∀ text, check.number 12 5 0 0 none text = (baseAddress, check) := by
    intro text
    apply LeaderCheck.number_eq
    · rw [same 12 5 (by decide) (by decide), base]
    · exact Nat.zero_le _
  generalize second : ((check.ascii 17 35).ascii 18 35).ascii 19 35 = later
  have sameLater : ∀ offset size, 19 < offset → offset + size ≤ 24 →
    (later.leader.drop offset).take size = (leaderC.drop offset).take size := by
    intro offset size behind inside
    rw [← second]
    iterate 3 rw [LeaderCheck.ascii_slice _ _ (by omega)]
    exact same offset size (by omega) inside
  have laterFields : fields later.comments = [] := by
    rw [← second]
    iterate 3 rw [LeaderCheck.ascii_fields]
    exact checkFields
  have dataEntry : ∀ text, later.number 20 1 3 4 (some 52) text = (4, later) := by
    intro text
    apply LeaderCheck.number_eq
    · rw [sameLater 20 1 (by decide) (by decide), entries]
      rfl
    · decide
  have starting : ∀ text, later.number 21 1 4 5 (some 53) text = (5, later) := by
    intro text
    apply LeaderCheck.number_eq
    · rw [sameLater 21 1 (by decide) (by decide), starts]
      rfl
    · decide
  rw [setLeader]
  dsimp only
  rw [first, two 10 _ indicators (by decide) (by decide)]
  rw [two 11 _ identifiers (by decide) (by decide)]
  rw [address]
  rw [second, dataEntry]
  rw [starting]
  constructor
  · exact ⟨_, rfl⟩
  · rw [fields_append, LeaderCheck.ascii_fields, LeaderCheck.number_fields, laterFields]
    rfl

/-! ### The whole record -/

/-- The parts of a record that is written: a leader, the directory and the data of these fields. -/
structure Layout (fs : List Node) (output : List UInt8) where
  head : List UInt8
  output_eq : output = head ++ (dirOf 0 fs ++ ISO2709_FS :: (fs.flatMap Node.fieldData ++ [ISO2709_RS]))
  length : head.length = 24
  recordLength : head.take 5 = padded 5 output.length
  indicators : (head.drop 10).take 1 = [50]
  identifiers : (head.drop 11).take 1 = [50]
  base : (head.drop 12).take 5 = padded 5 (25 + (dirOf 0 fs).length)
  entries : (head.drop 20).take 1 = [52]
  starts : (head.drop 21).take 1 = [53]
  small : (dirOf 0 fs).length + 27 + (fs.flatMap Node.fieldData).length ≤ 99999
  valid : ∀ n ∈ fs, n.Valid
  areFields : ∀ n ∈ fs, n.isField = true

theorem slice_append {first second : List UInt8} (offset size : Nat) (inside : offset + size ≤ first.length) :
    ((first ++ second).drop offset).take size = (first.drop offset).take size := by
  rw [drop_append_of_le_length (by omega), take_append_of_le_length (by rw [length_drop]; omega)]

theorem slice_behind {first second : List UInt8} (offset size : Nat) (behind : first.length ≤ offset) :
    ((first ++ second).drop offset).take size = (second.drop (offset - first.length)).take size := by
  rw [drop_append, drop_eq_nil_of_le behind, nil_append]

theorem slice_slice {octets : List UInt8} (start room offset size : Nat) (inside : offset + size ≤ room) :
    ((((octets.drop start).take room).drop offset).take size) = (octets.drop (start + offset)).take size := by
  rw [drop_take, take_take, Nat.min_eq_left (by omega), drop_drop]

theorem leaderPart_length {leader : List UInt8} (length : leader.length = 24) {start : Nat} (inside : start ≤ 17) :
    ((leader.drop start).take 7).length = 7 := by
  rw [List.length_take, length_drop, length]
  omega

theorem newLeader_slices {total base leader : List UInt8} (five : total.length = 5) (five' : base.length = 5)
    (length : leader.length = 24) :
    let head := total ++ (leader.drop 5).take 7 ++ base ++ (leader.drop 17).take 7
    head.length = 24 ∧ head.take 5 = total ∧ (head.drop 12).take 5 = base ∧
      (∀ offset, 5 ≤ offset → offset < 12 → (head.drop offset).take 1 = (leader.drop offset).take 1) ∧
      ∀ offset, 17 ≤ offset → offset < 24 → (head.drop offset).take 1 = (leader.drop offset).take 1 := by
  have seven := leaderPart_length length (show 5 ≤ 17 by decide)
  have seven' := leaderPart_length length (Nat.le_refl 17)
  have twelve : (total ++ (leader.drop 5).take 7).length = 12 := by rw [length_append, five, seven]
  have seventeen : (total ++ (leader.drop 5).take 7 ++ base).length = 17 := by rw [length_append, twelve, five']
  refine ⟨?_, ?_, ?_, ?_, ?_⟩
  · rw [length_append, seventeen, seven']
  · rw [append_assoc, append_assoc, ← five, take_left]
  · rw [slice_append 12 5 (by omega), slice_behind 12 5 (by omega), twelve, drop_zero, take_of_length_le (by omega)]
  · intro offset above below
    rw [slice_append offset 1 (by omega), slice_append offset 1 (by omega), slice_behind offset 1 (by omega), five,
      slice_slice 5 7 (offset - 5) 1 (by omega), show 5 + (offset - 5) = offset by omega]
  · intro offset above below
    rw [slice_behind offset 1 (by omega), seventeen, slice_slice 17 7 (offset - 17) 1 (by omega), show 17 + (offset - 17) = offset by omega]

variable {output : List UInt8}

/-- What is written has these parts, with the fields for which there was room. -/
theorem writeIso2709_layout {nodes : List Node} (valid : ValidRecord nodes) (written : writeIso2709 nodes = some output) :
    Nonempty (Layout (fields (writeDirectory 4 5 nodes [] 0).nodes) output) := by
  obtain ⟨leader, last, is⟩ := valid.leader
  obtain ⟨dirIs, offsetIs, front⟩ := writeDirectory_spec nodes [] 0
  have bound := writeDirectory_bound nodes valid.nodes [] 0
  generalize w : writeDirectory 4 5 nodes [] 0 = directory at dirIs offsetIs front bound ⊢
  rw [nil_append] at dirIs
  rw [Nat.zero_add] at offsetIs
  have small : (dirOf 0 (fields directory.nodes)).length + 27 + ((fields directory.nodes).flatMap Node.fieldData).length ≤ 99999 := by
    by_cases none : fields directory.nodes = []
    · rw [none]
      decide
    · have room := (bound none).1
      rw [dirIs, offsetIs] at room
      exact room
  have total : (padded 5 (26 + (dirOf 0 (fields directory.nodes)).length +
    ((fields directory.nodes).flatMap Node.fieldData).length)).length = 5 :=
    padded_length (by decide) (by omega)
  have base : (padded 5 (25 + (dirOf 0 (fields directory.nodes)).length)).length = 5 := padded_length (by decide) (by omega)
  obtain ⟨length, recordLength, address, early, late⟩ := newLeader_slices total base is.length
  simp only [writeIso2709, last, Option.bind_eq_bind, Option.bind_some, is.indicatorLength, is.identifierLength, is.lengthDataEntry,
    is.lengthStarting, show atoiNCheck [50] = some 2 from rfl, show atoiNCheck [52] = some 4 from rfl,
      show atoiNCheck [53] = some 5 from rfl,
    w, dirIs, offsetIs, fields_data directory.nodes, Option.bind_eq_some_iff, length_append, length_singleton] at written
  obtain ⟨-, -, written⟩ := written
  have output_eq := Option.some.inj written
  rw [show 24 + ((dirOf 0 (fields directory.nodes)).length + 1) + ((fields directory.nodes).flatMap Node.fieldData).length + 1 =
      26 + (dirOf 0 (fields directory.nodes)).length + ((fields directory.nodes).flatMap Node.fieldData).length by omega,
    show 24 + ((dirOf 0 (fields directory.nodes)).length + 1) = 25 + (dirOf 0 (fields directory.nodes)).length by omega,
    take_of_length_le (Nat.le_of_eq length)] at output_eq
  generalize padded 5 (26 + (dirOf 0 (fields directory.nodes)).length + ((fields directory.nodes).flatMap Node.fieldData).length) ++
      (leader.drop 5).take 7 ++ padded 5 (25 + (dirOf 0 (fields directory.nodes)).length) ++ (leader.drop 17).take 7 = head
    at length recordLength address early late output_eq
  rw [append_assoc, append_assoc, append_assoc, singleton_append] at output_eq
  have outputLength : output.length =
      26 + (dirOf 0 (fields directory.nodes)).length + ((fields directory.nodes).flatMap Node.fieldData).length := by
    rw [← output_eq, length_append, length, length_append, length_cons, length_append, length_singleton]
    omega
  constructor
  exact {
    head := head
    output_eq := output_eq.symm
    length := length
    recordLength := by rw [recordLength, outputLength]
    indicators := by rw [early 10 (by decide) (by decide), is.indicatorLength]
    identifiers := by rw [early 11 (by decide) (by decide), is.identifierLength]
    base := address
    entries := by rw [late 20 (by decide) (by decide), is.lengthDataEntry]
    starts := by rw [late 21 (by decide) (by decide), is.lengthStarting]
    small := small
    valid := fun n inside => valid.nodes n (front.subset (mem_of_mem_filter inside))
    areFields := fun n inside => (mem_filter.mp inside).2 }

theorem dirOf_append (good more : List Node) (dataOffset : Nat) :
    dirOf dataOffset (good ++ more) = dirOf dataOffset good ++ dirOf (dataOffset + (good.flatMap Node.fieldData).length) more := by
  induction good generalizing dataOffset with
  | nil => rfl
  | cons _ _ ih =>
    rw [cons_append, dirOf, dirOf, ih, flatMap_cons, length_append, append_assoc, Nat.add_assoc]

theorem dirOf_length {good : List Node} (valid : ∀ n ∈ good, n.Valid) (areFields : ∀ n ∈ good, n.isField = true)
    (fits : ∀ n ∈ good, n.fitsEntry = true) {dataOffset : Nat} (small : dataOffset + (good.flatMap Node.fieldData).length < 100000) :
    (dirOf dataOffset good).length = 12 * good.length := by
  induction good generalizing dataOffset with
  | nil => rfl
  | cons n _ ih =>
    have fitting := fits n mem_cons_self
    simp only [Node.fitsEntry, Bool.and_eq_true, decide_eq_true_eq] at fitting
    rw [flatMap_cons, length_append] at small
    have twelve := (@Node.dirEntry_length n (valid n mem_cons_self) (areFields n mem_cons_self) dataOffset (by omega)).1 fitting.1
    rw [dirOf, length_append, twelve, length_cons]
    rw [ih (fun m inside => valid m (mem_cons_of_mem n inside)) (fun m inside => areFields m (mem_cons_of_mem n inside))
      (fun m inside => fits m (mem_cons_of_mem n inside)) (by omega)]
    omega

def readDirectory (mem : List UInt8) (recordLength baseAddress impl : Nat) : Option (List Node) :=
  match (scanDirectory mem recordLength 4 5 recordLength 24).1 with
  | none => none
  | some endOfDirectory => some (fields (readFields mem recordLength (standardLengths baseAddress impl) endOfDirectory endOfDirectory 24))

variable {fs : List Node}

theorem Layout.outputLength (layout : Layout fs output) :
    output.length = 26 + (dirOf 0 fs).length + (fs.flatMap Node.fieldData).length := by
  rw [layout.output_eq, length_append, layout.length, length_append, length_cons, length_append, length_singleton]
  omega

theorem readIso2709_layout (layout : Layout fs output) (behind : List UInt8) {bsize : Int}
    (held : bsize = -1 ∨ (output.length : Int) ≤ bsize) :
    ∃ impl, (readIso2709 (output ++ behind) bsize).1 =
        (if (readDirectory (output ++ behind) output.length (25 + (dirOf 0 fs).length) impl).isSome then (output.length : Int) else -1) ∧
      ∀ ms, readDirectory (output ++ behind) output.length (25 + (dirOf 0 fs).length) impl = some ms →
        fields (readIso2709 (output ++ behind) bsize).2 = ms := by
  have long := layout.outputLength
  have small := layout.small
  have large : intMax = 2 ^ 31 - 1 := rfl
  have slice : ∀ offset size, offset + size ≤ 24 → ((output ++ behind).drop offset).take size = (layout.head.drop offset).take size := by
    intro offset size inside
    have whole := (congrArg (· ++ behind) layout.output_eq).trans (append_assoc ..)
    rw [whole, slice_append offset size (by rw [layout.length]; exact inside)]
  have recordLength : atoiNCheck ((output ++ behind).take 5) = some output.length := by
    have first := slice 0 5 (by decide)
    rw [drop_zero, drop_zero] at first
    rw [first, layout.recordLength]
    exact atoiNCheck_padded 5 (by omega)
  have base : atoiNCheck (((output ++ behind).drop 12).take 5) = some (25 + (dirOf 0 fs).length) := by
    rw [slice 12 5 (by decide), layout.base]
    exact atoiNCheck_padded 5 (by omega)
  obtain ⟨⟨impl, lengths⟩, leaderFields⟩ := setLeader_standard (by rw [slice 10 1 (by decide), layout.indicators])
    (by rw [slice 11 1 (by decide), layout.identifiers]) base (by rw [slice 20 1 (by decide), layout.entries])
    (by rw [slice 21 1 (by decide), layout.starts])
  have enough : ¬ (bsize ≠ -1 ∧ bsize < output.length) := by
    intro both
    rcases held with unknown | known
    · exact both.1 unknown
    · omega
  have scanned := scanDirectory_fields (output ++ behind) output.length output.length 24
  refine ⟨impl, ?_⟩
  rw [readIso2709, readIso2709With, recordLength]
  dsimp only
  rw [if_neg (by omega), if_neg enough, lengths, readDirectory]
  rw [show (standardLengths (25 + (dirOf 0 fs).length) impl).lengthDataEntry = 4 from rfl,
    show (standardLengths (25 + (dirOf 0 fs).length) impl).lengthStarting = 5 from rfl]
  generalize scanDirectory (output ++ behind) output.length 4 5 output.length 24 = scan at scanned
  rcases scan with ⟨_ | endOfDirectory, comments⟩
  · exact ⟨rfl, fun ms is => nomatch is⟩
  · refine ⟨rfl, ?_⟩
    intro ms is
    rw [fields_append, fields_append, fields_append, leaderFields, scanned, fields_ifComment, nil_append, nil_append, nil_append]
    exact Option.some.inj is

theorem Layout.places (layout : Layout fs output) (behind : List UInt8) :
    (output ++ behind).drop 24 = dirOf 0 fs ++ ISO2709_FS :: (fs.flatMap Node.fieldData ++ ISO2709_RS :: behind) ∧
      (output ++ behind).drop (0 + (25 + (dirOf 0 fs).length)) = fs.flatMap Node.fieldData ++ ISO2709_RS :: behind := by
  have directory : (output ++ behind).drop 24 = dirOf 0 fs ++ ISO2709_FS :: (fs.flatMap Node.fieldData ++ ISO2709_RS :: behind) := by
    have whole := (congrArg (· ++ behind) layout.output_eq).trans (append_assoc ..)
    rw [whole, ← layout.length, drop_left, append_assoc, cons_append, append_assoc]
    rfl
  constructor
  · exact directory
  · rw [show 0 + (25 + (dirOf 0 fs).length) = 24 + ((dirOf 0 fs).length + 1) by omega, ← drop_drop, directory, ← drop_drop, drop_left,
      drop_one, tail_cons]

theorem readDirectory_fits (layout : Layout fs output) (fits : ∀ n ∈ fs, n.fitsEntry = true)
    (behind : List UInt8) (impl : Nat) :
    ∃ ms, readDirectory (output ++ behind) output.length (25 + (dirOf 0 fs).length) impl = some ms ∧ ms.length = fs.length ∧
      (ms = fs ↔ plain fs (ISO2709_RS :: behind) = true) := by
  have long := layout.outputLength
  have small := layout.small
  obtain ⟨directory, data⟩ := layout.places behind
  have twelve := @dirOf_length fs layout.valid layout.areFields fits 0 (by omega)
  have scan := @scanDirectory_aligned fs layout.valid layout.areFields fits _ _ 24 0 directory (by omega) output.length (by omega)
    (output.length - fs.length - 1 + 1)
  obtain ⟨scanned, there⟩ := scan
  have separator : (output ++ behind).getD (24 + 12 * fs.length) 0 = ISO2709_FS := by
    have octet := getD_drop there 0
    rw [Nat.add_zero] at octet
    rw [octet]
    rfl
  have ends : (scanDirectory (output ++ behind) output.length 4 5 output.length 24).1 = some (24 + 12 * fs.length) := by
    rw [show fs.length + (output.length - fs.length - 1 + 1) = output.length by omega] at scanned
    rw [scanned, scanDirectory, if_pos separator]
  obtain ⟨ms, read, length, same⟩ :=
    @readFields_aligned fs layout.valid layout.areFields fits _ _ _ 24 0 _ directory data (by omega) output.length
    (24 + 12 * fs.length) (by omega) (Nat.le_refl _) impl (23 + 11 * fs.length + 1)
  refine ⟨ms, ?_, length, same⟩
  rw [readDirectory, ends]
  dsimp only
  rw [show fs.length + (23 + 11 * fs.length + 1) = 24 + 12 * fs.length by omega] at read
  rw [read, readFields, readFieldsWith, if_pos rfl]
  exact congrArg some (append_nil ms)

theorem readDirectory_unfitting {good more : List Node} {n : Node} (layout : Layout (good ++ n :: more) output)
    (fits : ∀ m ∈ good, m.fitsEntry = true) (unfit : n.fitsEntry = false) (behind : List UInt8) (impl : Nat) (rest : List Node) :
    readDirectory (output ++ behind) output.length (25 + (dirOf 0 (good ++ n :: more)).length) impl ≠ some (good ++ n :: rest) := by
  have long := layout.outputLength
  have small := layout.small
  obtain ⟨directory, data⟩ := layout.places behind
  have valid : ∀ m ∈ good, m.Valid := fun m inside => layout.valid m (mem_append_left _ inside)
  have areFields : ∀ m ∈ good, m.isField = true := fun m inside => layout.areFields m (mem_append_left _ inside)
  have nValid := layout.valid n (mem_append_right _ mem_cons_self)
  have nField := layout.areFields n (mem_append_right _ mem_cons_self)
  rw [dirOf_append, append_assoc, flatMap_append, append_assoc] at directory
  rw [flatMap_append, append_assoc] at data
  rw [flatMap_append, length_append, flatMap_cons, length_append] at small long
  have twelve := @dirOf_length good valid areFields fits 0 (by omega)
  have dirLong : 12 * good.length ≤ (dirOf 0 (good ++ n :: more)).length := by
    rw [dirOf_append, length_append, twelve]
    omega
  obtain ⟨scanned, there⟩ := @scanDirectory_aligned good valid areFields fits _ _ 24 0 directory (by omega) output.length (by omega)
    (output.length - good.length)
  rw [show good.length + (output.length - good.length) = output.length by omega] at scanned
  rw [readDirectory]
  cases ends : (scanDirectory (output ++ behind) output.length 4 5 output.length 24).1 with
  | none => exact fun same => nomatch same
  | some endOfDirectory =>
    rw [ends] at scanned
    have later := scanDirectory_ge scanned.symm
    obtain ⟨ms, read, length, -⟩ :=
      @readFields_aligned good valid areFields fits _ _ _ 24 0 _ directory data (by omega) output.length endOfDirectory
      (by omega) later impl (endOfDirectory - good.length)
    rw [show good.length + (endOfDirectory - good.length) = endOfDirectory by omega] at read
    dsimp only
    rw [read]
    intro same
    have parts := append_inj (Option.some.inj same) length
    rw [dirOf, append_assoc] at there
    exact readFields_unfitting there nValid nField unfit (by omega) scanned.symm _ impl _ rest parts.2

theorem first_unfitting (unfit : ¬ ∀ n ∈ fs, n.fitsEntry = true) :
    ∃ good n more, fs = good ++ n :: more ∧ (∀ m ∈ good, m.fitsEntry = true) ∧ n.fitsEntry = false := by
  induction fs with
  | nil => exact absurd (fun n inside => nomatch inside) unfit
  | cons n fs ih =>
    cases fit : n.fitsEntry with
    | false => exact ⟨[], n, fs, rfl, forall_mem_nil _, fit⟩
    | true =>
      have later : ¬ ∀ m ∈ fs, m.fitsEntry = true := by
        intro all
        apply unfit
        intro m inside
        rcases mem_cons.mp inside with rfl | inside
        · exact fit
        · exact all m inside
      obtain ⟨good, m, more, rfl, fits, mUnfit⟩ := ih later
      refine ⟨n :: good, m, more, rfl, ?_, mUnfit⟩
      intro k inside
      rcases mem_cons.mp inside with rfl | inside
      · exact fit
      · exact fits k inside

/-- A record is read from memory that has `behind` after it: all octets, and the same fields. -/
def ReadAgain (nodes : List Node) (output behind : List UInt8) (bsize : Int) : Prop :=
  (readIso2709 (output ++ behind) bsize).1 = output.length ∧ fields (readIso2709 (output ++ behind) bsize).2 = fields nodes

theorem fitsEntry_length (fits : ∀ n ∈ fs, n.fitsEntry = true) : ∀ n ∈ fs, n.fieldData.length ≤ 9999 := by
  intro n inside
  have fitting := fits n inside
  simp only [Node.fitsEntry, Bool.and_eq_true, decide_eq_true_eq] at fitting
  exact fitting.1

theorem ReadAgain.fits {nodes : List Node} (valid : ValidRecord nodes) (written : writeIso2709 nodes = some output)
    {behind : List UInt8} {bsize : Int} (held : bsize = -1 ∨ (output.length : Int) ≤ bsize) (again : ReadAgain nodes output behind bsize) :
    (∀ n ∈ fields nodes, n.fitsEntry = true) ∧ (fields nodes ≠ [] → encodedLength nodes ≤ 99997) ∧
      plain (fields nodes) (ISO2709_RS :: behind) = true := by
  obtain ⟨layout⟩ := writeIso2709_layout valid written
  obtain ⟨impl, returned, read⟩ := readIso2709_layout layout behind held
  obtain ⟨dirIs, offsetIs, front⟩ := writeDirectory_spec nodes [] 0
  have bound := writeDirectory_bound nodes valid.nodes [] 0
  dsimp only at dirIs offsetIs front bound
  obtain ⟨whole, again⟩ := again
  obtain ⟨tail, all⟩ : fields (writeDirectory 4 5 nodes [] 0).nodes <+: fields nodes := front.filter _
  rw [whole] at returned
  cases directory : readDirectory (output ++ behind) output.length
      (25 + (dirOf 0 (fields (writeDirectory 4 5 nodes [] 0).nodes)).length) impl with
  | none =>
    rw [directory] at returned
    exact absurd returned (by simp)
  | some ms =>
    rw [read ms directory] at again
    by_cases fits : ∀ n ∈ fields (writeDirectory 4 5 nodes [] 0).nodes, n.fitsEntry = true
    · obtain ⟨ms', directory', length, same⟩ := readDirectory_fits layout fits behind impl
      rw [directory] at directory'
      cases Option.some.inj directory'
      -- as many fields are read as are written
      have noTail : tail = [] := by
        rw [again, ← all, length_append] at length
        exact eq_nil_of_length_eq_zero (by omega)
      rw [noTail, append_nil] at all
      rw [all] at fits same bound dirIs offsetIs
      refine ⟨fits, ?_, same.mp again⟩
      intro some
      obtain ⟨below, twelve⟩ := (bound some).2 (fitsEntry_length fits)
      rw [encodedLength]
      omega
    · obtain ⟨good, n, more, parts, goodFits, unfit⟩ := first_unfitting fits
      rw [parts] at layout directory all
      rw [again, ← all, append_assoc, cons_append] at directory
      exact absurd directory (readDirectory_unfitting layout goodFits unfit behind impl (more ++ tail))

theorem readAgain_of_fits {nodes : List Node} (valid : ValidRecord nodes) (written : writeIso2709 nodes = some output)
    {behind : List UInt8} {bsize : Int} (held : bsize = -1 ∨ (output.length : Int) ≤ bsize)
    (fits : ∀ n ∈ fields nodes, n.fitsEntry = true) (enough : fields nodes ≠ [] → encodedLength nodes ≤ 99997)
    (isPlain : plain (fields nodes) (ISO2709_RS :: behind) = true) : ReadAgain nodes output behind bsize := by
  obtain ⟨layout⟩ := writeIso2709_layout valid written
  obtain ⟨impl, returned, read⟩ := readIso2709_layout layout behind held
  have all : (writeDirectory 4 5 nodes [] 0).nodes = nodes := by
    apply writeDirectory_room nodes valid.nodes (fitsEntry_length fits)
    intro some
    have few := enough some
    rw [encodedLength] at few
    rw [length_nil]
    omega
  rw [all] at layout returned read
  obtain ⟨ms, directory, -, same⟩ := readDirectory_fits layout fits behind impl
  rw [directory] at returned
  exact ⟨returned, (read ms directory).trans (same.mpr isPlain)⟩

/-- A record that is written as ISO 2709 is read again exactly where each field has at most 9999 octets with its separator and a tag that
does not end the directory, the record has at most 99997 octets if it has fields, and no control field is so short that a separator
behind it makes it a data field. -/
theorem iso2709_read_again (nodes : List Node) (valid : ValidRecord nodes) (output : List UInt8)
    (written : writeIso2709 nodes = some output)
    (behind : List UInt8) (bsize : Int) (held : bsize = -1 ∨ (output.length : Int) ≤ bsize) :
    ReadAgain nodes output behind bsize ↔
      (∀ n ∈ fields nodes, n.fitsEntry = true) ∧ (fields nodes ≠ [] → encodedLength nodes ≤ 99997) ∧
        plain (fields nodes) (ISO2709_RS :: behind) = true := by
  constructor
  · exact ReadAgain.fits valid written held
  · intro ⟨fits, enough, isPlain⟩
    exact readAgain_of_fits valid written held fits enough isPlain

def bookLeader : Node := .leader (ascii "00000nam a2200000 a 4500")

theorem bookLeader_valid : ValidLeader (ascii "00000nam a2200000 a 4500") := by constructor <;> decide

def titleRecord : List Node :=
  [bookLeader, .controlfield (ascii "001") (ascii "42"), .datafield (ascii "245") (ascii "10") [ascii "aMARC"]]

theorem titleRecord_read_again : ∃ output, writeIso2709 titleRecord = some output ∧ ReadAgain titleRecord output [0] (-1) := by
  have valid : ValidRecord titleRecord := by
    refine ⟨⟨_, rfl, bookLeader_valid⟩, ?_⟩
    intro n inside
    simp only [titleRecord, mem_cons, not_mem_nil, or_false] at inside
    rcases inside with rfl | rfl | rfl
    · exact True.intro
    · exact ⟨by decide, by decide, by decide, by decide⟩
    · refine ⟨by decide, by decide, by decide, by decide, by decide, ?_⟩
      intro s inside
      rcases mem_singleton.mp inside with rfl
      exact ⟨97, ascii "MARC", by decide, by decide, by decide, by decide⟩
  have some : (writeIso2709 titleRecord).isSome = true := by decide
  obtain ⟨output, written⟩ := Option.isSome_iff_exists.mp some
  refine ⟨output, written, (iso2709_read_again titleRecord valid output written [0] (-1) (Or.inl rfl)).mpr ⟨?_, ?_, ?_⟩⟩
  · decide
  · decide
  · decide

def longRecord : List Node := [bookLeader, .controlfield (ascii "001") (List.replicate 9999 120)]

theorem longRecord_not_read_again :
    ValidRecord longRecord ∧ encodedLength longRecord ≤ 99999 ∧
      ∃ output, writeIso2709 longRecord = some output ∧ ¬ ReadAgain longRecord output [0] output.length := by
  have clean : (List.replicate 9999 (120 : UInt8)).all isClean = true := by
    apply all_eq_true.mpr
    intro c inside
    rw [eq_of_mem_replicate inside]
    rfl
  have valid : ValidRecord longRecord := by
    refine ⟨⟨_, rfl, bookLeader_valid⟩, ?_⟩
    intro n inside
    simp only [longRecord, mem_cons, not_mem_nil, or_false] at inside
    rcases inside with rfl | rfl
    · exact True.intro
    · exact ⟨by decide, by decide, by decide, clean⟩
  have length : (Node.fieldData (.controlfield (ascii "001") (List.replicate 9999 120))).length = 10000 := by
    rw [Node.fieldData, cString_eq_self (clean_noNul clean), length_append, length_replicate]
    rfl
  have encoded : encodedLength longRecord = 10038 := by
    rw [encodedLength, show fields longRecord = [.controlfield (ascii "001") (List.replicate 9999 120)] from rfl, flatMap_singleton, length]
    rfl
  obtain ⟨output, written⟩ : ∃ output, writeIso2709 longRecord = some output := ⟨_, rfl⟩
  refine ⟨valid, by rw [encoded]; decide, output, written, ?_⟩
  intro again
  have fits := fitsEntry_length (again.fits valid written (Or.inr (Int.le_refl _))).1 _ mem_cons_self
  rw [length] at fits
  exact absurd fits (by decide)

end Yaz.Marc
