import Yaz.Pqf.Tokens
import Mathlib.Logic.Function.Basic

/-! What `rpn_structure` does in memory: the three arrays that all subtrees share, and nodes of which nothing is written.

Strings and object identifiers are pointers to memory that is not written a second time, so that they stand for themselves.
-/

set_option autoImplicit false

namespace Yaz.Pqf
open List hiding set
open Yaz.Comstack

/-- `attr_list`, `attr_clist` and `attr_set`. -/
structure Arrays (Oid : Type) where
  attrList : Nat → Int64
  attrClist : Nat → Option (List UInt8)
  attrSet : Nat → Option Oid

/-- `Z_RPNStructure`; of an `unset` node nothing is written. -/
inductive Stored (Oid : Type) where
  | unset
  | apt (operand : AttributesPlusTerm Oid)
  | resultSet (name : List UInt8)
  | complex (op : Operator) (s1 s2 : Stored Oid)
  deriving DecidableEq

section
variable {Oid : Type}

def Stored.erase : Stored Oid → Rpn Oid
  | .unset => .resultSet []
  | .apt operand => .apt operand
  | .resultSet name => .resultSet name
  | .complex op s1 s2 => .complex op s1.erase s2.erase

def Arrays.entry (arrays : Arrays Oid) (i : Nat) : Attr Oid :=
  { type := arrays.attrList (2 * i), value := arrays.attrList (2 * i + 1), text := arrays.attrClist i, set := arrays.attrSet i }

def Arrays.entries (arrays : Arrays Oid) (num : Nat) : List (Attr Oid) := (List.range num).map arrays.entry

/-- `attr_set[num_attr] = set`. -/
def Arrays.setSet (arrays : Arrays Oid) (num : Nat) (set : Option Oid) : Arrays Oid :=
  { arrays with attrSet := Function.update arrays.attrSet num set }

def Arrays.setList (arrays : Arrays Oid) (i : Nat) (n : Int64) : Arrays Oid :=
  { arrays with attrList := Function.update arrays.attrList i n }

def Arrays.setClist (arrays : Arrays Oid) (num : Nat) (text : Option (List UInt8)) : Arrays Oid :=
  { arrays with attrClist := Function.update arrays.attrClist num text }

variable (attset : List UInt8 → Option Oid)

/-- `p_query_parse_attr` behind the attribute set. -/
def parseTypeValueIn (li : Parser) (num : Nat) (arrays : Arrays Oid) (at' : Nat) (value : List UInt8) : Bool × Parser × Arrays Oid :=
  if ¬ li.lexBuf.head?.any isDigit then (false, li.fail .badInteger, arrays)
  else
    let arrays := arrays.setList (2 * num) (odrAtoi li.lexBuf)
    let inside := value.take (li.lexLen - (at' + 1))
    if inside.all isDigit then (true, li, (arrays.setList (2 * num + 1) (odrAtoi value)).setClist num none)
    else (true, li, (arrays.setList (2 * num + 1) 0).setClist num (some (cString (escapeString inside))))

/-- `p_query_parse_attr` with an attribute set in front of the type. -/
def parseNamedIn (li : Parser) (num : Nat) (arrays : Arrays Oid) : Bool × Parser × Arrays Oid :=
  let set := queryOidGetvalbyname attset li
  let arrays := arrays.setSet num set
  if set.isNone then (false, li.fail .attset, arrays)
  else
    let li := lex li
    if li.queryLook = .ends then (false, li.fail .missing, arrays)
    else match splitEquals li.lexBuf with
      | none => (false, li.fail .badAttr, arrays)
      | some (at', value) => parseTypeValueIn li num arrays at' value

/-- `p_query_parse_attr`. -/
def pQueryParseAttrIn (li : Parser) (num : Nat) (arrays : Arrays Oid) : Bool × Parser × Arrays Oid :=
  match splitEquals li.lexBuf with
  | some (at', value) =>
    if at' > li.lexLen then parseNamedIn attset li num arrays
    else parseTypeValueIn li num (arrays.setSet num (if 0 < num then arrays.attrSet (num - 1) else none)) at' value
  | none => parseNamedIn attset li num arrays

/-- `get_attributeList`: of each type the entry that has none of its type behind it, from the last one to the first. -/
def getAttributeListIn (num : Nat) (arrays : Arrays Oid) : List (AttributeElement Oid) :=
  ((List.range num).reverse.filter fun i => (List.range num).all fun j => j ≤ i || arrays.attrList (2 * j) ≠ arrays.attrList (2 * i)).map
    fun i => (arrays.entry i).element

/-- `rpn_simple`. -/
def rpnSimpleIn (li : Parser) (num : Nat) (arrays : Arrays Oid) : Option (Stored Oid) × Parser :=
  match li.queryLook with
  | .text => (some (.apt (rpnTermAttributes li (some (getAttributeListIn num arrays)))), lex li)
  | .set =>
    let li := lex li
    if li.queryLook = .ends then (none, li.fail .missing)
    else (some (.resultSet li.lexeme), lex li)
  | _ => (none, li.fail .internal)

/-- `rpn_complex`, whose operands are read by `operand`. -/
def rpnComplexIn (operand : Parser → Arrays Oid → Option (Stored Oid) × Parser × Arrays Oid) (li : Parser) (arrays : Arrays Oid) :
    Option (Stored Oid) × Parser × Arrays Oid :=
  match rpnOperator li with
  | (none, li) => (none, li, arrays)
  | (some op, li) =>
  match operand (lex li) arrays with
  | (none, li, arrays) => (none, li, arrays)
  | (some s1, li, arrays) =>
  match operand li arrays with
  | (none, li, arrays) => (none, li, arrays)
  | (some s2, li, arrays) => (some (.complex op s1 s2), li, arrays)

/-- `@attr`: what `rpn_structure` does before it calls itself. -/
def rpnAttrIn (li : Parser) (num : Nat) (arrays : Arrays Oid) : Bool × Parser × Arrays Oid :=
  let li := lex li
  if li.queryLook = .ends then (false, li.fail .missing, arrays)
  else if num ≥ maxAttr then (false, li.fail .tooMany, arrays)
  else match pQueryParseAttrIn attset li num arrays with
    | (false, li, arrays) => (false, li, arrays)
    | (true, li, arrays) => (true, lex li, arrays)

/-- `rpn_structure`, with `num_attr` by value and the arrays by reference. -/
def rpnStructureIn : Nat → Parser → Nat → Arrays Oid → Option (Stored Oid) × Parser × Arrays Oid
  | 0, li, _, arrays => (none, li, arrays)
  | rounds + 1, li, num, arrays =>
    match li.queryLook with
    | .and | .or | .not | .prox => rpnComplexIn (fun li arrays => rpnStructureIn rounds li num arrays) li arrays
    | .text | .set => ((rpnSimpleIn li num arrays).1, (rpnSimpleIn li num arrays).2, arrays)
    | .attr =>
      match rpnAttrIn attset li num arrays with
      | (false, li, arrays) => (none, li, arrays)
      | (true, li, arrays) => rpnStructureIn rounds li (num + 1) arrays
    | .termType => rpnStructureIn rounds (rpnTermType (lex li)) num arrays
    | .ends => (none, li.fail .missing, arrays)
    | .attrset => (some .unset, li, arrays)

variable (bib1 : Oid)

/-- `p_query_rpn_mk`; at first the arrays hold what happens to be in memory. -/
def pQueryRpnMkIn (li : Parser) (arrays : Arrays Oid) : Option (Oid × Stored Oid) × Parser :=
  let rounds := li.queryPtr.length + 1
  match topSet attset bib1 li with
  | (none, li) => (none, li)
  | (some set, li) =>
    match rpnStructureIn attset rounds li 0 arrays with
    | (none, li, _) => (none, li)
    | (some structure', li, _) =>
      if li.queryLook ≠ .ends then (none, li.fail .extra) else (some (set, structure'), li)

/-- `yaz_pqf_parse`. -/
def yazPqfParseIn (li : Parser) (arrays : Arrays Oid) (qbuf : List UInt8) : Option (Oid × Stored Oid) × Parser :=
  pQueryRpnMkIn attset bib1 (pqfParserBegin li qbuf) arrays

/-- `p_query_rpn`. -/
def pQueryRpnIn (arrays : Arrays Oid) (qbuf : List UInt8) : Option (Oid × Stored Oid) :=
  (yazPqfParseIn attset bib1 yazPqfCreate arrays qbuf).1

end

section
variable {Oid : Type} {attset : List UInt8 → Option Oid} (arrays : Arrays Oid)

theorem entries_succ (num : Nat) : arrays.entries (num + 1) = arrays.entries num ++ [arrays.entry num] := by
  rw [Arrays.entries, range_succ, map_append]
  rfl

theorem entries_getLast? (num : Nat) :
    ((arrays.entries num).getLast?).bind (·.set) = if 0 < num then arrays.attrSet (num - 1) else none := by
  cases num with
  | zero => rfl
  | succ num => rw [entries_succ, getLast?_concat, if_pos (Nat.succ_pos num)]; rfl

variable {num : Nat}

theorem entries_congr {arrays arrays' : Arrays Oid} (same : ∀ i < num, arrays'.entry i = arrays.entry i) :
    arrays'.entries num = arrays.entries num :=
  map_congr_left fun i inside => same i (mem_range.mp inside)

theorem entries_of_succ {arrays arrays' : Arrays Oid} (same : arrays'.entries (num + 1) = arrays.entries (num + 1)) :
    arrays'.entries num = arrays.entries num := by
  rw [entries_succ, entries_succ] at same
  exact (append_inj' same rfl).1

theorem entry_setSet (num : Nat) (set : Option Oid) {i : Nat} (other : i ≠ num) :
    (arrays.setSet num set).entry i = arrays.entry i := by
  simp only [Arrays.entry, Arrays.setSet, Function.update_of_ne other]

theorem entry_setClist (num : Nat) (text : Option (List UInt8)) {i : Nat} (other : i ≠ num) :
    (arrays.setClist num text).entry i = arrays.entry i := by
  simp only [Arrays.entry, Arrays.setClist, Function.update_of_ne other]

theorem entry_setList (k : Nat) (n : Int64) {i : Nat} (first : 2 * i ≠ k) (second : 2 * i + 1 ≠ k) :
    (arrays.setList k n).entry i = arrays.entry i := by
  simp only [Arrays.entry, Arrays.setList, Function.update_of_ne first, Function.update_of_ne second]

theorem entries_length (num : Nat) : (arrays.entries num).length = num := by
  rw [Arrays.entries, length_map, length_range]

/-- Only the entry at `num` is written, and if an attribute is read it is there. -/
def Writes (num : Nat) (arrays : Arrays Oid) (read : Option (Attr Oid) × Parser) (written : Bool × Parser × Arrays Oid) : Prop :=
  written.1 = read.1.isSome ∧ written.2.1 = read.2 ∧ (∀ i, i ≠ num → written.2.2.entry i = arrays.entry i) ∧
    ∀ attr ∈ read.1, written.2.2.entry num = attr

variable (li : Parser)

theorem parseTypeValueIn_writes (num : Nat) (arrays : Arrays Oid) (at' : Nat) (value : List UInt8) :
    Writes num arrays (parseTypeValue li (arrays.attrSet num) at' value) (parseTypeValueIn li num arrays at' value) := by
  rw [parseTypeValue, parseTypeValueIn]
  have others (n m : Int64) (text : Option (List UInt8)) (i : Nat) (other : i ≠ num) :
      (((arrays.setList (2 * num) n).setList (2 * num + 1) m).setClist num text).entry i = arrays.entry i := by
    rw [entry_setClist _ _ _ other, entry_setList _ _ _ (by omega) (by omega), entry_setList _ _ _ (by omega) (by omega)]
  have own (n m : Int64) (text : Option (List UInt8)) :
      (((arrays.setList (2 * num) n).setList (2 * num + 1) m).setClist num text).entry num =
        { type := n, value := m, text := text, set := arrays.attrSet num } := by
    simp [Arrays.entry, Arrays.setClist, Arrays.setList]
  by_cases digit : li.lexBuf.head?.any isDigit = true
  · rw [if_neg (not_not_intro digit), if_neg (not_not_intro digit)]
    dsimp only
    split
    · exact ⟨rfl, rfl, others _ _ _, fun _ is => Option.some.inj is ▸ own _ _ _⟩
    · exact ⟨rfl, rfl, others _ _ _, fun _ is => Option.some.inj is ▸ own _ _ _⟩
  · rw [if_pos digit, if_pos digit]
    exact ⟨rfl, rfl, fun _ _ => rfl, fun _ is => absurd is (by simp)⟩

theorem Writes.of_setSet {arrays : Arrays Oid} {set : Option Oid} {read : Option (Attr Oid) × Parser}
    {written : Bool × Parser × Arrays Oid} (writes : Writes num (arrays.setSet num set) read written) : Writes num arrays read written :=
  ⟨writes.1, writes.2.1, fun i other => (writes.2.2.1 i other).trans (entry_setSet _ _ _ other), writes.2.2.2⟩

theorem writes_fail (num : Nat) (arrays : Arrays Oid) (li : Parser) : Writes num arrays (none, li) (false, li, arrays) :=
  ⟨rfl, rfl, fun _ _ => rfl, fun _ is => absurd is (by simp)⟩

theorem parseTypeValueIn_setSet (num : Nat) (arrays : Arrays Oid) (set : Option Oid) (at' : Nat) (value : List UInt8) :
    Writes num arrays (parseTypeValue li set at' value) (parseTypeValueIn li num (arrays.setSet num set) at' value) := by
  have writes := parseTypeValueIn_writes li num (arrays.setSet num set) at' value
  have stored : (arrays.setSet num set).attrSet num = set := Function.update_self ..
  rw [stored] at writes
  exact writes.of_setSet

theorem parseNamedIn_writes (num : Nat) (arrays : Arrays Oid) :
    Writes num arrays (pQueryParseAttr.named attset li) (parseNamedIn attset li num arrays) := by
  rw [pQueryParseAttr.named, parseNamedIn]
  cases queryOidGetvalbyname attset li with
  | none => exact (writes_fail num _ _).of_setSet
  | some set =>
    have known : ¬ (some set).isNone = true := Bool.false_ne_true
    dsimp only
    rw [if_neg known]
    by_cases ends : (lex li).queryLook = .ends
    · rw [if_pos ends, if_pos ends]
      exact (writes_fail num _ _).of_setSet
    · rw [if_neg ends, if_neg ends]
      cases splitEquals (lex li).lexBuf with
      | none => exact (writes_fail num _ _).of_setSet
      | some => exact parseTypeValueIn_setSet ..

variable (attset) in
theorem pQueryParseAttrIn_writes (num : Nat) (arrays : Arrays Oid) :
    Writes num arrays (pQueryParseAttr attset li (arrays.entries num)) (pQueryParseAttrIn attset li num arrays) := by
  rw [pQueryParseAttr, pQueryParseAttrIn, entries_getLast?]
  cases splitEquals li.lexBuf with
  | none => exact parseNamedIn_writes li num arrays
  | some split =>
    dsimp only
    split
    · exact parseNamedIn_writes li num arrays
    · exact parseTypeValueIn_setSet ..

variable (attset) in
theorem rpnAttrIn_eq (num : Nat) (arrays : Arrays Oid) :
    rpnAttr attset li (arrays.entries num) =
        (if (rpnAttrIn attset li num arrays).1 then some ((rpnAttrIn attset li num arrays).2.2.entries (num + 1)) else none,
          (rpnAttrIn attset li num arrays).2.1) ∧
      (rpnAttrIn attset li num arrays).2.2.entries num = arrays.entries num := by
  rw [rpnAttr, rpnAttrIn, entries_length]
  by_cases ends : (lex li).queryLook = .ends
  · simp only [if_pos ends, Bool.false_eq_true, if_false, and_self]
  · by_cases many : num ≥ maxAttr
    · simp only [if_neg ends, if_pos many, Bool.false_eq_true, if_false, and_self]
    · simp only [if_neg ends, if_neg many]
      obtain ⟨ok, parser, others, own⟩ := pQueryParseAttrIn_writes attset (lex li) num arrays
      obtain ⟨found, next, arrays', isWritten⟩ :
        ∃ found next arrays', pQueryParseAttrIn attset (lex li) num arrays = (found, next, arrays') :=
        ⟨_, _, _, rfl⟩
      obtain ⟨attr, next', isRead⟩ : ∃ attr next', pQueryParseAttr attset (lex li) (arrays.entries num) = (attr, next') := ⟨_, _, rfl⟩
      rw [isWritten, isRead] at ok parser
      rw [isWritten] at others own
      rw [isRead] at own
      rw [isWritten, isRead]
      dsimp only at ok parser others own ⊢
      have kept : arrays'.entries num = arrays.entries num := entries_congr fun i inside => others i (Nat.ne_of_lt inside)
      subst ok parser
      cases attr with
      | none => exact ⟨rfl, kept⟩
      | some attr =>
        refine ⟨?_, kept⟩
        dsimp only [Option.isSome_some, if_true]
        rw [entries_succ, kept, own attr rfl, if_pos rfl]

theorem lastOfType_entries (num : Nat) (seen : List Int64) :
    lastOfType (arrays.entries num).reverse seen =
      ((List.range num).reverse.filter fun i => !seen.contains (arrays.attrList (2 * i)) &&
        (List.range num).all fun j => j ≤ i || arrays.attrList (2 * j) ≠ arrays.attrList (2 * i)).map fun i =>
          (arrays.entry i).element := by
  induction num generalizing seen with
  | zero => rfl
  | succ num ih =>
    have shape : (arrays.entries (num + 1)).reverse = arrays.entry num :: (arrays.entries num).reverse := by
      rw [entries_succ, reverse_append]
      rfl
    have range : (List.range (num + 1)).reverse = num :: (List.range num).reverse := by
      rw [range_succ, reverse_append]
      rfl
    have last : ((List.range (num + 1)).all fun j => j ≤ num || arrays.attrList (2 * j) ≠ arrays.attrList (2 * num)) = true := by
      rw [all_eq_true]
      intro j inside
      simp [Nat.lt_succ_iff.mp (mem_range.mp inside)]
    have inner (i : Nat) (inside : i ∈ (List.range num).reverse) :
        ((List.range (num + 1)).all fun j => j ≤ i || arrays.attrList (2 * j) ≠ arrays.attrList (2 * i)) =
          (((List.range num).all fun j => j ≤ i || arrays.attrList (2 * j) ≠ arrays.attrList (2 * i)) &&
            arrays.attrList (2 * num) ≠ arrays.attrList (2 * i)) := by
      have less : ¬ num ≤ i := Nat.not_le.mpr (mem_range.mp (mem_reverse.mp inside))
      rw [range_succ, all_append]
      simp [less]
    rw [shape, lastOfType, range]
    by_cases known : (arrays.entry num).type ∈ seen
    · have known' : seen.contains (arrays.attrList (2 * num)) = true := contains_iff_mem.mpr known
      rw [if_pos known, ih seen, filter_cons_of_neg (by rw [known']; exact Bool.false_ne_true)]
      congr 1
      refine filter_congr fun i inside => ?_
      rw [inner i inside]
      -- a type that is not seen yet is another one than that of the last entry
      by_cases new : arrays.attrList (2 * i) ∈ seen
      · simp [new]
      · have differs : arrays.attrList (2 * num) ≠ arrays.attrList (2 * i) := fun same => new (same ▸ known)
        simp [differs]
    · have known' : seen.contains (arrays.attrList (2 * num)) = false :=
        Bool.eq_false_of_not_eq_true fun inside => known (contains_iff_mem.mp inside)
      rw [if_neg known, ih, filter_cons_of_pos (by rw [last, known']; rfl), map_cons]
      congr 2
      refine filter_congr fun i inside => ?_
      rw [inner i inside]
      have same : (arrays.entry num).type = arrays.attrList (2 * num) := rfl
      rw [same]
      by_cases differs : arrays.attrList (2 * num) = arrays.attrList (2 * i)
      · simp [differs]
      · simp [differs, Ne.symm differs]

theorem getAttributeListIn_eq (num : Nat) (arrays : Arrays Oid) :
    getAttributeListIn num arrays = getAttributeList (arrays.entries num) := by
  rw [getAttributeList, lastOfType_entries, getAttributeListIn]
  rfl

theorem rpnSimpleIn_eq (num : Nat) (arrays : Arrays Oid) :
    rpnSimple li (arrays.entries num) = ((rpnSimpleIn li num arrays).1.map Stored.erase, (rpnSimpleIn li num arrays).2) := by
  simp only [rpnSimple, rpnSimpleIn, getAttributeListIn_eq]
  cases li.queryLook with
  | text => rfl
  | set =>
    dsimp only
    split <;> rfl
  | _ => rfl

/-- What is read into memory is what is read without it, and the entries in front of `num` stay. -/
def Refines (num : Nat) (arrays : Arrays Oid) (read : Option (Rpn Oid) × Parser)
    (stored : Option (Stored Oid) × Parser × Arrays Oid) : Prop :=
  read = (stored.1.map Stored.erase, stored.2.1) ∧ stored.2.2.entries num = arrays.entries num

theorem rpnComplexIn_refines {operand : Parser → List (Attr Oid) → Option (Rpn Oid) × Parser}
    {operandIn : Parser → Arrays Oid → Option (Stored Oid) × Parser × Arrays Oid}
    (refines : ∀ li arrays, Refines num arrays (operand li (arrays.entries num)) (operandIn li arrays)) (li : Parser)
      (arrays : Arrays Oid) :
    Refines num arrays (rpnComplex (fun li => operand li (arrays.entries num)) li) (rpnComplexIn operandIn li arrays) := by
  rw [rpnComplex, rpnComplexIn]
  rcases rpnOperator li with ⟨_ | op, li₁⟩
  · exact ⟨rfl, rfl⟩
  · dsimp only
    obtain ⟨first, kept⟩ := refines (lex li₁) arrays
    rcases isFirst : operandIn (lex li₁) arrays with ⟨_ | s1, li₂, arrays₁⟩
    · rw [isFirst] at first kept
      rw [first]
      exact ⟨rfl, kept⟩
    · rw [isFirst] at first kept
      rw [first]
      dsimp only [Option.map_some] at kept ⊢
      -- the second operand finds the entries that the first one has left
      obtain ⟨second, kept'⟩ := refines li₂ arrays₁
      rw [kept] at second kept'
      rw [second]
      rcases isSecond : operandIn li₂ arrays₁ with ⟨_ | s2, li₃, arrays₂⟩
      · rw [isSecond] at kept'
        exact ⟨rfl, kept'⟩
      · rw [isSecond] at kept'
        exact ⟨rfl, kept'⟩

variable (attset) in
theorem rpnStructureIn_refines (rounds : Nat) (li : Parser) (num : Nat) (arrays : Arrays Oid) :
    Refines num arrays (rpnStructure attset rounds li (arrays.entries num)) (rpnStructureIn attset rounds li num arrays) := by
  induction rounds generalizing li num arrays with
  | zero => exact ⟨rfl, rfl⟩
  | succ _ ih =>
    rcases look : li.queryLook with _ | _ | _ | _ | _ | _ | _ | _ | _ | _
    case ends =>
      simp only [rpnStructure, rpnStructureIn, look]
      exact ⟨rfl, rfl⟩
    case attr =>
      obtain ⟨read, kept⟩ := rpnAttrIn_eq attset li num arrays
      rcases isWritten : rpnAttrIn attset li num arrays with ⟨_ | _, next, arrays'⟩
      · rw [isWritten] at read kept
        rw [rpnStructure_noAttr attset look read]
        simp only [rpnStructureIn, look, isWritten]
        exact ⟨rfl, kept⟩
      · rw [isWritten] at read kept
        rw [rpnStructure_attr attset look read]
        simp only [rpnStructureIn, look, isWritten]
        obtain ⟨tail, kept'⟩ := ih next (num + 1) arrays'
        exact ⟨tail, (entries_of_succ kept').trans kept⟩
    case attrset =>
      simp only [rpnStructure, rpnStructureIn, look]
      exact ⟨rfl, rfl⟩
    case termType =>
      rw [rpnStructure_termType attset look]
      simp only [rpnStructureIn, look]
      exact ih _ num arrays
    case text | set =>
      rw [rpnStructure_simple attset (by simp [look])]
      simp only [rpnStructureIn, look]
      exact ⟨rpnSimpleIn_eq li num arrays, rfl⟩
    all_goals
      rw [rpnStructure_complex attset (by simp [look])]
      simp only [rpnStructureIn, look]
      exact rpnComplexIn_refines (fun li arrays => ih li num arrays) li arrays

end

end Yaz.Pqf
