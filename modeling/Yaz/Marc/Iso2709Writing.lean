import Yaz.Marc.Iso2709

/-! The records that are written as ISO 2709, and the directory that is written of one: the fields before the one that has no room. -/

set_option autoImplicit false

namespace Yaz.Marc
open List
open Yaz.Http (cString)

/-! ### Records -/

def Node.tag : Node → List UInt8
  | .datafield tag _ _ => tag
  | .controlfield tag _ => tag
  | _ => []

def isClean (c : UInt8) : Bool := c ≠ 0 && c ≠ ISO2709_RS && c ≠ ISO2709_FS && c ≠ ISO2709_IDFS

def IsSubfield (s : List UInt8) : Prop := ∃ code data, s = code :: data ∧ 32 < code ∧ code ≤ 127 ∧ data.all isClean = true

def Node.Valid : Node → Prop
  | .datafield tag indicator subfields =>
    tag.length = 3 ∧ 0 ∉ tag ∧ tag.take 2 ≠ [48, 48] ∧ indicator.length = 2 ∧ (∀ c ∈ indicator, 0 < c ∧ c ≤ 127) ∧
      ∀ s ∈ subfields, IsSubfield s
  | .controlfield tag data => tag.length = 3 ∧ 0 ∉ tag ∧ tag.take 2 = [48, 48] ∧ data.all isClean = true
  | _ => True

/-- The leader that counts: 24 octets, indicators of two, identifiers of two, lengths of four and starts of five. -/
structure ValidLeader (leader : List UInt8) : Prop where
  length : leader.length = 24
  indicatorLength : (leader.drop 10).take 1 = [50]
  identifierLength : (leader.drop 11).take 1 = [50]
  lengthDataEntry : (leader.drop 20).take 1 = [52]
  lengthStarting : (leader.drop 21).take 1 = [53]

structure ValidRecord (nodes : List Node) : Prop where
  leader : ∃ leader, lastLeader nodes = some leader ∧ ValidLeader leader
  nodes : ∀ n ∈ nodes, n.Valid

def encodedLength (nodes : List Node) : Nat := 26 + 12 * (fields nodes).length + ((fields nodes).flatMap Node.fieldData).length

def Node.dirEntry (n : Node) (dataOffset : Nat) : List UInt8 := tagField n.tag ++ padded 4 n.fieldData.length ++ padded 5 dataOffset

def dirOf : (dataOffset : Nat) → List Node → List UInt8
  | _, [] => []
  | dataOffset, n :: nodes => n.dirEntry dataOffset ++ dirOf (dataOffset + n.fieldData.length) nodes

def Node.fitsEntry (n : Node) : Bool := n.fieldData.length ≤ 9999 && n.tag.head? ≠ some ISO2709_FS

def Node.mistaken (n : Node) (following : List UInt8) : Bool :=
  match n with
  | .controlfield _ data =>
    let after := cString data ++ ISO2709_FS :: following
    after.getD 2 0 = ISO2709_IDFS || after.getD 3 0 = ISO2709_IDFS
  | _ => false

def plain : List Node → (behind : List UInt8) → Bool
  | [], _ => true
  | n :: nodes, behind => !n.mistaken (nodes.flatMap Node.fieldData ++ behind) && plain nodes behind

theorem isClean_ne {c : UInt8} (clean : isClean c = true) : c ≠ 0 ∧ isSeparator c = false ∧ c ≠ ISO2709_IDFS := by
  simp only [isClean, Bool.and_eq_true, decide_eq_true_eq] at clean
  obtain ⟨⟨⟨notNul, notRs⟩, notFs⟩, notIdfs⟩ := clean
  refine ⟨notNul, ?_, notIdfs⟩
  simp [isSeparator, notRs, notFs]

theorem clean_noNul {data : List UInt8} (clean : data.all isClean = true) : 0 ∉ data := by
  intro inside
  have isClean := all_eq_true.mp clean 0 inside
  exact absurd isClean (by decide)

theorem IsSubfield.noNul {s : List UInt8} (is : IsSubfield s) : 0 ∉ s := by
  obtain ⟨code, data, rfl, above, -, clean⟩ := is
  intro inside
  rcases mem_cons.mp inside with rfl | inside
  · exact absurd above (by decide)
  · exact clean_noNul clean inside

variable {n : Node}

theorem Node.entry_eq (isField : n.isField = true) : n.entry = some (n.tag, n.fieldData.length) := by
  cases n with
  | datafield tag _ subfields =>
    have sum : ((subfields.map fun s => 1 + (cString s).length).sum) = (subfields.flatMap fun s => ISO2709_IDFS :: cString s).length := by
      rw [length_flatMap]
      congr 2
      funext s
      rw [length_cons, Nat.add_comm]
    rw [Node.entry, Node.tag, Node.fieldData, sum, length_append, length_append, length_singleton, Nat.add_assoc]
  | controlfield tag => rw [Node.entry, Node.tag, Node.fieldData, length_append, length_singleton]
  | comment => cases isField
  | leader => cases isField

theorem Node.entry_none (noField : n.isField = false) : n.entry = none ∧ n.fieldData = [] := by
  cases n with
  | datafield => cases noField
  | controlfield => cases noField
  | comment => exact ⟨rfl, rfl⟩
  | leader => exact ⟨rfl, rfl⟩

theorem Node.fieldData_pos (isField : n.isField = true) : 0 < n.fieldData.length := by
  cases n with
  | datafield => simp [Node.fieldData]
  | controlfield => simp [Node.fieldData]
  | comment => cases isField
  | leader => cases isField

theorem fields_field (isField : n.isField = true) (nodes : List Node) : fields (n :: nodes) = n :: fields nodes := by
  rw [fields, filter_cons_of_pos isField, fields]

theorem fields_other (noField : n.isField = false) (nodes : List Node) : fields (n :: nodes) = fields nodes := by
  rw [fields, filter_cons_of_neg (by simp [noField]), fields]

variable (nodes : List Node)

theorem fields_data : nodes.flatMap Node.fieldData = (fields nodes).flatMap Node.fieldData := by
  induction nodes with
  | nil => rfl
  | cons n _ ih =>
    rw [flatMap_cons, ih]
    cases isField : n.isField with
    | true => rw [fields_field isField, flatMap_cons]
    | false =>
      rw [fields_other isField, (Node.entry_none isField).2]
      rfl

theorem writeDirectory_spec (dir : List UInt8) (dataOffset : Nat) :
    let w := writeDirectory 4 5 nodes dir dataOffset
    w.dir = dir ++ dirOf dataOffset (fields w.nodes) ∧ w.dataOffset = dataOffset + ((fields w.nodes).flatMap Node.fieldData).length ∧
      w.nodes <+: nodes := by
  induction nodes generalizing dir dataOffset with
  | nil => exact ⟨(append_nil dir).symm, rfl, nil_prefix⟩
  | cons n nodes ih =>
    rw [writeDirectory]
    cases isField : n.isField with
    | false =>
      rw [(Node.entry_none isField).1]
      obtain ⟨written, offset, front⟩ := ih dir dataOffset
      dsimp only
      rw [fields_other isField]
      exact ⟨written, offset, (cons_prefix_cons).mpr ⟨rfl, front⟩⟩
    | true =>
      rw [Node.entry_eq isField]
      dsimp only
      split
      · exact ⟨(append_nil dir).symm, rfl, nil_prefix⟩
      · obtain ⟨written, offset, front⟩ :=
          ih (dir ++ tagField n.tag ++ padded 4 n.fieldData.length ++ padded 5 dataOffset) (dataOffset + n.fieldData.length)
        generalize writeDirectory 4 5 nodes (dir ++ tagField n.tag ++ padded 4 n.fieldData.length ++ padded 5 dataOffset)
          (dataOffset + n.fieldData.length) = w at written offset front
        dsimp only
        rw [fields_field isField, dirOf, flatMap_cons, length_append]
        refine ⟨?_, by omega, (cons_prefix_cons).mpr ⟨rfl, front⟩⟩
        rw [written, Node.dirEntry]
        simp only [append_assoc]

theorem Node.Valid.tag (valid : n.Valid) (isField : n.isField = true) : n.tag.length = 3 ∧ 0 ∉ n.tag := by
  cases n with
  | datafield => exact ⟨valid.1, valid.2.1⟩
  | controlfield => exact ⟨valid.1, valid.2.1⟩
  | comment => cases isField
  | leader => cases isField

theorem tagField_eq {tag : List UInt8} (length : tag.length = 3) (noNul : 0 ∉ tag) : tagField tag = tag := by
  rw [tagField, cString_eq_self noNul, length, take_of_length_le (Nat.le_of_eq length)]
  rfl

theorem Node.dirEntry_eq (valid : n.Valid) (isField : n.isField = true) (dataOffset : Nat) :
    n.dirEntry dataOffset = n.tag ++ padded 4 n.fieldData.length ++ padded 5 dataOffset := by
  obtain ⟨length, noNul⟩ := valid.tag isField
  rw [Node.dirEntry, tagField_eq length noNul]

theorem Node.dirEntry_length (valid : n.Valid) (isField : n.isField = true) {dataOffset : Nat} (small : dataOffset < 100000) :
    (n.fieldData.length ≤ 9999 → (n.dirEntry dataOffset).length = 12) ∧
      (n.fieldData.length < 100000 → 12 ≤ (n.dirEntry dataOffset).length ∧ (n.dirEntry dataOffset).length ≤ 13) := by
  have tag := (valid.tag isField).1
  have offset : (padded 5 dataOffset).length = 5 := padded_length (by decide) small
  have long : (n.dirEntry dataOffset).length = 8 + (padded 4 n.fieldData.length).length := by
    rw [n.dirEntry_eq valid isField, length_append, length_append, tag, offset]
    omega
  constructor
  · intro few
    rw [long, padded_length (by decide) (by omega)]
  · intro few
    by_cases four : n.fieldData.length < 10 ^ 4
    · rw [long, padded_length (by decide) four]
      omega
    · have least : 10 ^ 4 ≤ n.fieldData.length := by omega
      have tenth := length_le_decimal least
      have atMost := @decimal_length_le n.fieldData.length 5 (by decide) (by omega)
      rw [long, padded, Nat.sub_eq_zero_of_le (Nat.le_of_lt tenth), replicate_zero, nil_append]
      omega

theorem writeDirectory_room (valid : ∀ n ∈ nodes, n.Valid) (short : ∀ n ∈ fields nodes, n.fieldData.length ≤ 9999)
    (dir : List UInt8) (dataOffset : Nat)
    (room : fields nodes ≠ [] → dir.length + 12 * (fields nodes).length + 28 + dataOffset +
      ((fields nodes).flatMap Node.fieldData).length ≤ 99999) :
    (writeDirectory 4 5 nodes dir dataOffset).nodes = nodes := by
  induction nodes generalizing dir dataOffset with
  | nil => rfl
  | cons n nodes ih =>
    have validRest : ∀ m ∈ nodes, m.Valid := fun m inside => valid m (mem_cons_of_mem n inside)
    rw [writeDirectory]
    cases isField : n.isField with
    | false =>
      rw [fields_other isField] at short room
      rw [(Node.entry_none isField).1]
      dsimp only
      rw [ih validRest short dir dataOffset room]
    | true =>
      rw [fields_field isField] at short room
      have enough := room (cons_ne_nil _ _)
      rw [length_cons, flatMap_cons, length_append] at enough
      have length := (@Node.dirEntry_length n (valid n mem_cons_self) isField dataOffset (by omega)).1 (short n mem_cons_self)
      rw [Node.dirEntry, length_append, length_append] at length
      rw [Node.entry_eq isField]
      dsimp only
      rw [if_neg (by omega)]
      rw [ih validRest (fun m inside => short m (mem_cons_of_mem n inside))]
      intro some
      simp only [length_append]
      omega

/-- Where a field was written there was room for it. -/
theorem writeDirectory_bound (valid : ∀ n ∈ nodes, n.Valid) (dir : List UInt8) (dataOffset : Nat) :
    let w := writeDirectory 4 5 nodes dir dataOffset
    fields w.nodes ≠ [] → w.dir.length + 27 + w.dataOffset ≤ 99999 ∧
      ((∀ n ∈ fields w.nodes, n.fieldData.length ≤ 9999) → w.dir.length + 28 + w.dataOffset ≤ 99999 ∧
        w.dir.length = dir.length + 12 * (fields w.nodes).length) := by
  induction nodes generalizing dir dataOffset with
  | nil =>
    intro w some
    exact absurd rfl some
  | cons n nodes ih =>
    have validRest : ∀ m ∈ nodes, m.Valid := fun m inside => valid m (mem_cons_of_mem n inside)
    rw [writeDirectory]
    cases isField : n.isField with
    | false =>
      rw [(Node.entry_none isField).1]
      dsimp only
      rw [fields_other isField]
      exact ih validRest dir dataOffset
    | true =>
      rw [Node.entry_eq isField]
      dsimp only
      split
      · intro some
        exact absurd rfl some
      next fits =>
        intro _
        dsimp only
        have lengths := @Node.dirEntry_length n (valid n mem_cons_self) isField dataOffset (by omega)
        rw [Node.dirEntry] at lengths
        generalize entry : tagField n.tag ++ padded 4 n.fieldData.length ++ padded 5 dataOffset = e at lengths
        have appended : dir ++ tagField n.tag ++ padded 4 n.fieldData.length ++ padded 5 dataOffset = dir ++ e := by
          rw [← entry]
          simp only [append_assoc]
        rw [appended]
        have rest := ih validRest (dir ++ e) (dataOffset + n.fieldData.length)
        have spec := writeDirectory_spec nodes (dir ++ e) (dataOffset + n.fieldData.length)
        generalize writeDirectory 4 5 nodes (dir ++ e) (dataOffset + n.fieldData.length) = w at rest spec
        dsimp only at rest spec
        rw [fields_field isField, length_cons]
        rw [length_append] at rest
        by_cases last : fields w.nodes = []
        · rw [last, dirOf, append_nil] at spec
          have dirLength : w.dir.length = dir.length + e.length := by rw [spec.1, length_append]
          have offset : w.dataOffset = dataOffset + n.fieldData.length := spec.2.1
          refine ⟨by omega, ?_⟩
          intro short
          have twelve := lengths.1 (short n mem_cons_self)
          rw [last]
          simp only [length_nil]
          omega
        · obtain ⟨bound, tight⟩ := rest last
          refine ⟨bound, ?_⟩
          intro short
          have twelve := lengths.1 (short n mem_cons_self)
          obtain ⟨tightBound, exact'⟩ := tight fun m inside => short m (mem_cons_of_mem n inside)
          omega

end Yaz.Marc
