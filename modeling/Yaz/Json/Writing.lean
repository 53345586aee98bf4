import Yaz.Json.Exactness

/-! What the writer gives is read back, on one line and with line ends.

The writer indents by the last octet in its buffer. All it adds that way is blank, so every
text it writes is a text of the grammar with the value that was written.
-/

set_option autoImplicit false

namespace Yaz.Json
open Yaz.Iconv

theorem hexValue_hexDigit : ∀ n < 16, hexValue (hexDigit n) = some n := by decide

theorem unicodeEscape_control {c : UInt8} (control : c.toNat < 32) (rest : List UInt8) :
    unicodeEscape ([hexDigit (c.toNat / 4096 % 16), hexDigit (c.toNat / 256 % 16), hexDigit (c.toNat / 16 % 16),
      hexDigit (c.toNat % 16)] ++ rest) = some [c] := by
  have zero : c.toNat / 4096 % 16 = 0 ∧ c.toNat / 256 % 16 = 0 := by omega
  have low := hexValue_hexDigit (c.toNat / 16 % 16) (by omega)
  have last := hexValue_hexDigit (c.toNat % 16) (by omega)
  have first := hexValue_hexDigit 0 (by omega)
  rw [zero.1, zero.2, unicodeEscape_hex]
  · have code : ((0 * 16 + 0) * 16 + c.toNat / 16 % 16) * 16 + c.toNat % 16 = c.toNat := by omega
    have read : (hexDigits 4 ([hexDigit 0, hexDigit 0, hexDigit (c.toNat / 16 % 16), hexDigit (c.toNat % 16)] ++ rest) 0).2 =
        c.toNat := by
      simp only [List.cons_append, List.nil_append, hexDigits, first, low, last]
      omega
    rw [fourHex, if_pos, read, yazWriteUTF8Char, if_pos (by omega), UInt8.ofNat_toNat]
    simp [first, low, last]
  · simp
  · simp [first, low, last]

theorem chars_writeChar {c : UInt8} {body out : List UInt8} (notNul : c ≠ 0) (rest : Chars unicodeEscape body out) :
    Chars unicodeEscape (writeChar c ++ body) (c :: out) := by
  have positive : 0 < c.toNat := by
    have := UInt8.toNat_inj.not.mpr notNul
    simp only [UInt8.toNat_zero] at this
    omega
  unfold writeChar
  split
  next control =>
    split
    next same =>
      subst same
      exact .escape (by decide) rest
    · split
      next same =>
        subst same
        exact .escape (by decide) rest
      · split
        next same =>
          subst same
          exact .escape (by decide) rest
        · split
          next same =>
            subst same
            exact .escape (by decide) rest
          · split
            next same =>
              subst same
              exact .escape (by decide) rest
            · exact .unicode rfl (unicodeEscape_control control.2 _) rest
  next notControl =>
    split
    next same =>
      subst same
      exact .escape (by decide) rest
    next notQuote =>
      split
      next same =>
        subst same
        exact .escape (by decide) rest
      next notBackslash => exact .plain (by omega) notQuote notBackslash rest

theorem chars_written {octets : List UInt8} (noNul : 0 ∉ octets) : Chars unicodeEscape (octets.flatMap writeChar) octets := by
  induction octets with
  | nil => exact .nil
  | cons _ _ ih =>
    rw [List.flatMap_cons]
    apply chars_writeChar
    · rintro rfl
      exact noNul (by simp)
    · exact ih fun inside => noNul (by simp [inside])

theorem writeString_quoted (octets : List UInt8) : writeString octets = quoted (octets.flatMap writeChar) := rfl

/-! ### Trees -/

section
variable {Number : Type}

mutual

def Node.Writable : Node Number → Prop
  | .object members => members.Writable
  | .array elements => elements.Writable
  | .string octets => 0 ∉ octets
  | .number _ => False
  | _ => True

def Members.Writable : Members Number → Prop
  | .nil => True
  | .cons key value rest => 0 ∉ key ∧ value.Writable ∧ rest.Writable

def Elements.Writable : Elements Number → Prop
  | .nil => True
  | .cons value rest => value.Writable ∧ rest.Writable

end

mutual

def Node.depth : Node Number → Nat
  | .object members => members.depth + 1
  | .array elements => elements.depth + 1
  | _ => 0

def Members.depth : Members Number → Nat
  | .nil => 0
  | .cons _ value rest => max value.depth rest.depth

def Elements.depth : Elements Number → Nat
  | .nil => 0
  | .cons value rest => max value.depth rest.depth

end

/-- The octets added to `result` are a value behind blanks. -/
def WritesValue (number : List UInt8 → Number → Prop) (levels : Nat) (node : Node Number) (result written : List UInt8) : Prop :=
  ∃ blank text, written = result ++ (blank ++ text) ∧ AllBlank blank ∧ Value (codeRules number) levels text node

/-- The octets added to `result` are a first member and the others behind it. -/
def WritesMembers (number : List UInt8 → Number → Prop) (levels : Nat) (key : List UInt8) (value : Node Number)
    (rest : Members Number) (result written : List UInt8) : Prop :=
  ∃ before after text tail, written = result ++ (before ++ (writeString key ++ 58 :: (after ++ (text ++ tail)))) ∧
    AllBlank before ∧ AllBlank after ∧ Value (codeRules number) levels text value ∧
    MembersTail (codeRules number) levels tail rest

def WritesElements (number : List UInt8 → Number → Prop) (levels : Nat) (value : Node Number)
    (rest : Elements Number) (result written : List UInt8) : Prop :=
  ∃ before text tail, written = result ++ (before ++ (text ++ tail)) ∧ AllBlank before ∧
    Value (codeRules number) levels text value ∧ ElementsTail (codeRules number) levels tail rest

end

theorem jsonIndent_blank (result : List UInt8) (indent : Int) : ∃ blank, jsonIndent result indent = result ++ blank ∧ AllBlank blank := by
  unfold jsonIndent
  split
  · refine ⟨_, rfl, fun c inside => ?_⟩
    rw [List.eq_of_mem_replicate inside]
    rfl
  · exact ⟨[], by simp, allBlank_nil⟩

theorem indented_blank (result : List UInt8) (indent indent' : Int) :
    ∃ blank, (if 0 ≤ indent then jsonIndent result indent' else result) = result ++ blank ∧ AllBlank blank := by
  split
  · exact jsonIndent_blank result indent'
  · exact ⟨[], by simp, allBlank_nil⟩

theorem newline_blank (indent : Int) : AllBlank (newline indent) := by
  unfold newline
  split
  · intro c inside
    rw [List.mem_singleton.mp inside]
    rfl
  · exact allBlank_nil

section
variable {Number : Type} (printf : Number → List UInt8) (number : List UInt8 → Number → Prop)

variable {printf number}

theorem Members.write_first {levels : Nat} (result : List UInt8) (indent : Int) (key : List UInt8) {value : Node Number}
    (writes : ∀ result, WritesValue number levels value result (value.write printf result indent)) :
    ∃ before after text, AllBlank before ∧ AllBlank after ∧ Value (codeRules number) levels text value ∧
      value.write printf ((if 0 ≤ indent then jsonIndent result indent else result) ++ writeString key ++ [58] ++
        (if 0 ≤ indent then [32] else [])) indent =
        result ++ (before ++ (writeString key ++ 58 :: (after ++ text))) := by
  obtain ⟨before, same, blankBefore⟩ := indented_blank result indent indent
  have space : AllBlank (if 0 ≤ indent then [32] else []) := by
    split
    · intro c inside
      rw [List.mem_singleton.mp inside]
      rfl
    · exact allBlank_nil
  obtain ⟨blank, text, written, isBlank, isValue⟩ := writes (result ++ before ++ writeString key ++ [58] ++
    if 0 ≤ indent then [32] else [])
  rw [same]
  exact ⟨before, _, text, blankBefore, space.append isBlank, isValue, by rw [written]; simp⟩

mutual

/-- Every node is written as its own text. -/
theorem Node.write_value (levels : Nat) (result : List UInt8) (indent : Int) :
    (node : Node Number) → node.Writable → node.depth ≤ levels →
      WritesValue number levels node result (node.write printf result indent)
  | .true => fun _ _ => ⟨[], _, rfl, allBlank_nil, .true⟩
  | .false => fun _ _ => ⟨[], _, rfl, allBlank_nil, .false⟩
  | .null => fun _ _ => ⟨[], _, rfl, allBlank_nil, .null⟩
  | .number _ => fun writable _ => writable.elim
  | .string octets => fun writable _ => by
    exact ⟨[], writeString octets, rfl, allBlank_nil, .string (chars_written writable)⟩
  | .object .nil => fun _ _ => by
    obtain ⟨blank, same, isBlank⟩ := jsonIndent_blank result indent
    rw [Node.write, same]
    exact ⟨blank, 123 :: ([] ++ [125]), by simp, isBlank, .emptyObject allBlank_nil⟩
  | .object (.cons key value rest) => fun writable enough => by
    cases levels with
    | zero => simp [Node.depth] at enough
    | succ levels =>
      rw [Node.depth] at enough
      obtain ⟨blank, indented, isBlank⟩ := jsonIndent_blank result indent
      obtain ⟨front, opened, blankFront⟩ :=
        indented_blank (result ++ blank ++ [123] ++ newline indent) indent (subIndent indent)
      obtain ⟨before, after, text, tail, written, blankBefore, blankAfter, isValue, isTail⟩ :=
        Members.write_members levels (result ++ blank ++ [123] ++ newline indent ++ front) (subIndent indent)
          (.cons key value rest) writable (by omega) key value rest rfl
      obtain ⟨behind, closed, blankBehind⟩ := indented_blank
        ((Members.cons key value rest).write printf (result ++ blank ++ [123] ++ newline indent ++ front) (subIndent indent) ++
          newline indent) indent indent
      rw [Node.write]
      rw [indented, opened, closed, written]
      have chars : Chars unicodeEscape (key.flatMap writeChar) key := chars_written writable.1
      refine ⟨blank, _, ?_, isBlank, .object (((newline_blank indent).append blankFront).append blankBefore) chars allBlank_nil
        blankAfter isValue isTail ((newline_blank indent).append blankBehind)⟩
      rw [writeString_quoted]
      simp
  | .array .nil => fun _ enough => by
    obtain ⟨blank, same, isBlank⟩ := jsonIndent_blank result indent
    rw [Node.write, same]
    refine ⟨blank, 91 :: ([] ++ [93]), by simp, isBlank, .emptyArray allBlank_nil fun _ => ?_⟩
    unfold Node.depth at enough
    omega
  | .array (.cons value rest) => fun writable enough => by
    cases levels with
    | zero => simp [Node.depth] at enough
    | succ levels =>
      rw [Node.depth] at enough
      obtain ⟨blank, indented, isBlank⟩ := jsonIndent_blank result indent
      obtain ⟨before, text, tail, written, blankBefore, isValue, isTail⟩ :=
        Elements.write_elements levels (result ++ blank ++ [91] ++ newline indent) (subIndent indent)
          (.cons value rest) writable (by omega) value rest rfl
      obtain ⟨behind, closed, blankBehind⟩ := indented_blank
        ((Elements.cons value rest).write printf (result ++ blank ++ [91] ++ newline indent) (subIndent indent) ++
          newline indent) indent indent
      rw [Node.write]
      rw [indented, closed, written]
      refine ⟨blank, _, ?_, isBlank, .array ((newline_blank indent).append blankBefore) isValue isTail
        ((newline_blank indent).append blankBehind)⟩
      simp

theorem Members.write_members (levels : Nat) (result : List UInt8) (indent : Int) :
    (members : Members Number) → members.Writable → members.depth ≤ levels → ∀ key value rest, members = .cons key value rest →
      WritesMembers number levels key value rest result (members.write printf result indent)
  | .nil => by
    intro _ _ key value rest impossible
    simp at impossible
  | .cons key value .nil => by
    rintro writable enough _ _ _ ⟨rfl, rfl, rfl⟩
    rw [Members.depth] at enough
    obtain ⟨before, after, text, blankBefore, blankAfter, isValue, written⟩ := Members.write_first result indent key
      fun result => Node.write_value levels result indent value writable.2.1 (by omega)
    rw [Members.write]
    rw [written]
    exact ⟨before, after, text, [], by simp, blankBefore, blankAfter, isValue, .nil⟩
  | .cons key value (.cons key' value' rest) => by
    rintro writable enough _ _ _ ⟨rfl, rfl, rfl⟩
    rw [Members.depth] at enough
    obtain ⟨before, after, text, blankBefore, blankAfter, isValue, written⟩ := Members.write_first result indent key
      fun result => Node.write_value levels result indent value writable.2.1 (by omega)
    obtain ⟨before', after', text', tail', written', blankBefore', blankAfter', isValue', isTail'⟩ :=
      Members.write_members levels
        (result ++ (before ++ (writeString key ++ 58 :: (after ++ text))) ++ [44] ++ newline indent) indent
        (.cons key' value' rest) writable.2.2 (by omega) key' value' rest rfl
    have chars : Chars unicodeEscape (key'.flatMap writeChar) key' := chars_written writable.2.2.1
    rw [Members.write]
    rw [written, written']
    refine ⟨before, after, text, _, ?_, blankBefore, blankAfter, isValue, .cons allBlank_nil
      ((newline_blank indent).append blankBefore') chars allBlank_nil blankAfter' isValue' isTail'⟩
    rw [writeString_quoted key']
    simp

theorem Elements.write_elements (levels : Nat) (result : List UInt8) (indent : Int) :
    (elements : Elements Number) → elements.Writable → elements.depth ≤ levels → ∀ value rest, elements = .cons value rest →
      WritesElements number levels value rest result (elements.write printf result indent)
  | .nil => by
    intro _ _ value rest impossible
    simp at impossible
  | .cons value .nil => by
    rintro writable enough _ _ ⟨rfl, rfl⟩
    rw [Elements.depth] at enough
    obtain ⟨before, text, written, blankBefore, isValue⟩ := Node.write_value levels result indent value writable.1 (by omega)
    rw [Elements.write]
    rw [written]
    exact ⟨before, text, [], by simp, blankBefore, isValue, .nil⟩
  | .cons value (.cons value' rest) => by
    rintro writable enough _ _ ⟨rfl, rfl⟩
    rw [Elements.depth] at enough
    obtain ⟨before, text, written, blankBefore, isValue⟩ := Node.write_value levels result indent value writable.1 (by omega)
    obtain ⟨before', text', tail', written', blankBefore', isValue', isTail'⟩ :=
      Elements.write_elements levels (result ++ (before ++ text) ++ [44] ++ newline indent) indent
        (.cons value' rest) writable.2 (by omega) value' rest rfl
    rw [Elements.write]
    rw [written, written']
    refine ⟨before, text, _, ?_, blankBefore, isValue, .cons allBlank_nil ((newline_blank indent).append blankBefore') isValue'
      isTail'⟩
    simp

end

theorem isText_write {node : Node Number} (writable : node.Writable) (nested : node.depth ≤ maxLevel) (indent : Int) :
    IsText (codeRules number) maxLevel (node.write printf [] indent) node := by
  obtain ⟨blank, text, written, isBlank, isValue⟩ := Node.write_value maxLevel [] indent node writable nested
  exact ⟨blank, text, [], by rw [written]; simp, isBlank, allBlank_nil, isValue⟩

/-- Both layouts are read back as the tree that was written. -/
theorem jsonParse_write (strtod : List UInt8 → Nat × Number) (printf : Number → List UInt8) {node : Node Number}
    (writable : node.Writable) (nested : node.depth ≤ maxLevel) :
    jsonParse strtod (jsonWriteWrbuf printf node []) = some node ∧
      jsonParse strtod (jsonWriteWrbufPretty printf node []) = some node := by
  -- without numbers in the tree, `strtod` is never asked
  have reads : ReadsNumbers strtod fun _ _ => False := fun _ _ _ _ impossible _ => impossible.elim
  constructor
  · exact (isText_write writable nested (-1)).parsed reads
  · exact (isText_write writable nested 0).parsed reads

end

def sampleNode : Node Unit :=
  .object (.cons [34, 1, 92] (.array (.cons (.array .nil) (.cons (.object .nil) (.cons (.string [195, 169, 10]) .nil)))) .nil)

theorem sampleNode_written :
    jsonParse (fun _ => (0, ())) (jsonWriteWrbuf (fun _ => []) sampleNode []) = some sampleNode ∧
      jsonParse (fun _ => (0, ())) (jsonWriteWrbufPretty (fun _ => []) sampleNode []) = some sampleNode :=
  jsonParse_write _ _ (by simp [sampleNode, Node.Writable, Members.Writable, Elements.Writable])
    (by simp [sampleNode, Node.depth, Members.depth, Elements.depth, maxLevel])

end Yaz.Json
