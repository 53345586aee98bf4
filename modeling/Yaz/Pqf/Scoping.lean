import Yaz.Pqf.Consistency
import Yaz.Pqf.Recognition

/-! Which attributes an operand has, and where a specification takes its type and value from. -/

set_option autoImplicit false

namespace Yaz.Pqf
open List Yaz.Comstack

theorem tokenLength_stop {sepChar : UInt8} (noDigit : isDigit sepChar = false) (buf : List UInt8) :
    NoDigit (buf.drop (tokenLength sepChar buf)) := by
  intro c first
  fun_induction tokenLength sepChar buf with
  | case1 => simp at first
  | case2 =>
    simp only [drop_zero, head?_cons, Option.mem_def, Option.some.injEq] at first
    rwa [← first]
  | case3 => simp at first
  | case4 =>
    simp only [drop_zero, head?_cons, Option.mem_def, Option.some.injEq] at first
    rwa [← first]
  | case5 d rest _ ih => exact ih first
  | case6 c' d rest _ _ ih => exact ih first

theorem lex_separated {li : Parser} (token : (lex li).queryLook ≠ .ends) (digit : (lex li).lexBuf.head?.any isDigit = true) :
    (lex li).lexLen ≤ (lex li).lexBuf.length ∧ NoDigit ((lex li).lexBuf.drop (lex li).lexLen) := by
  have notBlank : li.queryPtr.dropWhile (· = 32) ≠ [] := by
    intro blank
    rw [lex_blank blank] at token
    exact token rfl
  refine ⟨(lex_within notBlank).1, ?_⟩
  rcases opened : openSep (li.queryPtr.dropWhile (· = 32)) with ⟨sepChar, buf⟩
  have known : sepChar = 125 ∨ sepChar = 34 ∨ sepChar = 32 := by
    have known := openSep_sepChar (li.queryPtr.dropWhile (· = 32))
    rwa [opened] at known
  by_cases numbered : buf.head? = some 64 ∧ (buf.drop 1).head?.any isDigit
  · have read : (lex li).lexBuf = buf := by
      simp only [lex, queryToken, opened, if_neg notBlank, if_pos numbered]
    rw [read, numbered.1] at digit
    exact absurd digit (by decide)
  · rw [lex_token li notBlank opened numbered]
    apply tokenLength_stop
    rcases known with rfl | rfl | rfl <;> rfl

/-- A specification that is accepted: the attribute set in front of the type, if there is one, and the parser at the token with the
type; `at'` is where `=` is found, and `value` all that is behind it. -/
structure Spec (Oid : Type) where
  set : Option Oid
  token : Parser
  at' : Nat
  value : List UInt8
  found : splitEquals token.lexBuf = some (at', value)
  typed : token.lexBuf.head?.any isDigit = true
  within : token.lexLen ≤ token.lexBuf.length
  separated : NoDigit (token.lexBuf.drop token.lexLen)

inductive Syntax (Oid : Type) where
  | term (term : Term)
  | resultSet (name : List UInt8)
  | attr (spec : Spec Oid) (query : Syntax Oid)
  | complex (op : Operator) (s1 s2 : Syntax Oid)

section
variable {Oid : Type}

theorem Spec.ext_token {spec spec' : Spec Oid} (set : spec.set = spec'.set) (token : spec.token = spec'.token) : spec = spec' := by
  obtain ⟨set₁, token₁, at₁, value₁, found₁, _, _, _⟩ := spec
  obtain ⟨set₂, token₂, at₂, value₂, found₂, _, _, _⟩ := spec'
  obtain rfl : set₁ = set₂ := set
  obtain rfl : token₁ = token₂ := token
  obtain ⟨rfl, rfl⟩ : at₁ = at₂ ∧ value₁ = value₂ := by
    rw [found₁, Option.some.injEq, Prod.mk.injEq] at found₂
    exact found₂
  rfl

/-- What is between `=` and the end of the token. -/
def Spec.inside (spec : Spec Oid) : List UInt8 := spec.value.take (spec.token.lexLen - (spec.at' + 1))

def Spec.attr (spec : Spec Oid) (before : Option Oid) : Attr Oid :=
  let type := odrAtoi spec.token.lexBuf
  if spec.inside.all isDigit then { type, value := odrAtoi spec.value, text := none, set := spec.set.or before }
  else { type, value := 0, text := some (cString (escapeString spec.inside)), set := spec.set.or before }

variable (spec : Spec Oid)

theorem parseTypeValue_attr (before : Option Oid) :
    parseTypeValue spec.token (spec.set.or before) spec.at' spec.value = (some (spec.attr before), spec.token) := by
  rw [parseTypeValue, if_neg (not_not_intro spec.typed), Spec.attr, Spec.inside]
  dsimp only
  split <;> rfl

def Syntax.specs : Syntax Oid → List (Spec Oid)
  | .term _ => []
  | .resultSet _ => []
  | .attr spec query => spec :: query.specs
  | .complex _ s1 s2 => s1.specs ++ s2.specs

variable (attset : List UInt8 → Option Oid)

/-- The specification behind `@attr`. -/
inductive SpecRead : Parser → Spec Oid → Prop where
  | plain {li : Parser} {spec : Spec Oid} : (lex li).queryLook ≠ .ends → spec.set = none → spec.token = lex li →
      spec.at' ≤ (lex li).lexLen → SpecRead li spec
  | named {li : Parser} {spec : Spec Oid} {set : Oid} : (lex li).queryLook ≠ .ends →
      (∀ split ∈ splitEquals (lex li).lexBuf, (lex li).lexLen < split.1) → queryOidGetvalbyname attset (lex li) = some set →
      (lex (lex li)).queryLook ≠ .ends → spec.set = some set → spec.token = lex (lex li) → SpecRead li spec

inductive Reads : Parser → Syntax Oid → Parser → Prop where
  | term {li : Parser} : li.queryLook = .text → Reads li (.term (zTermCreate li.termType (escapeString li.lexeme))) (lex li)
  | resultSet {li : Parser} : li.queryLook = .set → (lex li).queryLook ≠ .ends → Reads li (.resultSet (lex li).lexeme) (lex (lex li))
  | attr {li last : Parser} {spec : Spec Oid} {query : Syntax Oid} : li.queryLook = .attr → SpecRead attset li spec →
      Reads (lex spec.token) query last → Reads li (.attr spec query) last
  | termType {li last : Parser} {query : Syntax Oid} : li.queryLook = .termType → Reads (rpnTermType (lex li)) query last →
      Reads li query last
  | complex {li li₁ li₂ li₃ : Parser} {op : Operator} {s1 s2 : Syntax Oid} : rpnOperator li = (some op, li₁) → Reads (lex li₁) s1 li₂ →
      Reads li₂ s2 li₃ → Reads li (.complex op s1 s2) li₃

def QueryReads (bib1 : Oid) (qbuf : List UInt8) (query : Syntax Oid) : Prop :=
  ∃ last : Parser, Reads attset (topSet attset bib1 (pqfParserBegin yazPqfCreate qbuf)).2 query last ∧ last.queryLook = .ends

def ScopedList (path : List (Attr Oid)) (elements : List (AttributeElement Oid)) : Prop :=
  ∀ type : Int64, elements.filter (fun element => element.attributeType = type) =
    ((path.filter fun attr => attr.type = type).getLast?.map Attr.element).toList

inductive Scoped : List (Attr Oid) → Syntax Oid → Stored Oid → Prop where
  | term {path : List (Attr Oid)} {elements : List (AttributeElement Oid)} (term : Term) : ScopedList path elements →
      Scoped path (.term term) (.apt ⟨some elements, term⟩)
  | resultSet (path : List (Attr Oid)) (name : List UInt8) : Scoped path (.resultSet name) (.resultSet name)
  | attr {path : List (Attr Oid)} {spec : Spec Oid} {query : Syntax Oid} {tree : Stored Oid} :
      Scoped (path ++ [spec.attr (path.getLast?.bind (·.set))]) query tree → Scoped path (.attr spec query) tree
  | complex {path : List (Attr Oid)} (op : Operator) {s1 s2 : Syntax Oid} {tree1 tree2 : Stored Oid} :
      Scoped path s1 tree1 → Scoped path s2 tree2 → Scoped path (.complex op s1 s2) (.complex op tree1 tree2)

def Spec.alone (spec : Spec Oid) : Parser := { spec.token with lexBuf := spec.token.lexeme }

/-- A specification has the form `type=value` inside of its token, from which alone its type and value are read. -/
def Spec.OwnToken (spec : Spec Oid) : Prop :=
  ∃ split, splitEquals spec.token.lexeme = some split ∧
    (parseTypeValue spec.alone spec.set split.1 split.2).1 = some (spec.attr none)

/-- The `=` is inside of the token, and the value is not empty, unless what is behind it is no number either. -/
def Spec.Inside (spec : Spec Oid) : Prop :=
  spec.at' < spec.token.lexLen ∧ (spec.at' + 1 < spec.token.lexLen ∨ odrAtoi spec.value = 0)

variable {attset}

theorem lastOfType_filter (attrs : List (Attr Oid)) (seen : List Int64) (type : Int64) :
    (lastOfType attrs seen).filter (fun element => element.attributeType = type) =
      if type ∈ seen then [] else ((attrs.filter fun attr => attr.type = type).head?.map Attr.element).toList := by
  induction attrs generalizing seen with
  | nil => simp [lastOfType]
  | cons attr _ ih =>
    rw [lastOfType]
    by_cases known : attr.type ∈ seen
    · rw [if_pos known, ih]
      by_cases this : attr.type = type
      · rw [if_pos (this ▸ known), if_pos (this ▸ known)]
      · rw [filter_cons_of_neg (by simpa using this)]
    · rw [if_neg known]
      by_cases this : attr.type = type
      · have first : attr.element.attributeType = type := this
        rw [filter_cons_of_pos (by simpa using first), ih, if_pos (by rw [this]; exact mem_cons_self),
          if_neg (this ▸ known), filter_cons_of_pos (by simpa using this)]
        rfl
      · have first : ¬ attr.element.attributeType = type := this
        rw [filter_cons_of_neg (by simpa using first), ih, filter_cons_of_neg (by simpa using this)]
        simp only [mem_cons, Ne.symm this, false_or]

theorem scopedList_getAttributeList (path : List (Attr Oid)) : ScopedList path (getAttributeList path) := by
  intro type
  rw [getAttributeList, lastOfType_filter, if_neg not_mem_nil, filter_reverse, head?_reverse]

def specAt {li : Parser} (token : (lex li).queryLook ≠ .ends) (set : Option Oid) (split : Nat × List UInt8)
    (found : splitEquals (lex li).lexBuf = some split) (typed : (lex li).lexBuf.head?.any isDigit = true) : Spec Oid :=
  { set := set, token := lex li, at' := split.1, value := split.2, found := found, typed := typed
    within := (lex_separated token typed).1, separated := (lex_separated token typed).2 }

variable {li next : Parser}

theorem parseTypeValue_typed {set : Option Oid} {at' : Nat} {value : List UInt8} {attr : Attr Oid}
    (read : parseTypeValue li set at' value = (some attr, next)) : li.lexBuf.head?.any isDigit = true := by
  rw [parseTypeValue] at read
  by_contra noDigit
  rw [if_pos noDigit] at read
  simp at read

theorem named_specRead {attr : Attr Oid} (token : (lex li).queryLook ≠ .ends)
    (outside : ∀ split ∈ splitEquals (lex li).lexBuf, (lex li).lexLen < split.1)
    (read : pQueryParseAttr.named attset (lex li) = (some attr, next)) (before : Option Oid) :
    ∃ spec : Spec Oid, SpecRead attset li spec ∧ attr = spec.attr before ∧ next = spec.token := by
  rw [pQueryParseAttr.named] at read
  cases known : queryOidGetvalbyname attset (lex li) with
  | none => simp [known] at read
  | some set =>
    rw [known] at read
    dsimp only at read
    split at read
    · simp at read
    next token' =>
      split at read
      · simp at read
      next at' value found =>
        have typed := parseTypeValue_typed read
        have parsed := parseTypeValue_attr (specAt token' (some set) _ found typed) before
        have same := parsed.symm.trans read
        rw [Prod.mk.injEq, Option.some.injEq] at same
        exact ⟨_, .named token outside known token' rfl rfl, same.1.symm, same.2.symm⟩

theorem rpnAttr_specRead {attrs attrs' : List (Attr Oid)} (read : rpnAttr attset li attrs = (some attrs', next)) :
    ∃ spec : Spec Oid, SpecRead attset li spec ∧ attrs' = attrs ++ [spec.attr (attrs.getLast?.bind (·.set))] ∧ next = lex spec.token := by
  rw [rpnAttr] at read
  split at read
  · simp at read
  next token =>
    split at read
    · simp at read
    · split at read
      · simp at read
      next attr li₁ parsed =>
        have spec : ∃ spec : Spec Oid, SpecRead attset li spec ∧ attr = spec.attr (attrs.getLast?.bind (·.set)) ∧ li₁ = spec.token := by
          rw [pQueryParseAttr] at parsed
          cases found : splitEquals (lex li).lexBuf with
          | none =>
            rw [found] at parsed
            exact named_specRead token (fun split is => by rw [found] at is; simp at is) parsed _
          | some split =>
            rw [found] at parsed
            dsimp only at parsed
            split at parsed
            next outside =>
              refine named_specRead token (fun split' is => ?_) parsed _
              rw [found] at is
              exact Option.some.inj is ▸ outside
            next inside =>
              have typed := parseTypeValue_typed parsed
              have same := (parseTypeValue_attr (specAt token none _ found typed) (attrs.getLast?.bind (·.set))).symm.trans parsed
              rw [Prod.mk.injEq, Option.some.injEq] at same
              exact ⟨_, .plain token rfl rfl (Nat.not_lt.mp inside), same.1.symm, same.2.symm⟩
        obtain ⟨spec, specRead, rfl, rfl⟩ := spec
        simp only [Prod.mk.injEq, Option.some.injEq] at read
        exact ⟨spec, specRead, read.1.symm, read.2.symm⟩

theorem rpnStructureIn_scoped {rounds : Nat} {num : Nat} {arrays arrays' : Arrays Oid} {tree : Stored Oid}
    (read : rpnStructureIn attset rounds li num arrays = (some tree, next, arrays')) (complete : tree.Complete) :
    ∃ query : Syntax Oid, Reads attset li query next ∧ Scoped (arrays.entries num) query tree := by
  induction rounds generalizing li next num arrays arrays' tree with
  | zero => simp [rpnStructureIn] at read
  | succ rounds ih =>
    cases rpnStructureIn_round read with
    | @complex op li₁ li₂ _ s1 s2 arrays₁ _ operator first second =>
      obtain ⟨query1, reads1, scoped1⟩ := ih first complete.1
      obtain ⟨query2, reads2, scoped2⟩ := ih second complete.2
      -- what the first operand has written is behind the attributes of the path
      have kept := (rpnStructureIn_refines attset rounds (lex li₁) num arrays).2
      rw [first] at kept
      rw [show arrays₁.entries num = arrays.entries num from kept] at scoped2
      exact ⟨_, .complex operator reads1 reads2, .complex op scoped1 scoped2⟩
    | term look =>
      refine ⟨_, .term look, .term _ ?_⟩
      rw [getAttributeListIn_eq]
      exact scopedList_getAttributeList _
    | resultSet look named => exact ⟨_, .resultSet look named, .resultSet _ _⟩
    | attr look written tail =>
      have entries := (rpnAttrIn_eq attset li num arrays).1
      rw [written] at entries
      obtain ⟨spec, specRead, attrs, rfl⟩ := rpnAttr_specRead entries
      obtain ⟨query, reads, below⟩ := ih tail complete
      rw [attrs] at below
      exact ⟨_, .attr look specRead reads, .attr below⟩
    | termType look tail =>
      obtain ⟨query, reads, below⟩ := ih tail complete
      exact ⟨query, .termType look reads, below⟩
    | attrset => exact complete.elim

theorem SpecRead.unique {spec spec' : Spec Oid} (read : SpecRead attset li spec) (read' : SpecRead attset li spec') :
    spec = spec' := by
  cases read with
  | plain token set isToken inside =>
    cases read' with
    | plain _ set' isToken' => exact Spec.ext_token (set.trans set'.symm) (isToken.trans isToken'.symm)
    | named _ outside =>
      -- the `=` is inside of the token, or is not
      have found := spec.found
      rw [isToken] at found
      exact absurd (outside _ found) (Nat.not_lt.mpr inside)
  | named _ outside known _ set isToken =>
    cases read' with
    | plain _ _ isToken' inside =>
      have found := spec'.found
      rw [isToken'] at found
      exact absurd (outside _ found) (Nat.not_lt.mpr inside)
    | named _ _ known' _ set' isToken' =>
      rw [known] at known'
      exact Spec.ext_token (set.trans (known'.trans set'.symm)) (isToken.trans isToken'.symm)

theorem Reads.unique {next' : Parser} {query query' : Syntax Oid} (reads : Reads attset li query next)
    (reads' : Reads attset li query' next') : query = query' ∧ next = next' := by
  have operator {li li₁ : Parser} {op : Operator} (read : rpnOperator li = (some op, li₁)) :
      li.queryLook ≠ .text ∧ li.queryLook ≠ .set ∧ li.queryLook ≠ .attr ∧ li.queryLook ≠ .termType := by
    refine ⟨fun look => ?_, fun look => ?_, fun look => ?_, fun look => ?_⟩ <;> simp [rpnOperator, look] at read
  induction reads generalizing query' next' with
  | term look =>
    cases reads' with
    | term => exact ⟨rfl, rfl⟩
    | complex read => exact absurd look (operator read).1
    | _ look' => exact absurd (look.symm.trans look') (by decide)
  | resultSet look =>
    cases reads' with
    | resultSet => exact ⟨rfl, rfl⟩
    | complex read => exact absurd look (operator read).2.1
    | _ look' => exact absurd (look.symm.trans look') (by decide)
  | attr look specRead _ ih =>
    cases reads' with
    | attr _ specRead' reads' =>
      obtain rfl := specRead.unique specRead'
      obtain ⟨rfl, rfl⟩ := ih reads'
      exact ⟨rfl, rfl⟩
    | complex read => exact absurd look (operator read).2.2.1
    | _ look' => exact absurd (look.symm.trans look') (by decide)
  | termType look _ ih =>
    cases reads' with
    | termType _ reads' => exact ih reads'
    | complex read => exact absurd look (operator read).2.2.2
    | _ look' => exact absurd (look.symm.trans look') (by decide)
  | complex read _ _ ih1 ih2 =>
    cases reads' with
    | complex read' reads1 reads2 =>
      rw [read, Prod.mk.injEq, Option.some.injEq] at read'
      obtain ⟨rfl, rfl⟩ := read'
      obtain ⟨rfl, rfl⟩ := ih1 reads1
      obtain ⟨rfl, rfl⟩ := ih2 reads2
      exact ⟨rfl, rfl⟩
    | term look => exact absurd look (operator read).1
    | resultSet look => exact absurd look (operator read).2.1
    | attr look => exact absurd look (operator read).2.2.1
    | termType look => exact absurd look (operator read).2.2.2

theorem digitsValue_front (digits : List UInt8) {rest : List UInt8} (stops : NoDigit rest) (value : Nat) :
    digitsValue 10 (digits ++ rest) value = digitsValue 10 digits value := by
  induction digits generalizing value with
  | nil => exact digitsValue_stop stops value
  | cons _ _ ih =>
    rw [cons_append, digitsValue, digitsValue]
    split
    · split
      · exact ih _
      · rfl
    · rfl

theorem odrAtoi_front {mem : List UInt8} (digit : mem.head?.any isDigit = true) {rest : List UInt8} (stops : NoDigit rest) :
    odrAtoi (mem ++ rest) = odrAtoi mem := by
  have digit' : (mem ++ rest).head?.any isDigit = true := by
    cases mem with
    | nil => simp at digit
    | cons => exact digit
  rw [odrAtoi, odrAtoi, scanInt_digit digit, scanInt_digit digit', digitsValue_front mem stops]

theorem Spec.split :
    ∃ before, spec.token.lexBuf = before ++ 61 :: spec.value ∧ 61 ∉ before ∧ before.length = spec.at' := by
  have found := spec.found
  rw [splitEquals] at found
  split at found
  next member =>
    obtain ⟨before, value, split, bare⟩ := eq_append_cons_of_mem member
    have read := splitEquals_append bare value
    rw [← split, spec.found, Option.some.injEq, Prod.mk.injEq] at read
    exact ⟨before, read.2 ▸ split, bare, read.1.symm⟩
  · simp at found

theorem Spec.lexeme_inside (inside : spec.at' < spec.token.lexLen) :
    splitEquals spec.token.lexeme = some (spec.at', spec.inside) := by
  obtain ⟨before, text, bare, length⟩ := spec.split
  have lexeme : spec.token.lexeme = before ++ 61 :: spec.inside := by
    obtain ⟨more, isMore⟩ : ∃ more, spec.token.lexLen = before.length + (more + 1) := ⟨spec.token.lexLen - before.length - 1, by omega⟩
    have rest : spec.token.lexLen - (spec.at' + 1) = more := by omega
    rw [Parser.lexeme, text, Spec.inside, rest, isMore, take_length_add_append, take_succ_cons]
  rw [lexeme, splitEquals_append bare, length]

theorem Spec.value_split (inside : spec.at' < spec.token.lexLen) :
    ∃ rest, spec.value = spec.inside ++ rest ∧ NoDigit rest ∧ (spec.inside = [] ↔ ¬ spec.at' + 1 < spec.token.lexLen) := by
  obtain ⟨before, text, -, length⟩ := spec.split
  have within := spec.within
  have separated := spec.separated
  obtain ⟨more, isMore⟩ : ∃ more, spec.token.lexLen = before.length + (more + 1) := ⟨spec.token.lexLen - before.length - 1, by omega⟩
  have rest : spec.token.lexLen - (spec.at' + 1) = more := by omega
  rw [text, isMore, drop_length_add_append, drop_succ_cons] at separated
  rw [text, length_append, length_cons] at within
  refine ⟨spec.value.drop more, by rw [Spec.inside, rest, take_append_drop], separated, ?_⟩
  rw [Spec.inside, rest, take_eq_nil_iff]
  constructor
  · rintro (none | none)
    · omega
    · rw [none, length_nil] at within
      omega
  · intro short
    exact .inl (by omega)

theorem Spec.lexeme_typed (inside : spec.at' < spec.token.lexLen) : spec.token.lexeme.head?.any isDigit = true := by
  have found := spec.lexeme_inside inside
  have whole : spec.token.lexeme ++ spec.token.lexBuf.drop spec.token.lexLen = spec.token.lexBuf := take_append_drop ..
  have typed := spec.typed
  cases text : spec.token.lexeme with
  | nil =>
    rw [text] at found
    simp [splitEquals] at found
  | cons =>
    rw [← whole, text] at typed
    exact typed

theorem Spec.type_lexeme (inside : spec.at' < spec.token.lexLen) :
    odrAtoi spec.token.lexeme = odrAtoi spec.token.lexBuf := by
  have whole : spec.token.lexeme ++ spec.token.lexBuf.drop spec.token.lexLen = spec.token.lexBuf := take_append_drop ..
  rw [← odrAtoi_front (spec.lexeme_typed inside) spec.separated, whole]

theorem Spec.alone_iff (inside : spec.at' < spec.token.lexLen) :
    (parseTypeValue spec.alone spec.set spec.at' spec.inside).1 = some (spec.attr none) ↔
      (spec.inside.all isDigit = true → odrAtoi spec.inside = odrAtoi spec.value) := by
  have typed : spec.alone.lexBuf.head?.any isDigit = true := spec.lexeme_typed inside
  have type : odrAtoi spec.alone.lexBuf = odrAtoi spec.token.lexBuf := spec.type_lexeme inside
  have again : spec.inside.take (spec.alone.lexLen - (spec.at' + 1)) = spec.inside := by
    rw [Spec.inside, take_take]
    exact congrArg (spec.value.take ·) (Nat.min_self _)
  rw [parseTypeValue, if_neg (not_not_intro typed), Spec.attr, Option.or_none]
  rw [again, type]
  by_cases digits : spec.inside.all isDigit = true
  · rw [if_pos digits, if_pos digits]
    simp [digits]
  · rw [if_neg digits, if_neg digits]
    simp [digits]

theorem Spec.number_iff (inside : spec.at' < spec.token.lexLen) :
    (spec.inside.all isDigit = true → odrAtoi spec.inside = odrAtoi spec.value) ↔
      (spec.at' + 1 < spec.token.lexLen ∨ odrAtoi spec.value = 0) := by
  obtain ⟨rest, value, stops, empty⟩ := spec.value_split inside
  by_cases some' : spec.at' + 1 < spec.token.lexLen
  · refine iff_of_true (fun digits => ?_) (.inl some')
    obtain ⟨c, more, shape⟩ := exists_cons_of_ne_nil fun none => (empty.mp none) some'
    have first : spec.inside.head?.any isDigit = true := by
      rw [shape, all_cons, Bool.and_eq_true] at digits
      rw [shape]
      exact digits.1
    rw [value, odrAtoi_front first stops]
  · -- nothing is inside, and nothing is the number 0
    rw [empty.mpr some']
    constructor
    · intro same
      exact .inr (same rfl).symm
    · rintro (some'' | zero) -
      · exact absurd some'' some'
      · rw [zero]
        rfl

theorem Spec.ownToken_iff : spec.OwnToken ↔ spec.Inside := by
  rw [Spec.OwnToken, Spec.Inside]
  by_cases inside : spec.at' < spec.token.lexLen
  · have found := spec.lexeme_inside inside
    rw [and_iff_right inside, ← spec.number_iff inside, ← spec.alone_iff inside]
    constructor
    · rintro ⟨split, found', read⟩
      rw [found, Option.some.injEq] at found'
      rw [← found'] at read
      exact read
    · intro read
      exact ⟨_, found, read⟩
  · -- without the `=` the token is no specification
    refine iff_of_false ?_ fun both => inside both.1
    rintro ⟨split, found, -⟩
    obtain ⟨before, text, bare, length⟩ := spec.split
    rw [Parser.lexeme, text, take_append_of_le_length (by omega), splitEquals,
      if_neg fun member => bare (mem_of_mem_take member)] at found
    simp at found

variable {bib1 : Oid}

theorem pQueryRpnIn_scoped {arrays : Arrays Oid} {qbuf : List UInt8} {query : Oid × Stored Oid}
    (accepted : pQueryRpnIn attset bib1 arrays qbuf = some query) :
    ∃ text : Syntax Oid, QueryReads attset bib1 qbuf text ∧ Scoped [] text query.2 := by
  have complete : query.2.Complete := pQueryRpnMkIn_complete accepted
  rw [pQueryRpnIn, yazPqfParseIn, pQueryRpnMkIn] at accepted
  split at accepted
  · simp at accepted
  next set li top =>
    split at accepted
    · simp at accepted
    next tree last arrays' stored =>
      split at accepted
      · simp at accepted
      next ends =>
        simp only [Option.some.injEq] at accepted
        rw [← accepted] at complete ⊢
        obtain ⟨text, reads, below⟩ := rpnStructureIn_scoped stored complete
        refine ⟨text, ⟨last, ?_, not_not.mp ends⟩, below⟩
        rw [top]
        exact reads

theorem QueryReads.unique {qbuf : List UInt8} {text text' : Syntax Oid} (reads : QueryReads attset bib1 qbuf text)
    (reads' : QueryReads attset bib1 qbuf text') : text = text' := by
  obtain ⟨_, reads, _⟩ := reads
  obtain ⟨_, reads', _⟩ := reads'
  exact (reads.unique reads').1

/-- The operands of an accepted query have the attributes of their paths, and all of them are those of their own tokens if and only if
each specification of the text has its value inside of its token. -/
theorem attributes_scoped_iff {arrays : Arrays Oid} {qbuf : List UInt8} {query : Oid × Stored Oid}
    (accepted : pQueryRpnIn attset bib1 arrays qbuf = some query) :
    ∃ text : Syntax Oid, (∀ text', QueryReads attset bib1 qbuf text' ↔ text' = text) ∧
      ((Scoped [] text query.2 ∧ ∀ spec ∈ text.specs, spec.OwnToken) ↔ ∀ spec ∈ text.specs, spec.Inside) := by
  obtain ⟨text, reads, below⟩ := pQueryRpnIn_scoped accepted
  refine ⟨text, fun text' => ⟨fun reads' => reads'.unique reads, fun same => same ▸ reads⟩, ?_⟩
  rw [and_iff_right below]
  exact forall₂_congr fun spec _ => spec.ownToken_iff

end

def onlyBib1 (name : List UInt8) : Option Unit := if name = ascii "bib-1" then some () else none

def blankArrays : Arrays Unit := ⟨fun _ => 0, fun _ => none, fun _ => none⟩

theorem attributes_scoped_and :
    ∃ text : Syntax Unit, (∀ text', QueryReads onlyBib1 () (ascii "@and @attr 1=4 x @attr 2=3 y") text' ↔ text' = text) ∧
      ((Scoped [] text (.complex .and (.apt ⟨some [⟨none, 1, .numeric 4⟩], .general (ascii "x")⟩)
          (.apt ⟨some [⟨none, 2, .numeric 3⟩], .general (ascii "y")⟩)) ∧ ∀ spec ∈ text.specs, spec.OwnToken) ↔
        ∀ spec ∈ text.specs, spec.Inside) :=
  @attributes_scoped_iff Unit onlyBib1 () blankArrays (ascii "@and @attr 1=4 x @attr 2=3 y")
    ((), .complex .and (.apt ⟨some [⟨none, 1, .numeric 4⟩], .general (ascii "x")⟩)
      (.apt ⟨some [⟨none, 2, .numeric 3⟩], .general (ascii "y")⟩)) (by decide +kernel)

/-- In `@attr bib-1 4 @attr 1=4 x` the first specification is read as `4=4`: its token is `4`. -/
theorem attributes_other_token :
    pQueryRpnIn onlyBib1 () blankArrays (ascii "@attr bib-1 4 @attr 1=4 x") =
        some ((), .apt ⟨some [⟨some (), 1, .numeric 4⟩, ⟨some (), 4, .numeric 4⟩], .general (ascii "x")⟩) ∧
      ∃ text : Syntax Unit, QueryReads onlyBib1 () (ascii "@attr bib-1 4 @attr 1=4 x") text ∧
        ¬ ∀ spec ∈ text.specs, spec.OwnToken := by
  let start := (topSet onlyBib1 () (pqfParserBegin yazPqfCreate (ascii "@attr bib-1 4 @attr 1=4 x"))).2
  let number := lex (lex start)
  let title := lex (lex number)
  have numberToken : number.queryLook ≠ .ends := by decide
  have titleToken : title.queryLook ≠ .ends := by decide
  let first : Spec Unit := specAt numberToken (some ()) (9, ascii "4 x") (by decide) (by decide)
  let second : Spec Unit := specAt titleToken none (1, ascii "4 x") (by decide) (by decide)
  have outside : ¬ 9 < number.lexLen := by decide
  have inside : 1 ≤ title.lexLen := by decide
  have further : (lex number).queryLook = .attr := by decide
  have term : (lex title).queryLook = .text := by decide
  have reads : Reads onlyBib1 start (.attr first (.attr second (.term _))) (lex (lex title)) :=
    .attr (by decide) (.named (by decide) (by decide) (by decide) numberToken rfl rfl)
      (.attr further (.plain titleToken rfl rfl inside) (.term term))
  refine ⟨by decide, _, ⟨_, reads, by decide⟩, fun all => ?_⟩
  have own := all first mem_cons_self
  exact outside (first.ownToken_iff.mp own).1

end Yaz.Pqf
