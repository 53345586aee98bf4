import Yaz.Pqf.FacetList
import Yaz.Pqf.Scoping

/-! What `parse_facet` makes of attributes one behind the other: words that are read, and names that cannot be. -/

set_option autoImplicit false

namespace Yaz.Pqf
open List
open Yaz.Comstack (ascii isDigit)

/-! ### Words -/

structure AttrWord where
  digit : UInt8
  value : List UInt8
  deriving DecidableEq

def AttrWord.text (word : AttrWord) : List UInt8 := word.digit :: 61 :: word.value

structure AttrWord.Readable (word : AttrWord) : Prop where
  digit : isDigit word.digit = true
  some : word.value ≠ []
  plain : ∀ c ∈ word.value, c ≠ 32 ∧ c ≠ 92 ∧ c ≠ 0

def AttrWord.attr {Oid : Type} (word : AttrWord) : Attr Oid :=
  { type := odrAtoi [word.digit]
    value := if word.value.all isDigit then odrAtoi word.value else 0
    text := if word.value.all isDigit then none else some word.value
    set := none }

def facetText (words : List AttrWord) : List UInt8 := words.flatMap fun word => ascii " @attr " ++ word.text

section
variable {Oid : Type} (attset : List UInt8 → Option Oid)

theorem lexAt_attr (li : Parser) (rest : List UInt8) :
    lexAt li (ascii "@attr " ++ rest) =
      { li with queryPtr := rest, lexBuf := ascii "@attr " ++ rest, lexLen := 5, queryLook := .attr } := by
  have shape : ascii "@attr " ++ rest = [64, 97, 116, 116, 114] ++ 32 :: rest := rfl
  have length : tokenLength 32 ([64, 97, 116, 116, 114] ++ 32 :: rest) = [64, 97, 116, 116, (114 : UInt8)].length :=
    tokenLength_word (by decide) (separated_space rest)
  rw [shape, lexAt_token li rfl (by decide) (by decide) (fun _ => rfl) length, if_pos rfl]
  rfl

theorem lexAt_blankAttr (li : Parser) (rest : List UInt8) : lexAt li (ascii " @attr " ++ rest) = lexAt li (ascii "@attr " ++ rest) :=
  lexAt_separated li (separated_space _)

variable {attrs : List (Attr Oid)}

theorem pQueryParseAttr_word {word : AttrWord} (readable : word.Readable) {li : Parser} {rest : List UInt8}
    (noSet : attrs.getLast?.bind (·.set) = none) (separated : Separated rest) (buf : li.lexBuf = word.text ++ rest)
    (len : li.lexLen = word.text.length) : pQueryParseAttr attset li attrs = (some word.attr, li) := by
  obtain ⟨c, value⟩ := word
  obtain ⟨digit, some, plain⟩ := readable
  have shape : li.lexBuf = [c] ++ 61 :: (value ++ rest) := buf
  have noEquals : 61 ∉ [c] := fun mem => (digit_plain digit).2.2.1 (mem_singleton.mp mem).symm
  have split : splitEquals li.lexBuf = Option.some (1, value ++ rest) := by rw [shape, splitEquals_append noEquals, length_singleton]
  have stops : NoDigit (61 :: (value ++ rest)) := by
    intro d first
    rw [head?_cons, Option.mem_some_iff] at first
    rw [← first]
    decide
  have type : odrAtoi li.lexBuf = odrAtoi [c] := by
    rw [shape]
    exact odrAtoi_front (by simpa using digit) stops
  have inside : (value ++ rest).take (li.lexLen - (1 + 1)) = value := by
    have two : (AttrWord.mk c value).text.length - (1 + 1) = value.length := rfl
    rw [len, two, take_left]
  have starts : li.lexBuf.head?.any isDigit = true := by
    rw [shape]
    exact digit
  rw [pQueryParseAttr, split]
  dsimp only
  rw [if_neg (by rw [len, AttrWord.text]; simp), parseTypeValue, if_neg (not_not.mpr starts)]
  dsimp only
  rw [inside, type, noSet, AttrWord.attr]
  split
  next digits =>
    have first : value.head?.any isDigit = true := by
      obtain ⟨d, others, rfl⟩ := exists_cons_of_ne_nil some
      exact all_eq_true.mp digits d mem_cons_self
    rw [odrAtoi_front first (noDigit_separated separated)]
  next other =>
    have noBackslash : 92 ∉ value := fun mem => (plain 92 mem).2.1 rfl
    have noNul : 0 ∉ value := fun mem => (plain 0 mem).2.2 rfl
    rw [escapeString_noBackslash noBackslash, cString_eq_self noNul]

theorem rpnAttr_word {word : AttrWord} (readable : word.Readable) (li : Parser) {rest : List UInt8}
    (noSet : attrs.getLast?.bind (·.set) = none) (few : attrs.length < maxAttr) (separated : Separated rest) :
    ∃ next, rpnAttr attset (lexAt li (ascii "@attr " ++ (word.text ++ rest))) attrs = (some (attrs ++ [word.attr]), lexAt next rest) := by
  have first := digit_plain readable.digit
  have plain : ∀ d ∈ word.text, d ≠ 32 ∧ d ≠ 92 := by
    intro d mem
    rcases mem_cons.mp mem with rfl | mem
    · exact ⟨first.1, first.2.1⟩
    rcases mem_cons.mp mem with rfl | mem
    · decide
    · exact ⟨(readable.plain d mem).1, (readable.plain d mem).2.1⟩
  have starts : word.text = word.digit :: 61 :: word.value := rfl
  obtain ⟨read, buf, len⟩ := lexAt_word (lexAt li (ascii "@attr " ++ (word.text ++ rest))) starts plain
    ⟨first.2.2.2.1, first.2.2.2.2.1, first.2.2.2.2.2⟩ separated
  refine ⟨lexAt (lexAt li (ascii "@attr " ++ (word.text ++ rest))) (word.text ++ rest), ?_⟩
  have step : lex (lexAt li (ascii "@attr " ++ (word.text ++ rest))) =
    lexAt (lexAt li (ascii "@attr " ++ (word.text ++ rest))) (word.text ++ rest) := by
    rw [lex_eq_lexAt]
    congr 1
  rw [rpnAttr, step]
  rw [if_neg (by rw [read.look]; simp), if_neg (by omega), pQueryParseAttr_word attset readable noSet separated buf len]
  dsimp only
  rw [read.lex, ← lexAt_separated _ separated]

theorem facetText_separated (words : List AttrWord) : Separated (facetText words) := by
  cases words with
  | nil => exact .inl rfl
  | cons => exact .inr rfl

theorem scanAttributes_words {words : List AttrWord} (readable : ∀ word ∈ words, word.Readable) {rounds : Nat}
    (enough : words.length < rounds)
    (li : Parser) (noSet : ∀ attr ∈ attrs, attr.set = none) (few : attrs.length + words.length ≤ maxAttr) :
    ∃ next, scanAttributes attset rounds (lexAt li (facetText words)) attrs = (some (attrs ++ words.map AttrWord.attr), next) ∧
      next.queryLook = .ends := by
  induction words generalizing li attrs rounds with
  | nil =>
    have ends : (lexAt li (facetText [])).queryLook = .ends := rfl
    obtain ⟨rounds, rfl⟩ := Nat.exists_eq_add_of_lt enough
    refine ⟨lexAt li [], ?_, rfl⟩
    rw [scanAttributes]
    split
    next look => rw [ends] at look; cases look
    next look => rw [ends] at look; cases look
    · rw [map_nil, append_nil]
      rfl
  | cons word words ih =>
    obtain ⟨rounds, rfl⟩ : ∃ fewer, rounds = fewer + 1 := ⟨rounds - 1, by omega⟩
    have lastSet : attrs.getLast?.bind (·.set) = none := by
      cases last : attrs.getLast? with
      | none => rfl
      | some attr => exact noSet attr (mem_of_getLast? last)
    rw [length_cons] at few enough
    obtain ⟨next, read⟩ := rpnAttr_word attset (readable word mem_cons_self) li lastSet (by omega) (facetText_separated words)
    have setless : ∀ attr ∈ attrs ++ [word.attr], attr.set = none := by
      intro attr mem
      rcases mem_append.mp mem with old | new
      · exact noSet attr old
      · rw [mem_singleton.mp new]
        rfl
    have fewer : words.length < rounds := by omega
    obtain ⟨last, later, ends⟩ := ih (fun other mem => readable other (mem_cons_of_mem _ mem)) fewer next setless
      (by rw [length_append, length_singleton]; omega)
    refine ⟨last, ?_, ends⟩
    have shape : facetText (word :: words) = ascii " @attr " ++ (word.text ++ facetText words) := by
      rw [facetText, flatMap_cons, append_assoc]
      rfl
    rw [shape, lexAt_blankAttr, scanAttributes]
    have look : (lexAt li (ascii "@attr " ++ (word.text ++ facetText words))).queryLook = .attr := by rw [lexAt_attr]
    rw [look]
    rw [read]
    dsimp only
    rw [later, map_cons, append_assoc, singleton_append]

variable (bib1 : Oid)

theorem topSet_attr {li : Parser} (look : (lex li).queryLook = .attr) : topSet attset bib1 li = (some bib1, lex li) :=
  topSet_default attset bib1 (by rw [look]; exact Look.noConfusion)

theorem getAttributeList_distinct (distinct : (attrs.map (·.type)).Nodup) :
    getAttributeList attrs = (attrs.map Attr.element).reverse := by
  rw [getAttributeList, lastOfType_distinct, map_reverse]
  · rw [map_reverse]
    exact nodup_reverse.mpr distinct
  · exact fun _ _ => not_mem_nil

theorem parseFacet_words {facet : List UInt8} {words : List AttrWord} (readable : ∀ word ∈ words, word.Readable) (some : words ≠ [])
    (few : words.length ≤ maxAttr) (distinct : (words.map fun word => odrAtoi [word.digit]).Nodup)
    (text : facet = facetText words ∨ 32 :: facet = facetText words) :
    parseFacet attset bib1 facet = Option.some { attributes := (words.map fun word => word.attr.element).reverse, terms := [] } := by
  have start : lex (pqfParserBegin yazPqfCreate facet) = lexAt (pqfParserBegin yazPqfCreate facet) (facetText words) := by
    rcases text with whole | blank
    · rw [← whole]
      rfl
    · rw [← blank, lexAt_separated _ (separated_space facet)]
      rfl
  obtain ⟨word, rest, rfl⟩ := exists_cons_of_ne_nil some
  have look : (lex (pqfParserBegin yazPqfCreate facet)).queryLook = .attr := by
    rw [start, facetText, flatMap_cons, append_assoc, lexAt_blankAttr, lexAt_attr]
  have enough : (word :: rest).length < facet.length + 1 := by
    have each : ∀ words : List AttrWord, words.length * 2 ≤ (facetText words).length := by
      intro words
      induction words with
      | nil => exact Nat.le_refl 0
      | cons word =>
        have more : 2 ≤ (ascii " @attr " ++ word.text).length := by
          rw [length_append, AttrWord.text, length_cons, length_cons]
          omega
        rw [facetText, flatMap_cons, length_append, ← facetText, length_cons]
        omega
    have whole := each (word :: rest)
    rw [length_cons] at whole ⊢
    rcases text with same | blank
    · rw [same]
      omega
    · rw [← blank, length_cons] at whole
      omega
  obtain ⟨next, scanned, ends⟩ := scanAttributes_words attset readable enough (pqfParserBegin yazPqfCreate facet)
    (fun _ mem => absurd mem not_mem_nil) (by rw [length_nil, Nat.zero_add]; exact few)
  have attributes : pQueryScanAttributesMk attset bib1 (pqfParserBegin yazPqfCreate facet) =
      (Option.some bib1, Option.some (getAttributeList ((word :: rest).map AttrWord.attr)), next) := by
    have length : (pqfParserBegin yazPqfCreate facet).queryPtr.length = facet.length := rfl
    rw [pQueryScanAttributesMk, topSet_attr attset bib1 look, length, start]
    dsimp only
    rw [scanned, nil_append]
  rw [parseFacet, attributes]
  dsimp only
  rw [Option.map_some, facetTerms, if_neg (by rw [ends]; exact Look.noConfusion), getAttributeList_distinct, map_map]
  · rfl
  · rw [map_map]
    exact distinct

variable {ae : AttributeElement Oid}

theorem mem_lastOfType {seen : List Int64} (mem : ae ∈ lastOfType attrs seen) :
    ∃ attr ∈ attrs, ae = attr.element := by
  induction attrs generalizing seen with
  | nil => cases mem
  | cons attr _ ih =>
    rw [lastOfType] at mem
    split at mem
    · obtain ⟨other, inside, same⟩ := ih mem
      exact ⟨other, mem_cons_of_mem _ inside, same⟩
    · rcases mem_cons.mp mem with rfl | mem
      · exact ⟨attr, mem_cons_self, rfl⟩
      · obtain ⟨other, inside, same⟩ := ih mem
        exact ⟨other, mem_cons_of_mem _ inside, same⟩

def UseFrom (attributes : List (AttributeElement Oid)) (name : List UInt8) : Prop :=
  (∃ n : Int64, name = intText n.toInt) ∨ ∃ ae ∈ attributes, ∃ list, ae.value = .complex list ∧ stringattr list = some name

variable {name : List UInt8}

theorem UseFrom.mono {attributes attributes' : List (AttributeElement Oid)} (from' : UseFrom attributes name)
    (inside : attributes ⊆ attributes') : UseFrom attributes' name :=
  from'.imp_right fun ⟨ae, mem, string⟩ => ⟨ae, inside mem, string⟩

variable {av : FacetAttr}

theorem numattr_useattr {set : Int32 → FacetAttr}
    (found : (numattr ae av set).useattr = some name) (keeps : ∀ n, (set n).useattr = av.useattr) : av.useattr = some name := by
  rw [numattr] at found
  split at found
  · exact (keeps _).symm.trans found
  · exact found

theorem facetAttribute_useattr (found : (facetAttribute ae av).useattr = some name) : av.useattr = some name ∨ UseFrom [ae] name := by
  rw [facetAttribute] at found
  split_ifs at found
  · rw [useattr] at found
    split at found
    next n numeric => exact .inr (.inl ⟨n, (Option.some.inj found).symm⟩)
    next list complex =>
      split at found
      · exact .inl found
      next octets string =>
        split at found
        · exact .inr (.inr ⟨ae, mem_singleton.mpr rfl, list, complex, string.trans found⟩)
        next before given => exact .inl found
  · exact .inl (numattr_useattr found fun _ => rfl)
  · exact .inl (numattr_useattr found fun _ => rfl)
  · exact .inl (numattr_useattr found fun _ => rfl)
  · exact .inl found

theorem useattr_from {attributes : List (AttributeElement Oid)}
    (found : (yazFacetAttrGetZAttributes attributes av).useattr = some name) : av.useattr = some name ∨ UseFrom attributes name := by
  induction attributes generalizing av with
  | nil => exact .inl found
  | cons ae rest ih =>
    have here : (facetAttribute ae av).useattr = some name → av.useattr = some name ∨ UseFrom (ae :: rest) name := fun found =>
      (facetAttribute_useattr found).imp_right fun from' => from'.mono (by simp)
    rw [yazFacetAttrGetZAttributes] at found
    split at found
    · exact here found
    · rcases ih found with before | from'
      · exact here before
      · exact .inr (from'.mono (subset_cons_self _ _))

/-- A value that is the name itself, with text behind the name that starts with a blank: the name has no blank and no backslash. -/
theorem value_plain {behind front mem rest : List UInt8} (split : name ++ 32 :: behind = front ++ (mem ++ rest))
    (plain : ∀ c ∈ behind, c ≠ 92 ∧ c ≠ 34 ∧ c ≠ 123) (same : cString (escapeString mem) = name)
    (token : (∃ c ∈ front, c = 34 ∨ c = 123) ∨ tokenLength 32 (mem ++ rest) = mem.length) : 32 ∉ name ∧ 92 ∉ name := by
  have unescaped := escapeString_unescaped mem
  have cut : name.Sublist (escapeString mem) := by
    rw [← same]
    exact takeWhile_sublist _
  have counts : ∀ c : UInt8, c ≠ 32 → c ∉ behind → name.count c = front.count c + (mem.count c + rest.count c) := by
    intro c noBlank none
    have both := congrArg (List.count c) split
    rwa [count_append, count_cons_of_ne (Ne.symm noBlank), count_eq_zero.mpr none, count_append, count_append,
      Nat.add_zero] at both
  -- the name has all backslashes of the text, and the value has no more than there were in it
  have backslashes := counts 92 (by decide) fun inside => (plain 92 inside).1 rfl
  have fewer := cut.count_le 92
  have less := unescaped.backslashes_le
  have kept : (escapeString mem).count 92 = mem.count 92 := by omega
  rcases token with ⟨quote, inside, isQuote⟩ | token
  · exfalso
    have noBackslash : quote ≠ 92 := by rcases isQuote with rfl | rfl <;> decide
    have noBlank : quote ≠ 32 := by rcases isQuote with rfl | rfl <;> decide
    have none : quote ∉ behind := fun mem => isQuote.elim (plain quote mem).2.1 (plain quote mem).2.2
    have all := counts quote noBlank none
    have more := count_pos_iff.mpr inside
    have fewer := (cut.count_le quote).trans (unescaped.count_le kept noBackslash)
    omega
  have noBlank : 32 ∉ mem := unescaped.noBlank kept token
  refine ⟨?_, ?_⟩
  · have fewer := (cut.count_le 32).trans (unescaped.count_le kept (by decide))
    rw [count_eq_zero.mpr noBlank] at fewer
    exact count_eq_zero.mp (Nat.le_zero.mp fewer)
  have long : name.length ≤ mem.length := cut.length_le.trans unescaped.length_le
  -- the value does not go on behind the name, where there is a blank
  rcases append_eq_append_iff.mp split with ⟨beyond, isFront, isBehind⟩ | ⟨part, isName, isRest⟩
  · cases beyond with
    | nil =>
      cases mem with
      | nil =>
        rw [length_nil, Nat.le_zero, length_eq_zero_iff] at long
        rw [long]
        exact not_mem_nil
      | cons =>
        injection isBehind with isBlank
        exact absurd mem_cons_self (isBlank ▸ noBlank)
    | cons =>
      -- the value is behind the name
      injection isBehind with _ isBehind
      refine count_eq_zero.mp ?_
      have none : mem.count 92 = 0 := count_eq_zero.mpr fun inside =>
        (plain 92 (isBehind ▸ mem_append_right _ (mem_append_left _ inside))).1 rfl
      omega
  have whole : mem = part ∧ rest = 32 :: behind ∧ front = [] := by
    rw [isName, length_append] at long
    rcases append_eq_append_iff.mp isRest with ⟨beyond, isPart, isRest⟩ | ⟨beyond, isMem, isBlank⟩
    · rw [isPart, length_append] at long
      have none : beyond = [] := length_eq_zero_iff.mp (by omega)
      have first : front = [] := length_eq_zero_iff.mp (by omega)
      rw [none] at isPart isRest
      exact ⟨(isPart.trans (append_nil _)).symm, isRest, first⟩
    · cases beyond with
      | nil =>
        rw [append_nil] at isMem
        have first : front = [] := length_eq_zero_iff.mp (by rw [isMem] at long; omega)
        exact ⟨isMem, isBlank.symm, first⟩
      | cons =>
        injection isBlank with isBlank
        rw [isMem, ← isBlank] at noBlank
        exact absurd (mem_append_right _ mem_cons_self) noBlank
  obtain ⟨rfl, rfl, rfl⟩ := whole
  subst isName
  -- the value is the name; without sequences a backslash could be the last octet only, and there it would take the blank
  have noSequence := unescaped.same_length (Nat.le_antisymm unescaped.length_le cut.length_le)
  intro backslash
  have some : name ≠ [] := ne_nil_of_mem backslash
  have last : name.getLast some = 92 := by
    rw [← dropLast_append_getLast some, mem_append, mem_singleton] at backslash
    exact (backslash.resolve_left noSequence).symm
  have whole := dropLast_append_getLast some
  rw [last] at whole
  rw [← whole, append_assoc, singleton_append, length_append, length_singleton] at token
  exact cons_ne_nil _ _ (tokenLength_last noSequence token)

/-- A name that is read back as the use attribute of its facet has no blank and no backslash. -/
theorem parseFacet_name {behind : List UInt8} (plain : ∀ c ∈ behind, c ≠ 92 ∧ c ≠ 34 ∧ c ≠ 123) {field : FacetField Oid}
    (parsed : parseFacet attset bib1 (ascii "@attr 1=" ++ (name ++ 32 :: behind)) = some field) (fresh : av.useattr = none)
    (found : (yazFacetAttrGetZAttributes field.attributes av).useattr = some name) : 32 ∉ name ∧ 92 ∉ name := by
  have start : lex (pqfParserBegin yazPqfCreate (ascii "@attr 1=" ++ (name ++ 32 :: behind))) =
      lexAt (pqfParserBegin yazPqfCreate (ascii "@attr 1=" ++ (name ++ 32 :: behind)))
        (ascii "@attr " ++ (49 :: 61 :: (name ++ 32 :: behind))) := rfl
  rw [lexAt_attr] at start
  -- the values of the attributes are in the text behind the first keyword
  have values : ∀ ae ∈ field.attributes, ∀ list, ae.value = .complex list → ∃ text, list = [.string text] ∧
      ValueOf (49 :: 61 :: (name ++ 32 :: behind)) text := by
    rw [parseFacet, pQueryScanAttributesMk, topSet_attr attset bib1 (by rw [start]), start] at parsed
    dsimp only at parsed
    split at parsed
    next scan failed => cases parsed
    next attrs scan scanned =>
      obtain rfl := Option.some.inj parsed
      have fromText := scanAttributes_values attset _ (suffix_refl _) (fun _ mem => absurd mem not_mem_nil) scanned
      intro ae mem list complex
      obtain ⟨attr, inside, rfl⟩ := mem_lastOfType mem
      rw [Attr.element] at complex
      split at complex
      next text isText =>
        obtain rfl := AttributeValue.complex.inj complex
        exact ⟨text, rfl, fromText attr (mem_reverse.mp inside) text isText⟩
      · cases complex
  rcases useattr_from found with given | ⟨n, rfl⟩ | ⟨ae, mem, list, complex, string⟩
  · rw [fresh] at given
    cases given
  · exact ⟨intText_not_mem _ (by decide) (by decide), intText_not_mem _ (by decide) (by decide)⟩
  obtain ⟨text, rfl, front, value, rest, whole, same, token⟩ := values ae mem list complex
  obtain rfl : text = name := Option.some.inj string
  cases front with
  | nil =>
    injection whole with impossible
    cases impossible
  | cons c front =>
    injection whole with isDigit whole
    subst isDigit
    cases front with
    | nil =>
      injection whole with _ whole
      refine @value_plain text behind [] value rest whole plain same.symm (token.imp_left ?_)
      rintro ⟨c, mem, quote⟩
      rw [mem_singleton.mp mem] at quote
      exact absurd quote (by decide)
    | cons _ front =>
      injection whole with isEquals whole
      subst isEquals
      have whole : text ++ 32 :: behind = (front ++ [61]) ++ (value ++ rest) := by
        rw [whole, append_assoc]
        rfl
      refine value_plain whole plain same.symm (token.imp_left ?_)
      rintro ⟨c, mem, quote⟩
      refine ⟨c, mem_append_left _ ?_, quote⟩
      rcases mem_cons.mp mem with rfl | mem
      · exact absurd quote (by decide)
      rcases mem_cons.mp mem with rfl | mem
      · exact absurd quote (by decide)
      · exact mem

end

end Yaz.Pqf
