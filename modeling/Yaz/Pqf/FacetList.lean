import Yaz.Pqf.FacetAttr
import Yaz.Pqf.Recognition
import Yaz.Pqf.RoundTrip
import Yaz.Pqf.Unescape

/-! Lists of facets: `yaz_pqf_parse_facet_list` of `pquery.c`, and where the values of its attributes are in the text. -/

set_option autoImplicit false

namespace Yaz.Pqf
open List
open Yaz.Comstack (isDigit)

/-- `nmem_strsplit` with one delimiter: empty strings are left out. -/
def nmemStrsplit (delim : UInt8) (dstr : List UInt8) : List (List UInt8) :=
  match _found : dstr.dropWhile (· = delim) with
  | [] => []
  | c :: rest => (c :: rest).takeWhile (· ≠ delim) :: nmemStrsplit delim (rest.dropWhile (· ≠ delim))
termination_by dstr.length
decreasing_by
  have whole := (List.dropWhile_suffix (l := dstr) (fun c => decide (c = delim))).length_le
  have behind := (List.dropWhile_suffix (l := rest) (fun c => decide (c ≠ delim))).length_le
  rw [_found, List.length_cons] at whole
  omega

/-- `Z_FacetTerm`. -/
structure FacetTerm where
  term : Term
  count : Int64
  deriving DecidableEq

/-- `Z_FacetField`. -/
structure FacetField (Oid : Type) where
  attributes : List (AttributeElement Oid)
  terms : List FacetTerm
  deriving DecidableEq

def facetTerms : (rounds : Nat) → Parser → List FacetTerm → List FacetTerm
  | 0, _, terms => terms
  | rounds + 1, li, terms =>
    if li.queryLook = .text then
      facetTerms rounds (lex li)
        (if terms.length < 10 then terms ++ [{ term := zTermCreate li.termType (escapeString li.lexeme), count := 0 }] else terms)
    else terms

section
variable {Oid : Type} (attset : List UInt8 → Option Oid) (bib1 : Oid)

def parseFacet (facet : List UInt8) : Option (FacetField Oid) :=
  let (_, attributes, li) := pQueryScanAttributesMk attset bib1 (pqfParserBegin yazPqfCreate facet)
  attributes.map fun attributes => { attributes, terms := facetTerms (facet.length + 1) li [] }

/-- `yaz_pqf_parse_facet_list`; a null pointer without facets, and when one of them is not parsed. -/
def yazPqfParseFacetList (qbuf : List UInt8) : Option (List (FacetField Oid)) :=
  match nmemStrsplit 44 qbuf with
  | [] => none
  | darray => darray.mapM (parseFacet attset bib1)

end

theorem tokenLength_behind {sepChar : UInt8} (noEquals : sepChar ≠ 61) (noBackslash : sepChar ≠ 92) {before : List UInt8}
    (value : List UInt8)
    (inside : before.length < tokenLength sepChar (before ++ 61 :: value)) :
    tokenLength sepChar (before ++ 61 :: value) = before.length + 1 + tokenLength sepChar value := by
  induction length : before.length using Nat.strong_induction_on generalizing before with
  | _ n ih =>
    subst length
    match before with
    | [] =>
      rw [nil_append, tokenLength_plain noEquals.symm (by decide), length_nil]
      omega
    | [c] =>
      by_cases isSep : c = sepChar
      · rw [isSep, singleton_append, tokenLength_sep] at inside
        omega
      by_cases backslash : c = 92
      · rw [backslash, singleton_append, tokenLength_escaped noBackslash, length_singleton]
        omega
      · rw [singleton_append, tokenLength_plain isSep backslash, tokenLength_plain noEquals.symm (by decide), length_singleton]
        omega
    | c :: d :: before =>
      by_cases isSep : c = sepChar
      · rw [isSep, cons_append, tokenLength_sep] at inside
        omega
      by_cases backslash : c = 92
      · rw [backslash, cons_append, cons_append, tokenLength_escaped noBackslash] at inside ⊢
        rw [length_cons, length_cons] at inside ⊢
        rw [ih before.length (by rw [length_cons, length_cons]; omega) (by omega) rfl]
        omega
      · rw [cons_append, tokenLength_plain isSep backslash] at inside ⊢
        rw [length_cons] at inside ⊢
        rw [ih (d :: before).length (Nat.lt_succ_self _) (by omega) rfl]
        omega

theorem tokenLength_front {front rest : List UInt8} {n : Nat} (plain : 92 ∉ front)
    (length : tokenLength 32 (front ++ rest) = front.length + n) : 32 ∉ front ∧ tokenLength 32 rest = n := by
  induction front with
  | nil => exact ⟨not_mem_nil, by simpa using length⟩
  | cons c _ ih =>
    rw [mem_cons, not_or] at plain
    rw [cons_append] at length
    by_cases blank : c = 32
    · rw [blank, tokenLength_sep, length_cons] at length
      omega
    · rw [tokenLength_plain blank (Ne.symm plain.1), length_cons] at length
      obtain ⟨none, later⟩ := ih plain.2 (by omega)
      exact ⟨fun mem => (mem_cons.mp mem).elim (fun is => blank is.symm) none, later⟩

theorem tokenLength_last {front rest : List UInt8} (plain : 92 ∉ front)
    (length : tokenLength 32 (front ++ 92 :: rest) = front.length + 1) : rest = [] := by
  obtain ⟨-, last⟩ := tokenLength_front plain length
  cases rest with
  | nil => rfl
  | cons =>
    rw [tokenLength_escaped (by decide)] at last
    omega

theorem Unescaped.noBlank {mem out : List UInt8} (unescaped : Unescaped mem out) (same : out.count 92 = mem.count 92) {rest : List UInt8}
    (token : tokenLength 32 (mem ++ rest) = mem.length) : 32 ∉ mem := by
  induction unescaped with
  | nil => exact not_mem_nil
  | last =>
    rintro blank
    rw [← mem_singleton.mp blank, singleton_append, tokenLength_sep] at token
    cases token
  | @plain c mem out other _ ih =>
    rw [count_cons_of_ne other, count_cons_of_ne other] at same
    obtain ⟨none, later⟩ := @tokenLength_front [c] (mem ++ rest) mem.length
      (by simpa using Ne.symm other) (by rw [singleton_append, length_singleton, Nat.add_comm]; exact token)
    rw [mem_cons, not_or]
    exact ⟨fun is => none (mem_singleton.mpr is), ih same later⟩
  | @sequence c further given mem out blank unescaped ih =>
    obtain ⟨rfl, other, plain, same⟩ := sequence_backslash unescaped same
    have noBlank : c ≠ 32 := fun is => absurd (blank is) (by decide)
    rw [cons_append, cons_append, tokenLength_escaped (by decide), length_cons, length_cons, append_assoc,
      length_append] at token
    obtain ⟨none, later⟩ := @tokenLength_front further (mem ++ rest) mem.length plain (by omega)
    rw [mem_cons, mem_cons, mem_append, not_or, not_or, not_or]
    exact ⟨by decide, Ne.symm noBlank, none, ih same later⟩

/-! ### Values

Where the value of an attribute is in the text that is parsed.
-/

def InText (text : List UInt8) (li : Parser) : Prop :=
  ∃ front, text = front ++ li.lexBuf ∧ (li.lexLen ≤ 1 ∨ (∃ c ∈ front, c = 34 ∨ c = 123) ∨ li.lexLen = tokenLength 32 li.lexBuf)

/-- A value behind `=` in a text. -/
def ValueOf (text value : List UInt8) : Prop :=
  ∃ front mem rest, text = front ++ 61 :: (mem ++ rest) ∧ value = cString (escapeString mem) ∧
    ((∃ c ∈ front, c = 34 ∨ c = 123) ∨ tokenLength 32 (mem ++ rest) = mem.length)

theorem openSep_front (mem : List UInt8) :
    openSep mem = (32, mem) ∨ ∃ c rest, mem = c :: rest ∧ (c = 34 ∨ c = 123) ∧ (openSep mem).2 = rest := by
  unfold openSep
  split
  · exact .inr ⟨123, _, rfl, .inr rfl, rfl⟩
  · exact .inr ⟨34, _, rfl, .inl rfl, rfl⟩
  · exact .inl rfl

variable {text : List UInt8}

theorem lex_inText {li : Parser} (inside : li.queryPtr <:+ text) :
    (lex li).queryPtr <:+ text ∧ ((lex li).queryLook ≠ .ends → InText text (lex li)) := by
  by_cases blank : li.queryPtr.dropWhile (· = 32) = []
  · rw [lex_blank blank]
    exact ⟨nil_suffix, fun token => absurd rfl token⟩
  obtain ⟨sepChar, buf, opened⟩ : ∃ sepChar buf, openSep (li.queryPtr.dropWhile (· = 32)) = (sepChar, buf) := ⟨_, _, rfl⟩
  have start : ∃ front, text = front ++ buf ∧ ((∃ c ∈ front, c = 34 ∨ c = 123) ∨ sepChar = 32) := by
    obtain ⟨front, whole⟩ := (dropWhile_suffix (fun c : UInt8 => decide (c = 32))).trans inside
    rcases openSep_front (li.queryPtr.dropWhile (· = 32)) with same | ⟨c, rest, starts, quote, behind⟩
    · rw [opened] at same
      injection same with isBlank isAll
      exact ⟨front, by rw [isAll]; exact whole.symm, .inr isBlank⟩
    · rw [opened] at behind
      dsimp only at behind
      refine ⟨front ++ [c], ?_, .inl ⟨c, mem_append_right _ (mem_singleton.mpr rfl), quote⟩⟩
      rw [behind, ← whole, starts, append_assoc, singleton_append]
  obtain ⟨front, whole, kind⟩ := start
  have left : ∀ n, buf.drop n <:+ text := fun n => (drop_suffix n buf).trans ⟨front, whole.symm⟩
  by_cases digit : buf.head? = some 64 ∧ (buf.drop 1).head?.any isDigit
  · have read : lex li = { li with lexBuf := buf, lexLen := 1, queryPtr := buf.drop 1, queryLook := .attr } := by
      rw [lex, queryToken]
      dsimp only
      rw [if_neg blank, opened]
      rw [if_pos digit]
    rw [read]
    exact ⟨left 1, fun _ => ⟨front, whole, .inl (Nat.le_refl 1)⟩⟩
  · rw [lex_token li blank opened digit]
    refine ⟨left _, fun _ => ⟨front, whole, .inr ?_⟩⟩
    rcases kind with quoted | rfl
    · exact .inl quoted
    · exact .inr rfl

theorem splitEquals_some {mem value : List UInt8} {n : Nat} (split : splitEquals mem = some (n, value)) :
    ∃ before, mem = before ++ 61 :: value ∧ before.length = n := by
  rw [splitEquals] at split
  split at split
  next found =>
    obtain ⟨rfl, rfl⟩ := Prod.mk.inj (Option.some.inj split)
    refine ⟨mem.takeWhile (· ≠ 61), ?_, rfl⟩
    have start : ∃ rest, mem.dropWhile (· ≠ 61) = 61 :: rest := by
      clear split
      induction mem with
      | nil => cases found
      | cons c mem ih =>
        by_cases equals : c = 61
        · exact ⟨mem, by rw [dropWhile_cons_of_neg (by simpa using equals), equals]⟩
        · obtain ⟨rest, behind⟩ := ih ((mem_cons.mp found).resolve_left (Ne.symm equals))
          exact ⟨rest, by rw [dropWhile_cons_of_pos (by simpa using equals), behind]⟩
    obtain ⟨rest, behind⟩ := start
    rw [behind, drop_one, tail_cons, ← behind, takeWhile_append_dropWhile]
  · cases split

section
variable {Oid : Type} (attset : List UInt8 → Option Oid) {li next : Parser} {attr : Attr Oid}

theorem parseTypeValue_value (inside : InText text li) {set : Option Oid} {n : Nat} {value : List UInt8}
    (split : splitEquals li.lexBuf = some (n, value)) (parsed : parseTypeValue li set n value = (some attr, next)) :
    next = li ∧ ∀ v, attr.text = some v → ValueOf text v := by
  obtain ⟨before, buf, rfl⟩ := splitEquals_some split
  obtain ⟨front, whole, kind⟩ := inside
  rw [parseTypeValue] at parsed
  split at parsed
  · cases parsed
  dsimp only at parsed
  split at parsed
  · obtain ⟨some, rfl⟩ := Prod.mk.inj parsed
    obtain rfl := Option.some.inj some
    exact ⟨rfl, fun v isText => by cases isText⟩
  next other =>
    obtain ⟨some, rfl⟩ := Prod.mk.inj parsed
    obtain rfl := Option.some.inj some
    refine ⟨rfl, fun v isText => ?_⟩
    obtain rfl := Option.some.inj isText
    -- the value is inside of the token, since it is not empty
    have long : before.length + 1 < li.lexLen := by
      by_contra short
      rw [Nat.sub_eq_zero_of_le (by omega), take_zero] at other
      exact other rfl
    refine ⟨front ++ before, value.take (li.lexLen - (before.length + 1)), value.drop (li.lexLen - (before.length + 1)), ?_, rfl, ?_⟩
    · rw [take_append_drop, whole, buf, append_assoc]
    · rw [take_append_drop]
      rcases kind with one | ⟨c, mem, quote⟩ | token
      · omega
      · exact .inl ⟨c, mem_append_left _ mem, quote⟩
      · rw [buf] at token
        have rest := tokenLength_behind (by decide) (by decide) value (by omega : before.length < tokenLength 32 (before ++ 61 :: value))
        have within := tokenLength_le 32 value
        refine .inr ?_
        rw [List.length_take]
        omega

theorem named_value (inside : li.queryPtr <:+ text)
    (parsed : pQueryParseAttr.named attset li = (some attr, next)) : next.queryPtr <:+ text ∧ ∀ v, attr.text = some v → ValueOf text v := by
  obtain ⟨later, token⟩ := lex_inText inside
  rw [pQueryParseAttr.named] at parsed
  split at parsed
  · cases parsed
  dsimp only at parsed
  split at parsed
  · cases parsed
  next more =>
    split at parsed
    · cases parsed
    next split =>
      obtain ⟨rfl, value⟩ := parseTypeValue_value (token more) split parsed
      exact ⟨later, value⟩

theorem pQueryParseAttr_value (inside : li.queryPtr <:+ text) (token : InText text li)
    {attrs : List (Attr Oid)} (parsed : pQueryParseAttr attset li attrs = (some attr, next)) :
    next.queryPtr <:+ text ∧ ∀ v, attr.text = some v → ValueOf text v := by
  rw [pQueryParseAttr] at parsed
  split at parsed
  next split =>
    split at parsed
    · exact named_value attset inside parsed
    · obtain ⟨rfl, value⟩ := parseTypeValue_value token split parsed
      exact ⟨inside, value⟩
  · exact named_value attset inside parsed

def ValuesOf (text : List UInt8) (attrs : List (Attr Oid)) : Prop := ∀ attr ∈ attrs, ∀ v, attr.text = some v → ValueOf text v

theorem rpnAttr_values (inside : li.queryPtr <:+ text) {attrs attrs' : List (Attr Oid)}
    (values : ValuesOf text attrs) (parsed : rpnAttr attset li attrs = (some attrs', next)) :
    next.queryPtr <:+ text ∧ ValuesOf text attrs' := by
  obtain ⟨later, token⟩ := lex_inText inside
  rw [rpnAttr] at parsed
  split at parsed
  · cases parsed
  next more =>
    split at parsed
    · cases parsed
    split at parsed
    · cases parsed
    next attr li' read =>
      obtain ⟨behind, value⟩ := pQueryParseAttr_value attset later (token more) read
      obtain ⟨all, rfl⟩ := Prod.mk.inj parsed
      obtain rfl := Option.some.inj all
      refine ⟨(lex_inText behind).1, fun other mem => ?_⟩
      rcases mem_append.mp mem with old | new
      · exact values other old
      · rw [mem_singleton.mp new]
        exact value

theorem rpnTermType_inText (inside : li.queryPtr <:+ text) : (rpnTermType li).queryPtr <:+ text := by
  rw [rpnTermType]
  split
  · exact inside
  · exact (lex_inText (by exact inside)).1

theorem scanAttributes_values (rounds : Nat) (inside : li.queryPtr <:+ text)
    {attrs attrs' : List (Attr Oid)} (values : ValuesOf text attrs) (scanned : scanAttributes attset rounds li attrs =
      (some attrs', next)) :
    ValuesOf text attrs' := by
  induction rounds generalizing li attrs with
  | zero =>
    obtain ⟨all, -⟩ := Prod.mk.inj scanned
    rw [← Option.some.inj all]
    exact values
  | succ _ ih =>
    rw [scanAttributes] at scanned
    split at scanned
    · split at scanned
      · cases scanned
      next attrs' li' read =>
        obtain ⟨behind, values'⟩ := rpnAttr_values attset inside values read
        exact ih behind values' scanned
    · exact ih (rpnTermType_inText (lex_inText inside).1) values scanned
    · obtain ⟨all, -⟩ := Prod.mk.inj scanned
      rw [← Option.some.inj all]
      exact values

end

end Yaz.Pqf
