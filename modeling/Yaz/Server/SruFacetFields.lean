import Yaz.Marc.Numbers
import Yaz.Server.SruFacet

/-! The fields of a `facetLimit`, decoded and encoded again. -/

set_option autoImplicit false

namespace Yaz.Server.SruFacet
open List
open Yaz.Comstack (ascii isDigit)
open Yaz.Http (decimal)
open Yaz.Json (isSpace)
open Yaz.Pqf
open Yaz.Zoom (atoi)

structure LimitField where
  n : Int
  name : List UInt8
  deriving DecidableEq

def listed : List LimitField → List UInt8
  | [] => []
  | field :: rest => 44 :: (intText field.n ++ 58 :: (field.name ++ listed rest))

structure Request where
  fields : List LimitField
  start : Option Int
  sort : Option (List UInt8)
  present : fields ≠ []
  named : ∀ field ∈ fields, field.name ≠ [] ∧ 44 ∉ field.name ∧ 0 ∉ field.name
  distinct : (fields.map LimitField.name).Nodup

def Request.limitText (r : Request) : List UInt8 := (listed r.fields).drop 1

def Request.startText (r : Request) : Option (List UInt8) := r.start.map intText

def sortNumber (sort : Option (List UInt8)) : Int32 := if alphanumeric sort then 1 else 0

def Request.asked (r : Request) : List (Option (List UInt8) × Int) :=
  r.fields.map (fun field => (some field.name, field.n)) ++ if r.sort.isSome || r.start.isSome then [(none, -1)] else []

section
variable {Oid : Type}

structure Asks (r : Request) (facet : FacetField Oid) (asked : Option (List UInt8) × Int) : Prop where
  error : (facetAttr facet).error = none
  useattr : (facetAttr facet).useattr = asked.1
  limit : (facetAttr facet).limit.toInt = asked.2
  start : (facetAttr facet).start.toInt = r.start.getD (-1)
  sortorder : (facetAttr facet).sortorder = sortNumber r.sort

def FieldByField (attset : List UInt8 → Option Oid) (bib1 : Oid) (r : Request) : Prop :=
  ∃ facets, yazSruFacetRequestDecode attset bib1 (some r.limitText) r.startText r.sort = some facets ∧
    List.Forall₂ (Asks r) facets r.asked ∧
    yazSruFacetRequestEncode (some facets) = { limit := some r.limitText, start := r.startText, sort := r.sort }

end

/-- A limit as an `int`. -/
def limitVal (n : Int) : Int32 := Int32.ofInt (max (-2 ^ 63) (min (2 ^ 63 - 1) n))

theorem noDigit_colon (rest : List UInt8) : NoDigit (58 :: rest) := by
  intro c first
  rw [head?_cons, Option.mem_some_iff] at first
  rw [← first]
  decide

theorem digits_front {digits : List UInt8} (all : ∀ c ∈ digits, isDigit c = true) (rest : List UInt8) :
    (digits ++ 58 :: rest).dropWhile isDigit = 58 :: rest := by
  rw [dropWhile_append_of_pos all]
  exact dropWhile_cons_of_neg (by decide)

theorem scanNumber_intText (n : Int) (rest : List UInt8) : scanNumber (intText n ++ 58 :: rest) = some (limitVal n, 58 :: rest) := by
  have stops := noDigit_colon rest
  by_cases negative : n < 0
  · obtain ⟨c, others, digits, digit⟩ := decimal_head n.natAbs
    have text : intText n ++ 58 :: rest = 45 :: (decimal n.natAbs ++ 58 :: rest) := by rw [intText, if_pos negative, cons_append]
    have first : (45 :: (decimal n.natAbs ++ 58 :: rest)).dropWhile isSpace = 45 :: (decimal n.natAbs ++ 58 :: rest) :=
      dropWhile_cons_of_neg (by decide)
    have scanned : scanInt 10 (45 :: (decimal n.natAbs ++ 58 :: rest)) = n := by
      have value : digitsValue 10 (decimal n.natAbs ++ 58 :: rest) 0 = n.natAbs := by
        rw [digitsValue_append (decimal_digits _), digitsValue_decimal, digitsValue_stop stops]
      have magnitude : -(n.natAbs : Int) = n := by omega
      rw [scanInt, first]
      simp only [head?_cons, drop_one, tail_cons, value]
      exact magnitude
    rw [text, scanNumber, first]
    have sign : some (45 : UInt8) = some 43 ∨ some (45 : UInt8) = some 45 := .inr rfl
    rw [head?_cons, if_pos sign, drop_one, tail_cons, if_pos (by rw [digits]; exact digit),
      digits_front (decimal_digits _), atoi, scanned, limitVal]
  · obtain ⟨c, others, digits, digit⟩ := decimal_head n.toNat
    have text : intText n ++ 58 :: rest = decimal n.toNat ++ 58 :: rest := by rw [intText, if_neg negative]
    have range : 48 ≤ c.toNat ∧ c.toNat ≤ 57 := by simpa [isDigit] using digit
    have noSpace : isSpace c = false := by
      have other : ∀ d : UInt8, d.toNat < 48 → c ≠ d := by
        rintro d small rfl
        omega
      simp only [isSpace, Bool.or_eq_false_iff, decide_eq_false_iff_not, Bool.and_eq_false_imp, decide_eq_true_eq]
      exact ⟨other 32 (by decide), by omega⟩
    have first : (decimal n.toNat ++ 58 :: rest).dropWhile isSpace = decimal n.toNat ++ 58 :: rest := by
      rw [digits]
      exact dropWhile_cons_of_neg (by rw [noSpace]; exact Bool.false_ne_true)
    have noSign : ¬((decimal n.toNat ++ 58 :: rest).head? = some 43 ∨ (decimal n.toNat ++ 58 :: rest).head? = some 45) := by
      rw [digits]
      rintro (is | is)
      · rw [Option.some.inj is] at digit
        exact absurd digit (by decide)
      · rw [Option.some.inj is] at digit
        exact absurd digit (by decide)
    rw [text, scanNumber, first]
    rw [if_neg noSign, if_pos (by rw [digits]; exact digit), digits_front (decimal_digits _), atoi, scanInt_decimal _ stops, limitVal,
      Int.toNat_of_nonneg (by omega)]

theorem fieldAttrs_some (start sort : Option (List UInt8)) (val : Int32) : ∀ attr ∈ fieldAttrs start sort val, attr ≠ [] := by
  intro attr mem
  rw [fieldAttrs, mem_cons, mem_append] at mem
  rcases mem with rfl | mem | mem
  · exact cons_ne_nil _ _
  · cases start with
    | none => cases mem
    | some =>
      rw [Option.elim_some] at mem
      split at mem
      · rw [mem_singleton.mp mem]
        exact cons_ne_nil _ _
      · cases mem
  · rw [mem_singleton.mp mem]
    split
    · exact cons_ne_nil _ _
    · exact cons_ne_nil _ _

variable {start sort : Option (List UInt8)}

theorem fieldAttrs_plain {val : Int32} {c : UInt8} (noStart : ∀ text ∈ start, c ∉ text)
    (noSign : c ≠ 45) (noDigit : isDigit c = false) (other : c ∉ ascii "@attr 1=") : ∀ attr ∈ fieldAttrs start sort val, c ∉ attr := by
  have known : ∀ d : UInt8, isDigit d = true → c ≠ d := by
    rintro d digit rfl
    rw [noDigit] at digit
    cases digit
  have keyword : ∀ d : UInt8, isDigit d = true → c ∉ ascii "@attr " ++ [d, 61] := by
    intro d digit mem
    rcases mem_append.mp mem with front | back
    · exact other (mem_append_left [49, 61] front)
    · rcases mem_cons.mp back with is | back
      · exact known d digit is
      · exact other (by rw [mem_singleton.mp back]; decide)
  intro attr mem
  rw [fieldAttrs, mem_cons, mem_append] at mem
  rcases mem with rfl | mem | mem
  · intro mem
    rcases mem_append.mp mem with front | back
    · exact keyword 51 (by decide) front
    · exact intText_not_mem _ noSign noDigit back
  · cases given : start with
    | none =>
      rw [given] at mem
      cases mem
    | some text =>
      rw [given, Option.elim_some] at mem
      split at mem
      · rw [mem_singleton.mp mem]
        intro mem
        rcases mem_append.mp mem with front | back
        · exact keyword 52 (by decide) front
        · exact noStart text given back
      · cases mem
  · rw [mem_singleton.mp mem]
    split
    · intro mem
      rcases mem_append.mp (show c ∈ (ascii "@attr " ++ [50, 61]) ++ [49] from mem) with front | back
      · exact keyword 50 (by decide) front
      · exact known 49 (by decide) (mem_singleton.mp back)
    · intro mem
      rcases mem_append.mp (show c ∈ (ascii "@attr " ++ [50, 61]) ++ [48] from mem) with front | back
      · exact keyword 50 (by decide) front
      · exact known 48 (by decide) (mem_singleton.mp back)

def grown (start sort : Option (List UInt8)) (bodies : List (List UInt8)) (fields : List LimitField) : List (List UInt8) :=
  fields.foldl (fun bodies field => addField bodies field.name (fieldAttrs start sort (limitVal field.n))) bodies

theorem limitLoop_listed (noStart : ∀ text ∈ start, 44 ∉ text) {fields : List LimitField}
    (named : ∀ field ∈ fields, 44 ∉ field.name) (some : fields ≠ []) {bodies : List (List UInt8)} (free : NoComma bodies)
      (generalLimit : Int32)
    {rounds : Nat} (enough : fields.length ≤ rounds) :
    limitLoop start sort rounds ((listed fields).drop 1) { w := joined bodies, generalLimit } =
        { w := joined (grown start sort bodies fields), generalLimit } ∧ NoComma (grown start sort bodies fields) := by
  -- on the fields, with what is in the text already
  induction fields generalizing bodies rounds with
  | nil => exact absurd rfl some
  | cons field rest ih =>
    rw [length_cons] at enough
    obtain ⟨rounds, rfl⟩ : ∃ fewer, rounds = fewer + 1 := ⟨rounds - 1, by omega⟩
    have noComma := named field mem_cons_self
    obtain ⟨inserted, free'⟩ := insertField_foldl noComma (fieldAttrs_some start sort (limitVal field.n))
      (fieldAttrs_plain noStart (by decide) (by decide) (by decide)) free
    have notComma : ∀ c ∈ field.name, decide (c ≠ 44) = true := fun c mem => decide_eq_true fun is => noComma (is ▸ mem)
    rw [listed, drop_one, tail_cons, limitLoop, scanNumber_intText]
    dsimp only
    rw [head?_cons, if_pos rfl, drop_one, tail_cons, takeWhile_append_of_pos notComma,
      dropWhile_append_of_pos notComma]
    rw [grown, foldl_cons, ← grown]
    cases rest with
    | nil =>
      simp only [listed, takeWhile_nil, dropWhile_nil, append_nil, head?_nil]
      rw [if_neg (by simp), inserted]
      exact ⟨rfl, free'⟩
    | cons next rest =>
      have first : (listed (next :: rest)).takeWhile (fun c => decide (c ≠ 44)) = [] := takeWhile_cons_of_neg (by decide)
      have behind : (listed (next :: rest)).dropWhile (fun c => decide (c ≠ 44)) = listed (next :: rest) :=
        dropWhile_cons_of_neg (by decide)
      have comma : (listed (next :: rest)).head? = Option.some 44 := rfl
      rw [first, behind, append_nil, if_pos comma, inserted]
      exact ih (fun other mem => named other (mem_cons_of_mem _ mem)) (cons_ne_nil _ _) free' (by omega)

def fieldText (start sort : Option (List UInt8)) (field : LimitField) : List UInt8 :=
  fieldBody field.name (fieldAttrs start sort (limitVal field.n))

section
variable (start sort : Option (List UInt8))

theorem fieldAttrs_ne_nil (val : Int32) : fieldAttrs start sort val ≠ [] := cons_ne_nil _ _

theorem grown_length (fields : List LimitField) (bodies : List (List UInt8)) :
    bodies.length ≤ (grown start sort bodies fields).length ∧ (grown start sort bodies fields).length ≤ bodies.length + fields.length ∧
      ((grown start sort bodies fields).length = bodies.length + fields.length →
        grown start sort bodies fields = bodies ++ fields.map (fieldText start sort)) := by
  induction fields generalizing bodies with
  | nil => exact ⟨Nat.le_refl _, Nat.le_refl _, fun _ => (append_nil _).symm⟩
  | cons field rest ih =>
    have length := addField_length field.name (fieldAttrs_ne_nil start sort (limitVal field.n)) bodies
    obtain ⟨low, high, same⟩ := ih (addField bodies field.name (fieldAttrs start sort (limitVal field.n)))
    rw [grown, foldl_cons, ← grown, length_cons]
    by_cases known : bodies.any (matched field.name) = true
    · -- one field less than there could be, and the rest cannot make up for it
      rw [if_pos known] at length
      exact ⟨by omega, by omega, fun all => by omega⟩
    · rw [if_neg known] at length
      refine ⟨by omega, by omega, fun all => ?_⟩
      rw [same (by omega), addField_fresh (fieldAttrs_ne_nil start sort _) (Bool.eq_false_iff.mpr known), append_assoc, map_cons]
      rfl

theorem matched_fieldText {name : List UInt8} {field : LimitField} (noBlank : 32 ∉ name) (noBlank' : 32 ∉ field.name)
    (is : matched name (fieldText start sort field) = true) : name = field.name := by
  have body : ∃ rest, fieldText start sort field = field.name ++ 32 :: rest := by
    rw [fieldText, fieldBody]
    cases attrs : (fieldAttrs start sort (limitVal field.n)).reverse with
    | nil => exact absurd (reverse_eq_nil_iff.mp attrs) (fieldAttrs_ne_nil start sort _)
    | cons => exact ⟨_, rfl⟩
  obtain ⟨rest, body⟩ := body
  rw [body] at is
  exact matched_name noBlank noBlank' is

theorem grown_names {before fields : List LimitField} (noBlank : ∀ field ∈ before ++ fields, 32 ∉ field.name)
    (distinct : ((before ++ fields).map LimitField.name).Nodup) :
    grown start sort (before.map (fieldText start sort)) fields = (before ++ fields).map (fieldText start sort) := by
  induction fields generalizing before with
  | nil =>
    rw [append_nil]
    rfl
  | cons field rest ih =>
    have fresh : (before.map (fieldText start sort)).any (matched field.name) = false := by
      rw [any_map, any_eq_false]
      intro other mem is
      have same := matched_fieldText start sort (noBlank field (by simp)) (noBlank other (by simp [mem])) is
      rw [map_append, nodup_append] at distinct
      exact distinct.2.2 other.name (mem_map_of_mem mem) field.name (by simp) same.symm
    have next : before ++ field :: rest = (before ++ [field]) ++ rest := by rw [append_assoc, singleton_append]
    rw [grown, foldl_cons, ← grown, addField_fresh (fieldAttrs_ne_nil start sort _) fresh]
    rw [next] at noBlank distinct ⊢
    rw [← ih noBlank distinct, map_append]
    rfl

end

def facetParts (start sort : Option (List UInt8)) (bodies : List (List UInt8)) : List (List UInt8) :=
  bodies.map (ascii "@attr 1=" ++ ·) ++ if sort.isSome || start.isSome then [generalText start sort (-1)] else []

theorem segments_eq (bodies : List (List UInt8)) : segments bodies = (bodies.map (ascii "@attr 1=" ++ ·)).flatMap (44 :: ·) := by
  induction bodies with
  | nil => rfl
  | cons _ _ ih => rw [segments, ih, map_cons, flatMap_cons, cons_append, append_assoc]

theorem nmemStrsplit_delim (delim : UInt8) (rest : List UInt8) : nmemStrsplit delim (delim :: rest) = nmemStrsplit delim rest := by
  have skipped : (delim :: rest).dropWhile (· = delim) = rest.dropWhile (· = delim) := dropWhile_cons_of_pos (decide_eq_true rfl)
  rw [nmemStrsplit, nmemStrsplit]
  split
  next empty =>
    rw [skipped] at empty
    split
    · rfl
    next found => rw [empty] at found; cases found
  next found =>
    rw [skipped] at found
    split
    next empty => rw [found] at empty; cases empty
    next found' =>
      rw [found] at found'
      injection found' with isFirst isRest
      rw [isFirst, isRest]

theorem nmemStrsplit_part {delim : UInt8} {part rest : List UInt8} (some : part ≠ []) (free : delim ∉ part)
    (stops : rest = [] ∨ rest.head? = Option.some delim) : nmemStrsplit delim (part ++ rest) = part :: nmemStrsplit delim rest := by
  have other : ∀ c ∈ part, decide (c ≠ delim) = true := fun c mem => decide_eq_true fun is => free (is ▸ mem)
  obtain ⟨c, others, rfl⟩ := exists_cons_of_ne_nil some
  have first : c ≠ delim := of_decide_eq_true (other c mem_cons_self)
  have start : (c :: others ++ rest).dropWhile (· = delim) = c :: (others ++ rest) := dropWhile_cons_of_neg (by simpa using first)
  have none : rest.takeWhile (· ≠ delim) = [] ∧ rest.dropWhile (· ≠ delim) = rest := by
    cases rest with
    | nil => exact ⟨rfl, rfl⟩
    | cons =>
      rcases stops with none | delim
      · cases none
      · rw [Option.some.inj delim]
        exact ⟨takeWhile_cons_of_neg (by simp), dropWhile_cons_of_neg (by simp)⟩
  have whole : (c :: (others ++ rest)).takeWhile (· ≠ delim) = c :: others := by
    rw [← cons_append, takeWhile_append_of_pos other, none.1, append_nil]
  have behind : (others ++ rest).dropWhile (· ≠ delim) = rest := by
    rw [dropWhile_append_of_pos fun d mem => other d (mem_cons_of_mem _ mem), none.2]
  rw [nmemStrsplit]
  split
  next empty => rw [start] at empty; cases empty
  next d rest' found =>
    rw [start] at found
    injection found with isFirst isRest
    subst isFirst isRest
    rw [whole, behind]

theorem nmemStrsplit_parts {delim : UInt8} {parts : List (List UInt8)} (some : ∀ part ∈ parts, part ≠ [])
    (free : ∀ part ∈ parts, delim ∉ part) :
    nmemStrsplit delim (parts.flatMap (delim :: ·)) = parts := by
  induction parts with
  | nil => rw [flatMap_nil, nmemStrsplit]; rfl
  | cons part rest ih =>
    have stops : rest.flatMap (delim :: ·) = [] ∨ (rest.flatMap (delim :: ·)).head? = Option.some delim := by
      cases rest with
      | nil => exact .inl rfl
      | cons => exact .inr rfl
    rw [flatMap_cons, cons_append, nmemStrsplit_delim, nmemStrsplit_part (some part mem_cons_self) (free part mem_cons_self) stops,
      ih (fun other mem => some other (mem_cons_of_mem _ mem)) (fun other mem => free other (mem_cons_of_mem _ mem))]

theorem length_le_listed (fields : List LimitField) : fields.length ≤ (listed fields).length := by
  induction fields with
  | nil => exact Nat.le_refl 0
  | cons =>
    rw [listed, length_cons, length_cons, length_append, length_cons, length_append]
    omega

theorem startText_free (r : Request) : ∀ text ∈ r.startText, 44 ∉ text := by
  intro text given
  obtain ⟨n, -, rfl⟩ := Option.map_eq_some_iff.mp given
  exact intText_not_mem n (by decide) (by decide)

theorem generalText_ne_nil (start sort : Option (List UInt8)) : generalText start sort (-1) ≠ [] := by
  rw [generalText]
  split
  · exact cons_ne_nil _ _
  · exact cons_ne_nil _ _

theorem generalText_free (noStart : ∀ text ∈ start, 44 ∉ text) : 44 ∉ generalText start sort (-1) := by
  have cut : ∀ text : List UInt8, 44 ∉ text → 44 ∉ wrbufPrintf text := fun text free mem => free (mem_of_mem_take mem)
  rw [generalText, if_neg (not_not.mpr rfl), nil_append, mem_append, not_or]
  constructor
  · refine cut _ ?_
    split
    · decide
    · decide
  · cases given : start with
    | none => exact not_mem_nil
    | some text =>
      refine cut _ fun mem => ?_
      rcases mem_append.mp mem with front | back
      · exact absurd front (by decide)
      · exact noStart text given back

variable {Oid : Type} (attset : List UInt8 → Option Oid) (bib1 : Oid)

/-- The facets of a request are parsed part by part. -/
theorem decode_parts (r : Request) : ∃ bodies, bodies = grown r.startText r.sort [] r.fields ∧
    yazSruFacetRequestDecode attset bib1 (some r.limitText) r.startText r.sort =
      (facetParts r.startText r.sort bodies).mapM (parseFacet attset bib1) := by
  refine ⟨_, rfl, ?_⟩
  have noStart := startText_free r
  have enough : r.fields.length ≤ r.limitText.length + 1 := by
    have long := length_le_listed r.fields
    rw [Request.limitText, length_drop]
    omega
  obtain ⟨read, free⟩ := limitLoop_listed noStart (fun field mem => (r.named field mem).2.1) r.present (fun _ mem => absurd mem not_mem_nil)
    (-1) enough
  have present : grown r.startText r.sort [] r.fields ≠ [] := by
    obtain ⟨field, rest, fields⟩ := exists_cons_of_ne_nil r.present
    have one := addField_length field.name (fieldAttrs_ne_nil r.startText r.sort (limitVal field.n)) []
    have low := (grown_length r.startText r.sort rest (addField [] field.name (fieldAttrs r.startText r.sort (limitVal field.n)))).1
    rw [any_nil, if_neg Bool.false_ne_true, length_nil] at one
    rw [fields, grown, foldl_cons, ← grown]
    intro none
    rw [none, length_nil] at low
    omega
  generalize grown r.startText r.sort [] r.fields = bodies at read free present
  have written : joined bodies ≠ [] := by
    have long := length_le_segments bodies
    have some := length_pos_iff.mpr present
    refine ne_nil_of_length_pos ?_
    rw [joined, length_drop]
    omega
  have query : facetQuery (some r.limitText) r.startText r.sort = ((facetParts r.startText r.sort bodies).flatMap (44 :: ·)).drop 1 := by
    have read' : limitLoop r.startText r.sort (r.limitText.length + 1) r.limitText { w := [], generalLimit := -1 } =
        { w := joined bodies, generalLimit := -1 } := read
    rw [facetQuery, Option.elim_some, read']
    rw [facetParts, flatMap_append, ← segments_eq]
    by_cases general : (r.sort.isSome || r.startText.isSome) = true
    · have either : r.sort.isSome = true ∨ r.startText.isSome = true ∨ (-1 : Int32) ≠ -1 :=
        (Bool.or_eq_true _ _ ▸ general).imp_right .inl
      obtain ⟨body, rest, rfl⟩ := exists_cons_of_ne_nil present
      rw [if_pos either, if_neg written, if_pos general, flatMap_singleton, append_assoc]
      rfl
    · have neither : ¬(r.sort.isSome = true ∨ r.startText.isSome = true ∨ (-1 : Int32) ≠ -1) := by
        rintro (some | some | other)
        · exact general (by rw [some, Bool.true_or])
        · exact general (by rw [some, Bool.or_true])
        · exact other rfl
      rw [if_neg neither, if_neg general, flatMap_nil, append_nil]
      rfl
  have some : ∀ part ∈ facetParts r.startText r.sort bodies, part ≠ [] ∧ 44 ∉ part := by
    intro part mem
    rw [facetParts, mem_append] at mem
    rcases mem with mem | mem
    · obtain ⟨body, here, rfl⟩ := mem_map.mp mem
      refine ⟨cons_ne_nil _ _, fun comma => ?_⟩
      rcases mem_append.mp comma with front | back
      · exact absurd front (by decide)
      · exact free body here back
    · split at mem
      · rw [mem_singleton.mp mem]
        exact ⟨generalText_ne_nil _ _, generalText_free noStart⟩
      · cases mem
  obtain ⟨part, parts, whole⟩ : ∃ part parts, facetParts r.startText r.sort bodies = part :: parts := by
    obtain ⟨body, rest, rfl⟩ := exists_cons_of_ne_nil present
    exact ⟨_, _, rfl⟩
  rw [whole] at query some
  have split : nmemStrsplit 44 (facetQuery (Option.some r.limitText) r.startText r.sort) = part :: parts := by
    rw [query, flatMap_cons, cons_append, drop_one, tail_cons, ← nmemStrsplit_delim, ← cons_append, ← flatMap_cons]
    exact nmemStrsplit_parts (fun part mem => (some part mem).1) fun part mem => (some part mem).2
  have some' : facetQuery (Option.some r.limitText) r.startText r.sort ≠ [] := by
    intro none
    rw [none, nmemStrsplit] at split
    cases split
  rw [yazSruFacetRequestDecode, if_neg some', yazPqfParseFacetList, split, whole]

end Yaz.Server.SruFacet
