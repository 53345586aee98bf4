import Yaz.Pqf.FacetReading
import Yaz.Zoom.SortSpec

/-! Facet parameters of SRU: `yaz_sru_facet_request` of `sru_facet.c`.

A WRBUF is the list of its octets, and a pointer into a text the list of what is left there.
-/

set_option autoImplicit false

namespace Yaz.Server.SruFacet
open List
open Yaz.Comstack (ascii isDigit)
open Yaz.Json (isSpace)
open Yaz.Pqf (FacetAttr FacetField intText yazFacetAttrGetZAttributes yazPqfParseFacetList)
open Yaz.Zoom (atoi)

def strstr (pattern : List UInt8) : List UInt8 → Option (List UInt8)
  | [] => if pattern = [] then some [] else none
  | c :: rest => if pattern.isPrefixOf (c :: rest) then some (c :: rest) else strstr pattern rest

def wrbufInsert (b : List UInt8) (pos : Nat) (buf : List UInt8) : List UInt8 :=
  if buf = [] ∨ b.length < pos then b else b.take pos ++ (buf ++ b.drop pos)

/-- What `wrbuf_printf` appends. -/
def wrbufPrintf (text : List UInt8) : List UInt8 := text.take 4094

/-- The loop of `insert_field`: what is behind the field, if it is found. -/
def behindField (field : List UInt8) : (rounds : Nat) → (cp : List UInt8) → Option (List UInt8)
  | 0, _ => none
  | rounds + 1, cp =>
    match strstr (ascii "@attr 1=") cp with
    | none => none
    | some cp2 =>
      let cp := cp2.drop 8
      let behind := cp.drop field.length
      -- a name ends with a blank, a comma or the end of the text
      if cp.take field.length = field ∧ behind.head?.all (fun c => c = 32 || c = 44) then some behind
      else behindField field rounds (cp.dropWhile (· ≠ 44))

def insertField (w field attr : List UInt8) : List UInt8 :=
  match behindField field (w.length + 1) w with
  | some behind =>
    -- directly behind the name, in front of what was inserted before
    let pos := w.length - behind.length
    wrbufInsert (wrbufInsert w pos attr) pos [32]
  | none => (if w = [] then w else w ++ [44]) ++ (ascii "@attr 1=" ++ (field ++ 32 :: attr))

/-- `sscanf` with `%d%n`: the number, and what is behind it. -/
def scanNumber (cp : List UInt8) : Option (Int32 × List UInt8) :=
  let start := cp.dropWhile isSpace
  let digits := if start.head? = some 43 ∨ start.head? = some 45 then start.drop 1 else start
  if digits.head?.any isDigit then some (atoi start, digits.dropWhile isDigit) else none

def alphanumeric (sort : Option (List UInt8)) : Bool := sort = some (ascii "alphanumeric")

def fieldAttrs (start sort : Option (List UInt8)) (val : Int32) : List (List UInt8) :=
  (ascii "@attr 3=" ++ intText val.toInt) ::
    ((start.elim [] fun start => if start.length < 20 then [ascii "@attr 4=" ++ start] else []) ++
      [if alphanumeric sort then ascii "@attr 2=1" else ascii "@attr 2=0"])

structure Decoding where
  w : List UInt8
  generalLimit : Int32
  deriving DecidableEq

def limitLoop (start sort : Option (List UInt8)) : (rounds : Nat) → (cp : List UInt8) → Decoding → Decoding
  | 0, _, d => d
  | rounds + 1, cp, d =>
    match scanNumber cp with
    | none => d
    | some (val, cp) =>
      let (d, cp) :=
        -- a field name follows, or it is a limit for all fields
        if cp.head? = some 58 then
          let field := (cp.drop 1).takeWhile (· ≠ 44)
          ({ d with w := (fieldAttrs start sort val).foldl (fun w attr => insertField w field attr) d.w }, (cp.drop 1).dropWhile (· ≠ 44))
        else ({ d with generalLimit := val }, cp)
      if cp.head? = some 44 then limitLoop start sort rounds (cp.drop 1) d else d

def generalText (start sort : Option (List UInt8)) (generalLimit : Int32) : List UInt8 :=
  wrbufPrintf (if alphanumeric sort then ascii " @attr 2=1" else ascii " @attr 2=0") ++
    ((if generalLimit ≠ -1 then wrbufPrintf (ascii " @attr 3=" ++ intText generalLimit.toInt) else []) ++
      start.elim [] fun start => wrbufPrintf (ascii " @attr 4=" ++ start))

def facetQuery (limit start sort : Option (List UInt8)) : List UInt8 :=
  let d : Decoding := { w := [], generalLimit := -1 }
  let d := limit.elim d fun cp => limitLoop start sort (cp.length + 1) cp d
  if sort.isSome ∨ start.isSome ∨ d.generalLimit ≠ -1 then
    (if d.w = [] then d.w else d.w ++ [44]) ++ generalText start sort d.generalLimit
  else d.w

section
variable {Oid : Type} (attset : List UInt8 → Option Oid) (bib1 : Oid)

/-- `yaz_sru_facet_request` for decoding. -/
def yazSruFacetRequestDecode (limit start sort : Option (List UInt8)) : Option (List (FacetField Oid)) :=
  if facetQuery limit start sort = [] then none else yazPqfParseFacetList attset bib1 (facetQuery limit start sort)

def facetAttr (facet : FacetField Oid) : FacetAttr :=
  yazFacetAttrGetZAttributes facet.attributes { limit := -1, start := -1, sortorder := -1 }

structure Encoding where
  wLimit : List UInt8 := []
  generalLimit : Int32 := -1
  generalStart : Int32 := -1
  generalSortorder : Int32 := -1
  deriving DecidableEq

def encodeFacet (e : Encoding) (facet : FacetField Oid) : Encoding :=
  let av := facetAttr facet
  -- a facet that is not understood is left out
  if av.error.isSome then e
  else
    let e :=
      if av.limit ≠ -1 then
        match av.useattr with
        | some useattr => { e with wLimit := e.wLimit ++ (wrbufPrintf (intText av.limit.toInt ++ 58 :: useattr) ++ [44]) }
        | none => { e with generalLimit := av.limit }
      else e
    let e := if av.start ≠ -1 then { e with generalStart := av.start } else e
    if av.sortorder ≠ -1 then { e with generalSortorder := av.sortorder } else e

structure Parameters where
  limit : Option (List UInt8) := none
  start : Option (List UInt8) := none
  sort : Option (List UInt8) := none
  deriving DecidableEq

/-- `yaz_sru_facet_request` for encoding. -/
def yazSruFacetRequestEncode (facetList : Option (List (FacetField Oid))) : Parameters :=
  match facetList with
  | none => {}
  | some fl =>
    let e := fl.foldl encodeFacet {}
    let wLimit := if e.generalLimit ≠ -1 then wrbufInsert e.wLimit 0 (intText e.generalLimit.toInt ++ [44]) else e.wLimit
    { limit := if 1 < wLimit.length then some wLimit.dropLast else none
      start := if e.generalStart ≠ -1 then some (intText e.generalStart.toInt) else none
      sort := if e.generalSortorder = 1 then some (ascii "alphanumeric") else none }

end

/-! ### Fields in the text -/

/-- What stands behind each `@attr 1=`, as text with commas in front. -/
def segments : List (List UInt8) → List UInt8
  | [] => []
  | body :: rest => 44 :: (ascii "@attr 1=" ++ (body ++ segments rest))

def joined (bodies : List (List UInt8)) : List UInt8 := (segments bodies).drop 1

def matched (field body : List UInt8) : Bool :=
  body.take field.length = field && (body.drop field.length).head?.all (fun c => c = 32)

/-- `insert_field` on the fields. -/
def insertBody (field attr : List UInt8) : List (List UInt8) → List (List UInt8)
  | [] => [field ++ 32 :: attr]
  | body :: rest =>
    if matched field body then (field ++ 32 :: (attr ++ body.drop field.length)) :: rest else body :: insertBody field attr rest

theorem segments_append (first second : List (List UInt8)) : segments (first ++ second) = segments first ++ segments second := by
  induction first with
  | nil => rfl
  | cons _ _ ih =>
    rw [cons_append, segments, ih, segments]
    simp only [cons_append, append_assoc]

theorem strstr_self (pattern : List UInt8) {c : UInt8} {others : List UInt8} (starts : pattern = c :: others) (rest : List UInt8) :
    strstr pattern (pattern ++ rest) = some (pattern ++ rest) := by
  subst starts
  rw [cons_append, strstr, if_pos]
  rw [← cons_append, isPrefixOf_iff_prefix]
  exact prefix_append _ _

theorem strstr_segments (body : List UInt8) (rest : List (List UInt8)) :
    strstr (ascii "@attr 1=") (segments (body :: rest)) = some (ascii "@attr 1=" ++ (body ++ segments rest)) := by
  have other : ¬ (ascii "@attr 1=").isPrefixOf (segments (body :: rest)) = true := by
    rw [ isPrefixOf_iff_prefix, segments]
    rintro ⟨behind, same⟩
    injection same with first
    exact absurd first (by decide)
  rw [segments] at other ⊢
  rw [strstr, if_neg other]
  exact strstr_self _ rfl _

theorem matched_iff {field body : List UInt8} (noComma : 44 ∉ field) (noComma' : 44 ∉ body) (rest : List (List UInt8)) :
    ((body ++ segments rest).take field.length = field ∧
        ((body ++ segments rest).drop field.length).head?.all (fun c => c = 32 || c = 44) = true) ↔ matched field body = true := by
  have starts : segments rest = [] ∨ ∃ behind, segments rest = 44 :: behind := by
    cases rest with
    | nil => exact .inl rfl
    | cons => exact .inr ⟨_, rfl⟩
  rw [matched, Bool.and_eq_true, decide_eq_true_iff]
  by_cases within : field.length ≤ body.length
  · rw [take_append_of_le_length within, drop_append_of_le_length within]
    apply and_congr_right
    intro _
    cases behind : body.drop field.length with
    | nil =>
      rcases starts with none | ⟨later, comma⟩
      · simp [none]
      · simp [comma]
    | cons c =>
      have other : c ≠ 44 := by
        rintro rfl
        exact noComma' (mem_of_mem_drop (behind ▸ mem_cons_self))
      simp [other]
  · -- the field is longer than what stands there, and has no comma
    refine iff_of_false ?_ ?_
    · rintro ⟨same, -⟩
      rcases starts with none | ⟨later, comma⟩
      · rw [none, append_nil, take_of_length_le (by omega)] at same
        rw [same] at within
        exact within (Nat.le_refl _)
      · apply noComma
        rw [← same, comma, mem_take_iff_getElem]
        refine ⟨body.length, by simp; omega, ?_⟩
        simp
    · rintro ⟨same, -⟩
      rw [take_of_length_le (by omega)] at same
      rw [same] at within
      exact within (Nat.le_refl _)

def NoComma (bodies : List (List UInt8)) : Prop := ∀ body ∈ bodies, 44 ∉ body

def searched (field : List UInt8) : List (List UInt8) → Option (List UInt8)
  | [] => none
  | body :: rest => if matched field body then some (body.drop field.length ++ segments rest) else searched field rest

theorem drop_matched {field body : List UInt8} (is : matched field body = true) (rest : List (List UInt8)) :
    (body ++ segments rest).drop field.length = body.drop field.length ++ segments rest := by
  rw [matched, Bool.and_eq_true, decide_eq_true_iff] at is
  have within := congrArg List.length is.1
  rw [List.length_take] at within
  exact drop_append_of_le_length (by omega)

variable {field : List UInt8}

theorem behindField_step (noComma : 44 ∉ field) {body : List UInt8} {rest : List (List UInt8)} (free : NoComma (body :: rest))
    {cp : List UInt8} (found : strstr (ascii "@attr 1=") cp = some (ascii "@attr 1=" ++ (body ++ segments rest))) (rounds : Nat) :
    behindField field (rounds + 1) cp =
      if matched field body then some (body.drop field.length ++ segments rest) else behindField field rounds (segments rest) := by
  have drop : (ascii "@attr 1=" ++ (body ++ segments rest)).drop 8 = body ++ segments rest := rfl
  have noComma' := free body mem_cons_self
  have behind : (body ++ segments rest).dropWhile (· ≠ 44) = segments rest := by
    rw [dropWhile_append_of_pos fun c mem => by simpa using fun is : c = 44 => noComma' (is ▸ mem)]
    cases rest with
    | nil => rfl
    | cons => exact dropWhile_cons_of_neg (by decide)
  rw [behindField, found]
  dsimp only
  rw [drop, behind]
  by_cases is : matched field body = true
  · rw [if_pos ((matched_iff noComma noComma' rest).mpr is), if_pos is, drop_matched is]
  · rw [if_neg fun both => is ((matched_iff noComma noComma' rest).mp both), if_neg is]

variable {bodies : List (List UInt8)}

theorem behindField_segments (noComma : 44 ∉ field) (free : NoComma bodies) {rounds : Nat}
    (enough : bodies.length < rounds) : behindField field rounds (segments bodies) = searched field bodies := by
  induction bodies generalizing rounds with
  | nil =>
    obtain ⟨rounds, rfl⟩ : ∃ fewer, rounds = fewer + 1 := ⟨rounds - 1, by omega⟩
    rfl
  | cons body rest ih =>
    obtain ⟨rounds, rfl⟩ : ∃ fewer, rounds = fewer + 1 := ⟨rounds - 1, by omega⟩
    rw [length_cons] at enough
    rw [behindField_step noComma free (strstr_segments body rest), searched,
      ih (fun body mem => free body (mem_cons_of_mem _ mem)) (by omega)]

theorem behindField_joined (noComma : 44 ∉ field) (free : NoComma bodies) {rounds : Nat}
    (enough : bodies.length < rounds) : behindField field rounds (joined bodies) = searched field bodies := by
  rw [← behindField_segments noComma free enough]
  obtain ⟨rounds, rfl⟩ : ∃ fewer, rounds = fewer + 1 := ⟨rounds - 1, by omega⟩
  cases bodies with
  | nil => rfl
  | cons body rest =>
    have whole : joined (body :: rest) = ascii "@attr 1=" ++ (body ++ segments rest) := rfl
    rw [behindField_step noComma free (strstr_segments body rest), whole]
    exact behindField_step noComma free (strstr_self _ rfl _) rounds

theorem insertBody_none (attr : List UInt8) (none : searched field bodies = none) :
    insertBody field attr bodies = bodies ++ [field ++ 32 :: attr] := by
  induction bodies with
  | nil => rfl
  | cons _ _ ih =>
    rw [searched] at none
    split at none
    · cases none
    next other => rw [insertBody, if_neg other, ih none, cons_append]

theorem insertBody_some (attr : List UInt8) {behind : List UInt8}
    (found : searched field bodies = some behind) :
    ∃ front, segments bodies = 44 :: (front ++ behind) ∧
      segments (insertBody field attr bodies) = 44 :: (front ++ 32 :: (attr ++ behind)) := by
  induction bodies with
  | nil => cases found
  | cons body _ ih =>
    rw [searched] at found
    split at found
    next is =>
      obtain rfl := Option.some.inj found
      refine ⟨ascii "@attr 1=" ++ field, ?_, ?_⟩
      · have front : body.take field.length = field := by
          rw [matched, Bool.and_eq_true, decide_eq_true_iff] at is
          exact is.1
        have whole : body = field ++ body.drop field.length := by
          conv_lhs => rw [← take_append_drop field.length body, front]
        rw [segments, append_assoc, ← append_assoc field, ← whole]
      · rw [insertBody, if_pos is, segments]
        simp only [append_assoc, cons_append]
    next other =>
      obtain ⟨front, whole, inserted⟩ := ih found
      refine ⟨ascii "@attr 1=" ++ (body ++ 44 :: front), ?_, ?_⟩
      · rw [segments, whole]
        simp only [append_assoc, cons_append]
      · rw [insertBody, if_neg other, segments, inserted]
        simp only [append_assoc, cons_append]

theorem length_le_segments (bodies : List (List UInt8)) : bodies.length * 2 ≤ (segments bodies).length := by
  induction bodies with
  | nil => exact Nat.le_refl 0
  | cons =>
    have more : 8 = (ascii "@attr 1=").length := rfl
    rw [segments, length_cons, length_cons, length_append, length_append, ← more]
    omega

theorem wrbufInsert_behind (front behind : List UInt8) {buf : List UInt8} (some : buf ≠ []) :
    wrbufInsert (front ++ behind) front.length buf = front ++ (buf ++ behind) := by
  have within : ¬(front ++ behind).length < front.length := by
    rw [length_append]
    omega
  rw [wrbufInsert, if_neg fun either => either.elim some within, take_left, drop_left]

theorem insertField_joined {attr : List UInt8} (noComma : 44 ∉ field) (some : attr ≠ []) (free : NoComma bodies) :
    insertField (joined bodies) field attr = joined (insertBody field attr bodies) := by
  have enough : bodies.length < (joined bodies).length + 1 := by
    have long := length_le_segments bodies
    rw [joined, length_drop]
    omega
  rw [insertField, behindField_joined noComma free enough]
  cases found : searched field bodies with
  | none =>
    rw [insertBody_none attr found, joined, joined, segments_append]
    -- a comma is in front of a new field unless it is the first
    cases bodies with
    | nil =>
      rw [segments, drop_nil, if_pos rfl]
      simp only [segments, nil_append, drop_one, tail_cons, append_nil]
    | cons =>
      rw [segments, drop_one, tail_cons, if_neg (by simp [ascii])]
      simp only [segments, cons_append, drop_one, tail_cons, append_assoc, append_nil, nil_append]
  | some behind =>
    obtain ⟨front, whole, inserted⟩ := insertBody_some attr found
    have before : joined bodies = front ++ behind := by rw [joined, whole]; rfl
    have pos : (front ++ behind).length - behind.length = front.length := by rw [length_append]; omega
    dsimp only
    rw [before, pos, wrbufInsert_behind front behind some, wrbufInsert_behind front (attr ++ behind) (cons_ne_nil _ _), joined, inserted]
    rfl

def fieldBody (name : List UInt8) (attrs : List (List UInt8)) : List UInt8 := name ++ attrs.reverse.flatMap (32 :: ·)

def addField (bodies : List (List UInt8)) (name : List UInt8) (attrs : List (List UInt8)) : List (List UInt8) :=
  attrs.foldl (fun bodies attr => insertBody name attr bodies) bodies

theorem noComma_insertBody {attr : List UInt8} (noComma : 44 ∉ field) (noComma' : 44 ∉ attr)
    (free : NoComma bodies) : NoComma (insertBody field attr bodies) := by
  have blank : (44 : UInt8) ≠ 32 := by decide
  induction bodies with
  | nil =>
    intro body mem
    rw [mem_singleton.mp mem]
    simp [noComma, noComma', blank]
  | cons body rest ih =>
    have here := free body mem_cons_self
    have later : NoComma rest := fun other mem => free other (mem_cons_of_mem _ mem)
    have cut : 44 ∉ body.drop field.length := fun mem => here (mem_of_mem_drop mem)
    rw [insertBody]
    split
    · intro other mem
      rcases mem_cons.mp mem with rfl | mem
      · simp [noComma, noComma', blank, cut]
      · exact later other mem
    · intro other mem
      rcases mem_cons.mp mem with rfl | mem
      · exact here
      · exact ih later other mem

variable {attrs : List (List UInt8)}

theorem insertField_foldl {name : List UInt8} (noComma : 44 ∉ name) (some : ∀ attr ∈ attrs, attr ≠ [])
    (free : NoComma attrs) (free' : NoComma bodies) :
    attrs.foldl (fun w attr => insertField w name attr) (joined bodies) = joined (addField bodies name attrs) ∧
      NoComma (addField bodies name attrs) := by
  induction attrs generalizing bodies with
  | nil => exact ⟨rfl, free'⟩
  | cons attr _ ih =>
    have here := noComma_insertBody noComma (free attr mem_cons_self) free'
    rw [foldl_cons, insertField_joined noComma (some attr mem_cons_self) free']
    exact ih (fun other mem => some other (mem_cons_of_mem _ mem)) (fun other mem => free other (mem_cons_of_mem _ mem)) here

theorem matched_self (field : List UInt8) {rest : List UInt8} (blank : rest.head?.all (fun c => c = 32) = true) :
    matched field (field ++ rest) = true := by
  rw [matched, take_left, drop_left, blank]
  simp

theorem insertBody_length (field attr : List UInt8) (bodies : List (List UInt8)) :
    (insertBody field attr bodies).length = bodies.length + (if bodies.any (matched field) then 0 else 1) ∧
      (insertBody field attr bodies).any (matched field) = true := by
  induction bodies with
  | nil =>
    refine ⟨rfl, ?_⟩
    rw [insertBody, any_cons, matched_self field rfl, Bool.true_or]
  | cons _ _ ih =>
    rw [insertBody]
    split
    next is => simp [is, matched_self]
    next other =>
      rw [length_cons, length_cons, ih.1, any_cons, any_cons, ih.2, Bool.eq_false_iff.mpr other, Bool.false_or, Bool.false_or]
      exact ⟨by omega, rfl⟩

theorem addField_length (name : List UInt8) (some : attrs ≠ []) (bodies : List (List UInt8)) :
    (addField bodies name attrs).length = bodies.length + if bodies.any (matched name) then 0 else 1 := by
  obtain ⟨attr, attrs, rfl⟩ := exists_cons_of_ne_nil some
  obtain ⟨length, known⟩ := insertBody_length name attr bodies
  rw [addField, foldl_cons, ← length]
  generalize insertBody name attr bodies = bodies' at known
  -- the further attributes find the field
  clear some length
  induction attrs generalizing bodies' with
  | nil => rfl
  | cons attr _ ih =>
    obtain ⟨length, known'⟩ := insertBody_length name attr bodies'
    rw [if_pos known, Nat.add_zero] at length
    rw [foldl_cons, ih _ known', length]

theorem addField_fresh {name : List UInt8} (some : attrs ≠ [])
    (fresh : bodies.any (matched name) = false) : addField bodies name attrs = bodies ++ [fieldBody name attrs] := by
  have own : ∀ attr rest, rest.head?.all (fun c => c = (32 : UInt8)) = true →
      insertBody name attr (bodies ++ [name ++ rest]) = bodies ++ [name ++ 32 :: (attr ++ rest)] := by
    intro attr rest blank
    induction bodies with
    | nil => rw [nil_append, insertBody, if_pos (matched_self name blank), drop_left]; rfl
    | cons _ _ ih =>
      rw [any_cons, Bool.or_eq_false_iff] at fresh
      rw [cons_append, insertBody, if_neg (Bool.eq_false_iff.mp fresh.1), ih fresh.2, cons_append]
  have first : ∀ attr, insertBody name attr bodies = bodies ++ [name ++ 32 :: attr] := by
    intro attr
    clear own some
    induction bodies with
    | nil => rfl
    | cons _ _ ih =>
      rw [any_cons, Bool.or_eq_false_iff] at fresh
      rw [insertBody, if_neg (Bool.eq_false_iff.mp fresh.1), ih fresh.2, cons_append]
  have more : ∀ attrs rest, rest.head?.all (fun c => c = (32 : UInt8)) = true →
      addField (bodies ++ [name ++ rest]) name attrs = bodies ++ [name ++ (attrs.reverse.flatMap (32 :: ·) ++ rest)] := by
    intro attrs
    induction attrs with
    | nil => exact fun rest _ => rfl
    | cons attr _ ih =>
      intro rest blank
      rw [addField, foldl_cons, own attr rest blank, ← addField, ih (32 :: (attr ++ rest)) rfl, reverse_cons, flatMap_append,
        flatMap_singleton, append_assoc, cons_append]
  obtain ⟨attr, attrs, rfl⟩ := exists_cons_of_ne_nil some
  rw [addField, foldl_cons, first attr, ← addField, more attrs (32 :: attr) rfl, fieldBody, reverse_cons, flatMap_append,
    flatMap_singleton]

theorem matched_name {name rest : List UInt8} (noBlank : 32 ∉ field) (noBlank' : 32 ∉ name)
    (is : matched field (name ++ 32 :: rest) = true) : field = name := by
  rw [matched, Bool.and_eq_true, decide_eq_true_iff] at is
  obtain ⟨front, behind⟩ := is
  rcases Nat.lt_trichotomy field.length name.length with less | same | more
  · -- behind the field there is an octet of the name
    rw [drop_append_of_le_length (Nat.le_of_lt less), drop_eq_getElem_cons less, cons_append, head?_cons, Option.all_some,
      decide_eq_true_iff] at behind
    exact absurd (behind ▸ getElem_mem less) noBlank'
  · rw [same, take_left] at front
    exact front.symm
  · -- the field goes over the blank
    refine absurd ?_ noBlank
    rw [← front, mem_take_iff_getElem]
    refine ⟨name.length, ?_, ?_⟩
    · rw [length_append, length_cons]
      omega
    · rw [getElem_append_right (Nat.le_refl _)]
      simp

end Yaz.Server.SruFacet
