import Yaz.Pqf.RoundTrip
import Yaz.Wrbuf.Sha1
import Yaz.Zoom.Query

/-! The keys of memcached and Redis: `ZOOM_memcached_resultset` of `zoom-memcached.c`.

Strings are without their NUL.
-/

set_option autoImplicit false

namespace Yaz.Zoom
open List
open Yaz.Comstack (ascii)
open Yaz.Pqf (intText)
open Yaz.Wrbuf (wrbufSha1)

/-- What a search is made of: the connection, options of the result set, the query with what `query_type` is where none was given,
and the facets. -/
structure CachedSearch (Oid : Type) where
  hostPort : Option (List UInt8) := none
  databaseName : Option (List UInt8) := none
  extraArgs : Option (List UInt8) := none
  user : Option (List UInt8) := none
  group : Option (List UInt8) := none
  password : Option (List UInt8) := none
  query : Query Oid := {}
  unset : Int := 0
  reqFacets : Option (List UInt8) := none

variable {Oid : Type}

/-- What `wrbuf_vary_puts` appends. -/
def wrbufVaryPuts (v : Option (List UInt8)) : List UInt8 :=
  match v with
  | none => []
  | some v => if 40 < v.length then wrbufSha1 v else v

def CachedSearch.hash (s : CachedSearch Oid) : List UInt8 := zoomQueryGetHash s.query s.unset []

def zoomMemcachedResultset (s : CachedSearch Oid) : List UInt8 :=
  ascii "1;" ++ wrbufVaryPuts s.hostPort ++ ascii ";" ++ wrbufVaryPuts s.extraArgs ++ ascii ";" ++ wrbufVaryPuts s.user ++ ascii ";" ++
    wrbufVaryPuts s.group ++ ascii ";" ++ s.password.elim [] wrbufSha1 ++ ascii ";" ++ wrbufSha1 s.hash ++ ascii ";" ++
    wrbufVaryPuts s.reqFacets

structure CachedSearch.AgreeElsewhere (s t : CachedSearch Oid) : Prop where
  hostPort : s.hostPort = t.hostPort
  extraArgs : s.extraArgs = t.extraArgs
  user : s.user = t.user
  group : s.group = t.group
  password : s.password = t.password
  queryString : s.query.queryString = t.query.queryString
  sortSpec : s.query.sortSpec = t.query.sortSpec
  reqFacets : s.reqFacets = t.reqFacets

structure CachedSearch.Agree (s t : CachedSearch Oid) : Prop extends s.AgreeElsewhere t where
  databaseName : s.databaseName = t.databaseName

def CachedSearch.pieces (s : CachedSearch Oid) : List (List UInt8) :=
  (wrbufVaryPuts s.hostPort).splitOn 59 ++ (wrbufVaryPuts s.extraArgs).splitOn 59 ++ (wrbufVaryPuts s.user).splitOn 59 ++
    (wrbufVaryPuts s.group).splitOn 59 ++ [s.password.elim [] wrbufSha1] ++ [wrbufSha1 s.hash] ++ (wrbufVaryPuts s.reqFacets).splitOn 59

theorem wrbufSha1_undivided (text : List UInt8) : 59 ∉ wrbufSha1 text :=
  fun inside => absurd (Wrbuf.wrbufSha1_hex text 59 inside) (by decide)

theorem password_undivided (password : Option (List UInt8)) : 59 ∉ password.elim [] wrbufSha1 := by
  cases password with
  | none => simp
  | some password => exact wrbufSha1_undivided password

theorem splitOn_zoomMemcachedResultset (s : CachedSearch Oid) : (zoomMemcachedResultset s).splitOn 59 = [49] :: s.pieces := by
  have key : zoomMemcachedResultset s =
      [49] ++ 59 :: (wrbufVaryPuts s.hostPort ++ 59 :: (wrbufVaryPuts s.extraArgs ++ 59 :: (wrbufVaryPuts s.user ++ 59 ::
        (wrbufVaryPuts s.group ++ 59 ::
          (s.password.elim [] wrbufSha1 ++ 59 :: (wrbufSha1 s.hash ++ 59 :: wrbufVaryPuts s.reqFacets)))))) := by
    have lead : ascii "1;" = [49, 59] := by decide
    have semicolon : ascii ";" = [59] := by decide
    rw [zoomMemcachedResultset, lead, semicolon]
    simp
  rw [key]
  simp only [splitOn_append_cons_self, CachedSearch.pieces, splitOn_eq_singleton (password_undivided s.password),
    splitOn_eq_singleton (wrbufSha1_undivided s.hash), append_assoc]
  rw [splitOn_eq_singleton (by decide)]
  rfl

theorem zoomMemcachedResultset_eq_iff (s t : CachedSearch Oid) : zoomMemcachedResultset s = zoomMemcachedResultset t ↔
    s.pieces = t.pieces := by
  constructor
  · intro same
    have split := congrArg (List.splitOn 59) same
    rw [splitOn_zoomMemcachedResultset, splitOn_zoomMemcachedResultset] at split
    exact tail_eq_of_cons_eq split
  · intro same
    have key : List.intercalate [59] ((zoomMemcachedResultset s).splitOn 59) = zoomMemcachedResultset s := intercalate_splitOn 59
    rw [splitOn_zoomMemcachedResultset, same, ← splitOn_zoomMemcachedResultset, intercalate_splitOn] at key
    exact key.symm

/-! ### Sort keys

How `yaz_sort_spec_to_type7` writes a key, in words with a blank in front of each.
-/

/-- The operands of `@attr` in a key, up to the one for the direction. -/
def SortKey.operands : SortKey → List (List UInt8)
  | .sortAttributes attributes => attributes.map fun a => intText a.1.toInt ++ ascii "=" ++ intText a.2.toInt
  | .sortField field => [ascii "1=" ++ field]

def SortKeySpec.direction (sks : SortKeySpec) : List UInt8 := if sks.descending then ascii "7=2" else ascii "7=1"

def keyWords : (i : Nat) → List SortKeySpec → List (List UInt8)
  | _, [] => []
  | i, sks :: specs =>
    sks.key.operands.flatMap (fun operand => [ascii "@attr", operand]) ++ ascii "@attr" :: sks.direction :: Http.decimal i ::
      keyWords (i + 1) specs

def spaced (words : List (List UInt8)) : List UInt8 := words.flatMap (32 :: ·)

theorem type7Key_words (i : Nat) (sks : SortKeySpec) :
    type7Key i sks = (spaced (sks.key.operands.flatMap (fun operand => [ascii "@attr", operand]) ++ [ascii "@attr", sks.direction,
      Http.decimal i]), true) := by
  have attr : ascii " @attr " = 32 :: ascii "@attr" ++ [32] := by rw [Comstack.ascii_ofList, Comstack.ascii_ofList]; decide
  have field : ascii " @attr 1=" = 32 :: ascii "@attr" ++ 32 :: ascii "1=" := by
    rw [Comstack.ascii_ofList, Comstack.ascii_ofList, Comstack.ascii_ofList]; decide
  have down : ascii " @attr 7=2 " = 32 :: ascii "@attr" ++ 32 :: ascii "7=2" ++ [32] := by
    rw [Comstack.ascii_ofList, Comstack.ascii_ofList, Comstack.ascii_ofList]; decide
  have up : ascii " @attr 7=1 " = 32 :: ascii "@attr" ++ 32 :: ascii "7=1" ++ [32] := by
    rw [Comstack.ascii_ofList, Comstack.ascii_ofList, Comstack.ascii_ofList]; decide
  have direction : spaced [ascii "@attr", sks.direction, Http.decimal i] =
      ascii (if sks.descending then " @attr 7=2 " else " @attr 7=1 ") ++ Http.decimal i := by
    cases sks with
    | mk _ descending =>
      cases descending <;> simp [spaced, SortKeySpec.direction, down, up]
  have append (l m : List (List UInt8)) : spaced (l ++ m) = spaced l ++ spaced m := flatMap_append
  rw [type7Key, append, direction, ← append_assoc]
  congr 3
  cases sks.key with
  | sortAttributes attributes =>
    simp only [SortKey.operands, spaced, flatMap_assoc, flatMap_map]
    refine congrArg (attributes.flatMap ·) (funext fun a => ?_)
    simp [attr]
  | sortField => simp [SortKey.operands, spaced, field]

theorem writeKeys_type7Key (i : Nat) (specs : List SortKeySpec) : (writeKeys type7Key i specs).1 = spaced (keyWords i specs) := by
  induction specs generalizing i with
  | nil => rfl
  | cons _ _ ih =>
    rw [writeKeys, type7Key_words]
    simp only [if_true]
    rw [ih, keyWords, spaced, spaced, spaced, ← flatMap_append]
    simp

/-- The keys of a specification that are told from others by what is written for them. -/
structure SortKeySpec.Plain (sks : SortKeySpec) : Prop where
  caseSensitive : sks.caseSensitive = false
  missing : sks.missing = .null
  attributes : sks.key ≠ .sortAttributes []
  field : ∀ field, sks.key = .sortField field → 32 ∉ field ∧ 59 ∉ field ∧ ∀ n : Int64, field ≠ intText n.toInt

theorem operands_words {α : Type} {attr d d' n n' : α} {rest rest' : List α} (notAttr : n ≠ attr) (notAttr' : n' ≠ attr) :
    ∀ {xs ys : List α},
      xs.flatMap (fun x => [attr, x]) ++ attr :: d :: n :: rest = ys.flatMap (fun y => [attr, y]) ++ attr :: d' :: n' :: rest' →
        xs = ys ∧ d = d' ∧ n = n' ∧ rest = rest'
  | [], [], same => by
    simp only [flatMap_nil, nil_append, List.cons.injEq, true_and] at same
    exact ⟨rfl, same⟩
  | [], y :: ys, same => by
    -- the third word is a number on the left, and `@attr` on the right
    cases ys <;> simp [notAttr] at same
  | x :: xs, [], same => by
    cases xs <;> simp [notAttr'.symm] at same
  | x :: xs, y :: ys, same => by
    simp only [flatMap_cons, cons_append, nil_append, List.cons.injEq, true_and] at same
    obtain ⟨operands, others⟩ := operands_words notAttr notAttr' same.2
    exact ⟨by rw [same.1, operands], others⟩

theorem equation_eq {t t' v v' : List UInt8} (name : 61 ∉ t) (name' : 61 ∉ t') (same : t ++ 61 :: v = t' ++ 61 :: v') :
    t = t' ∧ v = v' := by
  have split := congrArg (List.splitOn 61) same
  rw [splitOn_append_cons_self_of_not_mem name, splitOn_append_cons_self_of_not_mem name'] at split
  have named := head_eq_of_cons_eq split
  subst named
  exact ⟨rfl, tail_eq_of_cons_eq (append_cancel_left same)⟩

theorem attributeText_eq (a : Int32 × Int64) :
    intText a.1.toInt ++ ascii "=" ++ intText a.2.toInt = intText a.1.toInt ++ 61 :: intText a.2.toInt := by
  have equals : ascii "=" = [61] := by decide
  rw [equals, append_assoc]
  rfl

theorem operands_injective {k k' : SortKey} (field : ∀ f, k = .sortField f → ∀ n : Int64, f ≠ intText n.toInt)
    (field' : ∀ f, k' = .sortField f → ∀ n : Int64, f ≠ intText n.toInt) (same : k.operands = k'.operands) : k = k' := by
  have noEquals (n : Int) : 61 ∉ intText n := Pqf.intText_not_mem n (by decide) (by decide)
  have use (f : List UInt8) : ascii "1=" ++ f = ascii "1" ++ 61 :: f := by
    have lead : ascii "1=" = ascii "1" ++ [61] := by decide
    rw [lead, append_assoc]
    rfl
  have one : 61 ∉ ascii "1" := by decide
  cases k with
  | sortAttributes attributes =>
    cases k' with
    | sortAttributes =>
      refine congrArg _ (map_injective_iff.mpr (fun a b text => ?_) same)
      simp only [attributeText_eq] at text
      obtain ⟨type, value⟩ := equation_eq (noEquals _) (noEquals _) text
      exact Prod.ext (Int32.toInt_inj.mp (Pqf.intText_injective type)) (Int64.toInt_inj.mp (Pqf.intText_injective value))
    | sortField f =>
      match attributes with
      | [] => simp [SortKey.operands] at same
      | [a] =>
        simp only [SortKey.operands, map_cons, map_nil, List.cons.injEq, and_true, attributeText_eq, use] at same
        exact absurd (equation_eq (noEquals _) one same).2.symm (field' f rfl a.2)
      | a :: b :: rest => simp [SortKey.operands] at same
  | sortField f =>
    cases k' with
    | sortAttributes attributes =>
      match attributes with
      | [] => simp [SortKey.operands] at same
      | [a] =>
        simp only [SortKey.operands, map_cons, map_nil, List.cons.injEq, and_true, attributeText_eq, use] at same
        exact absurd (equation_eq one (noEquals _) same).2 (field f rfl a.2)
      | a :: b :: rest => simp [SortKey.operands] at same
    | sortField =>
      simp only [SortKey.operands, List.cons.injEq, and_true] at same
      exact congrArg _ (append_cancel_left same)

theorem decimal_ne_attr (i : Nat) : Http.decimal i ≠ ascii "@attr" := by
  intro same
  have digit := Pqf.decimal_digits i 64 (by rw [same]; decide)
  exact absurd digit (by decide)

theorem keyWords_injective {specs specs' : List SortKeySpec} (plain : ∀ sks ∈ specs, sks.Plain) (plain' : ∀ sks ∈ specs', sks.Plain)
    {i : Nat} (same : keyWords i specs = keyWords i specs') : specs = specs' := by
  induction specs generalizing i specs' with
  | nil =>
    cases specs' with
    | nil => rfl
    | cons => simp [keyWords] at same
  | cons sks _ ih =>
    cases specs' with
    | nil => simp [keyWords] at same
    | cons sks' =>
      rw [forall_mem_cons] at plain plain'
      obtain ⟨operands, direction, -, rest⟩ := operands_words (decimal_ne_attr i) (decimal_ne_attr i) same
      have key := operands_injective (fun f is => (plain.1.field f is).2.2) (fun f is => (plain'.1.field f is).2.2) operands
      have down : sks.descending = sks'.descending := by
        have up : ascii "7=2" ≠ ascii "7=1" := by rw [Comstack.ascii_ofList, Comstack.ascii_ofList]; decide
        revert direction
        cases one : sks.descending <;> cases other : sks'.descending <;> simp [SortKeySpec.direction, one, other, up, up.symm]
      have first : sks = sks' := by
        have caseSensitive := plain.1.caseSensitive.trans plain'.1.caseSensitive.symm
        have missing := plain.1.missing.trans plain'.1.missing.symm
        cases sks
        cases sks'
        exact SortKeySpec.mk.injEq .. ▸ ⟨key, down, caseSensitive, missing⟩
      rw [first, ih plain.2 plain'.2 rest]

theorem keyWords_bare {specs : List SortKeySpec} (plain : ∀ sks ∈ specs, sks.Plain) {i : Nat} :
    ∀ word ∈ keyWords i specs, 32 ∉ word ∧ 59 ∉ word := by
  induction specs generalizing i with
  | nil => simp [keyWords]
  | cons sks _ ih =>
    rw [forall_mem_cons] at plain
    have attr : 32 ∉ ascii "@attr" ∧ 59 ∉ ascii "@attr" := by rw [Comstack.ascii_ofList]; decide
    have number (n : Int) : 32 ∉ intText n ∧ 59 ∉ intText n :=
      ⟨Pqf.intText_not_mem n (by decide) (by decide), Pqf.intText_not_mem n (by decide) (by decide)⟩
    have digits : 32 ∉ Http.decimal i ∧ 59 ∉ Http.decimal i :=
      ⟨fun inside => absurd (Pqf.decimal_digits i 32 inside) (by decide), fun inside => absurd (Pqf.decimal_digits i 59 inside) (by decide)⟩
    have direction : 32 ∉ sks.direction ∧ 59 ∉ sks.direction := by
      rw [SortKeySpec.direction]
      split <;> decide
    have operands : ∀ operand ∈ sks.key.operands, 32 ∉ operand ∧ 59 ∉ operand := by
      cases key : sks.key with
      | sortAttributes =>
        simp only [SortKey.operands, forall_mem_map]
        intro a _
        have equals : 32 ∉ ascii "=" ∧ 59 ∉ ascii "=" := by decide
        simp [number, equals]
      | sortField field =>
        have lead : 32 ∉ ascii "1=" ∧ 59 ∉ ascii "1=" := by decide
        have bare := plain.1.field field key
        simp [SortKey.operands, bare, lead]
    intro word inside
    rw [keyWords, mem_append, mem_flatMap] at inside
    rcases inside with ⟨operand, among, inside⟩ | inside
    · rcases mem_pair.mp inside with rfl | rfl
      · exact attr
      · exact operands _ among
    · simp only [mem_cons] at inside
      rcases inside with rfl | rfl | rfl | inside
      · exact attr
      · exact direction
      · exact digits
      · exact ih plain.2 word inside

theorem splitOn_spaced {w : List UInt8} (bare : 32 ∉ w) {words : List (List UInt8)} (allBare : ∀ word ∈ words, 32 ∉ word) :
    (w ++ spaced words).splitOn 32 = w :: words := by
  induction words generalizing w with
  | nil => rw [spaced, flatMap_nil, append_nil, splitOn_eq_singleton bare]
  | cons v words ih =>
    rw [forall_mem_cons] at allBare
    have next : spaced (v :: words) = 32 :: (v ++ spaced words) := rfl
    rw [next, splitOn_append_cons_self_of_not_mem bare, ih allBare.1 allBare.2]

theorem spaced_injective {words words' : List (List UInt8)} (bare : ∀ word ∈ words, 32 ∉ word) (bare' : ∀ word ∈ words', 32 ∉ word)
    (same : spaced words = spaced words') : words = words' := by
  have split := congrArg (List.splitOn 32) (congrArg ([] ++ ·) same)
  simp only [splitOn_spaced not_mem_nil bare, splitOn_spaced not_mem_nil bare'] at split
  exact tail_eq_of_cons_eq split

/-! ### The digested text of a query -/

theorem last_separator {α : Type} {sep : α} {l l' t t' : List α} (undivided : sep ∉ t) (undivided' : sep ∉ t')
    (same : l ++ sep :: t = l' ++ sep :: t') : l = l' ∧ t = t' := by
  have alone {m u u' : List α} (free : sep ∉ u) (tail : sep :: u = m ++ sep :: u') : m = [] := by
    cases m with
    | nil => rfl
    | cons =>
      rw [cons_append, List.cons.injEq] at tail
      exact absurd (by rw [tail.2]; simp) free
  rcases append_eq_append_iff.mp same with ⟨m, longer, tail⟩ | ⟨m, longer, tail⟩
  · have none' := alone undivided tail
    subst none'
    exact ⟨by simpa using longer.symm, by simpa using tail⟩
  · have none' := alone undivided' tail
    subst none'
    exact ⟨by simpa using longer, by simpa using tail.symm⟩

theorem insertions_eq {n n' : Nat} {c c' : UInt8} {text text' : List UInt8} (other : c ≠ 64) (other' : c' ≠ 64)
    (same : (List.replicate n (ascii "@or ")).flatten ++ c :: text = (List.replicate n' (ascii "@or ")).flatten ++ c' :: text') :
    c = c' ∧ text = text' := by
  have insertion : ascii "@or " = 64 :: ascii "or " := by rw [Comstack.ascii_ofList, Comstack.ascii_ofList]; decide
  induction n generalizing n' with
  | zero =>
    cases n' with
    | zero => exact List.cons.inj same
    | succ =>
      exact absurd (head_eq_of_cons_eq same) other
  | succ _ ih =>
    cases n' with
    | zero =>
      exact absurd (head_eq_of_cons_eq same).symm other'
    | succ =>
      rw [replicate_succ, replicate_succ, flatten_cons, flatten_cons, append_assoc, append_assoc] at same
      exact ih (append_cancel_left same)

def OneText (v : Option (List UInt8)) : Prop :=
  v ≠ some [] ∧ ∀ text ∈ v, ¬(text.length = 40 ∧ ∀ c ∈ text, Wrbuf.isHexDigit c = true)

def Undivided (v : Option (List UInt8)) : Prop := ∀ text ∈ v, text.length ≤ 40 → 59 ∉ text

structure CachedSearch.Plain (s : CachedSearch Oid) : Prop where
  oneText : ∀ v ∈ [s.hostPort, s.extraArgs, s.user, s.group, s.reqFacets], OneText v
  undivided : ∀ v ∈ [s.hostPort, s.extraArgs, s.user, s.group], Undivided v
  asked : s.query.queryType.isSome = true ∧ s.query.queryString.isSome = true
  sorted : s.query.sortSpec ≠ some [] ∧ ∀ specs ∈ s.query.sortSpec, ∀ sks ∈ specs, sks.Plain
  room : ∀ specs ∈ s.query.sortSpec, specs.length ≤ 20

def CachedSearch.keys (s : CachedSearch Oid) : List SortKeySpec := s.query.sortSpec.getD []

def QueryType.digit : QueryType → UInt8
  | .rpn => 50
  | .cql => 55

theorem intText_number (type : QueryType) : intText type.number = [type.digit] := by cases type <;> decide +kernel

theorem hash_eq (s : CachedSearch Oid) {type : QueryType} (typed : s.query.queryType = some type) :
    s.hash = (List.replicate s.keys.length (ascii "@or ")).flatten ++ type.digit :: 59 :: ((s.query.queryString.getD [] ++
      59 :: Http.decimal s.query.sortStrategy.number) ++ 59 :: spaced (keyWords 0 s.keys)) := by
  have semicolon : ascii ";" = [59] := by decide
  rw [CachedSearch.hash, zoomQueryGetHash, typed, Option.elim_some, intText_number, semicolon, CachedSearch.keys]
  cases spec : s.query.sortSpec with
  | none => simp [spaced, keyWords]
  | some => simp [yazSortSpecToType7, writeKeys_type7Key]

theorem strategy_injective {strategy strategy' : SortStrategy} (same : Http.decimal strategy.number = Http.decimal strategy'.number) :
    strategy = strategy' := by
  have text (n : Nat) : Http.decimal n = intText n := by simp [intText]
  have number : strategy.number = strategy'.number := Int.ofNat_inj.mp (Pqf.intText_injective same)
  cases strategy <;> cases strategy' <;> first | rfl | exact absurd number (by decide)

structure CachedSearch.SameQuery (s t : CachedSearch Oid) : Prop where
  queryType : s.query.queryType = t.query.queryType
  queryString : s.query.queryString = t.query.queryString
  sortStrategy : s.query.sortStrategy = t.query.sortStrategy
  sortSpec : s.query.sortSpec = t.query.sortSpec

variable {s t : CachedSearch Oid}

theorem hash_injective (plain : s.Plain) (plain' : t.Plain) (same : s.hash = t.hash) : s.SameQuery t := by
  obtain ⟨type, typed⟩ := Option.isSome_iff_exists.mp plain.asked.1
  obtain ⟨type', typed'⟩ := Option.isSome_iff_exists.mp plain'.asked.1
  have noInsertion (type : QueryType) : type.digit ≠ 64 := by cases type <;> decide
  rw [hash_eq s typed, hash_eq t typed'] at same
  obtain ⟨digit, body⟩ := insertions_eq (noInsertion type) (noInsertion type') same
  have body := tail_eq_of_cons_eq body
  have keysPlain {u : CachedSearch Oid} (plain : u.Plain) : ∀ sks ∈ u.keys, sks.Plain := by
    rw [CachedSearch.keys]
    cases spec : u.query.sortSpec with
    | none => simp
    | some specs => exact plain.sorted.2 specs spec
  have bare := keyWords_bare (i := 0) (keysPlain plain)
  have bare' := keyWords_bare (i := 0) (keysPlain plain')
  have noSemicolon {words : List (List UInt8)} (bare : ∀ word ∈ words, 32 ∉ word ∧ 59 ∉ word) : 59 ∉ spaced words := by
    rw [spaced, mem_flatMap]
    rintro ⟨word, among, inside⟩
    exact (bare word among).2 (by simpa using inside)
  -- the query may have semicolons, so the text is read from its end
  obtain ⟨front, words⟩ := last_separator (noSemicolon bare) (noSemicolon bare') body
  have digits (n : Nat) : 59 ∉ Http.decimal n := fun inside => absurd (Pqf.decimal_digits n 59 inside) (by decide)
  obtain ⟨string, strategy⟩ := last_separator (digits _) (digits _) front
  have keys := keyWords_injective (keysPlain plain) (keysPlain plain')
    (spaced_injective (fun w among => (bare w among).1) (fun w among => (bare' w among).1) words)
  refine ⟨?_, ?_, strategy_injective strategy, ?_⟩
  · rw [typed, typed']
    cases type <;> cases type' <;> first | rfl | exact absurd digit (by decide)
  · obtain ⟨q, is⟩ := Option.isSome_iff_exists.mp plain.asked.2
    obtain ⟨q', is'⟩ := Option.isSome_iff_exists.mp plain'.asked.2
    rw [is, is'] at string ⊢
    exact congrArg some string
  · revert keys
    have given := plain.sorted.1
    have given' := plain'.sorted.1
    revert given given'
    rw [CachedSearch.keys, CachedSearch.keys]
    cases s.query.sortSpec <;> cases t.query.sortSpec <;> simp_all [eq_comm]

/-! ### Keys and searches -/

def CachedSearch.digested (s : CachedSearch Oid) : List (List UInt8) :=
  s.hash :: (s.password.toList ++ [s.hostPort, s.extraArgs, s.user, s.group, s.reqFacets].flatMap fun v =>
    v.toList.filter fun text => 40 < text.length)

def CollisionFree (texts : List (List UInt8)) : Prop := ∀ x ∈ texts, ∀ y ∈ texts, wrbufSha1 x = wrbufSha1 y → x = y

variable {texts : List (List UInt8)}

theorem collisionFree_of_one (one : ∀ x ∈ texts, ∀ y ∈ texts, x = y) : CollisionFree texts :=
  fun x among y among' _ => one x among y among'

theorem wrbufVaryPuts_injective (free : CollisionFree texts) {v v' : Option (List UInt8)} (one : OneText v)
    (one' : OneText v') (among : ∀ text ∈ v, 40 < text.length → text ∈ texts) (among' : ∀ text ∈ v', 40 < text.length → text ∈ texts)
    (same : wrbufVaryPuts v = wrbufVaryPuts v') : v = v' := by
  -- a digest is no other field, and not empty
  have apart {v : Option (List UInt8)} (one : OneText v) {text : List UInt8} (short : ∀ text ∈ v, text.length ≤ 40)
      (same : wrbufVaryPuts v = wrbufSha1 text) : False := by
    cases v with
    | none =>
      have length := congrArg List.length same
      rw [Wrbuf.wrbufSha1_length] at length
      exact absurd length (by decide)
    | some field =>
      rw [wrbufVaryPuts, if_neg (by have := short field rfl; omega)] at same
      subst same
      exact one.2 _ rfl ⟨Wrbuf.wrbufSha1_length text, Wrbuf.wrbufSha1_hex text⟩
  by_cases short : ∀ text ∈ v, text.length ≤ 40
  · by_cases short' : ∀ text ∈ v', text.length ≤ 40
    · have plain {v : Option (List UInt8)} (short : ∀ text ∈ v, text.length ≤ 40) : wrbufVaryPuts v = v.getD [] := by
        cases v with
        | none => rfl
        | some field => rw [wrbufVaryPuts, if_neg (by have := short field rfl; omega), Option.getD_some]
      rw [plain short, plain short'] at same
      cases v with
      | none =>
        cases v' with
        | none => rfl
        | some => exact absurd (congrArg some same.symm) one'.1
      | some =>
        cases v' with
        | none => exact absurd (congrArg some same) one.1
        | some => exact congrArg some same
    · push Not at short'
      obtain ⟨text', is', long'⟩ := short'
      rw [Option.mem_def.mp is', wrbufVaryPuts.eq_2, if_pos long'] at same
      exact (apart one short same).elim
  · push Not at short
    obtain ⟨text, is, long⟩ := short
    rw [Option.mem_def.mp is, wrbufVaryPuts.eq_2, if_pos long] at same
    by_cases short' : ∀ text ∈ v', text.length ≤ 40
    · exact (apart one' short' same.symm).elim
    · push Not at short'
      obtain ⟨text', is', long'⟩ := short'
      rw [Option.mem_def.mp is', wrbufVaryPuts.eq_2, if_pos long'] at same
      rw [Option.mem_def.mp is, Option.mem_def.mp is']
      exact congrArg some (free _ (among text is long) _ (among' text' is' long') same)

theorem splitOn_wrbufVaryPuts {v : Option (List UInt8)} (undivided : Undivided v) : (wrbufVaryPuts v).splitOn 59 = [wrbufVaryPuts v] := by
  apply splitOn_eq_singleton
  cases v with
  | none => simp [wrbufVaryPuts]
  | some text =>
    rw [wrbufVaryPuts]
    split
    next => exact wrbufSha1_undivided text
    next short => exact undivided text rfl (by omega)

theorem password_injective (free : CollisionFree texts) {p p' : Option (List UInt8)}
    (among : ∀ text ∈ p, text ∈ texts) (among' : ∀ text ∈ p', text ∈ texts) (same : p.elim [] wrbufSha1 = p'.elim [] wrbufSha1) :
    p = p' := by
  have notEmpty (text : List UInt8) : wrbufSha1 text ≠ [] := fun empty => by
    have length := Wrbuf.wrbufSha1_length text
    rw [empty] at length
    exact absurd length (by decide)
  cases p with
  | none =>
    cases p' with
    | none => rfl
    | some text' => exact absurd same.symm (notEmpty text')
  | some text =>
    cases p' with
    | none => exact absurd same (notEmpty text)
    | some text' => exact congrArg some (free _ (among text rfl) _ (among' text' rfl) same)

theorem agreeElsewhere_of_pieces (free : CollisionFree (s.digested ++ t.digested)) (plain : s.Plain) (plain' : t.Plain)
    (same : s.pieces = t.pieces) : s.AgreeElsewhere t ∧ s.SameQuery t := by
  have long {u : CachedSearch Oid} {v : Option (List UInt8)} (field : v ∈ [u.hostPort, u.extraArgs, u.user, u.group, u.reqFacets]) :
      ∀ text ∈ v, 40 < text.length → text ∈ u.digested := by
    intro text is long
    refine mem_cons_of_mem _ (mem_append_right _ (mem_flatMap.mpr ⟨v, field, ?_⟩))
    rw [Option.mem_def.mp is]
    simpa using long
  have field {v v' : Option (List UInt8)} (one : v ∈ [s.hostPort, s.extraArgs, s.user, s.group, s.reqFacets])
      (other : v' ∈ [t.hostPort, t.extraArgs, t.user, t.group, t.reqFacets]) (same : wrbufVaryPuts v = wrbufVaryPuts v') : v = v' :=
    wrbufVaryPuts_injective free (plain.oneText v one) (plain'.oneText v' other)
      (fun text is l => mem_append_left _ (long one text is l)) (fun text is l => mem_append_right _ (long other text is l)) same
  have pieces {u : CachedSearch Oid} (plain : u.Plain) :
    u.pieces = wrbufVaryPuts u.hostPort :: wrbufVaryPuts u.extraArgs :: wrbufVaryPuts u.user ::
      wrbufVaryPuts u.group :: u.password.elim [] wrbufSha1 :: wrbufSha1 u.hash :: (wrbufVaryPuts u.reqFacets).splitOn 59 := by
    have undivided := fun v one => splitOn_wrbufVaryPuts (plain.undivided v one)
    rw [CachedSearch.pieces, undivided u.hostPort (by simp), undivided u.extraArgs (by simp), undivided u.user (by simp),
      undivided u.group (by simp)]
    simp
  rw [pieces plain, pieces plain'] at same
  simp only [List.cons.injEq] at same
  obtain ⟨host, extra, user, group, password, hash, facets⟩ := same
  have facets := congrArg (List.intercalate [59]) facets
  rw [intercalate_splitOn, intercalate_splitOn] at facets
  have digest : s.hash = t.hash := free _ (by simp [CachedSearch.digested]) _ (by simp [CachedSearch.digested]) hash
  have query := hash_injective plain plain' digest
  have given {u : CachedSearch Oid} : ∀ text ∈ u.password, text ∈ u.digested := by
    intro text is
    rw [CachedSearch.digested, Option.mem_def.mp is]
    simp
  refine ⟨?_, query⟩
  exact {
    hostPort := field (by simp) (by simp) host
    extraArgs := field (by simp) (by simp) extra
    user := field (by simp) (by simp) user
    group := field (by simp) (by simp) group
    password := password_injective free (fun text is => mem_append_left _ (given text is))
      (fun text is => mem_append_right _ (given text is)) password
    queryString := query.queryString
    sortSpec := query.sortSpec
    reqFacets := field (by simp) (by simp) facets }

theorem pieces_of_agreeElsewhere (plain : s.Plain) (agree : s.AgreeElsewhere t) (query : s.SameQuery t) :
    s.pieces = t.pieces := by
  obtain ⟨type', typed⟩ := Option.isSome_iff_exists.mp plain.asked.1
  have hash : s.hash = t.hash := by
    rw [CachedSearch.hash, CachedSearch.hash, zoomQueryGetHash, zoomQueryGetHash, ← query.queryType, query.sortStrategy, query.queryString,
      query.sortSpec, typed]
    rfl
  rw [CachedSearch.pieces, CachedSearch.pieces, agree.hostPort, agree.extraArgs, agree.user, agree.group, agree.password,
    agree.reqFacets, hash]

/-- The key of a plain search has all of it but the database; every search shares its key with one of another database. -/
theorem zoomMemcachedResultset_separates_iff (s t : CachedSearch Oid) (free : CollisionFree (s.digested ++ t.digested)) (plain : s.Plain)
    (plain' : t.Plain) : ((zoomMemcachedResultset s = zoomMemcachedResultset t → s.Agree t) ↔
      (s.databaseName = t.databaseName ∨ ¬(s.AgreeElsewhere t ∧ s.SameQuery t))) ∧
      ∀ u : CachedSearch Oid, ∃ v, zoomMemcachedResultset u = zoomMemcachedResultset v ∧ ¬u.Agree v := by
  constructor
  · rw [zoomMemcachedResultset_eq_iff]
    refine ⟨fun separates => ?_, fun told same => ?_⟩
    · by_cases alike : s.AgreeElsewhere t ∧ s.SameQuery t
      · exact .inl (separates (pieces_of_agreeElsewhere plain alike.1 alike.2)).databaseName
      · exact .inr alike
    · have elsewhere := agreeElsewhere_of_pieces free plain plain' same
      rcases told with database | unlike
      · exact { elsewhere.1 with databaseName := database }
      · exact absurd elsewhere unlike
  · intro u
    refine ⟨{ u with databaseName := some (59 :: u.databaseName.getD []) }, rfl, fun agree => ?_⟩
    have same := agree.databaseName
    cases named : u.databaseName with
    | none => simp [named] at same
    | some name => simp [named] at same

def searchFor (string : String) (user group : Option (List UInt8)) (databaseName : Option (List UInt8)) : CachedSearch Unit where
  hostPort := some (ascii "localhost:210")
  databaseName
  user
  group
  query := { queryString := some (ascii string), queryType := some .rpn, sortSpec := yazSortSpec (ascii "title <") }

theorem searchFor_plain (string : String) {user group : Option (List UInt8)} (users : OneText user ∧ Undivided user)
    (groups : OneText group ∧ Undivided group) (databaseName : Option (List UInt8)) : (searchFor string user group databaseName).Plain := by
  have nothing : OneText none ∧ Undivided none := ⟨⟨nofun, nofun⟩, nofun⟩
  have host : OneText (some (ascii "localhost:210")) ∧ Undivided (some (ascii "localhost:210")) := by
    have text : (ascii "localhost:210").length ≠ 40 ∧ 59 ∉ ascii "localhost:210" := by rw [Comstack.ascii_ofList]; decide
    refine ⟨⟨by decide, ?_⟩, ?_⟩
    · rintro _ ⟨⟩ ⟨length, -⟩
      exact text.1 length
    · rintro _ ⟨⟩ -
      exact text.2
  have keys : yazSortSpec (ascii "title <") = some [{ key := .sortField (ascii "title") }] := by
    rw [Comstack.ascii_ofList, Comstack.ascii_ofList]; decide
  refine ⟨?_, ?_, ⟨rfl, rfl⟩, ⟨?_, ?_⟩, ?_⟩
  · simp [searchFor, nothing, users, groups, host]
  · simp [searchFor, nothing, users, groups, host]
  · simp [searchFor, keys]
  · simp only [searchFor, keys]
    rintro _ ⟨⟩ sks among
    rw [mem_singleton.mp among]
    refine ⟨rfl, rfl, nofun, ?_⟩
    rintro _ ⟨⟩
    refine ⟨by decide, by decide, fun n is => ?_⟩
    have letter := Pqf.intText_not_mem n.toInt (c := 116) (by decide) (by decide)
    rw [← is] at letter
    exact letter (by decide)
  · simp [searchFor, keys]

/-- A search for something else. -/
theorem queries_separated :
    (zoomMemcachedResultset (searchFor "computer" (some (ascii "ann")) none none) =
        zoomMemcachedResultset (searchFor "science" (some (ascii "ann")) none none) →
      (searchFor "computer" (some (ascii "ann")) none none).Agree (searchFor "science" (some (ascii "ann")) none none)) ↔
    ((searchFor "computer" (some (ascii "ann")) none none).databaseName =
      (searchFor "science" (some (ascii "ann")) none none).databaseName ∨
      ¬((searchFor "computer" (some (ascii "ann")) none none).AgreeElsewhere (searchFor "science" (some (ascii "ann")) none none) ∧
        (searchFor "computer" (some (ascii "ann")) none none).SameQuery (searchFor "science" (some (ascii "ann")) none none))) := by
  have free : CollisionFree ((searchFor "computer" (some (ascii "ann")) none none).digested ++
      (searchFor "science" (some (ascii "ann")) none none).digested) := by
    rw [CollisionFree]
    decide +kernel
  have user : OneText (some (ascii "ann")) ∧ Undivided (some (ascii "ann")) := by
    refine ⟨⟨by decide, ?_⟩, ?_⟩ <;> rintro _ ⟨⟩ <;> decide
  have group : OneText none ∧ Undivided none := ⟨⟨nofun, nofun⟩, nofun⟩
  exact (zoomMemcachedResultset_separates_iff _ _ free (searchFor_plain "computer" user group none)
    (searchFor_plain "science" user group none)).1

/-- One key for two databases, and for the users `ann` and `ann;staff`. -/
theorem searches_share_key :
    (CollisionFree ((searchFor "computer" none none (some (ascii "catalogue"))).digested ++
        (searchFor "computer" none none (some (ascii "archive"))).digested) ∧
      zoomMemcachedResultset (searchFor "computer" none none (some (ascii "catalogue"))) =
        zoomMemcachedResultset (searchFor "computer" none none (some (ascii "archive"))) ∧
      ¬(searchFor "computer" none none (some (ascii "catalogue"))).Agree (searchFor "computer" none none (some (ascii "archive")))) ∧
    (CollisionFree ((searchFor "computer" (some (ascii "ann")) (some (ascii "staff;")) none).digested ++
        (searchFor "computer" (some (ascii "ann;staff")) none none).digested) ∧
      zoomMemcachedResultset (searchFor "computer" (some (ascii "ann")) (some (ascii "staff;")) none) =
        zoomMemcachedResultset (searchFor "computer" (some (ascii "ann;staff")) none none) ∧
      ¬(searchFor "computer" (some (ascii "ann")) (some (ascii "staff;")) none).Agree
        (searchFor "computer" (some (ascii "ann;staff")) none none)) := by
  refine ⟨⟨?_, rfl, fun agree => ?_⟩, ?_, by decide +kernel, fun agree => ?_⟩
  · exact collisionFree_of_one (by decide +kernel)
  · exact absurd (Option.some.inj agree.databaseName) (by decide)
  · exact collisionFree_of_one (by decide +kernel)
  · exact absurd (Option.some.inj agree.user) (by decide)

end Yaz.Zoom
