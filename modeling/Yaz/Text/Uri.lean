import Yaz.Iconv.Encoders

/-! Names and values in a URI, as `uri.c` writes and reads them.

A text is the list of its octets before the NUL. The reader counts the pairs in one pass over the text and stores them in
another; what it stores is kept with the room it allocated.
-/

set_option autoImplicit false

namespace Yaz.Uri
open List
open Yaz.Iconv (upperHexDigit)

/-! ### The codec -/

/-- `hex_digit`; `none` is the result -1. -/
def hexDigit (ch : UInt8) : Option Nat :=
  if 48 ≤ ch ∧ ch ≤ 57 then some (ch.toNat - 48)
  else if 97 ≤ ch ∧ ch ≤ 102 then some (ch.toNat - 97 + 10)
  else if 65 ≤ ch ∧ ch ≤ 70 then some (ch.toNat - 65 + 10)
  else none

/-- The characters that `encode_uri_char` copies. -/
def isUnreserved (ch : UInt8) : Bool :=
  (65 ≤ ch && ch ≤ 90) || (97 ≤ ch && ch ≤ 122) || (48 ≤ ch && ch ≤ 57) || ch = 45 || ch = 46 || ch = 95 || ch = 126

def encodeUriChar (ch : UInt8) : List UInt8 :=
  if isUnreserved ch then [ch] else [37, upperHexDigit (ch.toNat / 16), upperHexDigit (ch.toNat % 16)]

def yazEncodeUriComponent (uri : List UInt8) : List UInt8 := uri.flatMap encodeUriChar

/-- `decode_uri_char` on `len` octets: the octet that is meant, and how many octets stand for it. -/
def decodeUriChar (path : List UInt8) (len : Nat) : UInt8 × Nat :=
  let ch := path.getD 0 0
  if ch = 43 then (32, 1)
  else if ch = 37 ∧ 3 ≤ len then
    match hexDigit (path.getD 1 0), hexDigit (path.getD 2 0) with
    | some d1, some d2 => (UInt8.ofNat (d1 * 16 + d2), 3)
    | _, _ => (ch, 1)
  else (ch, 1)

structure Pair where
  name : List UInt8
  value : List UInt8
  deriving DecidableEq

/-- The size that `yaz_array_to_uri` allocates. -/
def uriSize (pairs : List Pair) : Nat := 1 + (pairs.map fun pair => pair.name.length + 3 + pair.value.length * 3).sum

def Pair.text (pair : Pair) : List UInt8 := pair.name ++ 61 :: yazEncodeUriComponent pair.value

def yazArrayToUri : List Pair → List UInt8
  | [] => []
  | pair :: pairs => pair.text ++ pairs.flatMap fun pair => 38 :: pair.text

def endsName (c : UInt8) : Bool := c = 61 || c = 38

/-- The first pass of `yaz_uri_to_array`: the entries to allocate, or `none` for a name with a character that no name has. -/
def countEntries : (rounds : Nat) → (cp : List UInt8) → (no : Nat) → Option Nat
  | 0, _, no => some no
  | rounds + 1, cp, no =>
    match cp.dropWhile (· ≠ 38) with
    | [] => some no
    | _ :: cp =>
      if (cp.takeWhile fun c => !endsName c).any fun c => c ≤ 32 || 127 ≤ c then none
      else countEntries rounds (cp.dropWhile fun c => !endsName c) (no + 1)

structure Stored where
  pair : Pair
  room : Nat
  deriving DecidableEq

def decodeValue : (rounds : Nat) → (path : List UInt8) → List UInt8 × List UInt8
  | 0, path => ([], path)
  | _ + 1, [] => ([], [])
  | rounds + 1, c :: path =>
    if c = 38 then ([], c :: path)
    else
      let (octet, len) := decodeUriChar (c :: path) 3
      let (octets, path) := decodeValue rounds ((c :: path).drop len)
      (octet :: octets, path)

/-- The second pass of `yaz_uri_to_array`. -/
def storePairs : (rounds : Nat) → (path : List UInt8) → List Stored
  | 0, _ => []
  | rounds + 1, path =>
    let path := path.dropWhile (· = 38)
    if path = [] then []
    else
      let name := path.takeWhile fun c => !endsName c
      match path.dropWhile fun c => !endsName c with
      | 61 :: path =>
        let (value, behind) := decodeValue path.length path
        ⟨⟨name, value⟩, (path.takeWhile (· ≠ 38)).length + 1⟩ :: storePairs rounds behind
      | path => ⟨⟨name, []⟩, 1⟩ :: storePairs rounds path

structure Arrays where
  entries : Nat
  stored : List Stored
  deriving DecidableEq

def Arrays.pairs (arrays : Arrays) : List Pair := arrays.stored.map Stored.pair

/-- `yaz_uri_to_array`; `none` where it returns 0 with no arrays. -/
def yazUriToArray (path : List UInt8) : Option Arrays :=
  let path := if path.head? = some 63 then path.tail else path
  if path = [] then none
  else (countEntries path.length path 2).map fun entries => ⟨entries, storePairs path.length path⟩

theorem hexDigit_upperHexDigit : ∀ n < 16, hexDigit (upperHexDigit n) = some n ∧ upperHexDigit n ≠ 38 := by
  decide

theorem unreserved_ne {c : UInt8} (plain : isUnreserved c = true) : c ≠ 37 ∧ c ≠ 38 ∧ c ≠ 43 := by
  refine ⟨?_, ?_, ?_⟩ <;> rintro rfl <;> exact absurd plain (by decide)

theorem encodeUriChar_length (c : UInt8) : (encodeUriChar c).length ≤ 3 := by
  rw [encodeUriChar]
  split <;> simp

theorem encodeUriChar_noSeparator (c : UInt8) : (38 : UInt8) ∉ encodeUriChar c := by
  rw [encodeUriChar]
  split
  · next plain => simpa using (unreserved_ne plain).2.1.symm
  · have small := c.toNat_lt
    have high := (hexDigit_upperHexDigit (c.toNat / 16) (by omega)).2
    have low := (hexDigit_upperHexDigit (c.toNat % 16) (by omega)).2
    simpa using ⟨high.symm, low.symm⟩

theorem decodeUriChar_encodeUriChar (c : UInt8) (rest : List UInt8) :
    decodeUriChar (encodeUriChar c ++ rest) 3 = (c, (encodeUriChar c).length) := by
  rw [encodeUriChar]
  split
  · next plain =>
    obtain ⟨noPercent, -, noPlus⟩ := unreserved_ne plain
    simp [decodeUriChar, noPercent, noPlus]
  · have small := c.toNat_lt
    have high := (hexDigit_upperHexDigit (c.toNat / 16) (by omega)).1
    have low := (hexDigit_upperHexDigit (c.toNat % 16) (by omega)).1
    have whole : c.toNat / 16 * 16 + c.toNat % 16 = c.toNat := by omega
    simp [decodeUriChar, high, low, whole]

theorem decodeUriChar_len (c : UInt8) (path : List UInt8) :
    (decodeUriChar (c :: path) 3).2 = 1 ∨
      (decodeUriChar (c :: path) 3).2 = 3 ∧ ∃ d1 d2 rest, path = d1 :: d2 :: rest ∧ d1 ≠ 38 ∧ d2 ≠ 38 := by
  unfold decodeUriChar
  by_cases plus : (c :: path).getD 0 0 = 43
  · exact .inl (by rw [if_pos plus])
  rw [if_neg plus]
  split
  · split
    · next first second =>
      refine .inr ⟨rfl, ?_⟩
      match path, first, second with
      | [], first, _ => exact nomatch first
      | [_], _, second => exact nomatch second
      | x :: y :: rest, first, second =>
        refine ⟨x, y, rest, rfl, ?_, ?_⟩
        · rintro rfl
          exact nomatch first
        · rintro rfl
          exact nomatch second
    · exact .inl rfl
  · exact .inl rfl

variable (rounds : Nat)

theorem decodeValue_cons {c : UInt8} (other : c ≠ 38) (path : List UInt8) :
    decodeValue (rounds + 1) (c :: path) =
      ((decodeUriChar (c :: path) 3).1 :: (decodeValue rounds ((c :: path).drop (decodeUriChar (c :: path) 3).2)).1,
        (decodeValue rounds ((c :: path).drop (decodeUriChar (c :: path) 3).2)).2) := by
  rw [decodeValue, if_neg other]

variable (value : List UInt8)

theorem decodeValue_encoded {rest : List UInt8} (ends : ∀ c ∈ rest.head?, c = 38) {rounds : Nat}
    (enough : value.length ≤ rounds) : decodeValue rounds (yazEncodeUriComponent value ++ rest) = (value, rest) := by
  induction value generalizing rounds with
  | nil =>
    cases rounds with
    | zero => rfl
    | succ =>
      cases rest with
      | nil => rfl
      | cons c =>
        obtain rfl := ends c rfl
        rfl
  | cons c value ih =>
    obtain ⟨rounds, rfl⟩ := Nat.exists_eq_succ_of_ne_zero (Nat.ne_of_gt (Nat.lt_of_lt_of_le (Nat.succ_pos _) enough))
    have behind := ih (Nat.le_of_succ_le_succ enough)
    have text : yazEncodeUriComponent (c :: value) ++ rest = encodeUriChar c ++ (yazEncodeUriComponent value ++ rest) := by
      rw [yazEncodeUriComponent, flatMap_cons, append_assoc, yazEncodeUriComponent]
    have read := decodeUriChar_encodeUriChar c (yazEncodeUriComponent value ++ rest)
    have noSeparator := encodeUriChar_noSeparator c
    rw [text]
    cases octets : encodeUriChar c with
    | nil =>
      rw [encodeUriChar] at octets
      split at octets <;> exact nomatch octets
    | cons first others =>
      rw [octets] at read noSeparator
      rw [cons_append] at read
      have skipped : List.drop (first :: others).length (first :: (others ++ (yazEncodeUriComponent value ++ rest))) =
          yazEncodeUriComponent value ++ rest := by simp
      rw [cons_append, decodeValue_cons _ (fun is => noSeparator (by simp [is])), read, skipped, behind]

theorem dropWhile_other {c : UInt8} (other : c ≠ 38) (path : List UInt8) :
    (c :: path).dropWhile (· ≠ 38) = path.dropWhile (· ≠ 38) :=
  dropWhile_cons_of_pos (by simpa using other)

theorem takeWhile_other {c : UInt8} (other : c ≠ 38) (path : List UInt8) :
    (c :: path).takeWhile (· ≠ 38) = c :: path.takeWhile (· ≠ 38) :=
  takeWhile_cons_of_pos (by simpa using other)

variable (path : List UInt8)

theorem decodeValue_left {rounds : Nat} (enough : path.length ≤ rounds) :
    (decodeValue rounds path).2 = path.dropWhile (· ≠ 38) ∧
      (decodeValue rounds path).1.length ≤ (path.takeWhile (· ≠ 38)).length := by
  induction rounds generalizing path with
  | zero =>
    rw [eq_nil_of_length_eq_zero (Nat.le_zero.mp enough)]
    exact ⟨rfl, Nat.le_refl _⟩
  | succ _ ih =>
    cases path with
    | nil => exact ⟨rfl, Nat.le_refl _⟩
    | cons c path =>
      by_cases ends : c = 38
      · rw [decodeValue, if_pos ends, dropWhile_cons_of_neg (by simpa using ends)]
        exact ⟨rfl, Nat.zero_le _⟩
      · simp only [length_cons] at enough
        rw [decodeValue_cons _ ends, dropWhile_other ends, takeWhile_other ends]
        -- an escape takes two octets more, and neither of them ends the value
        rcases decodeUriChar_len c path with one | ⟨three, d1, d2, rest, rfl, other1, other2⟩
        · obtain ⟨left, few⟩ := ih path (by omega)
          rw [one]
          exact ⟨left, Nat.succ_le_succ few⟩
        · simp only [length_cons] at enough
          obtain ⟨left, few⟩ := ih rest (by omega)
          rw [three, dropWhile_other other1, dropWhile_other other2, takeWhile_other other1, takeWhile_other other2]
          refine ⟨left, ?_⟩
          simp only [length_cons]
          exact Nat.succ_le_succ (Nat.le_succ_of_le (Nat.le_succ_of_le few))

theorem head?_dropWhile_other : ∀ c ∈ (path.dropWhile (· ≠ 38)).head?, c = 38 := by
  intro c first
  have stops := head?_dropWhile_not (fun c : UInt8 => decide (c ≠ 38)) path
  rw [Option.mem_def.mp first] at stops
  simpa using stops

theorem count_dropWhile {p : UInt8 → Bool} (no : p 38 = false) (path : List UInt8) :
    (path.dropWhile p).count 38 = path.count 38 := by
  induction path with
  | nil => rfl
  | cons c _ ih =>
    by_cases dropped : p c = true
    · have other : c ≠ 38 := by
        rintro rfl
        rw [no] at dropped
        exact nomatch dropped
      rw [dropWhile_cons_of_pos dropped, ih, count_cons_of_ne other]
    · rw [dropWhile_cons_of_neg dropped]

theorem dropWhile_name :
    (path.dropWhile fun c => !endsName c).dropWhile (· ≠ 38) = path.dropWhile (· ≠ 38) := by
  induction path with
  | nil => rfl
  | cons c _ ih =>
    by_cases name : (!endsName c) = true
    · have other : c ≠ 38 := by
        rintro rfl
        exact nomatch name
      rw [dropWhile_cons_of_pos (p := fun c => !endsName c) name, ih, dropWhile_other other]
    · rw [dropWhile_cons_of_neg (p := fun c => !endsName c) name]

theorem countEntries_some {rounds : Nat} (cp : List UInt8) (no : Nat) (enough : cp.length ≤ rounds) {entries : Nat}
    (counted : countEntries rounds cp no = some entries) : entries = no + cp.count 38 := by
  induction rounds generalizing cp no with
  | zero =>
    rw [eq_nil_of_length_eq_zero (Nat.le_zero.mp enough)]
    exact (Option.some.inj counted).symm
  | succ _ ih =>
    have shorter := (dropWhile_suffix (fun c : UInt8 => decide (c ≠ 38)) (l := cp)).length_le
    have same := count_dropWhile (p := (· ≠ 38)) rfl cp
    have separator := head?_dropWhile_other cp
    rw [countEntries] at counted
    cases left : cp.dropWhile (· ≠ 38) with
    | nil =>
      rw [left] at counted same
      rw [← same]
      exact (Option.some.inj counted).symm
    | cons c cp' =>
      rw [left] at counted same shorter separator
      obtain rfl := separator c rfl
      dsimp only at counted
      -- a name has no separator in it, so that the next round counts the next one
      split at counted
      · exact nomatch counted
      · have fewer := (dropWhile_suffix (fun c : UInt8 => !endsName c) (l := cp')).length_le
        simp only [length_cons] at shorter
        rw [ih _ _ (by omega) counted, count_dropWhile rfl, ← same, count_cons_self]
        omega

theorem behind_name :
    (path.dropWhile fun c => !endsName c) = [] ∨ (∃ behind, (path.dropWhile fun c => !endsName c) = 61 :: behind) ∨
      ∃ behind, (path.dropWhile fun c => !endsName c) = 38 :: behind := by
  induction path with
  | nil => exact .inl rfl
  | cons c path ih =>
    by_cases name : (!endsName c) = true
    · rw [dropWhile_cons_of_pos (p := fun c => !endsName c) name]
      exact ih
    · rw [dropWhile_cons_of_neg (p := fun c => !endsName c) name]
      have ends : c = 61 ∨ c = 38 := Decidable.or_iff_not_imp_left.mpr (by simpa [endsName] using name)
      rcases ends with rfl | rfl
      · exact .inr (.inl ⟨path, rfl⟩)
      · exact .inr (.inr ⟨path, rfl⟩)

theorem storePairs_step {path : List UInt8} (more : path.dropWhile (· = 38) ≠ []) :
    ∃ stored, storePairs (rounds + 1) path = stored :: storePairs rounds ((path.dropWhile (· = 38)).dropWhile (· ≠ 38)) ∧
      stored.pair.value.length + 1 ≤ stored.room := by
  rw [storePairs]
  rw [if_neg more, ← dropWhile_name]
  rcases behind_name (path.dropWhile (· = 38)) with left | ⟨path', left⟩ | ⟨path', left⟩
  · rw [left]
    exact ⟨⟨⟨_, []⟩, 1⟩, rfl, Nat.le_refl _⟩
  · obtain ⟨behind, fits⟩ := decodeValue_left path' (Nat.le_refl _)
    rw [left, dropWhile_other (by decide), ← behind]
    exact ⟨_, rfl, Nat.succ_le_succ fits⟩
  · rw [left]
    exact ⟨⟨⟨_, []⟩, 1⟩, rfl, Nat.le_refl _⟩

theorem storePairs_nothing {path : List UInt8} (nothing : path.dropWhile (· = 38) = []) :
    storePairs rounds path = [] := by
  cases rounds with
  | zero => rfl
  | succ =>
    rw [storePairs]
    exact if_pos nothing

theorem storePairs_length :
    (storePairs rounds path).length ≤ path.count 38 + 1 ∧
      ((∀ c ∈ path.head?, c = 38) → (storePairs rounds path).length ≤ path.count 38) := by
  induction rounds generalizing path with
  | zero => exact ⟨Nat.zero_le _, fun _ => Nat.zero_le _⟩
  | succ rounds ih =>
    by_cases more : path.dropWhile (· = 38) = []
    · rw [storePairs_nothing _ more]
      exact ⟨Nat.zero_le _, fun _ => Nat.zero_le _⟩
    · -- what a pair leaves begins with a separator, or is nothing
      obtain ⟨stored, is, -⟩ := storePairs_step rounds more
      have behind := (ih ((path.dropWhile (· = 38)).dropWhile (· ≠ 38))).2 (head?_dropWhile_other _)
      rw [count_dropWhile rfl] at behind
      rw [is, length_cons]
      have fewer := (dropWhile_sublist (l := path) (fun c : UInt8 => decide (c = 38))).count_le 38
      refine ⟨by omega, fun separator => ?_⟩
      cases path with
      | nil => exact absurd rfl more
      | cons c path =>
        obtain rfl := separator c rfl
        have skipped : (38 :: path).dropWhile (· = 38) = path.dropWhile (· = 38) := dropWhile_cons_of_pos rfl
        have fewer := (dropWhile_sublist (l := path) (fun c : UInt8 => decide (c = 38))).count_le 38
        rw [skipped] at behind
        rw [skipped, count_cons_self]
        omega

theorem storePairs_fits :
    ∀ stored ∈ storePairs rounds path, stored.pair.value.length + 1 ≤ stored.room := by
  induction rounds generalizing path with
  | zero => exact fun _ inside => nomatch inside
  | succ rounds ih =>
    by_cases more : path.dropWhile (· = 38) = []
    · rw [storePairs_nothing _ more]
      exact fun _ inside => nomatch inside
    · obtain ⟨stored, is, fits⟩ := storePairs_step rounds more
      rw [is]
      intro other inside
      rcases mem_cons.mp inside with rfl | inside
      · exact fits
      · exact ih _ other inside

/-! ### Pairs that were written -/

/-- A name that `yaz_array_to_uri` may be given. -/
structure IsName (name : List UInt8) : Prop where
  ne_nil : name ≠ []
  sane : ∀ c ∈ name, 33 ≤ c ∧ c ≤ 126 ∧ c ≠ 38 ∧ c ≠ 61

theorem yazEncodeUriComponent_noSeparator : (38 : UInt8) ∉ yazEncodeUriComponent value := by
  rw [yazEncodeUriComponent, mem_flatMap]
  rintro ⟨c, -, inside⟩
  exact encodeUriChar_noSeparator c inside

theorem yazEncodeUriComponent_length : (yazEncodeUriComponent value).length ≤ value.length * 3 := by
  induction value with
  | nil => exact Nat.le_refl _
  | cons c _ ih =>
    have few := encodeUriChar_length c
    rw [yazEncodeUriComponent] at ih ⊢
    rw [flatMap_cons, length_append, length_cons]
    omega

theorem le_yazEncodeUriComponent_length : value.length ≤ (yazEncodeUriComponent value).length := by
  induction value with
  | nil => exact Nat.le_refl _
  | cons c _ ih =>
    have one : 1 ≤ (encodeUriChar c).length := by
      rw [encodeUriChar]
      split <;> simp
    rw [yazEncodeUriComponent] at ih ⊢
    rw [flatMap_cons, length_append, length_cons]
    omega

theorem IsName.inside {name : List UInt8} (isName : IsName name) : ∀ c ∈ name, (!endsName c) = true := by
  intro c inside
  obtain ⟨-, -, noSeparator, noEquals⟩ := isName.sane c inside
  simp [endsName, noSeparator, noEquals]

theorem IsName.takeWhile {name : List UInt8} (isName : IsName name) (rest : List UInt8) :
    ((name ++ 61 :: rest).takeWhile fun c => !endsName c) = name := by
  rw [takeWhile_append_of_pos isName.inside, takeWhile_cons_of_neg (by decide), append_nil]

theorem IsName.dropWhile {name : List UInt8} (isName : IsName name) (rest : List UInt8) :
    ((name ++ 61 :: rest).dropWhile fun c => !endsName c) = 61 :: rest := by
  rw [dropWhile_append_of_pos isName.inside, dropWhile_cons_of_neg (by decide)]

def Pair.stored (pair : Pair) : Stored := ⟨pair, (yazEncodeUriComponent pair.value).length + 1⟩

theorem Pair.text_append (pair : Pair) (rest : List UInt8) :
    pair.text ++ rest = pair.name ++ 61 :: (yazEncodeUriComponent pair.value ++ rest) := by
  rw [Pair.text, append_assoc, cons_append]

theorem storePairs_separator :
    storePairs (rounds + 1) (38 :: path) = storePairs (rounds + 1) path := by
  rw [storePairs, storePairs, dropWhile_cons_of_pos (by decide)]

theorem dropWhile_noSeparator {front rest : List UInt8} (no : (38 : UInt8) ∉ front) (ends : ∀ c ∈ rest.head?, c = 38) :
    (front ++ rest).dropWhile (· ≠ 38) = rest ∧ (front ++ rest).takeWhile (· ≠ 38) = front := by
  have inside : ∀ c ∈ front, decide (c ≠ 38) = true := by
    intro c inside
    have other : c ≠ 38 := fun is => no (is ▸ inside)
    simpa using other
  rw [dropWhile_append_of_pos inside, takeWhile_append_of_pos inside]
  cases rest with
  | nil => exact ⟨rfl, append_nil front⟩
  | cons c =>
    obtain rfl := ends c rfl
    exact ⟨rfl, append_nil front⟩

theorem storePairs_text {pair : Pair} (isName : IsName pair.name) (rounds : Nat) {rest : List UInt8} (ends : ∀ c ∈ rest.head?, c = 38) :
    storePairs (rounds + 1) (pair.text ++ rest) = pair.stored :: storePairs rounds rest := by
  have first : (pair.text ++ rest).dropWhile (· = 38) = pair.text ++ rest := by
    obtain ⟨c, name, is⟩ := exists_cons_of_ne_nil isName.ne_nil
    have noSeparator := (isName.sane c (by rw [is]; exact mem_cons_self)).2.2.1
    rw [pair.text_append, is]
    exact dropWhile_cons_of_neg (by simpa using noSeparator)
  have some : pair.text ++ rest ≠ [] := by
    rw [pair.text_append]
    exact append_ne_nil_of_right_ne_nil _ (cons_ne_nil _ _)
  have enough : pair.value.length ≤ (yazEncodeUriComponent pair.value ++ rest).length := by
    have long := le_yazEncodeUriComponent_length pair.value
    rw [length_append]
    omega
  have room : (yazEncodeUriComponent pair.value ++ rest).takeWhile (· ≠ 38) = yazEncodeUriComponent pair.value :=
    (dropWhile_noSeparator (yazEncodeUriComponent_noSeparator pair.value) ends).2
  rw [storePairs]
  rw [first, if_neg some, pair.text_append, isName.takeWhile, isName.dropWhile]
  simp only [decodeValue_encoded pair.value ends enough, room]
  rfl

def others (pairs : List Pair) : List UInt8 := pairs.flatMap fun pair => 38 :: pair.text

variable (pairs : List Pair)

theorem others_head? : ∀ c ∈ (others pairs).head?, c = 38 := by
  cases pairs with
  | nil => exact fun _ no => nomatch no
  | cons => exact fun c is => (Option.some.inj is).symm

theorem others_cons (pair : Pair) (pairs : List Pair) : others (pair :: pairs) = 38 :: (pair.text ++ others pairs) := by
  rw [others, flatMap_cons, cons_append, others]

theorem storePairs_others {pairs : List Pair} (names : ∀ pair ∈ pairs, IsName pair.name) {rounds : Nat} (enough : pairs.length ≤ rounds) :
    storePairs rounds (others pairs) = pairs.map Pair.stored := by
  induction pairs generalizing rounds with
  | nil => exact storePairs_nothing rounds rfl
  | cons pair pairs ih =>
    obtain ⟨rounds, rfl⟩ := Nat.exists_eq_succ_of_ne_zero (Nat.ne_of_gt (Nat.lt_of_lt_of_le (Nat.succ_pos _) enough))
    have behind := ih (fun other inside => names other (mem_cons_of_mem _ inside)) (Nat.le_of_succ_le_succ enough)
    rw [others_cons, storePairs_separator, storePairs_text (names pair mem_cons_self) rounds (others_head? pairs), behind,
      map_cons]

theorem countEntries_others {pairs : List Pair} (names : ∀ pair ∈ pairs, IsName pair.name) (rounds no : Nat) {front : List UInt8}
    (noSeparator : (38 : UInt8) ∉ front) : (countEntries rounds (front ++ others pairs) no).isSome := by
  induction pairs generalizing rounds no front with
  | nil =>
    cases rounds with
    | zero => rfl
    | succ =>
      rw [countEntries, (dropWhile_noSeparator noSeparator (others_head? [])).1]
      rfl
  | cons pair _ ih =>
    cases rounds with
    | zero => rfl
    | succ rounds =>
      have isName := names pair mem_cons_self
      have sane : ¬ pair.name.any (fun c => c ≤ 32 || 127 ≤ c) = true := by
        simp only [any_eq_true, not_exists, not_and]
        intro c inside
        obtain ⟨low, high, -⟩ := isName.sane c inside
        simp only [Bool.or_eq_true, decide_eq_true_eq, not_or, UInt8.not_le]
        exact ⟨low, UInt8.lt_of_le_of_lt high (by decide)⟩
      have noSeparator' : (38 : UInt8) ∉ 61 :: yazEncodeUriComponent pair.value := by
        simpa using yazEncodeUriComponent_noSeparator pair.value
      rw [countEntries, (dropWhile_noSeparator noSeparator (others_head? _)).1, others_cons, pair.text_append]
      dsimp only
      rw [isName.takeWhile, if_neg sane, isName.dropWhile]
      exact ih (fun other inside => names other (mem_cons_of_mem _ inside)) rounds (no + 1) noSeparator'

theorem yazArrayToUri_cons (pair : Pair) (pairs : List Pair) : yazArrayToUri (pair :: pairs) = pair.text ++ others pairs := rfl

theorem Pair.text_length (pair : Pair) : pair.text.length ≤ pair.name.length + 1 + pair.value.length * 3 := by
  have few := yazEncodeUriComponent_length pair.value
  rw [Pair.text, length_append, length_cons]
  omega

theorem others_length : (others pairs).length + 1 ≤ uriSize pairs := by
  induction pairs with
  | nil => exact Nat.le_refl _
  | cons pair _ ih =>
    have few := pair.text_length
    rw [uriSize] at ih ⊢
    rw [others_cons, length_cons, length_append, map_cons, sum_cons]
    omega

theorem yazArrayToUri_length : (yazArrayToUri pairs).length + 1 ≤ uriSize pairs := by
  cases pairs with
  | nil => exact Nat.le_refl _
  | cons pair pairs =>
    have all := others_length (pair :: pairs)
    rw [others_cons, length_cons] at all
    rw [yazArrayToUri_cons]
    omega

theorem others_count : pairs.length ≤ (others pairs).length := by
  induction pairs with
  | nil => exact Nat.le_refl _
  | cons =>
    rw [others_cons, length_cons, length_cons, length_append]
    omega

theorem pairs_stored : (pairs.map Pair.stored).map Stored.pair = pairs := by
  rw [map_map]
  exact map_id' pairs

theorem yazUriToArray_yazArrayToUri {pairs : List Pair} (names : ∀ pair ∈ pairs, IsName pair.name)
    (noMark : ∀ pair ∈ pairs.head?, pair.name.head? ≠ some 63) :
    ((yazUriToArray (yazArrayToUri pairs)).map Arrays.pairs).getD [] = pairs := by
  cases pairs with
  | nil => rfl
  | cons pair pairs =>
    have isName := names pair mem_cons_self
    have otherNames : ∀ other ∈ pairs, IsName other.name := fun other inside => names other (mem_cons_of_mem _ inside)
    obtain ⟨c, name, is⟩ := exists_cons_of_ne_nil isName.ne_nil
    have mark := noMark pair rfl
    rw [is, head?_cons, ne_eq, Option.some.injEq] at mark
    have text : yazArrayToUri (pair :: pairs) = c :: (name ++ 61 :: (yazEncodeUriComponent pair.value ++ others pairs)) := by
      rw [yazArrayToUri_cons, pair.text_append, is, cons_append]
    have noSeparator : (38 : UInt8) ∉ pair.text := by
      rw [Pair.text]
      intro inside
      rcases mem_append.mp inside with inside | inside
      · exact (isName.sane 38 inside).2.2.1 rfl
      · exact yazEncodeUriComponent_noSeparator pair.value (by simpa using inside)
    have path : (if (yazArrayToUri (pair :: pairs)).head? = some 63 then (yazArrayToUri (pair :: pairs)).tail
        else yazArrayToUri (pair :: pairs)) = yazArrayToUri (pair :: pairs) := by
      rw [text]
      exact if_neg (by simpa using mark)
    -- the first pass accepts the names, and the second one finds as many pairs
    obtain ⟨entries, counted⟩ := Option.isSome_iff_exists.mp
      (countEntries_others otherNames (yazArrayToUri (pair :: pairs)).length 2 noSeparator)
    have more : (yazArrayToUri (pair :: pairs)).length = (name ++ 61 :: (yazEncodeUriComponent pair.value ++ others pairs)).length + 1 := by
      rw [text, length_cons]
    have enough : pairs.length ≤ (name ++ 61 :: (yazEncodeUriComponent pair.value ++ others pairs)).length := by
      have few := others_count pairs
      simp only [length_append, length_cons]
      omega
    have stored : storePairs (yazArrayToUri (pair :: pairs)).length (yazArrayToUri (pair :: pairs)) =
        pair.stored :: pairs.map Pair.stored := by
      rw [more, yazArrayToUri_cons, storePairs_text isName _ (others_head? pairs), storePairs_others otherNames enough]
    rw [yazUriToArray]
    rw [path, if_neg (by rw [text]; exact cons_ne_nil _ _), stored]
    rw [yazArrayToUri_cons] at counted ⊢
    rw [counted]
    exact pairs_stored (pair :: pairs)

theorem yazUriToArray_fits {path : List UInt8} {arrays : Arrays} (accepted : yazUriToArray path = some arrays) :
    arrays.stored.length + 1 ≤ arrays.entries ∧ ∀ stored ∈ arrays.stored, stored.pair.value.length + 1 ≤ stored.room := by
  rw [yazUriToArray] at accepted
  generalize (if path.head? = some 63 then path.tail else path) = text at accepted
  split at accepted
  · exact nomatch accepted
  · obtain ⟨entries, counted, rfl⟩ := Option.map_eq_some_iff.mp accepted
    have count := countEntries_some _ _ (Nat.le_refl _) counted
    refine ⟨?_, storePairs_fits _ _⟩
    have few := (storePairs_length text.length text).1
    dsimp only
    omega

/-- Pairs are read as they were written, in the space that was computed for them; of any text no more is stored than was
allocated. -/
theorem uri_forms {pairs : List Pair} (names : ∀ pair ∈ pairs, IsName pair.name)
    (noMark : ∀ pair ∈ pairs.head?, pair.name.head? ≠ some 63) (path : List UInt8) :
    ((yazUriToArray (yazArrayToUri pairs)).map Arrays.pairs).getD [] = pairs ∧
      (yazArrayToUri pairs).length + 1 ≤ uriSize pairs ∧
      ∀ arrays, yazUriToArray path = some arrays →
        arrays.stored.length + 1 ≤ arrays.entries ∧ ∀ stored ∈ arrays.stored, stored.pair.value.length + 1 ≤ stored.room :=
  ⟨yazUriToArray_yazArrayToUri names noMark, yazArrayToUri_length pairs, fun _ accepted => yazUriToArray_fits accepted⟩

/-- `q=a b&x=`, and a text with an escape that an ampersand cuts. -/
theorem uri_forms_query :
    ((yazUriToArray (yazArrayToUri [⟨[113], [97, 32, 98]⟩, ⟨[120], []⟩])).map Arrays.pairs).getD [] =
        [⟨[113], [97, 32, 98]⟩, ⟨[120], []⟩] ∧
      (yazArrayToUri [⟨[113], [97, 32, 98]⟩, ⟨[120], []⟩]).length + 1 ≤ uriSize [⟨[113], [97, 32, 98]⟩, ⟨[120], []⟩] ∧
      ∀ arrays, yazUriToArray [97, 61, 37, 52, 38, 38, 98] = some arrays →
        arrays.stored.length + 1 ≤ arrays.entries ∧ ∀ stored ∈ arrays.stored, stored.pair.value.length + 1 ≤ stored.room := by
  refine uri_forms ?_ ?_ _
  · intro pair inside
    simp only [mem_cons, not_mem_nil, or_false] at inside
    rcases inside with rfl | rfl
    · exact ⟨by decide, by decide⟩
    · exact ⟨by decide, by decide⟩
  · rintro pair is
    obtain rfl := Option.some.inj is
    decide

end Yaz.Uri
