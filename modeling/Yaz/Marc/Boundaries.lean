import Yaz.Marc.Inspection

/-! Writers stay inside the strings of a record as long as the calls of `get_subfield_len` and `cdata_one_character` do. -/

set_option autoImplicit false

variable {off : Nat}

namespace Yaz.Marc
open List
open Yaz.Comstack
open Yaz.Http (cString)
open Yaz.Iconv (yazReadUTF8Char utf8Sequence)

theorem noNul_cString (octets : List UInt8) : 0 ∉ cString octets := by
  intro inside
  have kept := mem_takeWhile_imp inside
  simp at kept

theorem Stored.memory_drop (s : Stored) (inside : off ≤ s.length) :
    ∃ rest, s.memory.drop off = (cString s.octets).drop off ++ 0 :: rest := by
  have whole : ∃ rest, s.memory = cString s.octets ++ 0 :: rest := by
    have split : cString s.octets ++ s.octets.dropWhile (fun c => decide (c ≠ 0)) = s.octets := takeWhile_append_dropWhile
    cases left : s.octets.dropWhile fun c => decide (c ≠ 0) with
    | nil =>
      rw [left, append_nil] at split
      exact ⟨s.behind, by rw [Stored.memory, split]⟩
    | cons c rest =>
      have stops : c = 0 := by
        have stopped := head?_dropWhile_not (fun c : UInt8 => decide (c ≠ 0)) s.octets
        rw [left] at stopped
        simpa using stopped
      refine ⟨rest ++ 0 :: s.behind, ?_⟩
      rw [left, stops] at split
      calc s.memory = (cString s.octets ++ 0 :: rest) ++ 0 :: s.behind := by rw [split, Stored.memory]
        _ = cString s.octets ++ 0 :: (rest ++ 0 :: s.behind) := by simp
  obtain ⟨rest, memory⟩ := whole
  refine ⟨rest, ?_⟩
  rw [memory, drop_append_of_le_length inside]

theorem Stored.cString_memory_drop (s : Stored) (inside : off ≤ s.length) :
    cString (s.memory.drop off) = (cString s.octets).drop off := by
  obtain ⟨rest, memory⟩ := s.memory_drop inside
  rw [memory]
  exact cString_append_nul (fun nul => noNul_cString s.octets (mem_of_mem_drop nul)) rest

/-- `(c & 0xc0) == 0x80`. -/
def goesOn (c : UInt8) : Bool := c.toNat / 64 = 2

theorem goesOn_before_nul {text rest : List UInt8} {n : Nat} (on : ((text ++ 0 :: rest).take n).all goesOn = true) : n ≤ text.length := by
  by_contra beyond
  have nul : (0 : UInt8) ∈ (text ++ 0 :: rest).take n := by
    obtain ⟨k, more⟩ : ∃ k, n = text.length + (k + 1) := ⟨n - text.length - 1, by omega⟩
    rw [more, take_length_add_append]
    simp
  have := all_eq_true.mp on 0 nul
  exact absurd this (by decide)

theorem utf8Sequence_noRead {first n least : Nat} {rest : List UInt8} (ok : (utf8Sequence first n least rest).errno = some .ok) :
    (utf8Sequence first n least rest).noRead = n + 1 ∧ (rest.take n).all goesOn = true := by
  rw [utf8Sequence] at ok ⊢
  by_cases on : ((rest.take n).all fun c => c.toNat / 64 = 2) = true
  · rw [if_pos on] at ok ⊢
    dsimp only at ok ⊢
    split at ok
    next enough =>
      rw [if_pos enough]
      exact ⟨rfl, on⟩
    next short => simp at ok
  · rw [if_neg on] at ok
    simp at ok

theorem yazReadUTF8Char_noRead {c : UInt8} {rest : List UInt8} (ok : (yazReadUTF8Char (c :: rest)).errno = some .ok) :
    ∃ n, (yazReadUTF8Char (c :: rest)).noRead = n + 1 ∧ n ≤ rest.length ∧ (rest.take n).all goesOn = true := by
  rw [yazReadUTF8Char] at ok ⊢
  dsimp only [length_cons] at ok ⊢
  split_ifs at ok ⊢ <;> first
    | exact ⟨0, rfl, Nat.zero_le _, by simp⟩
    | exact ⟨_, (utf8Sequence_noRead ok).1, by omega, (utf8Sequence_noRead ok).2⟩
    | simp at ok

theorem cdataOneCharacter_le_text (c : UInt8) (text rest : List UInt8) :
    cdataOneCharacter (c :: text ++ 0 :: rest) ≤ (c :: text).length := by
  rw [cdataOneCharacter]
  split
  next good =>
    have shape : (c :: text ++ 0 :: rest).take 4 = c :: (text ++ 0 :: rest).take 3 := rfl
    rw [shape] at good ⊢
    obtain ⟨n, size, few, on⟩ := yazReadUTF8Char_noRead good.1
    have atMost : n ≤ 3 := le_trans few (length_take_le _ _)
    rw [take_take, Nat.min_eq_left atMost] at on
    have := goesOn_before_nul on
    rw [size, length_cons]
    omega
  next => simp

theorem lookedFollowing_le (n : Nat) (text rest : List UInt8) : lookedFollowing n (text ++ 0 :: rest) ≤ text.length + 1 := by
  induction n generalizing text with
  | zero => exact Nat.zero_le _
  | succ _ ih =>
    cases text with
    | nil => simp [lookedFollowing]
    | cons _ text =>
      have step := ih text
      rw [cons_append, lookedFollowing, length_cons]
      split <;> omega

theorem utf8Looked_le (c : UInt8) (text rest : List UInt8) : utf8Looked (c :: text ++ 0 :: rest) ≤ (c :: text).length + 1 := by
  have following := lookedFollowing_le (utf8Following c) text rest
  rw [cons_append, utf8Looked, length_cons]
  omega

theorem cdataOneCharacter_nul (rest : List UInt8) : cdataOneCharacter (0 :: rest) = 1 := cdataOneCharacter_ascii (by decide) rest

section
variable {C : Type} (conversion : Conversion C)

/-- The descriptor behind the first `tries` tries. -/
def triedCd (cd : C) (buf : List UInt8) : (tries : Nat) → C
  | 0 => cd
  | tries + 1 => (conversion.converts (triedCd cd buf tries) (buf.take (tries + 1))).2

/-- The try after `tries` others converts. -/
def convertsAt (cd : C) (buf : List UInt8) (tries : Nat) : Bool :=
  (conversion.converts (triedCd conversion cd buf tries) (buf.take (tries + 1))).1

def inspectedAt (cd : C) (buf : List UInt8) (tries : Nat) : Nat :=
  conversion.inspected (triedCd conversion cd buf tries) (buf.take (tries + 1))

theorem inspectedAt_le (cd : C) (buf : List UInt8) (tries : Nat) : inspectedAt conversion cd buf tries ≤ tries + 1 :=
  le_trans (conversion.given _ _) (length_take_le _ _)

theorem guessCharacter_succ (cd : C) (buf : List UInt8) (rounds tries : Nat) :
    guessCharacter conversion (rounds + 1) (tries + 1) (triedCd conversion cd buf tries) buf =
      if convertsAt conversion cd buf tries then
        (some (tries + 1), inspectedAt conversion cd buf tries, triedCd conversion cd buf (tries + 1))
      else
        let later := guessCharacter conversion rounds (tries + 2) (triedCd conversion cd buf (tries + 1)) buf
        (later.1, max (inspectedAt conversion cd buf tries) later.2.1, later.2.2) := rfl

theorem guessCharacter_found {cd : C} {buf : List UInt8} {k : Nat} (good : convertsAt conversion cd buf k = true) (rounds tries : Nat)
    (start : tries ≤ k) (enough : k < tries + rounds) (first : ∀ j, tries ≤ j → j < k → convertsAt conversion cd buf j = false) :
    (guessCharacter conversion rounds (tries + 1) (triedCd conversion cd buf tries) buf).1 = some (k + 1) ∧
      (guessCharacter conversion rounds (tries + 1) (triedCd conversion cd buf tries) buf).2.1 ≤ k + 1 := by
  induction rounds generalizing tries with
  | zero => omega
  | succ _ ih =>
    rw [guessCharacter_succ]
    by_cases now : tries = k
    · subst now
      rw [if_pos good]
      exact ⟨rfl, inspectedAt_le conversion cd buf tries⟩
    · have bad := first tries (le_refl _) (by omega)
      have later := ih (tries + 1) (by omega) (by omega) fun j from' => first j (by omega)
      have here := inspectedAt_le conversion cd buf tries
      rw [bad]
      exact ⟨later.1, max_le (by omega) later.2⟩

theorem guessCharacter_gaveUp {cd : C} {buf : List UInt8} (rounds tries : Nat)
    (bad : ∀ j, tries ≤ j → j < tries + rounds → convertsAt conversion cd buf j = false) :
    (guessCharacter conversion rounds (tries + 1) (triedCd conversion cd buf tries) buf).1 = none ∧
      ∀ bound, (guessCharacter conversion rounds (tries + 1) (triedCd conversion cd buf tries) buf).2.1 ≤ bound ↔
        ∀ j, tries ≤ j → j < tries + rounds → inspectedAt conversion cd buf j ≤ bound := by
  induction rounds generalizing tries with
  | zero =>
    refine ⟨rfl, fun bound => ⟨fun _ j start below => absurd below (by omega), fun _ => Nat.zero_le _⟩⟩
  | succ rounds ih =>
    have later := ih (tries + 1) fun j start below => bad j (by omega) (by omega)
    rw [guessCharacter_succ, bad tries (le_refl _) (by omega)]
    refine ⟨later.1, fun bound => ?_⟩
    calc max (inspectedAt conversion cd buf tries) _ ≤ bound
        ↔ inspectedAt conversion cd buf tries ≤ bound ∧
            ∀ j, tries + 1 ≤ j → j < tries + 1 + rounds → inspectedAt conversion cd buf j ≤ bound := by rw [max_le_iff, later.2]
      _ ↔ ∀ j, tries ≤ j → j < tries + (rounds + 1) → inspectedAt conversion cd buf j ≤ bound := by
          constructor
          · intro ⟨here, rest⟩ j start below
            by_cases now : j = tries
            · exact now ▸ here
            · exact rest j (by omega) (by omega)
          · intro all
            exact ⟨all tries (le_refl _) (by omega), fun j start below => all j (by omega) (by omega)⟩

/-- `cdata_one_character` stays inside a string of `n` octets with the NUL behind it. -/
def OneCharacterInside (cd : Option C) (memory : List UInt8) (n : Nat) : Prop :=
  (oneCharacter conversion cd memory).1 ≤ n ∧ (oneCharacter conversion cd memory).2.1 ≤ n + 1

/-- A string of `n` octets has a character for a descriptor: some octets of it convert, or none of the tries does and none inspects what is
behind the NUL. -/
def GuessFits (cd : C) (memory : List UInt8) (n : Nat) : Prop :=
  (∃ k, k < 4 ∧ k < n ∧ convertsAt conversion cd memory k = true) ∨
    0 < n ∧ ∀ k, k < 4 → convertsAt conversion cd memory k = false ∧ inspectedAt conversion cd memory k ≤ n + 1

theorem oneCharacterInside_some (cd : C) (memory : List UInt8) (n : Nat) :
    OneCharacterInside conversion (some cd) memory n ↔ GuessFits conversion cd memory n := by
  rw [OneCharacterInside, oneCharacter]
  by_cases some' : ∃ k, k < 4 ∧ convertsAt conversion cd memory k = true
  · obtain ⟨first, few, good, before⟩ : ∃ first, first < 4 ∧ convertsAt conversion cd memory first = true ∧
        ∀ j, j < first → ¬(j < 4 ∧ convertsAt conversion cd memory j = true) :=
      ⟨Nat.find some', (Nat.find_spec some').1, (Nat.find_spec some').2, fun _ => Nat.find_min some'⟩
    have bad : ∀ j, 0 ≤ j → j < first → convertsAt conversion cd memory j = false :=
      fun j _ earlier => Bool.eq_false_iff.mpr fun is => before j earlier ⟨by omega, is⟩
    obtain ⟨size, looked⟩ := guessCharacter_found conversion good 4 0 (Nat.zero_le _) (by omega) bad
    rw [triedCd] at size looked
    dsimp only
    rw [size]
    constructor
    · intro inside
      exact Or.inl ⟨first, few, inside.1, good⟩
    · rintro (⟨k, few', inside, good'⟩ | ⟨_, all⟩)
      · have least : first ≤ k := not_lt.mp fun earlier => before k earlier ⟨few', good'⟩
        exact ⟨show first + 1 ≤ n by omega, le_trans looked (by omega)⟩
      · exact absurd good (by rw [(all _ few).1]; decide)
  · have bad : ∀ j, j < 4 → convertsAt conversion cd memory j = false := fun j few => Bool.eq_false_iff.mpr fun is => some' ⟨j, few, is⟩
    obtain ⟨size, looked⟩ := @guessCharacter_gaveUp _ conversion cd memory 4 0 fun j _ few => bad j (by omega)
    rw [triedCd] at size looked
    dsimp only
    rw [size, looked]
    constructor
    · rintro ⟨least, all⟩
      exact Or.inr ⟨least, fun k few => ⟨bad k few, all k (Nat.zero_le _) (by omega)⟩⟩
    · rintro (⟨k, few, _, good⟩ | ⟨least, all⟩)
      · exact absurd ⟨k, few, good⟩ some'
      · exact ⟨least, fun k _ few => (all k (by omega)).2⟩

theorem oneCharacterInside_none (s : Stored) (inside : off ≤ s.length) :
    OneCharacterInside conversion none (s.memory.drop off) (s.length - off) ↔ off < s.length := by
  obtain ⟨rest, memory⟩ := s.memory_drop inside
  have size : ((cString s.octets).drop off).length = s.length - off := length_drop
  rw [OneCharacterInside, oneCharacter, memory, ← size]
  cases left : (cString s.octets).drop off with
  | nil =>
    rw [left] at size
    rw [nil_append, cdataOneCharacter_nul]
    simp only [length_nil] at size ⊢
    omega
  | cons c text =>
    rw [left] at size
    rw [length_cons] at size
    exact ⟨fun _ => by omega, fun _ => ⟨cdataOneCharacter_le_text c text rest, utf8Looked_le c text rest⟩⟩

def Event.Inside : Event C → Prop
  | .code cd identifierLength data =>
    (subfieldLen conversion cd data.memory identifierLength).1 ≤ data.length ∧
      (subfieldLen conversion cd data.memory identifierLength).2.1 ≤ data.length + 1
  | .indicator cd string off =>
    off ≤ string.length ∧ OneCharacterInside conversion cd (string.memory.drop off) (string.length - off)
  | .look string upTo => upTo ≤ string.length + 1

def CodeFits (cd : Option C) (identifierLength : Nat) (data : Stored) : Prop :=
  if 2 < identifierLength then identifierLength - 1 ≤ data.length
  else match cd with
    | none => 0 < data.length
    | some cd => GuessFits conversion cd data.memory data.length

def Event.Fits : Event C → Prop
  | .code cd identifierLength data => CodeFits conversion cd identifierLength data
  | .indicator (some cd) string off => GuessFits conversion cd (string.memory.drop off) (string.length - off)
  | .indicator none _ _ => True
  | .look _ _ => True

theorem Event.code_inside_iff (cd : Option C) (identifierLength : Nat) (data : Stored) :
    (Event.code cd identifierLength data).Inside conversion ↔ (Event.code cd identifierLength data).Fits conversion := by
  rw [Event.Inside, Event.Fits, CodeFits.eq_def, subfieldLen]
  by_cases long : 2 < identifierLength
  · simp only [if_pos long]
    exact ⟨fun inside => inside.1, fun fits => ⟨fits, Nat.zero_le _⟩⟩
  · simp only [if_neg long]
    cases cd with
    | none => exact oneCharacterInside_none conversion data (Nat.zero_le _)
    | some cd => exact oneCharacterInside_some conversion cd data.memory data.length

theorem Event.indicator_inside (cd : Option C) {string : Stored} (inside : off < string.length)
    (fits : (Event.indicator cd string off).Fits conversion) : (Event.indicator cd string off).Inside conversion := by
  refine ⟨inside.le, ?_⟩
  cases cd with
  | none => exact (oneCharacterInside_none conversion string inside.le).mpr inside
  | some cd => exact (oneCharacterInside_some conversion cd _ _).mpr fits

theorem Event.fits_of_inside (e : Event C) (inside : e.Inside conversion) : e.Fits conversion := by
  cases e with
  | code cd identifierLength data => exact (Event.code_inside_iff conversion cd identifierLength data).mp inside
  | indicator cd =>
    cases cd with
    | none => trivial
    | some cd => exact (oneCharacterInside_some conversion cd _ _).mp inside.2
  | look => trivial

/-! ### Parts of a writer -/

def Tour.Sound (tour : Tour C) : Prop := ∀ cd, (∀ e ∈ (tour cd).1, e.Fits conversion) → ∀ e ∈ (tour cd).1, e.Inside conversion

def Tour.Keeps (tour : Tour C) : Prop := (tour none).2 = none

def Tour.Needs (tour : Tour C) : Prop := ∀ e ∈ (tour none).1, e.Fits conversion

theorem Tour.andThen_events (first second : Tour C) (cd : Option C) :
    (first.andThen second cd).1 = (first cd).1 ++ (second (first cd).2).1 := rfl

variable {first second : Tour C}

theorem Tour.andThen_sound (firstSound : first.Sound conversion) (secondSound : second.Sound conversion) :
    (first.andThen second).Sound conversion := by
  intro cd fits e among
  rw [Tour.andThen_events] at fits among
  rcases mem_append.mp among with here | later
  · exact firstSound cd (fun e here => fits e (mem_append_left _ here)) e here
  · exact secondSound _ (fun e later => fits e (mem_append_right _ later)) e later

variable {tours : List (Tour C)}

theorem Tour.all_sound (sound : ∀ tour ∈ tours, tour.Sound conversion) : (Tour.all tours).Sound conversion := by
  induction tours with
  | nil => exact fun cd _ e among => absurd among (by simp [Tour.all, Tour.skip])
  | cons first _ ih =>
    exact Tour.andThen_sound conversion (sound first (by simp)) (ih fun tour among => sound tour (by simp [among]))

theorem Tour.skip_sound : (Tour.skip : Tour C).Sound conversion := fun _ _ e among => absurd among (by simp [Tour.skip])

theorem convert_sound (octets : List UInt8) : (convert conversion octets).Sound conversion :=
  fun _ _ e among => absurd among (by simp [convert])

theorem reset_sound : (reset conversion).Sound conversion := fun _ _ e among => absurd among (by simp [reset])

theorem look_sound {string : Stored} {upTo : Nat} (inside : upTo ≤ string.length + 1) : (look string upTo : Tour C).Sound conversion := by
  intro cd _ e among
  rw [mem_singleton.mp among]
  exact inside

variable (string : Stored)

theorem puts_sound : (puts string : Tour C).Sound conversion := look_sound conversion (le_refl _)

theorem iconvPuts_sound : (iconvPuts conversion string).Sound conversion :=
  Tour.andThen_sound conversion (puts_sound conversion string) (convert_sound conversion _)

theorem iconvWriteAt_sound {string : Stored} {len : Nat} (inside : off + len ≤ string.length) :
    (iconvWriteAt conversion string off len).Sound conversion :=
  Tour.andThen_sound conversion (look_sound conversion (Nat.le_succ_of_le inside)) (convert_sound conversion _)

theorem iconvPutsAt_sound {string : Stored} (inside : off ≤ string.length) : (iconvPutsAt conversion string off).Sound conversion := by
  refine Tour.andThen_sound conversion (look_sound conversion ?_) (convert_sound conversion _)
  rw [string.cString_memory_drop inside, length_drop]
  show off + ((cString string.octets).length - off) + 1 ≤ string.length + 1
  rw [Stored.length] at inside ⊢
  omega

theorem withCode_sound {identifierLength : Nat} {data : Stored} {next : Nat → Tour C}
    (sound : ∀ len, len ≤ data.length → (next len).Sound conversion) :
      (withCode conversion identifierLength data next).Sound conversion := by
  intro cd fits
  have code := (Event.code_inside_iff conversion cd identifierLength data).mpr (fits _ mem_cons_self)
  have rest := sound _ code.1 _ fun e among => fits e (mem_cons_of_mem _ among)
  exact forall_mem_cons.mpr ⟨code, rest⟩

theorem Stored.nul (s : Stored) : s.memory.getD s.length 0 = 0 := by
  obtain ⟨rest, memory⟩ := s.memory_drop (le_refl _)
  have at' : s.memory.getD s.length 0 = (s.memory.drop s.length).getD 0 0 := by simp [getD_eq_getElem?_getD]
  rw [at', memory, Stored.length, drop_length]
  rfl

variable {each : (off ilen : Nat) → Tour C}

theorem indicatorsFrom_sound {indicator : Stored}
    (sound : ∀ off ilen, off + ilen ≤ indicator.length → (each off ilen).Sound conversion) (rounds : Nat)
    (inside : off ≤ indicator.length) : (indicatorsFrom conversion indicator each rounds off).Sound conversion := by
  induction rounds generalizing off with
  | zero => exact Tour.skip_sound conversion
  | succ _ ih =>
    rw [indicatorsFrom]
    refine Tour.andThen_sound conversion (look_sound conversion (by omega)) ?_
    intro cd
    dsimp only
    by_cases stops : indicator.memory.getD off 0 = 0
    · rw [if_pos stops]
      exact fun _ e among => absurd among (by simp)
    · rw [if_neg stops]
      intro fits
      have before : off < indicator.length := lt_of_le_of_ne inside fun last => stops (last ▸ indicator.nul)
      have here := Event.indicator_inside conversion cd before (fits _ mem_cons_self)
      have onward : off + (oneCharacter conversion cd (indicator.memory.drop off)).1 ≤ indicator.length := by
        have := here.2.1
        omega
      have rest := Tour.andThen_sound conversion (sound off _ onward) (ih onward) _ fun e among => fits e (mem_cons_of_mem _ among)
      exact forall_mem_cons.mpr ⟨here, rest⟩

theorem indicators_sound {indicator : Stored}
    (sound : ∀ off ilen, off + ilen ≤ indicator.length → (each off ilen).Sound conversion) :
    (indicators conversion indicator each).Sound conversion :=
  indicatorsFrom_sound conversion sound _ (Nat.zero_le _)

/-! ### The writers -/

variable (beyond : List UInt8 → List UInt8)

theorem lookTag_sound (tag : List UInt8) : (lookTag beyond tag : Tour C).Sound conversion := look_sound conversion (Nat.min_le_right _ _)

variable (identifierLength : Nat)

theorem lineNode_sound (n : Node) : (lineNode conversion beyond identifierLength n).Sound conversion := by
  cases n with
  | datafield =>
    refine Tour.all_sound conversion (forall_mem_append.mpr ⟨?_, forall_mem_map.mpr fun s _ => ?_⟩)
    · simp [puts_sound]
    · refine withCode_sound conversion fun len inside => Tour.all_sound conversion ?_
      simp [iconvWriteAt_sound, convert_sound, iconvPutsAt_sound, reset_sound, inside]
  | controlfield =>
    refine Tour.all_sound conversion ?_
    simp [puts_sound, convert_sound, iconvPuts_sound, reset_sound]
  | comment =>
    refine Tour.all_sound conversion ?_
    simp [iconvPuts_sound, reset_sound]
  | leader => exact puts_sound conversion _

theorem appendAttributeValue_sound (named : Bool) {data : Stored} {codeLen : Nat} (inside : codeLen ≤ data.length) :
    (appendAttributeValue conversion named data codeLen).Sound conversion := by
  refine Tour.andThen_sound conversion (look_sound conversion (Nat.le_succ_of_le inside)) ?_
  split
  · exact iconvWriteAt_sound conversion (by omega)
  · exact Tour.skip_sound conversion

theorem wrbufNode_sound (turbo : Bool) (identifierLength : Nat) (n : Node) :
    (wrbufNode conversion beyond turbo identifierLength n).Sound conversion := by
  cases n with
  | datafield _ indicator =>
    refine Tour.all_sound conversion (forall_mem_append.mpr ⟨forall_mem_append.mpr ⟨?_, forall_mem_map.mpr fun s _ => ?_⟩, ?_⟩)
    · have each : ∀ off ilen, off + ilen ≤ (stored beyond indicator).length →
          (Tour.all [iconvWriteAt conversion (stored beyond indicator) off ilen, convert conversion [34]]).Sound conversion := by
        intro off ilen inside
        refine Tour.all_sound conversion ?_
        simp [iconvWriteAt_sound, convert_sound, inside]
      simp [iconvPuts_sound, indicators_sound conversion each]
    · refine withCode_sound conversion fun len inside => Tour.all_sound conversion ?_
      cases turbo with
      | true => simp [appendAttributeValue_sound, iconvPutsAt_sound, reset_sound, inside]
      | false =>
        have octets : (iconvWriteAt conversion (stored beyond s) 0 len).Sound conversion := iconvWriteAt_sound conversion (by omega)
        have code := Tour.andThen_sound conversion octets (convert_sound conversion [34, 62])
        simp [code, iconvPutsAt_sound, reset_sound, Tour.skip_sound, inside]
    · cases turbo <;> simp [iconvPuts_sound, Tour.skip_sound]
  | controlfield =>
    refine Tour.all_sound conversion ?_
    cases turbo <;> simp [convert_sound, iconvPuts_sound, reset_sound, Tour.skip_sound]
  | comment => exact puts_sound conversion _
  | leader => exact puts_sound conversion _

theorem xmlIndicators_sound (indicator : Stored) : (xmlIndicators conversion indicator).Sound conversion := by
  refine indicators_sound conversion fun off ilen inside => ?_
  split
  · exact look_sound conversion (Nat.le_succ_of_le inside)
  · exact Tour.skip_sound conversion

theorem xmlNode_sound (turbo : Bool) (identifierLength : Nat) (n : Node) :
    (xmlNode conversion beyond turbo identifierLength n).Sound conversion := by
  have named : ∀ tag : List UInt8, (if turbo then lookTag beyond tag else puts (stored beyond tag) : Tour C).Sound conversion := by
    intro tag
    cases turbo with
    | true => exact lookTag_sound conversion beyond tag
    | false => exact puts_sound conversion _
  cases n with
  | datafield =>
    refine Tour.all_sound conversion (forall_mem_append.mpr ⟨?_, forall_mem_map.mpr fun s _ => ?_⟩)
    · simp [named, xmlIndicators_sound]
    · refine withCode_sound conversion fun len inside => Tour.all_sound conversion ?_
      have attribute' : (if turbo then appendAttributeValue conversion false (stored beyond s) len else Tour.skip).Sound conversion := by
        split
        · exact appendAttributeValue_sound conversion false inside
        · exact Tour.skip_sound conversion
      have code : (if turbo && ((stored beyond s).memory.take len).all fun c => isDigit c || isLower c || isUpper c then Tour.skip
          else iconvWriteAt conversion (stored beyond s) 0 len).Sound conversion := by
        split
        · exact Tour.skip_sound conversion
        · exact iconvWriteAt_sound conversion (by omega)
      simp only [forall_mem_cons]
      exact ⟨iconvPutsAt_sound conversion inside, reset_sound conversion, attribute', code, by simp⟩
  | controlfield =>
    refine Tour.all_sound conversion ?_
    simp [named, iconvPuts_sound, reset_sound]
  | comment => exact puts_sound conversion _
  | leader => exact puts_sound conversion _

theorem jsonNode_sound (n : Node) : (jsonNode conversion beyond identifierLength n).Sound conversion := by
  cases n with
  | datafield _ indicator =>
    refine Tour.all_sound conversion (forall_mem_append.mpr ⟨forall_mem_append.mpr ⟨?_, forall_mem_map.mpr fun s _ => ?_⟩, ?_⟩)
    · simp [puts_sound]
    · refine withCode_sound conversion fun len inside => Tour.all_sound conversion ?_
      simp [iconvWriteAt_sound, iconvPutsAt_sound, inside]
    · have each : (indicators conversion (stored beyond indicator) fun off ilen =>
        look (stored beyond indicator) (off + ilen)).Sound conversion :=
        indicators_sound conversion fun off ilen inside => look_sound conversion (Nat.le_succ_of_le inside)
      simp [each]
  | controlfield =>
    refine Tour.all_sound conversion ?_
    simp [iconvPuts_sound]
  | comment => exact Tour.skip_sound conversion
  | leader => exact Tour.skip_sound conversion

theorem checkNode_sound (n : Node) : (checkNode conversion beyond n).Sound conversion := by
  cases n with
  | comment => exact iconvPuts_sound conversion _
  | _ => exact Tour.skip_sound conversion

theorem iso2709First_inside (lengthDataEntry lengthStarting : Nat) (nodes : List Node) (dir dataOffset : Nat) (cd : Option C) :
    ∀ e ∈ (iso2709First conversion beyond lengthDataEntry lengthStarting nodes dir dataOffset cd).1, e.Inside conversion := by
  induction nodes generalizing dir dataOffset cd with
  | nil => exact fun e among => absurd among (by simp [iso2709First])
  | cons n _ ih =>
    have looks : ∀ e ∈ (iso2709Strings n).map fun s => Event.look (C := C) (stored beyond s) ((stored beyond s).length + 1),
        e.Inside conversion := forall_mem_map.mpr fun s _ => le_refl _
    rw [iso2709First]
    dsimp only
    split
    next => exact ih _ _ _
    next tag dataLength field =>
      split
      · exact forall_mem_append.mpr ⟨looks, ih _ _ _⟩
      · split
        · exact looks
        · exact forall_mem_append.mpr ⟨looks, forall_mem_cons.mpr ⟨Nat.min_le_right _ _, ih _ _ _⟩⟩

theorem iso2709SecondNode_sound (n : Node) : (iso2709SecondNode conversion beyond n).Sound conversion := by
  refine Tour.all_sound conversion (forall_mem_map.mpr fun s _ => Tour.all_sound conversion ?_)
  simp [iconvPuts_sound, reset_sound]

theorem iso2709Tour_sound (nodes : List Node) : (iso2709Tour conversion beyond nodes).Sound conversion := by
  intro cd
  rw [iso2709Tour]
  split
  next =>
    intro fits
    refine forall_mem_append.mpr ⟨iso2709First_inside conversion beyond _ _ nodes 0 0 cd, ?_⟩
    refine Tour.all_sound conversion (forall_mem_map.mpr fun n _ => iso2709SecondNode_sound conversion beyond n) _ ?_
    exact fun e later => fits e (mem_append_right _ later)
  next => exact fun _ e among => absurd among (by simp)

theorem withIdentifierLength_sound (leader : Option (List UInt8)) {tour : Nat → Tour C}
    (sound : ∀ identifierLength, (tour identifierLength).Sound conversion) :
    (withIdentifierLength leader tour).Sound conversion := by
  rw [withIdentifierLength]
  split
  next identifierLength _ => exact sound identifierLength
  next => exact Tour.skip_sound conversion

theorem marcxmlTour_sound (usingLibxml2 turbo : Bool) (nodes : List Node) :
    (marcxmlTour conversion beyond usingLibxml2 turbo nodes).Sound conversion := by
  refine withIdentifierLength_sound conversion _ fun identifierLength => Tour.all_sound conversion (forall_mem_map.mpr fun n _ => ?_)
  cases usingLibxml2 with
  | true => exact xmlNode_sound conversion beyond turbo identifierLength n
  | false => exact wrbufNode_sound conversion beyond turbo identifierLength n

variable (format : OutputFormat)

theorem writeMode_sound (usingLibxml2 : Bool) (nodes : List Node) :
    (writeMode conversion beyond format usingLibxml2 nodes).Sound conversion := by
  cases format with
  | line =>
    exact withIdentifierLength_sound conversion _ fun identifierLength =>
      Tour.all_sound conversion (forall_mem_map.mpr fun n _ => lineNode_sound conversion beyond identifierLength n)
  | marcxml => exact marcxmlTour_sound conversion beyond usingLibxml2 false _
  | turbomarc => exact marcxmlTour_sound conversion beyond usingLibxml2 true _
  | xchange => exact marcxmlTour_sound conversion beyond usingLibxml2 false _
  | iso2709 => exact iso2709Tour_sound conversion beyond nodes
  | check =>
    exact withIdentifierLength_sound conversion _ fun _ =>
      Tour.all_sound conversion (forall_mem_map.mpr fun n _ => checkNode_sound conversion beyond n)
  | json =>
    exact withIdentifierLength_sound conversion _ fun identifierLength =>
      Tour.all_sound conversion (forall_mem_map.mpr fun n _ => jsonNode_sound conversion beyond identifierLength n)

/-! ### Without a descriptor -/

theorem Tour.andThen_needs (keeps : first.Keeps) :
    (first.andThen second).Needs conversion ↔ first.Needs conversion ∧ second.Needs conversion := by
  rw [Tour.Needs, Tour.andThen_events, keeps]
  exact forall_mem_append

theorem Tour.andThen_keeps (firstKeeps : first.Keeps) (secondKeeps : second.Keeps) : (first.andThen second).Keeps := by
  show (second (first none).2).2 = none
  rw [firstKeeps]
  exact secondKeeps

theorem Tour.all_keeps (keeps : ∀ tour ∈ tours, tour.Keeps) : (Tour.all tours).Keeps := by
  induction tours with
  | nil => rfl
  | cons first _ ih => exact Tour.andThen_keeps (keeps first (by simp)) (ih fun tour among => keeps tour (by simp [among]))

theorem Tour.all_needs (keeps : ∀ tour ∈ tours, tour.Keeps) :
    (Tour.all tours).Needs conversion ↔ ∀ tour ∈ tours, tour.Needs conversion := by
  induction tours with
  | nil => simp [Tour.all, Tour.skip, Tour.Needs]
  | cons first _ ih =>
    rw [Tour.all, Tour.andThen_needs conversion (keeps first (by simp)), ih fun tour among => keeps tour (by simp [among])]
    exact forall_mem_cons.symm

structure Tour.Quiet (tour : Tour C) : Prop where
  keeps : tour.Keeps
  needs : tour.Needs conversion

theorem Tour.andThen_quiet (firstQuiet : first.Quiet conversion) (secondQuiet : second.Quiet conversion) :
    (first.andThen second).Quiet conversion :=
  ⟨Tour.andThen_keeps firstQuiet.keeps secondQuiet.keeps,
    (Tour.andThen_needs conversion firstQuiet.keeps).mpr ⟨firstQuiet.needs, secondQuiet.needs⟩⟩

theorem Tour.all_quiet (quiet : ∀ tour ∈ tours, tour.Quiet conversion) : (Tour.all tours).Quiet conversion :=
  ⟨Tour.all_keeps fun tour among => (quiet tour among).keeps,
    (Tour.all_needs conversion fun tour among => (quiet tour among).keeps).mpr fun tour among => (quiet tour among).needs⟩

theorem Tour.skip_quiet : (Tour.skip : Tour C).Quiet conversion := ⟨rfl, fun _ among => absurd among (by simp [Tour.skip])⟩

theorem convert_quiet (octets : List UInt8) : (convert conversion octets).Quiet conversion :=
  ⟨rfl, fun _ among => absurd among (by simp [convert])⟩

theorem reset_quiet : (reset conversion).Quiet conversion := ⟨rfl, fun _ among => absurd among (by simp [reset])⟩

theorem look_quiet (upTo : Nat) : (look string upTo : Tour C).Quiet conversion := by
  refine ⟨rfl, fun e among => ?_⟩
  rw [mem_singleton.mp among]
  trivial

theorem puts_quiet : (puts string : Tour C).Quiet conversion := look_quiet conversion string _

theorem iconvPuts_quiet : (iconvPuts conversion string).Quiet conversion :=
  Tour.andThen_quiet conversion (puts_quiet conversion string) (convert_quiet conversion _)

theorem iconvWriteAt_quiet (off len : Nat) : (iconvWriteAt conversion string off len).Quiet conversion :=
  Tour.andThen_quiet conversion (look_quiet conversion string _) (convert_quiet conversion _)

theorem iconvPutsAt_quiet (off : Nat) : (iconvPutsAt conversion string off).Quiet conversion :=
  Tour.andThen_quiet conversion (look_quiet conversion string _) (convert_quiet conversion _)

theorem lookTag_quiet (tag : List UInt8) : (lookTag beyond tag : Tour C).Quiet conversion := look_quiet conversion _ _

theorem Tour.quiet_ite {condition : Prop} [Decidable condition] (firstQuiet : first.Quiet conversion)
    (secondQuiet : second.Quiet conversion) : (if condition then first else second).Quiet conversion := by
  split
  · exact firstQuiet
  · exact secondQuiet

theorem appendAttributeValue_quiet (named : Bool) (data : Stored) (codeLen : Nat) :
    (appendAttributeValue conversion named data codeLen).Quiet conversion := by
  rw [appendAttributeValue]
  exact Tour.andThen_quiet conversion (look_quiet conversion data _)
    (Tour.quiet_ite conversion (iconvWriteAt_quiet conversion data 0 codeLen) (Tour.skip_quiet conversion))

theorem indicators_quiet (indicator : Stored) (quiet : ∀ off ilen, (each off ilen).Quiet conversion) :
    (indicators conversion indicator each).Quiet conversion := by
  have walk : ∀ rounds off, (indicatorsFrom conversion indicator each rounds off).Quiet conversion := by
    intro rounds
    induction rounds with
    | zero => exact fun _ => Tour.skip_quiet conversion
    | succ _ ih =>
      intro off
      rw [indicatorsFrom]
      refine Tour.andThen_quiet conversion (look_quiet conversion indicator _) ?_
      by_cases stops : indicator.memory.getD off 0 = 0
      · simp only [if_pos stops]
        exact Tour.skip_quiet conversion
      · simp only [if_neg stops]
        have rest := Tour.andThen_quiet conversion (quiet off (oneCharacter conversion none (indicator.memory.drop off)).1) 
          (ih (off + (oneCharacter conversion none (indicator.memory.drop off)).1))
        exact ⟨rest.keeps, forall_mem_cons.mpr ⟨trivial, rest.needs⟩⟩
  exact walk _ _

theorem withCode_needs (data : Stored) {next : Nat → Tour C} (quiet : ∀ len, (next len).Quiet conversion) :
    (withCode conversion identifierLength data next).Keeps ∧
      ((withCode conversion identifierLength data next).Needs conversion ↔ CodeFits conversion none identifierLength data) := by
  have none' : (subfieldLen conversion none data.memory identifierLength).2.2 = none := by
    rw [subfieldLen]
    split <;> rfl
  rw [Tour.Keeps, Tour.Needs, withCode]
  dsimp only
  rw [none', forall_mem_cons]
  exact ⟨(quiet _).keeps, and_iff_left (quiet _).needs⟩

def Node.CodesInside (identifierLength : Nat) : Node → Prop
  | .datafield _ _ subfields => ∀ s ∈ subfields,
      if 2 < identifierLength then identifierLength - 1 ≤ (cString s).length else cString s ≠ []
  | _ => True

theorem codeFits_none (octets : List UInt8) : CodeFits conversion none identifierLength (stored beyond octets) ↔
    if 2 < identifierLength then identifierLength - 1 ≤ (cString octets).length else cString octets ≠ [] := by
  rw [CodeFits.eq_def]
  by_cases long : 2 < identifierLength
  · simp only [if_pos long]
    exact Iff.rfl
  · simp only [if_neg long]
    exact length_pos_iff

theorem datafield_needs {before behind : List (Tour C)} (subfields : List (List UInt8)) {next : List UInt8 → Nat → Tour C}
    (beforeQuiet : ∀ tour ∈ before, tour.Quiet conversion) (behindQuiet : ∀ tour ∈ behind, tour.Quiet conversion)
    (quiet : ∀ s len, (next s len).Quiet conversion) (tag indicator : List UInt8) :
    (Tour.all (before ++ (subfields.map fun s => withCode conversion identifierLength (stored beyond s) (next s)) ++ behind)).Keeps ∧
      ((Tour.all (before ++ (subfields.map fun s => withCode conversion identifierLength (stored beyond s) (next s)) ++
        behind)).Needs conversion ↔
        (Node.datafield tag indicator subfields).CodesInside identifierLength) := by
  have keeps : ∀ tour ∈ before ++ (subfields.map fun s => withCode conversion identifierLength (stored beyond s) (next s)) ++
    behind, tour.Keeps := by
    simp only [forall_mem_append, forall_mem_map]
    exact ⟨⟨fun tour among => (beforeQuiet tour among).keeps, fun s _ => (withCode_needs conversion identifierLength _ (quiet s)).1⟩,
      fun tour among => (behindQuiet tour among).keeps⟩
  refine ⟨Tour.all_keeps keeps, ?_⟩
  rw [Tour.all_needs conversion keeps]
  simp only [forall_mem_append, forall_mem_map, Node.CodesInside]
  constructor
  · intro ⟨⟨_, codes⟩, _⟩ s among
    exact (codeFits_none conversion beyond identifierLength s).mp
      ((withCode_needs conversion identifierLength _ (quiet s)).2.mp (codes s among))
  · intro fits
    refine ⟨⟨fun tour among => (beforeQuiet tour among).needs, fun s among => ?_⟩, fun tour among => (behindQuiet tour among).needs⟩
    exact (withCode_needs conversion identifierLength _ (quiet s)).2.mpr
      ((codeFits_none conversion beyond identifierLength s).mpr (fits s among))

def NeedsCodes (identifierLength : Nat) (node : Node → Tour C) : Prop :=
  ∀ n, (node n).Keeps ∧ ((node n).Needs conversion ↔ n.CodesInside identifierLength)

theorem Tour.Quiet.codesFit {tour : Tour C} (quiet : tour.Quiet conversion) (identifierLength : Nat) {n : Node}
    (none' : n.CodesInside identifierLength) :
    tour.Keeps ∧ (tour.Needs conversion ↔ n.CodesInside identifierLength) :=
  ⟨quiet.keeps, iff_of_true quiet.needs none'⟩

theorem lineNode_needs : NeedsCodes conversion identifierLength (lineNode conversion beyond identifierLength) := by
  intro n
  cases n with
  | datafield tag indicator subfields =>
    rw [lineNode, ← append_nil (_ ++ _)]
    refine datafield_needs conversion beyond identifierLength subfields ?_ (by simp)
      (fun s len => Tour.all_quiet conversion ?_) tag indicator
    · simp [puts_quiet]
    · simp [iconvWriteAt_quiet, convert_quiet, iconvPutsAt_quiet, reset_quiet]
  | controlfield =>
    exact (Tour.all_quiet conversion (by simp [puts_quiet, convert_quiet, iconvPuts_quiet, reset_quiet])).codesFit conversion _ trivial
  | comment => exact (Tour.all_quiet conversion (by simp [iconvPuts_quiet, reset_quiet])).codesFit conversion _ trivial
  | leader => exact (puts_quiet conversion _).codesFit conversion _ trivial

theorem wrbufNode_needs (turbo : Bool) (identifierLength : Nat) :
    NeedsCodes conversion identifierLength (wrbufNode conversion beyond turbo identifierLength) := by
  have last (tag : List UInt8) : (if turbo then iconvPuts conversion (stored beyond tag) else Tour.skip).Quiet conversion :=
    Tour.quiet_ite conversion (iconvPuts_quiet conversion _) (Tour.skip_quiet conversion)
  intro n
  cases n with
  | datafield tag indicator subfields =>
    have each : (indicators conversion (stored beyond indicator) fun off ilen =>
        Tour.all [iconvWriteAt conversion (stored beyond indicator) off ilen, convert conversion [34]]).Quiet conversion :=
      indicators_quiet conversion _ fun off ilen => Tour.all_quiet conversion (by simp [iconvWriteAt_quiet, convert_quiet])
    refine datafield_needs conversion beyond identifierLength subfields ?_ ?_ (fun s len => Tour.all_quiet conversion ?_) tag indicator
    · simp [iconvPuts_quiet, each]
    · simp [last]
    · have code := Tour.andThen_quiet conversion (iconvWriteAt_quiet conversion (stored beyond s) 0 len) (convert_quiet conversion [34, 62])
      cases turbo <;> simp [appendAttributeValue_quiet, iconvPutsAt_quiet, reset_quiet, Tour.skip_quiet, code]
  | controlfield =>
    exact (Tour.all_quiet conversion (by simp [convert_quiet, iconvPuts_quiet, reset_quiet, last])).codesFit conversion _ trivial
  | comment => exact (puts_quiet conversion _).codesFit conversion _ trivial
  | leader => exact (puts_quiet conversion _).codesFit conversion _ trivial

theorem xmlNode_needs (turbo : Bool) (identifierLength : Nat) :
    NeedsCodes conversion identifierLength (xmlNode conversion beyond turbo identifierLength) := by
  have named (tag : List UInt8) : (if turbo then lookTag beyond tag else puts (stored beyond tag) : Tour C).Quiet conversion :=
    Tour.quiet_ite conversion (lookTag_quiet conversion beyond tag) (puts_quiet conversion _)
  intro n
  cases n with
  | datafield tag indicator subfields =>
    have each : (xmlIndicators conversion (stored beyond indicator)).Quiet conversion :=
      indicators_quiet conversion _ fun off ilen => Tour.quiet_ite conversion (look_quiet conversion _ _) (Tour.skip_quiet conversion)
    rw [xmlNode, ← append_nil (_ ++ _)]
    refine datafield_needs conversion beyond identifierLength subfields ?_ (by simp)
      (fun s len => Tour.all_quiet conversion ?_) tag indicator
    · simp [named, each]
    · have attribute' : (if turbo then appendAttributeValue conversion false (stored beyond s) len else Tour.skip).Quiet conversion :=
        Tour.quiet_ite conversion (appendAttributeValue_quiet conversion false (stored beyond s) len) (Tour.skip_quiet conversion)
      have code (plain : Bool) : (if plain then Tour.skip else iconvWriteAt conversion (stored beyond s) 0 len).Quiet conversion :=
        Tour.quiet_ite conversion (Tour.skip_quiet conversion) (iconvWriteAt_quiet conversion (stored beyond s) 0 len)
      simp only [forall_mem_cons]
      exact ⟨iconvPutsAt_quiet conversion _ len, reset_quiet conversion, attribute', code _, by simp⟩
  | controlfield =>
    exact (Tour.all_quiet conversion (by simp [named, iconvPuts_quiet, reset_quiet])).codesFit conversion _ trivial
  | comment => exact (puts_quiet conversion _).codesFit conversion _ trivial
  | leader => exact (puts_quiet conversion _).codesFit conversion _ trivial

theorem jsonNode_needs : NeedsCodes conversion identifierLength (jsonNode conversion beyond identifierLength) := by
  intro n
  cases n with
  | datafield tag indicator subfields =>
    refine datafield_needs conversion beyond identifierLength subfields ?_ ?_ (fun s len => Tour.all_quiet conversion ?_) tag indicator
    · simp [puts_quiet]
    · have each : (indicators conversion (stored beyond indicator) fun off ilen =>
        look (stored beyond indicator) (off + ilen)).Quiet conversion :=
        indicators_quiet conversion (stored beyond indicator) fun off ilen => look_quiet conversion _ _
      simp [each]
    · simp [iconvWriteAt_quiet, iconvPutsAt_quiet]
  | controlfield => exact (Tour.all_quiet conversion (by simp [iconvPuts_quiet])).codesFit conversion _ trivial
  | comment => exact (Tour.skip_quiet conversion).codesFit conversion _ trivial
  | leader => exact (Tour.skip_quiet conversion).codesFit conversion _ trivial

def CodesInside (leader : Option (List UInt8)) (nodes : List Node) : Prop :=
  match leaderDigit leader 11 with
  | some identifierLength => ∀ n ∈ nodes, n.CodesInside identifierLength
  | none => True

theorem withIdentifierLength_needs (leader : Option (List UInt8)) (nodes : List Node) {node : Nat → Node → Tour C}
    (needs : ∀ identifierLength, NeedsCodes conversion identifierLength (node identifierLength)) :
    (withIdentifierLength leader fun identifierLength => Tour.all (nodes.map (node identifierLength))).Needs conversion ↔
      CodesInside leader nodes := by
  rw [withIdentifierLength, CodesInside]
  cases leaderDigit leader 11 with
  | none => exact iff_of_true (Tour.skip_quiet conversion).needs trivial
  | some identifierLength =>
    rw [Tour.all_needs conversion (forall_mem_map.mpr fun n _ => (needs identifierLength n).1), forall_mem_map]
    exact forall₂_congr fun n _ => (needs identifierLength n).2

def Tour.Looks (tour : Tour C) : Prop := ∀ cd, ∀ e ∈ (tour cd).1, e.Fits conversion

theorem Tour.all_looks (looks : ∀ tour ∈ tours, tour.Looks conversion) : (Tour.all tours).Looks conversion := by
  induction tours with
  | nil => exact fun cd e among => absurd among (by simp [Tour.all, Tour.skip])
  | cons first _ ih =>
    intro cd
    rw [Tour.all, Tour.andThen_events]
    exact forall_mem_append.mpr ⟨looks first (by simp) cd, ih (fun tour among => looks tour (by simp [among])) _⟩

theorem iconvPuts_looks : (iconvPuts conversion string).Looks conversion := by
  intro cd e among
  rw [mem_singleton.mp (show e ∈ [Event.look string (string.length + 1)] from among)]
  trivial

theorem reset_looks : (reset conversion).Looks conversion := fun _ e among => absurd among (by simp [reset])

theorem Tour.skip_looks : (Tour.skip : Tour C).Looks conversion := fun _ e among => absurd among (by simp [Tour.skip])

theorem checkNode_looks (n : Node) : (checkNode conversion beyond n).Looks conversion := by
  cases n with
  | comment => exact iconvPuts_looks conversion _
  | _ => exact Tour.skip_looks conversion

theorem iso2709Tour_looks (nodes : List Node) : (iso2709Tour conversion beyond nodes).Looks conversion := by
  have second (n : Node) : (iso2709SecondNode conversion beyond n).Looks conversion :=
    Tour.all_looks conversion (forall_mem_map.mpr fun s _ => Tour.all_looks conversion (by simp [iconvPuts_looks, reset_looks]))
  intro cd
  rw [iso2709Tour]
  split
  next =>
    refine forall_mem_append.mpr ⟨fun e among => ?_, ?_⟩
    · exact e.fits_of_inside conversion (iso2709First_inside conversion beyond _ _ nodes 0 0 cd e among)
    · exact Tour.all_looks conversion (forall_mem_map.mpr fun n _ => second n) _
  next => exact fun e among => absurd among (by simp)

def OutputFormat.Fits (format : OutputFormat) (nodes : List Node) : Prop :=
  match format with
  | .line => CodesInside (firstLeader nodes) nodes
  | .marcxml => CodesInside (firstLeader (modifyLeader 9 [97] nodes)) (modifyLeader 9 [97] nodes)
  | .turbomarc => CodesInside (firstLeader (modifyLeader 9 [97] nodes)) (modifyLeader 9 [97] nodes)
  | .xchange => CodesInside (firstLeader nodes) nodes
  | .json => CodesInside (lastLeader nodes) nodes
  | .iso2709 => True
  | .check => True

theorem writeMode_needs (usingLibxml2 : Bool) (nodes : List Node) :
    (writeMode conversion beyond format usingLibxml2 nodes).Needs conversion ↔ format.Fits nodes := by
  have marcxml (turbo : Bool) (nodes : List Node) :
      (marcxmlTour conversion beyond usingLibxml2 turbo nodes).Needs conversion ↔ CodesInside (firstLeader nodes) nodes := by
    cases usingLibxml2 with
    | true => exact withIdentifierLength_needs conversion _ nodes fun identifierLength =>
        xmlNode_needs conversion beyond turbo identifierLength
    | false => exact withIdentifierLength_needs conversion _ nodes fun identifierLength =>
        wrbufNode_needs conversion beyond turbo identifierLength
  cases format with
  | line => exact withIdentifierLength_needs conversion _ nodes fun identifierLength => lineNode_needs conversion beyond identifierLength
  | marcxml => exact marcxml false _
  | turbomarc => exact marcxml true _
  | xchange => exact marcxml false nodes
  | json => exact withIdentifierLength_needs conversion _ nodes fun identifierLength => jsonNode_needs conversion beyond identifierLength
  | iso2709 => exact iff_of_true (iso2709Tour_looks conversion beyond nodes none) trivial
  | check =>
    refine iff_of_true ?_ trivial
    show (withIdentifierLength _ _).Needs conversion
    rw [withIdentifierLength]
    cases leaderDigit (firstLeader nodes) 11 with
    | none => exact (Tour.skip_quiet conversion).needs
    | some => exact Tour.all_looks conversion (forall_mem_map.mpr fun n _ => checkNode_looks conversion beyond n) none

theorem indicatorEndWith_none (mem : List UInt8) (indicatorLength i : Nat) :
    indicatorEndWith conversion.sizeofChar mem indicatorLength i none =
      ((indicatorEndWith sizeofPlain mem indicatorLength i ()).1, none) := by
  induction indicatorLength generalizing i with
  | zero => rfl
  | succ _ ih => exact ih _

theorem readFieldWith_none (mem : List UInt8) (indicatorLength : Nat) (tag : List UInt8) (i dataLength : Nat) :
    readFieldWith conversion.sizeofChar mem indicatorLength tag i dataLength none =
      (readField mem indicatorLength tag i dataLength, none) := by
  rw [readFieldWith, readField, readFieldWith]
  split
  · simp only [indicatorEndWith_none]
  · rfl

theorem readFieldsWith_none (mem : List UInt8) (recordLength : Nat) (lengths : Lengths) (endOfDirectory rounds entryP : Nat) :
    readFieldsWith conversion.sizeofChar mem recordLength lengths endOfDirectory rounds entryP none =
      (readFields mem recordLength lengths endOfDirectory rounds entryP, none) := by
  induction rounds generalizing entryP with
  | zero => rfl
  | succ _ ih =>
    rw [readFieldsWith, readFields, readFieldsWith]
    simp only [readFieldWith_none, ih]
    split_ifs <;> rfl

theorem readIso2709With_none (mem : List UInt8) (bsize : Int) :
    readIso2709With conversion.sizeofChar mem bsize none = ((readIso2709 mem bsize).1, (readIso2709 mem bsize).2, none) := by
  rw [readIso2709With, readIso2709, readIso2709With]
  cases atoiNCheck (mem.take 5) with
  | none => rfl
  | some recordLength =>
    dsimp only
    by_cases short : recordLength < 25
    · rw [if_pos short, if_pos short]
    · rw [if_neg short, if_neg short]
      by_cases larger : bsize ≠ -1 ∧ bsize < recordLength
      · rw [if_pos larger, if_pos larger]
      · rw [if_neg larger, if_neg larger]
        cases scanDirectory mem recordLength (setLeader mem).1.lengthDataEntry (setLeader mem).1.lengthStarting recordLength 24 with
        | mk found =>
          cases found with
          | none => rfl
          | some =>
            simp only [readFieldsWith_none]
            rfl

def StaysInside (format : OutputFormat) (usingLibxml2 : Bool) (nodes : List Node) (cd : Option C) : Prop :=
  ∀ e ∈ (writeMode conversion beyond format usingLibxml2 nodes cd).1, e.Inside conversion

def CallsFit (format : OutputFormat) (usingLibxml2 : Bool) (nodes : List Node) (cd : Option C) : Prop :=
  ∀ e ∈ (writeMode conversion beyond format usingLibxml2 nodes cd).1, e.Fits conversion

theorem staysInside_iff_callsFit (usingLibxml2 : Bool) (nodes : List Node) (cd : Option C) :
    StaysInside conversion beyond format usingLibxml2 nodes cd ↔ CallsFit conversion beyond format usingLibxml2 nodes cd :=
  ⟨fun inside e among => e.fits_of_inside conversion (inside e among), writeMode_sound conversion beyond format usingLibxml2 nodes cd⟩

theorem staysInside_none_iff (usingLibxml2 : Bool) (nodes : List Node) :
    StaysInside conversion beyond format usingLibxml2 nodes none ↔ format.Fits nodes :=
  (staysInside_iff_callsFit conversion beyond format usingLibxml2 nodes none).trans
    (writeMode_needs conversion beyond format usingLibxml2 nodes)

/-- A record that is read stays inside its strings when it is written if and only if each call of `get_subfield_len` and
`cdata_one_character` has the octets that it needs; without a descriptor, if and only if every subfield has the octets of a code. -/
theorem staysInside_iff (mem : List UInt8) (bsize : Int) (format : OutputFormat) (usingLibxml2 : Bool) :
    (∀ cd : Option C,
      (StaysInside conversion beyond format usingLibxml2 (readIso2709With conversion.sizeofChar mem bsize cd).2.1
        (readIso2709With conversion.sizeofChar mem bsize cd).2.2 ↔
        CallsFit conversion beyond format usingLibxml2 (readIso2709With conversion.sizeofChar mem bsize cd).2.1
          (readIso2709With conversion.sizeofChar mem bsize cd).2.2)) ∧
    (StaysInside conversion beyond format usingLibxml2 (readIso2709With conversion.sizeofChar mem bsize none).2.1
        (readIso2709With conversion.sizeofChar mem bsize none).2.2 ↔ format.Fits (readIso2709 mem bsize).2) := by
  constructor
  · intro cd
    exact staysInside_iff_callsFit conversion beyond format usingLibxml2 _ _
  · rw [readIso2709With_none]
    exact staysInside_none_iff conversion beyond format usingLibxml2 _

end

def plainConversion : Conversion Unit where
  converts := fun _ _ => (true, ())
  inspected := fun _ octets => octets.length
  write := fun _ octets => (octets, ())
  reset := fun _ => ([], ())
  given := fun _ _ => le_refl _

def shortRecord : List UInt8 := ascii "00044nam  2900037   4500245000600000" ++ [30] ++ ascii "1 " ++ [31] ++ ascii "ax" ++ [30, 29]

theorem shortRecord_read : readIso2709 shortRecord 44 =
    (44, [.leader (ascii "00044nam  2900037   4500"), .datafield (ascii "245") (ascii "1 ") [ascii "ax"]]) := by
  decide

/-- A code of eight octets is written from a string of two. -/
theorem shortRecord_outside : 0 ≤ (readIso2709 shortRecord 44).1 ∧
    ¬ StaysInside plainConversion (fun _ => []) .line false (readIso2709 shortRecord 44).2 none := by
  rw [shortRecord_read]
  refine ⟨by decide, fun inside => ?_⟩
  have fits := (staysInside_none_iff plainConversion (fun _ => []) .line false _).mp inside
  have codes := fits (.datafield (ascii "245") (ascii "1 ") [ascii "ax"]) (by simp) (ascii "ax") (by simp)
  exact absurd codes (by decide)

end Yaz.Marc
