import Yaz.Iconv.Marc8Encoder
import Yaz.Iconv.Marc8Pieces

/-! A reader of what the MARC-8 encoder writes is on the page that the encoder is on, and reads each
character with the table that it was looked up in.
-/

set_option autoImplicit false

variable {page : List UInt8} {x : Nat}

namespace Yaz.Iconv
open List

/-- A character that was read: the set that was active for it, its code, and if it is a combining one. -/
structure CharRead where
  mode : UInt8
  x : Nat
  comb : Bool
  deriving DecidableEq

def frontMode (data : CombData) (inp : List UInt8) : Option UInt8 :=
  match skipEscapes data inp with
  | (data', some (c :: _)) => some (if c < 128 then data'.g0Mode else data'.g1Mode)
  | _ => none

section
variable (tables : Tables)

/-- All octets are fed to `yaz_read_marc8_comb`, call after call. -/
def feed (data : CombData) (inp : List UInt8) : List CharRead × CombData :=
  if inp = [] then ([], data)
  else
    let read := yazReadMarc8Comb tables data inp
    if read.1.noRead = 0 then ([], read.1.data)
    else
      let later := feed read.1.data (inp.drop read.1.noRead)
      (((frontMode data inp).map fun mode => { mode := mode, x := read.1.x, comb := read.2 }).toList ++ later.1, later.2)
termination_by inp.length
decreasing_by
  rename_i some stuck
  have positive := List.length_pos_iff.mpr some
  have taken : (yazReadMarc8Comb tables data inp).1.noRead ≠ 0 := stuck
  rw [List.length_drop]
  omega

theorem feed_nil (data : CombData) : feed tables data [] = ([], data) := by rw [feed, if_pos rfl]

theorem feed_stuck {data : CombData} {inp : List UInt8} (some : inp ≠ []) (stuck : (yazReadMarc8Comb tables data inp).1.noRead = 0) :
    feed tables data inp = ([], (yazReadMarc8Comb tables data inp).1.data) := by
  rw [feed, if_neg some]
  exact if_pos stuck

theorem feed_step {data : CombData} {inp : List UInt8} (some : inp ≠ []) (taken : (yazReadMarc8Comb tables data inp).1.noRead ≠ 0) :
    feed tables data inp =
      (((frontMode data inp).map fun mode =>
          { mode := mode, x := (yazReadMarc8Comb tables data inp).1.x, comb := (yazReadMarc8Comb tables data inp).2 : CharRead }).toList ++
        (feed tables (yazReadMarc8Comb tables data inp).1.data (inp.drop (yazReadMarc8Comb tables data inp).1.noRead)).1,
        (feed tables (yazReadMarc8Comb tables data inp).1.data (inp.drop (yazReadMarc8Comb tables data inp).1.noRead)).2) := by
  rw [feed, if_neg some]
  exact if_neg taken

theorem feed_escape {data data' : CombData} {sequence : List UInt8} (some : sequence ≠ [])
    (same : ∀ more, skipEscapes data (sequence ++ more) = skipEscapes data' more) (more : List UInt8) :
    feed tables data (sequence ++ more) = feed tables data' more := by
  have front : frontMode data (sequence ++ more) = frontMode data' more := by rw [frontMode, frontMode, same]
  by_cases last : more = []
  · subst last
    have alone : skipEscapes data sequence = (data', Option.some []) := by
      have found := same []
      rwa [append_nil, skipEscapes_none] at found
    have read : yazReadMarc8Comb tables data sequence = ({ x := 0, noRead := sequence.length, data := data' }, false) := by
      rw [yazReadMarc8Comb, alone]
    have none : frontMode data sequence = Option.none := by rw [frontMode, alone]
    rw [append_nil, feed_nil, feed_step tables some (by rw [read]; simp [some]), read, none]
    rw [drop_length, feed_nil]
    rfl
  · have read := yazReadMarc8Comb_behind tables last (same more)
    have some' : sequence ++ more ≠ [] := by simp [some]
    by_cases stuck : (yazReadMarc8Comb tables data' more).1.noRead = 0
    · rw [feed_stuck tables last stuck, feed_stuck tables some' (by rw [read, Read.behind]; simp [stuck]), read]
      rfl
    · have noRead : ((yazReadMarc8Comb tables data' more).1.behind sequence.length).noRead =
          sequence.length + (yazReadMarc8Comb tables data' more).1.noRead := if_neg stuck
      rw [feed_step tables last stuck, feed_step tables some' (by rw [read, noRead]; omega), read, front, noRead, drop_append,
        drop_of_length_le (by omega), Nat.add_sub_cancel_left, nil_append]
      rfl

theorem feed_char {data : CombData} {c : UInt8} {tail more : List UInt8} {comb : Bool} (notEscape : c ≠ 27)
    (read : readChar tables data 0 c (tail ++ more) = ({ x := x, noRead := tail.length + 1, data := data }, comb)) :
    feed tables data (c :: tail ++ more) =
      ({ mode := if c < 128 then data.g0Mode else data.g1Mode, x := x, comb := comb } :: (feed tables data more).1,
        (feed tables data more).2) := by
  have front : skipEscapes data (c :: tail ++ more) = (data, some (c :: (tail ++ more))) := by
    rw [cons_append, skipEscapes_char notEscape]
  have first : yazReadMarc8Comb tables data (c :: tail ++ more) = ({ x := x, noRead := tail.length + 1, data := data }, comb) := by
    rw [yazReadMarc8Comb_char tables front, ← read]
    congr 1
    simp
  have mode : frontMode data (c :: tail ++ more) = some (if c < 128 then data.g0Mode else data.g1Mode) := by rw [frontMode, front]
  have behind : (c :: tail ++ more).drop (tail.length + 1) = more := by simp
  rw [feed_step tables (by simp) (by rw [first]; simp), first, mode, behind]
  rfl

end

section
variable (r : Marc8rConv) (conv : Marc8Conv)

/-- What the tables that are made of `codetables.xml` have in common: a character is one octet, but for East Asian
ones, those of ANSEL are in the upper half and all others in the lower half, and ESC stands for itself. -/
structure Framed : Prop where
  lookedUp : ∀ {x : Nat} {found : Found}, r.lookupMarc8 x = some found → ∃ c tail, marcOctets found.y = c :: tail ∧
    (c = 27 → x = 27) ∧ (c ≤ 32 → found.set.final = 66 ∧ tail = []) ∧ (128 ≤ c ↔ found.set.final = 69) ∧
    (found.comb = true → UInt8.ofNat found.y = c ∧ tail = []) ∧ found.y < 2 ^ 24 ∧
    ∀ table, conv.tables found.set.final = some table → ∀ more, (table.conv (c :: tail ++ more)).noRead = tail.length + 1
  single : ∀ inp, (conv.conv42.conv inp).noRead = 1 ∧ (conv.conv45.conv inp).noRead = 1

/-- Each table for the way back is the inverse of the one for the way there, and blanks and control characters stand for themselves. -/
structure Inverted : Prop where
  back : ∀ {x : Nat} {found : Found}, r.lookupMarc8 x = some found → ∀ table, conv.tables found.set.final = some table →
    ∀ more, (table.conv (marcOctets found.y ++ more)).x = x ∧ (table.conv (marcOctets found.y ++ more)).comb = found.comb
  own : ∀ {x : Nat} {found : Found} {c : UInt8} {tail : List UInt8}, r.lookupMarc8 x = some found →
    marcOctets found.y = c :: tail → c ≤ 32 →
    x = c.toNat ∧ found.comb = false

def Item.ReadAs (item : Item) (read : CharRead) : Prop :=
  match item with
  | .escape _ => False
  | .looked x final comb _ => conv.tables read.mode = conv.tables final ∧ (Inverted r conv → read.x = x ∧ read.comb = comb)
  | .plain c => conv.tables read.mode = conv.tables (if c < 128 then 66 else 69)

/-- A reader with `data` reads all items, each character as what it is, and is left with `data'`. -/
def Fed (items : List Item) (data data' : CombData) : Prop :=
  ∀ more, ∃ reads, List.Forall₂ (Item.ReadAs r conv) (items.filter Item.isChar) reads ∧
    feed conv.tables data (items.flatMap Item.octets ++ more) = (reads ++ (feed conv.tables data' more).1, (feed conv.tables data' more).2)

variable {r conv} {data data' data'' : CombData}

theorem Fed.nil : Fed r conv [] data data := fun _ => ⟨[], .nil, rfl⟩

theorem Fed.append {items later : List Item} (front : Fed r conv items data data') (behind : Fed r conv later data' data'') :
    Fed r conv (items ++ later) data data'' := by
  intro more
  obtain ⟨reads', same', fed'⟩ := behind more
  obtain ⟨reads, same, fed⟩ := front (later.flatMap Item.octets ++ more)
  refine ⟨reads ++ reads', ?_, ?_⟩
  · rw [filter_append]
    exact rel_append same same'
  · rw [flatMap_append, append_assoc, fed, fed', append_assoc]

theorem Fed.escape {sequence : List UInt8} (some : sequence ≠ [])
    (same : ∀ more, skipEscapes data (sequence ++ more) = skipEscapes data' more) : Fed r conv [.escape sequence] data data' := by
  intro more
  refine ⟨[], .nil, ?_⟩
  rw [flatMap_cons, flatMap_nil, append_nil, Item.octets, feed_escape conv.tables some same, nil_append]

theorem Fed.char {item : Item} {c : UInt8} {tail : List UInt8} (isChar : item.isChar = true) (octets : item.octets = c :: tail)
    (notEscape : c ≠ 27)
    (read : ∀ more, ∃ x comb, readChar conv.tables data 0 c (tail ++ more) = ({ x := x, noRead := tail.length + 1, data := data }, comb) ∧
      item.ReadAs r conv { mode := if c < 128 then data.g0Mode else data.g1Mode, x := x, comb := comb }) :
    Fed r conv [item] data data := by
  intro more
  obtain ⟨x, comb, readHere, readAs⟩ := read more
  refine ⟨[{ mode := if c < 128 then data.g0Mode else data.g1Mode, x := x, comb := comb }], ?_, ?_⟩
  · rw [filter_cons_of_pos isChar]
    exact .cons readAs .nil
  · rw [flatMap_cons, flatMap_nil, append_nil, octets, feed_char conv.tables notEscape readHere]
    rfl

def OnPage (mode : UInt8) (page : Option (List UInt8)) : Prop :=
  (page = some escAscii ∧ mode = 115) ∨ ∃ sequence, page = some sequence ∧ sequence.getLast? = some mode

theorem tables_ascii {mode : UInt8} (onPage : OnPage mode (some escAscii)) : conv.tables mode = some conv.conv42 := by
  rcases onPage with ⟨-, rfl⟩ | ⟨sequence, same, last⟩
  · rfl
  · rw [Option.some.injEq] at same
    subst same
    simp only [escAscii, getLast?_cons_cons, getLast?_singleton, Option.some.injEq] at last
    subst last
    rfl

theorem readChar_single (framed : Framed r conv) {c : UInt8} (more : List UInt8)
    (table : conv.tables (if c < 128 then data.g0Mode else data.g1Mode) = some conv.conv42 ∨
      conv.tables (if c < 128 then data.g0Mode else data.g1Mode) = some conv.conv45) :
    ∃ x comb, readChar conv.tables data 0 c more = ({ x := x, noRead := 1, data := data }, comb) := by
  rw [readChar]
  by_cases blank : c = 32
  · exact ⟨32, false, by rw [if_pos blank]⟩
  by_cases control : c < 32 ∧ data.controlMode = true
  · exact ⟨c.toNat, false, by rw [if_neg blank, if_pos control]⟩
  · rw [if_neg blank, if_neg control]
    rcases table with found | found
    · rw [found]
      dsimp only
      exact ⟨_, _, by rw [(framed.single _).1]⟩
    · rw [found]
      dsimp only
      exact ⟨_, _, by rw [(framed.single _).2]⟩

theorem fed_plain (framed : Framed r conv) {c : UInt8} (notEscape : c ≠ 27) (ascii : c < 128 → OnPage data.g0Mode (some escAscii))
    (ansel : data.g1Mode = 69) : Fed r conv [.plain c] data data := by
  have table : conv.tables (if c < 128 then data.g0Mode else data.g1Mode) = conv.tables (if c < 128 then 66 else 69) := by
    by_cases lower : c < 128
    · rw [if_pos lower, if_pos lower, tables_ascii (ascii lower)]
      rfl
    · rw [if_neg lower, if_neg lower, ansel]
  apply Fed.char rfl rfl notEscape
  intro more
  have single : conv.tables (if c < 128 then data.g0Mode else data.g1Mode) = some conv.conv42 ∨
      conv.tables (if c < 128 then data.g0Mode else data.g1Mode) = some conv.conv45 := by
    rw [table]
    by_cases lower : c < 128
    · rw [if_pos lower]
      exact .inl rfl
    · rw [if_neg lower]
      exact .inr rfl
  obtain ⟨x, comb, read⟩ := readChar_single framed more single
  exact ⟨x, comb, read, table⟩

theorem lookupMarc8_mem {found : Found} (looked : r.lookupMarc8 x = some found) : found.set ∈ r.sets ∧ found.y ≠ 0 := by
  obtain ⟨set, inside, here⟩ := exists_of_findSome?_eq_some looked
  dsimp only at here
  split at here
  next some =>
    rw [Option.some.injEq] at here
    subst here
    exact ⟨inside, some⟩
  · simp at here

theorem sets_page {set : CharSet} (inside : set ∈ r.sets) :
    (∃ table, conv.tables set.final = some table) ∧ (set.final ≠ 69 → set.page.getLast? = some set.final) := by
  simp only [Marc8rConv.sets, mem_cons, not_mem_nil, or_false] at inside
  rcases inside with rfl | rfl | rfl | rfl | rfl | rfl | rfl | rfl | rfl | rfl | rfl <;> refine ⟨⟨_, rfl⟩, ?_⟩ <;> intro notAnsel
  · rfl
  · exact absurd rfl notAnsel
  all_goals rfl

theorem tables_page {set : CharSet} (inside : set ∈ r.sets) (notAnsel : set.final ≠ 69) {mode : UInt8}
    (onPage : OnPage mode (some set.page)) :
    conv.tables mode = conv.tables set.final := by
  have last := (@sets_page r conv _ inside).2 notAnsel
  rcases onPage with ⟨ascii, rfl⟩ | ⟨sequence, same, final⟩
  · rw [Option.some.injEq] at ascii
    rw [ascii] at last
    have is : set.final = 66 := by simpa [escAscii] using last.symm
    rw [is]
    rfl
  · rw [Option.some.injEq] at same
    rw [← same, last, Option.some.injEq] at final
    rw [final]

theorem fed_looked (framed : Framed r conv) {found : Found} {octets : List UInt8} (looked : r.lookupMarc8 x = some found)
    (same : octets = marcOctets found.y) (notEscape : x ≠ 27) (page : OnPage data.g0Mode (some found.set.page)) (ansel : data.g1Mode = 69) :
    Fed r conv [.looked x found.set.final found.comb octets] data data := by
  subst same
  obtain ⟨c, tail, shape, escape, blank, upper, -, -, length⟩ := framed.lookedUp looked
  have inside := (lookupMarc8_mem looked).1
  obtain ⟨⟨table, isTable⟩, -⟩ := @sets_page r conv _ inside
  have mode : conv.tables (if c < 128 then data.g0Mode else data.g1Mode) = conv.tables found.set.final := by
    by_cases lower : c < 128
    · rw [if_pos lower]
      apply tables_page inside _ page
      intro final
      exact absurd lower (UInt8.not_lt.mpr (upper.mpr final))
    · rw [if_neg lower, ansel, upper.mp (UInt8.not_lt.mp lower)]
  have octets : (Item.looked x found.set.final found.comb (marcOctets found.y)).octets = c :: tail := shape
  apply Fed.char rfl octets (fun is => notEscape (escape is))
  intro more
  by_cases low : c ≤ 32
  · -- blanks and control characters are read as themselves, where they are not looked up
    obtain ⟨final, none⟩ := blank low
    subst none
    rw [readChar]
    by_cases space : c = 32
    · refine ⟨32, false, by rw [if_pos space]; rfl, mode, ?_⟩
      intro inverted
      obtain ⟨own, comb⟩ := inverted.own looked shape low
      rw [own, comb, space]
      exact ⟨rfl, rfl⟩
    by_cases control : c < 32 ∧ data.controlMode = true
    · refine ⟨c.toNat, false, by rw [if_neg space, if_pos control]; rfl, mode, ?_⟩
      intro inverted
      obtain ⟨own, comb⟩ := inverted.own looked shape low
      exact ⟨own.symm, comb.symm⟩
    · rw [if_neg space, if_neg control, mode, isTable]
      dsimp only
      refine ⟨_, _, by rw [Nat.zero_add, ← cons_append, length table isTable], mode, ?_⟩
      intro inverted
      have back := inverted.back looked table isTable more
      rwa [shape] at back
  · have notBlank : c ≠ 32 := fun is => low (UInt8.le_of_eq is)
    have notControl : ¬ (c < 32 ∧ data.controlMode = true) := fun both => low (UInt8.le_of_lt both.1)
    rw [readChar, if_neg notBlank, if_neg notControl, mode, isTable]
    dsimp only
    refine ⟨_, _, by rw [Nat.zero_add, ← cons_append, length table isTable], mode, ?_⟩
    intro inverted
    have back := inverted.back looked table isTable more
    rwa [shape] at back

def pages : List (List UInt8) :=
  [escAscii, escSubscript, escSuperscript, escHebrew, escCyrillic, escExtendedCyrillic, escArabic, escExtendedArabic,
    escGreek, escEastAsian]

theorem sets_pages {set : CharSet} (inside : set ∈ r.sets) : set.page ∈ pages := by
  simp only [Marc8rConv.sets, mem_cons, not_mem_nil, or_false] at inside
  rcases inside with rfl | rfl | rfl | rfl | rfl | rfl | rfl | rfl | rfl | rfl | rfl <;> simp [pages]

theorem pages_notG1 (inside : page ∈ pages) : page[1]? ≠ some 41 := by
  simp only [pages, mem_cons, not_mem_nil, or_false] at inside
  rcases inside with rfl | rfl | rfl | rfl | rfl | rfl | rfl | rfl | rfl | rfl <;> decide

theorem skipEscapes_page (inside : page ∈ pages) (data : CombData) :
    ∃ mode, page.getLast? = some mode ∧ ∀ more, skipEscapes data (page ++ more) = skipEscapes { data with g0Mode := mode } more := by
  have read {sequence : List UInt8} {mode : UInt8} (complete : ∀ more, escapeSequence (sequence ++ more) = some (false, mode, more))
      (more : List UInt8) : skipEscapes data (27 :: sequence ++ more) = skipEscapes { data with g0Mode := mode } more := by
    rw [cons_append, skipEscapes_escape (complete more)]
    rfl
  simp only [pages, mem_cons, not_mem_nil, or_false] at inside
  rcases inside with rfl | rfl | rfl | rfl | rfl | rfl | rfl | rfl | rfl | rfl <;> exact ⟨_, rfl, read fun _ => rfl⟩

theorem skipEscapes_leave (data : CombData) (more : List UInt8) :
    skipEscapes data (escLeave ++ more) = skipEscapes { data with g0Mode := 115 } more := by
  have complete : escapeSequence ([115] ++ more) = some (false, 115, more) := rfl
  exact skipEscapes_escape complete data

def askew (old : Option (List UInt8)) (page : List UInt8) : Bool :=
  (old = some escSuperscript || old = some escGreekSymbols || old = some escSubscript) && old ≠ some page && page ≠ escAscii

def Follows (r : Marc8rConv) (conv : Marc8Conv) (w : Marc8Encoder) (put : Put) : Prop :=
  ∀ data : CombData, OnPage data.g0Mode w.g0 → data.g1Mode = 69 →
    ∃ data', Fed r conv put.items data data' ∧ OnPage data'.g0Mode put.data.g0 ∧ data'.g1Mode = 69

variable {w : Marc8Encoder}

theorem Follows.nothing {put : Put} (none : put.items = []) (same : put.data.g0 = w.g0) : Follows r conv w put := by
  intro data onPage ansel
  rw [none, same]
  exact ⟨data, Fed.nil, onPage, ansel⟩

theorem Follows.andThen {put : Put} {outbytesleft : Nat} {next : Marc8Encoder → Nat → Put} (first : Follows r conv w put)
    (second : put.failed = false → Follows r conv put.data (next put.data (outbytesleft - put.out.length))) :
    Follows r conv w (put.andThen outbytesleft next) := by
  intro data onPage ansel
  rw [Put.andThen]
  split
  · exact first data onPage ansel
  next succeeded =>
    obtain ⟨data', fed, onPage', ansel'⟩ := first data onPage ansel
    obtain ⟨data'', fed', onPage'', ansel''⟩ := second (by simpa using succeeded) data' onPage' ansel'
    exact ⟨data'', fed.append fed', onPage'', ansel''⟩

theorem pageChr_data {page : List UInt8} (inside : page ∈ pages) (outbytesleft : Nat) :
    (yazWriteMarc8PageChr page w outbytesleft).data = { w with g0 := (yazWriteMarc8PageChr page w outbytesleft).data.g0 } ∧
      ((yazWriteMarc8PageChr page w outbytesleft).failed = false → (yazWriteMarc8PageChr page w outbytesleft).data.g0 = some page) := by
  rw [yazWriteMarc8PageChr]
  simp only [pages_notG1 inside, if_false]
  split
  next same => exact ⟨rfl, fun _ => same⟩
  · split
    · exact ⟨rfl, by simp [Marc8Encoder.refuse]⟩
    · split
      · split
        · exact ⟨rfl, fun _ => rfl⟩
        · exact ⟨rfl, fun _ => rfl⟩
      · exact ⟨rfl, fun _ => rfl⟩

theorem pageChr_follows {page : List UInt8} (inside : page ∈ pages) (straight : askew w.g0 page = false) (outbytesleft : Nat) :
    Follows r conv w (yazWriteMarc8PageChr page w outbytesleft) := by
  intro data onPage ansel
  rw [yazWriteMarc8PageChr]
  simp only [pages_notG1 inside, if_false]
  split
  · exact ⟨data, Fed.nil, onPage, ansel⟩
  next other =>
    split
    · exact ⟨data, Fed.nil, onPage, ansel⟩
    · split
      next technique1 =>
        -- the only way that leads out of there is the one to ASCII
        have ascii : page = escAscii := by
          by_contra notAscii
          rcases technique1 with is | is | is <;> simp [askew, is, notAscii] at straight <;> rw [is, straight] at other <;> exact other rfl
        rw [if_pos ascii]
        exact ⟨{ data with g0Mode := 115 }, Fed.escape (by decide) (skipEscapes_leave data), .inl ⟨by rw [ascii], rfl⟩, ansel⟩
      · obtain ⟨mode, last, read⟩ := skipEscapes_page inside data
        have some : page ≠ [] := by
          rintro rfl
          simp at last
        exact ⟨{ data with g0Mode := mode }, Fed.escape some read, .inr ⟨page, rfl, last⟩, ansel⟩

/-! ### Letters -/

theorem fed_plains (framed : Framed r conv) {octets : List UInt8} (plain : ∀ c ∈ octets, c < 128 ∧ c ≠ 27)
    (onPage : OnPage data.g0Mode (some escAscii)) (ansel : data.g1Mode = 69) : Fed r conv (octets.map .plain) data data := by
  induction octets with
  | nil => exact Fed.nil
  | cons c _ ih =>
    have first := fed_plain framed (plain c (by simp)).2 (fun _ => onPage) ansel
    exact first.append (ih fun c inside => plain c (by simp [inside]))

theorem lowerHexDigit_plain : ∀ n < 16, lowerHexDigit n < 128 ∧ lowerHexDigit n ≠ 27 := by decide

theorem ncrOctets_plain (y : Nat) : ∀ c ∈ ncrOctets y, c < 128 ∧ c ≠ 27 := by
  intro c inside
  have among := mem_of_mem_take inside
  simp only [mem_append] at among
  have digits {k : Nat} : lowerHexDigit (y / 16 ^ k % 16) < 128 ∧ lowerHexDigit (y / 16 ^ k % 16) ≠ 27 :=
    lowerHexDigit_plain _ (Nat.mod_lt _ (by decide))
  rcases among with (start | leading | trailing) | last
  · simp only [mem_cons, not_mem_nil, or_false] at start
    rcases start with rfl | rfl | rfl <;> decide
  · obtain ⟨k, -, rfl⟩ := mem_map.mp (mem_of_mem_take ((dropWhile_sublist _).mem leading))
    exact digits
  · obtain ⟨k, -, rfl⟩ := mem_map.mp (mem_of_mem_drop trailing)
    exact digits
  · rw [mem_singleton.mp last]
    decide

theorem marcOctets_plain {y : Nat} (small : y < 128) (notEscape : y ≠ 27) : ∀ c ∈ marcOctets y, c < 128 ∧ c ≠ 27 := by
  intro c inside
  have high : y / 65536 = 0 := Nat.div_eq_of_lt (by omega)
  have middle : y / 256 = 0 := Nat.div_eq_of_lt (by omega)
  simp only [marcOctets, high, middle, mem_filter, mem_cons, not_mem_nil, or_false] at inside
  obtain ⟨rfl | rfl | rfl, notZero⟩ := inside
  · simp at notZero
  · simp at notZero
  · constructor
    · rw [UInt8.lt_iff_toNat_lt]
      simp only [UInt8.toNat_ofNat', UInt8.reduceToNat]
      omega
    · intro is
      have same := congrArg UInt8.toNat is
      simp only [UInt8.toNat_ofNat', UInt8.reduceToNat] at same
      omega

inductive Marc8Encoder.Letter (r : Marc8rConv) (w : Marc8Encoder) (page : List UInt8) : Prop
  | number (ncr : w.ncr = true) (ascii : page = escAscii)
  | looked {x : Nat} {found : Found} (ncr : w.ncr = false) (origin : w.origin = some (x, found.set.final))
      (lookedUp : r.lookupMarc8 x = some found) (letter : found.comb = false) (last : w.last = found.y) (onPage : page = found.set.page)
      (notEscape : x ≠ 27)
  | plain (ncr : w.ncr = false) (origin : w.origin = none) (small : w.last < 128) (notEscape : w.last ≠ 27) (ascii : page = escAscii)

structure Marc8Encoder.Sound (r : Marc8rConv) (w : Marc8Encoder) : Prop where
  secondHalf : w.secondHalfChar = 0 ∨ 128 ≤ w.secondHalfChar
  letter : w.last ≠ 0 → ∃ page ∈ pages, w.lpage = some page ∧ w.Letter r page

theorem letter_fed (framed : Framed r conv) (letter : w.Letter r page) (onPage : OnPage data.g0Mode (some page))
    (ansel : data.g1Mode = 69) : Fed r conv w.letter data data := by
  rw [Marc8Encoder.letter]
  cases letter with
  | number ncr ascii =>
    rw [if_pos ncr]
    exact fed_plains framed (ncrOctets_plain _) (by rwa [ascii] at onPage) ansel
  | looked ncr origin lookedUp letter last page notEscape =>
    rw [ncr, origin]
    have fed := fed_looked framed lookedUp rfl notEscape (by rwa [page] at onPage) ansel
    rw [letter, ← last] at fed
    exact fed
  | plain ncr origin small notEscape ascii =>
    rw [ncr, origin]
    exact fed_plains framed (marcOctets_plain small notEscape) (by rwa [ascii] at onPage) ansel

theorem Marc8Encoder.Letter.other {w' : Marc8Encoder} (letter : w.Letter r page)
    (same : w'.last = w.last ∧ w'.ncr = w.ncr ∧ w'.origin = w.origin) : w'.Letter r page := by
  obtain ⟨sameLast, sameNcr, sameOrigin⟩ := same
  cases letter with
  | number ncr ascii => exact .number (sameNcr.trans ncr) ascii
  | looked ncr origin lookedUp letter last onPage notEscape =>
    exact .looked (sameNcr.trans ncr) (sameOrigin.trans origin) lookedUp letter (sameLast.trans last) onPage notEscape
  | plain ncr origin small notEscape ascii =>
    exact .plain (sameNcr.trans ncr) (sameOrigin.trans origin) (sameLast.symm ▸ small) (sameLast.symm ▸ notEscape) ascii

theorem Marc8Encoder.Sound.withG0 (sound : w.Sound r) (g0 : Option (List UInt8)) : { w with g0 := g0 }.Sound r := by
  refine ⟨sound.secondHalf, ?_⟩
  intro some
  obtain ⟨page, inside, lpage, letter⟩ := sound.letter some
  exact ⟨page, inside, lpage, letter.other ⟨rfl, rfl, rfl⟩⟩

theorem Marc8Encoder.Sound.withSecondHalf (sound : w.Sound r) {c : UInt8} (upper : 128 ≤ c) : { w with secondHalfChar := c }.Sound r := by
  refine ⟨.inr upper, ?_⟩
  intro some
  obtain ⟨page, inside, lpage, letter⟩ := sound.letter some
  exact ⟨page, inside, lpage, letter.other ⟨rfl, rfl, rfl⟩⟩

def Marc8Encoder.straight (w : Marc8Encoder) : Bool := w.last = 0 || w.lpage.all fun page => !askew w.g0 page

theorem putLetter_follows (framed : Framed r conv) {page : List UInt8} (secondHalf : w.secondHalfChar = 0 ∨ 128 ≤ w.secondHalfChar)
    (letter : w.Letter r page) (onPage : w.g0 = some page) (outbytesleft : Nat) : Follows r conv w (putLetter w outbytesleft) := by
  rw [putLetter]
  split
  · exact Follows.nothing rfl rfl
  · intro data active ansel
    rw [onPage] at active
    refine ⟨data, Fed.append (letter_fed framed letter active ansel) ?_, by rwa [← onPage] at active, ansel⟩
    split
    · exact Fed.nil
    next some =>
      have upper := secondHalf.resolve_left some
      apply fed_plain framed _ _ ansel
      · rintro is
        rw [is] at upper
        exact absurd upper (by decide)
      · intro lower
        exact absurd lower (UInt8.not_lt.mpr upper)

theorem putLetter_sound (sound : w.Sound r) (outbytesleft : Nat) : (putLetter w outbytesleft).data.Sound r := by
  rw [putLetter]
  split
  · exact sound
  · exact ⟨.inl rfl, by simp⟩

theorem flushCombos_follows (framed : Framed r conv) (sound : w.Sound r) (straight : w.straight = true) (outbytesleft : Nat) :
    Follows r conv w (flushCombos w outbytesleft) ∧ (flushCombos w outbytesleft).data.Sound r := by
  rw [flushCombos]
  split
  · exact ⟨Follows.nothing rfl rfl, sound⟩
  next some =>
    obtain ⟨page, inside, lpage, letter⟩ := sound.letter some
    have way : askew w.g0 page = false := by simpa [Marc8Encoder.straight, some, lpage] using straight
    rw [lpage]
    dsimp only
    have entered := @pageChr_follows r conv w page inside way outbytesleft
    obtain ⟨same, arrived⟩ := @pageChr_data w page inside outbytesleft
    have later : (yazWriteMarc8PageChr page w outbytesleft).data.Sound r := by
      rw [same]
      exact sound.withG0 _
    constructor
    · apply entered.andThen
      intro succeeded
      have here := arrived succeeded
      rw [same]
      rw [here]
      exact @putLetter_follows r conv { w with g0 := Option.some page } framed page sound.secondHalf (letter.other ⟨rfl, rfl, rfl⟩) rfl _
    · rw [Put.andThen]
      split
      · exact later
      · exact putLetter_sound later _

theorem keepLetter_follows (framed : Framed r conv) {y : Nat} {ncr : Bool} {origin : Option (Nat × UInt8)}
    (sound : w.Sound r) (straight : w.straight = true) (inside : page ∈ pages)
    (letter : ∀ w : Marc8Encoder, { w with last := y, lpage := some page, ncr := ncr, origin := origin }.Letter r page)
      (outbytesleft : Nat) :
    Follows r conv w (keepLetter y page ncr origin w outbytesleft) ∧ (keepLetter y page ncr origin w outbytesleft).data.Sound r := by
  obtain ⟨follows, later⟩ := flushCombos_follows framed sound straight outbytesleft
  rw [keepLetter]
  constructor
  · exact follows.andThen fun _ => Follows.nothing rfl rfl
  · rw [Put.andThen]
    split
    · exact later
    · exact ⟨later.secondHalf, fun _ => ⟨page, inside, rfl, letter _⟩⟩

theorem putMark_follows (framed : Framed r conv) {found : Found} (looked : r.lookupMarc8 x = some found) (comb : found.comb = true)
    (notEscape : x ≠ 27) (sound : w.Sound r) (onPage : w.g0 = some found.set.page) (outbytesleft : Nat) :
    Follows r conv w (putMark x found w outbytesleft) ∧ (putMark x found w outbytesleft).data.Sound r := by
  rw [putMark]
  generalize half : (if x = 0x361 then { w with secondHalfChar := 0xec }
    else if x = 0x360 then { w with secondHalfChar := 0xfb } else w) = w'
  have later : w'.Sound r ∧ w'.g0 = w.g0 := by
    rw [← half]
    split
    · exact ⟨sound.withSecondHalf (by decide), rfl⟩
    · split
      · exact ⟨sound.withSecondHalf (by decide), rfl⟩
      · exact ⟨sound, rfl⟩
  split
  · exact ⟨Follows.nothing rfl later.2, later.1⟩
  · refine ⟨?_, later.1⟩
    intro data active ansel
    rw [onPage] at active
    obtain ⟨c, tail, shape, -, -, -, single, -⟩ := framed.lookedUp looked
    obtain ⟨octet, none⟩ := single comb
    have octets : [UInt8.ofNat found.y] = marcOctets found.y := by rw [shape, octet, none]
    have fed := fed_looked framed looked octets notEscape active ansel
    rw [comb] at fed
    refine ⟨data, fed, ?_, ansel⟩
    rwa [later.2, onPage]

def Marc8Encoder.clean (r : Marc8rConv) (w : Marc8Encoder) (x : Nat) : Bool :=
  x ≠ 27 &&
    match r.lookupMarc8 x with
    | some found => if found.comb then !askew w.g0 found.set.page else w.straight
    | none => w.straight

variable {lossMode : LossMode}

theorem yazWriteMarc82_follows (framed : Framed r conv) (sound : w.Sound r) {x : Nat} (clean : w.clean r x = true) (outbytesleft : Nat) :
    Follows r conv w (yazWriteMarc82 r lossMode w x outbytesleft) ∧ (yazWriteMarc82 r lossMode w x outbytesleft).data.Sound r := by
  simp only [Marc8Encoder.clean, Bool.and_eq_true, decide_eq_true_eq] at clean
  obtain ⟨notEscape, way⟩ := clean
  rw [yazWriteMarc82]
  cases looked : r.lookupMarc8 x with
  | some found =>
    have inside := sets_pages (lookupMarc8_mem looked).1
    rw [looked] at way
    dsimp only at way ⊢
    cases comb : found.comb with
    | true =>
      rw [comb, if_pos rfl] at way
      rw [if_pos rfl]
      have straight : askew w.g0 found.set.page = false := by simpa using way
      have entered := @pageChr_follows r conv w _ inside straight outbytesleft
      obtain ⟨same, arrived⟩ := @pageChr_data w _ inside outbytesleft
      have later : (yazWriteMarc8PageChr found.set.page w outbytesleft).data.Sound r := by
        rw [same]
        exact sound.withG0 _
      constructor
      · apply entered.andThen
        intro succeeded
        exact (putMark_follows framed looked comb notEscape later (arrived succeeded) _).1
      · rw [Put.andThen]
        split
        · exact later
        next succeeded => exact (putMark_follows framed looked comb notEscape later (arrived (by simpa using succeeded)) _).2
    | false =>
      rw [comb, if_neg (by simp)] at way
      rw [if_neg (by simp)]
      exact keepLetter_follows framed sound way inside (fun _ => .looked rfl rfl looked comb rfl rfl notEscape) outbytesleft
  | none =>
    rw [looked] at way
    dsimp only
    have ascii : escAscii ∈ pages := by decide
    cases lossMode with
    | normal => exact ⟨Follows.nothing rfl rfl, sound⟩
    | lossy => exact keepLetter_follows framed sound way ascii (fun _ => .plain rfl rfl (by simp) (by simp) rfl) outbytesleft
    | lossless => exact keepLetter_follows framed sound way ascii (fun _ => .number rfl rfl) outbytesleft
    | control =>
      rw [LossMode.standIn]
      split
      next none => exact ⟨Follows.nothing rfl rfl, sound⟩
      next y ncr given =>
        split at given
        next small =>
          obtain ⟨rfl, rfl⟩ := given
          exact keepLetter_follows framed sound way ascii
            (fun _ => .plain rfl rfl (by dsimp only; omega) (by dsimp only; omega) rfl) outbytesleft
        · simp at given

/-- The letter that was kept back is on another page, or the two codes of a letter with a mark are not a letter and a mark:
then more is taken back of the output than of the state. -/
def Marc8Encoder.spoils (r : Marc8rConv) (w : Marc8Encoder) (x1 x2 : Nat) : Bool :=
  (w.last ≠ 0 && w.lpage ≠ w.g0) || (r.lookupMarc8 x1).any Found.comb || !(r.lookupMarc8 x2).any Found.comb

def Marc8Encoder.cleanly (r : Marc8rConv) (lossMode : LossMode) (w : Marc8Encoder) (x outbytesleft : Nat) : Bool :=
  match yazIso88591LookupY x with
  | none => w.clean r x
  | some (x1, x2) =>
    let first := yazWriteMarc82 r lossMode w x1 outbytesleft
    let second := yazWriteMarc82 r lossMode first.data x2 (outbytesleft - first.out.length)
    w.clean r x1 && (first.failed || (first.data.clean r x2 &&
      !(second.failed && second.errno = some .e2big && w.spoils r x1 x2)))

theorem pageChr_same (inside : page ∈ pages) (here : w.g0 = some page) (outbytesleft : Nat) :
    yazWriteMarc8PageChr page w outbytesleft = { items := [], data := w } := by
  rw [yazWriteMarc8PageChr]
  simp only [pages_notG1 inside, if_false]
  rw [if_pos here]

theorem pageChr_length {page : List UInt8} (inside : page ∈ pages) (outbytesleft : Nat) :
    (yazWriteMarc8PageChr page w outbytesleft).out.length ≤ 5 ∧
      ((yazWriteMarc8PageChr page w outbytesleft).failed = false → (yazWriteMarc8PageChr page w outbytesleft).data.g0 ≠
        w.g0 → 8 ≤ outbytesleft) ∧
      ((yazWriteMarc8PageChr page w outbytesleft).failed = true → (yazWriteMarc8PageChr page w outbytesleft).data = w) := by
  have length : page.length ≤ 3 := by
    simp only [pages, mem_cons, not_mem_nil, or_false] at inside
    rcases inside with rfl | rfl | rfl | rfl | rfl | rfl | rfl | rfl | rfl | rfl <;> decide
  rw [yazWriteMarc8PageChr]
  simp only [pages_notG1 inside, if_false]
  split
  · simp [Put.out]
  · split
    · simp [Put.out, Marc8Encoder.refuse]
    · have room : 8 ≤ outbytesleft := by omega
      split
      · split
        · simp [Put.out, Item.octets, escLeave, room]
        · simp [Put.out, Item.octets, escLeave, escAscii, room]
      · simp only [Put.out, flatMap_cons, flatMap_nil, append_nil, Item.octets]
        exact ⟨by omega, fun _ _ => room, by simp⟩

theorem refusedMark_g0 {found : Found} (looked : r.lookupMarc8 x = some found) (comb : found.comb = true) {outbytesleft : Nat}
    (refused : (yazWriteMarc82 r lossMode w x outbytesleft).failed = true) :
    (yazWriteMarc82 r lossMode w x outbytesleft).data.g0 = w.g0 := by
  have inside := sets_pages (lookupMarc8_mem looked).1
  obtain ⟨length, room, kept⟩ := @pageChr_length w _ inside outbytesleft
  rw [yazWriteMarc82, looked] at refused ⊢
  dsimp only at refused ⊢
  rw [comb, if_pos rfl, Put.andThen] at refused ⊢
  split
  next failed => rw [kept failed]
  next succeeded =>
    rw [if_neg succeeded] at refused
    by_contra other
    have g0 (w : Marc8Encoder) (outbytesleft : Nat) : (putMark x found w outbytesleft).data.g0 = w.g0 := by
      rw [putMark]
      split <;> dsimp only [Marc8Encoder.refuse] <;> split <;> try rfl
      all_goals split <;> rfl
    rw [g0] at other
    have enough := room (by simpa using succeeded) other
    rw [putMark, if_neg (by omega)] at refused
    simp at refused

theorem keptLetter_g0 {x : Nat} (sound : w.Sound r) (letter : (r.lookupMarc8 x).any Found.comb = false) (here : w.last ≠ 0 → w.lpage = w.g0)
    (outbytesleft : Nat) : (yazWriteMarc82 r lossMode w x outbytesleft).data.g0 = w.g0 := by
  have flushed : (flushCombos w outbytesleft).data.g0 = w.g0 := by
    rw [flushCombos]
    split
    · rfl
    next some =>
      obtain ⟨page, inside, lpage, -⟩ := sound.letter some
      have g0 : w.g0 = Option.some page := (here some).symm.trans lpage
      rw [lpage]
      dsimp only
      rw [pageChr_same inside g0, Put.andThen, if_neg (by simp), putLetter]
      split <;> rfl
  have kept (y : Nat) (page : List UInt8) (ncr : Bool) (origin : Option (Nat × UInt8)) :
      (keepLetter y page ncr origin w outbytesleft).data.g0 = w.g0 := by
    rw [keepLetter, Put.andThen]
    split <;> exact flushed
  rw [yazWriteMarc82]
  cases looked : r.lookupMarc8 x with
  | some =>
    dsimp only
    rw [looked] at letter
    rw [if_neg (by simpa using letter), kept]
  | none =>
    dsimp only
    split
    · rfl
    · exact kept _ _ _ _

theorem takenBack_sound {w' : Marc8Encoder} (framed : Framed r conv) (sound : w.Sound r) (later : w'.Sound r) :
    { w' with last := keptInt w.last, ncr := w.ncr, lpage := w.lpage, origin := w.origin }.Sound r := by
  refine ⟨later.secondHalf, ?_⟩
  intro some
  have before : w.last ≠ 0 := by
    intro zero
    rw [zero] at some
    exact some rfl
  obtain ⟨page, inside, lpage, letter⟩ := sound.letter before
  refine ⟨page, inside, lpage, ?_⟩
  have small (bound : w.last < 2 ^ 24) : keptInt w.last = w.last := by
    have whole : w.last % 2 ^ 32 = w.last := Nat.mod_eq_of_lt (by omega)
    rw [keptInt, whole, if_pos (by omega)]
  cases letter with
  | number ncr ascii => exact .number ncr ascii
  | looked ncr origin lookedUp letter last onPage notEscape =>
    obtain ⟨-, -, -, -, -, -, -, bound, -⟩ := framed.lookedUp lookedUp
    rw [← last] at bound
    exact .looked ncr origin lookedUp letter ((small bound).trans last) onPage notEscape
  | plain ncr origin low notEscape ascii =>
    have same := small (by omega)
    exact .plain ncr origin (by rw [same]; exact low) (by rw [same]; exact notEscape) ascii

theorem yazWriteMarc8Generic_follows (framed : Framed r conv) (sound : w.Sound r) {outbytesleft : Nat}
    (cleanly : w.cleanly r lossMode x outbytesleft = true) :
    Follows r conv w (yazWriteMarc8Generic r lossMode w x outbytesleft) ∧
      (yazWriteMarc8Generic r lossMode w x outbytesleft).data.Sound r := by
  rw [Marc8Encoder.cleanly] at cleanly
  rw [yazWriteMarc8Generic]
  rcases decomposed : yazIso88591LookupY x with _ | ⟨x1, x2⟩
  · rw [decomposed] at cleanly
    exact yazWriteMarc82_follows framed sound cleanly outbytesleft
  · rw [decomposed] at cleanly
    simp only [Bool.and_eq_true, Bool.or_eq_true, Bool.not_eq_true'] at cleanly
    obtain ⟨follows, soundFirst⟩ := @yazWriteMarc82_follows r conv w lossMode framed sound x1 cleanly.1 outbytesleft
    dsimp only
    split
    · exact ⟨follows, soundFirst⟩
    next succeeded =>
      obtain ⟨clean, kept⟩ := cleanly.2.resolve_left succeeded
      obtain ⟨followsThen, soundThen⟩ := @yazWriteMarc82_follows r conv _ lossMode framed soundFirst x2 clean
        (outbytesleft - (yazWriteMarc82 r lossMode w x1 outbytesleft).out.length)
      split
      next refused =>
        refine ⟨?_, takenBack_sound framed sound soundThen⟩
        have notSpoilt : w.spoils r x1 x2 = false := by simpa [refused] using kept
        simp only [Marc8Encoder.spoils, Bool.or_eq_false_iff, Bool.not_eq_false', Bool.and_eq_false_iff, decide_eq_false_iff_not, not_not]
          at notSpoilt
        obtain ⟨⟨here, letter⟩, mark⟩ := notSpoilt
        rw [Option.any_eq_true] at mark
        obtain ⟨found, looked, comb⟩ := mark
        apply Follows.nothing rfl
        have second := refusedMark_g0 looked comb refused.1
        have first := @keptLetter_g0 r w lossMode x1 sound letter (fun some => here.resolve_left some) outbytesleft
        exact second.trans first
      · refine ⟨?_, soundThen⟩
        intro data onPage ansel
        obtain ⟨data', fed, onPage', ansel'⟩ := follows data onPage ansel
        obtain ⟨data'', fed', onPage'', ansel''⟩ := followsThen data' onPage' ansel'
        exact ⟨data'', fed.append fed', onPage'', ansel''⟩

theorem flushMarc8_follows (framed : Framed r conv) (sound : w.Sound r) (straight : w.straight = true) (outbytesleft : Nat) :
    Follows r conv w (flushMarc8 w outbytesleft) ∧ (flushMarc8 w outbytesleft).data.Sound r := by
  obtain ⟨follows, later⟩ := flushCombos_follows framed sound straight outbytesleft
  have ascii : escAscii ∈ pages := by decide
  have toAscii (old : Option (List UInt8)) : askew old escAscii = false := by simp [askew]
  have cleared : { (flushCombos w outbytesleft).data with g1 := none }.Sound r := by
    refine ⟨later.secondHalf, ?_⟩
    intro some
    obtain ⟨page, inside, lpage, letter⟩ := later.letter some
    exact ⟨page, inside, lpage, letter.other ⟨rfl, rfl, rfl⟩⟩
  rw [flushMarc8]
  constructor
  · apply follows.andThen
    intro _ data onPage ansel
    exact pageChr_follows ascii (toAscii _) _ data onPage ansel
  · rw [Put.andThen]
    split
    · exact later
    · obtain ⟨same, -⟩ := @pageChr_data { (flushCombos w outbytesleft).data with g1 := none } escAscii ascii
        (outbytesleft - (flushCombos w outbytesleft).out.length)
      rw [same]
      exact cleared.withG0 _

end

/-! ### Runs -/

/-- What a caller may request of the encoder; each request comes with the room that is left. -/
inductive Marc8Request where
  | write (x outbytesleft : Nat)
  | flush (outbytesleft : Nat)
  deriving DecidableEq

section
variable (r : Marc8rConv) (lossMode : LossMode)

def Marc8Encoder.answer (w : Marc8Encoder) : Marc8Request → Put
  | .write x outbytesleft => yazWriteMarc8Generic r lossMode w x outbytesleft
  | .flush outbytesleft => flushMarc8 w outbytesleft

def Marc8Encoder.run (w : Marc8Encoder) : List Marc8Request → List Item × Marc8Encoder
  | [] => ([], w)
  | request :: later =>
    let put := w.answer r lossMode request
    let ran := put.data.run later
    (put.items ++ ran.1, ran.2)

def Marc8Encoder.accepts (w : Marc8Encoder) : Marc8Request → Bool
  | .write x outbytesleft => w.cleanly r lossMode x outbytesleft
  | .flush _ => w.straight

def Marc8Encoder.acceptsAll (w : Marc8Encoder) : List Marc8Request → Bool
  | [] => true
  | request :: later => w.accepts r lossMode request && (w.answer r lossMode request).data.acceptsAll later

variable {r lossMode} {conv : Marc8Conv}

theorem answer_follows (framed : Framed r conv) {w : Marc8Encoder} (sound : w.Sound r) {request : Marc8Request}
    (accepted : w.accepts r lossMode request = true) :
    Follows r conv w (w.answer r lossMode request) ∧ (w.answer r lossMode request).data.Sound r := by
  cases request with
  | write => exact yazWriteMarc8Generic_follows framed sound accepted
  | flush outbytesleft => exact flushMarc8_follows framed sound accepted outbytesleft

theorem run_follows (framed : Framed r conv) {requests : List Marc8Request} {w : Marc8Encoder} (sound : w.Sound r)
    (accepted : w.acceptsAll r lossMode requests = true) {data : CombData} (onPage : OnPage data.g0Mode w.g0) (ansel : data.g1Mode = 69) :
    ∃ data', Fed r conv (w.run r lossMode requests).1 data data' ∧ OnPage data'.g0Mode (w.run r lossMode requests).2.g0 := by
  induction requests generalizing w data with
  | nil => exact ⟨data, Fed.nil, onPage⟩
  | cons _ _ ih =>
    rw [Marc8Encoder.acceptsAll, Bool.and_eq_true] at accepted
    obtain ⟨follows, soundThen⟩ := answer_follows framed sound accepted.1
    obtain ⟨data', fed, onPage', ansel'⟩ := follows data onPage ansel
    obtain ⟨data'', fed', onPage''⟩ := ih soundThen accepted.2 onPage' ansel'
    exact ⟨data'', fed.append fed', onPage''⟩

/-- The decoder behind `init_marc8` or `init_marc8c`. -/
def startMarc8 (controlMode : Bool) : CombData := { g0Mode := 66, g1Mode := 69, combOffset := 0, comb := [], controlMode := controlMode }

/-- Whatever is written, a reader of it is on the page that the encoder has noted, and has read each
character with the table that it was looked up in. -/
theorem feed_run (framed : Framed r conv) (controlMode : Bool) {requests : List Marc8Request}
    (accepted : initMarc8Encoder.acceptsAll r lossMode requests = true) :
    let ran := initMarc8Encoder.run r lossMode requests
    let fed := feed conv.tables (startMarc8 controlMode) (ran.1.flatMap Item.octets)
    OnPage fed.2.g0Mode ran.2.g0 ∧ List.Forall₂ (Item.ReadAs r conv) (ran.1.filter Item.isChar) fed.1 := by
  have sound : initMarc8Encoder.Sound r := ⟨.inl rfl, by simp [initMarc8Encoder]⟩
  have onPage : OnPage (startMarc8 controlMode).g0Mode initMarc8Encoder.g0 := .inr ⟨escAscii, rfl, rfl⟩
  obtain ⟨data', fed, onPage'⟩ := run_follows framed sound accepted onPage rfl
  obtain ⟨reads, readAs, same⟩ := fed []
  rw [append_nil, feed_nil, append_nil] at same
  dsimp only
  rw [same]
  exact ⟨onPage', readAs⟩

end

def oneBack (utf8 : List UInt8) (y : Nat) (comb : Bool) (inp : List UInt8) : Conv :=
  if inp = utf8 then { x := y, noRead := utf8.length, comb := comb } else { x := 0, noRead := 0, comb := false }

def sampleMarc8r : Marc8rConv :=
  let none := oneBack [] 0 false
  { conv42 := oneBack [0x61] 0x61 false, conv45 := oneBack [0xcc, 0x80] 0xe1 true, conv62 := oneBack [0xe2, 0x82, 0x82] 0x32 false
    conv70 := oneBack [0xc2, 0xb2] 0x32 false, conv32 := none, conv4E := none, conv51 := none, conv33 := none, conv34 := none
    conv53 := none, conv31 := none }

def sampleScripts : Marc8Conv :=
  { sampleMarc8 with
    conv62 := octetTable (fun c => if c = 0x32 then 0x2082 else 0) false
    conv70 := octetTable (fun c => if c = 0x32 then 0xb2 else 0) false }

theorem oneBack_some {utf8 inp : List UInt8} {y : Nat} {comb : Bool} (some : (oneBack utf8 y comb inp).x ≠ 0) :
    y ≠ 0 ∧ oneBack utf8 y comb inp = { x := y, noRead := utf8.length, comb := comb } := by
  rw [oneBack] at some ⊢
  split at some
  next same =>
    rw [if_pos same]
    exact ⟨some, rfl⟩
  · exact absurd rfl some

theorem lookup_sample {found : Found} (looked : sampleMarc8r.lookupMarc8 x = some found) :
    (found.y = 0x61 ∧ found.comb = false ∧ found.set.final = 66) ∨ (found.y = 0xe1 ∧ found.comb = true ∧ found.set.final = 69) ∨
      (found.y = 0x32 ∧ found.comb = false ∧ (found.set.final = 98 ∨ found.set.final = 112)) := by
  obtain ⟨set, inside, here⟩ := exists_of_findSome?_eq_some looked
  simp only [Marc8rConv.sets, sampleMarc8r, mem_cons, not_mem_nil, or_false] at inside
  rcases inside with rfl | rfl | rfl | rfl | rfl | rfl | rfl | rfl | rfl | rfl | rfl <;> dsimp only at here <;> split at here <;>
    first | (simp at here; done) | skip
  all_goals
    next some =>
      obtain ⟨notZero, same⟩ := oneBack_some some
      rw [same, Option.some.injEq] at here
      subst here
      first | exact absurd rfl notZero | simp

theorem framed_sample : Framed sampleMarc8r sampleScripts := by
  refine ⟨?_, fun _ => ⟨rfl, rfl⟩⟩
  intro x found looked
  have length : ∀ final ∈ [66, 69, 98, 112], ∀ table, sampleScripts.tables final = some table → ∀ inp, (table.conv inp).noRead = 1 := by
    intro final inside table is inp
    simp only [mem_cons, not_mem_nil, or_false] at inside
    rcases inside with rfl | rfl | rfl | rfl <;> simp only [Marc8Conv.tables, Option.some.injEq] at is <;> rw [← is] <;> rfl
  rcases lookup_sample looked with ⟨y, comb, final⟩ | ⟨y, comb, final⟩ | ⟨y, comb, final | final⟩
  · rw [y, comb, final]
    exact ⟨0x61, [], by decide, (absurd · (by decide)), by decide, by decide, by simp, by decide,
      fun table is more => length 66 (by simp) table is _⟩
  · rw [y, comb, final]
    exact ⟨0xe1, [], by decide, (absurd · (by decide)), by decide, by decide, fun _ => ⟨rfl, rfl⟩, by decide,
      fun table is more => length 69 (by simp) table is _⟩
  · rw [y, comb, final]
    exact ⟨0x32, [], by decide, (absurd · (by decide)), by decide, by decide, by simp, by decide,
      fun table is more => length 98 (by simp) table is _⟩
  · rw [y, comb, final]
    exact ⟨0x32, [], by decide, (absurd · (by decide)), by decide, by decide, by simp, by decide,
      fun table is more => length 112 (by simp) table is _⟩

def sampleWrites : List Marc8Request := [.write 0xe0 40, .write 0xb2 40, .write 0x61 40, .flush 40]

theorem feed_sampleWrites :
    let ran := initMarc8Encoder.run sampleMarc8r .normal sampleWrites
    let fed := feed sampleScripts.tables (startMarc8 false) (ran.1.flatMap Item.octets)
    OnPage fed.2.g0Mode ran.2.g0 ∧ List.Forall₂ (Item.ReadAs sampleMarc8r sampleScripts) (ran.1.filter Item.isChar) fed.1 :=
  feed_run framed_sample false (by decide)

/-- From a superscript to a subscript: the page for ASCII is entered, and that for subscripts is noted. -/
theorem feed_subscript :
    let ran := initMarc8Encoder.run sampleMarc8r .normal [.write 0xb2 40, .write 0x2082 40, .write 0x61 40]
    let fed := feed sampleScripts.tables (startMarc8 false) (ran.1.flatMap Item.octets)
    ran.2.g0 = some escSubscript ∧ fed.2.g0Mode = 66 ∧ fed.1 = [⟨112, 0xb2, false⟩, ⟨66, 0x32, false⟩] := by
  decide +kernel

end Yaz.Iconv
