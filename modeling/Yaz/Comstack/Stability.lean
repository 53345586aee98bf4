import Yaz.Ber.Element
import Yaz.Comstack.Headers

/-! Verdicts on a growing buffer.

The guards against the end of the buffer make two exceptions to the rule that a verdict
depends on a front part only, both in the scan of header lines.
-/

set_option autoImplicit false

namespace Yaz.Comstack
open List Yaz.Foundation Yaz.Ber

variable {mem mem' rest line t : List UInt8} {told told' : Bool × Int} {i j r : Nat} {headOnly chunked : Bool} {contentLen : Int}
  {chunks : Option (List (List UInt8))}

/-! ### Where a message ends -/

theorem Agree.symm {n : Nat} (agree : Agree n mem mem') : Agree n mem' mem := ⟨agree.inside', agree.same.symm⟩

theorem Reads.of_line (ended : skipCrlf mem ≠ 0) (isLine : mem.drop (skipCrlf mem) = line) (header : skipCrlf line = 0)
    (is : headerLine line told = some told') (plain : Plain j line) (inside : j ≤ line.length) :
    Reads mem told (mem.drop (skipCrlf mem + j)) told' := by
  subst isLine
  rw [← drop_drop]
  exact .line ended header is (plain.reads inside)

theorem Reads.known (reads : Reads mem told rest told') (known : -1 ≤ told.2) : -1 ≤ told'.2 := by
  induction reads with
  | here => exact known
  | octet _ _ ih => exact ih known
  | line _ _ is _ ih =>
    apply ih
    rw [headerLine] at is
    split at is
    · rw [← Option.some.inj is]
      exact known
    · split at is
      · split at is
        · cases is
        · split at is
          · cases is
          · rw [← Option.some.inj is]
            dsimp only
            omega
      · rw [← Option.some.inj is]
        exact known

/-- The empty line behind the header section, within the limit, and what follows from it. -/
structure HeaderEnd (headOnly : Bool) (mem : List UInt8) (told : Bool × Int) (i : Nat) (frame : Frame) : Prop where
  ended : skipCrlf mem ≠ 0
  blank : skipCrlf (mem.drop (skipCrlf mem)) ≠ 0
  limit : i ≤ 8192
  content : frameContent ((mem.drop (skipCrlf mem)).drop (skipCrlf (mem.drop (skipCrlf mem))))
    (i + skipCrlf mem + skipCrlf (mem.drop (skipCrlf mem))) headOnly told.1 told.2 = frame

theorem HeaderEnd.two {frame : Frame} (ends : HeaderEnd headOnly mem told i frame) :
    skipCrlf mem + skipCrlf (mem.drop (skipCrlf mem)) ≤ mem.length ∧ 2 ≤ skipCrlf mem + skipCrlf (mem.drop (skipCrlf mem)) := by
  have inside := skipCrlf_le_length mem
  have inside' := skipCrlf_le_length (mem.drop (skipCrlf mem))
  have first := ends.ended
  have second := ends.blank
  rw [length_drop] at inside'
  omega

/-- The header lines lead to the end of the header section. -/
def ReadsEnd (headOnly : Bool) (mem : List UInt8) (told : Bool × Int) (i : Nat) (frame : Frame) : Prop :=
  ∃ rest told', Reads mem told rest told' ∧ HeaderEnd headOnly rest told' (i + (mem.length - rest.length)) frame

theorem ReadsEnd.of_drop {frame : Frame} (inside : j ≤ mem.length) (reads : Reads mem told (mem.drop j) told')
    (ends : ReadsEnd headOnly (mem.drop j) told' (i + j) frame) : ReadsEnd headOnly mem told i frame := by
  obtain ⟨rest, toldLast, later, ends⟩ := ends
  have shorter := later.length
  rw [length_drop] at shorter ends
  rw [show i + j + (mem.length - j - rest.length) = i + (mem.length - rest.length) by omega] at ends
  exact ⟨rest, toldLast, reads.trans later, ends⟩

theorem ReadsEnd.long {frame : Frame} (ends : ReadsEnd headOnly (mem.drop j) told i frame) {k : Nat} (plain : Plain k mem) (seen : j ≤ k) :
    k + 2 ≤ mem.length := by
  obtain ⟨rest, told', reads, ends⟩ := ends
  have shorter := (reads.skip ends.ended (plain.of_drop seen)).length
  rw [drop_drop, Nat.add_sub_cancel' seen, length_drop] at shorter
  have := ends.two
  omega

theorem encodingValue_found {value : List UInt8} {k : Nat} {chunked' : Bool}
    (found : encodingValue value value 0 chunked = some (k, chunked')) :
    Plain k value ∧ chunked' = (chunked || hasPrefix (ascii "chunked") value) := by
  obtain ⟨-, three, ended, plain⟩ := encodingValue_spec found
  have same := encodingValue_line chunked plain ended (by rw [length_drop]; omega)
  rw [found] at same
  exact ⟨plain, (Prod.mk.inj (Option.some.inj same)).2⟩

section
variable (ended : skipCrlf mem ≠ 0) (isLine : mem.drop (skipCrlf mem) = line) (header : skipCrlf line = 0)
include ended isLine header

theorem reads_encoding (named : hasPrefix (ascii "Transfer-Encoding:") line = true) {value : List UInt8}
    (isValue : line.drop (18 + spaces (line.drop 18)) = value) {k : Nat} {chunked' : Bool}
    (found : encodingValue value value 0 chunked = some (k, chunked')) (i : Nat) (contentLen : Int) :
    ∃ j ≤ mem.length, Reads mem (chunked, contentLen) (mem.drop j) (chunked', contentLen) ∧ mem.drop j = value.drop k ∧
      i + j = i + skipCrlf mem + 18 + spaces (line.drop 18) + k := by
  obtain ⟨-, bound, -, -⟩ := encodingValue_spec found
  subst isLine isValue
  obtain ⟨plainValue, isChunked⟩ := encodingValue_found found
  rw [length_drop] at bound
  have length := @length_drop UInt8 (skipCrlf mem) mem
  refine ⟨skipCrlf mem + (18 + spaces ((mem.drop (skipCrlf mem)).drop 18) + k), by omega, ?_, by rw [← drop_drop, ← drop_drop], by omega⟩
  exact .of_line ended rfl header (by rw [headerLine_encoding named, isChunked]) ((plain_encoding named).add plainValue) (by omega)

theorem reads_length (named : hasPrefix (ascii "Content-Length:") line = true) {value : List UInt8}
    (isValue : line.drop (15 + spaces (line.drop 15)) = value) (given : value ≠ []) {noRead len : Nat}
    (scan : yazAtoi 10 value = some (noRead, len)) (digits : noRead ≠ 0) (i : Nat) (chunked : Bool) (contentLen : Int) :
    ∃ j ≤ mem.length, Reads mem (chunked, contentLen) (mem.drop j) (chunked, (len : Int)) ∧ mem.drop j = value.drop noRead ∧
      i + j = i + skipCrlf mem + 15 + spaces (line.drop 15) + noRead := by
  obtain ⟨bound, -, -⟩ := yazAtoi_agree scan
  have positive := length_pos_iff.mpr given
  subst isLine isValue
  rw [length_drop] at bound positive
  have length := @length_drop UInt8 (skipCrlf mem) mem
  refine ⟨skipCrlf mem + (15 + spaces ((mem.drop (skipCrlf mem)).drop 15) + noRead), by omega, ?_,
    by rw [← drop_drop, ← drop_drop], by omega⟩
  exact .of_line ended rfl header (headerLine_length named scan digits) ((plain_length named).add (plain_of_yazAtoi scan)) (by omega)

/-- A line that is long enough for its name to be read. -/
theorem reads_other (notEncoding : ¬ (19 < line.length ∧ hasPrefix (ascii "Transfer-Encoding:") line = true))
    (notLength : ¬ (16 < line.length ∧ hasPrefix (ascii "Content-Length:") line = true))
    (long : ∀ {k}, Plain k line → 1 ≤ k → k + 2 ≤ line.length) (told : Bool × Int) :
    skipCrlf mem + 1 ≤ mem.length ∧ Reads mem told (mem.drop (skipCrlf mem + 1)) told := by
  have one := long (plain_one header) (Nat.le_refl 1)
  have length := congrArg List.length isLine
  rw [length_drop] at length
  refine ⟨by omega, .of_line ended isLine header (headerLine_other (fun named => notEncoding ⟨?_, named⟩) fun named =>
    notLength ⟨?_, named⟩)
    (plain_one header) (by omega)⟩
  · exact long (show Plain 18 line from plain_of_hasPrefix named (by decide)) (by decide)
  · exact long (show Plain 15 line from plain_of_hasPrefix named (by decide)) (by decide)

end

/-- What the scan says of a message is what its header lines and their end say. -/
theorem httpLoop_reads (read : httpLoop headOnly mem i chunked contentLen = .complete r chunks) :
    ReadsEnd headOnly mem (chunked, contentLen) i (.complete r chunks) := by
  fun_induction httpLoop headOnly mem i chunked contentLen with
  | case3 mem i chunked contentLen two limit n none ih => exact .of_drop (by omega) ((plain_one none).reads (by omega)) (ih read)
  | case4 mem i chunked contentLen two limit n ended line m blank =>
    refine ⟨mem, _, .here, ?_⟩
    rw [Nat.sub_self, Nat.add_zero]
    exact ⟨ended, blank, by omega, read⟩
  | case6 mem i chunked contentLen two limit n ended line m header named value k chunked' found ih =>
    obtain ⟨j, inside, reads, whole, position⟩ := reads_encoding ended rfl (not_not.mp header) named.2 rfl found i contentLen
    exact .of_drop inside reads (by rw [whole, position]; exact ih read)
  | case10 mem i chunked contentLen two limit n ended line m header notEncoding named value given noRead len scan digits ih =>
    obtain ⟨j, inside, reads, whole, position⟩ :=
      reads_length ended rfl (not_not.mp header) named.2 rfl given scan digits i chunked contentLen
    exact .of_drop inside reads (by rw [whole, position]; exact ih read)
  | case11 mem i chunked contentLen two limit n ended line m header notEncoding notLength ih =>
    have later := ih read
    obtain ⟨inside, reads⟩ := reads_other ended rfl (not_not.mp header) notEncoding notLength later.long (chunked, contentLen)
    refine .of_drop inside reads ?_
    rw [← drop_drop, ← Nat.add_assoc]
    exact later
  | _ => simp at read

theorem httpLoop_complete (read : httpLoop headOnly mem i chunked contentLen = .complete r chunks) :
    r ≤ i + mem.length ∧ 2 ≤ (mem.take (r - i)).count 10 := by
  obtain ⟨rest, told', reads, ends⟩ := httpLoop_reads read
  obtain ⟨least, most, -⟩ := frameContent_agree ends.content
  have shorter := reads.length
  have two := ends.two
  have first := count_take_skipCrlf ends.ended
  have second := count_take_skipCrlf ends.blank
  have front := count_take_drop mem (show mem.length - rest.length ≤ r - i by omega)
  rw [reads.drop_eq] at front
  have total := count_take_drop rest (show skipCrlf rest ≤ r - i - (mem.length - rest.length) by omega)
  have total' := count_take_drop (rest.drop (skipCrlf rest))
    (show skipCrlf (rest.drop (skipCrlf rest)) ≤ r - i - (mem.length - rest.length) - skipCrlf rest by omega)
  rw [length_drop, length_drop] at most
  omega

/-- A `Transfer-Encoding` line and the empty line behind it are both ended by a bare LF, more has arrived, and nothing says
that there is content. -/
def EndsBare (headOnly : Bool) (mem : List UInt8) (told : Bool × Int) (i : Nat) : Prop :=
  ∃ rest told', AfterEncoding mem told rest told' ∧ rest.take 2 = [10, 10] ∧ 2 < rest.length ∧ i + (mem.length - rest.length) ≤ 8192 ∧
    (headOnly = true ∨ told' = (false, 0))

theorem take_two_of_count (two : 2 ≤ (mem.take 2).count 10) : mem.take 2 = [10, 10] := by
  have length := length_take_le 2 mem
  have all : (mem.take 2).count 10 = (mem.take 2).length := by
    have := count_le_length (a := (10 : UInt8)) (l := mem.take 2)
    omega
  have each := count_eq_length.mp all
  match same : mem.take 2 with
  | [] => rw [same] at two; simp at two
  | [c] => rw [same, count_singleton] at two; split at two <;> omega
  | [c, d] =>
    rw [same] at each
    have first := each c (by simp)
    have second := each d (by simp)
    rw [← first, ← second]
  | c :: d :: e :: rest => rw [same] at length; simp at length

theorem skipCrlf_of_two (two : mem.take 2 = [10, 10]) : skipCrlf mem = 1 ∧ skipCrlf (mem.drop 1) = 1 := by
  match mem with
  | [] => simp at two
  | [c] => simp at two
  | c :: d :: rest =>
    obtain ⟨rfl, rfl⟩ := two
    simp [skipCrlf]

theorem frameContent_quiet (known : -1 ≤ contentLen)
    (read : frameContent mem i headOnly chunked contentLen = .complete i chunks) : headOnly = true ∨ chunked = false ∧ contentLen = 0 := by
  rw [frameContent] at read
  cases headOnly with
  | true => exact .inl rfl
  | false =>
    rw [if_neg (by decide)] at read
    cases chunked with
    | true =>
      have := (csReadChunks_agree read).1
      omega
    | false =>
      rw [if_neg (by decide)] at read
      refine .inr ⟨rfl, ?_⟩
      split at read
      · cases read
      · split at read
        · cases read
        · split at read
          · have := (Frame.complete.inj read).1
            omega
          · cases read

theorem bare_of_two {frame : Frame} (ends : HeaderEnd headOnly rest told i frame)
    (two : skipCrlf rest + skipCrlf (rest.drop (skipCrlf rest)) = 2) : rest.take 2 = [10, 10] := by
  have first := ends.ended
  have second := ends.blank
  obtain ⟨one, another⟩ : skipCrlf rest = 1 ∧ skipCrlf (rest.drop (skipCrlf rest)) = 1 := by omega
  have front := count_take_skipCrlf first
  have back := count_take_skipCrlf second
  have total := count_take_drop rest (show 1 ≤ 2 by decide)
  rw [one] at front
  rw [another, one] at back
  apply take_two_of_count
  rw [← total, front, back]

/-- A message stays the same when less or more of what is behind it is there, except for the octet that the guard asks for. -/
theorem httpLoop_agree (read : httpLoop headOnly mem i chunked contentLen = .complete r chunks) (known : -1 ≤ contentLen)
    (agree : Agree (r - i) mem mem')
    (spare : min mem.length (r - i + 1) ≤ mem'.length ∨ ¬ EndsBare headOnly mem (chunked, contentLen) i) :
    httpLoop headOnly mem' i chunked contentLen = .complete r chunks := by
  obtain ⟨rest, told', reads, ends⟩ := httpLoop_reads read
  obtain ⟨least, most, local'⟩ := frameContent_agree ends.content
  have shorter := reads.length
  have two := ends.two
  have inside := agree.inside'
  have reads' := reads.agree ends.ended agree (by omega)
  have agrees := agree.drop (mem.length - rest.length)
  have length' : (mem'.drop (mem.length - rest.length)).length = mem'.length - (mem.length - rest.length) := length_drop
  rw [reads.drop_eq] at agrees
  have same := agrees.skipCrlf (by omega)
  have lineAgrees := agrees.drop (skipCrlf rest)
  have same' := lineAgrees.skipCrlf_of_found ends.blank (by omega)
  -- without an octet behind the line ends, the line in front of them is no `Transfer-Encoding`
  have last (short : mem'.length = mem.length - rest.length + 2) :
      ∀ told'', ¬ AfterEncoding mem' (chunked, contentLen) (mem'.drop (mem.length - rest.length)) told'' := by
    intro told'' after
    have back := after.agree (same ▸ ends.ended) (agree.symm.mono (by omega)) (show mem'.length + 2 ≤ r - i + _ by omega)
    rw [show mem'.length - (mem'.drop (mem.length - rest.length)).length = mem.length - rest.length by omega, reads.drop_eq] at back
    have position : i + (mem.length - rest.length) + skipCrlf rest + skipCrlf (rest.drop (skipCrlf rest)) = r := by omega
    by_cases all : rest.length = 2
    · rw [back.httpLoop ends.ended all ends.limit] at read
      cases read
    · rcases spare with longer | proper
      · omega
      · apply proper
        have again : httpLoop headOnly _ _ _ _ = _ := (back.reads ends.ended).httpLoop ends.ended (.inl (by omega)) ends.limit
        rw [read, httpLoop_blank (by omega) ends.limit ends.ended rfl ends.blank, position] at again
        refine ⟨rest, told'', back, bare_of_two ends (by omega), by omega, ends.limit, ?_⟩
        rcases frameContent_quiet ((back.reads ends.ended).known known) again.symm with isHead | ⟨notChunked, empty⟩
        · exact .inl isHead
        · exact .inr (Prod.ext notChunked empty)
  have room : 3 ≤ (mem'.drop (mem.length - rest.length)).length ∨ 2 ≤ (mem'.drop (mem.length - rest.length)).length ∧
      ∀ told'', ¬ AfterEncoding mem' (chunked, contentLen) (mem'.drop (mem.length - rest.length)) told'' := by
    by_cases more : 3 ≤ (mem'.drop (mem.length - rest.length)).length
    · exact .inl more
    · exact .inr ⟨by omega, last (by omega)⟩
  have limit := ends.limit
  rw [reads'.httpLoop (same ▸ ends.ended) room (by omega),
    show i + (mem'.length - (mem'.drop (mem.length - rest.length)).length) = i + (mem.length - rest.length) by omega,
    httpLoop_blank (by omega) limit (same ▸ ends.ended) (by rw [same]) (same' ▸ ends.blank), same, same']
  apply local'
  rw [show r - (i + (mem.length - rest.length) + skipCrlf rest + skipCrlf (rest.drop (skipCrlf rest))) =
    r - i - (mem.length - rest.length) - skipCrlf rest - skipCrlf (rest.drop (skipCrlf rest)) by omega]
  exact lineAgrees.drop _

/-- Such a message is whole, and is not taken for it without an octet behind it. -/
theorem EndsBare.flips (bare : EndsBare headOnly mem told i) :
    ∃ n, n ≤ mem.length ∧ httpLoop headOnly mem i told.1 told.2 = .complete (i + n) none ∧
      httpLoop headOnly (mem.take n) i told.1 told.2 = .incomplete := by
  obtain ⟨rest, told', line, two, behind, limit, quiet⟩ := bare
  obtain ⟨first, second⟩ := skipCrlf_of_two two
  have ended : skipCrlf rest ≠ 0 := by
    rw [first]
    decide
  have shorter := (line.reads ended).length
  refine ⟨mem.length - rest.length + 2, by omega, ?_, ?_⟩
  · rw [(line.reads ended).httpLoop ended (.inl (by omega)) limit,
      httpLoop_blank (by omega) limit ended (by rw [first]) (by rw [second]; decide), first, second, frameContent]
    rcases quiet with isHead | rfl
    · rw [if_pos isHead]
      congr 1
    · split
      · congr 1
      · rw [if_neg (by decide), if_neg (by decide), if_neg (by simp only [intMax]; omega), if_pos (by omega)]
        congr 1
  · have agree := agree_take (show mem.length - rest.length + 2 ≤ mem.length by omega)
    have cut := line.agree ended agree (by omega)
    have back : (mem.take (mem.length - rest.length + 2)).length = mem.length - rest.length + 2 := length_take_of_le (by omega)
    have agrees := agree.drop (mem.length - rest.length)
    rw [(line.reads ended).drop_eq] at agrees
    refine cut.httpLoop ?_ ?_ ?_
    · rwa [agrees.skipCrlf (by omega)]
    · rw [length_drop, back]
      omega
    · rw [length_drop, back]
      omega

/-! ### The limit of the header section -/

/-- The line becomes the header `text` when `t` has arrived; before that a guard keeps it from being read as such. -/
def CutName (text line t : List UInt8) : Prop :=
  line.length ≤ text.length + 1 ∧ text.length + 1 < (line ++ t).length ∧ hasPrefix text (line ++ t) = true

/-- The line end of the value, or the octet behind that, is not there. -/
def OpenEncoding (line : List UInt8) : Prop :=
  Plain ((line.drop (18 + spaces (line.drop 18))).length - 2) (line.drop (18 + spaces (line.drop 18)))

/-- The number is not there, or at most one octet is behind it. -/
def OpenLength (line : List UInt8) : Prop :=
  line.drop (15 + spaces (line.drop 15)) = [] ∨
    ∃ noRead len, yazAtoi 10 (line.drop (15 + spaces (line.drop 15))) = some (noRead, len) ∧ noRead ≠ 0 ∧
      (line.drop (15 + spaces (line.drop 15))).length ≤ noRead + 1

/-- The octets from a line end on end in the name of a header that `t` completes, without the end of its value. -/
structure CutLine (mem t : List UInt8) : Prop where
  ended : skipCrlf mem ≠ 0
  three : 3 ≤ (mem.drop (skipCrlf mem)).length
  cut : CutName (ascii "Transfer-Encoding:") (mem.drop (skipCrlf mem)) t ∧ OpenEncoding (mem.drop (skipCrlf mem) ++ t) ∨
    CutName (ascii "Content-Length:") (mem.drop (skipCrlf mem)) t ∧ OpenLength (mem.drop (skipCrlf mem) ++ t)

/-- The header lines lead to such a line, and the limit is reached in it. -/
def CutAtLimit (mem t : List UInt8) (told : Bool × Int) (i : Nat) : Prop :=
  ∃ rest told', Reads mem told rest told' ∧ CutLine rest t ∧ i + (mem.length - rest.length) ≤ 8192 ∧ 8195 ≤ i + mem.length

theorem CutAtLimit.of_reads (reads : Reads mem told rest told') (cut : CutAtLimit rest t told' (i + (mem.length - rest.length))) :
    CutAtLimit mem t told i := by
  obtain ⟨final, toldLast, later, line, early, late⟩ := cut
  have shorter := reads.length
  have shorter' := later.length
  exact ⟨final, toldLast, reads.trans later, line, by omega, by omega⟩

theorem CutAtLimit.of_drop (inside : j ≤ mem.length) (reads : Reads mem told (mem.drop j) told')
    (cut : CutAtLimit (mem.drop j) t told' (i + j)) : CutAtLimit mem t told i := by
  apply CutAtLimit.of_reads reads
  rwa [length_drop, Nat.sub_sub_self inside]

/-- The line of the cut name, from any line in front of it. -/
theorem CutAtLimit.line_long (cut : CutAtLimit (mem.drop j) t told i) {k : Nat} (further : Plain k mem) (seen : j ≤ k) :
    k + 4 ≤ mem.length := by
  obtain ⟨rest, told', reads, line, -, -⟩ := cut
  have shorter := (reads.skip line.ended (further.of_drop seen)).length
  rw [drop_drop, Nat.add_sub_cancel' seen, length_drop] at shorter
  have three := line.three
  rw [length_drop] at three
  have := line.ended
  omega

section
variable {text : List UInt8}

theorem cutName_of_append (other : ¬ (text.length + 1 < line.length ∧ hasPrefix text line = true))
    (long : text.length + 1 < (line ++ t).length) (named : hasPrefix text (line ++ t) = true) : CutName text line t := by
  refine ⟨?_, long, named⟩
  by_contra already
  apply other
  rw [(agree_append line t).hasPrefix (by omega)] at named
  exact ⟨by omega, named⟩

theorem CutName.dropLast (cut : CutName text line t) (plain : 10 ∉ text.map toLower) : 10 ∉ line.dropLast := by
  obtain ⟨short, -, named⟩ := cut
  intro inside
  apply not_mem_of_hasPrefix plain named
  rw [dropLast_eq_take, ← @List.take_append_of_le_length _ _ t _ (by omega)] at inside
  exact take_subset_take_left _ (by omega) inside

end

theorem crlf_of_plain (two : 2 ≤ mem.length) (plain : 10 ∉ mem.dropLast) (ended : skipCrlf mem ≠ 0) :
    mem = [13, 10] := by
  match mem with
  | [] => simp at two
  | [c] => simp at two
  | c :: d :: rest =>
    rw [dropLast_cons_cons] at plain
    simp only [mem_cons, not_or] at plain
    have crlf : c = 13 ∧ d = 10 := by
      by_contra other
      apply ended
      unfold skipCrlf
      rw [if_neg (by simpa using other), if_neg (by simpa using Ne.symm plain.1)]
    obtain ⟨rfl, rfl⟩ := crlf
    cases rest with
    | nil => rfl
    | cons => simp at plain

theorem httpLoop_invalid_of_plain (read : httpLoop headOnly mem i chunked contentLen = .invalid) (plain : 10 ∉ mem.dropLast) :
    8195 ≤ i + mem.length := by
  induction mem generalizing i with
  | nil => simp [httpLoop] at read
  | cons c rest ih =>
    by_cases two : 2 ≤ (c :: rest).length
    · by_cases limit : i ≤ 8192
      · by_cases none : skipCrlf (c :: rest) = 0
        · rw [httpLoop_skip two limit none] at read
          cases rest with
          | nil => simp at two
          | cons =>
            have := ih read fun inside => plain (by simp [inside])
            simp only [length_cons] at this ⊢
            omega
        · -- only CR LF at the very end is left
          have crlf := crlf_of_plain two plain none
          rw [crlf] at read none two
          rw [httpLoop_other two limit none rfl (by decide) (by decide) (by decide)] at read
          simp [httpLoop, skipCrlf] at read
      · omega
    · rw [httpLoop, if_pos (by omega)] at read
      simp at read

theorem httpLoop_reaches (plain : 10 ∉ mem.dropLast) (two : 2 ≤ mem.length) (reached : 8195 ≤ i + mem.length) :
    httpLoop headOnly mem i chunked contentLen = .invalid := by
  induction mem generalizing i with
  | nil => simp at two
  | cons c rest ih =>
    by_cases beyond : 8192 < i
    · rw [httpLoop, if_neg (by omega), if_pos beyond]
    · rcases rest with _ | ⟨d, _ | ⟨e, later⟩⟩
      · simp at two
      · simp only [length_cons, length_nil] at reached
        omega
      · rw [dropLast_cons_cons, dropLast_cons_cons] at plain
        have none : skipCrlf (c :: d :: e :: later) = 0 := by
          by_contra ended
          cases crlf_of_plain two (by rw [dropLast_cons_cons, dropLast_cons_cons]; exact plain) ended
        rw [httpLoop_skip two (by omega) none]
        exact ih (fun inside => plain (mem_cons_of_mem c (by rwa [dropLast_cons_cons] at inside))) (by simp)
          (by simp only [length_cons] at reached ⊢; omega)

section
variable {chunked : Bool} {contentLen : Int}

theorem httpLoop_encoding_limit (two : 2 ≤ mem.length) (limit : i ≤ 8192) (ended : skipCrlf mem ≠ 0)
    (isLine : mem.drop (skipCrlf mem) = line) (header : skipCrlf line = 0) (long : 19 < line.length)
    (named : hasPrefix (ascii "Transfer-Encoding:") line) (far : 8192 < i + skipCrlf mem + 18) :
    httpLoop headOnly mem i chunked contentLen = .incomplete ∧ OpenEncoding line ∨
      httpLoop headOnly mem i chunked contentLen = .invalid := by
  cases found : encodingValue (line.drop (18 + spaces (line.drop 18))) (line.drop (18 + spaces (line.drop 18))) 0 chunked with
  | none =>
    have isOpen := encodingValue_eq_none.mp found
    exact .inl ⟨httpLoop_encoding_open two limit ended isLine header long named rfl isOpen, isOpen⟩
  | some both =>
    obtain ⟨k, chunked'⟩ := both
    have := (encodingValue_spec found).2.1
    right
    rw [httpLoop_encoding two limit ended isLine header long named rfl found, httpLoop, if_neg (by rw [length_drop]; omega),
      if_pos (by omega)]

theorem httpLoop_length_limit (two : 2 ≤ mem.length) (limit : i ≤ 8192) (ended : skipCrlf mem ≠ 0)
    (isLine : mem.drop (skipCrlf mem) = line) (header : skipCrlf line = 0) (long : 16 < line.length)
    (named : hasPrefix (ascii "Content-Length:") line) (far : 8192 < i + skipCrlf mem + 15) :
    httpLoop headOnly mem i chunked contentLen = .incomplete ∧ OpenLength line ∨ httpLoop headOnly mem i chunked contentLen = .invalid := by
  have other := not_both_prefixes named
  rw [httpLoop, if_neg (by omega), if_neg (by omega)]
  dsimp only
  rw [if_neg ended, isLine, if_neg (not_not.mpr header), if_neg (by simp [other]), if_pos ⟨long, named⟩]
  split
  next nothing => exact .inl ⟨rfl, .inl nothing⟩
  · split
    · exact .inr rfl
    next noRead len scan =>
      split
      · exact .inr rfl
      next digits =>
        rw [httpLoop, length_drop]
        split
        next short => exact .inl ⟨rfl, .inr ⟨noRead, len, scan, digits, by omega⟩⟩
        · exact .inr (if_pos (by omega))

theorem httpLoop_length_open (two : 2 ≤ mem.length) (limit : i ≤ 8192) (ended : skipCrlf mem ≠ 0)
    (isLine : mem.drop (skipCrlf mem) = line) (header : skipCrlf line = 0) (long : 16 < line.length)
    (named : hasPrefix (ascii "Content-Length:") line) (isOpen : OpenLength line) :
    httpLoop headOnly mem i chunked contentLen = .incomplete := by
  have other := not_both_prefixes named
  rcases isOpen with nothing | ⟨noRead, len, scan, digits, few⟩
  · rw [httpLoop, if_neg (by omega), if_neg (by omega)]
    rw [if_neg ended, isLine, if_neg (not_not.mpr header), if_neg (by simp [other]), if_pos ⟨long, named⟩, if_pos nothing]
  · have some : line.drop (15 + spaces (line.drop 15)) ≠ [] := by
      intro nothing
      rw [nothing] at scan
      cases scan
      exact digits rfl
    rw [httpLoop_length two limit ended isLine header long named rfl some scan digits, httpLoop, if_pos (by rw [length_drop]; omega)]

theorem httpLoop_length_invalid (two : 2 ≤ mem.length) (limit : i ≤ 8192) (ended : skipCrlf mem ≠ 0)
    (isLine : mem.drop (skipCrlf mem) = line) (header : skipCrlf line = 0) (long : 16 < line.length)
    (named : hasPrefix (ascii "Content-Length:") line) {value : List UInt8}
    (isValue : line.drop (15 + spaces (line.drop 15)) = value) (given : value ≠ [])
    (failed : ∀ noRead len, yazAtoi 10 value = some (noRead, len) → noRead = 0) :
    httpLoop headOnly mem i chunked contentLen = .invalid := by
  have other := not_both_prefixes named
  rw [httpLoop, if_neg (by omega), if_neg (by omega)]
  rw [if_neg ended, isLine, if_neg (not_not.mpr header), if_neg (by simp [other]), if_pos ⟨long, named⟩, isValue,
    if_neg given]
  split
  · rfl
  next noRead len scan => rw [if_pos (failed noRead len scan)]

/-- The limit makes an error of such a line, until `t` has arrived. -/
theorem CutAtLimit.flips (cut : CutAtLimit mem t told i) :
    httpLoop headOnly mem i told.1 told.2 = .invalid ∧ httpLoop headOnly (mem ++ t) i told.1 told.2 = .incomplete := by
  obtain ⟨rest, told', reads, ⟨ended, three, names⟩, early, late⟩ := cut
  have shorter := reads.length
  have inside := skipCrlf_le_length rest
  rw [length_drop] at three
  have size : (rest.drop (skipCrlf rest)).length = rest.length - skipCrlf rest := length_drop
  have plain : 10 ∉ (rest.drop (skipCrlf rest)).dropLast := by
    rcases names with ⟨name, -⟩ | ⟨name, -⟩
    · exact name.dropLast plain_transferEncoding
    · exact name.dropLast plain_contentLength
  have header' : skipCrlf (rest.drop (skipCrlf rest) ++ t) = 0 := by
    rcases names with ⟨name, -⟩ | ⟨name, -⟩
    · exact plain_of_hasPrefix name.2.2 (by decide) 0 (by decide)
    · exact plain_of_hasPrefix name.2.2 (by decide) 0 (by decide)
  have header := ((agree_append (rest.drop (skipCrlf rest)) t).skipCrlf (by omega)).symm.trans header'
  have restMore : (rest ++ t).drop (skipCrlf rest) = rest.drop (skipCrlf rest) ++ t := drop_append_of_le_length inside
  have same : skipCrlf (rest ++ t) = skipCrlf rest := (agree_append rest t).skipCrlf (by omega)
  have reads' := reads.agree ended (agree_append mem t) (by omega)
  rw [drop_append_of_le_length (by omega), reads.drop_eq] at reads'
  have position : (mem ++ t).length - (rest ++ t).length = mem.length - rest.length := by
    rw [length_append, length_append]
    omega
  constructor
  · have notEncoding : ¬ (19 < (rest.drop (skipCrlf rest)).length ∧
      hasPrefix (ascii "Transfer-Encoding:") (rest.drop (skipCrlf rest)) = true) := by
      rintro ⟨long, -⟩
      rcases names with ⟨⟨short, -⟩, -⟩ | ⟨⟨short, -⟩, -⟩
      · exact absurd (show _ ≤ 18 + 1 from short) (by omega)
      · exact absurd (show _ ≤ 15 + 1 from short) (by omega)
    have notLength : ¬ (16 < (rest.drop (skipCrlf rest)).length ∧
      hasPrefix (ascii "Content-Length:") (rest.drop (skipCrlf rest)) = true) := by
      rintro ⟨long, named⟩
      rcases names with ⟨⟨-, -, other⟩, -⟩ | ⟨⟨short, -⟩, -⟩
      · rw [← (agree_append _ t).hasPrefix (show 15 ≤ _ by omega)] at named
        rw [not_both_prefixes named] at other
        cases other
      · exact absurd (show _ ≤ 15 + 1 from short) (by omega)
    rw [reads.httpLoop ended (by omega) early, httpLoop_other (by omega) early ended rfl header notEncoding notLength]
    apply httpLoop_reaches
    · intro within
      rw [dropLast_drop_eq_drop_dropLast] at within
      exact plain (mem_of_mem_drop within)
    · rw [length_drop]
      omega
    · rw [length_drop]
      omega
  · have total : (rest ++ t).length = rest.length + t.length := length_append
    rw [reads'.httpLoop (same ▸ ended) (by omega) (by omega), position]
    rcases names with ⟨⟨-, long, named⟩, isOpen⟩ | ⟨⟨-, long, named⟩, isOpen⟩
    · exact httpLoop_encoding_open (by omega) early (same ▸ ended) (by rw [same, restMore]) header' long named rfl isOpen
    · exact httpLoop_length_open (by omega) early (same ▸ ended) (by rw [same, restMore]) header' long named isOpen

end

variable (t : List UInt8) {chunked : Bool} {contentLen : Int}

theorem frameContent_invalid (read : frameContent mem i headOnly chunked contentLen = .invalid) :
    frameContent (mem ++ t) i headOnly chunked contentLen = .invalid := by
  unfold frameContent at read ⊢
  split at read
  · simp at read
  next notHead =>
    rw [if_neg notHead]
    split at read
    next isChunked =>
      rw [if_pos isChunked]
      exact csReadChunks_invalid t read
    next notChunked =>
      rw [if_neg notChunked]
      split at read
      · simp at read
      next known =>
        rw [if_neg known]
        split at read
        next large => rw [if_pos large]
        next => split at read <;> simp at read

theorem header_append {text value : List UInt8} (size : text.length = j) (t : List UInt8)
    (two : 2 ≤ mem.length) (isLine : mem.drop (skipCrlf mem) = line) (header : skipCrlf line = 0)
    (long : j + 1 < line.length) (named : hasPrefix text line = true) (positive : 1 ≤ j)
    (isValue : line.drop (j + spaces (line.drop j)) = value) (given : value ≠ []) :
    (skipCrlf (mem ++ t) = skipCrlf mem ∧ (mem ++ t).drop (skipCrlf mem) = line ++ t) ∧
      skipCrlf (line ++ t) = 0 ∧ hasPrefix text (line ++ t) = true ∧
      spaces ((line ++ t).drop j) = spaces (line.drop j) ∧ (line ++ t).drop (j + spaces (line.drop j)) = value ++ t := by
  have agree := agree_append line t
  have room := length_pos_iff.mpr given
  rw [← isValue, length_drop] at room
  constructor
  · constructor
    · exact (agree_append mem t).skipCrlf two
    · rw [drop_append_of_le_length (skipCrlf_le_length mem), isLine]
  · refine ⟨(agree.skipCrlf (by omega)).trans header, (agree.hasPrefix (by omega)).trans named,
      (agree.drop j).spaces (by omega), ?_⟩
    rw [drop_append_of_le_length (by omega), isValue]

theorem limit_of_cutName {text t : List UInt8}
    (plain : 10 ∉ text.map toLower) (name : CutName text line t)
    (read : httpLoop headOnly (line.drop 1) i chunked contentLen = .invalid) : 8195 ≤ i + (line.length - 1) := by
  rw [← length_drop]
  apply httpLoop_invalid_of_plain read
  rw [dropLast_drop_eq_drop_dropLast]
  exact fun inside => name.dropLast plain (mem_of_mem_drop inside)

/-- An error stays an error, except for a header whose name is cut. -/
theorem httpLoop_invalid (read : httpLoop headOnly mem i chunked contentLen = .invalid) :
    httpLoop headOnly (mem ++ t) i chunked contentLen = .invalid ∨
      httpLoop headOnly (mem ++ t) i chunked contentLen = .incomplete ∧ CutAtLimit mem t (chunked, contentLen) i := by
  fun_induction httpLoop headOnly mem i chunked contentLen with
  | case1 => simp at read
  | case2 mem i chunked contentLen two limit =>
    rw [httpLoop, if_neg (by rw [length_append]; omega), if_pos limit]
    exact .inl rfl
  | case3 mem i chunked contentLen two limit n none ih =>
    have same := (agree_append mem t).skipCrlf (by omega)
    rw [httpLoop_skip (by rw [length_append]; omega) (by omega) (same.trans none),
      drop_append_of_le_length (by omega)]
    rcases ih read with stays | ⟨flips, cut⟩
    · exact .inl stays
    · exact .inr ⟨flips, cut.of_drop (by omega) ((plain_one none).reads (by omega))⟩
  | case4 mem i chunked contentLen two limit n ended line m blank =>
    left
    have same : skipCrlf (mem ++ t) = n := (agree_append mem t).skipCrlf (by omega)
    have inside : n ≤ mem.length := skipCrlf_le_length mem
    have rest : (mem ++ t).drop n = line ++ t := drop_append_of_le_length inside
    have inside' : m ≤ line.length := skipCrlf_le_length line
    have same' : skipCrlf (line ++ t) = m := (agree_append line t).skipCrlf_of_found blank inside'
    rw [httpLoop_blank (by rw [length_append]; omega) (by omega) (same ▸ ended) (by rw [same, rest]) (same' ▸ blank),
      same, same', drop_append_of_le_length inside']
    exact frameContent_invalid t read
  | case5 => simp at read
  | case6 mem i chunked contentLen two limit n ended line m header named value k chunked' found ih =>
    obtain ⟨-, bound, -, -⟩ := encodingValue_spec found
    have length : line.length = mem.length - n := length_drop
    have length' : value.length = line.length - (18 + spaces (line.drop 18)) := length_drop
    obtain ⟨⟨same, rest⟩, header', named', sameSpaces, sameValue⟩ :=
      header_append (show (ascii "Transfer-Encoding:").length = 18 from rfl) t (by omega) (show mem.drop n = line from rfl)
        (not_not.mp header) named.1 named.2 (by decide) (show _ = value from rfl)
        (length_pos_iff.mp (by omega))
    have found' : encodingValue (value ++ t) (value ++ t) 0 chunked = some (k, chunked') :=
      encodingValue_agree found ((agree_append value t).mono (by omega)) (by rw [length_append]; omega) fun seven =>
        (agree_append value t).hasPrefix (show 7 ≤ _ by omega)
    rw [httpLoop_encoding (by rw [length_append]; omega) (by omega) (same ▸ ended) (by rw [same, rest]) header'
      (by rw [length_append]; omega) named' (by rw [sameSpaces, sameValue]) found', same, sameSpaces,
      drop_append_of_le_length (by omega)]
    rcases ih read with stays | ⟨flips, cut⟩
    · exact .inl stays
    · obtain ⟨j, inside, reads, whole, position⟩ := reads_encoding ended rfl (not_not.mp header) named.2 rfl found i contentLen
      exact .inr ⟨flips, .of_drop inside reads (by rw [whole, position]; exact cut)⟩
  | case7 => simp at read
  | case8 mem i chunked contentLen two limit n ended line m header notEncoding named value given failed =>
    left
    obtain ⟨⟨same, rest⟩, header', named', sameSpaces, sameValue⟩ :=
      header_append (show (ascii "Content-Length:").length = 15 from rfl) t (by omega) (show mem.drop n = line from rfl)
        (not_not.mp header) named.1 named.2 (by decide) (show _ = value from rfl) given
    refine httpLoop_length_invalid (by rw [length_append]; omega) (by omega) (same ▸ ended) (by rw [same, rest])
      header' (by rw [length_append]; omega) named' (by rw [sameSpaces, sameValue]) (by simp [given]) ?_
    intro noRead len scan
    rw [yazAtoi_append_of_none (by decide) t failed] at scan
    simp at scan
  | case9 mem i chunked contentLen two limit n ended line m header notEncoding named value given len scan =>
    left
    have positive := length_pos_iff.mpr given
    obtain ⟨⟨same, rest⟩, header', named', sameSpaces, sameValue⟩ :=
      header_append (show (ascii "Content-Length:").length = 15 from rfl) t (by omega) (show mem.drop n = line from rfl)
        (not_not.mp header) named.1 named.2 (by decide) (show _ = value from rfl) given
    refine httpLoop_length_invalid (by rw [length_append]; omega) (by omega) (same ▸ ended) (by rw [same, rest])
      header' (by rw [length_append]; omega) named' (by rw [sameSpaces, sameValue]) (by simp [given]) ?_
    intro noRead len' scan'
    obtain ⟨-, -, scanLocal⟩ := yazAtoi_agree scan
    rw [scanLocal _ ((agree_append value t).mono (by omega))] at scan'
    simp only [Option.some.injEq, Prod.mk.injEq] at scan'
    exact scan'.1.symm
  | case10 mem i chunked contentLen two limit n ended line m header notEncoding named value given noRead len scan digits ih =>
    obtain ⟨bound, -, scanLocal⟩ := yazAtoi_agree scan
    have length : line.length = mem.length - n := length_drop
    have length' : value.length = line.length - (15 + spaces (line.drop 15)) := length_drop
    obtain ⟨⟨same, rest⟩, header', named', sameSpaces, sameValue⟩ :=
      header_append (show (ascii "Content-Length:").length = 15 from rfl) t (by omega) (show mem.drop n = line from rfl)
        (not_not.mp header) named.1 named.2 (by decide) (show _ = value from rfl) given
    have more : noRead + 1 ≤ value.length := by
      by_contra ends
      rw [drop_of_length_le (show value.length ≤ noRead by omega)] at read
      simp [httpLoop] at read
    rw [httpLoop_length (by rw [length_append]; omega) (by omega) (same ▸ ended) (by rw [same, rest]) header'
      (by rw [length_append]; omega) named' (by rw [sameSpaces, sameValue]) (by simp [given])
      (scanLocal _ ((agree_append value t).mono more)) digits, same, sameSpaces, drop_append_of_le_length bound]
    rcases ih read with stays | ⟨flips, cut⟩
    · exact .inl stays
    · obtain ⟨j, inside, reads, whole, position⟩ :=
        reads_length ended rfl (not_not.mp header) named.2 rfl given scan digits i chunked contentLen
      exact .inr ⟨flips, .of_drop inside reads (by rw [whole, position]; exact cut)⟩
  | case11 mem i chunked contentLen two limit n ended line m header notEncoding notLength ih =>
    have long : 2 ≤ (line.drop 1).length := by
      by_contra short
      rw [httpLoop, if_pos (by omega)] at read
      simp at read
    rw [length_drop] at long
    have length : line.length = mem.length - n := length_drop
    have agree := agree_append line t
    have same : skipCrlf (mem ++ t) = n := (agree_append mem t).skipCrlf (by omega)
    have rest : (mem ++ t).drop n = line ++ t := drop_append_of_le_length (by omega)
    have header' : skipCrlf (line ++ t) = 0 := (agree.skipCrlf (by omega)).trans (not_not.mp header)
    have total : (mem ++ t).length = mem.length + t.length := length_append
    by_cases encoding : 19 < (line ++ t).length ∧ hasPrefix (ascii "Transfer-Encoding:") (line ++ t) = true
    · have name : CutName (ascii "Transfer-Encoding:") line t := cutName_of_append notEncoding encoding.1 encoding.2
      have short : line.length ≤ 19 := name.1
      have reached := limit_of_cutName plain_transferEncoding name read
      rcases httpLoop_encoding_limit (by omega) (show i ≤ 8192 by omega) (same ▸ ended) (by rw [same, rest]) header' encoding.1 encoding.2
        (by omega) with ⟨flips, isOpen⟩ | stays
      · exact .inr ⟨flips, mem, _, .here, ⟨ended, by rw [length_drop]; omega, .inl ⟨name, isOpen⟩⟩, by omega, by omega⟩
      · exact .inl stays
    · by_cases isLength : 16 < (line ++ t).length ∧ hasPrefix (ascii "Content-Length:") (line ++ t) = true
      · have name : CutName (ascii "Content-Length:") line t := cutName_of_append notLength isLength.1 isLength.2
        have short : line.length ≤ 16 := name.1
        have reached := limit_of_cutName plain_contentLength name read
        rcases httpLoop_length_limit (by omega) (show i ≤ 8192 by omega) (same ▸ ended) (by rw [same, rest]) header' isLength.1 isLength.2
          (by omega) with ⟨flips, isOpen⟩ | stays
        · exact .inr ⟨flips, mem, _, .here, ⟨ended, by rw [length_drop]; omega, .inr ⟨name, isOpen⟩⟩, by omega, by omega⟩
        · exact .inl stays
      · rw [httpLoop_other (by omega) (by omega) (same ▸ ended) (by rw [same, rest]) header' encoding isLength, same,
          drop_append_of_le_length (by omega)]
        rcases ih read with stays | ⟨flips, cutLater⟩
        · exact .inl stays
        · -- the line with the cut name stands behind this one
          obtain ⟨inside, reads⟩ := reads_other ended rfl (not_not.mp header) notEncoding notLength
            (fun plain seen => Nat.le_trans (Nat.add_le_add_left (by decide) _) (cutLater.line_long plain seen)) (chunked, contentLen)
          refine .inr ⟨flips, .of_drop inside reads ?_⟩
          rw [← drop_drop, ← Nat.add_assoc]
          exact cutLater

section
variable {buf buf' : List UInt8}

theorem firstLine_agree {n : Nat} (agree : Agree n buf buf') (ended : 10 ∈ buf.take n) : firstLine buf' = firstLine buf := by
  induction buf generalizing n buf' with
  | nil => simp at ended
  | cons c _ ih =>
    cases n with
    | zero => simp at ended
    | succ =>
      obtain ⟨rest', rfl, agrees⟩ := agree.cons
      rw [firstLine, firstLine]
      by_cases here : c = 10 ∨ c = 13
      · rw [if_pos here, if_pos here]
      · rw [if_neg here, if_neg here, ih agrees]
        rw [take_succ_cons, mem_cons] at ended
        rcases ended with rfl | later
        · simp at here
        · exact later

theorem firstLine_append (found : firstLine buf = some line) :
    firstLine (buf ++ t) = some line := by
  induction buf generalizing line with
  | nil => simp [firstLine] at found
  | cons _ _ ih =>
    rw [cons_append, firstLine]
    rw [firstLine] at found
    split at found
    next here =>
      rw [if_pos here]
      exact found
    next goesOn =>
      rw [Option.map_eq_some_iff] at found
      obtain ⟨others, later, rfl⟩ := found
      rw [if_neg goesOn, ih later]
      rfl

variable {r : Nat} {chunks : Option (List (List UInt8))}

theorem csCompleteHttp_complete (read : csCompleteHttp buf headOnly = .complete r chunks) :
    r ≤ buf.length ∧ 2 ≤ ((buf.drop 2).take (r - 2)).count 10 := by
  unfold csCompleteHttp at read
  split at read
  · simp at read
  · obtain ⟨bound, lines⟩ := httpLoop_complete read
    have few := Nat.le_trans (count_le_length (a := (10 : UInt8))) (length_take_le' (r - 2) (buf.drop 2))
    rw [length_drop] at bound few
    exact ⟨by omega, lines⟩

/-- Such an end, in a whole buffer. -/
def BareMessage (buf : List UInt8) (headOnly : Bool) : Prop :=
  ∃ line, firstLine buf = some line ∧ EndsBare (statusLine headOnly line).1 (buf.drop 2) (false, (statusLine headOnly line).2) 2

/-- A header at the limit whose name is cut, in a whole buffer. -/
def CutMessage (buf t : List UInt8) (headOnly : Bool) : Prop :=
  ∃ line, firstLine buf = some line ∧ CutAtLimit (buf.drop 2) t (false, (statusLine headOnly line).2) 2

theorem statusLine_known (headOnly : Bool) (line : List UInt8) : -1 ≤ (statusLine headOnly line).2 := by
  rw [statusLine]
  split
  · dsimp only
    split
    · decide
    · decide
  · exact (by decide : (-1 : Int) ≤ 0)

theorem csCompleteHttp_agree (read : csCompleteHttp buf headOnly = .complete r chunks) (agree : Agree r buf buf')
    (spare : min buf.length (r + 1) ≤ buf'.length ∨ ¬ BareMessage buf headOnly) : csCompleteHttp buf' headOnly = .complete r chunks := by
  obtain ⟨bound, lines⟩ := csCompleteHttp_complete read
  have few := Nat.le_trans (count_le_length (a := (10 : UInt8))) (length_take_le (r - 2) (buf.drop 2))
  have ended : 10 ∈ buf.take r := by
    have later : 10 ∈ (buf.drop 2).take (r - 2) := count_pos_iff.mp (by omega)
    rw [← drop_take] at later
    exact mem_of_mem_drop later
  unfold csCompleteHttp at read ⊢
  rw [firstLine_agree agree ended]
  split at read
  · simp at read
  next line found =>
    refine httpLoop_agree read (statusLine_known headOnly line) (agree.drop 2) ?_
    rcases spare with longer | proper
    · left
      rw [length_drop, length_drop]
      omega
    · exact .inr fun bare => proper ⟨line, found, bare⟩

theorem csCompleteHttp_invalid (read : csCompleteHttp buf headOnly = .invalid) :
    csCompleteHttp (buf ++ t) headOnly = .invalid ∨
      csCompleteHttp (buf ++ t) headOnly = .incomplete ∧ CutMessage buf t headOnly := by
  unfold csCompleteHttp at read ⊢
  split at read
  · simp at read
  next line found =>
    rw [firstLine_append t found]
    have two : 2 ≤ buf.length := by
      by_contra short
      rw [httpLoop, if_pos (by rw [length_drop]; omega)] at read
      simp at read
    rw [drop_append_of_le_length two]
    rcases httpLoop_invalid t read with stays | ⟨flips, cut⟩
    · exact .inl stays
    · exact .inr ⟨flips, line, found, cut⟩

theorem CutMessage.flips (cut : CutMessage buf t headOnly) :
    csCompleteHttp buf headOnly = .invalid ∧ csCompleteHttp (buf ++ t) headOnly = .incomplete := by
  obtain ⟨line, found, cut⟩ := cut
  have two : 2 ≤ buf.length := by
    obtain ⟨-, -, -, -, -, late⟩ := cut
    rw [length_drop] at late
    omega
  obtain ⟨stops, flips⟩ := cut.flips
  rw [csCompleteHttp, csCompleteHttp, firstLine_append t found, found, drop_append_of_le_length two]
  exact ⟨stops, flips⟩

theorem BareMessage.flips (bare : BareMessage buf headOnly) :
    ∃ r chunks, csCompleteHttp buf headOnly = .complete r chunks ∧ csCompleteHttp (buf.take r) headOnly = .incomplete := by
  obtain ⟨line, found, bare⟩ := bare
  obtain ⟨n, inside, whole, cut⟩ := bare.flips
  have read : csCompleteHttp buf headOnly = .complete (2 + n) none := by
    rw [csCompleteHttp, found]
    exact whole
  obtain ⟨bound, lines⟩ := csCompleteHttp_complete read
  have ended : 10 ∈ buf.take (2 + n) := by
    have later : 10 ∈ (buf.drop 2).take (2 + n - 2) := count_pos_iff.mp (by omega)
    rw [← drop_take] at later
    exact mem_of_mem_drop later
  refine ⟨2 + n, none, read, ?_⟩
  rw [csCompleteHttp, firstLine_agree (agree_take bound) ended, found]
  dsimp only
  rwa [drop_take, Nat.add_sub_cancel_left]

end

/-! ### The choice between the two protocols -/

section
variable {b t : List UInt8}

theorem looksLikeHttp_append (http : looksLikeHttp b = true) : looksLikeHttp (b ++ t) = true := by
  unfold looksLikeHttp at http ⊢
  rw [Bool.and_eq_true, decide_eq_true_eq] at http ⊢
  rw [take_append_of_le_length (by omega), length_append]
  exact ⟨by omega, http.2⟩

theorem printable_of_looksLikeHttp {c : UInt8} (http : looksLikeHttp b = true) (inside : c ∈ b.take 4) :
    0x20 ≤ c.toNat ∧ c.toNat < 0x7f := by
  unfold looksLikeHttp at http
  rw [Bool.and_eq_true, all_eq_true] at http
  simpa using http.2 c inside

theorem berDeclen_printable {c : UInt8} {max : Int} (room : 1 ≤ max)
    (printable : 0x20 ≤ c.toNat ∧ c.toNat < 0x7f) : berDeclen (c :: rest) max = some (1, (c.toNat : Int)) := by
  rw [berDeclen, if_neg (by omega)]
  rw [if_neg (by omega), if_pos (by omega)]

theorem completeBERn_printable (short : b.length ≤ 5) (printable : ∀ c ∈ b.take 4, 0x20 ≤ c.toNat ∧ c.toNat < 0x7f) :
    completeBERn b 0 = 0 := by
  match b with
  | [] => rfl
  | [c] => rfl
  | c :: d :: rest =>
    have first := printable c (by simp)
    have second := printable d (by simp)
    have notEnd : (c :: d :: rest).take 2 ≠ [0, 0] := by
      intro zeros
      simp only [take_succ_cons, take_zero, List.cons.injEq, and_true] at zeros
      rw [zeros.1] at first
      simp at first
    simp only [length_cons] at short
    unfold completeBERn
    rw [completeBERWithin, if_neg (by simp), if_neg notEnd, berDectag, if_neg (by simp; omega)]
    by_cases low : c.toNat % 32 ≤ 30
    · -- the second octet is a length of at least 32
      rw [if_pos low]
      dsimp only
      rw [if_neg (by decide), show (c :: d :: rest).drop (Int.toNat 1) = d :: rest from rfl,
        berDeclen_printable (by simp) second]
      dsimp only
      rw [if_neg (by decide), if_neg (by decide), if_pos (by omega), if_pos (by simp; omega)]
    · -- the second octet ends the tag, the third is such a length
      rw [if_neg low, berDectagLoop, if_neg (by simp)]
      rw [if_neg (by omega), Option.map_some]
      dsimp only
      rw [if_neg (by decide)]
      cases rest with
      | nil => rfl
      | cons e rest =>
        have third := printable e (by simp)
        rw [show (c :: d :: e :: rest).drop (Int.toNat (((1 : Nat) : Int) + 1)) = e :: rest from rfl,
          berDeclen_printable (by simp; omega) third]
        dsimp only
        rw [if_neg (by decide), if_neg (by decide), if_pos (by omega), if_pos (by simp at short ⊢; omega)]

theorem completeBERn_of_switch (ber : looksLikeHttp b = false) (http : looksLikeHttp (b ++ t) = true) :
    completeBERn b 0 = 0 := by
  have short : b.length ≤ 5 := by
    by_contra long
    unfold looksLikeHttp at ber http
    rw [Bool.and_eq_true] at http
    rw [take_append_of_le_length (by omega)] at http
    rw [http.2, Bool.and_true, decide_eq_false_iff_not] at ber
    omega
  apply completeBERn_printable short
  intro c inside
  apply printable_of_looksLikeHttp http
  rw [take_append]
  exact mem_append_left _ inside

theorem csCompleteAutoX_http (http : looksLikeHttp b = true) :
    csCompleteAutoX b headOnly = (csCompleteHttp b headOnly).ret := by
  rw [csCompleteAutoX, if_pos http]

theorem csCompleteAutoX_ber (ber : looksLikeHttp b = false) :
    csCompleteAutoX b headOnly = completeBERn b 0 := by
  rw [csCompleteAutoX, ber]
  rfl

theorem Frame.complete_of_ret {frame : Frame} (positive : 0 < frame.ret) :
    ∃ r chunks, frame = .complete r chunks ∧ frame.ret = r := by
  cases frame with
  | incomplete => simp [ret] at positive
  | invalid => simp [ret] at positive
  | complete r chunks => exact ⟨r, chunks, rfl, rfl⟩

theorem Frame.invalid_of_ret {frame : Frame} (negative : frame.ret < 0) : frame = .invalid := by
  cases frame with
  | incomplete => simp [ret] at negative
  | invalid => rfl
  | complete => simp [ret] at negative; omega

theorem csCompleteAutoX_final (b t : List UInt8) (found : 0 < csCompleteAutoX b headOnly) :
    csCompleteAutoX b headOnly ≤ b.length ∧ csCompleteAutoX (b ++ t) headOnly = csCompleteAutoX b headOnly := by
  by_cases http : looksLikeHttp b = true
  · rw [csCompleteAutoX_http http] at found
    rw [csCompleteAutoX_http http, csCompleteAutoX_http (looksLikeHttp_append http)]
    obtain ⟨r, chunks, frame, -⟩ := Frame.complete_of_ret found
    obtain ⟨bound, -⟩ := csCompleteHttp_complete frame
    have longer : min b.length (r + 1) ≤ (b ++ t).length := by
      rw [length_append]
      omega
    rw [csCompleteHttp_agree frame ((agree_append b t).mono bound) (.inl longer), frame]
    exact ⟨by simpa [Frame.ret] using bound, rfl⟩
  · rw [Bool.not_eq_true] at http
    rw [csCompleteAutoX_ber http] at found ⊢
    have stands := (completeBERn_prefixStable 0 b t).accepted found
    by_cases switch : looksLikeHttp (b ++ t) = true
    · rw [completeBERn_of_switch http switch] at found
      omega
    · rw [Bool.not_eq_true] at switch
      rw [csCompleteAutoX_ber switch]
      exact stands

theorem csCompleteAutoX_rejected (b t : List UInt8) (failed : csCompleteAutoX b headOnly < 0) :
    csCompleteAutoX (b ++ t) headOnly < 0 ∨
      csCompleteAutoX (b ++ t) headOnly = 0 ∧ looksLikeHttp b = true ∧ CutMessage b t headOnly := by
  by_cases http : looksLikeHttp b = true
  · rw [csCompleteAutoX_http http] at failed
    rw [csCompleteAutoX_http (looksLikeHttp_append http)]
    rcases csCompleteHttp_invalid t (Frame.invalid_of_ret failed) with stays | ⟨flips, cut⟩
    · rw [stays]
      exact .inl (by decide)
    · rw [flips]
      exact .inr ⟨rfl, http, cut⟩
  · left
    rw [Bool.not_eq_true] at http
    rw [csCompleteAutoX_ber http] at failed
    have stands := (completeBERn_prefixStable 0 b t).rejected failed
    by_cases switch : looksLikeHttp (b ++ t) = true
    · rw [completeBERn_of_switch http switch] at failed
      omega
    · rw [Bool.not_eq_true] at switch
      rw [csCompleteAutoX_ber switch]
      exact stands

theorem looksLikeHttp_take
    (http : looksLikeHttp b = true) (read : csCompleteHttp b headOnly = .complete r chunks) : looksLikeHttp (b.take r) = true := by
  obtain ⟨bound, lines⟩ := csCompleteHttp_complete read
  have front : ((b.drop 2).take 2).count 10 = 0 := by
    rw [count_eq_zero]
    intro inside
    have early : 10 ∈ (b.take 4).drop 2 := by rwa [drop_take]
    have := printable_of_looksLikeHttp http (mem_of_mem_drop early)
    simp at this
  have long : 6 ≤ r := by
    have few := Nat.le_trans (count_le_length (a := (10 : UInt8))) (length_take_le (r - 2) (b.drop 2))
    have total := count_take_drop (b.drop 2) (show 2 ≤ r - 2 by omega)
    have rest := Nat.le_trans (count_le_length (a := (10 : UInt8)))
      (length_take_le (r - 2 - 2) ((b.drop 2).drop 2))
    omega
  unfold looksLikeHttp at http ⊢
  rw [Bool.and_eq_true] at http ⊢
  rw [take_take, Nat.min_eq_left (by omega), List.length_take, decide_eq_true_eq]
  exact ⟨by omega, http.2⟩

theorem csCompleteAutoX_whole (found : 0 < csCompleteAutoX b headOnly)
    (proper : ¬ (looksLikeHttp b = true ∧ BareMessage b headOnly)) :
    csCompleteAutoX (b.take (csCompleteAutoX b headOnly).toNat) headOnly = csCompleteAutoX b headOnly := by
  by_cases http : looksLikeHttp b = true
  · rw [csCompleteAutoX_http http] at found ⊢
    obtain ⟨r, chunks, frame, value⟩ := Frame.complete_of_ret found
    obtain ⟨bound, -⟩ := csCompleteHttp_complete frame
    rw [value, Int.toNat_natCast, csCompleteAutoX_http (looksLikeHttp_take http frame),
      csCompleteHttp_agree frame (agree_take bound) (.inr fun bare => proper ⟨http, bare⟩)]
    rfl
  · rw [Bool.not_eq_true] at http
    rw [csCompleteAutoX_ber http] at found ⊢
    have stands := (completeBERn_prefixStable 0 b []).whole (by simpa using found)
    rw [append_nil] at stands
    by_cases switch : looksLikeHttp (b.take (completeBERn b 0).toNat) = true
    · have := looksLikeHttp_append (t := b.drop (completeBERn b 0).toNat) switch
      rw [take_append_drop, http] at this
      simp at this
    · rw [Bool.not_eq_true] at switch
      rw [csCompleteAutoX_ber switch]
      exact stands

end

/-- What `cs_complete_auto` says of a buffer does not depend on how far the octets behind it have arrived, unless the limit is
reached in a header whose name is cut, or a message ends with the bare line ends of a `Transfer-Encoding`. -/
theorem csCompleteAuto_stableAt_iff (b t : List UInt8) :
    StableAt csCompleteAuto b t ↔
      ¬ (looksLikeHttp b = true ∧ CutMessage b t false) ∧ ¬ (looksLikeHttp (b ++ t) = true ∧ BareMessage (b ++ t) false) := by
  constructor
  · intro stable
    constructor
    · rintro ⟨http, cut⟩
      obtain ⟨stops, flips⟩ := cut.flips
      have still := stable.rejected
      rw [csCompleteAuto, csCompleteAuto, csCompleteAutoX_http http, csCompleteAutoX_http (looksLikeHttp_append http),
        stops, flips] at still
      exact absurd (still (by decide)) (by decide)
    · rintro ⟨http, bare⟩
      obtain ⟨r, chunks, read, cut⟩ := bare.flips
      have whole := stable.whole
      have positive : 2 ≤ r := by
        have lines := (csCompleteHttp_complete read).2
        have few := Nat.le_trans (count_le_length (a := (10 : UInt8))) (length_take_le (r - 2) ((b ++ t).drop 2))
        omega
      rw [csCompleteAuto, csCompleteAutoX_http http, read, Frame.ret, Int.toNat_natCast, csCompleteAuto,
        csCompleteAutoX_http (looksLikeHttp_take http read), cut] at whole
      have zero : (0 : Int) = r := whole (by omega)
      omega
  · rintro ⟨inside, proper⟩
    apply stableAt_of_final csCompleteAutoX_final
    · intro b t failed
      rcases csCompleteAutoX_rejected b t failed with stays | ⟨flips, -, -⟩
      · exact Int.le_of_lt stays
      · exact Int.le_of_eq flips
    · intro failed
      rcases csCompleteAutoX_rejected b t failed with stays | ⟨-, http, cut⟩
      · exact stays
      · exact absurd ⟨http, cut⟩ inside
    · intro found
      exact csCompleteAutoX_whole found proper

/-- The last octet of this message is only taken for its end when another one has arrived. -/
theorem not_stableAt_bareEnd :
    ¬ StableAt csCompleteAuto (ascii "GET / HTTP/1.0\nTransfer-Encoding: gzip\n\n") (ascii "G") := by
  intro stable
  have whole := stable.whole (by decide +kernel)
  revert whole
  decide +kernel

end Yaz.Comstack
