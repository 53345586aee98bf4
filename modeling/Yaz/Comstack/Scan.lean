import Yaz.Comstack.Complete

/-! What the scans of a message depend on.

Every scan depends on a front part of the octets only, once these are there.
-/

set_option autoImplicit false

variable {chunks : Option (List (List UInt8))}

namespace Yaz.Comstack
open List Yaz.Ber

/-! ### Buffers that agree on a front part -/

/-- Both have `n` octets, and these are the same. -/
structure Agree (n : Nat) (mem mem' : List UInt8) : Prop where
  inside : n ≤ mem.length
  same : mem'.take n = mem.take n

section
variable {n m : Nat} {mem mem' : List UInt8}

theorem Agree.inside' (agree : Agree n mem mem') : n ≤ mem'.length := by
  have length := congrArg List.length agree.same
  have := agree.inside
  rw [List.length_take, List.length_take] at length
  omega

theorem Agree.mono (agree : Agree n mem mem') (fewer : m ≤ n) : Agree m mem mem' where
  inside := Nat.le_trans fewer agree.inside
  same := by
    have front := congrArg (List.take m) agree.same
    rwa [take_take, take_take, Nat.min_eq_left fewer] at front

theorem Agree.take (agree : Agree n mem mem') (fewer : m ≤ n) : mem'.take m = mem.take m :=
  (agree.mono fewer).same

theorem Agree.drop (agree : Agree n mem mem') (k : Nat) : Agree (n - k) (mem.drop k) (mem'.drop k) where
  inside := by
    have := agree.inside
    rw [length_drop]
    omega
  same := by rw [← drop_take, ← drop_take, agree.same]

theorem Agree.head? (agree : Agree n mem mem') (positive : 0 < n) : mem'.head? = mem.head? := by
  have front := agree.take (show 1 ≤ n by omega)
  cases mem with
  | nil =>
    have := agree.inside
    simp only [length_nil] at this
    omega
  | cons =>
    cases mem' with
    | nil => simp at front
    | cons =>
      simp only [take_succ_cons, take_zero, List.cons.injEq, and_true] at front
      rw [front]
      rfl

theorem agree_append (mem t : List UInt8) : Agree mem.length mem (mem ++ t) where
  inside := Nat.le_refl _
  same := by rw [take_left, take_length]

theorem agree_take (fewer : n ≤ mem.length) : Agree n mem (mem.take n) where
  inside := fewer
  same := by rw [take_take, Nat.min_self]

theorem Agree.skipCrlf (agree : Agree n mem mem') (two : 2 ≤ n) : skipCrlf mem' = skipCrlf mem := by
  unfold Comstack.skipCrlf
  rw [agree.take two, agree.head? (by omega)]

theorem skipCrlf_le_length (mem : List UInt8) : skipCrlf mem ≤ mem.length := by
  unfold skipCrlf
  split
  next crlf =>
    have := congrArg List.length crlf
    rw [List.length_take] at this
    simp only [length_cons, length_nil] at this
    omega
  next =>
    split
    next lf =>
      cases mem with
      | nil => simp at lf
      | cons => simp
    · omega

theorem Agree.skipCrlf_of_found (agree : Agree n mem mem') (found : Comstack.skipCrlf mem ≠ 0)
    (there : Comstack.skipCrlf mem ≤ n) : Comstack.skipCrlf mem' = Comstack.skipCrlf mem := by
  by_cases two : 2 ≤ n
  · exact agree.skipCrlf two
  · -- a bare LF, and a buffer that may end there
    obtain rfl : n = 1 := by omega
    have head := agree.head? (by omega)
    unfold Comstack.skipCrlf at found there ⊢
    split at found
    next crlf => rw [if_pos crlf] at there; omega
    next notCrlf =>
      split at found
      next lf =>
        rw [if_neg notCrlf, if_pos lf, if_neg, if_pos (head.trans lf)]
        intro crlf
        rw [lf] at head
        cases mem' with
        | nil => simp at crlf
        | cons =>
          simp only [head?_cons, Option.some.injEq] at head
          rw [head] at crlf
          simp at crlf
      · exact absurd rfl found

end

section
variable {base n v i j val k : Nat} {mem mem' : List UInt8}

theorem Agree.cons {c : UInt8} {rest : List UInt8} (agree : Agree (n + 1) (c :: rest) mem') :
    ∃ rest', mem' = c :: rest' ∧ Agree n rest rest' := by
  cases mem' with
  | nil => simpa using agree.inside'
  | cons _ rest' =>
    have same := agree.same
    have inside := agree.inside
    simp only [take_succ_cons, List.cons.injEq] at same
    exact ⟨rest', by rw [same.1], by simpa using inside, same.2⟩

theorem yazAtoul_agree (read : yazAtoul base mem i val = some (j, v)) :
    i ≤ j ∧ j - i ≤ mem.length ∧ ∀ mem', Agree (j - i + 1) mem mem' → yazAtoul base mem' i val = some (j, v) := by
  induction mem generalizing i val with
  | nil =>
    obtain ⟨rfl, rfl⟩ := read
    refine ⟨Nat.le_refl _, by simp, fun mem' agree => ?_⟩
    have := agree.inside
    simp at this
  | cons _ _ ih =>
    rw [yazAtoul] at read
    split at read
    next noDigit =>
      obtain ⟨rfl, rfl⟩ := read
      refine ⟨Nat.le_refl _, by simp, fun mem' agree => ?_⟩
      obtain ⟨rest', rfl, -⟩ := agree.cons
      rw [yazAtoul, noDigit]
    next digit isDigit =>
      split at read
      next large =>
        obtain ⟨rfl, rfl⟩ := read
        refine ⟨Nat.le_refl _, by simp, fun mem' agree => ?_⟩
        obtain ⟨rest', rfl, -⟩ := agree.cons
        rw [yazAtoul, isDigit]
        dsimp only
        rw [if_pos large]
      next small =>
        split at read
        · simp at read
        next fits =>
          obtain ⟨later, inside, local'⟩ := ih read
          refine ⟨by omega, by rw [length_cons]; omega, fun mem' agree => ?_⟩
          obtain ⟨rest', rfl, agrees⟩ := agree.cons
          rw [yazAtoul, isDigit]
          dsimp only
          rw [if_neg small, if_neg fits]
          exact local' rest' (agrees.mono (by omega))

theorem yazAtoi_agree (read : yazAtoi base mem = some (n, v)) :
    n ≤ mem.length ∧ v ≤ intMax ∧ ∀ mem', Agree (n + 1) mem mem' → yazAtoi base mem' = some (n, v) := by
  unfold yazAtoi at read
  split at read
  · simp at read
  next ret value scan =>
    split at read
    · simp at read
    next small =>
      obtain ⟨rfl, rfl⟩ := read
      obtain ⟨-, inside, local'⟩ := yazAtoul_agree scan
      refine ⟨by omega, by omega, fun mem' agree => ?_⟩
      rw [yazAtoi, local' mem' agree]
      dsimp only
      rw [if_neg small]

theorem yazAtoul_append (positive : 1 ≤ base) (mem t : List UInt8) (i val : Nat) :
    match yazAtoul base mem i val with
    | none => yazAtoul base (mem ++ t) i val = none
    | some (_, v) => yazAtoul base (mem ++ t) i val = none ∨ ∃ j' v', yazAtoul base (mem ++ t) i val = some (j', v') ∧ v ≤ v' := by
  induction mem generalizing i val with
  | nil =>
    simp only [yazAtoul, nil_append]
    induction t generalizing i val with
    | nil => exact .inr ⟨i, val, rfl, Nat.le_refl _⟩
    | cons _ _ ih =>
      rw [yazAtoul]
      split
      · exact .inr ⟨i, val, rfl, Nat.le_refl _⟩
      · split
        · exact .inr ⟨i, val, rfl, Nat.le_refl _⟩
        · split
          · exact .inl rfl
          next digit _ _ _ =>
            rcases ih (i + 1) (val * base + digit) with failed | ⟨j', v', read, larger⟩
            · exact .inl failed
            · refine .inr ⟨j', v', read, ?_⟩
              have := Nat.le_mul_of_pos_right val positive
              omega
  | cons c _ ih =>
    rw [cons_append, yazAtoul, yazAtoul]
    cases digitValue c with
    | none => exact .inr ⟨i, val, rfl, Nat.le_refl _⟩
    | some digit =>
      dsimp only
      by_cases large : base ≤ digit
      · rw [if_pos large, if_pos large]
        exact .inr ⟨i, val, rfl, Nat.le_refl _⟩
      · rw [if_neg large, if_neg large]
        by_cases overflows : (ulongMax - digit) / base < val
        · rw [if_pos overflows, if_pos overflows]
        · rw [if_neg overflows, if_neg overflows]
          exact ih _ _

theorem yazAtoi_append_of_none (positive : 1 ≤ base) (t : List UInt8) (failed : yazAtoi base mem = none) :
    yazAtoi base (mem ++ t) = none := by
  have grows := yazAtoul_append positive mem t 0 0
  unfold yazAtoi at failed ⊢
  split at failed
  next overflow =>
    rw [overflow] at grows
    rw [grows]
  next ret value scan =>
    rw [scan] at grows
    split at failed
    next large =>
      rcases grows with overflow | ⟨j', v', read, larger⟩
      · rw [overflow]
      · rw [read]
        dsimp only
        rw [if_pos (by omega)]
    · simp at failed

end

section
variable {n : Nat} {mem : List UInt8}

theorem chunkLine_agree (found : chunkLine mem = some n) :
    1 ≤ n ∧ n ≤ mem.length ∧ ∀ mem', Agree (n + 1) mem mem' → chunkLine mem' = some n := by
  induction mem generalizing n with
  | nil => simp [chunkLine] at found
  | cons _ rest ih =>
    rw [chunkLine] at found
    split at found
    · simp at found
    next more =>
      split at found
      next ended =>
        obtain rfl := Option.some.inj found
        refine ⟨by omega, skipCrlf_le_length _, fun mem' agree => ?_⟩
        have same := agree.skipCrlf (by omega)
        obtain ⟨rest', rfl, -⟩ := agree.cons
        have inside := agree.inside'
        rw [chunkLine, if_neg (by rintro rfl; simp at inside; omega), same, if_pos ended]
      next goesOn =>
        rw [Option.map_eq_some_iff] at found
        obtain ⟨m, later, rfl⟩ := found
        obtain ⟨positive, inside, local'⟩ := ih later
        refine ⟨by omega, by rw [length_cons]; omega, fun mem' agree => ?_⟩
        have same := agree.skipCrlf (by omega)
        obtain ⟨rest', rfl, agrees⟩ := agree.cons
        have inside' := agrees.inside'
        rw [chunkLine, if_neg (by rintro rfl; simp at inside'), same, if_neg goesOn, local' rest' agrees]
        rfl

theorem chunkLine_append (t : List UInt8) (found : chunkLine mem = some n) : chunkLine (mem ++ t) = some n := by
  induction mem generalizing n with
  | nil => simp [chunkLine] at found
  | cons c rest ih =>
    rw [chunkLine] at found
    split at found
    · simp at found
    next more =>
      have two : 1 ≤ rest.length := length_pos_iff.mpr more
      have same := (agree_append (c :: rest) t).skipCrlf (by rw [length_cons]; omega)
      rw [cons_append] at same ⊢
      rw [chunkLine, if_neg (by simp [more]), same]
      split at found
      next ended =>
        rw [if_pos ended]
        exact found
      next goesOn =>
        rw [Option.map_eq_some_iff] at found
        obtain ⟨m, later, rfl⟩ := found
        rw [if_neg goesOn, ih later]
        rfl

theorem trailers_agree (found : trailers mem = some n) :
    2 ≤ n ∧ n ≤ mem.length ∧ ∀ mem', Agree n mem mem' → trailers mem' = some n := by
  fun_induction trailers mem generalizing n with
  | case1 => simp at found
  | case2 c rest ended again =>
    obtain rfl := Option.some.inj found
    have inside := skipCrlf_le_length ((c :: rest).drop (skipCrlf (c :: rest)))
    rw [length_drop] at inside
    refine ⟨by omega, by omega, fun mem' agree => ?_⟩
    have same := agree.skipCrlf_of_found ended (by omega)
    have next := (agree.drop (skipCrlf (c :: rest))).skipCrlf_of_found again (by omega)
    obtain ⟨rest', rfl, -⟩ := (agree.mono (show 0 + 1 ≤ _ by omega)).cons
    rw [trailers, same, if_pos ended, next, if_pos again]
  | case3 c rest ended goesOn ih =>
    rw [Option.map_eq_some_iff] at found
    obtain ⟨m, later, rfl⟩ := found
    obtain ⟨two, inside, local'⟩ := ih later
    rw [length_drop] at inside
    refine ⟨by omega, by omega, fun mem' agree => ?_⟩
    have same := agree.skipCrlf_of_found ended (by omega)
    have agrees := agree.drop (skipCrlf (c :: rest))
    have next := agrees.skipCrlf (by omega)
    obtain ⟨rest', rfl, -⟩ := (agree.mono (show 0 + 1 ≤ _ by omega)).cons
    rw [trailers, same, if_pos ended, next, if_neg goesOn, local' _ (agrees.mono (by omega))]
    rfl
  | case4 c rest goesOn ih =>
    rw [Option.map_eq_some_iff] at found
    obtain ⟨m, later, rfl⟩ := found
    obtain ⟨two, inside, local'⟩ := ih later
    refine ⟨by omega, by rw [length_cons]; omega, fun mem' agree => ?_⟩
    have same := agree.skipCrlf (by omega)
    obtain ⟨rest', rfl, agrees⟩ := agree.cons
    rw [trailers, same, if_neg goesOn, local' rest' agrees]
    rfl

theorem csReadChunks_agree {i r : Nat} {bodies : List (List UInt8)}
    (read : csReadChunks mem i bodies = .complete r chunks) :
    i + 3 ≤ r ∧ r ≤ i + mem.length ∧ ∀ mem', Agree (r - i) mem mem' → csReadChunks mem' i bodies = .complete r chunks := by
  fun_induction csReadChunks mem i bodies with
  | case5 mem i bodies nonempty ret positive n ended scan =>
    obtain ⟨rfl, rfl⟩ := read
    obtain ⟨digits, -, sizeLocal⟩ := yazAtoi_agree scan
    obtain ⟨two, inside, endLocal⟩ := trailers_agree ended
    rw [length_drop] at inside
    refine ⟨by omega, by omega, fun mem' agree => ?_⟩
    have inside' := agree.inside'
    rw [csReadChunks, if_neg (by rintro rfl; simp at inside'; omega), sizeLocal _ (agree.mono (by omega))]
    dsimp only
    rw [if_neg positive, if_pos rfl, endLocal _ ((agree.drop ret).mono (by omega))]
  | case6 => simp at read
  | case7 => simp at read
  | case8 => simp at read
  | case9 => simp at read
  | case10 mem i bodies nonempty ret chunkLen scan positive notLast n line fits body rest enough closed ih =>
    obtain ⟨digits, -, sizeLocal⟩ := yazAtoi_agree scan
    obtain ⟨least, inside, lineLocal⟩ := chunkLine_agree line
    obtain ⟨three, bound, local'⟩ := ih read
    have total : rest.length = mem.length - (ret + n) - chunkLen := by
      rw [length_drop, length_drop]
    rw [length_drop] at inside bound
    refine ⟨by omega, by omega, fun mem' agree => ?_⟩
    have inside' := agree.inside'
    have bodyAgrees := agree.drop (ret + n)
    have restAgrees := bodyAgrees.drop chunkLen
    have sameEnd := restAgrees.skipCrlf (by omega)
    rw [csReadChunks, if_neg (by rintro rfl; simp at inside'; omega), sizeLocal _ (agree.mono (by omega))]
    dsimp only
    rw [if_neg positive, if_neg notLast, lineLocal _ ((agree.drop ret).mono (by omega))]
    dsimp only
    rw [if_neg fits, if_neg (by have := restAgrees.inside'; omega), sameEnd, if_neg closed,
      bodyAgrees.take (by omega)]
    exact local' _ ((restAgrees.drop _).mono (by omega))
  | _ => simp at read

theorem csReadChunks_invalid {i : Nat} {bodies : List (List UInt8)} (t : List UInt8)
    (read : csReadChunks mem i bodies = .invalid) : csReadChunks (mem ++ t) i bodies = .invalid := by
  fun_induction csReadChunks mem i bodies with
  | case1 => simp at read
  | case2 mem i bodies nonempty failed =>
    rw [csReadChunks, if_neg (by simp [nonempty]), yazAtoi_append_of_none (by decide) t failed]
  | case3 mem i bodies nonempty value scan =>
    obtain ⟨-, -, sizeLocal⟩ := yazAtoi_agree scan
    have positive := length_pos_iff.mpr nonempty
    rw [csReadChunks, if_neg (by simp [nonempty]), sizeLocal _ ((agree_append mem t).mono (by omega))]
    rfl
  | case7 mem i bodies nonempty ret chunkLen scan positive notLast n line large =>
    obtain ⟨digits, -, sizeLocal⟩ := yazAtoi_agree scan
    obtain ⟨least, inside, -⟩ := chunkLine_agree line
    rw [length_drop] at inside
    rw [csReadChunks, if_neg (by simp [nonempty]), sizeLocal _ ((agree_append mem t).mono (by omega))]
    dsimp only
    rw [if_neg positive, if_neg notLast, drop_append_of_le_length (by omega), chunkLine_append t line]
    dsimp only
    rw [if_pos large]
  | case8 => simp at read
  | case9 => simp at read
  | case10 mem i bodies nonempty ret chunkLen scan positive notLast n line fits body rest enough closed ih =>
    obtain ⟨digits, -, sizeLocal⟩ := yazAtoi_agree scan
    obtain ⟨least, inside, -⟩ := chunkLine_agree line
    have total : rest.length = mem.length - (ret + n) - chunkLen := by
      rw [length_drop, length_drop]
    have closing := skipCrlf_le_length rest
    have bodyMore : (mem ++ t).drop (ret + n) = body ++ t := drop_append_of_le_length (by omega)
    have restMore : (body ++ t).drop chunkLen = rest ++ t :=
      drop_append_of_le_length (by rw [length_drop]; omega)
    rw [csReadChunks, if_neg (by simp [nonempty]), sizeLocal _ ((agree_append mem t).mono (by omega))]
    dsimp only
    rw [if_neg positive, if_neg notLast, drop_append_of_le_length (by omega), chunkLine_append t line]
    dsimp only
    rw [if_neg fits, bodyMore, restMore, if_neg (by rw [length_append]; omega),
      (agree_append rest t).skipCrlf (by omega), if_neg closed, drop_append_of_le_length closing,
      take_append_of_le_length (by rw [length_drop]; omega)]
    exact ih read
  | _ => simp at read

end

section
variable {n : Nat} {mem mem' : List UInt8}

theorem Agree.hasPrefix (agree : Agree n mem mem') {text : List UInt8} (inside : text.length ≤ n) :
    hasPrefix text mem' = hasPrefix text mem := by
  unfold Comstack.hasPrefix
  rw [agree.take inside]

theorem Agree.spaces (agree : Agree n mem mem') (inside : Comstack.spaces mem < n) :
    Comstack.spaces mem' = Comstack.spaces mem := by
  unfold Comstack.spaces at inside ⊢
  induction mem generalizing n mem' with
  | nil => simpa using agree.inside.trans_lt' inside
  | cons _ _ ih =>
    obtain ⟨n, rfl⟩ : ∃ fewer, n = fewer + 1 := ⟨n - 1, by omega⟩
    obtain ⟨rest', rfl, agrees⟩ := agree.cons
    rw [takeWhile_cons] at inside ⊢
    rw [takeWhile_cons]
    split
    next blank =>
      rw [if_pos blank, length_cons] at inside
      rw [length_cons, length_cons, ih agrees (by omega)]
    · rfl

theorem encodingValue_spec {token : List UInt8} {k j : Nat} {chunked chunked' : Bool}
    (found : encodingValue token mem k chunked = some (j, chunked')) :
    k ≤ j ∧ j - k + 3 ≤ mem.length ∧ skipCrlf (mem.drop (j - k)) ≠ 0 ∧ ∀ p < j - k, skipCrlf (mem.drop p) = 0 := by
  induction mem generalizing k chunked with
  | nil => simp [encodingValue] at found
  | cons _ _ ih =>
    rw [encodingValue] at found
    split at found
    · simp at found
    next three =>
      split at found
      next ended =>
        obtain ⟨rfl, -⟩ := found
        rw [Nat.sub_self]
        exact ⟨Nat.le_refl _, by omega, ended, by simp⟩
      next goesOn =>
        obtain ⟨later, inside, ended, before⟩ := ih found
        obtain ⟨d, rfl⟩ : ∃ d, j = k + 1 + d := ⟨j - (k + 1), by omega⟩
        rw [show k + 1 + d - (k + 1) = d by omega] at inside ended before
        rw [show k + 1 + d - k = d + 1 by omega]
        refine ⟨by omega, by rw [length_cons]; omega, ended, fun p below => ?_⟩
        cases p with
        | zero => simpa using goesOn
        | succ p => exact before p (by omega)

theorem encodingValue_agree {token token' : List UInt8} {k j : Nat} {chunked chunked' : Bool}
    (found : encodingValue token mem k chunked = some (j, chunked')) (agree : Agree (j - k + 2) mem mem')
    (longer : j - k + 3 ≤ mem'.length) (tokens : 7 ≤ j → hasPrefix (ascii "chunked") token' = hasPrefix (ascii "chunked") token) :
    encodingValue token' mem' k chunked = some (j, chunked') := by
  induction mem generalizing k chunked mem' with
  | nil => simp [encodingValue] at found
  | cons _ _ ih =>
    have bounds := encodingValue_spec found
    have same := agree.skipCrlf (by omega)
    obtain ⟨rest', rfl, agrees⟩ := agree.cons
    have flag : (chunked || (decide (k = 7) && hasPrefix (ascii "chunked") token')) =
        (chunked || (decide (k = 7) && hasPrefix (ascii "chunked") token)) := by
      by_cases seven : k = 7
      · rw [tokens (by omega)]
      · simp [seven]
    rw [encodingValue] at found ⊢
    split at found
    · simp at found
    next three =>
      rw [if_neg (by omega)]
      rw [same, flag]
      split at found
      next ended =>
        rw [if_pos ended]
        exact found
      next goesOn =>
        rw [if_neg goesOn]
        have later := (encodingValue_spec found).1
        obtain ⟨d, rfl⟩ : ∃ d, j = k + 1 + d := ⟨j - (k + 1), by omega⟩
        rw [show k + 1 + d - k = d + 1 by omega] at agrees longer
        refine ih found (agrees.mono (by omega)) ?_
        rw [length_cons] at longer
        omega

theorem not_mem_of_hasPrefix {text : List UInt8} (plain : 10 ∉ text.map toLower) (found : hasPrefix text mem = true) :
    10 ∉ mem.take text.length := by
  intro inside
  apply plain
  rw [← of_decide_eq_true found]
  exact mem_map.mpr ⟨10, inside, by decide⟩

theorem plain_transferEncoding : (10 : UInt8) ∉ (ascii "Transfer-Encoding:").map toLower := by rw [ascii_ofList]; decide

theorem plain_contentLength : (10 : UInt8) ∉ (ascii "Content-Length:").map toLower := by rw [ascii_ofList]; decide

theorem not_both_prefixes (found : hasPrefix (ascii "Content-Length:") mem = true) :
    hasPrefix (ascii "Transfer-Encoding:") mem = false := by
  cases mem with
  | nil => rfl
  | cons =>
    unfold hasPrefix at found ⊢
    rw [decide_eq_true_eq] at found
    rw [decide_eq_false_iff_not]
    intro other
    have first := congrArg List.head? found
    have second := congrArg List.head? other
    have lengths : (ascii "Content-Length:").length = 15 ∧ (ascii "Transfer-Encoding:").length = 18 := by
      rw [ascii_ofList, ascii_ofList]; decide
    rw [lengths.1, take_succ_cons, map_cons, head?_cons] at first
    rw [lengths.2, take_succ_cons, map_cons, head?_cons] at second
    rw [first] at second
    exact absurd second (by decide)

end

section
variable {headOnly chunked : Bool} {mem : List UInt8} {i : Nat} {contentLen : Int}

theorem httpLoop_skip (two : 2 ≤ mem.length) (limit : i ≤ 8192) (none : skipCrlf mem = 0) :
    httpLoop headOnly mem i chunked contentLen = httpLoop headOnly (mem.drop 1) (i + 1) chunked contentLen := by
  rw [httpLoop, if_neg (by omega), if_neg (by omega)]
  rw [if_pos none]

variable {line : List UInt8}

theorem httpLoop_blank (two : 2 ≤ mem.length) (limit : i ≤ 8192) (ended : skipCrlf mem ≠ 0)
    (isLine : mem.drop (skipCrlf mem) = line) (blank : skipCrlf line ≠ 0) :
    httpLoop headOnly mem i chunked contentLen =
      frameContent (line.drop (skipCrlf line)) (i + skipCrlf mem + skipCrlf line) headOnly chunked contentLen := by
  rw [httpLoop, if_neg (by omega), if_neg (by omega)]
  rw [if_neg ended, isLine, if_pos blank]

theorem httpLoop_encoding (two : 2 ≤ mem.length) (limit : i ≤ 8192) (ended : skipCrlf mem ≠ 0)
    (isLine : mem.drop (skipCrlf mem) = line) (header : skipCrlf line = 0) (long : 19 < line.length)
    (named : hasPrefix (ascii "Transfer-Encoding:") line) {value : List UInt8}
    (isValue : line.drop (18 + spaces (line.drop 18)) = value) {k : Nat} {chunked' : Bool}
    (found : encodingValue value value 0 chunked = some (k, chunked')) :
    httpLoop headOnly mem i chunked contentLen =
      httpLoop headOnly (value.drop k) (i + skipCrlf mem + 18 + spaces (line.drop 18) + k) chunked' contentLen := by
  rw [httpLoop, if_neg (by omega), if_neg (by omega)]
  dsimp only
  rw [if_neg ended, isLine, if_neg (not_not.mpr header), if_pos ⟨long, named⟩, isValue, found]

theorem httpLoop_length (two : 2 ≤ mem.length) (limit : i ≤ 8192) (ended : skipCrlf mem ≠ 0)
    (isLine : mem.drop (skipCrlf mem) = line) (header : skipCrlf line = 0) (long : 16 < line.length)
    (named : hasPrefix (ascii "Content-Length:") line) {value : List UInt8}
    (isValue : line.drop (15 + spaces (line.drop 15)) = value) (given : value ≠ []) {noRead len : Nat}
    (found : yazAtoi 10 value = some (noRead, len)) (digits : noRead ≠ 0) :
    httpLoop headOnly mem i chunked contentLen =
      httpLoop headOnly (value.drop noRead) (i + skipCrlf mem + 15 + spaces (line.drop 15) + noRead) chunked len := by
  have other := not_both_prefixes named
  rw [httpLoop, if_neg (by omega), if_neg (by omega)]
  rw [if_neg ended, isLine, if_neg (not_not.mpr header), if_neg (by simp [other]), if_pos ⟨long, named⟩, isValue,
    if_neg given, found]
  dsimp only
  rw [if_neg digits]

theorem httpLoop_other (two : 2 ≤ mem.length) (limit : i ≤ 8192) (ended : skipCrlf mem ≠ 0)
    (isLine : mem.drop (skipCrlf mem) = line) (header : skipCrlf line = 0)
    (notEncoding : ¬ (19 < line.length ∧ hasPrefix (ascii "Transfer-Encoding:") line))
    (notLength : ¬ (16 < line.length ∧ hasPrefix (ascii "Content-Length:") line)) :
    httpLoop headOnly mem i chunked contentLen =
      httpLoop headOnly (line.drop 1) (i + skipCrlf mem + 1) chunked contentLen := by
  rw [httpLoop, if_neg (by omega), if_neg (by omega)]
  rw [if_neg ended, isLine, if_neg (not_not.mpr header), if_neg notEncoding, if_neg notLength]

end

theorem count_take_drop (mem : List UInt8) {k n : Nat} (fewer : k ≤ n) :
    (mem.take k).count 10 + ((mem.drop k).take (n - k)).count 10 = (mem.take n).count 10 := by
  rw [← count_append, ← drop_take]
  congr 1
  conv_rhs => rw [← take_append_drop k (mem.take n), take_take, Nat.min_eq_left fewer]

theorem count_take_skipCrlf {mem : List UInt8} (found : skipCrlf mem ≠ 0) : (mem.take (skipCrlf mem)).count 10 = 1 := by
  unfold skipCrlf at found ⊢
  split at found
  next crlf =>
    rw [if_pos crlf, crlf]
    decide
  next notCrlf =>
    split at found
    next lf =>
      rw [if_neg notCrlf, if_pos lf]
      cases mem with
      | nil => simp at lf
      | cons =>
        simp only [head?_cons, Option.some.injEq] at lf
        rw [lf]
        rfl
    · exact absurd rfl found

theorem frameContent_agree {mem : List UInt8} {i r : Nat} {headOnly chunked : Bool} {contentLen : Int}
    (read : frameContent mem i headOnly chunked contentLen = .complete r chunks) :
    i ≤ r ∧ r ≤ i + mem.length ∧
      ∀ mem', Agree (r - i) mem mem' → frameContent mem' i headOnly chunked contentLen = .complete r chunks := by
  unfold frameContent at read ⊢
  split at read
  next isHead =>
    obtain ⟨rfl, rfl⟩ := read
    exact ⟨Nat.le_refl _, by omega, fun mem' _ => by rw [if_pos isHead]⟩
  next notHead =>
    split at read
    next isChunked =>
      obtain ⟨least, most, local'⟩ := csReadChunks_agree read
      refine ⟨by omega, most, fun mem' agree => ?_⟩
      rw [if_neg notHead, if_pos isChunked]
      exact local' mem' agree
    next notChunked =>
      split at read
      · simp at read
      next known =>
        split at read
        · simp at read
        next fits =>
          split at read
          next enough =>
            obtain ⟨rfl, rfl⟩ := read
            refine ⟨by omega, by omega, fun mem' agree => ?_⟩
            have := agree.inside'
            rw [if_neg notHead, if_neg notChunked, if_neg known, if_neg fits, if_pos (by omega)]
          · simp at read

end Yaz.Comstack
