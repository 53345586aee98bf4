import Yaz.Ber.Values
import Yaz.Foundation.PrefixStable

/-! The elements that `completeBER_n` delimits.

An element of definite length is taken as a whole; only the contents of elements of
indefinite length are looked into.
-/

set_option autoImplicit false

namespace Yaz.Ber
open List Yaz.Foundation

/-- Identifier octets: `ber_dectag` reads them as `found`, whatever follows. -/
structure Identifies (octets : List UInt8) (found : BerTag) : Prop where
  nonempty : octets ≠ []
  read : ∀ rest max other, (octets.length : Int) ≤ max →
    berDectag (octets ++ rest) max other = some ((octets.length : Int), other.reading found)

variable {mem : List UInt8}

theorem Identifies.of_berDectag {max res : Int} {cache found : BerTag}
    (h : berDectag mem max cache = some (res, found)) (positive : 0 < res) :
    ∃ octets rest, mem = octets ++ rest ∧ res = octets.length ∧ res ≤ max ∧ Identifies octets found := by
  obtain ⟨used, rest, rfl, rfl, room, stable, -⟩ := berDectag_append h positive
  refine ⟨used, rest, rfl, rfl, room, ?_, stable⟩
  rw [← length_pos_iff]
  omega

/-- Complete elements in which those of indefinite length nest less than `levels` deep. -/
inductive Element : Nat → List UInt8 → Prop where
  | definite {levels : Nat} {identifier length contents : List UInt8} {found : BerTag}
      (identifies : Identifies identifier found) (declares : Declares length contents.length)
      (begins : (identifier ++ length ++ contents).take 2 ≠ [0, 0]) :
      Element (levels + 1) (identifier ++ length ++ contents)
  | indefinite {levels : Nat} {identifier length : List UInt8} {found : BerTag} {children : List (List UInt8)}
      (identifies : Identifies identifier found) (constructed : found.lcons ≠ 0) (declares : Declares length (-1))
      (begins : (identifier ++ length).take 2 ≠ [0, 0]) (each : ∀ child ∈ children, Element levels child) :
      Element (levels + 1) (identifier ++ length ++ children.flatten ++ [0, 0])

variable {levels : Nat} {octets : List UInt8}

theorem Element.length (element : Element levels octets) : 2 ≤ octets.length := by
  cases element with
  | definite identifies declares =>
    have first := length_pos_iff.mpr identifies.nonempty
    have second := length_pos_iff.mpr declares.nonempty
    simp only [length_append]
    omega
  | indefinite =>
    simp only [length_append, length_cons]
    omega

theorem Element.take_two (element : Element levels octets) (rest : List UInt8) :
    (octets ++ rest).take 2 ≠ [0, 0] := by
  have length := element.length
  rw [take_append_of_le_length length]
  cases element with
  | definite _ _ begins => exact begins
  | indefinite identifies _ declares begins =>
    have first := length_pos_iff.mpr identifies.nonempty
    have second := length_pos_iff.mpr declares.nonempty
    rw [append_assoc, take_append_of_le_length (by rw [length_append]; omega)]
    exact begins

variable {child : List UInt8 → Int}

theorem completeChildren_elements {children : List (List UInt8)}
    (each : ∀ octets ∈ children, 2 ≤ octets.length ∧ ∀ rest, (octets ++ rest).take 2 ≠ [0, 0] ∧
      child (octets ++ rest) = octets.length)
    (rest : List UInt8) {rounds : Nat} (enough : children.length < rounds) (consumed : Nat) :
    completeChildren child rounds (children.flatten ++ 0 :: 0 :: rest) consumed =
      ((consumed + children.flatten.length + 2 : Nat) : Int) := by
  induction children generalizing rounds consumed with
  | nil =>
    obtain ⟨rounds, rfl⟩ : ∃ fewer, rounds = fewer + 1 := ⟨rounds - 1, by omega⟩
    simp [completeChildren]
  | cons first others ih =>
    obtain ⟨rounds, rfl⟩ : ∃ fewer, rounds = fewer + 1 := ⟨rounds - 1, by omega⟩
    obtain ⟨long, accepted⟩ := each first (mem_cons_self ..)
    rw [flatten_cons, append_assoc]
    obtain ⟨begins, found⟩ := accepted (others.flatten ++ 0 :: 0 :: rest)
    rw [completeChildren, if_neg (by rw [length_append]; omega), if_neg begins, found, if_neg (by omega),
      Int.toNat_natCast, drop_left,
      ih (fun octets inside => each octets (mem_cons_of_mem _ inside)) (by simpa using enough)]
    rw [length_append]
    push_cast
    omega

theorem flatten_length_le {children : List (List UInt8)} (each : ∀ octets ∈ children, 2 ≤ octets.length) :
    children.length ≤ children.flatten.length := by
  induction children with
  | nil => simp
  | cons first _ ih =>
    have long := each first (mem_cons_self ..)
    have later := ih fun octets inside => each octets (mem_cons_of_mem _ inside)
    rw [flatten_cons, length_append, length_cons]
    omega

theorem completeBERWithin_header {identifier length body : List UInt8} {found : BerTag} {len : Int}
    (identifies : Identifies identifier found) (declares : Declares length len)
    (begins : (identifier ++ length ++ body).take 2 ≠ [0, 0]) (levels : Nat) :
    completeBERWithin (levels + 1) (identifier ++ length ++ body) =
      if 0 ≤ len then if body.length < len.toNat then 0 else len + (identifier ++ length).length
      else if found.lcons = 0 then -1
      else completeChildren (completeBERWithin levels) body.length body (identifier ++ length).length := by
  have first := length_pos_iff.mpr identifies.nonempty
  have second := length_pos_iff.mpr declares.nonempty
  rw [completeBERWithin, if_neg (by simp only [length_append]; omega), if_neg begins]
  rw [append_assoc, identifies.read _ _ _ (by simp only [length_append]; omega)]
  dsimp only
  rw [if_neg (by omega), Int.toNat_natCast, drop_left,
    declares.read _ _ (by simp only [length_append]; omega)]
  dsimp only
  rw [if_neg (by omega), if_neg (by omega), Int.toNat_natCast, ← length_append, ← append_assoc,
    drop_left]
  rfl

theorem completeBERWithin_element (element : Element levels octets)
    (rest : List UInt8) : completeBERWithin levels (octets ++ rest) = octets.length := by
  induction element generalizing rest with
  | @definite levels identifier length contents found identifies declares begins =>
    have whole := (show Element (levels + 1) _ from .definite identifies declares begins).take_two rest
    rw [append_assoc] at whole ⊢
    rw [completeBERWithin_header identifies declares whole, if_pos (by omega), Int.toNat_natCast,
      if_neg (by rw [length_append]; omega)]
    simp only [length_append]
    push_cast
    omega
  | @indefinite levels identifier length found children identifies constructed declares begins each ih =>
    have whole := (Element.indefinite identifies constructed declares begins each).take_two rest
    have long : ∀ octets ∈ children, 2 ≤ octets.length := fun octets inside => (each octets inside).length
    rw [append_assoc, append_assoc] at whole ⊢
    rw [completeBERWithin_header identifies declares whole, if_neg (by omega), if_neg constructed,
      cons_append, cons_append, nil_append,
      completeChildren_elements (fun octets inside => ⟨long octets inside, fun rest =>
        ⟨(each octets inside).take_two rest, ih octets inside rest⟩⟩)]
    · simp only [length_append, length_cons, length_nil]
    · have := flatten_length_le long
      simp only [length_append, length_cons]
      omega

variable {b : List UInt8}

theorem elements_of_completeChildren (sound : ∀ b, 0 < child b → ∃ octets rest, b = octets ++ rest ∧ child b = octets.length ∧
    Element levels octets)
    {rounds : Nat} {consumed : Nat} (accepted : 0 < completeChildren child rounds b consumed) :
    ∃ (children : List (List UInt8)) (rest : List UInt8), b = children.flatten ++ 0 :: 0 :: rest ∧
      (∀ octets ∈ children, Element levels octets) ∧
      completeChildren child rounds b consumed = ((consumed + children.flatten.length + 2 : Nat) : Int) := by
  induction rounds generalizing b consumed with
  | zero => simp [completeChildren] at accepted
  | succ _ ih =>
    rw [completeChildren] at accepted ⊢
    split at accepted
    · omega
    next enough =>
      rw [if_neg enough]
      split at accepted
      next ended =>
        rw [if_pos ended]
        refine ⟨[], b.drop 2, ?_, by simp, by simp⟩
        conv_lhs => rw [← take_append_drop 2 b, ended]
        rfl
      next goesOn =>
        rw [if_neg goesOn]
        split at accepted
        · omega
        next progress =>
          rw [if_neg progress]
          obtain ⟨octets, rest, rfl, length, element⟩ := sound b (by omega)
          rw [length, Int.toNat_natCast, drop_left] at accepted ⊢
          obtain ⟨children, rest', rfl, each, value⟩ := ih accepted
          refine ⟨octets :: children, rest', by simp, ?_, ?_⟩
          · intro other inside
            rcases mem_cons.mp inside with rfl | inside
            · exact element
            · exact each other inside
          · rw [value, flatten_cons, length_append]
            push_cast
            omega

theorem Declares.le {len : Int} (declares : Declares octets len) : -1 ≤ len := by
  obtain ⟨-, -, -, -, -, -, -, least, -⟩ := berDeclen_append (declares.read [] octets.length (Int.le_refl _)) (by omega)
  exact least

theorem berDeclen_cases {max n len : Int} (read : berDeclen mem max = some (n, len)) :
    n = -2 ∨ n = -1 ∨ 1 ≤ n := by
  unfold berDeclen at read
  split at read
  · simp only [Option.some.injEq, Prod.mk.injEq] at read
    omega
  · cases mem with
    | nil => simp at read
    | cons =>
      dsimp only at read
      repeat' split at read
      all_goals simp only [Option.some.injEq, Prod.mk.injEq, reduceCtorEq] at read
      all_goals omega

theorem berDeclen_unusable {max max' len : Int} (read : berDeclen mem max = some (-2, len))
    (more : List UInt8) (longer : max ≤ max') : berDeclen (mem ++ more) max' = some (-2, 0) := by
  unfold berDeclen at read
  split at read
  · simp at read
  · cases mem with
    | nil => simp at read
    | cons =>
      dsimp only at read
      rw [cons_append, berDeclen, if_neg (by omega)]
      split at read
      · simp at read
      next notIndefinite =>
        rw [if_neg notIndefinite]
        split at read
        · simp at read
        next notShort =>
          rw [if_neg notShort]
          split at read
          next reserved => rw [if_pos reserved]
          next notReserved =>
            rw [if_neg notReserved]
            split at read
            · simp at read
            next fits =>
              split at read
              next large => rw [if_neg (by omega), if_pos large]
              · split at read
                · simp at read
                · simp only [Option.some.injEq, Prod.mk.injEq] at read
                  omega

theorem header_of_completeBERWithin (decided : completeBERWithin (levels + 1) b ≠ 0)
    (notEnd : b.take 2 ≠ [0, 0]) :
    (∃ identifier length body found len, b = identifier ++ length ++ body ∧ Identifies identifier found ∧
        Declares length len) ∨
      ∃ identifier rest found len, b = identifier ++ rest ∧ Identifies identifier found ∧
        berDeclen rest rest.length = some (-2, len) := by
  rw [completeBERWithin] at decided
  split at decided
  · exact absurd rfl decided
  · split at decided
    · exact absurd rfl decided
    next res cache tag =>
      split at decided
      · exact absurd rfl decided
      next found =>
        obtain ⟨identifier, rest, rfl, rfl, room, identifies⟩ := Identifies.of_berDectag tag (by omega)
        rw [Int.toNat_natCast, drop_left] at decided
        rw [show ((identifier ++ rest).length : Int) - identifier.length = rest.length by
          rw [length_append]; push_cast; omega] at decided
        split at decided
        · exact absurd rfl decided
        next lres ll read =>
          by_cases bad : lres = -2
          · exact .inr ⟨identifier, rest, cache, ll, rfl, identifies, bad ▸ read⟩
          · rw [if_neg bad] at decided
            split at decided
            · exact absurd rfl decided
            next complete =>
              have known := berDeclen_cases read
              obtain ⟨length, body, rfl, -, -, declares⟩ := Declares.of_berDeclen read (by omega)
              exact .inl ⟨identifier, length, body, cache, ll, (append_assoc ..).symm, identifies, declares⟩

theorem completeBERWithin_unusable {identifier rest : List UInt8} {found : BerTag} {len : Int}
    (identifies : Identifies identifier found) (read : berDeclen rest rest.length = some (-2, len))
    (notEnd : (identifier ++ rest).take 2 ≠ [0, 0]) (more : List UInt8) :
    completeBERWithin (levels + 1) (identifier ++ rest ++ more) = -1 := by
  have first := length_pos_iff.mpr identifies.nonempty
  have second : 0 < rest.length := by
    rw [length_pos_iff]
    rintro rfl
    simp [berDeclen] at read
  rw [completeBERWithin, if_neg (by simp only [length_append]; omega),
    if_neg (by rwa [take_append_of_le_length (by rw [length_append]; omega)]), append_assoc,
    identifies.read _ _ _ (by simp only [length_append]; omega)]
  dsimp only
  rw [if_neg (by omega), Int.toNat_natCast, drop_left,
    berDeclen_unusable read more (by simp only [length_append]; omega)]
  rfl

theorem element_of_completeBERWithin (accepted : 0 < completeBERWithin levels b) :
    ∃ octets rest, b = octets ++ rest ∧ completeBERWithin levels b = octets.length ∧ Element levels octets := by
  induction levels generalizing b with
  | zero => simp [completeBERWithin] at accepted
  | succ levels ih =>
    have notEnd : b.take 2 ≠ [0, 0] := by
      intro ended
      rw [completeBERWithin] at accepted
      split at accepted
      · omega
      · omega
    rcases header_of_completeBERWithin (Int.ne_of_gt accepted) notEnd with
      ⟨identifier, length, body, found, len, rfl, identifies, declares⟩ | ⟨identifier, rest, found, len, rfl, identifies, read⟩
    · have first := length_pos_iff.mpr identifies.nonempty
      have second := length_pos_iff.mpr declares.nonempty
      rw [completeBERWithin_header identifies declares notEnd] at accepted ⊢
      split at accepted
      next definite =>
        rw [if_pos definite]
        split at accepted
        · omega
        next enough =>
          rw [if_neg enough]
          have count : (body.take len.toNat).length = len.toNat := by
            rw [List.length_take]
            omega
          refine ⟨identifier ++ length ++ body.take len.toNat, body.drop len.toNat, ?_, ?_, ?_⟩
          · rw [append_assoc _ (body.take _), take_append_drop]
          · simp only [length_append, count]
            push_cast
            omega
          · refine .definite identifies (by rw [count, Int.toNat_of_nonneg definite]; exact declares) ?_
            rw [take_append_of_le_length (by rw [length_append]; omega)] at notEnd ⊢
            exact notEnd
      next indefinite =>
        rw [if_neg indefinite]
        split at accepted
        · omega
        next constructed =>
          rw [if_neg constructed]
          obtain ⟨children, rest, rfl, each, value⟩ := elements_of_completeChildren (fun b => ih) accepted
          obtain rfl : len = -1 := by
            have := declares.le
            omega
          refine ⟨identifier ++ length ++ children.flatten ++ [0, 0], rest, by simp, ?_, ?_⟩
          · rw [value]
            simp only [length_append, length_cons, length_nil]
          · refine .indefinite identifies constructed declares ?_ each
            rwa [take_append_of_le_length (by rw [length_append]; omega)] at notEnd
    · have rejected : completeBERWithin (levels + 1) _ = -1 := completeBERWithin_unusable identifies read notEnd []
      rw [append_nil] at rejected
      omega

theorem completeBERWithin_accepted (t : List UInt8)
    (accepted : 0 < completeBERWithin levels b) :
    completeBERWithin levels b ≤ b.length ∧ completeBERWithin levels (b ++ t) = completeBERWithin levels b := by
  refine ⟨completeBERWithin_le levels b, ?_⟩
  obtain ⟨octets, rest, rfl, value, element⟩ := element_of_completeBERWithin accepted
  rw [value, append_assoc, completeBERWithin_element element]

theorem completeChildren_rejected (accepted : ∀ b t, 0 < child b → child b ≤ b.length ∧ child (b ++ t) = child b)
    (rejected : ∀ b t, child b < 0 → child (b ++ t) < 0) {rounds rounds' : Nat} (more : rounds ≤ rounds') (t : List UInt8)
      {consumed : Nat} (h : completeChildren child rounds b consumed < 0) :
    completeChildren child rounds' (b ++ t) consumed < 0 := by
  induction rounds generalizing rounds' b consumed with
  | zero => simp [completeChildren] at h
  | succ _ ih =>
    obtain ⟨rounds', rfl⟩ : ∃ fewer, rounds' = fewer + 1 := ⟨rounds' - 1, by omega⟩
    rw [completeChildren] at h ⊢
    split at h
    · omega
    next enough =>
      rw [if_neg (by rw [length_append]; omega), take_append_of_le_length (by omega)]
      split at h
      · omega
      next goesOn =>
        rw [if_neg goesOn]
        split at h
        next failed =>
          have later := rejected b t h
          rw [if_pos (by omega)]
          exact later
        next found =>
          obtain ⟨inside, same⟩ := accepted b t (by omega)
          rw [same, if_neg found, drop_append_of_le_length (by omega)]
          exact ih (by omega) h

theorem completeBERWithin_rejected (t : List UInt8)
    (rejected : completeBERWithin levels b < 0) : completeBERWithin levels (b ++ t) < 0 := by
  induction levels generalizing b t with
  | zero => simp [completeBERWithin]
  | succ _ ih =>
    by_cases ended : b.take 2 = [0, 0]
    · have two : 2 ≤ b.length := by
        have := congrArg List.length ended
        simp only [List.length_take, length_cons, length_nil] at this
        omega
      rw [completeBERWithin, if_neg (by rw [length_append]; omega), take_append_of_le_length two, if_pos ended]
      decide
    · rcases header_of_completeBERWithin (Int.ne_of_lt rejected) ended with
        ⟨identifier, length, body, found, len, rfl, identifies, declares⟩ |
          ⟨identifier, rest, found, len, rfl, identifies, read⟩
      · have first := length_pos_iff.mpr identifies.nonempty
        have second := length_pos_iff.mpr declares.nonempty
        rw [completeBERWithin_header identifies declares ended] at rejected
        rw [append_assoc, completeBERWithin_header identifies declares
          (by rwa [take_append_of_le_length (by rw [length_append]; omega)] at ended ⊢)]
        split at rejected
        · split at rejected
          · omega
          · omega
        next indefinite =>
          rw [if_neg indefinite]
          split at rejected
          next primitive =>
            rw [if_pos primitive]
            decide
          next constructed =>
            rw [if_neg constructed]
            exact completeChildren_rejected (fun b t => completeBERWithin_accepted t) (fun b t => ih t)
              (by rw [length_append]; omega) t rejected
      · rw [completeBERWithin_unusable identifies read ended t]
        decide

theorem completeBERn_prefixStable (level : Nat) : PrefixStable fun buf => completeBERn buf level := by
  intro b t
  refine stableAt_of_final (fun b t => completeBERWithin_accepted t) (fun b t h => ?_)
    (completeBERWithin_rejected t) ?_
  · exact Int.le_of_lt (completeBERWithin_rejected t h)
  · intro accepted
    obtain ⟨octets, rest, same, value, element⟩ := element_of_completeBERWithin accepted
    have alone := completeBERWithin_element element []
    rw [append_nil] at alone
    rw [value, Int.toNat_natCast, same, take_left, alone]

theorem completeBERn_ne_one (buf : List UInt8) (level : Nat) : completeBERn buf level ≠ 1 := by
  intro one
  have accepted : 0 < completeBERWithin (1001 - level) buf := by
    unfold completeBERn at one
    omega
  obtain ⟨octets, rest, -, value, element⟩ := element_of_completeBERWithin accepted
  have := element.length
  unfold completeBERn at one
  omega

end Yaz.Ber
