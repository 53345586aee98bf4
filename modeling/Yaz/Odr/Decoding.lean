import Yaz.Odr.Reading

/-! Decoding returns the value whose octets are ahead, and passes over the octets of another one. -/

set_option autoImplicit false

namespace Yaz.Odr
open List hiding set
open Yaz.Foundation Yaz.Ber Run

variable {α : Type} {o o' p q : Handle} {body more : List UInt8} {name : Option String} {tag : Tag}
  {outer : Option Tag}

/-! ### Constructed elements -/

/-- Inside a constructed element that has `body` for its contents and takes `n` octets as a whole. -/
structure Entered (o p : Handle) (body : List UInt8) (n : Nat) : Prop where
  left : p.Left body
  tClass : p.tClass = -1
  stack : ∃ entry, p.stack = entry :: o.stack
  closes : ∀ q, Consumed p q body.length → ∃ o', Returns odrConstructedEndDecode q true o' ∧ Consumed o o' n

variable {n : Nat}

theorem Entered.enclosed (entered : Entered o p body n) : p.stack ≠ [] := by
  obtain ⟨entry, stack⟩ := entered.stack
  simp [stack]

def Handle.enter (o : Handle) (len : Int) : Handle :=
  { o with
    bp := o.bp + 1
    stack := { base := o.bp + 1, baseOffset := o.pos, len := len, lenOffset := o.pos, lenlen := 1 } :: o.stack
    spare := o.spare - 1 }

variable {rest : List UInt8}

theorem returns_constructedLength {octet : UInt8} {len : Int} (inside : o.Inside)
    (ahead : o.ahead = octet :: rest) (declares : Declares [octet] len) (fits : len ≤ rest.length)
    (room : o.stack.length < odrMaxStack) :
    Returns (do if ← stackPush then constructedLength else pure false) o true (o.enter len) := by
  have length := inside.length (show o.ahead = [octet] ++ rest from ahead)
  rw [length_singleton] at length
  rw [stackPush, bind_bind, returns_get_bind_iff, if_neg (by omega), bind_bind, returns_modify_bind_iff,
    returns_pure_bind_iff, if_pos rfl, constructedLength, returns_get_bind_iff, returns_reading_bind_iff]
  refine ⟨(1, len), ?_, ?_⟩
  · have read := declares.read rest (odrMax o) (by simp only [odrMax, length_singleton]; omega)
    rw [singleton_append, ← ahead] at read
    exact read
  · dsimp only
    rw [if_neg (by omega), returns_advance_bind_iff, returns_modify_bind_iff, returns_get_bind_iff, if_neg,
      returns_modify_bind_iff, returns_pure_iff]
    · exact ⟨rfl, rfl⟩
    · simp only [odrMax, setTop, Handle.skip_size, Handle.skip_bp, Int.toNat_one]
      omega

@[simps]
def Handle.leave (o : Handle) : Handle := { o with stack := o.stack.tail, spare := o.spare + 1 }

theorem returns_constructedEnd_definite {entry : ConStack} {below : List ConStack} (noError : q.error = none)
    (stack : q.stack = entry :: below) (ends : (q.bp : Int) = entry.base + entry.len) (definite : 0 ≤ entry.len) :
    Returns odrConstructedEndDecode q true q.leave := by
  rw [odrConstructedEndDecode, returns_enter_bind_iff, returns_get_bind_iff, noError, returns_ite_iff,
    if_neg (by simp), stack]
  dsimp only
  rw [if_neg (by omega), if_neg (by omega), returns_stackPop_bind_iff, returns_pure_iff]
  exact ⟨rfl, rfl⟩

theorem returns_constructedEnd_indefinite {entry : ConStack} {below : List ConStack}
    (noError : q.error = none) (stack : q.stack = entry :: below) (ahead : q.ahead = 0 :: 0 :: rest)
    (indefinite : entry.len < 0) :
    Returns odrConstructedEndDecode q true (q.skip 2).leave := by
  have second : (q.skip 1).ahead = 0 :: rest := by rw [Handle.ahead_skip, ahead]; rfl
  rw [odrConstructedEndDecode, returns_enter_bind_iff, returns_get_bind_iff, noError, returns_ite_iff,
    if_neg (by simp), stack]
  dsimp only
  rw [if_pos indefinite, takeEndOfContents, bind_bind, returns_readAt_bind_iff]
  refine ⟨0, q.getElem?_of_ahead ahead, ?_⟩
  rw [bind_bind, returns_advance_bind_iff, if_pos rfl, bind_bind, returns_readAt_bind_iff]
  refine ⟨0, (q.skip 1).getElem?_of_ahead second, ?_⟩
  rw [bind_bind, returns_advance_bind_iff, returns_pure_bind_iff, if_pos (by decide), returns_stackPop_bind_iff,
    returns_pure_iff, Handle.skip_skip]
  exact ⟨rfl, rfl⟩

theorem Consumed.enter (found : Consumed o p n) (len : Int) :
    (p.enter len).tClass = -1 ∧ ∃ entry, (p.enter len).stack = entry :: o.stack := by
  exact ⟨found.tClass, _, congrArg (_ :: ·) found.stack⟩

/-- The contents follow the length octet, in either form. -/
theorem enters_contents (found : Consumed o p n) (inside : p.Inside)
    (ahead : p.ahead = (if body.length ≤ 127 then UInt8.ofNat body.length :: body else 0x80 :: (body ++ [0, 0])) ++ rest)
    (room : o.stack.length < odrMaxStack) :
    ∃ q, Returns (do if ← stackPush then constructedLength else pure false) p true q ∧
      Entered o q body (n + (if body.length ≤ 127 then UInt8.ofNat body.length :: body
        else 0x80 :: (body ++ [0, 0])).length) := by
  have room' : p.stack.length < odrMaxStack := by rw [found.stack]; exact room
  split at ahead
  next short =>
    rw [if_pos short]
    have length := inside.length ahead
    refine ⟨p.enter body.length, returns_constructedLength inside ahead (declares_short short) (by simp) room', ?_⟩
    have after : (p.enter body.length).ahead = body ++ rest := by
      have next : (p.skip 1).ahead = body ++ rest := by rw [Handle.ahead_skip, ahead]; rfl
      exact next
    obtain ⟨tClass, stack⟩ := found.enter body.length
    refine ⟨⟨⟨inside.sized, ?_⟩, found.error, found.bias, ⟨rest, after⟩, ?_, ?_⟩, tClass, stack, ?_⟩
    · have sized := inside.sized
      simp only [Handle.enter, length_cons] at length ⊢
      omega
    · simp only [Handle.Encloses, Handle.enter]
      rw [if_pos (by omega)]
      trivial
    · exact fun filled => absurd found.cache (by simp only [Handle.enter] at filled; omega)
    · intro q read
      have bp := read.bp
      refine ⟨_, returns_constructedEnd_definite read.error read.stack (by simp only [Handle.enter] at bp ⊢; omega)
        (by simp), ?_⟩
      refine ⟨⟨read.buf.trans found.buf, read.size.trans found.size, ?_, ?_, read.error, read.bias,
        read.tClass⟩, read.cache⟩
      · rw [Handle.leave_stack, read.stack]
        exact found.stack
      · have start := found.bp
        simp only [Handle.enter, length_cons, Handle.leave_bp] at bp ⊢
        omega
  next long =>
    rw [if_neg long]
    have length := inside.length ahead
    rw [cons_append, append_assoc] at ahead
    refine ⟨p.enter (-1), returns_constructedLength inside ahead declares_indefinite (by omega) room', ?_⟩
    have after : (p.enter (-1)).ahead = body ++ ([0, 0] ++ rest) := by
      have next : (p.skip 1).ahead = body ++ ([0, 0] ++ rest) := by rw [Handle.ahead_skip, ahead]; rfl
      exact next
    obtain ⟨tClass, stack⟩ := found.enter (-1)
    refine ⟨⟨⟨inside.sized, ?_⟩, found.error, found.bias, ⟨_, after⟩, ?_, ?_⟩, tClass, stack, ?_⟩
    · have sized := inside.sized
      simp only [Handle.enter, length_cons] at length ⊢
      omega
    · simp only [Handle.Encloses, Handle.enter]
      rw [if_neg (by omega)]
      exact ⟨rest, after⟩
    · exact fun filled => absurd found.cache (by simp only [Handle.enter] at filled; omega)
    · intro q read
      have ends : q.ahead = 0 :: 0 :: rest := by
        rw [read.ahead, after, drop_left]
        rfl
      refine ⟨_, returns_constructedEnd_indefinite read.error read.stack ends (show (-1 : Int) < 0 by decide), ?_⟩
      refine ⟨⟨read.buf.trans found.buf, read.size.trans found.size, ?_, ?_, read.error, read.bias,
        read.tClass⟩, read.cache⟩
      · rw [Handle.leave_stack, Handle.skip_stack, read.stack]
        exact found.stack
      · have start := found.bp
        have bp := read.bp
        simp only [Handle.enter, length_cons, length_append, length_nil, Handle.leave_bp,
          Handle.skip_bp] at bp ⊢
        omega

theorem Handle.Left.lenlen (left : o.Left body) (n : Nat) : Handle.Left { o with lenlen := n } body :=
  ⟨⟨left.inside.sized, left.inside.position⟩, left.error, left.bias, left.ahead, left.encloses, left.cache⟩

theorem Read.of_lenlen {n m : Nat} (read : Read { o with lenlen := m } o' n) : Read o o' n :=
  ⟨read.buf, read.size, read.stack, read.bp, read.error, read.bias, read.tClass⟩

theorem Handle.Tagged.lenlen (tagged : o.Tagged outer) (n : Nat) : Handle.Tagged { o with lenlen := n } outer := by
  cases outer with
  | none => exact tagged
  | some => exact tagged

theorem defaultTag_stack (zclass number : Int) (o : Handle) : (defaultTag zclass number o).stack = o.stack := by
  unfold defaultTag
  split <;> rfl

variable (zclass number : Nat)

theorem enters_constructedBegin (tagged : o.Tagged outer)
    (legal : (outer.getD (zclass, number)).Legal) (left : o.Left (constructed (outer.getD (zclass, number)) body ++ more))
    (room : o.stack.length < odrMaxStack) (name : Option String) :
    ∃ p, Returns (odrConstructedBeginDecode zclass number name) o true p ∧
      Entered o p body (constructed (outer.getD (zclass, number)) body).length := by
  obtain ⟨isClass, isTag⟩ := defaultTag_tagged (tagged.lenlen 1) zclass number
  rw [constructed, append_assoc] at left
  obtain ⟨p, matched, found⟩ := returns_berTag_match ((left.lenlen 1).defaultTag zclass number) legal true name
  have consumed : Consumed o p _ := ⟨found.of_defaultTag.toRead.of_lenlen, found.cache⟩
  obtain ⟨rest, ahead⟩ := left.ahead_read consumed.toRead
  rw [append_assoc] at ahead
  obtain ⟨q, opens, entered⟩ := enters_contents consumed (left.inside_read consumed.toRead) ahead room
  refine ⟨q, ?_, ?_⟩
  · rw [odrConstructedBeginDecode, returns_get_bind_iff, left.error, returns_ite_iff, if_neg (by simp),
      returns_modify_bind_iff, returns_get_bind_iff, returns_enter_bind_iff, isClass, isTag]
    exact matched.bind opens
  · rw [← length_append] at entered
    exact entered

variable {first : Option Tag}

theorem passes_constructedBegin (tagged : o.Tagged outer) (left : o.Left body)
    (leads : Leads body first) (outermost : o.stack = [] → body ≠ [])
    (differ : first ≠ some (outer.getD (zclass, number))) (name : Option String) :
    ∃ p, Returns (odrConstructedBeginDecode zclass number name) o false p ∧ Read o p 0 ∧ p.Left body := by
  obtain ⟨isClass, isTag⟩ := defaultTag_tagged (tagged.lenlen 1) zclass number
  obtain ⟨p, differs, read, after⟩ := returns_berTag_differ ((left.lenlen 1).defaultTag zclass number) leads
    (fun empty => outermost (by rwa [defaultTag_stack] at empty)) differ name
  refine ⟨p, ?_, read.of_defaultTag.of_lenlen, after⟩
  rw [odrConstructedBeginDecode, returns_get_bind_iff, left.error, returns_ite_iff, if_neg (by simp),
    returns_modify_bind_iff, returns_get_bind_iff, returns_enter_bind_iff, isClass, isTag]
  refine differs.bind ?_
  simp

theorem returns_sequenceBegin_iff {r : Bool} (noError : o.error = none) (tagged : o.Tagged outer) :
    Returns (odrSequenceBeginDecode name) o r o' ↔
      Returns (odrConstructedBeginDecode (outer.getD (0, 16)).1 (outer.getD (0, 16)).2 name) (defaultTag 0 16 o) r o' := by
  have set := defaultTag_tagged tagged 0 16
  rw [Nat.cast_zero, show ((16 : Nat) : Int) = 16 from rfl] at set
  rw [odrSequenceBeginDecode, returns_get_bind_iff, noError, returns_ite_iff, if_neg (by simp),
    returns_modify_bind_iff, returns_get_bind_iff, set.1, set.2]

theorem Entered.of_defaultTag {zclass number : Int} (entered : Entered (defaultTag zclass number o) p body n) :
    Entered o p body n where
  left := entered.left
  tClass := entered.tClass
  stack := by rw [← defaultTag_stack zclass number o]; exact entered.stack
  closes := by
    intro q read
    obtain ⟨o', closed, consumed⟩ := entered.closes q read
    exact ⟨o', closed, consumed.of_defaultTag⟩

theorem enters_sequenceBegin (tagged : o.Tagged outer) (legal : (outer.getD (0, 16)).Legal)
    (left : o.Left (constructed (outer.getD (0, 16)) body ++ more)) (room : o.stack.length < odrMaxStack)
    (name : Option String) :
    ∃ p, Returns (odrSequenceBeginDecode name) o true p ∧
      Entered o p body (constructed (outer.getD (0, 16)) body).length := by
  have set : (defaultTag 0 16 o).Tagged (some (outer.getD (0, 16))) := defaultTag_tagged tagged 0 16
  obtain ⟨p, begins, entered⟩ := enters_constructedBegin (outer.getD (0, 16)).1 (outer.getD (0, 16)).2 set legal
    (left.defaultTag 0 16) (by rw [defaultTag_stack]; exact room) name
  exact ⟨p, (returns_sequenceBegin_iff left.error tagged).mpr begins, entered.of_defaultTag⟩

theorem passes_sequenceBegin (tagged : o.Tagged outer) (left : o.Left body) (leads : Leads body first)
    (outermost : o.stack = [] → body ≠ []) (differ : first ≠ some (outer.getD (0, 16))) (name : Option String) :
    ∃ p, Returns (odrSequenceBeginDecode name) o false p ∧ Read o p 0 ∧ p.Left body := by
  have set : (defaultTag 0 16 o).Tagged (some (outer.getD (0, 16))) := defaultTag_tagged tagged 0 16
  obtain ⟨p, begins, read, after⟩ := passes_constructedBegin (outer.getD (0, 16)).1 (outer.getD (0, 16)).2 set (left.defaultTag 0 16) leads
    (by rw [defaultTag_stack]; exact outermost) differ name
  exact ⟨p, (returns_sequenceBegin_iff left.error tagged).mpr begins, read.of_defaultTag, after⟩

theorem returns_missing (noError : p.error = none) :
    Returns (do let missing ← odrMissing true name
                pure (missing, (none : Option α))) p (true, none) p := by
  refine ((returns_odrMissing_iff p p true name).mpr ⟨noError, rfl, rfl⟩).bind ?_
  rw [returns_pure_iff]
  exact ⟨rfl, rfl⟩

section
variable {value : α} {n : Nat} {run : Codec (Bool × Option α)}

theorem Entered.reads (entered : Entered o p body n) (reads : Reads run p value body.length) :
    ∃ o', Returns (do let (ret, p) ← run
                      if ret then do
                        let closed ← odrConstructedEndDecode
                        pure (closed, p)
                      else pure (false, none)) p (true, some value) o' ∧ Consumed o o' n := by
  obtain ⟨q, returned, read⟩ := reads
  obtain ⟨o', closed, consumed⟩ := entered.closes q read
  refine ⟨o', returned.bind ?_, consumed⟩
  dsimp only
  rw [if_pos rfl]
  refine closed.bind ?_
  simp

theorem reads_sequence (tagged : o.Tagged outer) (legal : (outer.getD (0, 16)).Legal)
    (left : o.Left (constructed (outer.getD (0, 16)) body ++ more)) (room : o.stack.length < odrMaxStack)
    (reads : ∀ p, Entered o p body (constructed (outer.getD (0, 16)) body).length → Reads run p value body.length)
    (opt : Bool) (name : Option String) :
    Reads (sequenceDecode run opt name) o value (constructed (outer.getD (0, 16)) body).length := by
  obtain ⟨p, begins, entered⟩ := enters_sequenceBegin tagged legal left room name
  obtain ⟨o', returned, consumed⟩ := entered.reads (reads p entered)
  refine ⟨o', begins.bind ?_, consumed⟩
  rw [if_pos rfl]
  exact returned

theorem skips_sequence (tagged : o.Tagged outer) (left : o.Left body) (leads : Leads body first)
    (outermost : o.stack = [] → body ≠ []) (differ : first ≠ some (outer.getD (0, 16))) (name : Option String) :
    Skips (sequenceDecode run true name) o body := by
  obtain ⟨p, begins, read, after⟩ := passes_sequenceBegin tagged left leads outermost differ name
  refine ⟨p, begins.bind ?_, read, after⟩
  rw [if_neg (by simp)]
  refine ((returns_odrMissing_iff p p true name).mpr ⟨after.error, rfl, rfl⟩).bind ?_
  rw [returns_get_bind_iff, after.error]
  simp

theorem reads_explicit (tagged : o.Tagged outer) (legal : (outer.getD (zclass, number)).Legal)
    (left : o.Left (constructed (outer.getD (zclass, number)) body ++ more)) (room : o.stack.length < odrMaxStack)
    (reads : ∀ p, Entered o p body (constructed (outer.getD (zclass, number)) body).length →
      Reads run p value body.length) (opt : Bool) (name : Option String) :
    Reads (odrExplicitTagDecode zclass number run opt name) o value
      (constructed (outer.getD (zclass, number)) body).length := by
  obtain ⟨p, begins, entered⟩ := enters_constructedBegin zclass number tagged legal left room none
  obtain ⟨o', returned, consumed⟩ := entered.reads (reads p entered)
  refine ⟨o', begins.bind ?_, consumed⟩
  rw [if_pos rfl]
  exact returned

theorem skips_explicit (tagged : o.Tagged outer) (left : o.Left body)
    (leads : Leads body first) (outermost : o.stack = [] → body ≠ [])
    (differ : first ≠ some (outer.getD (zclass, number))) (name : Option String) :
    Skips (odrExplicitTagDecode zclass number run true name) o body := by
  obtain ⟨p, begins, read, after⟩ := passes_constructedBegin zclass number tagged left leads outermost differ none
  refine ⟨p, begins.bind ?_, read, after⟩
  rw [if_neg (by simp)]
  exact returns_missing after.error

theorem reads_member (noError : o.error = none) (reads : Reads run o value n) (opt : Bool) (name : Option String) :
    Reads (memberDecode run opt name) o value n := by
  obtain ⟨o', returned, consumed⟩ := reads
  refine ⟨o', ?_, consumed⟩
  rw [memberDecode, odrInitmemberDecode, bind_bind, returns_get_bind_iff, returns_pure_bind_iff, noError,
    Option.isNone_none, if_pos rfl]
  refine returned.bind ?_
  simp

theorem skips_member (noError : o.error = none) {p : Handle} (returned : ∃ q, Returns run o (false, q) p)
    (read : Read o p 0) (after : p.Left body) (name : Option String) : Skips (memberDecode run true name) o body := by
  obtain ⟨q, returned⟩ := returned
  refine ⟨p, ?_, read, after⟩
  rw [memberDecode, odrInitmemberDecode, bind_bind, returns_get_bind_iff, returns_pure_bind_iff, noError,
    Option.isNone_none, if_pos rfl]
  refine returned.bind ?_
  exact returns_missing after.error

end

theorem Handle.Left.consumed_nothing (left : o.Left []) (tClass : o.tClass = -1) : Consumed o o 0 := by
  refine ⟨⟨rfl, rfl, rfl, rfl, left.error, left.bias, tClass⟩, ?_⟩
  by_contra filled
  exact (left.cache (by omega)).1 rfl

section
variable {run : Codec (Bool × Option α)} {octets : α → List UInt8}

/-- Inside the entries `stack`, the run reads a value from its octets, which start with an identifier. -/
def ReadsWithin (run : Codec (Bool × Option α)) (octets : α → List UInt8) (stack : List ConStack) (value : α) : Prop :=
  (∃ tag, Leads (octets value) (some tag)) ∧
    ∀ (p : Handle) (more : List UInt8), p.Left (octets value ++ more) → p.tClass = -1 → p.stack = stack →
      Reads run p value (octets value).length

theorem Leads.append (leads : Leads body first) (nonempty : first ≠ none) (more : List UInt8) :
    Leads (body ++ more) first := by
  cases first with
  | none => exact absurd rfl nonempty
  | some =>
    obtain ⟨legal, constructed, rest, rfl⟩ := leads
    exact ⟨legal, constructed, rest ++ more, append_assoc ..⟩

variable {elements : List (Option α)}

theorem reads_elements {stack : List ConStack} (enclosed : stack ≠ [])
    (each : allPresent (ReadsWithin run octets stack) elements) {rounds : Nat} (enough : elements.length < rounds)
    (before : List (Option α)) (left : o.Left (elements.flatMap fun p => p.elim [] octets)) (tClass : o.tClass = -1)
    (same : o.stack = stack) :
    ∃ q, Returns (sequenceLoop run rounds before) o (true, before ++ elements) q ∧
      Consumed o q (elements.flatMap fun p => p.elim [] octets).length := by
  induction elements generalizing o rounds before with
  | nil =>
    obtain ⟨rounds, rfl⟩ : ∃ fewer, rounds = fewer + 1 := ⟨rounds - 1, by omega⟩
    have ended := returns_constructedMore left (show Leads _ none from rfl) (same ▸ enclosed)
    refine ⟨o, ?_, left.consumed_nothing tClass⟩
    rw [sequenceLoop]
    refine ended.bind ?_
    simp
  | cons element rest ih =>
    obtain ⟨rounds, rfl⟩ : ∃ fewer, rounds = fewer + 1 := ⟨rounds - 1, by omega⟩
    obtain ⟨value, rfl, ⟨tag, leads⟩, reads⟩ := each element (mem_cons_self ..)
    rw [flatMap_cons, Option.elim_some] at left ⊢
    obtain ⟨p, returned, consumed⟩ := reads o _ left tClass same
    obtain ⟨q, looped, later⟩ := ih (fun other inside => each other (mem_cons_of_mem _ inside))
      (by simpa using enough) (before ++ [some value]) (left.consumed consumed (same ▸ enclosed)) consumed.tClass
      (consumed.stack.trans same)
    have whole := leads.append (by simp) (rest.flatMap fun p => p.elim [] octets)
    refine ⟨q, ?_, ?_⟩
    · rw [sequenceLoop]
      refine (returns_constructedMore left whole (same ▸ enclosed)).bind ?_
      rw [if_pos (by simpa using whole.ne_nil)]
      refine returned.bind ?_
      dsimp only
      rw [if_pos rfl]
      rw [append_assoc, singleton_append] at looped
      exact looped
    · rw [length_append]
      exact consumed.toRead.consumed later

theorem elements_length_le {stack : List ConStack}
    (each : allPresent (ReadsWithin run octets stack) elements) :
    elements.length ≤ (elements.flatMap fun p => p.elim [] octets).length := by
  induction elements with
  | nil => simp
  | cons element _ ih =>
    obtain ⟨value, rfl, ⟨tag, leads⟩, -⟩ := each element (mem_cons_self ..)
    have positive := length_pos_iff.mpr leads.ne_nil
    have later := ih fun other inside => each other (mem_cons_of_mem _ inside)
    rw [flatMap_cons, length_append, length_cons, Option.elim_some]
    omega

theorem reads_sequenceOf (tagged : o.Tagged outer) (legal : (outer.getD (0, 16)).Legal)
    (left : o.Left (constructed (outer.getD (0, 16)) (elements.flatMap fun p => p.elim [] octets) ++ more))
    (room : o.stack.length < odrMaxStack)
    (each : ∀ entry, allPresent (ReadsWithin run octets (entry :: o.stack)) elements) (name : Option String) :
    Reads (odrSequenceOfDecode run name) o elements
      (constructed (outer.getD (0, 16)) (elements.flatMap fun p => p.elim [] octets)).length := by
  obtain ⟨p, begins, entered⟩ := enters_sequenceBegin tagged legal left room name
  obtain ⟨entry, stack⟩ := entered.stack
  obtain ⟨rest, ahead⟩ := entered.left.ahead
  have length := entered.left.inside.length ahead
  have fewer := elements_length_le (each entry)
  have loop := reads_elements (by simp) (each entry) (show elements.length < p.size + 1 by omega) [] entered.left
    entered.tClass stack
  obtain ⟨q, looped, read⟩ := loop
  obtain ⟨o', closed, consumed⟩ := entered.closes q read
  refine ⟨o', begins.bind ?_, consumed⟩
  rw [if_pos rfl, returns_get_bind_iff]
  refine looped.bind ?_
  dsimp only
  rw [if_pos rfl]
  refine closed.bind ?_
  simp

theorem passes_sequenceOf (tagged : o.Tagged outer) (left : o.Left body) (leads : Leads body first)
    (outermost : o.stack = [] → body ≠ []) (differ : first ≠ some (outer.getD (0, 16))) (name : Option String) :
    ∃ p, Returns (odrSequenceOfDecode run name) o (false, none) p ∧ Read o p 0 ∧ p.Left body := by
  obtain ⟨p, begins, read, after⟩ := passes_sequenceBegin tagged left leads outermost differ name
  refine ⟨p, begins.bind ?_, read, after⟩
  simp

end

def Ty.tagsUnder (type : Ty) (outer : Option Tag) : List Tag := outer.elim type.tags ([·])

theorem getD_mem_tagsUnder {type : Ty} (inside : tag ∈ type.tags) : outer.getD tag ∈ type.tagsUnder outer := by
  cases outer with
  | none => exact inside
  | some other => exact mem_singleton_self other

theorem getD_legal (set : ∀ other ∈ outer, Tag.Legal other) (legal : tag.Legal) : (outer.getD tag).Legal := by
  cases outer with
  | none => exact legal
  | some other => exact set other rfl

theorem leads_primitive (legal : tag.Legal) (content : List UInt8) : Leads (primitive tag content) (some tag) :=
  ⟨legal, false, _, rfl⟩

theorem leads_constructed (legal : tag.Legal) (body : List UInt8) : Leads (constructed tag body) (some tag) :=
  ⟨legal, true, _, rfl⟩

theorem Leads.unique {other : Tag} (h : Leads body (some tag)) (k : Leads body (some other)) : tag = other := by
  obtain ⟨⟨isClass, small, -⟩, constructed, rest, rfl⟩ := h
  obtain ⟨⟨isClass', small', -⟩, constructed', rest', same⟩ := k
  have first := berDectag_enctag isClass small constructed rest
    (show _ ≤ (((identifier tag constructed).length + (identifier other constructed').length : Nat) : Int) by
      simp only [identifier]; omega) {}
  have second := berDectag_enctag isClass' small' constructed' rest'
    (show _ ≤ (((identifier tag constructed).length + (identifier other constructed').length : Nat) : Int) by
      simp only [identifier]; omega) {}
  rw [identifier, identifier] at same
  rw [same, second] at first
  simp only [Option.some.injEq, Prod.mk.injEq, BerTag.mk.injEq, Nat.cast_inj] at first
  exact Prod.ext first.2.1.symm first.2.2.1.symm

mutual

theorem Ty.leads : ∀ (type : Ty) (outer : Option Tag) (value : type.Val), type.WellFormed →
    (outer.isSome → type.taggable) → (∀ tag ∈ outer, Tag.Legal tag) →
      ∃ tag ∈ type.tagsUnder outer, Leads (type.octets outer value) (some tag)
  | .integer, _, _, _, _, set | .enum, _, _, _, _, set | .null, _, _, _, _, set
  | .octetstring, _, _, _, _, set | .oid, _, _, _, _, set =>
    ⟨_, getD_mem_tagsUnder (by simp [Ty.tags]), leads_primitive (getD_legal set (by decide)) _⟩
  | .sequence _, _, _, _, _, set | .sequenceOf _, _, _, _, _, set =>
    ⟨_, getD_mem_tagsUnder (by simp [Ty.tags]), leads_constructed (getD_legal set (by decide)) _⟩
  | .choice arms, outer, value, wellFormed, taggable, _ => by
    cases outer with
    | none => exact arms.leads value wellFormed
    | some => exact absurd (taggable rfl) (by simp [Ty.taggable])
  | .implicit zclass number type, outer, value, wellFormed, _, set => by
    have under := type.leads (some (outer.getD (zclass, number))) value wellFormed.2.2 (fun _ => wellFormed.2.1)
      (by rintro _ ⟨⟩; exact getD_legal set wellFormed.1)
    obtain ⟨tag, inside, leads⟩ := under
    obtain rfl := mem_singleton.mp inside
    exact ⟨_, getD_mem_tagsUnder (by simp [Ty.tags]), leads⟩
  | .explicit zclass number type, _, _, wellFormed, _, set =>
    ⟨_, getD_mem_tagsUnder (by simp [Ty.tags]), leads_constructed (getD_legal set wellFormed.1) _⟩
  | .bool, _, _, wellFormed, _, _ | .bitstring, _, _, wellFormed, _, _ | .any, _, _, wellFormed, _, _ =>
    wellFormed.elim

theorem Arms.leads : ∀ (arms : Arms) (value : arms.Val), arms.WellFormed →
    ∃ tag ∈ arms.tags, Leads (arms.octets value) (some tag)
  | .cons .none zclass number which name type rest, .inl value, wellFormed => by
    obtain ⟨tag, inside, leads⟩ := type.leads none value wellFormed.1 (by simp) (by simp)
    exact ⟨tag, mem_append_left _ inside, leads⟩
  | .cons .implicit zclass number which name type rest, .inl value, wellFormed => by
    obtain ⟨tag, inside, leads⟩ := type.leads (some (zclass, number)) value wellFormed.1
      (fun _ => wellFormed.2.2.2.1 rfl) (by rintro _ ⟨⟩; exact wellFormed.2.2.1 (by simp))
    exact ⟨tag, mem_append_left _ inside, leads⟩
  | .cons .explicit zclass number which name type rest, .inl value, wellFormed =>
    ⟨(zclass, number), mem_append_left _ (mem_singleton_self _),
      leads_constructed (wellFormed.2.2.1 (by simp)) _⟩
  | .cons tagmode zclass number which name type rest, .inr value, wellFormed => by
    obtain ⟨tag, inside, leads⟩ := rest.leads value wellFormed.2.1
    exact ⟨tag, mem_append_right _ inside, leads⟩

end

theorem Members.leads : ∀ (members : Members) (values : members.Val), members.WellFormed → members.Complete values →
    ∃ first, Leads (members.octets values) first ∧ ∀ tag, first = some tag → tag ∈ members.firsts
  | .nil, _, _, _ => ⟨none, rfl, by simp⟩
  | .cons name opt type rest, (some value, values), wellFormed, complete => by
    obtain ⟨tag, inside, leads⟩ := type.leads none value wellFormed.1 (by simp) (by simp)
    refine ⟨some tag, leads.append (by simp) _, ?_⟩
    rintro _ ⟨⟩
    exact mem_append_left _ inside
  | .cons name opt type rest, (none, values), wellFormed, complete => by
    obtain ⟨first, leads, inside⟩ := rest.leads values wellFormed.2.1 complete.2.2
    refine ⟨first, leads, fun tag same => ?_⟩
    rw [Members.firsts, if_pos (complete.1 rfl)]
    exact mem_append_right _ (inside tag same)

/-- What the loop of `odr_choice` has seen of the identifier ahead. -/
def Seen (seen : Option (Int × Int)) (first : Option Tag) : Prop :=
  seen = none ∨ seen = first.map fun tag => ((tag.1 : Int), (tag.2 : Int))

theorem returns_choicePeek {seen : Option (Int × Int)} (known : Seen seen first)
    (left : o.Left body) (leads : Leads body first) (outermost : o.stack = [] → body ≠ []) :
    Returns (choicePeek seen) o (first.map fun tag => ((tag.1 : Int), (tag.2 : Int))) o := by
  have ahead : Returns (choicePeek none) o (first.map fun tag => ((tag.1 : Int), (tag.2 : Int))) o := by
    rw [choicePeek, returns_get_bind_iff]
    refine (returns_moreAhead left leads outermost).bind ?_
    cases first with
    | none =>
      obtain rfl : body = [] := leads
      simp
    | some tag =>
      rw [if_pos (by simpa using leads.ne_nil)]
      obtain ⟨legal, constructed, rest, rfl⟩ := leads
      have positive := length_pos_iff.mpr (enctagOctets_ne_nil tag.1 tag.2 constructed)
      rw [returns_reading_bind_iff]
      refine ⟨_, berDectag_ahead left legal {}, ?_⟩
      dsimp only
      rw [if_neg (by simp only [identifier]; omega), returns_pure_iff]
      exact ⟨rfl, rfl⟩
  obtain rfl | rfl := known
  · exact ahead
  · cases first with
    | none => exact ahead
    | some => simp [choicePeek]

theorem returns_choice_iff {arms : List (Arm α)} {result : Bool × Option α} (left : o.Left body) :
    Returns (odrChoiceDecode arms) o result o' ↔ Returns (choiceLoop (-1) none arms) o result o' := by
  have same : ({ o with choiceBias := -1 } : Handle) = o := by
    rw [← left.bias]
  rw [odrChoiceDecode, returns_get_bind_iff, left.error, returns_ite_iff, if_neg (by simp), returns_modify_bind_iff,
    left.bias, same]

section
variable {arm : Arm α} {rest : List (Arm α)} {seen : Option (Int × Int)} {result : Bool × Option α}

theorem returns_choiceLoop_pass (untagged : arm.tagmode = .none) (passed : Returns (arm.type true arm.name) o (true, none) p)
    (later : Returns (choiceLoop (-1) seen rest) p result o') :
    Returns (choiceLoop (-1) seen (arm :: rest)) o result o' := by
  rw [choiceLoop, if_neg (by simp), if_pos untagged]
  refine passed.bind ?_
  simpa using later

theorem returns_choiceLoop_take {value : α} (untagged : arm.tagmode = .none)
    (taken : Returns (arm.type true arm.name) o (true, some value) o') :
    Returns (choiceLoop (-1) seen (arm :: rest)) o (true, some value) o' := by
  rw [choiceLoop, if_neg (by simp), if_pos untagged]
  refine taken.bind ?_
  simp

theorem returns_choiceLoop_differ {first : Tag} (isTagged : arm.tagmode ≠ .none)
    (peeked : Returns (choicePeek seen) o (some ((first.1 : Int), (first.2 : Int))) o)
    (differ : ¬ ((first.2 : Int) = arm.tag ∧ (first.1 : Int) = arm.zclass))
    (later : Returns (choiceLoop (-1) (some ((first.1 : Int), (first.2 : Int))) rest) o result o') :
    Returns (choiceLoop (-1) seen (arm :: rest)) o result o' := by
  rw [choiceLoop, if_neg (by simp), if_neg isTagged]
  refine peeked.bind ?_
  dsimp only
  rw [if_neg differ]
  exact later

theorem returns_choiceLoop_match (isTagged : arm.tagmode ≠ .none)
    (peeked : Returns (choicePeek seen) o (some (arm.zclass, arm.tag)) o)
    (taken : Returns (taggedArm arm) o result o') :
    Returns (choiceLoop (-1) seen (arm :: rest)) o result o' := by
  rw [choiceLoop, if_neg (by simp), if_neg isTagged]
  refine peeked.bind ?_
  dsimp only
  rw [if_pos ⟨rfl, rfl⟩]
  exact taken

theorem returns_choiceLoop_ended (isTagged : arm.tagmode ≠ .none) (peeked : Returns (choicePeek seen) o none o) :
    Returns (choiceLoop (-1) seen (arm :: rest)) o (false, none) o := by
  rw [choiceLoop, if_neg (by simp), if_neg isTagged]
  refine peeked.bind ?_
  simp

end

theorem skips_octetstring (tagged : o.Tagged outer) (left : o.Left body) (leads : Leads body first)
    (outermost : o.stack = [] → body ≠ []) (differ : first ≠ some (outer.getD (0, 4))) (name : Option String) :
    Skips (odrOctetstringDecode true name) o body := by
  obtain ⟨p, returned, rest⟩ := skips_element tagged left leads outermost differ name
  refine ⟨p, ?_, rest⟩
  rw [odrOctetstringDecode, returns_get_bind_iff, odrOctetstringWithin]
  exact returned

def Ty.Skippable (type : Ty) : Prop :=
  ∀ (outer : Option Tag) (name : Option String) (o : Handle) (body : List UInt8) (first : Option Tag),
    o.Tagged outer → (outer.isSome → type.taggable) → o.Left body → Leads body first →
      (o.stack = [] → body ≠ []) → (∀ tag ∈ type.tagsUnder outer, first ≠ some tag) →
        Skips (type.decode true name) o body

theorem Ty.skippable_of_element {type : Ty} (number : Nat) {contents : Int → Codec (Bool × Option type.Val)}
    (inside : (0, number) ∈ type.tags) (decode : ∀ name, type.decode true name = odrElement number true name contents) :
    type.Skippable := by
  intro outer name o body first tagged _ left leads outermost differ
  rw [decode]
  exact skips_element tagged left leads outermost (differ _ (getD_mem_tagsUnder inside)) name

mutual

theorem Ty.skippable : ∀ type : Ty, type.WellFormed → type.Skippable
  | .integer, _ => Ty.skippable_of_element 2 (by simp [Ty.tags]) fun _ => by rw [Ty.decode]; rfl
  | .enum, _ => Ty.skippable_of_element 10 (by simp [Ty.tags]) fun _ => by rw [Ty.decode]; rfl
  | .null, _ => Ty.skippable_of_element 5 (by simp [Ty.tags]) fun _ => by rw [Ty.decode]; rfl
  | .oid, _ => Ty.skippable_of_element 6 (by simp [Ty.tags]) fun _ => by rw [Ty.decode]; rfl
  | .octetstring, _ => by
    intro outer name o body first tagged _ left leads outermost differ
    simp only [Ty.decode]
    exact skips_octetstring tagged left leads outermost (differ _ (getD_mem_tagsUnder (by simp [Ty.tags]))) name
  | .sequence members, _ => by
    intro outer name o body first tagged _ left leads outermost differ
    simp only [Ty.decode]
    exact skips_sequence tagged left leads outermost (differ _ (getD_mem_tagsUnder (by simp [Ty.tags]))) name
  | .sequenceOf type, _ => by
    intro outer name o body first tagged _ left leads outermost differ
    simp only [Ty.decode]
    obtain ⟨p, returned, read, after⟩ := passes_sequenceOf tagged left leads outermost
      (differ _ (getD_mem_tagsUnder (by simp [Ty.tags]))) name
    exact skips_member left.error ⟨none, returned⟩ read after name
  | .choice arms, wellFormed => by
    intro outer name o body first tagged taggable left leads outermost differ
    cases outer with
    | some => exact absurd (taggable rfl) (by simp [Ty.taggable])
    | none =>
      simp only [Ty.decode]
      obtain ⟨p, returned, read, after⟩ := arms.passes wellFormed id (.inl rfl) tagged left leads outermost differ
      exact skips_member left.error ⟨none, (returns_choice_iff left).mpr returned⟩ read after name
  | .implicit zclass number type, wellFormed => by
    intro outer name o body first tagged _ left leads outermost differ
    have under := type.skippable wellFormed.2.2 (some (outer.getD (zclass, number))) name _ body first
      (defaultTag_tagged tagged zclass number) (fun _ => wellFormed.2.1) (left.defaultTag zclass number) leads
      (by rw [defaultTag_stack]; exact outermost)
      (by
        intro tag inside
        obtain rfl := mem_singleton.mp inside
        exact differ _ (getD_mem_tagsUnder (by simp [Ty.tags])))
    obtain ⟨p, returned, read, after⟩ := under
    refine ⟨p, ?_, read.of_defaultTag, after⟩
    simp only [Ty.decode]
    exact (returns_implicitSettag_bind_iff left.error _ _ _ _).mpr returned
  | .explicit zclass number type, _ => by
    intro outer name o body first tagged _ left leads outermost differ
    simp only [Ty.decode]
    exact skips_explicit zclass number tagged left leads outermost
      (differ _ (getD_mem_tagsUnder (by simp [Ty.tags]))) name
  | .bool, wellFormed | .bitstring, wellFormed | .any, wellFormed => wellFormed.elim

theorem Arms.passes {α : Type} : ∀ (arms : Arms), arms.WellFormed → ∀ (inject : arms.Val → α)
    {seen : Option (Int × Int)} {o : Handle} {body : List UInt8} {first : Option Tag}, Seen seen first →
      o.Tagged none → o.Left body → Leads body first → (o.stack = [] → body ≠ []) →
        (∀ tag ∈ arms.tags, first ≠ some tag) →
          ∃ p, Returns (choiceLoop (-1) seen (arms.decode inject)) o (false, none) p ∧ Read o p 0 ∧ p.Left body
  | .nil, _, inject, seen, o, body, first, known, tagged, left, leads, outermost, differ => by
    refine ⟨o, ?_, ⟨rfl, rfl, rfl, rfl, left.error, left.bias, tagged⟩, left⟩
    rw [Arms.decode, choiceLoop, returns_pure_iff]
    exact ⟨rfl, rfl⟩
  | .cons tagmode zclass number which name type rest, wellFormed, inject, seen, o, body, first, known, tagged, left,
      leads, outermost, differ => by
      rw [Arms.tags] at differ
      have others : ∀ tag ∈ rest.tags, first ≠ some tag := fun tag inside => differ tag (mem_append_right _ inside)
      rw [Arms.decode]
      by_cases untagged : tagmode = .none
      · rw [if_pos untagged] at differ
        obtain ⟨p, passed, read, after⟩ := type.skippable wellFormed.1 none (some name) o body first tagged (by simp) left
          leads outermost fun tag inside => differ tag (mem_append_left _ inside)
        obtain ⟨q, returned, later, last⟩ := rest.passes wellFormed.2.1 (fun value => inject (.inr value)) known
          read.tClass after leads (by rw [read.stack]; exact outermost) others
        refine ⟨q, returns_choiceLoop_pass untagged ?_ returned, read.trans later, last⟩
        refine passed.bind ?_
        simp
      · rw [if_neg untagged] at differ
        have peeked := returns_choicePeek known left leads outermost
        cases first with
        | none =>
          refine ⟨o, returns_choiceLoop_ended untagged peeked, ?_, left⟩
          exact ⟨rfl, rfl, rfl, rfl, left.error, left.bias, tagged⟩
        | some =>
          obtain ⟨q, returned, read, last⟩ := rest.passes wellFormed.2.1 (fun value => inject (.inr value)) (.inr rfl)
            tagged left leads outermost others
          refine ⟨q, returns_choiceLoop_differ untagged peeked ?_ returned, read, last⟩
          rintro ⟨sameTag, sameClass⟩
          apply differ (zclass, number) (mem_append_left _ (mem_singleton_self _))
          rw [Option.some.injEq]
          exact Prod.ext (Int.ofNat.inj sameClass) (Int.ofNat.inj sameTag)

end

def Ty.Decodable (type : Ty) : Prop :=
  ∀ (outer : Option Tag) (value : type.Val) (opt : Bool) (name : Option String) (o : Handle) (more : List UInt8),
    o.Tagged outer → (outer.isSome → type.taggable) → (∀ tag ∈ outer, Tag.Legal tag) → type.Legal value →
      type.Complete value → o.Left (type.octets outer value ++ more) → o.stack.length + type.nesting ≤ odrMaxStack →
        Reads (type.decode opt name) o value (type.octets outer value).length

theorem Reads.map {β : Type} {run : Codec (Bool × Option α)} {value : α} (reads : Reads run o value n)
    (inject : α → β) :
    Reads (do let (ret, p) ← run
              pure (ret, p.map inject)) o (inject value) n := by
  obtain ⟨o', returned, consumed⟩ := reads
  refine ⟨o', returned.bind ?_, consumed⟩
  simp

theorem reads_octetstring {octets : List UInt8} (short : octets.length < 2 ^ 24) (tagged : o.Tagged outer)
    (legal : (outer.getD (0, 4)).Legal) (left : o.Left (primitive (outer.getD (0, 4)) octets ++ more)) (opt : Bool)
    (name : Option String) :
    Reads (odrOctetstringDecode opt name) o octets (primitive (outer.getD (0, 4)) octets).length := by
  have within : Reads (odrOctetstringWithin (o.size + 1) opt name) o octets
      (primitive (outer.getD (0, 4)) octets).length := by
    rw [odrOctetstringWithin]
    refine reads_element tagged legal left ?_ opt name
    rw [← append_nil (lengthOctets octets.length ++ octets)]
    exact (consumes_octetstring short _ _).bind (Consumes.pure _)
  obtain ⟨o', returned, consumed⟩ := within
  refine ⟨o', ?_, consumed⟩
  rw [odrOctetstringDecode, returns_get_bind_iff]
  exact returned

mutual

theorem Ty.decodable : ∀ type : Ty, type.WellFormed → type.Decodable
  | .integer, _ => by
    intro outer value opt name o more tagged _ set _ _ left _
    simp only [Ty.decode]
    exact reads_element tagged (getD_legal set (by decide)) left
      (consumes_primitiveOnly 1 (consumes_integerContents value)) opt name
  | .enum, _ => by
    intro outer value opt name o more tagged _ set _ _ left _
    simp only [Ty.decode]
    exact reads_element tagged (getD_legal set (by decide)) left
      (consumes_primitiveOnly 54 (consumes_integerContents value)) opt name
  | .null, _ => by
    intro outer value opt name o more tagged _ set _ _ left _
    simp only [Ty.decode]
    exact reads_element tagged (getD_legal set (by decide)) left (consumes_finish consumes_null) opt name
  | .oid, _ => by
    intro outer value opt name o more tagged _ set legal _ left _
    simp only [Ty.decode]
    exact reads_element tagged (getD_legal set (by decide)) left
      (consumes_primitiveOnly 46 (consumes_oidContents legal)) opt name
  | .octetstring, _ => by
    intro outer value opt name o more tagged _ set legal _ left _
    simp only [Ty.decode]
    exact reads_octetstring legal tagged (getD_legal set (by decide)) left opt name
  | .sequence members, wellFormed => by
    intro outer value opt name o more tagged _ set legal complete left room
    simp only [Ty.nesting] at room
    simp only [Ty.decode]
    refine reads_sequence tagged (getD_legal set (by decide)) left (by omega) (fun p entered => ?_) opt name
    obtain ⟨entry, stack⟩ := entered.stack
    exact members.decodable value wellFormed legal complete entered.tClass entered.left entered.enclosed
      (by rw [stack, length_cons]; omega)
  | .sequenceOf type, wellFormed => by
    intro outer value opt name o more tagged _ set legal complete left room
    simp only [Ty.nesting] at room
    simp only [Ty.decode]
    refine reads_member left.error (reads_sequenceOf tagged (getD_legal set (by decide)) left (by omega)
      (fun entry => ?_) name) opt name
    intro element inside
    obtain ⟨v, rfl, completes⟩ := complete element inside
    obtain ⟨tag, -, leads⟩ := type.leads none v wellFormed (by simp) (by simp)
    refine ⟨v, rfl, ⟨tag, leads⟩, fun p more left tClass stack => ?_⟩
    exact type.decodable wellFormed none v false none p more tClass (by simp) (by simp) (legal v inside) completes left
      (by rw [stack, length_cons]; omega)
  | .choice arms, wellFormed => by
    intro outer value opt name o more tagged taggable set legal complete left room
    cases outer with
    | some => exact absurd (taggable rfl) (by simp [Ty.taggable])
    | none =>
      simp only [Ty.decode]
      obtain ⟨first, inside, leads⟩ := arms.leads value wellFormed
      obtain ⟨o', returned, consumed⟩ := arms.decodable value wellFormed legal complete id (.inl rfl) tagged left
        (leads.append (by simp) more) room
      exact reads_member left.error ⟨o', (returns_choice_iff left).mpr returned, consumed⟩ opt name
  | .implicit zclass number type, wellFormed => by
    intro outer value opt name o more tagged _ set legal complete left room
    have under := type.decodable wellFormed.2.2 (some (outer.getD (zclass, number))) value opt name _ more
      (defaultTag_tagged tagged zclass number) (fun _ => wellFormed.2.1)
      (by rintro _ ⟨⟩; exact getD_legal set wellFormed.1) legal complete (left.defaultTag zclass number)
      (by rw [defaultTag_stack]; exact room)
    obtain ⟨o', returned, consumed⟩ := under
    refine ⟨o', ?_, consumed.of_defaultTag⟩
    simp only [Ty.decode]
    exact (returns_implicitSettag_bind_iff left.error _ _ _ _).mpr returned
  | .explicit zclass number type, wellFormed => by
    intro outer value opt name o more tagged _ set legal complete left room
    simp only [Ty.nesting] at room
    simp only [Ty.decode]
    refine reads_explicit zclass number tagged (getD_legal set wellFormed.1) left (by omega) (fun p entered => ?_) opt
      name
    obtain ⟨entry, stack⟩ := entered.stack
    exact type.decodable wellFormed.2 none value opt name p [] entered.tClass (by simp) (by simp) legal complete
      (by rw [append_nil]; exact entered.left) (by rw [stack, length_cons]; omega)
  | .bool, wellFormed | .bitstring, wellFormed | .any, wellFormed => wellFormed.elim

theorem Members.decodable : ∀ (members : Members) (values : members.Val), members.WellFormed → members.Legal values →
    members.Complete values → ∀ {o : Handle}, o.tClass = -1 → o.Left (members.octets values) → o.stack ≠ [] →
      o.stack.length + members.nesting ≤ odrMaxStack → Reads members.decode o values (members.octets values).length
  | .nil, _, _, _, _, o, tClass, left, _, _ => by
    refine ⟨o, ?_, left.consumed_nothing tClass⟩
    rw [Members.decode, returns_pure_iff]
    exact ⟨rfl, rfl⟩
  | .cons name opt type rest, (some value, values), wellFormed, legal, complete, o, tClass, left, enclosed, room => by
    simp only [Members.nesting] at room
    obtain ⟨p, returned, consumed⟩ := type.decodable wellFormed.1 none value opt (some name) o (rest.octets values)
      tClass (by simp) (by simp) (legal.1 value rfl) (complete.2.1 value rfl) left (by omega)
    obtain ⟨q, later, last⟩ := rest.decodable values wellFormed.2.1 legal.2 complete.2.2 consumed.tClass
      (left.consumed consumed enclosed) (consumed.stack ▸ enclosed) (by rw [consumed.stack]; omega)
    refine ⟨q, ?_, ?_⟩
    · rw [Members.decode]
      refine returned.bind ?_
      dsimp only
      rw [if_pos rfl]
      refine later.bind ?_
      rw [returns_pure_iff]
      exact ⟨rfl, rfl⟩
    · have whole := consumed.toRead.consumed last
      rw [← length_append] at whole
      exact whole
  | .cons name opt type rest, (none, values), wellFormed, legal, complete, o, tClass, left, enclosed, room => by
    obtain rfl := complete.1 rfl
    simp only [Members.nesting] at room
    obtain ⟨first, leads, inside⟩ := rest.leads values wellFormed.2.1 complete.2.2
    obtain ⟨p, returned, read, after⟩ := type.skippable wellFormed.1 none (some name) o (rest.octets values) first
      tClass (by simp) left leads (fun empty => absurd empty enclosed) (by
        intro tag own same
        exact wellFormed.2.2 rfl tag own (inside tag same))
    obtain ⟨q, later, last⟩ := rest.decodable values wellFormed.2.1 legal.2 complete.2.2 read.tClass after
      (read.stack ▸ enclosed) (by rw [read.stack]; omega)
    refine ⟨q, ?_, ?_⟩
    · rw [Members.decode]
      refine returned.bind ?_
      dsimp only
      rw [if_pos rfl]
      refine later.bind ?_
      rw [returns_pure_iff]
      exact ⟨rfl, rfl⟩
    · have whole := read.consumed last
      rw [Nat.zero_add] at whole
      exact whole

theorem Arms.decodable {α : Type} : ∀ (arms : Arms) (value : arms.Val), arms.WellFormed → arms.Legal value →
    arms.Complete value → ∀ (inject : arms.Val → α) {seen : Option (Int × Int)} {o : Handle} {more : List UInt8}
      {first : Tag}, Seen seen (some first) → o.Tagged none → o.Left (arms.octets value ++ more) →
        Leads (arms.octets value ++ more) (some first) → o.stack.length + arms.nesting ≤ odrMaxStack →
          Reads (choiceLoop (-1) seen (arms.decode inject)) o (inject value) (arms.octets value).length
  | .cons .none zclass number which name type rest, .inl value, wellFormed, legal, complete, inject, seen, o, more,
      first, known, tagged, left, leads, room => by
      rw [Arms.nesting, if_neg (by simp)] at room
      obtain ⟨o', returned, consumed⟩ := (type.decodable wellFormed.1 none value true (some name) o more tagged (by simp)
        (by simp) legal complete left (by omega)).map fun value => inject (.inl value)
      refine ⟨o', ?_, consumed⟩
      rw [Arms.decode]
      exact returns_choiceLoop_take rfl returned
  | .cons .implicit zclass number which name type rest, .inl value, wellFormed, legal, complete, inject, seen, o, more,
      first, known, tagged, left, leads, room => by
      rw [Arms.nesting, if_neg (by simp)] at room
      have set : ∀ tag ∈ some (zclass, number), Tag.Legal tag := by
        rintro _ ⟨⟩
        exact wellFormed.2.2.1 (by simp)
      obtain ⟨tag, inside, own⟩ := type.leads (some (zclass, number)) value wellFormed.1
        (fun _ => wellFormed.2.2.2.1 rfl) set
      obtain rfl := mem_singleton.mp inside
      obtain rfl := leads.unique (own.append (by simp) more)
      have peeked := returns_choicePeek known left leads fun _ => leads.ne_nil
      obtain ⟨o', returned, consumed⟩ := (type.decodable wellFormed.1 (some (zclass, number)) value false (some name) _
        more (defaultTag_tagged tagged zclass number) (fun _ => wellFormed.2.2.2.1 rfl) set legal complete
        (left.defaultTag zclass number) (by rw [defaultTag_stack]; omega)).map fun value => inject (.inl value)
      refine ⟨o', ?_, consumed.of_defaultTag⟩
      rw [Arms.decode]
      refine returns_choiceLoop_match (by simp) peeked ?_
      rw [taggedArm, if_pos rfl]
      exact (returns_implicitSettag_bind_iff left.error _ _ _ _).mpr returned
  | .cons .explicit zclass number which name type rest, .inl value, wellFormed, legal, complete, inject, seen, o, more,
      first, known, tagged, left, leads, room => by
      rw [Arms.nesting, if_pos rfl] at room
      have legalTag := wellFormed.2.2.1 (by simp)
      obtain rfl := leads.unique ((leads_constructed legalTag (type.octets none value)).append (by simp) more)
      have peeked := returns_choicePeek known left leads fun _ => leads.ne_nil
      obtain ⟨p, begins, entered⟩ := enters_constructedBegin zclass number tagged legalTag left (by omega) none
      obtain ⟨entry, stack⟩ := entered.stack
      have reads := (type.decodable wellFormed.1 none value false (some name) p [] entered.tClass (by simp) (by simp)
        legal complete (by rw [append_nil]; exact entered.left)
        (by rw [stack, length_cons]; omega)).map fun value => inject (.inl value)
      obtain ⟨o', returned, consumed⟩ := entered.reads reads
      refine ⟨o', ?_, consumed⟩
      rw [Arms.decode]
      refine returns_choiceLoop_match (by simp) peeked ?_
      rw [taggedArm, if_neg (by simp)]
      refine begins.bind ?_
      rw [if_pos rfl]
      exact returned
  | .cons tagmode zclass number which name type rest, .inr value, wellFormed, legal, complete, inject, seen, o, more,
      first, known, tagged, left, leads, room => by
      rw [Arms.nesting] at room
      obtain ⟨tag, inside, own⟩ := rest.leads value wellFormed.2.1
      obtain rfl := leads.unique (own.append (by simp) more)
      have distinct := wellFormed.2.2.2.2
      rw [Arms.decode]
      by_cases untagged : tagmode = .none
      · rw [if_pos untagged] at distinct
        obtain ⟨p, passed, read, after⟩ := type.skippable wellFormed.1 none (some name) o _ (some first) tagged (by simp)
          left leads (fun _ => leads.ne_nil) fun tag own same => distinct tag own (Option.some.inj same ▸ inside)
        obtain ⟨o', returned, consumed⟩ := rest.decodable value wellFormed.2.1 legal complete
          (fun value => inject (.inr value)) known read.tClass after leads (by rw [read.stack]; omega)
        refine ⟨o', returns_choiceLoop_pass untagged ?_ returned, ?_⟩
        · refine passed.bind ?_
          simp
        · have whole := read.consumed consumed
          rw [Nat.zero_add] at whole
          exact whole
      · rw [if_neg untagged] at distinct
        have peeked := returns_choicePeek known left leads fun _ => leads.ne_nil
        obtain ⟨o', returned, consumed⟩ := rest.decodable value wellFormed.2.1 legal complete
          (fun value => inject (.inr value)) (.inr rfl) tagged left leads (by omega)
        refine ⟨o', returns_choiceLoop_differ untagged peeked ?_ returned, consumed⟩
        rintro ⟨sameTag, sameClass⟩
        have same : first = (zclass, number) := Prod.ext (Int.ofNat.inj sameClass) (Int.ofNat.inj sameTag)
        exact distinct first (by rw [same]; exact mem_singleton_self _) inside

end

end Yaz.Odr
