import Yaz.Ccl.Bibsets
import Yaz.Zoom.SortSpec

/-! Definitions of qualifiers: `ccl_qual_field2` of `cclqfile.c`.

A string has the address where it was allocated, and what is released is noted. The tokenizer is `move`, which may not return.
-/

set_option autoImplicit false

namespace Yaz.Ccl.QualFields
open List hiding set
open Yaz.Comstack (ascii isDigit)
open Yaz.Json (isSpace)
open Yaz.Text (TokCfg TokParse tokString yazTokCfgCreate yazTokCfgSingleTokens yazTokMove yazTokParseBuf)

structure Str where
  address : Nat
  octets : List UInt8
  deriving DecidableEq

structure Heap where
  fresh : Nat
  freed : List Nat
  deriving DecidableEq

/-- The string that `xstrdup` gives. -/
def Heap.str (h : Heap) (octets : List UInt8) : Str := { address := h.fresh, octets := octets }

def Heap.xstrdup (h : Heap) : Heap := { h with fresh := h.fresh + 1 }

/-- `xfree` of these, one after the other. -/
def Heap.xfree (h : Heap) (addresses : List Nat) : Heap := { h with freed := h.freed ++ addresses }

def addressOf (s : Option Str) : List Nat := (s.map Str.address).toList

structure OwnedSet where
  set : QualSet
  strings : List Nat
  deriving DecidableEq

/-- The strings that `ccl_qual_rm` releases. -/
def cclQualRm (b : OwnedSet) (h : Heap) : Heap := h.xfree b.strings

/-! ### Values -/

def CCL_BIB1_POS : Int := 3
def CCL_BIB1_COM : Int := 6

/-- Whether `ccl_stricmp` is 0. -/
def cclStricmp (s1 s2 : List UInt8) : Bool := s1.map cclToupper = s2.map cclToupper

/-- `sscanf` with `%d`, if a number is read. -/
def scanD (s : List UInt8) : Option Int :=
  let s := s.dropWhile isSpace
  let digits := if s.head? = some 43 ∨ s.head? = some 45 then s.drop 1 else s
  if (digits.head?.map isDigit).getD false then some (Zoom.atoi s).toInt else none

def namedValue (names : List (List UInt8 × Int)) (valueStr : List UInt8) (value : Int) : Int :=
  ((names.find? fun name => cclStricmp valueStr name.1).map Prod.snd).getD value

def relNames : List (List UInt8 × Int) :=
  [(ascii "o", CCL_BIB1_REL_ORDER), (ascii "r", CCL_BIB1_REL_PORDER), (ascii "omiteq", CCL_BIB1_REL_OMIT_EQUALS)]

def strNames : List (List UInt8 × Int) :=
  [(ascii "pw", CCL_BIB1_STR_WP), (ascii "al", CCL_BIB1_STR_AND_LIST), (ascii "ol", CCL_BIB1_STR_OR_LIST),
    (ascii "ag", CCL_BIB1_STR_AUTO_GROUP), (ascii "sl", CCL_BIB1_STR_SPLIT_LIST)]

def truNames : List (List UInt8 × Int) :=
  [(ascii "l", CCL_BIB1_TRU_CAN_LEFT), (ascii "r", CCL_BIB1_TRU_CAN_RIGHT), (ascii "b", CCL_BIB1_TRU_CAN_BOTH),
    (ascii "n", CCL_BIB1_TRU_CAN_NONE), (ascii "x", CCL_BIB1_TRU_CAN_REGEX), (ascii "z", CCL_BIB1_TRU_CAN_Z3958)]

def letterCase (c : UInt8) : Option (Int × List (List UInt8 × Int)) :=
  if c = 117 ∨ c = 85 then some (CCL_BIB1_USE, [])
  else if c = 114 ∨ c = 82 then some (CCL_BIB1_REL, relNames)
  else if c = 112 ∨ c = 80 then some (CCL_BIB1_POS, [])
  else if c = 115 ∨ c = 83 then some (CCL_BIB1_STR, strNames)
  else if c = 116 ∨ c = 84 then some (CCL_BIB1_TRU, truNames)
  else if c = 99 ∨ c = 67 then some (CCL_BIB1_COM, [])
  else none

def letterType (c : UInt8) (valueStr : List UInt8) (type value : Int) : Int × Int :=
  match letterCase c with
  | some (type, names) => (type, namedValue names valueStr value)
  | none => (type, value)

def typeAndValue (typeStr valueStr : List UInt8) (type value : Int) : Option (Int × Int) :=
  let found :=
    match scanD typeStr with
    | some number => some (number, value)
    | none =>
      match typeStr with
      | [c] => some (letterType c valueStr type value)
      | _ => none
  found.filter fun found => found.1 ≠ 0

structure Pair where
  attset : Option Str
  type : Int
  value : Int
  svalue : Option Str
  deriving DecidableEq

/-- The attribute that `ccl_qual_add_set` makes of an entry. -/
def Pair.attr (p : Pair) : Attr :=
  { set := p.attset.map Str.octets, type := p.type, value := p.svalue.elim (.numeric p.value) fun s => .string s.octets }

def Pair.strings (p : Pair) : List Nat := addressOf p.attset ++ addressOf p.svalue

def maxQual : Nat := 128

/-- The variables of `ccl_qual_field2`; the arrays up to `pair_no`. -/
structure Locals where
  pairs : List Pair
  typeStr : Option Str
  heap : Heap
  deriving DecidableEq

def Locals.store (l : Locals) (attset : Option Str) (type value : Int) (valueStr : List UInt8) : Locals :=
  if value ≠ 0 then { l with pairs := l.pairs ++ [{ attset := attset, type := type, value := value, svalue := none }] }
  else if (valueStr.head?.map isDigit).getD false then
    { l with pairs := l.pairs ++ [{ attset := attset, type := type, value := (Zoom.atoi valueStr).toInt, svalue := none }] }
  else
    { l with
      pairs := l.pairs ++ [{ attset := attset, type := type, value := 0, svalue := some (l.heap.str valueStr) }]
      heap := l.heap.xstrdup }

/-! ### Reading -/

structure Failed where
  addinfo : List UInt8
  locals : Locals

inductive Outcome where
  | failed (error : Failed)
  | set (locals : Locals)
  | combi (qlist : List Str) (heap : Heap)

section
variable (move : TokParse → Option (Int × TokParse))

def valueLoop : (room : Nat) → (typeStr : List UInt8) → (attset : Option Str) → (type value : Int) → TokParse → Locals →
    Option (Except Failed (Int × TokParse × Locals))
  | 0, _, _, _, _, _, _ => none
  | room + 1, typeStr, attset, type, value, tp, l =>
    (move tp).bind fun (t, tp) =>
      if t ≠ tokString then some (.error { addinfo := ascii "value token expected", locals := l })
      else
        match typeAndValue typeStr tp.wrString type value with
        | none => some (.error { addinfo := ascii "bad attribute type", locals := l })
        | some (type, value) =>
          let l := l.store attset type value tp.wrString
          if room = 0 then some (.error { addinfo := ascii "too many attribute values", locals := l })
          else
            (move tp).bind fun (t, tp) =>
              if t ≠ 44 then some (.ok (t, tp, l)) else valueLoop room typeStr attset type value tp l

def aliasLoop : (calls : Nat) → (t : Int) → TokParse → (qlist : List Str) → Heap → Option (List Str × Heap)
  | 0, _, _, _, _ => none
  | calls + 1, t, tp, qlist, h =>
    if t = tokString then
      (move tp).bind fun (t, next) =>
        if qlist.length < 9 then aliasLoop calls t next (qlist ++ [h.str tp.wrString]) h.xstrdup else aliasLoop calls t next qlist h
    else some (qlist, h)

/-- The head of an attribute: the set and the type, or the first of a list of aliases. -/
inductive Head where
  | failed (error : Failed)
  | attribute (attset : Option Str) (typeStr : List UInt8) (tp : TokParse) (locals : Locals)
  | alias (lead : Str) (t : Int) (tp : TokParse) (locals : Locals)

def readHead (tp : TokParse) (l : Locals) : Option Head :=
  let lead := l.heap.str tp.wrString
  let l := { l with heap := l.heap.xstrdup }
  (move tp).bind fun (t, tp) =>
    if t = 44 then
      (move tp).bind fun (t, tp) =>
        if t ≠ tokString then some (.failed { addinfo := ascii "token expected", locals := l })
        else
          let typeStr := l.heap.str tp.wrString
          let l := { l with typeStr := some typeStr, heap := (l.heap.xfree (addressOf l.typeStr)).xstrdup }
          (move tp).map fun (t, tp) =>
            if t ≠ 61 then .failed { addinfo := ascii "= expected", locals := l } else .attribute (some lead) typeStr.octets tp l
    else if t = 61 then
      some (.attribute none lead.octets tp { l with typeStr := some lead, heap := l.heap.xfree (addressOf l.typeStr) })
    else some (.alias lead t tp l)

def fieldLoop (calls : Nat) : (rounds : Nat) → (t : Int) → TokParse → Locals → Option Outcome
  | 0, _, _, _ => none
  | rounds + 1, t, tp, l =>
    if t ≠ tokString then some (.set l)
    else
      (readHead move tp l).bind fun head =>
        match head with
        | .failed error => some (.failed error)
        | .alias lead t tp l => (aliasLoop move calls t tp [lead] l.heap).map fun (qlist, h) => .combi qlist h
        | .attribute attset typeStr tp l =>
          (valueLoop move (maxQual - l.pairs.length) typeStr attset 0 0 tp l).bind fun values =>
            match values with
            | .error error => some (.failed error)
            | .ok (t, tp, l) => fieldLoop calls rounds t tp l

end

/-- What `ccl_qual_field2` returns and leaves. -/
structure FieldResult where
  r : Int
  addinfo : Option (List UInt8)
  bibset : OwnedSet
  heap : Heap
  deriving DecidableEq

/-- The end of `ccl_qual_field2`. -/
def Outcome.result (b : OwnedSet) (qualName : List UInt8) : Outcome → FieldResult
  | .failed error =>
    { r := -1, addinfo := some error.addinfo, bibset := b
      heap := (error.locals.heap.xfree (addressOf error.locals.typeStr)).xfree (error.locals.pairs.flatMap Pair.strings) }
  | .set l =>
    { r := 0, addinfo := none
      bibset :=
        { set := cclQualAddSet b.set qualName (l.pairs.map Pair.attr), strings := b.strings ++ l.pairs.flatMap Pair.strings }
      heap := l.heap.xfree (addressOf l.typeStr) }
  | .combi qlist h =>
    { r := 0, addinfo := none, bibset := { b with set := cclQualAddCombi b.set qualName (qlist.map Str.octets) }
      heap := h.xfree (qlist.map Str.address) }

def fieldCfg : TokCfg := yazTokCfgSingleTokens yazTokCfgCreate [44, 61]

def fieldMove (rounds : Nat) : TokParse → Option (Int × TokParse) := yazTokMove fieldCfg rounds

def cclQualField2 (b : OwnedSet) (h : Heap) (cp qualName : List UInt8) : Option FieldResult :=
  let rounds := cp.length + 1
  (fieldMove rounds (yazTokParseBuf cp)).bind fun (t, tp) =>
    (fieldLoop (fieldMove rounds) rounds (maxQual + 1) t tp { pairs := [], typeStr := none, heap := h }).map (Outcome.result b qualName)

structure Spec where
  set : Option (List UInt8)
  type : List UInt8
  values : List (List UInt8)
  deriving DecidableEq

/-- How a definition ends: well, with a list of aliases, or in the midst of a list, with the type and the values if they were read. -/
inductive Ending where
  | ended
  | aliases (names : List (List UInt8))
  | broken (set type : Option (List UInt8)) (values : List (List UInt8))
  deriving DecidableEq

structure Definition where
  specs : List Spec
  ending : Ending
  deriving DecidableEq

def Definition.behind (d : Definition) (s : Spec) : Definition := { d with specs := s :: d.specs }

def typeOf (typeStr : List UInt8) : Option Int := (typeAndValue typeStr [] 0 0).map Prod.fst

section
variable (move : TokParse → Option (Int × TokParse))

def listValues : (room : Nat) → (typeStr : List UInt8) → TokParse → Option (List (List UInt8) × Option (Int × TokParse))
  | 0, _, _ => none
  | room + 1, typeStr, tp =>
    (move tp).bind fun (t, tp) =>
      if t ≠ tokString ∨ typeOf typeStr = none then some ([], none)
      else if room = 0 then some ([tp.wrString], none)
      else
        (move tp).bind fun (t, next) =>
          if t ≠ 44 then some ([tp.wrString], some (t, next))
          else (listValues room typeStr next).map fun (values, rest) => (tp.wrString :: values, rest)

def listAliases : (calls : Nat) → (t : Int) → TokParse → Option (List (List UInt8))
  | 0, _, _ => none
  | calls + 1, t, tp =>
    if t = tokString then (move tp).bind fun (t, next) => (listAliases calls t next).map (tp.wrString :: ·) else some []

def readDefinition (calls : Nat) : (rounds entries : Nat) → (t : Int) → TokParse → Option Definition
  | 0, _, _, _ => none
  | rounds + 1, entries, t, tp =>
    if t ≠ tokString then some { specs := [], ending := .ended }
    else
      let lead := tp.wrString
      let list (set : Option (List UInt8)) (type : List UInt8) (tp : TokParse) : Option Definition :=
        (listValues move (maxQual - entries) type tp).bind fun (values, rest) =>
          match rest with
          | none => some { specs := [], ending := .broken set (some type) values }
          | some (t, tp) => (readDefinition calls rounds (entries + values.length) t tp).map fun d => d.behind { set, type, values }
      (move tp).bind fun (t, tp) =>
        if t = 44 then
          (move tp).bind fun (t, tp) =>
            if t ≠ tokString then some { specs := [], ending := .broken (some lead) none [] }
            else
              (move tp).bind fun (t, next) =>
                if t ≠ 61 then some { specs := [], ending := .broken (some lead) (some tp.wrString) [] }
                  else list (some lead) tp.wrString next
        else if t = 61 then list none lead tp
        else (listAliases move calls t tp).map fun names => { specs := [], ending := .aliases (lead :: names) }

end

def definitionOf (cp : List UInt8) : Option Definition :=
  let rounds := cp.length + 1
  (fieldMove rounds (yazTokParseBuf cp)).bind fun (t, tp) => readDefinition (fieldMove rounds) rounds (maxQual + 1) 0 t tp

def pseudo (typeStr valueStr : List UInt8) : Int := ((typeAndValue typeStr valueStr 0 0).map Prod.snd).getD 0

/-- The value of an attribute, where `value` has been set. -/
def attrValue (value : Int) (valueStr : List UInt8) : AttrValue :=
  if value ≠ 0 then .numeric value
  else if (valueStr.head?.map isDigit).getD false then .numeric (Zoom.atoi valueStr).toInt
  else .string valueStr

def Spec.alone (s : Spec) (valueStr : List UInt8) : Attr :=
  { set := s.set, type := (typeOf s.type).getD 0, value := attrValue (pseudo s.type valueStr) valueStr }

def attrsOf (b : QualSet) (name : List UInt8) : List Attr := (cclQualLookup b name).elim [] fun q => q.attrList

structure OwnedSet.Owned (b : OwnedSet) (h : Heap) : Prop where
  once : b.strings.Nodup
  allocated : ∀ address ∈ b.strings, address < h.fresh

structure ReadOnce (b : OwnedSet) (h : Heap) (qualName : List UInt8) (d : Definition) (result : FieldResult) : Prop where
  gains : result.r = 0 → attrsOf result.bibset.set qualName = attrsOf b.set qualName ++ d.specs.flatMap fun s => s.values.map s.alone
  aliases : ∀ names, d.ending = .aliases names → result.bibset.set = cclQualAddCombi b.set qualName names
  once : (cclQualRm result.bibset { result.heap with freed := [] }).freed.Nodup
  unchanged : result.r = -1 → result.bibset = b
  released : result.r = -1 → result.heap.freed.Perm (h.freed ++ List.range' h.fresh (result.heap.fresh - h.fresh))

/-- What `value` is behind a string. -/
def carry (typeStr : List UInt8) (value : Int) (valueStr : List UInt8) : Int :=
  if pseudo typeStr valueStr ≠ 0 then pseudo typeStr valueStr else value

/-- No value that is not pseudo comes behind one that is, unless it is the same number; `value` is the one before. -/
def Uncarried (typeStr : List UInt8) : (value : Int) → List (List UInt8) → Prop
  | _, [] => True
  | value, valueStr :: rest =>
    (pseudo typeStr valueStr = 0 → value ≠ 0 → attrValue 0 valueStr = .numeric value) ∧
      Uncarried typeStr (carry typeStr value valueStr) rest

/-- When a definition is read so: a set is given for one value only; a list of aliases is alone and has at most nine names, unless the
qualifier is known; and a list with a set does not break off before its value. -/
def DefinedOnce (b : QualSet) (qualName : List UInt8) (d : Definition) : Prop :=
  (∀ s ∈ d.specs, s.set ≠ none → s.values.length ≤ 1) ∧
    match d.ending with
    | .ended => ∀ s ∈ d.specs, Uncarried s.type 0 s.values
    | .aliases names => d.specs = [] ∧ (names.length ≤ 9 ∨ ∃ q ∈ b.list, q.name = qualName)
    | .broken set _ values => set ≠ none → values.length = 1

/-! ### Values and lists -/

theorem letterCase_named {c : UInt8} {type : Int} {names : List (List UInt8 × Int)} (is : letterCase c = some (type, names)) :
    type ≠ 0 ∧ ∀ name ∈ names, name.2 ≠ 0 := by
  unfold letterCase at is
  split_ifs at is <;> obtain ⟨rfl, rfl⟩ := Prod.mk.inj (Option.some.inj is) <;> decide

theorem namedValue_eq {names : List (List UInt8 × Int)} (named : ∀ name ∈ names, name.2 ≠ 0) (valueStr : List UInt8) (value : Int) :
    namedValue names valueStr value = if namedValue names valueStr 0 ≠ 0 then namedValue names valueStr 0 else value := by
  unfold namedValue
  cases found : names.find? fun name => cclStricmp valueStr name.1 with
  | none => simp
  | some name => simp [named name (mem_of_find?_eq_some found)]

theorem typeAndValue_eq {typeStr : List UInt8} (valueStr : List UInt8) {type : Int} (value : Int)
    (typed : type = 0 ∨ typeOf typeStr = some type) :
    typeAndValue typeStr valueStr type value =
      (typeOf typeStr).map fun type => (type, carry typeStr value valueStr) := by
  unfold carry pseudo typeOf at *
  unfold typeAndValue at *
  cases number : scanD typeStr with
  | some n =>
    by_cases zero : n = 0
    · simp [Option.filter, zero]
    · simp [Option.filter, zero]
  | none =>
    match typeStr with
    | [] => simp
    | [c] =>
      simp only [number, letterType] at typed ⊢
      rcases Option.eq_none_or_eq_some (letterCase c) with is | ⟨⟨known, names⟩, is⟩
      · have zero : type = 0 := by simpa [is, Option.filter] using typed
        simp [is, Option.filter, zero]
      · obtain ⟨notZero, named⟩ := letterCase_named is
        simp only [is, Option.filter, notZero, ne_eq, not_false_eq_true, decide_true, if_true, Option.map_some, Option.getD_some]
        rw [namedValue_eq named]
    | _ :: _ :: _ => simp

def Locals.fill (attset : Option Str) (typeStr : List UInt8) : (value : Int) → List (List UInt8) → Locals → Locals
  | _, [], l => l
  | value, valueStr :: rest, l =>
    fill attset typeStr (carry typeStr value valueStr) rest
      (l.store attset ((typeOf typeStr).getD 0) (carry typeStr value valueStr) valueStr)

def Locals.head (l : Locals) (set : Option (List UInt8)) (type : List UInt8) : Option Str × Locals :=
  match set with
  | some set =>
    (some (l.heap.str set),
      { l with
        typeStr := some (l.heap.xstrdup.str type)
        heap := (l.heap.xstrdup.xfree (addressOf l.typeStr)).xstrdup })
  | none => (none, { l with typeStr := some (l.heap.str type), heap := l.heap.xstrdup.xfree (addressOf l.typeStr) })

def Locals.list (l : Locals) (set : Option (List UInt8)) (type : List UInt8) (values : List (List UInt8)) : Locals :=
  (l.head set type).2.fill (l.head set type).1 type 0 values

def Locals.lists (l : Locals) (specs : List Spec) : Locals := specs.foldl (fun l s => l.list s.set s.type s.values) l

def Locals.broken (l : Locals) (set type : Option (List UInt8)) (values : List (List UInt8)) : Locals :=
  match type with
  | none => { l with heap := l.heap.xstrdup }
  | some type => l.list set type values

def Reads (l : Locals) (d : Definition) (outcome : Outcome) : Prop :=
  (∀ s ∈ d.specs, s.values ≠ []) ∧
    match d.ending with
    | .ended => outcome = .set (l.lists d.specs)
    | .aliases names => ∃ qlist h, outcome = .combi qlist h ∧ qlist.map Str.octets = names.take 9
    | .broken set type values =>
      (∃ addinfo, outcome = .failed { addinfo := addinfo, locals := (l.lists d.specs).broken set type values }) ∧
        (type = none → set ≠ none ∧ values = [])

theorem Reads.behind {l : Locals} {d : Definition} {outcome : Outcome} {s : Spec} (reads : Reads (l.list s.set s.type s.values) d outcome)
    (some : s.values ≠ []) : Reads l (d.behind s) outcome :=
  ⟨forall_mem_cons.mpr ⟨some, reads.1⟩, reads.2⟩

variable (l : Locals)

@[simp] theorem Locals.store_pairs_length (attset : Option Str) (type value : Int) (valueStr : List UInt8) :
    (l.store attset type value valueStr).pairs.length = l.pairs.length + 1 := by
  unfold Locals.store
  split_ifs <;> simp

theorem Locals.fill_pairs_length (attset : Option Str) (typeStr : List UInt8) (value : Int) (values : List (List UInt8)) (l : Locals) :
    (Locals.fill attset typeStr value values l).pairs.length = l.pairs.length + values.length := by
  induction values generalizing value l with
  | nil => rfl
  | cons _ _ ih =>
    rw [Locals.fill, ih, Locals.store_pairs_length, length_cons]
    omega

theorem Locals.list_pairs_length (set : Option (List UInt8)) (type : List UInt8) (values : List (List UInt8)) :
    (l.list set type values).pairs.length = l.pairs.length + values.length := by
  rw [Locals.list, Locals.fill_pairs_length]
  cases set <;> rfl

section
variable {move : TokParse → Option (Int × TokParse)}

/-- The loop over values fills in what it reads. -/
theorem valueLoop_fills {room : Nat} {typeStr : List UInt8} {attset : Option Str} {type value : Int} {tp : TokParse} {l : Locals}
    {outcome : Except Failed (Int × TokParse × Locals)} (typed : type = 0 ∨ typeOf typeStr = some type)
    (run : valueLoop move room typeStr attset type value tp l = some outcome) :
    ∃ values rest, listValues move room typeStr tp = some (values, rest) ∧
      match rest with
      | none => ∃ addinfo, outcome = .error { addinfo := addinfo, locals := Locals.fill attset typeStr value values l }
      | some (t, tp) => values ≠ [] ∧ outcome = .ok (t, tp, Locals.fill attset typeStr value values l) := by
  induction room generalizing type value tp l with
  | zero => cases run
  | succ room ih =>
    obtain ⟨⟨t, tp'⟩, moved, run⟩ := Option.bind_eq_some_iff.mp run
    rw [listValues, moved, Option.bind_some]
    dsimp only at run ⊢
    by_cases string : t = tokString
    · rw [if_neg (not_not_intro string), typeAndValue_eq tp'.wrString value typed] at run
      cases known : typeOf typeStr with
      | none =>
        rw [known] at run
        obtain rfl := Option.some.inj run
        exact ⟨[], none, if_pos (Or.inr rfl), _, rfl⟩
      | some type' =>
        rw [known] at run
        simp only [Option.map_some] at run
        rw [if_neg (by simp [string])]
        have filled : (Locals.fill attset typeStr value [tp'.wrString] l) =
          l.store attset type' (carry typeStr value tp'.wrString) tp'.wrString := by
          simp [Locals.fill, known]
        by_cases last : room = 0
        · rw [if_pos last] at run ⊢
          obtain rfl := Option.some.inj run
          exact ⟨_, none, rfl, _, by rw [filled]⟩
        · rw [if_neg last] at run ⊢
          obtain ⟨⟨t, next⟩, moved, run⟩ := Option.bind_eq_some_iff.mp run
          rw [moved, Option.bind_some]
          by_cases ends : t = 44
          · rw [if_neg (not_not_intro ends)] at run ⊢
            obtain ⟨values, rest, are, fills⟩ := ih (Or.inr known) run
            refine ⟨tp'.wrString :: values, rest, by rw [are]; rfl, ?_⟩
            have more : Locals.fill attset typeStr value (tp'.wrString :: values) l =
                Locals.fill attset typeStr (carry typeStr value tp'.wrString) values
                  (l.store attset type' (carry typeStr value tp'.wrString) tp'.wrString) := by
              simp [Locals.fill, known]
            rw [more]
            cases rest with
            | none => exact fills
            | some => exact ⟨cons_ne_nil _ _, fills.2⟩
          · rw [if_pos ends] at run ⊢
            obtain rfl := Option.some.inj run
            exact ⟨_, _, rfl, cons_ne_nil _ _, by rw [filled]⟩
    · rw [if_pos string] at run
      obtain rfl := Option.some.inj run
      exact ⟨[], none, if_pos (Or.inl string), _, rfl⟩

theorem aliasLoop_names {calls : Nat} {t : Int} {tp : TokParse} {qlist : List Str} {h : Heap} {out : List Str × Heap}
    (run : aliasLoop move calls t tp qlist h = some out) :
    ∃ names, listAliases move calls t tp = some names ∧
      (qlist.length ≤ 9 → out.1.map Str.octets = (qlist.map Str.octets ++ names).take 9) := by
  induction calls generalizing t tp qlist h with
  | zero => cases run
  | succ _ ih =>
    rw [aliasLoop] at run
    rw [listAliases]
    by_cases string : t = tokString
    · rw [if_pos string] at run ⊢
      obtain ⟨⟨t', next⟩, moved, run⟩ := Option.bind_eq_some_iff.mp run
      rw [moved, Option.bind_some]
      dsimp only at run ⊢
      by_cases room : qlist.length < 9
      · rw [if_pos room] at run
        obtain ⟨names, are, taken⟩ := ih run
        refine ⟨tp.wrString :: names, by rw [are]; rfl, fun _ => ?_⟩
        rw [taken (by rw [length_append]; exact room)]
        simp [Heap.str]
      · rw [if_neg room] at run
        obtain ⟨names, are, taken⟩ := ih run
        refine ⟨tp.wrString :: names, by rw [are]; rfl, fun few => ?_⟩
        -- the array is full
        have full : (qlist.map Str.octets).length = 9 := by rw [length_map]; omega
        rw [taken few, take_append_of_le_length full.ge, take_append_of_le_length full.ge]
    · rw [if_neg string] at run ⊢
      obtain rfl := Option.some.inj run
      refine ⟨[], rfl, fun few => ?_⟩
      rw [append_nil, take_of_length_le (by simpa using few)]

theorem fieldLoop_list {calls rounds : Nat} {set : Option (List UInt8)} {type : List UInt8} {tp : TokParse} {l : Locals} {outcome : Outcome}
    (ih : ∀ {t tp l outcome}, fieldLoop move calls rounds t tp l = some outcome →
      ∃ d, readDefinition move calls rounds l.pairs.length t tp = some d ∧ Reads l d outcome)
    (run : ((valueLoop move (maxQual - l.pairs.length) type (l.head set type).1 0 0 tp (l.head set type).2).bind fun values =>
      match values with
      | .error error => some (Outcome.failed error)
      | .ok (t, tp, l) => fieldLoop move calls rounds t tp l) = some outcome) :
    ∃ d, ((listValues move (maxQual - l.pairs.length) type tp).bind fun (values, rest) =>
        match rest with
        | none => some { specs := [], ending := .broken set (some type) values }
        | some (t, tp) => (readDefinition move calls rounds (l.pairs.length + values.length) t tp).map fun d =>
            d.behind { set, type, values }) =
          some d ∧ Reads l d outcome := by
  obtain ⟨values, looped, run⟩ := Option.bind_eq_some_iff.mp run
  obtain ⟨list, rest, are, fills⟩ := valueLoop_fills (Or.inl rfl) looped
  rw [are, Option.bind_some]
  cases rest with
  | none =>
    obtain ⟨addinfo, rfl⟩ := fills
    obtain rfl := Option.some.inj run
    exact ⟨_, rfl, by simp, ⟨addinfo, rfl⟩, by simp⟩
  | some =>
    obtain ⟨some, rfl⟩ := fills
    obtain ⟨d, isRead, reads⟩ := ih run
    rw [show Locals.fill _ _ _ _ _ = l.list set type list from rfl, Locals.list_pairs_length] at isRead
    dsimp only
    rw [isRead]
    exact ⟨_, rfl, @Reads.behind l d outcome { set, type, values := list } reads some⟩

theorem fieldLoop_reads {calls rounds : Nat} {t : Int} {tp : TokParse} {l : Locals} {outcome : Outcome}
    (run : fieldLoop move calls rounds t tp l = some outcome) :
    ∃ d, readDefinition move calls rounds l.pairs.length t tp = some d ∧ Reads l d outcome := by
  induction rounds generalizing t tp l outcome with
  | zero => cases run
  | succ _ ih =>
    rw [fieldLoop] at run
    rw [readDefinition]
    by_cases string : t = tokString
    · rw [if_neg (not_not_intro string)] at run ⊢
      obtain ⟨head, isHead, run⟩ := Option.bind_eq_some_iff.mp run
      obtain ⟨⟨t1, tp1⟩, moved, isHead⟩ := Option.bind_eq_some_iff.mp isHead
      dsimp only at isHead ⊢
      rw [moved, Option.bind_some]
      by_cases comma : t1 = 44
      · rw [if_pos comma] at isHead ⊢
        obtain ⟨⟨t2, tp2⟩, moved, isHead⟩ := Option.bind_eq_some_iff.mp isHead
        rw [moved, Option.bind_some]
        by_cases typed : t2 = tokString
        · rw [if_neg (not_not_intro typed)] at isHead ⊢
          obtain ⟨⟨t3, tp3⟩, moved, isHead⟩ := Option.map_eq_some_iff.mp isHead
          rw [moved, Option.bind_some]
          by_cases equals : t3 = 61
          · rw [if_neg (not_not_intro equals)] at isHead ⊢
            subst isHead
            exact @fieldLoop_list _ _ _ (some tp.wrString) tp2.wrString tp3 l outcome ih run
          · rw [if_pos equals] at isHead ⊢
            subst isHead
            obtain rfl := Option.some.inj run
            exact ⟨_, rfl, by simp, ⟨_, rfl⟩, by simp⟩
        · rw [if_pos typed] at isHead ⊢
          obtain rfl := Option.some.inj isHead
          obtain rfl := Option.some.inj run
          exact ⟨_, rfl, by simp, ⟨_, rfl⟩, by simp⟩
      · rw [if_neg comma] at isHead ⊢
        by_cases equals : t1 = 61
        · rw [if_pos equals] at isHead ⊢
          obtain rfl := Option.some.inj isHead
          exact @fieldLoop_list _ _ _ none tp.wrString tp1 l outcome ih run
        · rw [if_neg equals] at isHead ⊢
          obtain rfl := Option.some.inj isHead
          obtain ⟨⟨qlist, h⟩, looped, rfl⟩ := Option.map_eq_some_iff.mp run
          obtain ⟨names, are, taken⟩ := aliasLoop_names looped
          rw [are]
          exact ⟨_, rfl, by simp, qlist, h, rfl, taken (by simp)⟩
    · rw [if_pos string] at run ⊢
      obtain rfl := Option.some.inj run
      exact ⟨_, rfl, by simp, rfl⟩

end

/-! ### Who owns a string -/

/-- All strings that were allocated are accounted for: released, the type, referred to by an entry (`own`), or by none yet (`pending`). The
references that are one too many are `extra`. -/
structure Accounts (h : Heap) (l : Locals) (pending own extra : List Nat) : Prop where
  refs : (l.pairs.flatMap Pair.strings).Perm (own ++ extra)
  all : (l.heap.freed ++ addressOf l.typeStr ++ own ++ pending).Perm (h.freed ++ List.range' h.fresh (l.heap.fresh - h.fresh))
  le : h.fresh ≤ l.heap.fresh
  nodup : (own ++ pending).Nodup
  bound : ∀ address ∈ own ++ pending, h.fresh ≤ address ∧ address < l.heap.fresh
  extra : ∀ address ∈ extra, address ∈ own

theorem accounts_start (h : Heap) : Accounts h { pairs := [], typeStr := none, heap := h } [] [] [] where
  refs := List.Perm.nil
  all := by simp [addressOf]
  le := Nat.le_refl _
  nodup := nodup_nil
  bound := by simp
  extra := by simp

/-- The string of an entry, if it has one: what `store` allocates. -/
def svalueOf (l : Locals) (value : Int) (valueStr : List UInt8) : Option Str :=
  if value ≠ 0 ∨ (valueStr.head?.map isDigit).getD false then none else some (l.heap.str valueStr)

theorem Locals.store_strings (attset : Option Str) (type value : Int) (valueStr : List UInt8) :
    (l.store attset type value valueStr).pairs.flatMap Pair.strings =
        l.pairs.flatMap Pair.strings ++ (addressOf attset ++ addressOf (svalueOf l value valueStr)) ∧
      (l.store attset type value valueStr).typeStr = l.typeStr ∧ (l.store attset type value valueStr).heap.freed = l.heap.freed ∧
      (l.store attset type value valueStr).heap.fresh = l.heap.fresh + (addressOf (svalueOf l value valueStr)).length := by
  unfold Locals.store svalueOf
  split_ifs <;> simp_all [Pair.strings, addressOf, Heap.xstrdup]

theorem svalueOf_address (value : Int) (valueStr : List UInt8) :
    addressOf (svalueOf l value valueStr) = List.range' l.heap.fresh (addressOf (svalueOf l value valueStr)).length := by
  unfold svalueOf
  split <;> rfl

variable {first fresh : Nat}

theorem range_grow (le : first ≤ fresh) (more : Nat) :
    List.range' first (fresh + more - first) = List.range' first (fresh - first) ++ List.range' fresh more := by
  have behind : first + (fresh - first) = fresh := by omega
  rw [show fresh + more - first = (fresh - first) + more by omega, ← List.range'_append_1, behind]

theorem nodup_grow {list : List Nat} (nodup : list.Nodup)
    (bound : ∀ address ∈ list, first ≤ address ∧ address < fresh) (more : Nat) : (list ++ List.range' fresh more).Nodup := by
  refine nodup_append.mpr ⟨nodup, nodup_range', ?_⟩
  intro a old b new same
  have := (bound a old).2
  have := (mem_range'_1.mp new).1
  omega

theorem bound_grow {list : List Nat} (le : first ≤ fresh)
    (bound : ∀ address ∈ list, first ≤ address ∧ address < fresh) (more : Nat) :
    ∀ address ∈ list ++ List.range' fresh more, first ≤ address ∧ address < fresh + more := by
  intro address mem
  rcases mem_append.mp mem with old | new
  · have := bound address old
    omega
  · have := mem_range'_1.mp new
    omega

section
variable {h : Heap} {l : Locals} {own extra : List Nat}

theorem Accounts.store {pending again : List Nat} (accounts : Accounts h l pending own extra) {attset : Option Str}
    (split : addressOf attset = pending ++ again) (owned : ∀ address ∈ again, address ∈ own) (type value : Int) (valueStr : List UInt8) :
    Accounts h (l.store attset type value valueStr) [] (own ++ pending ++ addressOf (svalueOf l value valueStr)) (extra ++ again) := by
  obtain ⟨strings, typeStr, freed, fresh⟩ := l.store_strings attset type value valueStr
  have address := svalueOf_address l value valueStr
  generalize addressOf (svalueOf l value valueStr) = sv at strings fresh address ⊢
  constructor
  · rw [strings, split, perm_iff_count]
    intro a
    have old := accounts.refs.count_eq a
    simp only [count_append] at old ⊢
    omega
  · rw [freed, typeStr, fresh, range_grow accounts.le, ← address, perm_iff_count]
    intro a
    have old := accounts.all.count_eq a
    simp only [count_append, count_nil] at old ⊢
    omega
  · rw [fresh]
    exact accounts.le.trans (Nat.le_add_right _ _)
  · rw [append_nil, address]
    exact nodup_grow accounts.nodup accounts.bound _
  · rw [append_nil, fresh]
    have grown := bound_grow accounts.le accounts.bound sv.length
    rwa [← address] at grown
  · intro a mem
    rcases mem_append.mp mem with old | new
    · exact mem_append_left _ (mem_append_left _ (accounts.extra a old))
    · exact mem_append_left _ (mem_append_left _ (owned a new))

theorem Accounts.fill_more (accounts : Accounts h l [] own extra) {attset : Option Str}
    (owned : ∀ address ∈ addressOf attset, address ∈ own)
    (typeStr : List UInt8) (value : Int) (values : List (List UInt8)) :
    ∃ own' extra', Accounts h (Locals.fill attset typeStr value values l) [] own' extra' ∧
      (extra' = [] ↔ extra = [] ∧ (attset ≠ none → values = [])) := by
  induction values generalizing l own extra value with
  | nil => exact ⟨own, extra, accounts, by simp⟩
  | cons valueStr _ ih =>
    have stored := accounts.store (nil_append _).symm owned ((typeOf typeStr).getD 0) (carry typeStr value valueStr) valueStr
    obtain ⟨own', extra', filled, same⟩ := ih stored (fun a mem => mem_append_left _ (mem_append_left _ (owned a mem))) _
    refine ⟨own', extra', filled, same.trans ?_⟩
    cases attset <;> simp [addressOf]

theorem Accounts.fill {attset : Option Str} (accounts : Accounts h l (addressOf attset) own extra) (typeStr : List UInt8) (value : Int)
    (values : List (List UInt8)) :
    ∃ own' extra', Accounts h (Locals.fill attset typeStr value values l) (if values = [] then addressOf attset else []) own' extra' ∧
      (extra' = [] ↔ extra = [] ∧ (attset ≠ none → values.length ≤ 1)) := by
  cases values with
  | nil => exact ⟨own, extra, accounts, by simp⟩
  | cons valueStr rest =>
    have stored := accounts.store (append_nil _).symm (by simp) ((typeOf typeStr).getD 0) (carry typeStr value valueStr) valueStr
    obtain ⟨own', extra', filled, same⟩ := stored.fill_more
      (fun a mem => mem_append_left _ (mem_append_right _ mem)) typeStr (carry typeStr value valueStr) rest
    refine ⟨own', extra', filled, same.trans ?_⟩
    simp

theorem Accounts.head (accounts : Accounts h l [] own extra) (set : Option (List UInt8)) (type : List UInt8) :
    Accounts h (l.head set type).2 (addressOf (l.head set type).1) own extra ∧ ((l.head set type).1 ≠ none ↔ set ≠ none) := by
  have nodup := accounts.nodup
  have bound := accounts.bound
  rw [append_nil] at nodup bound
  have pending : List.range' l.heap.fresh 1 = [l.heap.fresh] := rfl
  cases set with
  | none =>
    refine ⟨⟨accounts.refs, ?_, ?_, ?_, ?_, accounts.extra⟩, by simp [Locals.head]⟩
    · dsimp only [Locals.head, Heap.xstrdup, Heap.xfree, Heap.str]
      rw [range_grow accounts.le, pending, perm_iff_count]
      intro a
      have old := accounts.all.count_eq a
      simp only [count_append, addressOf, Option.map_some, Option.map_none, Option.toList_some, Option.toList_none, count_nil] at old ⊢
      omega
    · exact accounts.le.trans (Nat.le_succ _)
    · exact accounts.nodup
    · intro a mem
      have := accounts.bound a mem
      exact ⟨this.1, Nat.lt_succ_of_lt this.2⟩
  | some =>
    refine ⟨⟨accounts.refs, ?_, ?_, ?_, ?_, accounts.extra⟩, by simp [Locals.head]⟩
    · dsimp only [Locals.head, Heap.xstrdup, Heap.xfree, Heap.str]
      have two : List.range' l.heap.fresh 2 = [l.heap.fresh, l.heap.fresh + 1] := rfl
      rw [range_grow accounts.le 2, two, perm_iff_count]
      intro a
      have old := accounts.all.count_eq a
      simp only [count_append, addressOf, Option.map_some, Option.toList_some, count_nil, count_cons] at old ⊢
      omega
    · exact accounts.le.trans (Nat.le_add_right _ 2)
    · exact nodup_grow nodup bound 1
    · intro a mem
      have := bound_grow accounts.le bound 1 a mem
      exact ⟨this.1, Nat.lt_succ_of_lt this.2⟩

theorem Accounts.list (accounts : Accounts h l [] own extra) (set : Option (List UInt8)) (type : List UInt8) (values : List (List UInt8)) :
    ∃ own' extra' pending, Accounts h (l.list set type values) pending own' extra' ∧ (pending = [] ↔ set = none ∨ values ≠ []) ∧
      (extra' = [] ↔ extra = [] ∧ (set ≠ none → values.length ≤ 1)) := by
  obtain ⟨headed, given⟩ := accounts.head set type
  obtain ⟨own', extra', filled, same⟩ := headed.fill type 0 values
  refine ⟨own', extra', _, filled, ?_, by rw [same, given]⟩
  have none_iff : addressOf (l.head set type).1 = [] ↔ set = none := by
    have isNone : addressOf (l.head set type).1 = [] ↔ (l.head set type).1 = none := by
      cases (l.head set type).1 <;> simp [addressOf]
    rw [isNone]
    exact not_iff_not.mp given
  by_cases empty : values = []
  · simp [empty, none_iff]
  · simp [empty]

theorem Accounts.lists (accounts : Accounts h l [] own extra) (specs : List Spec) (some : ∀ s ∈ specs, s.values ≠ []) :
    ∃ own' extra', Accounts h (l.lists specs) [] own' extra' ∧
      (extra' = [] ↔ extra = [] ∧ ∀ s ∈ specs, s.set ≠ none → s.values.length ≤ 1) := by
  induction specs generalizing l own extra with
  | nil => exact ⟨own, extra, accounts, by simp⟩
  | cons s _ ih =>
    obtain ⟨own1, extra1, pending, listed, taken, first⟩ := accounts.list s.set s.type s.values
    obtain rfl : pending = [] := taken.mpr (Or.inr (some s mem_cons_self))
    obtain ⟨own', extra', all, rest⟩ := ih listed fun s mem => some s (mem_cons_of_mem _ mem)
    refine ⟨own', extra', all, ?_⟩
    rw [rest, first, and_assoc, forall_mem_cons]

theorem Accounts.broken (accounts : Accounts h l [] own extra) (set type : Option (List UInt8)) (values : List (List UInt8))
    (given : type = none → set ≠ none ∧ values = []) :
    ∃ own' extra' pending, Accounts h (l.broken set type values) pending own' extra' ∧ (pending = [] ↔ set = none ∨ values ≠ []) ∧
      (extra' = [] ↔ extra = [] ∧ (set ≠ none → values.length ≤ 1)) := by
  cases type with
  | some type => exact accounts.list set type values
  | none =>
    obtain ⟨isGiven, rfl⟩ := given rfl
    have nodup := accounts.nodup
    have bound := accounts.bound
    rw [append_nil] at nodup bound
    refine ⟨own, extra, [l.heap.fresh], ⟨accounts.refs, ?_, ?_, nodup_grow nodup bound 1, bound_grow accounts.le bound 1,
      accounts.extra⟩, ?_, ?_⟩
    · dsimp only [Locals.broken, Heap.xstrdup]
      have one : List.range' l.heap.fresh 1 = [l.heap.fresh] := rfl
      rw [range_grow accounts.le 1, one, perm_iff_count]
      intro a
      have old := accounts.all.count_eq a
      simp only [count_append, count_nil] at old ⊢
      omega
    · exact accounts.le.trans (Nat.le_succ _)
    · simp [isGiven]
    · simp

theorem Accounts.once {pending : List Nat} (accounts : Accounts h l pending own extra) :
    (l.pairs.flatMap Pair.strings).Nodup ↔ extra = [] := by
  rw [accounts.refs.nodup_iff]
  constructor
  · intro nodup
    refine eq_nil_iff_forall_not_mem.mpr fun a mem => ?_
    exact (nodup_append.mp nodup).2.2 a (accounts.extra a mem) a mem rfl
  · rintro rfl
    rw [append_nil]
    exact (nodup_append.mp accounts.nodup).1

theorem Accounts.released {pending : List Nat} (accounts : Accounts h l pending own extra) :
    (l.heap.freed ++ addressOf l.typeStr ++ l.pairs.flatMap Pair.strings).Perm
        (h.freed ++ List.range' h.fresh (l.heap.fresh - h.fresh)) ↔ pending = [] ∧ extra = [] := by
  constructor
  · intro perm
    -- what is pending is released by nobody
    have counts (a : Nat) : extra.count a = pending.count a := by
      have refs := accounts.refs.count_eq a
      have all := accounts.all.count_eq a
      have freed := perm.count_eq a
      simp only [count_append] at refs all freed
      omega
    have apart : ∀ a ∈ extra, a ∉ pending := by
      intro a mem pend
      exact (nodup_append.mp accounts.nodup).2.2 a (accounts.extra a mem) a pend rfl
    have noExtra : extra = [] := by
      refine eq_nil_iff_forall_not_mem.mpr fun a mem => ?_
      have positive := count_pos_iff.mpr mem
      rw [counts, count_pos_iff] at positive
      exact apart a mem positive
    refine ⟨eq_nil_iff_forall_not_mem.mpr fun a pend => ?_, noExtra⟩
    have positive := count_pos_iff.mpr pend
    rw [← counts, noExtra] at positive
    exact absurd positive (by simp)
  · rintro ⟨rfl, rfl⟩
    rw [perm_iff_count]
    intro a
    have refs := accounts.refs.count_eq a
    have all := accounts.all.count_eq a
    simp only [count_append, count_nil] at refs all ⊢
    omega

end

/-! ### What the attributes are -/

def Spec.carried (s : Spec) : (value : Int) → List (List UInt8) → List Attr
  | _, [] => []
  | value, valueStr :: rest =>
    { set := s.set, type := (typeOf s.type).getD 0, value := attrValue (carry s.type value valueStr) valueStr } ::
      s.carried (carry s.type value valueStr) rest

theorem Locals.store_attr (attset : Option Str) (type value : Int) (valueStr : List UInt8) :
    (l.store attset type value valueStr).pairs.map Pair.attr =
      l.pairs.map Pair.attr ++ [{ set := attset.map Str.octets, type, value := attrValue value valueStr }] := by
  unfold Locals.store attrValue
  split_ifs <;> simp [Pair.attr, Heap.str]

theorem Locals.fill_attr (s : Spec) {attset : Option Str} (given : attset.map Str.octets = s.set) (value : Int) (values : List (List UInt8))
    (l : Locals) : (Locals.fill attset s.type value values l).pairs.map Pair.attr = l.pairs.map Pair.attr ++ s.carried value values := by
  induction values generalizing value l with
  | nil => simp [Locals.fill, Spec.carried]
  | cons _ _ ih =>
    rw [Locals.fill, ih, Locals.store_attr, given, append_assoc]
    rfl

theorem Locals.lists_attr (specs : List Spec) :
    (l.lists specs).pairs.map Pair.attr = l.pairs.map Pair.attr ++ specs.flatMap fun s => s.carried 0 s.values := by
  induction specs generalizing l with
  | nil => simp [Locals.lists]
  | cons s specs ih =>
    have given : (l.head s.set s.type).1.map Str.octets = s.set := by
      unfold Locals.head
      split
      next set is => rw [is]; rfl
      next is => rw [is]; rfl
    have kept : (l.head s.set s.type).2.pairs = l.pairs := by
      unfold Locals.head
      split <;> rfl
    have front : l.lists (s :: specs) = (l.list s.set s.type s.values).lists specs := rfl
    rw [front, ih, Locals.list, Locals.fill_attr s given, kept, flatMap_cons, append_assoc]

theorem carried_length (s : Spec) (value : Int) (values : List (List UInt8)) : (s.carried value values).length = values.length := by
  induction values generalizing value with
  | nil => rfl
  | cons _ _ ih => simp [Spec.carried, ih]

theorem carried_eq_iff (s : Spec) (value : Int) (values : List (List UInt8)) :
    s.carried value values = values.map s.alone ↔ Uncarried s.type value values := by
  induction values generalizing value with
  | nil => simp [Spec.carried, Uncarried]
  | cons valueStr _ ih =>
    rw [Spec.carried, map_cons, List.cons.injEq, ih, Uncarried]
    refine and_congr_left fun _ => ?_
    by_cases isPseudo : pseudo s.type valueStr = 0
    · by_cases before : value = 0
      · simp [Spec.alone, carry, isPseudo, before]
      · have kept : attrValue value valueStr = .numeric value := if_pos before
        simp [Spec.alone, carry, isPseudo, before, kept, eq_comm]
    · simp [Spec.alone, carry, isPseudo]

theorem carriedAll_eq_iff (specs : List Spec) :
    (specs.flatMap fun s => s.carried 0 s.values) = (specs.flatMap fun s => s.values.map s.alone) ↔
      ∀ s ∈ specs, Uncarried s.type 0 s.values := by
  induction specs with
  | nil => simp
  | cons _ _ ih =>
    rw [flatMap_cons, flatMap_cons, forall_mem_cons, ← ih, ← carried_eq_iff]
    constructor
    · intro same
      exact append_inj same (by rw [carried_length, length_map])
    · rintro ⟨first, rest⟩
      rw [first, rest]

section
variable {b : QualSet} {name : List UInt8}

theorem attrsOf_addSet (attrs : List Attr) : attrsOf (cclQualAddSet b name attrs) name = attrsOf b name ++ attrs := by
  have keepsName (q : QualNode) : { q with attrList := q.attrList ++ attrs }.name = q.name := rfl
  unfold cclQualAddSet
  split
  case h_1 q found =>
    rw [attrsOf, cclQualLookup_change keepsName, attrsOf, found, Option.map_some, if_pos rfl]
    rfl
  case h_2 missed =>
    have own : cclQualLookup (cclQualNew b name) name = some { address := b.fresh, name, attrList := [], sub := none } := by
      rw [cclQualLookup, cclQualNew, find?_cons_of_pos (by simp)]
    rw [attrsOf, cclQualLookup_change keepsName, attrsOf, own, missed, Option.map_some, if_pos rfl]
    rfl

theorem attrsOf_addCombi (names : List (List UInt8)) : attrsOf (cclQualAddCombi b name names) name = attrsOf b name := by
  cases known : cclQualLookup b name with
  | some => rw [cclQualAddCombi, known, Option.isSome_some, if_pos rfl]
  | none =>
    rw [attrsOf, cclQualAddCombi_lookup known, attrsOf, known]
    rfl

theorem addCombi_take (names : List (List UInt8)) :
    cclQualAddCombi b name (names.take 9) = cclQualAddCombi b name names ↔ names.length ≤ 9 ∨ ∃ q ∈ b.list, q.name = name := by
  constructor
  · intro same
    cases known : cclQualLookup b name with
    | some q => exact Or.inr ⟨q, cclQualLookup_found known⟩
    | none =>
      have looked : cclQualLookup (cclQualAddCombi b name (names.take 9)) name =
        cclQualLookup (cclQualAddCombi b name names) name := by rw [same]
      rw [cclQualAddCombi_lookup known, cclQualAddCombi_lookup known] at looked
      have subs := congrArg QualNode.noSub (Option.some.inj looked)
      rw [QualNode.noSub, QualNode.noSub, Option.elim_some, Option.elim_some, combiSubs_length, combiSubs_length, List.length_take] at subs
      omega
  · rintro (few | ⟨q, mem, named⟩)
    · rw [take_of_length_le few]
    · have known : (cclQualLookup b name).isSome = true := by
        rw [cclQualLookup, find?_isSome]
        exact ⟨q, mem, by simpa using named⟩
      rw [cclQualAddCombi, if_pos known, cclQualAddCombi, if_pos known]

end

theorem Accounts.once_behind {b : OwnedSet} {h : Heap} {l : Locals} {pending own extra : List Nat}
    (accounts : Accounts h l pending own extra)
    (owned : b.Owned h) : (b.strings ++ l.pairs.flatMap Pair.strings).Nodup ↔ extra = [] := by
  rw [← accounts.once, nodup_append]
  constructor
  · intro nodup
    exact nodup.2.1
  · intro nodup
    refine ⟨owned.once, nodup, ?_⟩
    rintro a old _ new rfl
    have isOwn : a ∈ own := by
      rcases mem_append.mp (accounts.refs.mem_iff.mp new) with mem | mem
      · exact mem
      · exact accounts.extra a mem
    exact absurd (owned.allocated a old) (Nat.not_lt.mpr (accounts.bound a (mem_append_left _ isOwn)).1)

theorem asked_nil {specs : List Spec} (some : ∀ s ∈ specs, s.values ≠ []) :
    (specs.flatMap fun s => s.values.map s.alone) = [] ↔ specs = [] := by
  cases specs with
  | nil => simp
  | cons s => simp [some s mem_cons_self]

/-- A definition that is read is read value by value, with one owner for each string, exactly when it is of this kind. -/
theorem cclQualField2_readOnce_iff {b : OwnedSet} {h : Heap} (owned : b.Owned h) {cp qualName : List UInt8} {result : FieldResult}
    (run : cclQualField2 b h cp qualName = some result) :
    ∃ d, definitionOf cp = some d ∧ (ReadOnce b h qualName d result ↔ DefinedOnce b.set qualName d) := by
  obtain ⟨⟨t, tp⟩, moved, run⟩ := Option.bind_eq_some_iff.mp run
  obtain ⟨outcome, looped, rfl⟩ := Option.map_eq_some_iff.mp run
  obtain ⟨d, isRead, some, ends⟩ := fieldLoop_reads looped
  refine ⟨d, by rw [definitionOf]; dsimp only; rw [moved]; exact isRead, ?_⟩
  obtain ⟨own, extra, accounts, single⟩ := (accounts_start h).lists d.specs some
  obtain ⟨specs, ending⟩ := d
  rw [eq_self, true_and] at single
  cases ending with
  | ended =>
    subst ends
    have attrs := Locals.lists_attr { pairs := [], typeStr := none, heap := h } specs
    rw [map_nil, nil_append] at attrs
    constructor
    · intro read
      refine ⟨single.mp ((accounts.once_behind owned).mp read.once), ?_⟩
      have gains := read.gains rfl
      rw [Outcome.result, attrsOf_addSet, attrs, append_cancel_left_eq] at gains
      exact (carriedAll_eq_iff specs).mp gains
    · rintro ⟨sets, uncarried⟩
      refine ⟨fun _ => ?_, fun _ is => (nomatch is), (accounts.once_behind owned).mpr (single.mpr sets), fun failed =>
        (nomatch failed), fun failed => (nomatch failed)⟩
      rw [Outcome.result, attrsOf_addSet, attrs, (carriedAll_eq_iff specs).mpr uncarried]
  | aliases names =>
    obtain ⟨qlist, heap, rfl, taken⟩ := ends
    constructor
    · intro read
      have gains := read.gains rfl
      rw [Outcome.result, attrsOf_addCombi, self_eq_append_right, asked_nil some] at gains
      have complete := read.aliases names rfl
      rw [Outcome.result, taken] at complete
      subst gains
      exact ⟨by simp, rfl, (addCombi_take names).mp complete⟩
    · rintro ⟨-, rfl, few⟩
      refine ⟨fun _ => ?_, ?_, owned.once, fun failed => (nomatch failed), fun failed => (nomatch failed)⟩
      · rw [Outcome.result, attrsOf_addCombi]
        exact (append_nil _).symm
      · rintro _ ⟨⟩
        rw [Outcome.result, taken]
        exact (addCombi_take names).mpr few
  | broken set type values =>
    obtain ⟨⟨addinfo, rfl⟩, given⟩ := ends
    obtain ⟨own', extra', pending, broken, taken, rest⟩ := accounts.broken set type values given
    have released := broken.released
    rw [taken, rest, single] at released
    constructor
    · intro read
      obtain ⟨kept, sets, few⟩ := released.mp (read.released rfl)
      refine ⟨sets, fun isGiven => ?_⟩
      have positive := length_pos_iff.mpr (kept.resolve_left isGiven)
      exact Nat.le_antisymm (few isGiven) positive
    · rintro ⟨sets, one⟩
      refine ⟨fun passed => (nomatch passed), fun _ is => (nomatch is), owned.once, fun _ => rfl, fun _ => ?_⟩
      refine released.mpr ⟨?_, sets, fun isGiven => (one isGiven).le⟩
      by_cases isGiven : set = none
      · exact Or.inl isGiven
      · exact Or.inr (length_pos_iff.mp (by rw [one isGiven]; exact Nat.one_pos))

/-- An attribute for the title, in a set that is empty. -/
theorem cclQualField2_readOnce_title :
    ∃ result, cclQualField2 { set := cclQualMk, strings := [] } { fresh := 0, freed := [] } (ascii "bib-1,u=4 s=pw")
      (ascii "ti") = some result ∧
      ∃ d, definitionOf (ascii "bib-1,u=4 s=pw") = some d ∧
        (ReadOnce { set := cclQualMk, strings := [] } { fresh := 0, freed := [] } (ascii "ti") d result ↔
          DefinedOnce cclQualMk (ascii "ti") d) := by
  have returns : (cclQualField2 { set := cclQualMk, strings := [] } { fresh := 0, freed := [] } (ascii "bib-1,u=4 s=pw")
    (ascii "ti")).isSome = true := by
    decide +kernel
  obtain ⟨result, run⟩ := Option.isSome_iff_exists.mp returns
  exact ⟨result, run, cclQualField2_readOnce_iff ⟨nodup_nil, by simp⟩ run⟩

/-- With two values the string of the set belongs to two attributes. -/
theorem cclQualField2_shares :
    ¬ ∀ (b : OwnedSet) (h : Heap) (cp qualName : List UInt8) (result : FieldResult) (d : Definition), b.Owned h →
      cclQualField2 b h cp qualName = some result → definitionOf cp = some d → ReadOnce b h qualName d result := by
  intro read
  have strings : (cclQualField2 { set := cclQualMk, strings := [] } { fresh := 0, freed := [] } (ascii "bib-1,u=4,5") (ascii "ti")).map
      (fun result => result.bibset.strings) = some [0, 0] := by
    decide +kernel
  have defines : (definitionOf (ascii "bib-1,u=4,5")).isSome = true := by decide +kernel
  obtain ⟨result, run, shared⟩ := Option.map_eq_some_iff.mp strings
  obtain ⟨d, isRead⟩ := Option.isSome_iff_exists.mp defines
  have once : result.bibset.strings.Nodup := (read _ _ _ _ result d ⟨nodup_nil, by simp⟩ run isRead).once
  rw [shared] at once
  exact absurd once (by decide)

end Yaz.Ccl.QualFields
