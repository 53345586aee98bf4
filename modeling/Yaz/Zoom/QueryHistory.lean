import Yaz.Zoom.Query

/-! A query object after any calls is what a new one is after the last query and the last sort specification, where no call leaves behind
what an earlier one has made.
-/

set_option autoImplicit false

namespace Yaz.Zoom
open Yaz.Comstack (ascii)
open Yaz.Pqf (cString)

section
variable {Oid : Type} (attset : List UInt8 → Option Oid) (bib1 : Oid)

/-! ### Inputs -/

structure Inputs where
  queryType : Option QueryType := none
  queryString : Option (List UInt8) := none
  sortStrategy : SortStrategy := .z3950
  sortSpec : Option (List SortKeySpec) := none
  deriving DecidableEq

def Query.inputs (s : Query Oid) : Inputs :=
  { queryType := s.queryType, queryString := s.queryString, sortStrategy := s.sortStrategy, sortSpec := s.sortSpec }

def Inputs.sorted (inputs : Inputs) (strategy criteria : List UInt8) : Inputs :=
  match sortStrategyOf strategy with
  | none => inputs
  | some strategy => { inputs with sortStrategy := strategy, sortSpec := yazSortSpec (cString criteria) }

def QueryCall.given (inputs : Inputs) : QueryCall → Inputs
  | .pqf str => { inputs with queryType := some .rpn, queryString := some (cString str) }
  | .cql str => { inputs with queryType := some .cql, queryString := some (cString str) }
  | .sortby criteria => inputs.sorted (ascii "z3950") criteria
  | .sortby2 strategy criteria => inputs.sorted strategy criteria

def givenBy (calls : List QueryCall) : Inputs := calls.foldl QueryCall.given {}

def QueryCall.isSort : QueryCall → Bool
  | .sortby _ => true
  | .sortby2 _ _ => true
  | _ => false

def QueryCall.refused : QueryCall → Bool
  | .sortby2 strategy _ => (sortStrategyOf strategy).isNone
  | _ => false

def lastCalls (calls : List QueryCall) : List QueryCall :=
  calls.foldl (fun last call => if call.refused then last else (last.filter fun earlier => earlier.isSort != call.isSort) ++ [call]) []

variable (s : Query Oid)

theorem generate_inputs : (generate attset bib1 s).1.inputs = s.inputs := by
  rw [generate]
  split
  next => rfl
  next string given =>
    by_cases keysFail : (sru11SortKeys s.sortStrategy s.sortSpec).map Prod.snd = some false
    · rw [if_pos keysFail]
      rfl
    · rw [if_neg keysFail]
      cases typed : s.queryType with
      | none =>
        rw [Query.inputs, Query.inputs, typed]
      | some =>
        dsimp only
        split
        · rw [Query.inputs, Query.inputs, typed]
        · split <;> rw [Query.inputs, Query.inputs, typed]

theorem sortby2_inputs (strategy criteria : List UInt8) :
    (zoomQuerySortby2 attset bib1 s strategy criteria).1.inputs = s.inputs.sorted strategy criteria := by
  rw [zoomQuerySortby2, Inputs.sorted]
  cases sortStrategyOf strategy with
  | none => rfl
  | some =>
    cases yazSortSpec (cString criteria) with
    | none => rfl
    | some => exact generate_inputs attset bib1 _

theorem run_inputs (call : QueryCall) : (call.run attset bib1 s).1.inputs = call.given s.inputs := by
  cases call with
  | pqf => exact generate_inputs attset bib1 _
  | cql => exact generate_inputs attset bib1 _
  | sortby criteria => exact sortby2_inputs attset bib1 s _ criteria
  | sortby2 strategy criteria => exact sortby2_inputs attset bib1 s strategy criteria

variable (calls : List QueryCall)

theorem afterCalls_snoc (call : QueryCall) :
    afterCalls attset bib1 (calls ++ [call]) = (call.run attset bib1 (afterCalls attset bib1 calls)).1 := by
  rw [afterCalls, List.foldl_append]
  rfl

theorem afterCalls_inputs : (afterCalls attset bib1 calls).inputs = givenBy calls := by
  induction calls using List.reverseRecOn with
  | nil => rfl
  | append_singleton _ _ ih =>
    rw [afterCalls_snoc, run_inputs, ih, givenBy, givenBy, List.foldl_append]
    rfl

def cannotWrite (type : QueryType) (string : List UInt8) (strategy : SortStrategy) (spec : Option (List SortKeySpec)) : Bool :=
  (sru11SortKeys strategy spec).map Prod.snd == some false || !(fullQueryOf type string strategy spec).2

def queryFor (type : QueryType) (string : List UInt8) (strategy : SortStrategy) (spec : Option (List SortKeySpec)) : Option (ZQuery Oid) :=
  if cannotWrite type string strategy spec then none else zQueryOf attset bib1 type (fullQueryOf type string strategy spec).1

/-- `sru11_sort_spec` for a specification, where `text` was there before. -/
def sru11For (strategy : SortStrategy) (spec : Option (List SortKeySpec)) (text : List UInt8) : List UInt8 :=
  ((sru11SortKeys strategy spec).map Prod.fst).getD text

/-- `z_query` is null, or was made from what the object was given, since `odr_query` was last reset. -/
def Query.MadeFromInputs (s : Query Oid) : Prop :=
  ∀ made, s.zQuery = some made → made.resets = s.odrQuery ∧ ∃ type string, s.queryType = some type ∧ s.queryString = some string ∧
    queryFor attset bib1 type string s.sortStrategy s.sortSpec = some made.query

/-- `ZOOM_query_get_sru11` gives the sort keys of the specification, under the strategies that have some. -/
def Query.Sru11FromInputs (s : Query Oid) : Prop :=
  ∀ text, zoomQueryGetSru11 s = some text → sru11SortKeys s.sortStrategy s.sortSpec = some (text, true)

structure Reflects (calls : List QueryCall) : Prop where
  inside : (afterCalls attset bib1 calls).overran = false
  made : (afterCalls attset bib1 calls).MadeFromInputs attset bib1
  sru11 : (afterCalls attset bib1 calls).Sru11FromInputs
  fresh : (afterCalls attset bib1 calls).seen = (afterCalls attset bib1 (lastCalls calls)).seen

def Query.UpToDate (s : Query Oid) : Prop :=
  match s.queryString with
  | none => s.queryType = none ∧ s.zQuery = none ∧ s.fullQuery = [] ∧ s.sru11SortSpec = []
  | some string => ∃ type, s.queryType = some type ∧
      s.fullQuery = (fullQueryOf type string s.sortStrategy s.sortSpec).1 ∧
      s.sru11SortSpec = sru11For s.sortStrategy s.sortSpec [] ∧
      (cannotWrite type string s.sortStrategy s.sortSpec = true → s.sru11SortSpec = []) ∧
      s.zQuery = (queryFor attset bib1 type string s.sortStrategy s.sortSpec).map fun query => { resets := s.odrQuery, query }

/-! ### Steps -/

/-- Sort keys that are taken, for an object with a query: they can be written and nothing stays in `sru11_sort_spec` that is not theirs, or
there is no query to be lost and none without the keys. -/
def Query.TakesKeys (s : Query Oid) (type : QueryType) (string : List UInt8) (strategy : SortStrategy) (spec : List SortKeySpec) : Prop :=
  if cannotWrite type string strategy (some spec) then
    s.zQuery.isNone ∧ (zQueryOf attset bib1 type string).isNone ∧ sru11For strategy (some spec) s.sru11SortSpec = []
  else sru11SortKeys strategy (some spec) = none → s.sru11SortSpec = []

def Query.DropsKeys (s : Query Oid) (type : QueryType) (string : List UInt8) : Prop :=
  s.sru11SortSpec = [] ∧ s.fullQuery = string ∧ (s.zQuery.isNone → (zQueryOf attset bib1 type string).isNone)

def Query.TakesQuery (s : Query Oid) (type : QueryType) (string : List UInt8) : Prop :=
  cannotWrite type string s.sortStrategy s.sortSpec = true → s.zQuery.isNone ∧ sru11For s.sortStrategy s.sortSpec s.sru11SortSpec = []

def Query.TakesSort (s : Query Oid) (strategy criteria : List UInt8) : Prop :=
  match s.queryType, s.queryString, sortStrategyOf strategy with
  | some type, some string, some strategy =>
    match yazSortSpec (cString criteria) with
    | none => s.DropsKeys attset bib1 type string
    | some spec => s.TakesKeys attset bib1 type string strategy spec
  | _, _, _ => True

instance (s : Query Oid) (type : QueryType) (string : List UInt8) (strategy : SortStrategy) (spec : List SortKeySpec) :
    Decidable (s.TakesKeys attset bib1 type string strategy spec) := by
  unfold Query.TakesKeys
  infer_instance

instance (s : Query Oid) (type : QueryType) (string : List UInt8) : Decidable (s.DropsKeys attset bib1 type string) := by
  unfold Query.DropsKeys
  infer_instance

instance (s : Query Oid) (type : QueryType) (string : List UInt8) : Decidable (s.TakesQuery type string) := by
  unfold Query.TakesQuery
  infer_instance

instance (s : Query Oid) (strategy criteria : List UInt8) : Decidable (s.TakesSort attset bib1 strategy criteria) := by
  unfold Query.TakesSort
  split
  · split <;> infer_instance
  · infer_instance

def HaveRoom (strategy criteria : List UInt8) : Prop :=
  (sortStrategyOf strategy).isSome = true → sortSpecOverruns (cString criteria) = false

def QueryCall.Fits (s : Query Oid) : QueryCall → Prop
  | .pqf str => s.TakesQuery .rpn (cString str)
  | .cql str => s.TakesQuery .cql (cString str)
  | .sortby criteria => s.TakesSort attset bib1 (ascii "z3950") criteria ∧ HaveRoom (ascii "z3950") criteria
  | .sortby2 strategy criteria => s.TakesSort attset bib1 strategy criteria ∧ HaveRoom strategy criteria

instance (s : Query Oid) (call : QueryCall) : Decidable (call.Fits attset bib1 s) := by
  cases call <;> (unfold QueryCall.Fits; try unfold HaveRoom) <;> infer_instance

def AllFit (s : Query Oid) : List QueryCall → Prop
  | [] => True
  | call :: calls => call.Fits attset bib1 s ∧ AllFit (call.run attset bib1 s).1 calls

instance decidableAllFit (s : Query Oid) : (calls : List QueryCall) → Decidable (AllFit attset bib1 s calls)
  | [] => isTrue trivial
  | call :: calls =>
    haveI := decidableAllFit (call.run attset bib1 s).1 calls
    inferInstanceAs (Decidable (_ ∧ _))

theorem allFit_append (first later : List QueryCall) : AllFit attset bib1 s (first ++ later) ↔
    AllFit attset bib1 s first ∧ AllFit attset bib1 (first.foldl (fun s call => (call.run attset bib1 s).1) s) later := by
  induction first generalizing s with
  | nil => exact (and_iff_right trivial).symm
  | cons _ _ ih => exact (and_congr_right fun _ => ih _).trans and_assoc.symm

theorem allFit_snoc (call : QueryCall) : AllFit attset bib1 zoomQueryCreate (calls ++ [call]) ↔
    AllFit attset bib1 zoomQueryCreate calls ∧ call.Fits attset bib1 (afterCalls attset bib1 calls) := by
  rw [allFit_append]
  exact and_congr_right fun _ => and_iff_left trivial

variable (type : QueryType)

theorem fullQueryOf_none (string : List UInt8) (strategy : SortStrategy) :
    fullQueryOf type string strategy none = (string, true) := by
  cases type <;> rfl

theorem sru11SortKeys_none (strategy : SortStrategy) : sru11SortKeys strategy none = none := by cases strategy <;> rfl

theorem cannotWrite_none (string : List UInt8) (strategy : SortStrategy) : cannotWrite type string strategy none = false := by
  rw [cannotWrite, fullQueryOf_none, sru11SortKeys_none]
  rfl

theorem queryFor_none (string : List UInt8) (strategy : SortStrategy) :
    queryFor attset bib1 type string strategy none = zQueryOf attset bib1 type string := by
  rw [queryFor, cannotWrite_none, fullQueryOf_none]
  rfl

theorem fullQueryOf_sru11 {strategy : SortStrategy} {spec : Option (List SortKeySpec)} {keys : List UInt8 × Bool}
    (sru11 : sru11SortKeys strategy spec = some keys) (type : QueryType) (string : List UInt8) :
    fullQueryOf type string strategy spec = (string, true) := by
  cases spec with
  | none => cases type <;> rfl
  | some => cases strategy <;> cases type <;> first | rfl | simp [sru11SortKeys] at sru11

variable {s : Query Oid}

theorem generate_none (none' : s.queryString = none) : generate attset bib1 s = (s, 0) := by rw [generate, none']

variable {type : QueryType} {string : List UInt8}

theorem generate_cannotWrite (typed : s.queryType = some type)
    (given : s.queryString = some string) (fails : cannotWrite type string s.sortStrategy s.sortSpec = true) :
    generate attset bib1 s = ({ s with
      fullQuery := (fullQueryOf type string s.sortStrategy s.sortSpec).1
      odrQuery := s.odrQuery + 1
      sru11SortSpec := sru11For s.sortStrategy s.sortSpec s.sru11SortSpec }, -1) := by
  rw [generate, given]
  dsimp only
  by_cases keysFail : (sru11SortKeys s.sortStrategy s.sortSpec).map Prod.snd = some false
  · obtain ⟨keys, sru11, _⟩ := Option.map_eq_some_iff.mp keysFail
    rw [if_pos keysFail, fullQueryOf_sru11 sru11, sru11For]
  · have bad : (fullQueryOf type string s.sortStrategy s.sortSpec).2 = false := by simpa [cannotWrite, keysFail] using fails
    rw [if_neg keysFail, typed]
    dsimp only
    rw [if_pos bad, sru11For]

theorem generate_canWrite (typed : s.queryType = some type)
    (given : s.queryString = some string) (writes : cannotWrite type string s.sortStrategy s.sortSpec = false) :
    (generate attset bib1 s).1 = { s with
      fullQuery := (fullQueryOf type string s.sortStrategy s.sortSpec).1
      odrQuery := s.odrQuery + 1
      sru11SortSpec := sru11For s.sortStrategy s.sortSpec s.sru11SortSpec
      zQuery := (queryFor attset bib1 type string s.sortStrategy s.sortSpec).map fun query => { resets := s.odrQuery + 1, query } } := by
  have parts : ¬(sru11SortKeys s.sortStrategy s.sortSpec).map Prod.snd = some false ∧
      ¬(fullQueryOf type string s.sortStrategy s.sortSpec).2 = false := by
    rw [cannotWrite, Bool.or_eq_false_iff] at writes
    exact ⟨by simpa using writes.1, by simpa using writes.2⟩
  rw [generate, given]
  dsimp only
  rw [if_neg parts.1, typed]
  dsimp only
  rw [if_neg parts.2, queryFor, writes, sru11For]
  cases zQueryOf attset bib1 type (fullQueryOf type string s.sortStrategy s.sortSpec).1 <;> rfl

theorem generate_upToDate (typed : s.queryType = some type)
    (given : s.queryString = some string) (clean : sru11SortKeys s.sortStrategy s.sortSpec = none → s.sru11SortSpec = [])
    (lost : cannotWrite type string s.sortStrategy s.sortSpec = true → s.zQuery = none ∧
      sru11For s.sortStrategy s.sortSpec s.sru11SortSpec = []) :
    (generate attset bib1 s).1.UpToDate attset bib1 := by
  have text : sru11For s.sortStrategy s.sortSpec s.sru11SortSpec = sru11For s.sortStrategy s.sortSpec [] := by
    rw [sru11For, sru11For]
    cases keys : sru11SortKeys s.sortStrategy s.sortSpec with
    | none => rw [clean keys]
    | some => rfl
  have sameString : (generate attset bib1 s).1.queryString = some string :=
    (congrArg Inputs.queryString (generate_inputs attset bib1 s)).trans given
  rw [Query.UpToDate, sameString]
  refine ⟨type, (congrArg Inputs.queryType (generate_inputs attset bib1 s)).trans typed, ?_⟩
  have sameStrategy : (generate attset bib1 s).1.sortStrategy = s.sortStrategy :=
    congrArg Inputs.sortStrategy (generate_inputs attset bib1 s)
  have sameSpec : (generate attset bib1 s).1.sortSpec = s.sortSpec := congrArg Inputs.sortSpec (generate_inputs attset bib1 s)
  rw [sameStrategy, sameSpec]
  by_cases fails : cannotWrite type string s.sortStrategy s.sortSpec = true
  · obtain ⟨nothing, empty⟩ := lost fails
    rw [generate_cannotWrite attset bib1 typed given fails, queryFor, if_pos fails]
    exact ⟨rfl, text, fun _ => empty, nothing⟩
  · have writes := Bool.eq_false_iff.mpr fails
    rw [generate_canWrite attset bib1 typed given writes]
    exact ⟨rfl, text, fun is => absurd is fails, rfl⟩

theorem upToDate_create : (zoomQueryCreate : Query Oid).UpToDate attset bib1 := ⟨rfl, rfl, rfl, rfl⟩

theorem sortby2_withoutQuery (upToDate : s.UpToDate attset bib1) (none' : s.queryString = none) (strategy criteria : List UInt8) :
    (zoomQuerySortby2 attset bib1 s strategy criteria).1.UpToDate attset bib1 := by
  rw [Query.UpToDate, none'] at upToDate
  rw [zoomQuerySortby2]
  cases sortStrategyOf strategy with
  | none => rwa [Query.UpToDate, none']
  | some strategy =>
    cases yazSortSpec (cString criteria) with
    | none => rwa [Query.UpToDate, none']
    | some specs =>
      have same := @generate_none _ attset bib1 { s with
        sortStrategy := strategy, sortSpec := some specs, overran := s.overran || sortSpecOverruns (cString criteria) } none'
      dsimp only
      rw [same, Query.UpToDate, none']
      exact upToDate

theorem Query.UpToDate.typed (upToDate : s.UpToDate attset bib1) (given : s.queryString = some string) :
    ∃ type, s.queryType = some type ∧
      s.fullQuery = (fullQueryOf type string s.sortStrategy s.sortSpec).1 ∧
      s.sru11SortSpec = sru11For s.sortStrategy s.sortSpec [] ∧
      (cannotWrite type string s.sortStrategy s.sortSpec = true → s.sru11SortSpec = []) ∧
      s.zQuery = (queryFor attset bib1 type string s.sortStrategy s.sortSpec).map fun query => { resets := s.odrQuery, query } := by
  rwa [Query.UpToDate, given] at upToDate

theorem sortby2_upToDate (upToDate : s.UpToDate attset bib1) {strategy criteria : List UInt8}
    (fits : s.TakesSort attset bib1 strategy criteria) : (zoomQuerySortby2 attset bib1 s strategy criteria).1.UpToDate attset bib1 := by
  cases given : s.queryString with
  | none => exact sortby2_withoutQuery attset bib1 upToDate given strategy criteria
  | some string =>
    obtain ⟨type, typed, full, text, clean, made⟩ := upToDate.typed attset bib1 given
    rw [Query.TakesSort, typed, given] at fits
    rw [zoomQuerySortby2]
    cases named : sortStrategyOf strategy with
    | none => exact upToDate
    | some strategy =>
      rw [named] at fits
      cases keys : yazSortSpec (cString criteria) with
      | none =>
        rw [keys] at fits
        obtain ⟨empty, same, nothing⟩ := fits
        have query : (queryFor attset bib1 type string s.sortStrategy s.sortSpec) = zQueryOf attset bib1 type string := by
          cases old : queryFor attset bib1 type string s.sortStrategy s.sortSpec with
          | none =>
            rw [old] at made
            exact (Option.isNone_iff_eq_none.mp (nothing (Option.isNone_iff_eq_none.mpr made))).symm
          | some =>
            rw [queryFor, ← full, same] at old
            split at old
            · simp at old
            · exact old.symm
        rw [Query.UpToDate, given]
        refine ⟨type, typed, ?_, ?_, fun _ => empty, ?_⟩
        · rw [fullQueryOf_none]
          exact same
        · rw [sru11For, sru11SortKeys_none]
          exact empty
        · rw [queryFor_none, ← query]
          exact made
      | some spec =>
        rw [keys] at fits
        dsimp only at fits ⊢
        rw [Query.TakesKeys] at fits
        refine @generate_upToDate _ attset bib1 _ type string typed given ?_ ?_
        · intro none'
          by_cases fails : cannotWrite type string strategy (some spec) = true
          · rw [if_pos fails] at fits
            have empty := fits.2.2
            rwa [sru11For, none'] at empty
          · rw [if_neg fails] at fits
            exact fits none'
        · intro fails
          rw [if_pos fails] at fits
          exact ⟨Option.isNone_iff_eq_none.mp fits.1, fits.2.2⟩

theorem takesQuery_upToDate (upToDate : s.UpToDate attset bib1)
    (fits : s.TakesQuery type string) :
    (generate attset bib1 { s with queryString := some string, queryType := some type }).1.UpToDate attset bib1 := by
  refine @generate_upToDate _ attset bib1 _ type string rfl rfl ?_ ?_
  · intro none'
    show s.sru11SortSpec = []
    cases given : s.queryString with
    | none =>
      rw [Query.UpToDate, given] at upToDate
      exact upToDate.2.2.2
    | some =>
      obtain ⟨_, _, _, text, _⟩ := upToDate.typed attset bib1 given
      rw [text, sru11For, none']
      rfl
  · intro fails
    exact ⟨Option.isNone_iff_eq_none.mp (fits fails).1, (fits fails).2⟩

variable {call : QueryCall}

theorem run_upToDate (upToDate : s.UpToDate attset bib1) (fits : call.Fits attset bib1 s) :
    (call.run attset bib1 s).1.UpToDate attset bib1 := by
  cases call with
  | pqf => exact takesQuery_upToDate attset bib1 upToDate fits
  | cql => exact takesQuery_upToDate attset bib1 upToDate fits
  | sortby => exact sortby2_upToDate attset bib1 upToDate fits.1
  | sortby2 => exact sortby2_upToDate attset bib1 upToDate fits.1

theorem afterCalls_upToDate {calls : List QueryCall} (fits : AllFit attset bib1 zoomQueryCreate calls) :
    (afterCalls attset bib1 calls).UpToDate attset bib1 := by
  induction calls using List.reverseRecOn with
  | nil => exact upToDate_create attset bib1
  | append_singleton calls call ih =>
    obtain ⟨earlier, last⟩ := (allFit_snoc attset bib1 calls call).mp fits
    rw [afterCalls_snoc]
    exact run_upToDate attset bib1 (ih earlier) last

theorem generate_overran (s : Query Oid) : (generate attset bib1 s).1.overran = s.overran := by
  rw [generate]
  dsimp only
  repeat' split
  all_goals rfl

theorem sortby2_overran (inside : s.overran = false) {strategy criteria : List UInt8} (room : HaveRoom strategy criteria) :
    (zoomQuerySortby2 attset bib1 s strategy criteria).1.overran = false := by
  rw [zoomQuerySortby2]
  split
  · exact inside
  next named =>
    have fits : (s.overran || sortSpecOverruns (cString criteria)) = false := by rw [inside, room (by rw [named]; rfl), Bool.or_self]
    dsimp only
    split
    · exact fits
    · exact (generate_overran attset bib1 _).trans fits

theorem afterCalls_overran {calls : List QueryCall} (fits : AllFit attset bib1 zoomQueryCreate calls) :
    (afterCalls attset bib1 calls).overran = false := by
  induction calls using List.reverseRecOn with
  | nil => rfl
  | append_singleton calls call ih =>
    obtain ⟨earlier, last⟩ := (allFit_snoc attset bib1 calls call).mp fits
    rw [afterCalls_snoc]
    cases call with
    | pqf => exact (generate_overran attset bib1 _).trans (ih earlier)
    | cql => exact (generate_overran attset bib1 _).trans (ih earlier)
    | sortby => exact sortby2_overran attset bib1 (ih earlier) last.2
    | sortby2 => exact sortby2_overran attset bib1 (ih earlier) last.2

/-! ### A new object -/

theorem givenBy_snoc (call : QueryCall) : givenBy (calls ++ [call]) = call.given (givenBy calls) := by
  rw [givenBy, List.foldl_append]
  rfl

def Inputs.query (inputs : Inputs) : Option QueryType × Option (List UInt8) := (inputs.queryType, inputs.queryString)

def Inputs.sort (inputs : Inputs) : SortStrategy × Option (List SortKeySpec) := (inputs.sortStrategy, inputs.sortSpec)

theorem sorted_query (inputs : Inputs) (strategy criteria : List UInt8) : (inputs.sorted strategy criteria).query = inputs.query := by
  rw [Inputs.sorted]
  cases sortStrategyOf strategy <;> rfl

variable {inputs others : Inputs}

theorem sorted_sort (same : inputs.sort = others.sort) (strategy criteria : List UInt8) :
    (inputs.sorted strategy criteria).sort = (others.sorted strategy criteria).sort := by
  rw [Inputs.sorted, Inputs.sorted]
  cases sortStrategyOf strategy with
  | none => exact same
  | some => rfl

theorem given_query_congr (call : QueryCall) (same : inputs.query = others.query) :
    (call.given inputs).query = (call.given others).query := by
  cases call with
  | pqf => rfl
  | cql => rfl
  | sortby criteria => exact (sorted_query inputs _ criteria).trans (same.trans (sorted_query others _ criteria).symm)
  | sortby2 strategy criteria =>
    exact (sorted_query inputs strategy criteria).trans (same.trans (sorted_query others strategy criteria).symm)

theorem given_sort_congr (call : QueryCall) (same : inputs.sort = others.sort) :
    (call.given inputs).sort = (call.given others).sort := by
  cases call with
  | pqf => exact same
  | cql => exact same
  | sortby criteria => exact sorted_sort same _ criteria
  | sortby2 strategy criteria => exact sorted_sort same strategy criteria

theorem given_sort_of_query (query : call.isSort = false) (inputs : Inputs) : (call.given inputs).sort = inputs.sort := by
  cases call with
  | pqf => rfl
  | cql => rfl
  | sortby => simp [QueryCall.isSort] at query
  | sortby2 => simp [QueryCall.isSort] at query

theorem given_query_of_sort (sort : call.isSort = true) (inputs : Inputs) : (call.given inputs).query = inputs.query := by
  cases call with
  | pqf => simp [QueryCall.isSort] at sort
  | cql => simp [QueryCall.isSort] at sort
  | sortby criteria => exact sorted_query inputs _ criteria
  | sortby2 strategy criteria => exact sorted_query inputs strategy criteria

theorem given_query_forgets (query : call.isSort = false) (inputs others : Inputs) :
    (call.given inputs).query = (call.given others).query := by
  cases call with
  | pqf => rfl
  | cql => rfl
  | sortby => simp [QueryCall.isSort] at query
  | sortby2 => simp [QueryCall.isSort] at query

theorem given_sort_forgets (sort : call.isSort = true) (taken : call.refused = false) (inputs others : Inputs) :
    (call.given inputs).sort = (call.given others).sort := by
  cases call with
  | pqf => simp [QueryCall.isSort] at sort
  | cql => simp [QueryCall.isSort] at sort
  | sortby => rfl
  | sortby2 =>
    rw [QueryCall.refused, Option.isNone_eq_false_iff, Option.isSome_iff_exists] at taken
    obtain ⟨named, is⟩ := taken
    rw [QueryCall.given, QueryCall.given, Inputs.sorted, Inputs.sorted, is]
    rfl

theorem given_refused (refused : call.refused = true) (inputs : Inputs) : call.given inputs = inputs := by
  cases call with
  | sortby2 => rw [QueryCall.given, Inputs.sorted, Option.isNone_iff_eq_none.mp refused]
  | _ => simp [QueryCall.refused] at refused

theorem Inputs.eq_of_parts (query : inputs.query = others.query) (sort : inputs.sort = others.sort) : inputs = others := by
  cases inputs
  cases others
  simp_all [Inputs.query, Inputs.sort]

/-- A part of the inputs that calls of one kind leave as it is does not depend on those calls. -/
theorem givenBy_filter {P : Type} {part : Inputs → P} {sort : Bool}
    (drops : ∀ call inputs, QueryCall.isSort call = sort → part (call.given inputs) = part inputs)
    (keeps : ∀ call inputs others, part inputs = part others → part (QueryCall.given inputs call) = part (call.given others)) :
    part (givenBy (calls.filter fun call => call.isSort != sort)) = part (givenBy calls) := by
  induction calls using List.reverseRecOn with
  | nil => rfl
  | append_singleton _ call ih =>
    rw [List.filter_append, givenBy_snoc]
    by_cases kind : call.isSort = sort
    · have dropped : [call].filter (fun call => call.isSort != sort) = [] := by simp [kind]
      rw [drops call _ kind, dropped, List.append_nil]
      exact ih
    · have kept : [call].filter (fun call => call.isSort != sort) = [call] := by simp [kind]
      rw [kept, givenBy_snoc]
      exact keeps call _ _ ih

theorem givenBy_filter_query : (givenBy (calls.filter fun call => call.isSort != true)).query = (givenBy calls).query :=
  givenBy_filter calls (fun _ inputs kind => given_query_of_sort kind inputs) fun call _ _ => given_query_congr call

theorem givenBy_filter_sort : (givenBy (calls.filter fun call => call.isSort != false)).sort = (givenBy calls).sort :=
  givenBy_filter calls (fun _ inputs kind => given_sort_of_query kind inputs) fun call _ _ => given_sort_congr call

theorem lastCalls_snoc (call : QueryCall) : lastCalls (calls ++ [call]) =
    if call.refused then lastCalls calls else ((lastCalls calls).filter fun earlier => earlier.isSort != call.isSort) ++ [call] := by
  rw [lastCalls, List.foldl_append]
  rfl

theorem givenBy_lastCalls : givenBy (lastCalls calls) = givenBy calls := by
  induction calls using List.reverseRecOn with
  | nil => rfl
  | append_singleton _ call ih =>
    rw [lastCalls_snoc, givenBy_snoc]
    cases refused : call.refused with
    | true => exact ih.trans (given_refused refused _).symm
    | false =>
      rw [if_neg Bool.false_ne_true, givenBy_snoc]
      cases kind : call.isSort with
      | false =>
        refine Inputs.eq_of_parts (given_query_forgets kind _ _) (given_sort_congr call ?_)
        rw [givenBy_filter_sort, ih]
      | true =>
        refine Inputs.eq_of_parts (given_query_congr call ?_) (given_sort_forgets kind refused _ _)
        rw [givenBy_filter_query, ih]

theorem afterSorts {calls : List QueryCall} (sorts : ∀ call ∈ calls, call.isSort = true) :
    (afterCalls attset bib1 calls).UpToDate attset bib1 ∧ (afterCalls attset bib1 calls).queryString = none := by
  induction calls using List.reverseRecOn with
  | nil => exact ⟨upToDate_create attset bib1, rfl⟩
  | append_singleton calls call ih =>
    obtain ⟨upToDate, none'⟩ := ih fun call among => sorts call (by simp [among])
    have sort := sorts call (by simp)
    rw [afterCalls_snoc]
    refine ⟨?_, ?_⟩
    · cases call with
      | pqf => simp [QueryCall.isSort] at sort
      | cql => simp [QueryCall.isSort] at sort
      | sortby criteria => exact sortby2_withoutQuery attset bib1 upToDate none' _ criteria
      | sortby2 strategy criteria => exact sortby2_withoutQuery attset bib1 upToDate none' strategy criteria
    · have same := congrArg Prod.snd (given_query_of_sort sort (afterCalls attset bib1 calls).inputs)
      rw [← run_inputs attset bib1] at same
      exact same.trans none'

theorem afterQueries {calls : List QueryCall} (queries : ∀ call ∈ calls, call.isSort = false) :
    (afterCalls attset bib1 calls).UpToDate attset bib1 ∧ (afterCalls attset bib1 calls).sortSpec = none := by
  induction calls using List.reverseRecOn with
  | nil => exact ⟨upToDate_create attset bib1, rfl⟩
  | append_singleton calls call ih =>
    obtain ⟨upToDate, none'⟩ := ih fun call among => queries call (by simp [among])
    have query := queries call (by simp)
    rw [afterCalls_snoc]
    refine ⟨run_upToDate attset bib1 upToDate ?_, ?_⟩
    · have fits (type : QueryType) (string : List UInt8) : (afterCalls attset bib1 calls).TakesQuery type string := by
        rw [Query.TakesQuery, none', cannotWrite_none]
        exact fun is => absurd is (by decide)
      cases call with
      | pqf => exact fits _ _
      | cql => exact fits _ _
      | sortby => simp [QueryCall.isSort] at query
      | sortby2 => simp [QueryCall.isSort] at query
    · have same := congrArg Prod.snd (given_sort_of_query query (afterCalls attset bib1 calls).inputs)
      rw [← run_inputs attset bib1] at same
      exact same.trans none'

theorem sru11For_empty {strategy : SortStrategy} {spec : Option (List SortKeySpec)} {text : List UInt8}
    (empty : sru11For strategy spec text = []) : sru11For strategy spec [] = [] := by
  rw [sru11For] at empty ⊢
  cases keys : sru11SortKeys strategy spec with
  | none => rfl
  | some => rwa [keys] at empty

variable {s t : Query Oid}

theorem takesQuery_fresh (fresh : t.UpToDate attset bib1) (none' : t.queryString = none) (sort : t.inputs.sort = s.inputs.sort)
    (fits : s.TakesQuery type string) : t.TakesQuery type string := by
  have sameStrategy : t.sortStrategy = s.sortStrategy := congrArg Prod.fst sort
  have sameSpec : t.sortSpec = s.sortSpec := congrArg Prod.snd sort
  rw [Query.UpToDate, none'] at fresh
  obtain ⟨_, nothing, _, empty⟩ := fresh
  rw [Query.TakesQuery, sameStrategy, sameSpec, nothing, empty]
  exact fun fails => ⟨rfl, sru11For_empty (fits fails).2⟩

theorem takesSort_fresh (fresh : t.UpToDate attset bib1) (none' : t.sortSpec = none) (query : t.inputs.query = s.inputs.query)
    {strategy criteria : List UInt8} (fits : s.TakesSort attset bib1 strategy criteria) : t.TakesSort attset bib1 strategy criteria := by
  have sameType : t.queryType = s.queryType := congrArg Prod.fst query
  have sameString : t.queryString = s.queryString := congrArg Prod.snd query
  rw [Query.TakesSort, ← sameType, ← sameString] at fits
  rw [Query.TakesSort]
  cases given : t.queryString with
  | none => cases t.queryType <;> exact trivial
  | some string =>
    obtain ⟨type, typed, full, text, _, made⟩ := fresh.typed attset bib1 given
    rw [none', fullQueryOf_none] at full
    rw [none', sru11For, sru11SortKeys_none] at text
    rw [none', queryFor_none] at made
    rw [typed, given] at fits
    rw [typed]
    cases named : sortStrategyOf strategy with
    | none => trivial
    | some strategy =>
      rw [named] at fits
      cases keys : yazSortSpec (cString criteria) with
      | none => exact ⟨text, full, fun nothing => by simpa [made] using nothing⟩
      | some spec =>
        rw [keys] at fits
        dsimp only at fits ⊢
        rw [Query.TakesKeys] at fits
        show t.TakesKeys attset bib1 type string strategy spec
        rw [Query.TakesKeys]
        by_cases fails : cannotWrite type string strategy (some spec) = true
        · rw [if_pos fails] at fits ⊢
          have bare := Option.isNone_iff_eq_none.mp fits.2.1
          exact ⟨by rw [made, bare]; rfl, fits.2.1, by rw [text]; exact sru11For_empty fits.2.2⟩
        · rw [if_neg fails]
          exact fun _ => text

theorem freshCalls_upToDate {calls : List QueryCall} (fits : AllFit attset bib1 zoomQueryCreate calls) :
    (afterCalls attset bib1 (lastCalls calls)).UpToDate attset bib1 := by
  induction calls using List.reverseRecOn with
  | nil => exact upToDate_create attset bib1
  | append_singleton calls call ih =>
    obtain ⟨earlier, last⟩ := (allFit_snoc attset bib1 calls call).mp fits
    rw [lastCalls_snoc]
    cases refused : call.refused with
    | true => exact ih earlier
    | false =>
      rw [if_neg Bool.false_ne_true, afterCalls_snoc]
      cases kind : call.isSort with
      | false =>
        have sorts := @afterSorts _ attset bib1 ((lastCalls calls).filter fun earlier => earlier.isSort != false) (by simp)
        have sort := givenBy_filter_sort (lastCalls calls)
        rw [givenBy_lastCalls, ← afterCalls_inputs attset bib1, ← afterCalls_inputs attset bib1] at sort
        refine run_upToDate attset bib1 sorts.1 ?_
        cases call with
        | pqf => exact takesQuery_fresh attset bib1 sorts.1 sorts.2 sort last
        | cql => exact takesQuery_fresh attset bib1 sorts.1 sorts.2 sort last
        | sortby => simp [QueryCall.isSort] at kind
        | sortby2 => simp [QueryCall.isSort] at kind
      | true =>
        have queries := @afterQueries _ attset bib1 ((lastCalls calls).filter fun earlier => earlier.isSort != true) (by simp)
        have query := givenBy_filter_query (lastCalls calls)
        rw [givenBy_lastCalls, ← afterCalls_inputs attset bib1, ← afterCalls_inputs attset bib1] at query
        refine run_upToDate attset bib1 queries.1 ?_
        cases call with
        | pqf => simp [QueryCall.isSort] at kind
        | cql => simp [QueryCall.isSort] at kind
        | sortby => exact ⟨takesSort_fresh attset bib1 queries.1 queries.2 query last.1, last.2⟩
        | sortby2 => exact ⟨takesSort_fresh attset bib1 queries.1 queries.2 query last.1, last.2⟩

theorem seen_eq (upToDate : s.UpToDate attset bib1) (otherUpToDate : t.UpToDate attset bib1) (same : s.inputs = t.inputs) :
    s.seen = t.seen := by
  have sameType : s.queryType = t.queryType := congrArg Inputs.queryType same
  have sameString : s.queryString = t.queryString := congrArg Inputs.queryString same
  have sameStrategy : s.sortStrategy = t.sortStrategy := congrArg Inputs.sortStrategy same
  have sameSpec : s.sortSpec = t.sortSpec := congrArg Inputs.sortSpec same
  have parts : zoomQueryGetZQuery s = zoomQueryGetZQuery t ∧ s.fullQuery = t.fullQuery ∧ s.sru11SortSpec = t.sru11SortSpec := by
    cases given : t.queryString with
    | none =>
      rw [Query.UpToDate, sameString, given] at upToDate
      rw [Query.UpToDate, given] at otherUpToDate
      obtain ⟨_, nothing, full, empty⟩ := upToDate
      obtain ⟨_, otherNothing, otherFull, otherEmpty⟩ := otherUpToDate
      rw [zoomQueryGetZQuery, zoomQueryGetZQuery, nothing, otherNothing, full, otherFull, empty, otherEmpty]
      exact ⟨rfl, rfl, rfl⟩
    | some string =>
      obtain ⟨type, typed, full, text, _, made⟩ := upToDate.typed attset bib1 (sameString.trans given)
      obtain ⟨otherType, otherTyped, otherFull, otherText, _, otherMade⟩ := otherUpToDate.typed attset bib1 given
      obtain rfl : type = otherType := Option.some.inj (typed.symm.trans (sameType.trans otherTyped))
      rw [sameStrategy, sameSpec] at full text made
      refine ⟨?_, full.trans otherFull.symm, text.trans otherText.symm⟩
      rw [zoomQueryGetZQuery, zoomQueryGetZQuery, made, otherMade]
      cases queryFor attset bib1 type string t.sortStrategy t.sortSpec with
      | none => rfl
      | some => simp
  obtain ⟨pointer, full, text⟩ := parts
  have hash : zoomQueryGetHash s = zoomQueryGetHash t := by
    funext unset w
    rw [zoomQueryGetHash, zoomQueryGetHash, sameType, sameString, sameStrategy, sameSpec]
  rw [Query.seen, Query.seen, pointer, hash, zoomQueryGetSru11, zoomQueryGetSru11, text, zoomQueryGetSortspec,
    zoomQueryGetSortspec, sameStrategy,
    sameSpec, zoomQueryGetQueryString, zoomQueryGetQueryString, full]

theorem Query.UpToDate.madeFromInputs (upToDate : s.UpToDate attset bib1) : s.MadeFromInputs attset bib1 := by
  intro made is
  cases given : s.queryString with
  | none =>
    rw [Query.UpToDate, given] at upToDate
    rw [upToDate.2.1] at is
    simp at is
  | some string =>
    obtain ⟨type, typed, _, _, _, query⟩ := upToDate.typed attset bib1 given
    rw [query, Option.map_eq_some_iff] at is
    obtain ⟨value, found, rfl⟩ := is
    exact ⟨rfl, type, string, typed, rfl, found⟩

theorem Query.UpToDate.sru11FromInputs (upToDate : s.UpToDate attset bib1) : s.Sru11FromInputs := by
  intro text is
  rw [zoomQueryGetSru11] at is
  split at is
  next => simp at is
  next some' =>
    cases given : s.queryString with
    | none =>
      rw [Query.UpToDate, given] at upToDate
      exact absurd upToDate.2.2.2 some'
    | some string =>
      obtain ⟨type, _, _, written, clean, _⟩ := upToDate.typed attset bib1 given
      have writes : cannotWrite type string s.sortStrategy s.sortSpec = false := Bool.eq_false_iff.mpr fun fails => some' (clean fails)
      rw [cannotWrite, Bool.or_eq_false_iff] at writes
      rw [sru11For] at written
      cases keys : sru11SortKeys s.sortStrategy s.sortSpec with
      | none =>
        rw [keys] at written
        exact absurd written some'
      | some pair =>
        rw [keys] at written writes
        obtain ⟨first, all⟩ := pair
        have complete : all = true := by simpa using writes.1
        rw [Option.some.injEq] at is
        rw [← is, complete]
        exact congrArg some (congrArg (·, true) written.symm)

/-- After calls that leave nothing behind of earlier ones, an object reflects what it was given. -/
theorem reflects_of_allFit (calls : List QueryCall) (fits : AllFit attset bib1 zoomQueryCreate calls) : Reflects attset bib1 calls := by
  have upToDate := afterCalls_upToDate attset bib1 fits
  refine ⟨afterCalls_overran attset bib1 fits, upToDate.madeFromInputs attset bib1, upToDate.sru11FromInputs attset bib1, ?_⟩
  refine seen_eq attset bib1 upToDate (freshCalls_upToDate attset bib1 fits) ?_
  rw [afterCalls_inputs, afterCalls_inputs, givenBy_lastCalls]

end

def sortedTwice : List QueryCall :=
  [.pqf (ascii "dc"), .sortby2 (ascii "type7") (ascii "1=4 d"), .cql (ascii "dc"), .sortby2 (ascii "sru11") (ascii "title a"),
    .sortby2 (ascii "bogus") (ascii "title a"), .pqf (ascii "@attr")]

theorem sortedTwice_reflects : Reflects (fun _ => none) (0 : Nat) sortedTwice :=
  reflects_of_allFit (fun _ => none) 0 sortedTwice (by decide +kernel)

/-- A sort by attributes has no keys for SRU: `odr_query` was reset, and `z_query` is what it was before. -/
theorem sruAttributes_dangling : ¬ Reflects (fun _ => none) (0 : Nat) [.pqf (ascii "dc"), .sortby2 (ascii "sru11") (ascii "1=4 a")] := by
  intro reflects
  have first : (afterCalls (fun _ => none) (0 : Nat) [.pqf (ascii "dc"), .sortby2 (ascii "sru11") (ascii "1=4 a")]).zQuery.map
    (·.resets) = some 1 := by
    decide
  have second : (afterCalls (fun _ => none) (0 : Nat) [.pqf (ascii "dc"), .sortby2 (ascii "sru11") (ascii "1=4 a")]).odrQuery = 2 := by
    decide
  obtain ⟨made, is, earlier⟩ := Option.map_eq_some_iff.mp first
  have now := (reflects.made made is).1
  omega

end Yaz.Zoom
