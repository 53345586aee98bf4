import Yaz.Cql.SortKeys
import Yaz.Json.Value

/-! The tokens and the grammar of `cql.y`, with the actions of its productions.

A query is a syntax tree with one constructor for each production. `$0.rel`, which the productions for search clauses read,
is a parameter. The production `cqlQuery error`, for texts that are no queries, is left out.
-/

set_option autoImplicit false

namespace Yaz.Cql
open List Yaz.Comstack
open Yaz.Json (isSpace)

inductive Token where
  | prefixName (buf : List UInt8)
  | simpleString (buf : List UInt8)
  | and
  | or
  | not
  | prox
  | sortby
  | ge
  | le
  | ne
  | exact
  | eq
  | gt
  | lt
  | openParen
  | closeParen
  | slash
  deriving DecidableEq

/-- `lval->buf`. -/
def Token.buf : Token → List UInt8
  | .prefixName buf => buf
  | .simpleString buf => buf
  | .and => ascii "and"
  | .or => ascii "or"
  | .not => ascii "not"
  | .prox => ascii "prox"
  | .sortby => ascii "sortby"
  | .ge => ascii ">="
  | .le => ascii "<="
  | .ne => ascii "<>"
  | .exact => ascii "=="
  | .eq => ascii "="
  | .gt => ascii ">"
  | .lt => ascii "<"
  | .openParen => ascii "("
  | .closeParen => ascii ")"
  | .slash => ascii "/"

def quotedText : List UInt8 → List UInt8 × List UInt8
  | [] => ([], [])
  | [c] => if c = 34 then ([], []) else ([c], [])
  | c :: d :: rest =>
    if c = 34 then ([], d :: rest)
    else if c = 92 then
      let (text, rest) := quotedText rest
      (c :: d :: text, rest)
    else
      let (text, rest) := quotedText (d :: rest)
      (c :: text, rest)

def endsWord (c : UInt8) : Bool := c = 32 || c = 10 || c = 40 || c = 41 || c = 61 || c = 60 || c = 62 || c = 47

def wordText : List UInt8 → List UInt8 × Bool × List UInt8
  | [] => ([], false, [])
  | [c] => if endsWord c then ([], false, [c]) else ([c], c = 46, [])
  | c :: d :: rest =>
    if endsWord c then ([], false, c :: d :: rest)
    else if c = 92 then
      let (text, dot, rest) := wordText rest
      (c :: d :: text, dot, rest)
    else
      let (text, dot, rest) := wordText (d :: rest)
      (c :: text, c = 46 || dot, rest)

def wordToken (strict dot : Bool) (buf : List UInt8) : Token :=
  if cqlSame buf (ascii "and") then .and
  else if cqlSame buf (ascii "or") then .or
  else if cqlSame buf (ascii "not") then .not
  else if cqlSame buf (ascii "prox") then .prox
  else if cqlSame buf (ascii "sortby") then .sortby
  else if strict then .prefixName buf
  else if dot || cqlSame buf (ascii "all") || cqlSame buf (ascii "any") || cqlSame buf (ascii "adj") then .prefixName buf
  else .simpleString buf

/-- `yylex`; `none` at the end of the query. -/
def yylex (strict : Bool) (mem : List UInt8) : Option (Token × List UInt8) :=
  match mem.dropWhile fun c => isSpace c && c ≠ 10 with
  | [] => none
  | 10 :: _ => none
  | 40 :: rest => some (.openParen, rest)
  | 41 :: rest => some (.closeParen, rest)
  | 47 :: rest => some (.slash, rest)
  | 61 :: 61 :: rest => some (.exact, rest)
  | 61 :: rest => some (.eq, rest)
  | 62 :: 61 :: rest => some (.ge, rest)
  | 62 :: rest => some (.gt, rest)
  | 60 :: 61 :: rest => some (.le, rest)
  | 60 :: 62 :: rest => some (.ne, rest)
  | 60 :: rest => some (.lt, rest)
  | 34 :: rest =>
    let (text, rest) := quotedText rest
    some (.simpleString text, rest)
  | mem =>
    let (text, dot, rest) := wordText mem
    some (wordToken strict dot text, rest)

def tokensFrom (strict : Bool) : (rounds : Nat) → List UInt8 → List Token
  | 0, _ => []
  | rounds + 1, mem =>
    match yylex strict mem with
    | none => []
    | some (token, rest) => token :: tokensFrom strict rounds rest

def tokens (strict : Bool) (query : List UInt8) : List Token := tokensFrom strict query.length query

/-! ### Syntax -/

def Token.isSearchTerm : Token → Bool
  | .simpleString _ | .prefixName _ | .and | .or | .not | .prox | .sortby => true
  | _ => false

def Token.isRelationSymbol : Token → Bool
  | .eq | .gt | .lt | .ge | .le | .ne | .exact => true
  | _ => false

def Token.isRelation : Token → Bool
  | .prefixName _ => true
  | token => token.isRelationSymbol

def Token.isBoolean : Token → Bool
  | .and | .or | .not | .prox => true
  | _ => false

/-- A token of one of the nonterminals `searchTerm`, `relation_symbol`, `relation` and `boolean`. -/
structure TokenOf (is : Token → Bool) where
  token : Token
  valid : is token = true

abbrev SearchTerm := TokenOf Token.isSearchTerm

inductive Modifiers where
  | none
  | named (front : Modifiers) (term : SearchTerm)
  | valued (front : Modifiers) (term : SearchTerm) (relation : TokenOf Token.isRelationSymbol) (value : SearchTerm)

inductive ExtraTerms where
  | none
  | more (string : List UInt8) (behind : ExtraTerms)

mutual
inductive CqlQuery where
  | scoped (clause : ScopedClause)
  | assigned (name uri : SearchTerm) (query : CqlQuery)
  | unnamed (uri : SearchTerm) (query : CqlQuery)

inductive ScopedClause where
  | single (clause : SearchClause)
  | boolean (left : ScopedClause) (op : TokenOf Token.isBoolean) (modifiers : Modifiers) (right : SearchClause)

inductive SearchClause where
  | parenthesized (query : CqlQuery)
  | terms (term : SearchTerm) (extra : ExtraTerms)
  | related (index : SearchTerm) (relation : TokenOf Token.isRelation) (modifiers : Modifiers) (clause : SearchClause)
end

structure SingleSpec where
  index : SearchTerm
  modifiers : Modifiers

inductive SortSpec where
  | more (front : SortSpec) (last : SingleSpec)
  | single (spec : SingleSpec)

structure Top where
  query : CqlQuery
  sortby : Option SortSpec

def Modifiers.tokens : Modifiers → List Token
  | .none => []
  | .named front term => front.tokens ++ [.slash, term.token]
  | .valued front term relation value => front.tokens ++ [.slash, term.token, relation.token, value.token]

def ExtraTerms.tokens : ExtraTerms → List Token
  | .none => []
  | .more string behind => .simpleString string :: behind.tokens

mutual
def CqlQuery.tokens : CqlQuery → List Token
  | .scoped clause => clause.tokens
  | .assigned name uri query => .gt :: name.token :: .eq :: uri.token :: query.tokens
  | .unnamed uri query => .gt :: uri.token :: query.tokens

def ScopedClause.tokens : ScopedClause → List Token
  | .single clause => clause.tokens
  | .boolean left op modifiers right => left.tokens ++ op.token :: (modifiers.tokens ++ right.tokens)

def SearchClause.tokens : SearchClause → List Token
  | .parenthesized query => .openParen :: (query.tokens ++ [.closeParen])
  | .terms term extra => term.token :: extra.tokens
  | .related index relation modifiers clause => index.token :: relation.token :: (modifiers.tokens ++ clause.tokens)
end

def SingleSpec.tokens (spec : SingleSpec) : List Token := spec.index.token :: spec.modifiers.tokens

def SortSpec.tokens : SortSpec → List Token
  | .more front last => front.tokens ++ last.tokens
  | .single spec => spec.tokens

def Top.tokens (top : Top) : List Token :=
  top.query.tokens ++ match top.sortby with
    | none => []
    | some sortSpec => .sortby :: sortSpec.tokens

/-! ### Actions -/

def Modifiers.cql : Modifiers → CqlNode
  | .none => .null
  | .named front term => .st { index := some term.token.buf } front.cql .null
  | .valued front term relation value =>
    .st { index := some term.token.buf, relation := some relation.token.buf, term := some value.token.buf } front.cql .null

def ExtraTerms.cql : ExtraTerms → CqlNode
  | .none => .null
  | .more string behind => .st { term := some string } .null behind.cql

/-- A search clause for `rel` gets its terms. -/
def withTerms (term : List UInt8) (extraTerms : CqlNode) : CqlNode → CqlNode
  | .st u modifiers _ => .st { u with term := some term } modifiers extraTerms
  | n => n

mutual
def CqlQuery.cql (rel : CqlNode) : CqlQuery → CqlNode
  | .scoped clause => clause.cql rel
  | .assigned name uri query => cqlApplyPrefix (some name.token.buf) uri.token.buf (query.cql rel)
  | .unnamed uri query => cqlApplyPrefix none uri.token.buf (query.cql rel)

def ScopedClause.cql (rel : CqlNode) : ScopedClause → CqlNode
  | .single clause => clause.cql rel
  | .boolean left op modifiers right => .boolean (some op.token.buf) (left.cql rel) (right.cql rel) modifiers.cql

def SearchClause.cql (rel : CqlNode) : SearchClause → CqlNode
  | .parenthesized query => query.cql rel
  | .terms term extra => withTerms term.token.buf extra.cql (cqlNodeDup rel)
  | .related index relation modifiers clause =>
    clause.cql (.st { index := some index.token.buf, relation := some relation.token.buf } modifiers.cql .null)
end

def SingleSpec.cql (spec : SingleSpec) : CqlNode := cqlNodeMkSort (some spec.index.token.buf) spec.modifiers.cql

/-- `u.sort.next = next`. -/
def CqlNode.setNext : (n next : CqlNode) → CqlNode
  | .sort index _ modifiers search, next => .sort index next modifiers search
  | n, _ => n

/-- `u.sort.search = search`. -/
def CqlNode.setSearch : (n search : CqlNode) → CqlNode
  | .sort index next modifiers _, search => .sort index next modifiers search
  | n, _ => n

def SortSpec.cql : SortSpec → CqlNode
  | .more front last => front.cql.setNext last.cql
  | .single spec => spec.cql

def serverChoice : CqlNode := cqlNodeMkSc (some (ascii "cql.serverChoice")) (some (ascii "=")) none

/-- `top` of the parser. -/
def Top.cql (top : Top) : CqlNode :=
  match top.sortby with
  | none => top.query.cql serverChoice
  | some sortSpec => sortSpec.cql.setSearch (top.query.cql serverChoice)

def SortSpec.specs : SortSpec → List SingleSpec
  | .more front last => front.specs ++ [last]
  | .single spec => [spec]

def SingleSpec.key (spec : SingleSpec) : SortKey := ⟨spec.index.token.buf, spec.modifiers.cql⟩

def SortedBy (tree search : CqlNode) (keys : List SortKey) : Prop := SortChain tree keys ∧ tree = tree.setSearch search

theorem SortSpec.cql_eq (sortSpec : SortSpec) : ∃ first rest, sortSpec.specs = first :: rest ∧
    sortSpec.cql = .sort (some first.index.token.buf) ((rest.getLast?.map SingleSpec.cql).getD .null) first.modifiers.cql .null := by
  induction sortSpec with
  | single spec => exact ⟨spec, [], rfl, rfl⟩
  | more _ last ih =>
    obtain ⟨first, rest, specs, cql⟩ := ih
    refine ⟨first, rest ++ [last], ?_, ?_⟩
    · rw [SortSpec.specs, specs, cons_append]
    · rw [SortSpec.cql, cql, CqlNode.setNext, getLast?_concat]
      rfl

/-- The tree of a query with sort keys holds them all if there are no more than two. -/
theorem sortedBy_iff (query : CqlQuery) (sortSpec : SortSpec) :
    SortedBy (Top.cql ⟨query, some sortSpec⟩) (query.cql serverChoice) (sortSpec.specs.map SingleSpec.key) ↔
      sortSpec.specs.length ≤ 2 := by
  obtain ⟨first, rest, specs, cql⟩ := sortSpec.cql_eq
  have tree : Top.cql ⟨query, some sortSpec⟩ = .sort (some first.index.token.buf) ((rest.getLast?.map SingleSpec.cql).getD .null)
      first.modifiers.cql (query.cql serverChoice) := by
    rw [Top.cql]
    dsimp only
    rw [cql]
    rfl
  rw [SortedBy, tree, specs, map_cons, length_cons]
  refine (and_iff_left (by rfl)).trans ?_
  -- the keys between the first and the last are what is lost
  rcases rest.eq_nil_or_concat with rfl | ⟨middle, last, rfl⟩
  · exact iff_of_true (.cons _ _ _ .nil) (Nat.le_succ 1)
  · have kept : SortChain (.sort (some first.index.token.buf) last.cql first.modifiers.cql (query.cql serverChoice))
        [first.key, last.key] := .cons _ _ _ (.cons _ _ _ .nil)
    rw [concat_eq_append, getLast?_concat, Option.map_some, Option.getD_some, length_append, length_singleton]
    constructor
    · intro chain
      have same := congrArg List.length (chain.unique kept)
      simp only [length_cons, length_map, length_append, length_nil] at same
      omega
    · intro few
      have none : middle = [] := eq_nil_of_length_eq_zero (by omega)
      rw [none]
      exact kept

/-- `a sortby b c d`, in which `c` is lost. -/
def threeKeys : Top :=
  let word (text : List UInt8) : SearchTerm := ⟨.simpleString text, rfl⟩
  { query := .scoped (.single (.terms (word [97]) .none))
    sortby := some (.more (.more (.single ⟨word [98], .none⟩) ⟨word [99], .none⟩) ⟨word [100], .none⟩) }

theorem threeKeys_lost : tokens false (ascii "a sortby b c d") = threeKeys.tokens ∧
    threeKeys.cql = .sort (some [98]) (.sort (some [100]) .null .null .null) .null
      (.st { index := some (ascii "cql.serverChoice"), relation := some (ascii "="), term := some [97] } .null .null) ∧
    ¬ SortedBy threeKeys.cql (threeKeys.query.cql serverChoice) [⟨[98], .null⟩, ⟨[99], .null⟩, ⟨[100], .null⟩] := by
  have tree : threeKeys.cql = .sort (some [98]) (.sort (some [100]) .null .null .null) .null
      (.st { index := some (ascii "cql.serverChoice"), relation := some (ascii "="), term := some [97] } .null .null) := by decide
  refine ⟨by decide, tree, fun sorted => ?_⟩
  have kept : SortChain threeKeys.cql [⟨[98], .null⟩, ⟨[100], .null⟩] := tree ▸ .cons _ _ _ (.cons _ _ _ .nil)
  exact absurd (congrArg List.length (sorted.1.unique kept)) (by decide)

end Yaz.Cql
