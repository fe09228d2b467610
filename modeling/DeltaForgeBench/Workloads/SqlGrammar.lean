import DeltaForgeBench.Workloads.DfCatalog

/-! # The queries of the benchmarks

The grammar the query files are written in, from a `WITH` list down to the
items of an expression, and the lexemes a query is written with. Each word of a
query is given a role: the name of a table reference, a name that a benchmark
table must not share, the head of a dotted name right behind `FROM` or a comma
where the `FROM` list has not been closed, or any other word. -/
namespace DeltaForgeBench.Workloads.SqlGrammar
open DeltaForgeBench.Base.Text DeltaForgeBench.Workloads.DfCatalog

def isWord (t : Str) : Bool :=
  match t with
  | [] => false
  | c :: cs => isWordStart c && cs.all isWordChar

/-- A word that neither opens nor closes a `FROM` list. -/
def isIdent (t : Str) : Bool :=
  isWord t && !fromOn.contains (lower t) && !clauseOff.contains (lower t)

structure Ident where
  text : Str
  wf : isIdent text = true

/-- Digits and operator characters. -/
def isSym (c : Char) : Bool :=
  c.toNat < 128 && !isSpace c && !isWordStart c && !(['\'', '(', ')', ',', '.'].contains c)

structure Sym where
  char : Char
  wf : isSym char = true

inductive SetOp
  | union | unionAll | intersect | except

inductive ClauseWord
  | where | group | having | order | limit

inductive JoinWord
  | left | right | full | outer | inner | cross

inductive Alias
  | none
  | bare (name : Ident)
  | as (name : Ident)

/-- What follows the dot of a dotted name: a word, or the star of `t.*`. -/
abbrev Part := Option Ident

mutual

inductive Query : Type
  | mk (withList : Ctes) (body : Body)

/-- The `WITH` list; an empty one is not written at all. -/
inductive Ctes : Type
  | nil
  | cons (name : Ident) (columns : List Ident) (query : Query) (rest : Ctes)

inductive Body : Type
  | core (c : Core)
  | setOp (c : Core) (op : SetOp) (rest : Body)

inductive Core : Type
  | mk (items : Items false) (refs : Refs) (clauses : Clauses)
  | bare (items : Items false) (clauses : Clauses)

inductive Clauses : Type
  | nil
  | cons (word : ClauseWord) (items : Items false) (rest : Clauses)

inductive Refs : Type
  | one (c : Chain)
  | cons (c : Chain) (rest : Refs)

inductive Chain : Type
  | mk (first : Primary) (joins : Joins)

inductive Joins : Type
  | nil
  | on (words : List JoinWord) (right : Primary) (predicate : Items false) (rest : Joins)
  | cross (words : List JoinWord) (right : Primary) (rest : Joins)

inductive Primary : Type
  | table (name : Ident) (named : Alias)
  | derived (query : Query) (named : Alias) (columns : List Ident)

/-- A run of expression items and commas. Inside the parentheses of a call or a
window (`Items true`) there may also be `FROM` and `ORDER`. -/
inductive Items : Bool → Type
  | nil {g : Bool} : Items g
  | item {g : Bool} (i : Item) (rest : Items g) : Items g
  | comma {g : Bool} (i : Item) (rest : Items g) : Items g
  | fromWord (i : Item) (rest : Items true) : Items true
  | orderWord (rest : Items true) : Items true

inductive Item : Type
  | literal (body : Str)
  | sym (s : Sym)
  | number (first : Sym) (whole fraction : List Sym)
  | name (head : Ident) (parts : List Part)
  | group (items : Items true)
  | query (q : Query)

end

/-! ## Lexemes -/

inductive Role
  | plain | table | guarded | dotted
  deriving DecidableEq

inductive Lexeme
  | keyword (k : Str)
  | word (role : Role) (w : Ident)
  | literal (body : Str)
  | sym (s : Sym)
  | dot | comma | opening | closing

def star : Sym := ⟨'*', rfl⟩

def SetOp.lexemes : SetOp → List Lexeme
  | .union => [.keyword "union".toList]
  | .unionAll => [.keyword "union".toList, .keyword "all".toList]
  | .intersect => [.keyword "intersect".toList]
  | .except => [.keyword "except".toList]

/-- `GROUP` and `ORDER` are followed by a `BY`, which is a word like any other. -/
def ClauseWord.text : ClauseWord → Str
  | .where => "where".toList
  | .group => "group".toList
  | .having => "having".toList
  | .order => "order".toList
  | .limit => "limit".toList

def JoinWord.text : JoinWord → Str
  | .left => "left".toList
  | .right => "right".toList
  | .full => "full".toList
  | .outer => "outer".toList
  | .inner => "inner".toList
  | .cross => "cross".toList

def Alias.lexemes : Alias → List Lexeme
  | .none => []
  | .bare name => [.word .plain name]
  | .as name => [.keyword "as".toList, .word .plain name]

def partLexemes : Part → List Lexeme
  | some w => [.dot, .word .plain w]
  | none => [.dot, .sym star]

/-- The role of the head of a name; `exposed` says that it comes right behind
`FROM` or a comma of an open `FROM` list. -/
def headRole (exposed : Bool) (parts : List Part) : Role :=
  if !exposed then .plain else if parts.isEmpty then .guarded else .dotted

/-- `(a, b, ...)`, and nothing for an empty list. -/
def columnLexemes : List Ident → List Lexeme
  | [] => []
  | c :: cs => [.opening, .word .guarded c] ++
      cs.flatMap (fun c => [.comma, .word .guarded c]) ++ [.closing]

def joinLexemes (words : List JoinWord) : List Lexeme :=
  words.map (fun w => .keyword w.text) ++ [.keyword "join".toList]

mutual

/-- The lexemes of a query. `b` says that the text around its parentheses is an
open `FROM` list: a predicate behind `ON`, or behind the `FROM` of a call. -/
def Query.lexemes (b : Bool) : Query → List Lexeme
  | .mk withList body => withList.lexemes b true ++ body.lexemes

def Ctes.lexemes (b first : Bool) : Ctes → List Lexeme
  | .nil => []
  | .cons name columns query rest =>
    [if first then .keyword "with".toList else .comma, .word .guarded name] ++
      columnLexemes columns ++ [.keyword "as".toList, .opening] ++ query.lexemes b ++ [.closing] ++
      rest.lexemes b false

def Body.lexemes : Body → List Lexeme
  | .core c => c.lexemes
  | .setOp c op rest => c.lexemes ++ op.lexemes ++ rest.lexemes

def Core.lexemes : Core → List Lexeme
  | .mk items refs clauses =>
    [.keyword "select".toList] ++ items.lexemes false ++ [.keyword "from".toList] ++
      refs.lexemes ++ clauses.lexemes
  | .bare items clauses => [.keyword "select".toList] ++ items.lexemes false ++ clauses.lexemes

def Clauses.lexemes : Clauses → List Lexeme
  | .nil => []
  | .cons word items rest => [.keyword word.text] ++ items.lexemes false ++ rest.lexemes

def Refs.lexemes : Refs → List Lexeme
  | .one c => c.lexemes
  | .cons c rest => c.lexemes ++ [.comma] ++ rest.lexemes

def Chain.lexemes : Chain → List Lexeme
  | .mk first joins => first.lexemes ++ joins.lexemes

def Joins.lexemes : Joins → List Lexeme
  | .nil => []
  | .on words right predicate rest =>
    joinLexemes words ++ right.lexemes ++ [.keyword "on".toList] ++ predicate.lexemes true ++
      rest.lexemes
  | .cross words right rest => joinLexemes words ++ right.lexemes ++ rest.lexemes

def Primary.lexemes : Primary → List Lexeme
  | .table name named => [.word .table name] ++ named.lexemes
  | .derived query named columns =>
    [.opening] ++ query.lexemes true ++ [.closing] ++ named.lexemes ++ columnLexemes columns

def Items.lexemes {g : Bool} (b : Bool) : Items g → List Lexeme
  | .nil => []
  | .item i rest => i.lexemes b false ++ rest.lexemes b
  | .comma i rest => [.comma] ++ i.lexemes b true ++ rest.lexemes b
  | .fromWord i rest => [.keyword "from".toList] ++ i.lexemes true true ++ rest.lexemes true
  | .orderWord rest => [.keyword "order".toList] ++ rest.lexemes false

/-- `behind` says that the item comes right behind `FROM` or a comma. -/
def Item.lexemes (b behind : Bool) : Item → List Lexeme
  | .literal body => [.literal body]
  | .sym s => [.sym s]
  | .number first whole fraction =>
    (first :: whole).map .sym ++ [.dot] ++ fraction.map .sym
  | .name head parts => [.word (headRole (b && behind) parts) head] ++ parts.flatMap partLexemes
  | .group items => [.opening] ++ items.lexemes b ++ [.closing]
  | .query q => [.opening] ++ q.lexemes b ++ [.closing]

end

end DeltaForgeBench.Workloads.SqlGrammar
