import TypedTables.Span
import TypedTables.Text.AsciiCase

/-!
Tokens: keywords, the other kinds, and which tokens can stand for a name.
-/

namespace TypedTables

inductive Keyword
  | alias | as | by | cluster | codec | comment | constraint | create | default | engine
  | ephemeral | exists | from | if | index | key | materialized | not | null | on | or | order
  | partition | populate | primary | projection | replace | sample | select | settings | table
  | temporary | to | ttl | view | with
  deriving DecidableEq, Repr

namespace Keyword

def text : Keyword → String
  | .alias => "ALIAS" | .as => "AS" | .by => "BY" | .cluster => "CLUSTER" | .codec => "CODEC"
  | .comment => "COMMENT" | .constraint => "CONSTRAINT" | .create => "CREATE"
  | .default => "DEFAULT" | .engine => "ENGINE" | .ephemeral => "EPHEMERAL"
  | .exists => "EXISTS" | .from => "FROM" | .if => "IF" | .index => "INDEX" | .key => "KEY"
  | .materialized => "MATERIALIZED" | .not => "NOT" | .null => "NULL" | .on => "ON"
  | .or => "OR" | .order => "ORDER" | .partition => "PARTITION" | .populate => "POPULATE"
  | .primary => "PRIMARY" | .projection => "PROJECTION" | .replace => "REPLACE"
  | .sample => "SAMPLE" | .select => "SELECT" | .settings => "SETTINGS" | .table => "TABLE"
  | .temporary => "TEMPORARY" | .to => "TO" | .ttl => "TTL" | .view => "VIEW"
  | .with => "WITH"

def all : List Keyword :=
  [.alias, .as, .by, .cluster, .codec, .comment, .constraint, .create, .default, .engine,
   .ephemeral, .exists, .from, .if, .index, .key, .materialized, .not, .null, .on, .or, .order,
   .partition, .populate, .primary, .projection, .replace, .sample, .select, .settings, .table,
   .temporary, .to, .ttl, .view, .with]

/-- The keyword that a word spells in any mix of ASCII letter case. -/
def ofWord? (word : String) : Option Keyword :=
  let upper := Text.upper word
  all.find? (·.text == upper)

/-- Reserved keywords never double as names. -/
def isReserved : Keyword → Bool
  | .as | .by | .create | .from | .not | .null | .on | .or | .order | .select | .to | .with => true
  | _ => false

end Keyword

inductive TokenKind
  | keyword (keyword : Keyword)
  | identifier
  | quotedIdentifier
  | string
  | number
  | openParen
  | closeParen
  | comma
  | dot
  | equals
  | semicolon
  | star
  | operator
  deriving DecidableEq, Repr

/-- `text` is what the source shows, except that quoted tokens hold what is between the quotes with
escapes resolved. -/
structure Token where
  kind : TokenKind
  text : String
  span : Span
  deriving DecidableEq, Repr

namespace Token

def isKeyword (t : Token) (k : Keyword) : Bool := t.kind == .keyword k

/-- An identifier, bare or quoted. -/
def isIdentifier (t : Token) : Bool := t.kind == .identifier || t.kind == .quotedIdentifier

/-- Whether the token can stand for a table, a column or an element. -/
def isName (t : Token) : Bool :=
  match t.kind with
  | .identifier | .quotedIdentifier => true
  | .keyword k => !k.isReserved
  | _ => false

/-- Parentheses open after the token, given how many were open before it. -/
def nest (t : Token) (depth : Nat) : Nat :=
  match t.kind with
  | .openParen => depth + 1
  | .closeParen => depth - 1
  | _ => depth

end Token

end TypedTables
