import Stencil.Table
/-!
# Tokens

A token is a piece of a template with its kind, its text and its line. A vocabulary says which
texts are words of the language and of which kind; all other pieces are literals, strings and
numbers.
-/

namespace Stencil

/-- The kind of a token. -/
inductive TokenKind
  | arithmetic
  | comparison
  | logical
  | assignment
  | delimiter
  | keyword
  | nullWord
  | trueWord
  | falseWord
  /-- The mark that opens a statement or an expression. -/
  | mark
  | comment
  /-- The end of a line that is not blank. -/
  | newline
  | literal
  | string
  | number
  /-- The end of the template. -/
  | stop
  deriving DecidableEq

namespace TokenKind

/-- The word for the kind. -/
def name : TokenKind → String
  | arithmetic => "arithmetic"
  | comparison => "comparison"
  | logical => "logical"
  | assignment => "assignment"
  | delimiter => "delimiter"
  | keyword => "keyword"
  | nullWord => "null"
  | trueWord => "true"
  | falseWord => "false"
  | mark => "syntax"
  | comment => "comment"
  | newline => "newline"
  | literal => "literal"
  | string => "string"
  | number => "number"
  | stop => "end"

/-- All kinds. -/
def all : List TokenKind :=
  [arithmetic, comparison, logical, assignment, delimiter, keyword, nullWord, trueWord, falseWord,
    mark, comment, newline, literal, string, number, stop]

/-- The kind with a given word. -/
def ofName? (name : String) : Option TokenKind :=
  all.find? fun k => k.name == name

/-- The kind as messages and listings show it. -/
def label (k : TokenKind) : String :=
  "(" ++ k.name ++ ")"

end TokenKind

/-- A piece of a template. -/
structure Token where
  kind : TokenKind
  text : String
  line : Nat
  deriving DecidableEq

/-- Whether the token has the given kind and text. -/
def Token.is (t : Token) (kind : TokenKind) (text : String) : Bool :=
  t.kind == kind && t.text == text

/-- The words of a language with their kinds. -/
abbrev Vocabulary := Table TokenKind

namespace Vocabulary

/-- The binding power of a word before a grammar gives it one. -/
def basePower : Nat := 0

/-- The kind of a word. -/
def kind? (v : Vocabulary) (text : String) : Option TokenKind :=
  Table.get? v text

/-- The kind of a word of one character. -/
def charKind? (v : Vocabulary) (c : Char) : Option TokenKind :=
  v.kind? (String.ofList [c])

/-- Adds a word. A word that is there keeps its kind. -/
def define (v : Vocabulary) (text : String) (kind : TokenKind) : Vocabulary :=
  if Table.has v text then v else Table.insert v text kind

/-- The words of the template language. -/
def standard : Vocabulary :=
  [("+", .arithmetic), ("-", .arithmetic), ("*", .arithmetic), ("/", .arithmetic),
    ("==", .comparison), ("!=", .comparison), ("<", .comparison), ("<=", .comparison),
    (">", .comparison), (">=", .comparison),
    ("and", .logical), ("or", .logical), ("in", .logical), ("not", .logical),
    ("=", .assignment),
    ("?", .delimiter), (":", .delimiter), ("(", .delimiter), (")", .delimiter),
    (".", .delimiter), (",", .delimiter), ("[", .delimiter), ("]", .delimiter),
    ("\x7b", .delimiter), ("\x7d", .delimiter), ("|", .delimiter),
    ("for", .keyword), ("if", .keyword), ("else", .keyword), ("end", .keyword),
    ("render", .keyword), ("elem", .keyword), ("elex", .keyword), ("set", .keyword),
    ("null", .nullWord), ("true", .trueWord), ("false", .falseWord),
    ("@", .mark), ("#", .comment)]

end Vocabulary

end Stencil
