import Stencil.Template.Standard
import Stencil.Token.Lexer
/-!
# From source to template

`levels` stacks the readers of a grammar on each other, as many as the limit of nesting allows.
Strings in attributes start again with all levels; since such a string is shorter than any string
around it, a budget of one more than its length is never used up.
-/

namespace Stencil

/-- What a template is read with. -/
structure Dialect where
  grammar : Grammar
  /-- The function that the host has registered for a modifier of elements. -/
  modifier? : String → Option Callable
  /-- The deepest nesting of expressions and blocks. -/
  maxDepth : Nat

namespace Dialect

/-- The readers with so many levels left. -/
def levels (d : Dialect) (attributeText : String → Nat → Except SyntaxError Node) : Nat → Level
  | 0 =>
    { expression := fun _ => Reading.fail (.tooDeep d.maxDepth)
      block := fun _ => Reading.fail (.tooDeep d.maxDepth)
      attributeText
      power := d.grammar.power
      modifier? := d.modifier? }
  | n + 1 =>
    { expression := fun power => d.grammar.expressionOf (d.levels attributeText n) power
      block := fun nested => (d.levels attributeText n).blockOf nested
      attributeText
      power := d.grammar.power
      modifier? := d.modifier? }

/-- The value of an attribute that is written as a string, for strings shorter than the budget.
What follows the end of a block in it is passed over. -/
def attributeText (d : Dialect) : Nat → String → Nat → Except SyntaxError Node
  | 0, _, _ => .ok (.output .attribute [])
  | budget + 1, text, line => do
    let tokens ← Lexer.tokenizeFrom d.grammar.vocabulary text line
    let level := d.levels (d.attributeText budget) d.maxDepth
    let (node, _) ← level.content .attribute (Cursor.ofTokens tokens)
    return node.getD (.output .attribute [])

/-- The length of the longest text of a token. -/
def longestText (tokens : List Token) : Nat :=
  tokens.foldl (fun n t => max n t.text.length) 0

/-- The readers at the top of a template. -/
def top (d : Dialect) (tokens : List Token) : Level :=
  d.levels (d.attributeText (longestText tokens + 1)) d.maxDepth

/-- The template that a list of tokens forms, and where its reading ends. -/
def read (d : Dialect) (tokens : List Token) : Except SyntaxError (Node × Cursor) :=
  (d.top tokens).block false (Cursor.ofTokens tokens)

/-- The template that a list of tokens forms. -/
def parse (d : Dialect) (tokens : List Token) : Except SyntaxError Node :=
  (d.read tokens).map Prod.fst

/-- The template with a given source. -/
def parseSource (d : Dialect) (source : String) : Except SyntaxError Node := do
  let tokens ← Lexer.tokenize d.grammar.vocabulary source
  d.parse tokens

theorem parseSource_of_tokenize {d : Dialect} {source : String} {ts : List Token}
    (h : Lexer.tokenize d.grammar.vocabulary source = .ok ts) :
    d.parseSource source = d.parse ts := by
  rw [parseSource, h]
  rfl

/-- The template with a given name and source; errors tell the place. -/
def compile (d : Dialect) (name source : String) : Except CompileError Node :=
  (d.parseSource source).mapError (CompileError.inTemplate name source)

end Dialect

end Stencil
