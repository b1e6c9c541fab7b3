import Stencil.Template.Level
/-!
# Grammars

A grammar is a vocabulary together with symbols: for some words, how strongly they bind, what they
do at the start of an expression and what they do between operands. Words can be registered again;
this raises their binding power or replaces a rule, and takes nothing away.
-/

namespace Stencil

/-- What a word does at the start of an expression. -/
abbrev PrefixRule := Level → Token → Reading (Option Node)

/-- What a word does after an operand. -/
abbrev InfixRule := Level → Token → Node → Reading Node

/-- The behaviour of a word in expressions. -/
structure Symbol where
  kind : TokenKind
  power : Nat
  prefixRule : Option PrefixRule
  infixRule : Option InfixRule

/-- The words of a language and what they do. -/
structure Grammar where
  vocabulary : Vocabulary
  symbols : Table Symbol

namespace Grammar

/-- A grammar without any rules. -/
def ofVocabulary (v : Vocabulary) : Grammar :=
  ⟨v, []⟩

/-- The symbol of a word before its registration. -/
def blank (kind : TokenKind) : Symbol :=
  ⟨kind, Vocabulary.basePower, none, none⟩

/-- The symbol with at least the given power, and with the given rules in place of its own. -/
def revise (s : Symbol) (power : Nat) (prefixRule : Option PrefixRule)
    (infixRule : Option InfixRule) : Symbol where
  kind := s.kind
  power := max s.power power
  prefixRule := prefixRule.or s.prefixRule
  infixRule := infixRule.or s.infixRule

/-- Registers a word. A text that is not in the vocabulary becomes a keyword. -/
def register (g : Grammar) (text : String) (power : Nat) (prefixRule : Option PrefixRule)
    (infixRule : Option InfixRule) : Grammar :=
  let vocabulary := g.vocabulary.define text .keyword
  let kind := (vocabulary.kind? text).getD .keyword
  let symbol := (Table.get? g.symbols text).getD (blank kind)
  ⟨vocabulary, Table.insert g.symbols text (revise symbol power prefixRule infixRule)⟩

/-- The symbol of a token. Literals, strings and numbers have none, whatever their text. -/
def symbol? (g : Grammar) (t : Token) : Option Symbol :=
  match t.kind with
  | .literal | .string | .number | .newline | .stop => none
  | _ => Table.get? g.symbols t.text

/-- The binding power of a token. -/
def power (g : Grammar) (t : Token) : Nat :=
  (g.symbol? t).elim 0 Symbol.power

open Reading

/-- The start of an expression. -/
def start (g : Grammar) (l : Level) (t : Token) : Reading (Option Node) :=
  match (g.symbol? t).bind Symbol.prefixRule with
  | some rule => rule l t
  | none => do return some (.leaf (← Level.leaf t))

/-- An operand together with the word after it. Without a rule of its own the word is an operator
that binds to the left. -/
def extend (g : Grammar) (l : Level) (t : Token) (left : Node) : Reading Node :=
  match (g.symbol? t).bind Symbol.infixRule with
  | some rule => rule l t left
  | none => l.binary t left (g.power t)

/-- Takes one more word into the expression if it binds more strongly than `power`. -/
def extendTurn (g : Grammar) (l : Level) (power : Nat) (left : Option Node) :
    Reading (Option Node ⊕ Option Node) := do
  match (← get).tokens with
  | [] => return .inr left
  | t :: _ =>
    if t.kind != .newline && power < g.power t then
      let t ← advance
      match left with
      | none => failAt t.line (.nothingBefore t.text)
      | some node => return .inl (some (← g.extend l t node))
    else return .inr left

/-- An expression whose operators bind more strongly than `power`, its parts read by `l`. -/
def expressionOf (g : Grammar) (l : Level) (power : Nat) : Reading (Option Node) := do
  let t ← advance
  let left ← g.start l t
  loop (g.extendTurn l power) left

end Grammar

end Stencil
