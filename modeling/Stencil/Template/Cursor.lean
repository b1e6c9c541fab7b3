import Stencil.Template.Error
import Stencil.Template.Node
/-!
# Reading along a list of tokens

A reading consumes tokens from a cursor and may fail. The cursor also holds the statements that
wait for an `else`, innermost first. Loops are bounded by the tokens that are left: every turn but
the last one takes a token.
-/

namespace Stencil

/-- A statement that can have an `else`. -/
inductive Compound
  | choice
  | loop
  deriving DecidableEq

/-- A statement whose first block is being read. -/
structure Pending where
  kind : Compound
  /-- The branches after the first one in the order of the source: later ones are complete
  earlier. -/
  branches : List Branch
  /-- Whether an `else` without a test has come. -/
  otherwise : Bool
  /-- Whether a branch has taken the end that all branches share. -/
  closed : Bool

/-- A statement that has no branches yet. -/
def Pending.new (kind : Compound) : Pending :=
  ⟨kind, [], false, false⟩

/-- The tokens that are left, the line of the end, and the statements that wait for an `else`. -/
structure Cursor where
  tokens : List Token
  lastLine : Nat
  pending : List Pending

namespace Cursor

/-- Tokens count up to the first stop. A list without one ends in the line of its last token. -/
def ofTokens (tokens : List Token) : Cursor where
  tokens := tokens.takeWhile fun t => t.kind != .stop
  lastLine :=
    match tokens.find? fun t => t.kind == .stop with
    | some t => t.line
    | none => (tokens.getLast?.map Token.line).getD 1
  pending := []

/-- The line of the next token, or of the end. -/
def line (c : Cursor) : Nat :=
  match c.tokens with
  | [] => c.lastLine
  | t :: _ => t.line

/-- Whether the next token has the given kind and text. -/
def at? (c : Cursor) (kind : TokenKind) (text : String) : Bool :=
  match c.tokens with
  | [] => false
  | t :: _ => t.is kind text

/-- Whether the line or the template ends here. -/
def atLineEnd (c : Cursor) : Bool :=
  match c.tokens with
  | [] => true
  | t :: _ => t.kind == .newline

/-- Whether the mark and the word that close a block come next. -/
def atBlockEnd (c : Cursor) : Bool :=
  match c.tokens with
  | t :: u :: _ => t.kind == .mark && u.is .keyword "end"
  | _ => false

/-- Whether the mark and a word that opens a statement or a comment come next. -/
def atStatement (c : Cursor) : Bool :=
  match c.tokens with
  | t :: u :: _ =>
    t.kind == .mark && (u.kind == .keyword && u.text != "end" || u.kind == .comment)
  | _ => false

/-- Whether the innermost waiting statement has found its end in one of its branches. -/
def ownerClosed (c : Cursor) : Bool :=
  match c.pending with
  | [] => false
  | p :: _ => p.closed

/-- The next token as messages name it. -/
def found (c : Cursor) : Option (TokenKind × String) :=
  c.tokens.head?.map fun t => (t.kind, t.text)

end Cursor

/-- A step of reading. -/
abbrev Reading := StateT Cursor (Except SyntaxError)

namespace Reading

variable {α β σ : Type}

/-- Fails at a line. -/
def failAt (line : Nat) (fault : SyntaxFault) : Reading α :=
  throw ⟨line, fault⟩

/-- Fails at the next token. -/
def fail (fault : SyntaxFault) : Reading α :=
  fun c => .error ⟨c.line, fault⟩

/-- Fails because something else was expected. -/
def expected (what : String) : Reading α :=
  fun c => .error ⟨c.line, .expected what c.found⟩

/-- Takes the next token. -/
def advance : Reading Token :=
  fun c =>
    match c.tokens with
    | [] => .error ⟨c.lastLine, .unexpectedEnd⟩
    | t :: rest => .ok (t, { c with tokens := rest })

/-- Takes the next token if it has the given kind and text. -/
def expect (kind : TokenKind) (text what : String) : Reading Unit :=
  fun c =>
    if c.at? kind text then (advance c).map fun r => ((), r.2)
    else expected what c

/-- Takes the next token if it is a literal. -/
def literal (what : String) : Reading String :=
  fun c =>
    match c.tokens with
    | t :: rest => if t.kind == .literal then .ok (t.text, { c with tokens := rest })
      else expected what c
    | [] => expected what c

/-- Lets a statement wait for an `else`. -/
def await (kind : Compound) : Reading Unit :=
  modify fun c => { c with pending := .new kind :: c.pending }

/-- The innermost waiting statement, which waits no longer. -/
def settle? : Reading (Option Pending) :=
  modifyGet fun c =>
    match c.pending with
    | [] => (none, c)
    | p :: ps => (some p, { c with pending := ps })

/-- The innermost waiting statement. -/
def owner? : Reading (Option Pending) := do
  return (← get).pending.head?

/-- Changes the innermost waiting statement, if there is one. -/
def amend (f : Pending → Pending) : Reading Unit :=
  modify fun c =>
    match c.pending with
    | [] => c
    | p :: ps => { c with pending := f p :: ps }

/-- Turns that go on with a new state or end with a result, at most `n` of them. -/
def turns (turn : σ → Reading (σ ⊕ β)) : Nat → σ → Reading β
  | 0, _ => fail .unexpectedEnd
  | n + 1, s => do
    match ← turn s with
    | .inl s => turns turn n s
    | .inr b => return b

/-- Turns as long as there are tokens. Every turn that goes on takes a token, so one turn more
than there are tokens is enough. -/
def loop (turn : σ → Reading (σ ⊕ β)) (s : σ) : Reading β :=
  fun c => turns turn (c.tokens.length + 1) s c

/-- Takes all newlines that come next. -/
def skipNewlines : Reading Unit :=
  modify fun c => { c with tokens := c.tokens.dropWhile fun t => t.kind == .newline }

end Reading

end Stencil
