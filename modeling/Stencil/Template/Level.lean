import Stencil.Number.Numeral
import Stencil.Template.Cursor
/-!
# Levels of nesting

Reading an expression or a block goes one level down. A `Level` holds the readers of one level,
and with them everything that the rules of a grammar build on: operands, lines of content, the
places where blocks end. The lowest level refuses everything, which bounds the depth of a
template.
-/

namespace Stencil

/-- The readers at one level of nesting. -/
structure Level where
  /-- An expression whose operators bind more strongly than the given power. A rule can consume
  tokens without leaving a node. -/
  expression : Nat → Reading (Option Node)
  /-- Statements and lines up to the end of the block, or of the template if it is not nested. -/
  block : Bool → Reading Node
  /-- The value of an attribute that is written as a string in a given line. -/
  attributeText : String → Nat → Except SyntaxError Node
  /-- The binding power of a token. -/
  power : Token → Nat
  /-- The function that the host has registered for a modifier of elements. -/
  modifier? : String → Option Callable

namespace Level

open Reading

/-- An expression that leaves a node. -/
def require (l : Level) (power : Nat) (what : String) : Reading Node := do
  let line := (← get).line
  match ← l.expression power with
  | some node => return node
  | none => failAt line (.required what)

/-- The operator that a token stands for between operands. -/
def operator? (t : Token) : Option BinaryOp :=
  if t.kind == .arithmetic || t.kind == .comparison || t.kind == .logical then
    BinaryOp.ofSymbol? t.text
  else none

/-- An operation on `left`, whose right operand binds more strongly than `power`. -/
def binary (l : Level) (t : Token) (left : Node) (power : Nat) : Reading Node :=
  match operator? t with
  | none => failAt t.line (.notInfix t.text)
  | some op => do
    let right ← l.require power ("'" ++ t.text ++ "' 的右操作数")
    return .binary op left right

/-- The leaf that a token stands for where an expression starts. -/
def leaf (t : Token) : Reading Leaf :=
  match t.kind with
  | .literal => return .name t.text
  | .string => return .string t.text
  | .number =>
    match Number.ofText? t.text.toList with
    | some n => return .number (.number n)
    | none => failAt t.line (.invalidNumber t.text)
  | .trueWord => return .bool true
  | .falseWord => return .bool false
  | .nullWord => return .null
  | .stop => failAt t.line .unexpectedEnd
  | kind => failAt t.line (.unexpected kind t.text)

/-- The text that a token leaves in a line of content. -/
def contentText (t : Token) : Reading String :=
  match t.kind with
  | .number =>
    match Number.ofText? t.text.toList with
    | some n => return n.display
    | none => failAt t.line (.invalidNumber t.text)
  | _ => return t.text

/-- One part of a line of content, put in front of the parts before it. -/
def contentTurn (l : Level) (parts : List Part) : Reading (List Part ⊕ List Part) := do
  let c ← get
  if c.atLineEnd || c.atBlockEnd then return .inr parts
  let t ← advance
  if t.kind == .mark then
    let parts := match ← l.expression 0 with
      | some node => .expr node :: parts
      | none => parts
    if (← get).ownerClosed then return .inr parts else return .inl parts
  else
    let text ← contentText t
    return .inl (.text text :: parts)

/-- Texts and marked expressions up to the end of the line or of the block; none if there are no
parts. -/
def content (l : Level) (mode : OutputMode) : Reading (Option Node) := do
  let parts ← loop l.contentTurn []
  if parts.isEmpty then return none
  else return some (.output mode parts.reverse)

/-- One statement or line of a block, put in front of those before it. -/
def blockTurn (l : Level) (nested : Bool) (children : List Node) :
    Reading (List Node ⊕ List Node) := do
  skipNewlines
  let c ← get
  if c.tokens.isEmpty then
    if nested then fail .unclosedBlock else return .inr children
  else if c.atBlockEnd then
    let line := c.line
    let _ ← advance
    let _ ← advance
    if nested then return .inr children else failAt line .strayEnd
  else
    let node ← if c.atStatement then do
        let _ ← advance
        l.expression 0
      else l.content .content
    let children := node.toList ++ children
    if (← get).ownerClosed then return .inr children else return .inl children

/-- The block whose statements are read by `l`. -/
def blockOf (l : Level) (nested : Bool) : Reading Node := do
  let children ← loop (l.blockTurn nested) []
  return .block children.reverse

end Level

end Stencil
