import Stencil.Template.Level
/-!
# Operations

What words do inside expressions: brackets of all kinds, paths, filters, membership, conditions
and attributes.
-/

namespace Stencil

namespace Operation

open Reading

/-! ## Sequences -/

/-- One item of a sequence, put in front of those before it. -/
def itemTurn (l : Level) (close what : String) (items : List Node) :
    Reading (List Node ⊕ List Node) := do
  if (← get).at? .delimiter close then return .inr items
  let item ← l.require 0 what
  if (← get).at? .delimiter "," then
    let _ ← advance
    return .inl (item :: items)
  else return .inr (item :: items)

/-- Expressions between commas up to a closing bracket. A comma may stand before the bracket. -/
def sequence (l : Level) (close what : String) : Reading (List Node) := do
  let items ← loop (itemTurn l close what) []
  expect .delimiter close ("'" ++ close ++ "'")
  return items.reverse

/-! ## At the start of an expression -/

/-- The word `not`. -/
def negation (l : Level) (_ : Token) : Reading (Option Node) := do
  let operand ← l.require 0 "'not' 的操作数"
  return some (.negation operand)

/-- An opening parenthesis: the expression up to the closing one. -/
def group (l : Level) (_ : Token) : Reading (Option Node) := do
  let inner ← l.require 0 "括号内的表达式"
  expect .delimiter ")" "右括号 ')'"
  return some inner

/-- An opening bracket: an array. -/
def array (l : Level) (_ : Token) : Reading (Option Node) := do
  return some (.array (← sequence l "]" "数组元素"))

/-- One member of an object, put in front of those before it. -/
def memberTurn (l : Level) (members : List Member) : Reading (List Member ⊕ List Member) := do
  if (← get).at? .delimiter "\x7d" then return .inr members
  let key ← l.require 0 "成员名"
  expect .delimiter ":" "成员名之后的 ':'"
  let value ← l.require 0 "成员值"
  if (← get).at? .delimiter "," then
    let _ ← advance
    return .inl (.mk key value :: members)
  else return .inr (.mk key value :: members)

/-- An opening brace: an object. -/
def object (l : Level) (_ : Token) : Reading (Option Node) := do
  let members ← loop (memberTurn l) []
  expect .delimiter "\x7d" "右花括号 '\x7d'"
  return some (.object members.reverse)

/-! ## After an operand -/

/-- The words `and` and `or`, which bind to the right. -/
def logical (l : Level) (t : Token) (left : Node) : Reading Node :=
  l.binary t left (l.power t - 1)

/-- The word `in`. -/
def membership (l : Level) (_ : Token) (left : Node) : Reading Node := do
  let container ← l.require 0 "'in' 右侧的容器"
  return .member left container

/-- The question mark: a value if the test holds, and after a colon one if it does not. -/
def conditional (l : Level) (_ : Token) (left : Node) : Reading Node := do
  let whenTrue ← l.require 0 "'?' 之后的值"
  if (← get).at? .delimiter ":" then
    let _ ← advance
    let whenFalse ← l.require 0 "':' 之后的值"
    return .conditional left whenTrue (some whenFalse)
  else return .conditional left whenTrue none

/-- The equals sign: an attribute. A string as its value is read again as text with marked
expressions. -/
def attributePair (l : Level) (t : Token) (left : Node) : Reading Node :=
  match left.label? with
  | none => failAt t.line (.attributeName left.kindName)
  | some name => do
    match ← l.require 0 "属性值" with
    | .leaf (.string text) =>
      let value ← StateT.lift (l.attributeText text t.line)
      return .attribute name value
    | value => return .attribute name value

/-- An opening parenthesis: a call. -/
def call (l : Level) (_ : Token) (left : Node) : Reading Node := do
  return .call left (← sequence l ")" "函数参数")

/-- An opening bracket: a computed key or position. -/
def index (l : Level) (_ : Token) (left : Node) : Reading Node := do
  let key ← l.require 0 "下标表达式"
  expect .delimiter "]" "右方括号 ']'"
  return .index left key

/-- Whether a token can be a segment of a path. -/
def isSegment (t : Token) : Bool :=
  t.kind == .literal || t.kind == .number || t.kind == .keyword || t.kind == .trueWord ||
    t.kind == .falseWord || t.kind == .nullWord

/-- One segment of a path, put in front of those before it. -/
def segmentTurn (segments : List String) : Reading (List String ⊕ List String) := do
  match (← get).tokens with
  | [] => expected "'.' 之后的字段名"
  | t :: _ =>
    if isSegment t then
      let _ ← advance
      if (← get).at? .delimiter "." then
        let _ ← advance
        return .inl (t.text :: segments)
      else return .inr (t.text :: segments)
    else expected "'.' 之后的字段名"

/-- A point: a path, which takes in all points that follow. -/
def path (_ : Level) (_ : Token) (left : Node) : Reading Node := do
  let segments ← loop segmentTurn []
  return .path left segments.reverse

/-- One filter, put in front of those before it. -/
def filterTurn (filters : List String) : Reading (List String ⊕ List String) := do
  let name ← literal "过滤器名"
  if (← get).at? .delimiter "|" then
    let _ ← advance
    return .inl (name :: filters)
  else return .inr (name :: filters)

/-- A bar: filters, all that follow. -/
def filtered (_ : Level) (_ : Token) (left : Node) : Reading Node := do
  let filters ← loop filterTurn []
  return .filtered left filters.reverse

end Operation

end Stencil
