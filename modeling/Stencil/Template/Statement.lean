import Stencil.Template.Level
/-!
# Statements

What the words that open a statement do: choices, loops, assignments, other templates, elements
and comments. A choice and a loop wait for the `else` in their block; the branch that an `else`
opens shares the end of the block around it.
-/

namespace Stencil

namespace Statement

open Reading

/-- An expression and a colon. -/
def header (l : Level) (what : String) : Reading Node := do
  let test ← l.require 0 what
  expect .delimiter ":" (what ++ "之后的 ':'")
  return test

/-! ## Choices -/

/-- The word `if`: a test, a block, and the branches that the block has found. -/
def choice (l : Level) (t : Token) : Reading (Option Node) := do
  let test ← header l "if 条件"
  await .choice
  let body ← l.block true
  match ← settle? with
  | none => failAt t.line .lostBranches
  | some p => return some (.choice (.mk (some test) body :: p.branches))

/-- The test of a branch after the word `else`. -/
def branchTest (l : Level) (t : Token) (owner : Pending) : Reading (Option Node) := do
  if (← get).at? .keyword "if" then
    if owner.kind != .choice then failAt t.line .testedElseOfLoop
    let _ ← advance
    return some (← header l "else if 条件")
  else
    expect .delimiter ":" "'else' 之后的 ':'"
    amend fun p => { p with otherwise := true }
    return none

/-- The word `else`: a branch of the statement that waits for it. It leaves no node, and closes
the block that it stands in. -/
def branch (l : Level) (t : Token) : Reading (Option Node) := do
  match ← owner? with
  | none => failAt t.line .elseWithoutOwner
  | some owner => do
    if owner.otherwise then failAt t.line .branchAfterElse
    let test ← branchTest l t owner
    let body ← l.block true
    if (← owner?).isNone then failAt t.line .lostElseOwner
    amend fun p => { p with branches := .mk test body :: p.branches, closed := true }
    return none

/-! ## Loops -/

/-- One name of a loop, put in front of those before it. -/
def nameTurn (names : List String) : Reading (List String ⊕ List String) := do
  if (← get).at? .logical "in" then return .inr names
  let name ← literal "循环变量名"
  if (← get).at? .delimiter "," then
    let _ ← advance
    return .inl (name :: names)
  else return .inr (name :: names)

/-- The body of the first branch without a test. -/
def otherwise? (branches : List Branch) : Option Node :=
  (branches.find? fun b => b.test.isNone).map Branch.body

/-- The word `for`: names, a source, and either a block or one expression as the body. -/
def loop (l : Level) (t : Token) : Reading (Option Node) := do
  let names := (← Reading.loop nameTurn []).reverse
  if names.isEmpty then failAt t.line .loopWithoutNames
  expect .logical "in" "循环变量之后的 'in'"
  let source ← l.require 0 "循环的数据源"
  let c ← get
  if c.at? .delimiter ":" then
    let _ ← advance
    await .loop
    let body ← l.block true
    match ← settle? with
    | none => failAt t.line .lostLoop
    | some p => return some (.loop names source body (otherwise? p.branches))
  else if c.atLineEnd then failAt t.line .loopWithoutBody
  else
    let body ← l.require 0 "循环体"
    return some (.loop names source body none)

/-! ## Templates and variables -/

/-- The word `render`: another template, by its name or by an expression. -/
def render (l : Level) (_ : Token) : Reading (Option Node) := do
  let target ← l.require 0 "模板名"
  match target.label? with
  | some name => return some (.render name)
  | none => return some (.renderComputed target)

/-- The word `set`: a variable and its value. -/
def assignment (l : Level) (_ : Token) : Reading (Option Node) := do
  let name ← literal "变量名"
  expect .assignment "=" "变量名之后的 '='"
  let value ← l.require 0 "赋值表达式"
  return some (.assignment name value)

/-! ## Elements -/

/-- The modifier with its function in the place of its name, if it is a call of a name that the
host has registered. -/
def resolve (l : Level) : Node → Node
  | .call (.leaf (.name id)) args =>
    match l.modifier? id with
    | some f => .call (.external (.function f)) args
    | none => .call (.leaf (.name id)) args
  | node => node

/-- One modifier, put in front of those before it. -/
def modifierTurn (l : Level) (modifiers : List Node) : Reading (List Node ⊕ List Node) := do
  let c ← get
  if c.atLineEnd || c.at? .delimiter ":" || c.atBlockEnd then return .inr modifiers
  let modifier ← l.require 0 "元素修饰"
  return .inl (resolve l modifier :: modifiers)

/-- The tag of an element and its modifiers, last one first. -/
def elementHeader (l : Level) : Reading (String × List Node) := do
  let line := (← get).line
  let tag ← l.require 0 "元素名"
  match tag.label? with
  | none => failAt line (.elementName tag.kindName)
  | some tag => return (tag, ← Reading.loop (modifierTurn l) [])

/-- The word `elem`: an element with a block or without content. -/
def element (l : Level) (_ : Token) : Reading (Option Node) := do
  let (tag, modifiers) ← elementHeader l
  if (← get).at? .delimiter ":" then
    let _ ← advance
    let body ← l.block true
    return some (.element tag modifiers.reverse (.block body))
  else return some (.element tag modifiers.reverse .empty)

/-- The word `elex`: an element whose last modifier is its text. -/
def elementText (l : Level) (t : Token) : Reading (Option Node) := do
  let (tag, modifiers) ← elementHeader l
  match modifiers with
  | [] => failAt t.line .elementWithoutText
  | .attribute _ _ :: _ => failAt t.line .elementWithoutText
  | body :: modifiers => return some (.element tag modifiers.reverse (.text body))

/-! ## Comments -/

/-- The comment sign: everything up to the end of the line is passed over. -/
def comment (_ : Level) (_ : Token) : Reading (Option Node) := do
  modify fun c => { c with tokens := c.tokens.dropWhile fun t => t.kind != .newline }
  return none

end Statement

end Stencil
