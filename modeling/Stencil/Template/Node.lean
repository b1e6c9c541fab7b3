import Stencil.Value.Json
/-!
# Templates

A template is a tree of nodes: statements, expressions and lines of output are all nodes. The
tree is read once and evaluated any number of times. `walk` lists all nodes of a tree, a node
before the nodes below it.
-/

namespace Stencil

/-- A node without parts. -/
inductive Leaf
  | name (text : String)
  | string (text : String)
  /-- A number, held as the value that it stands for. -/
  | number (v : Value)
  | bool (b : Bool)
  | null

/-- The text of a leaf where it serves as a key or a name. -/
def Leaf.text : Leaf → String
  | name text => text
  | string text => text
  | number v => v.display
  | bool b => if b then "true" else "false"
  | null => "null"

/-- An operator between two operands. -/
inductive BinaryOp
  | add
  | sub
  | mul
  | div
  | eq
  | ne
  | lt
  | le
  | gt
  | ge
  | and
  | or
  deriving DecidableEq

namespace BinaryOp

/-- How the operator is written. -/
def symbol : BinaryOp → String
  | add => "+"
  | sub => "-"
  | mul => "*"
  | div => "/"
  | eq => "=="
  | ne => "!="
  | lt => "<"
  | le => "<="
  | gt => ">"
  | ge => ">="
  | and => "and"
  | or => "or"

/-- All operators. -/
def all : List BinaryOp := [add, sub, mul, div, eq, ne, lt, le, gt, ge, and, or]

/-- The operator that is written in a given way. -/
def ofSymbol? (text : String) : Option BinaryOp :=
  all.find? fun op => op.symbol == text

theorem ofSymbol?_symbol (op : BinaryOp) : ofSymbol? op.symbol = some op := by
  cases op <;> rfl

end BinaryOp

/-- How the parts of an output are put together. -/
inductive OutputMode
  | content
  | attribute
  deriving DecidableEq

mutual

/-- A node of a template. -/
inductive Node
  | block (children : List Node)
  | choice (branches : List Branch)
  | loop (names : List String) (source body : Node) (otherwise : Option Node)
  | binary (op : BinaryOp) (left right : Node)
  | negation (operand : Node)
  | conditional (test whenTrue : Node) (whenFalse : Option Node)
  | leaf (l : Leaf)
  /-- A value reached from another by keys and positions: `target.a.b`. -/
  | path (target : Node) (segments : List String)
  /-- A value reached by a computed key or position: `target[key]`. -/
  | index (target key : Node)
  | member (item container : Node)
  | call (callee : Node) (args : List Node)
  | filtered (value : Node) (filters : List String)
  | assignment (name : String) (value : Node)
  | attribute (name : String) (value : Node)
  | array (items : List Node)
  | object (members : List Member)
  | output (mode : OutputMode) (parts : List Part)
  | element (tag : String) (modifiers : List Node) (body : Body)
  /-- Another template, named in the source. -/
  | render (name : String)
  /-- Another template, whose name is computed. -/
  | renderComputed (name : Node)
  /-- A value that the host has put in the place of a name. -/
  | external (v : Value)

/-- A branch of a choice; without a test it is always taken. -/
inductive Branch
  | mk (test : Option Node) (body : Node)

/-- A member of an object literal. -/
inductive Member
  | mk (key value : Node)

/-- A part of an output. -/
inductive Part
  | text (s : String)
  | expr (e : Node)

/-- What an element holds. -/
inductive Body
  | empty
  | block (body : Node)
  /-- An expression whose text is the content of the element. -/
  | text (body : Node)

end

namespace Branch

/-- The test of a branch. -/
def test : Branch → Option Node
  | mk test _ => test

/-- The body of a branch. -/
def body : Branch → Node
  | mk _ body => body

end Branch

namespace Node

/-- The word for the shape of a node. -/
def kindName : Node → String
  | block _ => "Block"
  | choice _ => "IfStatement"
  | loop _ _ _ _ => "ForLoop"
  | binary _ _ _ => "Binary"
  | negation _ => "Unary"
  | conditional _ _ _ => "Ternary"
  | leaf _ => "Value"
  | path _ _ => "Accessor"
  | index _ _ => "Accessor"
  | member _ _ => "Member"
  | call _ _ => "FunctionCall"
  | filtered _ _ => "Filter"
  | assignment _ _ => "Assignment"
  | .attribute _ _ => "Attribute"
  | array _ => "ArrayLiteral"
  | object _ => "ObjectLiteral"
  | output _ _ => "Output"
  | element _ _ _ => "Element"
  | render _ => "Render"
  | renderComputed _ => "Render"
  | external _ => "External"

/-- Whether the node is an output. -/
def isOutput : Node → Bool
  | output _ _ => true
  | _ => false

/-- The text of a leaf that can name something: a name or a string. -/
def label? : Node → Option String
  | leaf (.name text) => some text
  | leaf (.string text) => some text
  | _ => none

/-- How error messages name the place of a value: names and paths as they are written, any other
node by its shape. -/
def describe : Node → String
  | leaf l => l.text
  | path target segments => describe target ++ "." ++ ".".intercalate segments
  | node => node.kindName

end Node

/-! ## All nodes of a tree -/

namespace Node

mutual

/-- The node and all nodes below it, each before those below it and in the order of the source. -/
def walk : Node → List Node
  | block children => block children :: walkList children
  | choice branches => choice branches :: walkBranches branches
  | loop names source body otherwise =>
    loop names source body otherwise :: (walk source ++ walk body ++ walkOption otherwise)
  | binary op left right => binary op left right :: (walk left ++ walk right)
  | negation operand => negation operand :: walk operand
  | conditional test whenTrue whenFalse =>
    conditional test whenTrue whenFalse :: (walk test ++ walk whenTrue ++ walkOption whenFalse)
  | leaf l => [leaf l]
  | path target segments => path target segments :: walk target
  | index target key => index target key :: (walk target ++ walk key)
  | member item container => member item container :: (walk item ++ walk container)
  | call callee args => call callee args :: (walk callee ++ walkList args)
  | filtered value filters => filtered value filters :: walk value
  | assignment name value => assignment name value :: walk value
  | .attribute name value => .attribute name value :: walk value
  | array items => array items :: walkList items
  | object members => object members :: walkMembers members
  | output mode parts => output mode parts :: walkParts parts
  | element tag modifiers body =>
    element tag modifiers body :: (walkList modifiers ++ walkBody body)
  | render name => [render name]
  | renderComputed name => renderComputed name :: walk name
  | external v => [external v]

def walkList : List Node → List Node
  | [] => []
  | n :: ns => walk n ++ walkList ns

def walkOption : Option Node → List Node
  | none => []
  | some n => walk n

def walkBranches : List Branch → List Node
  | [] => []
  | .mk test body :: bs => walkOption test ++ walk body ++ walkBranches bs

def walkMembers : List Member → List Node
  | [] => []
  | .mk key value :: ms => walk key ++ walk value ++ walkMembers ms

def walkParts : List Part → List Node
  | [] => []
  | .text _ :: ps => walkParts ps
  | .expr e :: ps => walk e ++ walkParts ps

def walkBody : Body → List Node
  | .empty => []
  | .block body => walk body
  | .text body => walk body

end

end Node

end Stencil
