import Stencil.Engine.Basic
import Stencil.Render.Attribute
import Stencil.Render.Loop
import Stencil.Render.Operator
import Stencil.Render.Run
import Stencil.Value.Access
/-!
# Evaluation

A node is evaluated to a value, in a container to which it may add. `evalNode` evaluates one node
by means of an evaluator for the nodes it consists of, and `eval` puts such evaluators on top of
each other, as many as the limit of nesting allows. Whatever holds of evaluation is shown for one
node first, and then for all by going down the levels.
-/

namespace Stencil

/-- An evaluation of nodes in a container. -/
abbrev Evaluator := Node → NodeId → Rendering Value

namespace Engine

open Rendering

section Pieces

variable (ev : Evaluator) (container : NodeId)

/-- The values of several nodes. -/
def evalAll : List Node → Rendering (List Value)
  | [] => pure []
  | n :: ns => do
    let v ← ev n container
    return v :: (← evalAll ns)

/-- The children of a block. A line of output becomes a text, and a line break stands between two
of them. -/
def evalBlock : List Node → Rendering Unit
  | [] => pure ()
  | n :: ns => do
    let v ← ev n container
    if n.isOutput then
      addText container v.display
      if ns.head?.any Node.isOutput then addText container "\n"
    evalBlock ns

/-- A body in a frame of its own. -/
def evalBody (body : Node) : Rendering Unit :=
  inFrame do
    let _ ← ev body container

/-- The body of the first branch whose test is true. -/
def evalBranches : List Branch → Rendering Unit
  | [] => pure ()
  | .mk none body :: _ => evalBody ev container body
  | .mk (some test) body :: bs => do
    if (← ev test container).truthy then evalBody ev container body else evalBranches bs

/-- The turns of a loop that are left, the next one being `turn` of `total`. -/
def evalTurns (names : List String) (body : Node) (total : Nat) :
    Nat → List (List Value) → Rendering Unit
  | _, [] => pure ()
  | turn, values :: rest => do
    let serial := (← get).turns
    modify fun r => { r with turns := serial + 1 }
    inFrame do
      modifyScope fun s => Loop.turnScope s names values (Loop.record turn total serial)
      let _ ← ev body container
    evalTurns names body total (turn + 1) rest

/-- A loop whose turns are bound. -/
def evalLoop (names : List String) (body : Node) (otherwise : Option Node)
    (turns : List (List Value)) : Rendering Unit :=
  match turns, otherwise with
  | [], some other => evalBody ev container other
  | turns, _ => evalTurns ev container names body turns.length 0 turns

/-- The texts of the parts of a line. -/
def evalParts : List Part → Rendering (List String)
  | [] => pure []
  | .text s :: ps => return s :: (← evalParts ps)
  | .expr n :: ps => do
    let v ← ev n container
    return v.display :: (← evalParts ps)

/-- The key of a member: a leaf stands for itself, anything else is computed. -/
def evalKey : Node → Rendering String
  | .leaf l => pure l.text
  | n => return (← ev n container).display

/-- The members of an object literal, added to those before them. -/
def evalMembers (before : Table Value) : List Member → Rendering (Table Value)
  | [] => pure before
  | .mk key value :: ms => do
    let k ← evalKey ev container key
    if k.isEmpty then fail .emptyMemberName
    let v ← ev value container
    evalMembers (Table.insert before k v) ms

/-- The content of an element. A text is computed in the container around the element. -/
def evalContent (element : NodeId) : Body → Rendering Unit
  | .empty => pure ()
  | .block body => do
    let _ ← ev body element
  | .text body => do
    let v ← ev body container
    unless v.display.isEmpty do addText element v.display

end Pieces

/-- A name stands for its variable, else for the global variable, which then becomes a variable,
else for `null`. -/
def evalName (e : Engine) (name : String) : Rendering Value := do
  let scope := (← get).scope
  match scope.find name (e.global? name) with
  | .ok (v, scope) =>
    modifyScope fun _ => scope
    return v
  | .error _ => return .null

/-- The value of a leaf. -/
def evalLeaf (e : Engine) : Leaf → Rendering Value
  | .name name => e.evalName name
  | .string s => pure (.string s)
  | .number v => pure v
  | .bool b => pure (.bool b)
  | .null => pure .null

/-- A value after several filters. -/
def filtered (e : Engine) (v : Value) : List String → Except RenderError Value
  | [] => .ok v
  | name :: names =>
    match e.filter? name with
    | some f => do e.filtered (← f v) names
    | none => .error (.unknownFilter name)

/-- The call of a value. -/
def call (e : Engine) (container : NodeId) (callee : Value) (args : List Value) :
    Rendering Value :=
  match callee with
  | .function f => perform container (f.reply e.host) args
  | other => fail (.notCallable other.kind)

/-- Another template, with the variables that can be seen here. -/
def evalTemplate (e : Engine) (ev : Evaluator) (name : String) (container : NodeId) :
    Rendering Unit := do
  match e.template? name with
  | some root =>
    let visible := (← get).scope.top
    inScope (.ofFrame visible) do
      let _ ← ev root container
  | none => fail (.templateNotFound name)

/-- One node, by means of an evaluator for the nodes it consists of. -/
def evalNode (e : Engine) (ev : Evaluator) (node : Node) (container : NodeId) :
    Rendering Value := do
  match node with
  | .block children =>
    evalBlock ev container children
    return .null
  | .choice branches =>
    evalBranches ev container branches
    return .null
  | .loop names source body otherwise =>
    let items ← ev source container
    let turns ← ofResult (Loop.bindings names items)
    evalLoop ev container names body otherwise turns
    return .null
  | .binary op left right =>
    let a ← ev left container
    let b ← ev right container
    ofResult (op.apply a b)
  | .negation operand => return .bool !(← ev operand container).truthy
  | .conditional test whenTrue whenFalse =>
    if (← ev test container).truthy then ev whenTrue container
    else match whenFalse with
      | some other => ev other container
      | none => return .null
  | .leaf l => e.evalLeaf l
  | .path target segments =>
    let v ← ev target container
    ofResult (v.follow target.describe segments)
  | .index target key =>
    let v ← ev target container
    let k ← ev key container
    ofResult (v.atKey k)
  | .member item inside =>
    let v ← ev item container
    let c ← ev inside container
    return .bool (← ofResult (c.contains v))
  | .call callee args =>
    let f ← ev callee container
    let values ← evalAll ev container args
    e.call container f values
  | .filtered value filters =>
    let v ← ev value container
    ofResult (e.filtered v filters)
  | .assignment name value =>
    let v ← ev value container
    modifyScope fun s => s.assign name v
    return .null
  | .attribute name value =>
    let v ← ev value container
    change container (attributeChanges name v)
    return .null
  | .array items => return .array (← evalAll ev container items)
  | .object members => return .object (← evalMembers ev container [] members)
  | .output mode parts =>
    let pieces ← evalParts ev container parts
    return .string (mode.join (pieces.filter fun p => !p.isEmpty))
  | .element tag modifiers body =>
    let element ← create (.element tag)
    let _ ← evalAll ev element modifiers
    evalContent ev container element body
    edit (.append container element)
    return .null
  | .render name =>
    e.evalTemplate ev name container
    return .null
  | .renderComputed target =>
    let name := (← ev target container).display
    e.evalTemplate ev name container
    return .null
  | .external v => return v

/-- Evaluation with so many levels of nesting left. -/
def eval (e : Engine) : Nat → Evaluator
  | 0 => fun _ _ => fail (.depthExceeded e.settings.maxDepth)
  | levels + 1 => e.evalNode (e.eval levels)

/-- Evaluation with all levels of nesting that the engine allows. -/
def evaluate (e : Engine) : Evaluator :=
  e.eval e.settings.maxDepth

end Engine

end Stencil
