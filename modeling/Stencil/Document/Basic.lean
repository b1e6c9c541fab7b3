import Stencil.Document.Tree
import Stencil.Table
/-!
# Documents

A document is a list of nodes that are known by their positions. Five edits change it: two create
a node, three change an element. An edit of a node that does not exist, or that is a text, changes
nothing. `tree` shows a node with everything below it. Below a node that stands below itself this
comes to no end; `tree?` is the tree if there is an end.
-/

namespace Stencil

/-- The position of a node in its document. -/
abbrev NodeId := Nat

/-- An element of a document. -/
structure Element where
  tag : String
  className : Option String
  attributes : Table String
  children : List NodeId
  deriving DecidableEq

/-- A node of a document. -/
inductive DocumentNode
  | element (e : Element)
  | text (content : String)
  deriving DecidableEq

/-- A change of a document. New nodes get the next free position. -/
inductive Edit
  | element (tag : String)
  | text (content : String)
  | append (parent child : NodeId)
  | attribute (node : NodeId) (name value : String)
  | className (node : NodeId) (value : String)
  deriving DecidableEq

/-- How many nodes an edit creates. -/
def Edit.created : Edit → Nat
  | .element _ | .text _ => 1
  | _ => 0

/-- The nodes that have been created so far. -/
structure Document where
  nodes : Array DocumentNode
  deriving DecidableEq

namespace Document

/-- The document without nodes. -/
def empty : Document := ⟨#[]⟩

/-- The number of nodes, which is the position of the next one. -/
def size (d : Document) : Nat :=
  d.nodes.size

/-- The node at a position. -/
def get? (d : Document) (id : NodeId) : Option DocumentNode :=
  d.nodes[id]?

/-- The element at a position. -/
def element? (d : Document) (id : NodeId) : Option Element :=
  match d.get? id with
  | some (.element e) => some e
  | _ => none

/-- The children of a node; texts have none. -/
def children (d : Document) (id : NodeId) : List NodeId :=
  match d.element? id with
  | some el => el.children
  | none => []

/-- A node after a change that concerns elements only. -/
def mapElement (f : Element → Element) : DocumentNode → DocumentNode
  | .element e => .element (f e)
  | .text content => .text content

/-- The document with the element at a position changed. -/
def modify (d : Document) (id : NodeId) (f : Element → Element) : Document :=
  ⟨d.nodes.modify id (mapElement f)⟩

/-- The document after an edit. -/
def apply (d : Document) : Edit → Document
  | .element tag => ⟨d.nodes.push (.element ⟨tag, none, [], []⟩)⟩
  | .text content => ⟨d.nodes.push (.text content)⟩
  | .append parent child => d.modify parent fun e => { e with children := e.children ++ [child] }
  | .attribute node name value =>
    d.modify node fun e => { e with attributes := Table.insert e.attributes name value }
  | .className node value => d.modify node fun e => { e with className := some value }

theorem size_apply (d : Document) (e : Edit) : (d.apply e).size = d.size + e.created := by
  cases e <;> simp [apply, size, modify, Edit.created]

/-- The document after several edits. -/
def applyAll (d : Document) (edits : List Edit) : Document :=
  edits.foldl apply d

/-- The tree below a node, as far down as `depth` nodes. -/
def treeTo (d : Document) : Nat → NodeId → Tree
  | 0, _ => .missing
  | depth + 1, id =>
    match d.get? id with
    | some (.element e) =>
      .element e.tag e.className e.attributes (e.children.map (d.treeTo depth))
    | some (.text content) => .text content
    | none => .missing

/-- The tree below a node. Where no node stands below itself, no way down meets more nodes than
there are. -/
def tree (d : Document) (id : NodeId) : Tree :=
  d.treeTo d.size id

/-- What is shown of a node, if `children` are shown below it. -/
def treeOver (d : Document) (id : NodeId) (children : List Tree) : Tree :=
  match d.get? id with
  | some (.element e) => .element e.tag e.className e.attributes children
  | some (.text content) => .text content
  | none => .missing

/-- The tree below a node, if no way down meets more than `depth` positions. -/
def treeWithin? (d : Document) : Nat → NodeId → Option Tree
  | 0, _ => none
  | depth + 1, id => do
    return d.treeOver id (← (d.children id).mapM (d.treeWithin? depth))

/-- The tree below a node, if every way down comes to an end. Such a way meets no node twice, and
at most one position that has no node. -/
def tree? (d : Document) (id : NodeId) : Option Tree :=
  d.treeWithin? (d.size + 1) id

end Document

end Stencil
