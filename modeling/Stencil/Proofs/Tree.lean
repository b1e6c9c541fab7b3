import Stencil.Template.Node
/-!
# Trees

The nodes right below a node, and `walk` by way of them: a tree is a node and the trees below it.
What has to be shown of all nodes of a tree is shown of a node and of its children.
-/

namespace Stencil

namespace Member

/-- The key of a member. -/
def key : Member → Node
  | mk key _ => key

/-- The value of a member. -/
def value : Member → Node
  | mk _ value => value

end Member

namespace Node

/-- The nodes right below a node in the order of the source. -/
def children : Node → List Node
  | block children => children
  | choice branches => branches.flatMap fun b => b.test.toList ++ [b.body]
  | loop _ source body otherwise => source :: body :: otherwise.toList
  | binary _ left right => [left, right]
  | negation operand => [operand]
  | conditional test whenTrue whenFalse => test :: whenTrue :: whenFalse.toList
  | leaf _ => []
  | path target _ => [target]
  | index target key => [target, key]
  | member item container => [item, container]
  | call callee args => callee :: args
  | filtered value _ => [value]
  | assignment _ value => [value]
  | .attribute _ value => [value]
  | array items => items
  | object members => members.flatMap fun m => [m.key, m.value]
  | output _ parts => parts.filterMap fun
    | .text _ => none
    | .expr e => some e
  | element _ modifiers body => modifiers ++ match body with
    | .empty => []
    | .block body => [body]
    | .text body => [body]
  | render _ => []
  | renderComputed name => [name]
  | external _ => []

/-- Whether a node needs no more than its children to be read, and no block. -/
def IsPlain : Node → Prop
  | block _ => False
  | choice _ => False
  | loop _ _ _ otherwise => otherwise = none
  | leaf _ => False
  | element _ _ (.block _) => False
  | _ => True

theorem walkList_eq (ns : List Node) : walkList ns = ns.flatMap walk := by
  induction ns with
  | nil => rfl
  | cons n ns ih => rw [walkList, ih, List.flatMap_cons]

theorem walkOption_eq (o : Option Node) : walkOption o = o.toList.flatMap walk := by
  cases o <;> simp [walkOption]

theorem walkBranches_eq (bs : List Branch) :
    walkBranches bs = (bs.flatMap fun b => b.test.toList ++ [b.body]).flatMap walk := by
  induction bs with
  | nil => rfl
  | cons b bs ih =>
    obtain ⟨test, body⟩ := b
    rw [walkBranches, ih, walkOption_eq]
    simp [Branch.test, Branch.body]

theorem walkMembers_eq (ms : List Member) :
    walkMembers ms = (ms.flatMap fun m => [m.key, m.value]).flatMap walk := by
  induction ms with
  | nil => rfl
  | cons m ms ih =>
    obtain ⟨key, value⟩ := m
    rw [walkMembers, ih]
    simp [Member.key, Member.value]

theorem walkParts_eq (ps : List Part) :
    walkParts ps = (ps.filterMap fun
      | .text _ => none
      | .expr e => some e).flatMap walk := by
  induction ps with
  | nil => rfl
  | cons p ps ih => cases p <;> simp [walkParts, ih]

/-- A tree is a node and the trees below it. -/
theorem walk_eq (n : Node) : n.walk = n :: n.children.flatMap walk := by
  cases n with
  | element tag modifiers body => cases body <;> simp [walk, children, walkList_eq, walkBody]
  | _ => simp [walk, children, walkList_eq, walkOption_eq, walkBranches_eq, walkMembers_eq,
      walkParts_eq]

theorem walk_subset_of_mem_children {n m : Node} (h : m ∈ n.children) : m.walk ⊆ n.walk := by
  intro x hx
  rw [n.walk_eq]
  exact List.mem_cons_of_mem n (List.mem_flatMap.2 ⟨m, h, hx⟩)

theorem mem_walk_self (n : Node) : n ∈ n.walk := by
  rw [n.walk_eq]
  exact List.mem_cons_self

end Node

end Stencil
