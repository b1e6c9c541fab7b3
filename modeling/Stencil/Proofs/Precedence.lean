import Stencil.Proofs.Expression
/-!
# Precedence of operators

Operands between operators, without parentheses, become one tree of operations. The tree keeps
the order of the line, and every operation in it binds its operands as its power demands: to the
left, or to the right for `and` and `or`. The invariant of the loop is about the next word only:
where it binds at all, what has been read so far is an admissible left operand of it.
-/

namespace Stencil

open Reading Grammar

/-! ## Chains -/

/-- A token that stands for a leaf. -/
structure Operand where
  token : Token
  leaf : Leaf
  leaf?_token : token.leaf? = some leaf
  symbol?_token : standard.symbol? token = none

/-- The token of a name. -/
def Operand.name (line : Nat) (text : String) : Operand where
  token := ⟨.literal, text, line⟩
  leaf := .name text
  leaf?_token := rfl
  symbol?_token := symbol?_of_not_isWord rfl

/-- An operator and the operand behind it. -/
structure Link where
  line : Nat
  op : BinaryOp
  operand : Operand

/-- The tokens of a link. -/
def Link.tokens (l : Link) : List Token :=
  [l.op.token l.line, l.operand.token]

/-- What a link adds to a tree that is read from left to right. -/
def Link.symbols (l : Link) : List (Leaf ⊕ BinaryOp) :=
  [.inr l.op, .inl l.operand.leaf]

theorem isPlain_chain (x : Operand) (links : List Link) :
    ∀ t ∈ x.token :: links.flatMap Link.tokens, t.IsPlain := by
  refine List.forall_mem_cons.2 ⟨Token.isPlain_of_leaf? x.leaf?_token, fun t ht => ?_⟩
  obtain ⟨l, -, ht⟩ := List.mem_flatMap.1 ht
  simp only [Link.tokens, List.mem_cons, List.not_mem_nil, or_false] at ht
  rcases ht with rfl | rfl
  · exact BinaryOp.isPlain_token
  · exact Token.isPlain_of_leaf? l.operand.leaf?_token

/-! ## Trees -/

namespace Node

/-- The leaves and operators of a tree of operations from left to right. -/
def inorder : Node → List (Leaf ⊕ BinaryOp)
  | leaf l => [.inl l]
  | binary op a b => inorder a ++ .inr op :: inorder b
  | _ => []

/-- Whether a node is a leaf or an operation of at least the given power. -/
def BindsFrom (power : Nat) : Node → Prop
  | leaf _ => True
  | binary op _ _ => power ≤ op.power
  | _ => False

end Node

namespace BinaryOp

/-- The least power of an operation that can be the left operand of an operator. -/
def leftFrom (op : BinaryOp) : Nat :=
  if op.power = 30 then op.power + 1 else op.power

/-- The least power of an operation that can be the right operand of an operator. -/
def rightFrom (op : BinaryOp) : Nat :=
  if op.power = 30 then op.power else op.power + 1

theorem rightFrom_eq (op : BinaryOp) : op.rightFrom = op.rightPower + 1 := by
  cases op <;> rfl

/-- What an operator leaves to the words behind it admits its operation as their left operand. -/
theorem leftFrom_le_power {op next : BinaryOp} (h : next.power ≤ op.rightPower) :
    next.leftFrom ≤ op.power := by
  cases op <;> cases next <;> revert h <;> decide

end BinaryOp

/-- A tree of operations in which every operation binds its operands as its power demands. -/
inductive Ranked : Node → Prop
  | leaf (l : Leaf) : Ranked (.leaf l)
  | binary {op : BinaryOp} {a b : Node} : Ranked a → Ranked b → a.BindsFrom op.leftFrom →
      b.BindsFrom op.rightFrom → Ranked (.binary op a b)

/-- What a loop that takes words above `power` makes of an operand and the links behind it. -/
structure Climbed (power : Nat) (left tree : Node) (taken others : List Link) : Prop where
  ranked : Ranked tree
  inorder : tree.inorder = left.inorder ++ taken.flatMap Link.symbols
  binds : left.BindsFrom (power + 1) → tree.BindsFrom (power + 1)
  stops : ∀ l ∈ others.head?, l.op.power ≤ power

namespace Climbed

variable {power : Nat} {left right tree : Node} {l : Link} {taken others rest : List Link}

/-- A loop that stops at once. -/
theorem refl (hleft : Ranked left) (hstop : ∀ l ∈ others.head?, l.op.power ≤ power) :
    Climbed power left left [] others :=
  ⟨hleft, by simp, id, hstop⟩

/-- A link whose operand has taken in some of the links behind it, and what the loop makes of the
rest. -/
theorem next (hp : power < l.op.power)
    (hright : Climbed l.op.rightPower (.leaf l.operand.leaf) right taken (others ++ rest))
    (htree : Climbed power (.binary l.op left right) tree others rest) :
    Climbed power left tree (l :: taken ++ others) rest where
  ranked := htree.ranked
  inorder := by
    rw [htree.inorder, Node.inorder, hright.inorder]
    simp [Node.inorder, Link.symbols]
  binds _ := htree.binds hp
  stops := htree.stops

end Climbed

/-! ## Reading a chain -/

namespace Dialect

variable {d : Dialect} {A : String → Nat → Except SyntaxError Node}

/-- An operand and what the loop makes of it. -/
theorem expression_of_leaf (hd : d.grammar = .standard) {k power : Nat} {x : Operand} {c : Cursor}
    {rest : List Token} (hc : c.tokens = x.token :: rest) :
    (d.levels A (k + 1)).expression power c =
      loop (d.grammar.extendTurn (d.levels A k) power) (some (.leaf x.leaf)) (c.moveTo rest) := by
  rw [expression_levels_succ]
  refine expressionOf_of_start hc ?_
  rw [hd]
  exact start_leaf x.symbol?_token x.leaf?_token

/-- Whether the loop, with the links left, makes an outcome of them and stops in front of the
links that it does not take. -/
def Climbs (d : Dialect) (A : String → Nat → Except SyntaxError Node) (k power : Nat)
    (left : Node) (links : List Link) (c : Cursor) : Prop :=
  ∃ tree taken others, links = taken ++ others ∧ Climbed power left tree taken others ∧
    loop (d.grammar.extendTurn (d.levels A k) power) (some left) c =
      .ok (some tree, c.moveTo (others.flatMap Link.tokens))

variable {k power : Nat} {left : Node} {l : Link} {links : List Link} {c : Cursor}

theorem climbs_stop (hd : d.grammar = .standard) (hleft : Ranked left)
    (hc : c.tokens = links.flatMap Link.tokens) (hstop : ∀ l ∈ links.head?, l.op.power ≤ power) :
    d.Climbs A k power left links c := by
  refine ⟨left, [], links, rfl, .refl hleft hstop, ?_⟩
  rw [← hc, Cursor.moveTo_self, hd]
  refine extend_stop fun t ht => Or.inr ?_
  cases links with
  | nil => simp [hc] at ht
  | cons l links =>
    have htok : l.op.token l.line = t := by simpa [hc, Link.tokens] using ht
    rw [← htok, l.op.power_token]
    exact hstop l rfl

/-- A link is taken with its right operand, and the loop goes on behind it. -/
theorem climbs_next (hd : d.grammar = .standard) (hp : power < l.op.power)
    (hc : c.tokens = (l :: links).flatMap Link.tokens)
    (hright : d.Climbs A k l.op.rightPower (.leaf l.operand.leaf) links
      (c.moveTo (links.flatMap Link.tokens)))
    (hrest : ∀ right taken others, links = taken ++ others →
      Climbed l.op.rightPower (.leaf l.operand.leaf) right taken others →
      d.Climbs A (k + 1) power (.binary l.op left right) others
        (c.moveTo (others.flatMap Link.tokens))) :
    d.Climbs A (k + 1) power left (l :: links) c := by
  have htok : c.tokens = l.op.token l.line :: l.operand.token :: links.flatMap Link.tokens := by
    rw [hc]
    rfl
  obtain ⟨right, taken, behind, hlinks, hro, hrun⟩ := hright
  obtain ⟨tree, taken', others, hbehind, hto, hrun'⟩ := hrest right taken behind hlinks hro
  -- the right operand takes the operators that bind more tightly
  have hoperand : (d.levels A (k + 1)).expression l.op.rightPower
      (c.moveTo (l.operand.token :: links.flatMap Link.tokens)) =
      .ok (some right, c.moveTo (behind.flatMap Link.tokens)) := by
    rw [expression_of_leaf hd rfl]
    exact hrun
  have hextend : d.grammar.extend (d.levels A (k + 1)) (l.op.token l.line) left
      (c.moveTo (l.operand.token :: links.flatMap Link.tokens)) =
      .ok (.binary l.op left right, c.moveTo (behind.flatMap Link.tokens)) := by
    rw [hd]
    exact extend_operator (by rw [power_levels, hd, l.op.power_token]) hoperand
  -- and what is left is no longer than before
  have hshort : (behind.flatMap Link.tokens).length ≤ (links.flatMap Link.tokens).length := by
    rw [hlinks, List.flatMap_append, List.length_append]
    omega
  subst hbehind
  refine ⟨tree, l :: taken ++ taken', others, by rw [hlinks]; simp, hro.next hp hto, ?_⟩
  refine extend_next htok l.op.tokenKind_ne_newline ?_ hextend ?_ hrun'
  · rw [hd, l.op.power_token]
    exact hp
  · rw [Cursor.moveTo_tokens, List.length_cons]
    omega

/-- **The loop keeps order and rank.** It takes the links that bind more strongly than `power`,
each with the right operand that its operator demands, provided that the first of them admits what
has been read as its left operand. -/
theorem climbs (hd : d.grammar = .standard) (hk : links.length ≤ k) (hleft : Ranked left)
    (hnext : ∀ l ∈ links.head?, power < l.op.power → left.BindsFrom l.op.leftFrom)
    (hc : c.tokens = links.flatMap Link.tokens) : d.Climbs A k power left links c := by
  -- both the right operand and what follows it have fewer links
  induction hn : links.length using Nat.strong_induction_on
    generalizing links left power k c with
  | _ n ih =>
    subst hn
    cases links with
    | nil => exact climbs_stop hd hleft hc (by simp)
    | cons l links =>
      rcases Nat.lt_or_ge power l.op.power with hp | hp
      · obtain ⟨k, rfl⟩ : ∃ k', k = k' + 1 := ⟨k - 1, by simp at hk; omega⟩
        have hlen : links.length ≤ k := by simpa using hk
        have hright : d.Climbs A k l.op.rightPower (.leaf l.operand.leaf) links
            (c.moveTo (links.flatMap Link.tokens)) :=
          ih links.length (by simp) hlen (.leaf _) (fun _ _ _ => trivial) rfl rfl
        refine climbs_next hd hp hc hright fun right taken others hlinks hro => ?_
        have hshort : others.length ≤ links.length := by
          rw [hlinks, List.length_append]
          omega
        have hb : right.BindsFrom l.op.rightFrom := by
          rw [BinaryOp.rightFrom_eq]
          exact hro.binds trivial
        refine ih others.length (by rw [List.length_cons]; omega) (by omega)
          (.binary hleft hro.ranked (hnext l rfl hp) hb) (fun l' hl' _ => ?_) rfl rfl
        exact BinaryOp.leftFrom_le_power (hro.stops l' hl')
      · exact climbs_stop hd hleft hc (by simpa using hp)

/-- **Chains of operators become ranked trees.** Operands with operators between them, behind a
mark, are read as a template of one line with one tree: read from left to right it is the chain,
and every operation in it has operands that its power admits. -/
theorem parse_chain (hd : d.grammar = .standard) (x : Operand) (links : List Link) (line : Nat)
    (hdepth : links.length + 2 ≤ d.maxDepth) :
    ∃ tree, d.parse (⟨.mark, "@", line⟩ :: x.token :: links.flatMap Link.tokens) =
        .ok (.block [.output .content [.expr tree]]) ∧
      tree.inorder = .inl x.leaf :: links.flatMap Link.symbols ∧ Ranked tree := by
  obtain ⟨k, hk⟩ : ∃ k, d.maxDepth = k + 1 + 1 := ⟨d.maxDepth - 2, by omega⟩
  obtain ⟨ts, hts⟩ : ∃ ts, ts = (⟨.mark, "@", line⟩ : Token) :: x.token ::
    links.flatMap Link.tokens := ⟨_, rfl⟩
  have hclimbs : d.Climbs (d.attributeText (longestText ts + 1)) k 0 (.leaf x.leaf) links
      ((Cursor.ofTokens ts).moveTo (links.flatMap Link.tokens)) :=
    climbs hd (by omega) (.leaf _) (fun _ _ _ => trivial) rfl
  obtain ⟨tree, taken, others, hlinks, hout, hrun⟩ := hclimbs
  -- every operator binds more strongly than the line, so all links are taken
  have hnil : others = [] := by
    cases others with
    | nil => rfl
    | cons l others =>
      have hpos := l.op.power_pos
      have hle := hout.stops l rfl
      omega
  have htaken : taken = links := by rw [hlinks, hnil, List.append_nil]
  refine ⟨tree, ?_, by rw [hout.inorder, htaken]; rfl, hout.ranked⟩
  have hread : (d.levels (d.attributeText (longestText ts + 1)) (k + 1)).expression 0
      ((Cursor.ofTokens ts).moveTo (x.token :: links.flatMap Link.tokens)) =
      .ok (some tree, (Cursor.ofTokens ts).moveTo []) := by
    rw [expression_of_leaf hd rfl]
    rw [hnil] at hrun
    exact hrun
  rw [← hts]
  exact parse_marked hts hk (isPlain_chain x links) hread

/-- A difference, a product and a conjunction in one line. -/
theorem parse_chain_mixed :
    let d : Dialect := ⟨.standard, fun _ => none, 64⟩
    let links : List Link :=
      [⟨1, .sub, .name 1 "b"⟩, ⟨1, .mul, .name 1 "c"⟩, ⟨1, .and, .name 1 "d"⟩]
    links.length + 2 ≤ d.maxDepth ∧
      ∃ tree, d.parse (⟨.mark, "@", 1⟩ :: ⟨.literal, "a", 1⟩ :: links.flatMap Link.tokens) =
          .ok (.block [.output .content [.expr tree]]) ∧
        tree.inorder = .inl (.name "a") :: links.flatMap Link.symbols ∧ Ranked tree :=
  ⟨by decide, parse_chain rfl (.name 1 "a") _ 1 (by decide)⟩

end Dialect

end Stencil
