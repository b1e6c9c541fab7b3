import Stencil.Proofs.Expression
import Stencil.Proofs.Following
import Stencil.Proofs.Tree
/-!
# Derivations

What a reading does to the cursor, with the nodes that it leaves: a derivation is put together from
the tokens that are taken, the leaves and nodes that are made of them, and the blocks. A property of
the tree and of the statements that wait is proved once, by induction on derivations, and the rules
of the grammar are not opened again.

A derivation has a tally of the blocks that do not end as they should. The block of an element is
cut off if the statement around the element finds its end in it.
-/

namespace Stencil

open Reading

/-- What a derivation passes over: parts of expressions and lines, statements and lines of a block,
the branch of an `else`, or a block, with or without an end of its own. -/
inductive Passage
  | parts
  | lines
  | branch
  | block (own : Bool)

/-- Whether the innermost waiting statement has found its end between two positions. -/
def Cursor.cuts (c c' : Cursor) : Bool :=
  !c.ownerClosed && c'.ownerClosed

/-- The derivations of readings whose levels are in `L`, each with the stricter level that follows
it, and what they count. -/
inductive Derives (L : Level → Level → Prop) : Tally → Passage → Cursor → List Node → Cursor → Prop
  | nothing {c : Cursor} : Derives L 0 .parts c [] c
  | append {j k : Tally} {c c₁ c' : Cursor} {ns ms : List Node} :
      Derives L j .parts c ns c₁ → Derives L k .parts c₁ ms c' →
        Derives L (j + k) .parts c (ns ++ ms) c'
  | token {c : Cursor} {t : Token} {rest : List Token} :
      c.tokens = t :: rest → ¬(t.kind = .mark ∧ t.text = "@") →
        Derives L 0 .parts c [] (c.moveTo rest)
  | mark {c : Cursor} {t : Token} {rest : List Token} :
      c.tokens = t :: rest → c.atBlockEnd = false → Derives L 0 .parts c [] (c.moveTo rest)
  | comment {c : Cursor} {t u : Token} {rest : List Token} :
      c.tokens = t :: u :: rest → t.kind = .mark → u.kind.isWord = true → u.text = "#" →
        Derives L 0 .parts c [] (c.moveTo (rest.dropWhile fun t => t.kind != .newline))
  | leaf {c : Cursor} {t : Token} {rest : List Token} {lf : Leaf} :
      c.tokens = t :: rest → t.leaf? = some lf → Derives L 0 .parts c [.leaf lf] (c.moveTo rest)
  | label {k : Tally} {c c' : Cursor} {lf : Leaf} :
      Derives L k .parts c [.leaf lf] c' → Derives L k .parts c [] c'
  | node {k : Tally} {c c' : Cursor} {n : Node} :
      Derives L k .parts c n.children c' → n.IsPlain → Derives L k .parts c [n] c'
  | attributeText {k : Tally} {cuts : Nat} {c c' : Cursor} {text : String} {line : Nat}
      {l m : Level} {n : Node} :
      Derives L k .parts c [.leaf (.string text)] c' → L l m → l.attributeText text line = .ok n →
      (cuts = 0 → m.attributeText text line = .ok n) →
        Derives L (k + ⟨cuts, cuts, 0⟩) .parts c [n] c'
  | external {k : Tally} {c c' : Cursor} {id : String} {args : List Node} {f : Callable} :
      Derives L k .parts c [.call (.leaf (.name id)) args] c' →
        Derives L k .parts c [.call (.external (.function f)) args] c'
  | choice {j k : Tally} {own : Bool} {c c₁ c₂ : Cursor} {t : Token} {rest : List Token}
      {l m : Level} {test body : Node} {p : Pending} {ps : List Pending} :
      c.tokens = t :: rest → t.text = "if" → L l m →
      Statement.header l "if 条件" (c.moveTo rest) = .ok (test, c₁) →
      l.block true (c₁.withPending (.new .choice :: c₁.pending)) = .ok (body, c₂) →
      Derives L j .parts (c.moveTo rest) [test] c₁ →
      Derives L k (.block own) (c₁.withPending (.new .choice :: c₁.pending)) [body] c₂ →
      c₂.pending = p :: ps →
        Derives L (j + k) .parts c [.choice (.mk (some test) body :: p.branches)]
          (c₂.withPending ps)
  | loop {j k : Tally} {own : Bool} {c c₁ c₂ : Cursor} {names : List String} {source body : Node}
      {p : Pending} {ps : List Pending} :
      Derives L j .parts c [source] c₁ →
      Derives L k (.block own) (c₁.withPending (.new .loop :: c₁.pending)) [body] c₂ →
      c₂.pending = p :: ps →
        Derives L (j + k) .parts c [.loop names source body (Statement.otherwise? p.branches)]
          (c₂.withPending ps)
  | element {j k : Tally} {own : Bool} {c c₁ c' : Cursor} {tag : String} {modifiers : List Node}
      {body : Node} :
      Derives L j .parts c modifiers c₁ → Derives L k (.block own) c₁ [body] c' →
        Derives L (j + k + ⟨(c₁.cuts c').toNat, (!own).toNat, 0⟩) .parts c
          [.element tag modifiers (.block body)] c'
  | parts {k : Tally} {c c' : Cursor} {ns : List Node} :
      Derives L k .parts c ns c' → Derives L k .lines c ns c'
  | line {k : Tally} {c c' : Cursor} {n : Node} :
      Derives L k .lines c n.children c' → n.IsPlain → Derives L k .lines c [n] c'
  | more {j k : Tally} {c c₁ c' : Cursor} {ns ms : List Node} :
      Derives L j .lines c ns c₁ → c₁.ownerClosed = false ∨ c₁.pending = c.pending →
      Derives L k .lines c₁ ms c' → Derives L (j + k) .lines c (ns ++ ms) c'
  | closing {k : Tally} {c c' : Cursor} {t : Token} {rest : List Token} :
      c.tokens = t :: rest → c.atBlockEnd = false → Derives L k .branch (c.moveTo rest) [] c' →
        Derives L k .lines c [] c'
  | tested {j k : Tally} {own : Bool} {c c₁ c₂ : Cursor} {t : Token} {rest : List Token}
      {l m : Level} {test body : Node} {p q : Pending} {ps qs : List Pending} :
      c.tokens = t :: rest → t.text = "else" → c.pending = p :: ps → p.otherwise = false →
      p.kind = .choice → L l m → Statement.branchTest l t p (c.moveTo rest) = .ok (some test, c₁) →
      l.block true c₁ = .ok (body, c₂) → Derives L j .parts (c.moveTo rest) [test] c₁ →
      Derives L k (.block own) c₁ [body] c₂ → c₂.pending = q :: qs →
        Derives L (j + k + ⟨0, 0, (own && q.closed).toNat⟩) .branch c [] (c₂.withPending
          ({ q with branches := .mk (some test) body :: q.branches, closed := true } :: qs))
  | untested {j k : Tally} {own : Bool} {c c₁ c₂ : Cursor} {t : Token} {rest : List Token}
      {l m : Level} {body : Node} {p q : Pending} {ps qs : List Pending} :
      c.tokens = t :: rest → t.text = "else" → c.pending = p :: ps → p.otherwise = false →
      L l m → Statement.branchTest l t p (c.moveTo rest) = .ok (none, c₁) →
      c₁.pending = { p with otherwise := true } :: ps →
      l.block true c₁ = .ok (body, c₂) →
      Derives L j .parts (c.moveTo rest) [] (c₁.withPending c.pending) →
      Derives L k (.block own) c₁ [body] c₂ → c₂.pending = q :: qs →
        Derives L (j + k + ⟨0, 0, (own && q.closed).toNat⟩) .branch c [] (c₂.withPending
          ({ q with branches := .mk none body :: q.branches, closed := true } :: qs))
  | ownEnd {k : Tally} {c c₁ : Cursor} {ns : List Node} {t u : Token} {rest : List Token} :
      Derives L k .lines c ns c₁ → c₁.ownerClosed = false ∨ c₁.pending = c.pending →
      c₁.tokens = t :: u :: rest → t.kind = .mark → u.is .keyword "end" = true →
        Derives L k (.block true) c [.block ns] (c₁.moveTo rest)
  | closed {k : Tally} {c c' : Cursor} {ns : List Node} :
      Derives L k .lines c ns c' → c'.ownerClosed = true →
        Derives L k (.block false) c [.block ns] c'

namespace Derives

variable {L : Level → Level → Prop} {k : Tally} {c c₁ c' : Cursor} {t : Token} {rest : List Token}
variable {ns ms : List Node} {n : Node}

/-- A word behind a derivation. -/
theorem before (h : Derives L k .parts c ns c₁) (hc : c₁.tokens = t :: rest)
    (ht : ¬(t.kind = .mark ∧ t.text = "@")) : Derives L k .parts c ns (c₁.moveTo rest) := by
  have happ := h.append (.token hc ht)
  rw [List.append_nil] at happ
  exact happ

/-- A token of a kind that is not that of marks is no mark. -/
theorem not_mark_of_is {kind : TokenKind} {text : String} (ht : t.is kind text = true)
    (hk : kind ≠ .mark) : ¬(t.kind = .mark ∧ t.text = "@") := by
  simp only [Token.is, Bool.and_eq_true, beq_iff_eq] at ht
  rintro ⟨hm, -⟩
  exact hk (ht.1.symm.trans hm)

theorem before_is {kind : TokenKind} {text : String} (h : Derives L k .parts c ns c₁)
    (hc : c₁.tokens = t :: rest) (ht : t.is kind text = true) (hk : kind ≠ .mark) :
    Derives L k .parts c ns (c₁.moveTo rest) :=
  h.before hc (not_mark_of_is ht hk)

/-- Nothing but a word changes no statement that waits. -/
theorem line_before (h : Derives L k .lines c ns c₁)
    (hopen : c₁.ownerClosed = false ∨ c₁.pending = c.pending) (h' : Derives L 0 .parts c₁ [] c') :
    Derives L k .lines c ns c' := by
  have hall := h.more hopen (.parts h')
  rw [List.append_nil] at hall
  exact hall

end Derives

/-- What an expression leaves: a derivation of one node, or nothing behind a comment or a branch. -/
def Leaves (L : Level → Level → Prop) (k : Tally) (c : Cursor) (o : Option Node) (c' : Cursor) :
    Prop :=
  match o with
  | some n => Derives L k .parts c [n] c'
  | none => (k = 0 ∧ ∃ u rest, c.tokens = u :: rest ∧ u.kind.isWord = true ∧ u.text = "#" ∧
      c' = c.moveTo (rest.dropWhile fun t => t.kind != .newline)) ∨ Derives L k .branch c [] c'

/-- Whether the readings of a level are derivations, and those of a stricter level follow them. -/
structure Level.Sound (L : Level → Level → Prop) (l m : Level) : Prop where
  mem : L l m
  expression : ∀ power c, Follows 0 (fun k o c' => Leaves L k c o c') (l.expression power)
    (m.expression power) c
  block : ∀ c, Follows 0 (fun k n c' => ∃ own, Derives L k (.block own) c [n] c') (l.block true)
    (m.block true) c
  attributeText : ∀ text line, m.attributeText text line = l.attributeText text line ∨
    ∃ e : SyntaxError, e.IsUnclosed ∧ m.attributeText text line = .error e
  power : m.power = l.power
  modifier? : m.modifier? = l.modifier?

namespace Level.Sound

variable {L : Level → Level → Prop} {l m : Level} {k : Tally} {c c₁ : Cursor} {ns : List Node}

theorem require (h : l.Sound L m) (power : Nat) (what : String) :
    Follows 0 (fun k n c' => Derives L k .parts c [n] c') (l.require power what)
      (m.require power what) c := by
  unfold Level.require
  refine .get (.bind (h.expression power c) fun k o c' _ ho => ?_)
  cases o with
  | none => exact .failAt
  | some n => exact .pure ho

/-- A required expression behind a derivation. -/
theorem require_after (h : l.Sound L m) (power : Nat) (what : String)
    (hc : Derives L k .parts c ns c₁) :
    Follows k (fun k n c' => Derives L k .parts c (ns ++ [n]) c') (l.require power what)
      (m.require power what) c₁ :=
  (h.require power what).from_zero fun _ _ _ hn => hc.append hn

/-- A block, its own tally added to the one before it. -/
theorem block_after (h : l.Sound L m) :
    Follows k (fun k' n c' => ∃ i own, k' = k + i ∧ Derives L i (.block own) c [n] c')
      (l.block true) (m.block true) c :=
  (h.block c).from_zero fun i _ _ ⟨own, hn⟩ => ⟨i, own, rfl, hn⟩

end Level.Sound

end Stencil
