import Stencil.Proofs.Reading
import Stencil.Proofs.Standard
import Mathlib.Data.List.TakeWhile
/-!
# How an expression is read

An expression is an operand and as many words after it as bind strongly enough. This file follows
a reading forwards: `expressionOf_of_start` reads the operand, `extend_next` takes one more word,
`extend_stop` ends. What an expression gives at the top of a template is `parse_marked`: a line
with one part.
-/

namespace Stencil

/-- The leaf that a token stands for. -/
def Token.leaf? (t : Token) : Option Leaf :=
  match t.kind with
  | .literal => some (.name t.text)
  | .string => some (.string t.text)
  | .number => (Number.ofText? t.text.toList).map fun n => .number (.number n)
  | .trueWord => some (.bool true)
  | .falseWord => some (.bool false)
  | .nullWord => some .null
  | _ => none

/-- Whether a token can stand at the start of a line with an expression. -/
def Token.IsPlain (t : Token) : Prop :=
  t.kind ≠ .stop ∧ t.kind ≠ .keyword ∧ t.kind ≠ .comment

/-- Leaves have kinds of their own. -/
theorem Token.isPlain_of_leaf? {t : Token} {lf : Leaf} (h : t.leaf? = some lf) : t.IsPlain := by
  unfold leaf? at h
  unfold IsPlain
  cases hk : t.kind <;> simp_all

/-- A mark is no leaf. -/
theorem Token.not_mark_of_leaf? {t : Token} {lf : Leaf} (h : t.leaf? = some lf) :
    t.kind ≠ .mark := by
  intro hk
  simp [leaf?, hk] at h

/-- A string is a leaf with the text of its token. -/
theorem Token.string_of_leaf? {t : Token} {text : String}
    (h : t.leaf? = some (.string text)) : t.kind = .string ∧ t.text = text := by
  unfold leaf? at h
  cases hk : t.kind <;> simp_all

namespace Level

open Reading

variable {c c' : Cursor} {l : Level}

/-- The reading of a leaf gives the leaf of its token, and reads no further. -/
theorem leaf_of_leaf? {t : Token} {lf : Leaf} (h : t.leaf? = some lf) :
    leaf t c = .ok (lf, c) := by
  unfold Token.leaf? at h
  unfold leaf
  split at h <;> simp_all [pure_apply]
  obtain ⟨n, hn, rfl⟩ := h
  simp [hn, pure_apply]

/-- The other way round, a leaf that has been read is that of the token. -/
theorem leaf_eq_ok {t : Token} {lf : Leaf} :
    leaf t c = .ok (lf, c') ↔ t.leaf? = some lf ∧ c' = c := by
  constructor
  · intro h
    cases ht : t.leaf? with
    | some lf' =>
      rw [leaf_of_leaf? ht] at h
      simp only [Except.ok.injEq, Prod.mk.injEq] at h
      exact ⟨by rw [h.1], h.2.symm⟩
    | none =>
      rw [Token.leaf?] at ht
      rw [leaf] at h
      cases hk : t.kind <;> simp_all [failAt_ne_ok]
  · rintro ⟨h, rfl⟩
    exact leaf_of_leaf? h

/-- An expression that gives a node is one that had to give one. -/
theorem require_of_ok {power : Nat} {what : String} {n : Node}
    (h : l.expression power c = .ok (some n, c')) : l.require power what c = .ok (n, c') := by
  rw [require, bind_of_ok get_apply, bind_of_ok h]
  rfl

/-- A line of content is text with expressions, if it leaves a node. -/
theorem content_output {mode : OutputMode} {n : Node} (h : l.content mode c = .ok (some n, c')) :
    ∃ parts, n = .output mode parts := by
  rw [content] at h
  obtain ⟨parts, c₁, -, h⟩ := bind_eq_ok.1 h
  split at h
  · exact absurd (pure_eq_ok.1 h).1 (by simp)
  · exact ⟨_, Option.some.inj (pure_eq_ok.1 h).1⟩

/-- A line that is nothing but a marked expression. -/
theorem content_marked {m u : Token} {rest behind : List Token} {mode : OutputMode} {e : Node}
    (ht : c.tokens = m :: u :: rest) (hm : m.kind = .mark) (hkey : u.kind ≠ .keyword)
    (hp : c.pending = []) (hbehind : (c.moveTo behind).atLineEnd = true)
    (hlen : behind.length ≤ rest.length)
    (he : l.expression 0 (c.moveTo (u :: rest)) = .ok (some e, c.moveTo behind)) :
    l.content mode c = .ok (some (.output mode [.expr e]), c.moveTo behind) := by
  have hline : c.atLineEnd = false := by simp [Cursor.atLineEnd, ht, hm]
  have hend : c.atBlockEnd = false := by simp [Cursor.atBlockEnd, ht, Token.is, hkey]
  have hopen : (c.moveTo behind).ownerClosed = false := by simp [Cursor.ownerClosed, hp]
  have hturn : l.contentTurn [] c = .ok (.inl [.expr e], c.moveTo behind) := by
    rw [contentTurn, bind_of_ok get_apply]
    simp only [hline, hend, Bool.or_self, Bool.false_eq_true, if_false]
    rw [bind_of_ok (advance_of_cons ht)]
    simp only [hm, beq_self_eq_true, if_true]
    rw [bind_of_ok he, bind_of_ok get_apply]
    simp only [hopen, Bool.false_eq_true, if_false]
    rfl
  have hstop : l.contentTurn [.expr e] (c.moveTo behind) =
      .ok (.inr [.expr e], c.moveTo behind) := by
    rw [contentTurn, bind_of_ok get_apply]
    simp only [hbehind, Bool.true_or, if_true]
    rfl
  have hloop : loop l.contentTurn [] c = .ok ([.expr e], c.moveTo behind) := by
    refine loop_next hturn ?_ (loop_stop hstop)
    simp only [ht, Cursor.moveTo_tokens, List.length_cons]
    omega
  rw [content, bind_of_ok hloop]
  rfl

/-- Nothing but newlines ends a template. -/
theorem blockTurn_end (ht : c.tokens.dropWhile (fun t => t.kind == .newline) = [])
    (children : List Node) : l.blockTurn false children c = .ok (.inr children, c.moveTo []) := by
  rw [blockTurn, bind_of_ok skipNewlines_apply, ht, get_bind_apply]
  rfl

/-- A template of one line, which may end in newlines. -/
theorem blockOf_line {m u : Token} {rest behind : List Token} {n : Node}
    (ht : c.tokens = m :: u :: rest) (hm : m.kind = .mark) (hkey : u.kind ≠ .keyword)
    (hcom : u.kind ≠ .comment) (hp : c.pending = [])
    (hbehind : ∀ t ∈ behind, t.kind = .newline) (hlen : behind.length ≤ rest.length)
    (hline : l.content .content c = .ok (some n, c.moveTo behind)) :
    l.blockOf false c = .ok (.block [n], c.moveTo []) := by
  have hskip : c.tokens.dropWhile (fun t => t.kind == .newline) = c.tokens := by simp [ht, hm]
  have hne : c.tokens.isEmpty = false := by simp [ht]
  have hend : c.atBlockEnd = false := by simp [Cursor.atBlockEnd, ht, Token.is, hkey]
  have hstat : c.atStatement = false := by simp [Cursor.atStatement, ht, hkey, hcom]
  have hopen : (c.moveTo behind).ownerClosed = false := by simp [Cursor.ownerClosed, hp]
  have hturn : l.blockTurn false [] c = .ok (.inl [n], c.moveTo behind) := by
    rw [blockTurn, bind_of_ok skipNewlines_apply, hskip, Cursor.moveTo_self, bind_of_ok get_apply]
    simp only [hne, hend, hstat, Bool.false_eq_true, if_false]
    rw [bind_of_ok hline, bind_of_ok get_apply]
    simp only [hopen, Bool.false_eq_true, if_false]
    rfl
  have hstop : l.blockTurn false [n] (c.moveTo behind) = .ok (.inr [n], c.moveTo []) := by
    refine blockTurn_end (List.dropWhile_eq_nil_iff.2 fun t ht => ?_) [n]
    rw [hbehind t ht]
    rfl
  have hloop : loop (l.blockTurn false) [] c = .ok ([n], c.moveTo []) := by
    refine loop_next hturn ?_ (loop_stop hstop)
    simp only [ht, Cursor.moveTo_tokens, List.length_cons]
    omega
  rw [blockOf, bind_of_ok hloop]
  rfl

end Level

namespace BinaryOp

/-- The kind of the token of an operator. -/
def tokenKind : BinaryOp → TokenKind
  | add | sub | mul | div => .arithmetic
  | eq | ne | lt | le | gt | ge => .comparison
  | and | or => .logical

/-- The token of an operator. -/
def token (line : Nat) (op : BinaryOp) : Token :=
  ⟨op.tokenKind, op.symbol, line⟩

/-- How strongly an operator binds. -/
def power : BinaryOp → Nat
  | mul | div => 60
  | add | sub => 50
  | eq | ne | lt | le | gt | ge => 40
  | and | or => 30

/-- The power above which words belong to the right operand. `and` and `or` leave their own power
to it, and so bind to the right. -/
def rightPower (op : BinaryOp) : Nat :=
  if op.power = 30 then 29 else op.power

/-- The symbol of an operator. -/
def infixRule : BinaryOp → Option InfixRule
  | and | or => some Operation.logical
  | _ => none

/-- Each operator is in the table under its symbol, with its kind and its power. -/
theorem symbol?_token {line : Nat} (op : BinaryOp) :
    Grammar.standard.symbol? (op.token line) =
      some ⟨op.tokenKind, op.power, none, op.infixRule⟩ := by
  have hw : (op.token line).kind.isWord = true := by cases op <;> rfl
  rw [Grammar.symbol?_standard hw]
  cases op <;> rfl

/-- How strongly an operator binds is what the table says. -/
theorem power_token {line : Nat} (op : BinaryOp) :
    Grammar.standard.power (op.token line) = op.power := by
  rw [Grammar.power, symbol?_token]
  rfl

/-- Every operator takes an operand behind it at the power of a whole expression. -/
theorem power_pos (op : BinaryOp) : 0 < op.power := by
  cases op <;> decide

theorem tokenKind_ne_newline (op : BinaryOp) : op.tokenKind ≠ .newline := by
  cases op <;> decide

theorem isPlain_token {line : Nat} {op : BinaryOp} : (op.token line).IsPlain := by
  cases op <;> simp [Token.IsPlain, token, tokenKind]

/-- An operator is found again in its token. -/
theorem operator?_token {line : Nat} (op : BinaryOp) :
    Level.operator? (op.token line) = some op := by
  have hk : ((op.token line).kind == .arithmetic || (op.token line).kind == .comparison ||
      (op.token line).kind == .logical) = true := by cases op <;> rfl
  rw [Level.operator?, if_pos hk]
  exact ofSymbol?_symbol op

end BinaryOp

/-- Without a stop among them all tokens count. -/
theorem Cursor.ofTokens_tokens {ts : List Token} (h : ∀ t ∈ ts, t.kind ≠ .stop) :
    (Cursor.ofTokens ts).tokens = ts :=
  List.takeWhile_eq_self_iff.2 fun t ht => by simpa using h t ht

/-- No text of a token is longer than the longest one. -/
theorem le_longestText {ts : List Token} {t : Token} (ht : t ∈ ts) :
    t.text.length ≤ Dialect.longestText ts := by
  have hmono : ∀ (ts : List Token) (k : Nat),
      k ≤ ts.foldl (fun n t => max n t.text.length) k ∧
        ∀ t ∈ ts, t.text.length ≤ ts.foldl (fun n t => max n t.text.length) k := by
    intro ts
    induction ts with
    | nil => simp
    | cons u us ih =>
      intro k
      obtain ⟨hle, hall⟩ := ih (max k u.text.length)
      refine ⟨(le_max_left _ _).trans hle, List.forall_mem_cons.2 ⟨?_, hall⟩⟩
      exact (le_max_right _ _).trans hle
  exact (hmono ts 0).2 t ht

namespace Grammar

open Reading

variable {g : Grammar} {l : Level} {power : Nat} {c c₁ : Cursor}

/-- Whether an expression that takes words above `power` ends before these tokens. -/
def Stops (g : Grammar) (power : Nat) (ts : List Token) : Prop :=
  ∀ t ∈ ts.head?, t.kind = .newline ∨ g.power t ≤ power

/-- Whether an expression ends is decided by the first token behind it. -/
theorem stops_cons {t : Token} {rest : List Token} :
    g.Stops power (t :: rest) ↔ t.kind = .newline ∨ g.power t ≤ power := by
  simp [Stops]

/-- The reading of an expression is that of its operand, followed by the words after it. -/
theorem expressionOf_of_start {t : Token} {rest : List Token} {left : Option Node}
    (ht : c.tokens = t :: rest) (hs : g.start l t (c.moveTo rest) = .ok (left, c₁)) :
    g.expressionOf l power c = loop (g.extendTurn l power) left c₁ := by
  rw [expressionOf, bind_of_ok (advance_of_cons ht), bind_of_ok hs]

/-- A token that is no word stands for its leaf. -/
theorem start_leaf {t : Token} {lf : Leaf} (hw : g.symbol? t = none) (ht : t.leaf? = some lf) :
    g.start l t c = .ok (some (.leaf lf), c) := by
  have hr : g.opening? t = none := by rw [opening?, hw]; rfl
  rw [start_of_opening?_none hr]
  exact bind_of_ok (Level.leaf_of_leaf? ht)

/-- A word at the start of an expression is read by its prefix rule. -/
theorem start_of_symbol? {t : Token} {s : Symbol} {rule : PrefixRule}
    (hs : g.symbol? t = some s) (hr : s.prefixRule = some rule) :
    g.start l t c = rule l t c := by
  have h : g.opening? t = some rule := by rw [opening?, hs]; exact hr
  rw [start_of_opening? h]

/-- A word behind an operand is read by its infix rule. -/
theorem extend_of_symbol? {t : Token} {s : Symbol} {rule : InfixRule} {left : Node}
    (hs : g.symbol? t = some s) (hr : s.infixRule = some rule) :
    g.extend l t left c = rule l t left c := by
  have h : g.joining? t = some rule := by rw [joining?, hs]; exact hr
  rw [extend_of_joining? h]

theorem power_of_symbol? {t : Token} {s : Symbol} (hs : g.symbol? t = some s) :
    g.power t = s.power := by
  rw [Grammar.power, hs]
  rfl

/-- Where the expression ends, the operand is its value. -/
theorem extend_stop {left : Option Node} (h : g.Stops power c.tokens) :
    loop (g.extendTurn l power) left c = .ok (left, c) := by
  refine loop_stop ?_
  rw [extendTurn, bind_of_ok get_apply]
  cases ht : c.tokens with
  | nil => rfl
  | cons t rest =>
    rw [ht, stops_cons] at h
    have hb : (t.kind != .newline && decide (power < g.power t)) = false := by
      rcases h with h | h <;> simp [h]
    simp only [hb]
    rfl

/-- One word that binds strongly enough is taken into the expression. -/
theorem extend_next {t : Token} {rest : List Token} {left node : Node} {x : Option Node × Cursor}
    (ht : c.tokens = t :: rest) (hk : t.kind ≠ .newline) (hp : power < g.power t)
    (he : g.extend l t left (c.moveTo rest) = .ok (node, c₁))
    (hlen : c₁.tokens.length ≤ rest.length)
    (hrest : loop (g.extendTurn l power) (some node) c₁ = .ok x) :
    loop (g.extendTurn l power) (some left) c = .ok x := by
  refine loop_next ?_ ?_ hrest
  · have hb : (t.kind != .newline && decide (power < g.power t)) = true := by simp [hk, hp]
    rw [extendTurn, bind_of_ok get_apply]
    simp only [ht, hb, if_true]
    rw [bind_of_ok (advance_of_cons ht), bind_of_ok he]
    rfl
  · simp only [ht, List.length_cons]
    omega

/-- An operator takes a right operand whose words bind more strongly than its right power. -/
theorem extend_operator {line : Nat} {op : BinaryOp} {left right : Node}
    (hl : l.power (op.token line) = op.power)
    (hr : l.expression op.rightPower c = .ok (some right, c₁)) :
    standard.extend l (op.token line) left c = .ok (.binary op left right, c₁) := by
  have key : ∀ p, p = op.rightPower →
      l.binary (op.token line) left p c = .ok (.binary op left right, c₁) := by
    rintro p rfl
    rw [Level.binary, BinaryOp.operator?_token]
    exact bind_of_ok (Level.require_of_ok hr)
  cases hrule : op.infixRule with
  | none =>
    have hp : op.rightPower = op.power := by cases op <;> first | rfl | cases hrule
    have h : standard.joining? (op.token line) = none := by
      rw [joining?, BinaryOp.symbol?_token]
      exact hrule
    rw [extend_of_joining?_none h]
    exact key _ (by rw [BinaryOp.power_token, hp])
  | some rule =>
    have hrule' : rule = Operation.logical := by cases op <;> cases hrule <;> rfl
    have hp : op.rightPower = op.power - 1 := by cases op <;> first | rfl | cases hrule
    rw [extend_of_symbol? (BinaryOp.symbol?_token op) hrule, hrule', Operation.logical]
    exact key _ (by rw [hl, hp])

end Grammar

namespace Dialect

open Reading

variable {d : Dialect} {attributeText : String → Nat → Except SyntaxError Node} {k : Nat}

/-- An expression of a level is read with the level below. -/
theorem expression_levels_succ {power : Nat} :
    (d.levels attributeText (k + 1)).expression power =
      d.grammar.expressionOf (d.levels attributeText k) power :=
  rfl

/-- So is a block. -/
theorem block_levels_succ {nested : Bool} :
    (d.levels attributeText (k + 1)).block nested =
      (d.levels attributeText k).blockOf nested :=
  rfl

/-- Powers do not depend on the depth. -/
theorem power_levels {t : Token} : (d.levels attributeText k).power t = d.grammar.power t := by
  cases k <;> rfl

/-- Texts in attributes do not depend on the depth either: they start anew. -/
theorem attributeText_levels : (d.levels attributeText k).attributeText = attributeText := by
  cases k <;> rfl

theorem modifier?_levels : (d.levels attributeText k).modifier? = d.modifier? := by
  cases k <;> rfl

/-- A template is the block that the top level reads from its tokens, whatever is left of them. -/
theorem parse_eq_ok {ts : List Token} {n : Node} :
    d.parse ts = .ok n ↔ ∃ c', (d.top ts).block false (Cursor.ofTokens ts) = .ok (n, c') := by
  rw [parse, read]
  cases (d.top ts).block false (Cursor.ofTokens ts) with
  | error e => simp [Except.map]
  | ok r => simp [Except.map, Prod.ext_iff]

/-- A source is divided into tokens first. -/
theorem parseSource_eq_ok {source : String} {n : Node} :
    d.parseSource source = .ok n ↔
      ∃ ts, Lexer.tokenize d.grammar.vocabulary source = .ok ts ∧ d.parse ts = .ok n := by
  rw [parseSource]
  cases Lexer.tokenize d.grammar.vocabulary source with
  | error e => simp [bind, Except.bind]
  | ok ts => simp [bind, Except.bind]

/-- What is done with the text of an attribute, if `A` does it with the strings in this text. -/
def reread (d : Dialect) (A : String → Nat → Except SyntaxError Node) (text : String)
    (line : Nat) : Except SyntaxError Node := do
  let tokens ← Lexer.tokenizeFrom d.grammar.vocabulary text line
  let (node, _) ← (d.levels A d.maxDepth).content .attribute (Cursor.ofTokens tokens)
  return node.getD (.output .attribute [])

/-- The text of an attribute is read by the rules for texts within it. -/
theorem attributeText_succ {budget line : Nat} {text : String} :
    d.attributeText (budget + 1) text line = d.reread (d.attributeText budget) text line :=
  rfl

/-- What is read again is the line of the text, or an empty one. -/
theorem reread_eq_ok {A : String → Nat → Except SyntaxError Node} {text : String} {line : Nat}
    {n : Node} : d.reread A text line = .ok n ↔
      ∃ tokens o c', Lexer.tokenizeFrom d.grammar.vocabulary text line = .ok tokens ∧
        (d.levels A d.maxDepth).content .attribute (Cursor.ofTokens tokens) = .ok (o, c') ∧
        n = o.getD (.output .attribute []) := by
  rw [reread]
  cases htok : Lexer.tokenizeFrom d.grammar.vocabulary text line with
  | error e => simp [bind, Except.bind]
  | ok tokens =>
    cases hcontent : (d.levels A d.maxDepth).content .attribute (Cursor.ofTokens tokens) with
    | error e => simp [bind, Except.bind, hcontent]
    | ok r => simp [bind, Except.bind, hcontent, Prod.ext_iff, pure, Except.pure, eq_comm]

/-- The value of an attribute that is written as a string is text with marked expressions. -/
theorem attributeText_eq_ok {budget line : Nat} {text : String} {n : Node} :
    d.attributeText (budget + 1) text line = .ok n ↔
    ∃ tokens o c', Lexer.tokenizeFrom d.grammar.vocabulary text line = .ok tokens ∧
      (d.levels (d.attributeText budget) d.maxDepth).content .attribute (Cursor.ofTokens tokens) =
        .ok (o, c') ∧ n = o.getD (.output .attribute []) := by
  rw [attributeText_succ]
  exact reread_eq_ok

/-- The value of an attribute that was a string is a row of parts. -/
theorem attributeText_output {budget line : Nat} {text : String} {n : Node}
    (h : d.attributeText budget text line = .ok n) : ∃ parts, n = .output .attribute parts := by
  cases budget with
  | zero =>
    cases h
    exact ⟨[], rfl⟩
  | succ budget =>
    obtain ⟨_, o, _, -, hcontent, rfl⟩ := attributeText_eq_ok.1 h
    cases o with
    | none => exact ⟨[], rfl⟩
    | some n => exact Level.content_output hcontent

/-- **A marked expression is a line with one part**: where the expression that follows the mark
takes all tokens up to newlines at the end, the template holds it and nothing else. -/
theorem parse_marked_line {m u : Token} {rest behind ts : List Token} {e : Node}
    (hts : (Cursor.ofTokens ts).tokens = m :: u :: rest) (hm : m.kind = .mark)
    (hd : d.maxDepth = k + 1) (hkey : u.kind ≠ .keyword) (hcom : u.kind ≠ .comment)
    (hbehind : ∀ t ∈ behind, t.kind = .newline) (hlen : behind.length ≤ rest.length)
    (he : (d.levels (d.attributeText (longestText ts + 1)) k).expression 0
      ((Cursor.ofTokens ts).moveTo (u :: rest)) =
        .ok (some e, (Cursor.ofTokens ts).moveTo behind)) :
    d.parse ts = .ok (.block [.output .content [.expr e]]) := by
  have hatEnd : ((Cursor.ofTokens ts).moveTo behind).atLineEnd = true := by
    cases behind with
    | nil => rfl
    | cons t ts => exact beq_iff_eq.2 (hbehind t List.mem_cons_self)
  have hread : (d.top ts).block false (Cursor.ofTokens ts) =
      .ok (.block [.output .content [.expr e]], (Cursor.ofTokens ts).moveTo []) := by
    rw [top, hd, block_levels_succ]
    exact Level.blockOf_line hts hm hkey hcom rfl hbehind hlen
      (Level.content_marked hts hm hkey rfl hatEnd hlen he)
  rw [parse, read, hread]
  rfl

/-- The same for tokens without a newline behind them. -/
theorem parse_marked {u : Token} {rest ts : List Token} {line : Nat} {e : Node}
    (hts : ts = ⟨.mark, "@", line⟩ :: u :: rest) (hd : d.maxDepth = k + 1)
    (hplain : ∀ t ∈ u :: rest, t.IsPlain)
    (he : (d.levels (d.attributeText (longestText ts + 1)) k).expression 0
      ((Cursor.ofTokens ts).moveTo (u :: rest)) = .ok (some e, (Cursor.ofTokens ts).moveTo [])) :
    d.parse ts = .ok (.block [.output .content [.expr e]]) := by
  have htok : (Cursor.ofTokens ts).tokens = ⟨.mark, "@", line⟩ :: u :: rest := by
    rw [Cursor.ofTokens_tokens, hts]
    rw [hts]
    exact List.forall_mem_cons.2 ⟨by simp, fun t ht => (hplain t ht).1⟩
  obtain ⟨-, hkey, hcom⟩ := hplain u List.mem_cons_self
  exact parse_marked_line htok rfl hd hkey hcom (fun t ht => absurd ht List.not_mem_nil)
    (Nat.zero_le _) he

end Dialect

end Stencil
