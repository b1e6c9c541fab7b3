import Stencil.Proofs.Comparison.Rules
import Stencil.Proofs.Lexing
/-!
# Readings side by side

Two readings of the same tokens that correspond: both fail with the same error, or they give nodes
that are alike and leave the same tokens. It is the comparison that takes a likeness to what it
says, and so two dialects whose grammars agree on the tokens that may come read every template
alike. What holds of every node of a template is the case where both dialects are the same and the
likeness relates nodes to themselves.
-/

namespace Stencil

/-- Both are the same error, or both are values with `R`. -/
inductive Likewise {ε α β : Type} (R : α → β → Prop) : Except ε α → Except ε β → Prop
  | ok {a : α} {b : β} : R a b → Likewise R (.ok a) (.ok b)
  | error (e : ε) : Likewise R (.error e) (.error e)

/-- What the first reading makes a result of, the second one makes a related result of. -/
theorem Likewise.bind {ε α β γ δ : Type} {R : α → β → Prop} {R' : γ → δ → Prop}
    {x : Except ε α} {y : Except ε β} {f : α → Except ε γ} {g : β → Except ε δ}
    (h : Likewise R x y) (hf : ∀ a b, R a b → Likewise R' (f a) (g b)) :
    Likewise R' (x >>= f) (y >>= g) := by
  cases h with
  | ok h => exact hf _ _ h
  | error e => exact .error e

/-- What is made of related values is related. -/
theorem Likewise.map {ε α β γ δ : Type} {R : α → β → Prop} {R' : γ → δ → Prop} {x : Except ε α}
    {y : Except ε β} {f : α → γ} {g : β → δ} (h : Likewise R x y)
    (hf : ∀ a b, R a b → R' (f a) (g b)) : Likewise R' (x.map f) (y.map g) := by
  cases h with
  | ok h => exact .ok (hf _ _ h)
  | error e => exact .error e

/-- Which function takes the place of a name is asked of the level. -/
theorem Statement.resolve_congr {l m : Level} (h : l.modifier? = m.modifier?) (n : Node) :
    resolve l n = resolve m n := by
  unfold resolve
  rw [h]

namespace Likeness

open Reading

variable (S : Likeness)

/-- Two statements that wait, with related branches. -/
structure Waiting (p p' : Pending) : Prop where
  kind : p.kind = p'.kind
  otherwise : p.otherwise = p'.otherwise
  closed : p.closed = p'.closed
  branches : List.Forall₂ (Branch.Formed S.below) p.branches p'.branches

/-- Two cursors that differ at most in the branches of the statements that wait. -/
structure Beside (c c' : Cursor) : Prop where
  same : c' = c.withPending c'.pending
  pending : List.Forall₂ S.Waiting c.pending c'.pending
  known : ∀ t ∈ c.tokens, S.Known t
  last : S.Told c.lastLine

/-- Two readings that fail alike, or give results with `R` and leave the same tokens. -/
def Parallel {α β : Type} (R : α → β → Prop) (r : Reading α) (s : Reading β) : Prop :=
  ∀ c c', S.Beside c c' → Likewise (fun x y => R x.1 y.1 ∧ S.Beside x.2 y.2) (r c) (s c')

variable {S} {c c' : Cursor}

namespace Beside

theorem moveTo (h : S.Beside c c') {rest : List Token} (hrest : rest ⊆ c.tokens) :
    S.Beside (c.moveTo rest) (c'.moveTo rest) := by
  obtain ⟨hsame, hpending, hknown, hlast⟩ := h
  refine ⟨?_, hpending, fun t ht => hknown t (hrest ht), hlast⟩
  rw [hsame]
  rfl

/-- Statements with related branches may take the place of those that wait. -/
theorem withPending (h : S.Beside c c') {ps ps' : List Pending}
    (hps : List.Forall₂ S.Waiting ps ps') :
    S.Beside (c.withPending ps) (c'.withPending ps') := by
  refine ⟨?_, hps, h.known, h.last⟩
  rw [h.same]
  rfl

/-- Both cursors have the same tokens left: they differ in branches only. -/
theorem tokens (h : S.Beside c c') : c'.tokens = c.tokens := by
  rw [h.same]
  rfl

/-- The cursor beside shows the same as a change of what waits does. -/
theorem sees {ps : List Pending} (h : S.Beside c (c.withPending ps)) : S.Sees c ps where
  known := h.known
  told := S.told_line h.last h.known
  ownerClosed := by
    have hpending : List.Forall₂ S.Waiting c.pending ps := h.pending
    unfold Cursor.ownerClosed
    rw [Cursor.withPending_pending]
    generalize c.pending = qs at hpending
    cases hpending with
    | nil => rfl
    | cons hp _ => exact hp.closed.symm

/-- Cursors are beside each other where a list of tokens begins. -/
theorem ofTokens {ts : List Token} (h : ∀ t ∈ ts, S.Known t)
    (hlast : S.Told (Cursor.ofTokens ts).lastLine) :
    S.Beside (Cursor.ofTokens ts) (Cursor.ofTokens ts) :=
  ⟨rfl, .nil, fun t ht => h t ((List.takeWhile_prefix _).subset ht), hlast⟩

end Beside

/-! ## Steps -/

namespace Parallel

variable {α β γ δ : Type} {R : α → β → Prop} {Q : γ → δ → Prop}
variable {r : Reading α} {s : Reading β}

theorem pure {a : α} {b : β} (h : R a b) : S.Parallel R (pure a) (pure b) :=
  fun _ _ hc => .ok ⟨h, hc⟩

theorem failAt {line : Nat} {fault : SyntaxFault} :
    S.Parallel R (failAt line fault) (failAt line fault) :=
  fun _ _ _ => .error _

/-- The second steps start beside each other again. -/
theorem bind {f : α → Reading γ} {g : β → Reading δ} (h : S.Parallel R r s)
    (hf : ∀ a b, R a b → S.Parallel Q (f a) (g b)) : S.Parallel Q (r >>= f) (s >>= g) :=
  fun c c' hc => (h c c' hc).bind fun _ _ hxy => hf _ _ hxy.1 _ _ hxy.2

/-- Both readings look at their cursors, which differ at most in the statements that wait. -/
theorem get {f : Cursor → Reading γ} {g : Cursor → Reading δ}
    (h : ∀ c ps, S.Sees c ps → S.Parallel Q (f c) (g (c.withPending ps))) :
    S.Parallel Q (get >>= f) (get >>= g) := by
  intro c c' hc
  obtain ⟨ps, rfl⟩ : ∃ ps, c' = c.withPending ps := ⟨_, hc.same⟩
  exact h c ps hc.sees _ _ hc

/-- Both readings take the same token, and it is a known one. -/
theorem advance : S.Parallel (fun t u => t = u ∧ S.Known t) advance advance := by
  intro c c' hc
  have hknown := hc.known
  cases htok : c.tokens with
  | nil =>
    rw [advance_of_nil htok, advance_of_nil (hc.tokens.trans htok), hc.same]
    exact .error _
  | cons t rest =>
    rw [advance_of_cons htok, advance_of_cons (hc.tokens.trans htok)]
    rw [htok] at hknown
    exact .ok ⟨⟨rfl, hknown t List.mem_cons_self⟩, hc.moveTo (htok ▸ List.subset_cons_self t rest)⟩

/-- The statement that waits innermost is of the same kind on both sides, with related branches. -/
theorem owner : S.Parallel (Option.Rel S.Waiting) owner? owner? := by
  intro c c' hc
  have hr : ∀ d : Cursor, owner? d = .ok (d.pending.head?, d) :=
    fun d => owner?_eq_ok.2 ⟨rfl, rfl⟩
  rw [hr, hr]
  refine .ok ⟨?_, hc⟩
  have hpending := hc.pending
  dsimp only
  generalize c.pending = ps at hpending
  generalize c'.pending = ps' at hpending
  cases hpending with
  | nil => exact .none
  | cons hp _ => exact .some hp

/-- The same kind of statement starts to wait on both sides, without branches. -/
theorem await (kind : Compound) : S.Parallel Eq (await kind) (await kind) := by
  intro c c' hc
  rw [await_apply, await_apply]
  exact .ok ⟨rfl, hc.withPending (.cons ⟨rfl, rfl, rfl, .nil⟩ hc.pending)⟩

/-- The innermost statements stop waiting, with related branches. -/
theorem settle : S.Parallel (Option.Rel S.Waiting) settle? settle? := by
  intro c c' hc
  have hpending := hc.pending
  cases hp : c.pending with
  | nil =>
    rw [hp, List.forall₂_nil_left_iff] at hpending
    rw [settle?_of_nil hp, settle?_of_nil hpending]
    exact .ok ⟨.none, hc⟩
  | cons p ps =>
    rw [hp, List.forall₂_cons_left_iff] at hpending
    obtain ⟨p', ps', hhead, htail, hp'⟩ := hpending
    rw [settle?_of_cons hp, settle?_of_cons hp']
    exact .ok ⟨.some hhead, hc.withPending htail⟩

/-- Changes of the innermost statement that keep its branches related. -/
theorem amend {f g : Pending → Pending} (h : ∀ p p', S.Waiting p p' → S.Waiting (f p) (g p')) :
    S.Parallel Eq (amend f) (amend g) := by
  intro c c' hc
  have hpending := hc.pending
  cases hp : c.pending with
  | nil =>
    rw [hp, List.forall₂_nil_left_iff] at hpending
    rw [amend_of_nil hp, amend_of_nil hpending]
    exact .ok ⟨rfl, hc⟩
  | cons p ps =>
    rw [hp, List.forall₂_cons_left_iff] at hpending
    obtain ⟨p', ps', hhead, htail, hp'⟩ := hpending
    rw [amend_of_cons hp, amend_of_cons hp']
    exact .ok ⟨rfl, hc.withPending (.cons (h p p' hhead) htail)⟩

/-- Tokens that a step passes over are the same for both readings. -/
theorem dropWhile (pass : Token → Bool) :
    S.Parallel Eq (modify fun c => { c with tokens := c.tokens.dropWhile pass })
      (modify fun c => { c with tokens := c.tokens.dropWhile pass }) := by
  intro c c' hc
  have hmoved := hc.moveTo (List.dropWhile_suffix pass).subset
  have hr : ∀ d : Cursor, (modify fun c => { c with tokens := c.tokens.dropWhile pass } :
      Reading Unit) d = .ok ((), d.moveTo (d.tokens.dropWhile pass)) := fun _ => rfl
  rw [hr, hr, hc.tokens]
  exact .ok ⟨rfl, hmoved⟩

theorem lift {x : Except SyntaxError α} {y : Except SyntaxError β} (h : Likewise R x y) :
    S.Parallel R (StateT.lift x) (StateT.lift y) := by
  intro c c' hc
  cases h with
  | ok h => exact .ok ⟨h, hc⟩
  | error e => exact .error e

end Parallel

/-! ## Levels -/

/-- The readings of two levels keep side by side. -/
structure Levels (S : Likeness) (l m : Level) : Prop where
  expression : ∀ power, S.Parallel (Option.Rel (S.below .operand)) (l.expression power)
    (m.expression power)
  block : ∀ nested, S.Parallel (S.below .block) (l.block nested) (m.block nested)
  attributeText : ∀ {text n} line, S.below .operand (.leaf (.string text)) n →
    Likewise (S.below .value) (l.attributeText text line) (m.attributeText text line)
  power : ∀ {t}, S.Known t → l.power t = m.power t
  resolve : ∀ {n n'}, S.below .operand n n' →
    S.below .modifier (Statement.resolve l n) (Statement.resolve m n')

/-- To keep side by side is a comparison. A statement that waits does so for both readings, and so
both of them miss it if one does. -/
def Levels.comparison {l m : Level} (h : S.Levels l m) :
    Comparison S (fun _ : Unit => l) fun _ => m where
  rel _ _ _ _ R r s := S.Parallel R (r ()) (s ())
  pure := .pure
  bind := .bind
  failAt _ := .failAt
  look := .get
  take hnext := .bind .advance fun t _ ht => ht.1 ▸ hnext t ht.2
  pass p := .dropWhile p
  owner hnone hsome := .bind .owner fun o o' ho => by
    cases ho with
    | none => exact hnone
    | some hp => exact hsome _ _ hp.kind hp.otherwise
  still hthere := .bind .owner fun o o' ho => by
    cases ho with
    | none => exact .bind (R := fun _ _ => False) .failAt fun _ _ hfalse => hfalse.elim
    | some _ => exact hthere
  mark := .amend fun p p' hp => ⟨hp.kind, rfl, hp.closed, hp.branches⟩
  record hb := .amend fun p p' hp => ⟨hp.kind, hp.otherwise, rfl, .cons hb hp.branches⟩
  awaited hf hg hnext := .bind (.await _) fun _ _ _ => .bind (h.block true) fun body body' hbody =>
    .bind .settle fun o o' ho => by
      cases ho with
      | none =>
        rw [hf, hg]
        exact .failAt
      | some hp => exact hnext _ _ _ _ hbody hp.branches
  expression := h.expression
  block := h.block
  attributeText hn _ := .lift (h.attributeText _ hn)
  power ht := ⟨_, fun _ => ⟨rfl, (h.power ht).symm⟩⟩
  resolve hn := ⟨_, _, h.resolve hn, fun _ => ⟨rfl, rfl⟩⟩

namespace Levels

variable {l m : Level} (h : S.Levels l m)
include h

theorem content (mode : OutputMode) :
    S.Parallel (Option.Rel fun n n' => ∃ parts parts' : List Part, parts ≠ [] ∧
      List.Forall₂ (Part.Formed S.below) parts parts' ∧ n = .output mode parts ∧
        n' = .output mode parts') (l.content mode) (m.content mode) :=
  h.comparison.content (k := true) (w := true) mode

theorem blockOf (nested : Bool) :
    S.Parallel (S.here .block) (l.blockOf nested) (m.blockOf nested) :=
  h.comparison.blockOf (k := true) (w := true) nested

/-- An expression of two grammars that agree on the known tokens, over levels that are alike. -/
theorem expressionOf {g g' : Grammar} (hg : g.HasStandardRules)
    (hsame : ∀ t, S.Known t → g'.symbol? t = g.symbol? t) (power : Nat) :
    S.Parallel (Option.Rel (S.here .operand)) (g.expressionOf l power)
      (g'.expressionOf m power) :=
  (h.comparison.grammars_of_standard hg hsame).expressionOf (k := true) (w := true) power

end Levels

/-! ## Dialects -/

/-- Two dialects that read texts of the kind likewise: their grammars agree on the tokens that may
come, and have standard rules for them. What the rules make of nodes is what levels give. -/
structure Dialects (S : Likeness) (d d' : Dialect) : Prop where
  rules : d.grammar.HasStandardRules
  symbol : ∀ t, S.Known t → d'.grammar.symbol? t = d.grammar.symbol? t
  maxDepth : d'.maxDepth = d.maxDepth
  below_eq : S.below = S.here
  text : ∀ {s n}, S.here .operand (.leaf (.string s)) n → S.Text s
  resolve : ∀ l m : Level, l.modifier? = d.modifier? → m.modifier? = d'.modifier? →
    ∀ n n', S.here .operand n n' →
      S.here .modifier (Statement.resolve l n) (Statement.resolve m n')
  tokens : ∀ text line, S.Text text → Lexer.tokenizeFrom d'.grammar.vocabulary text line =
    Lexer.tokenizeFrom d.grammar.vocabulary text line
  known : ∀ text line ts, S.Text text →
    Lexer.tokenizeFrom d.grammar.vocabulary text line = .ok ts → ∀ t ∈ ts, S.Known t

namespace Dialects

variable {d d' : Dialect} (h : S.Dialects d d')
include h

/-- The tokens of a text stand side by side with themselves. -/
theorem beside_ofTokens {text : String} {line : Nat} {ts : List Token} (htext : S.Text text)
    (hts : Lexer.tokenizeFrom d.grammar.vocabulary text line = .ok ts) :
    S.Beside (Cursor.ofTokens ts) (Cursor.ofTokens ts) :=
  have hknown := h.known text line ts htext hts
  .ofTokens hknown (S.told_lastLine hknown (Lexer.exists_stop hts))

/-- All levels are alike if what the attributes are read with is. -/
theorem levels_parallel {A A' : String → Nat → Except SyntaxError Node}
    (hA : ∀ text line, S.Text text → Likewise (S.here .value) (A text line) (A' text line))
    (k : Nat) : S.Levels (d.levels A k) (d'.levels A' k) := by
  have hpower : ∀ t, S.Known t → d.grammar.power t = d'.grammar.power t := fun t ht => by
    rw [Grammar.power, Grammar.power, h.symbol t ht]
  have hvalue : ∀ {text n} line, S.below .operand (.leaf (.string text)) n →
      Likewise (S.below .value) (A text line) (A' text line) := by
    rw [h.below_eq]
    exact fun line hn => hA _ line (h.text hn)
  have hresolve : ∀ l m : Level, l.modifier? = d.modifier? → m.modifier? = d'.modifier? →
      ∀ {n n'}, S.below .operand n n' →
        S.below .modifier (Statement.resolve l n) (Statement.resolve m n') := by
    rw [h.below_eq]
    exact fun l m hl hm => h.resolve l m hl hm _ _
  induction k with
  | zero =>
    -- without a level left, both readings fail where they stand, with the same bound
    have hfail : ∀ {α : Type} {R : α → α → Prop}, S.Parallel R
        (Reading.fail (.tooDeep d.maxDepth)) (Reading.fail (.tooDeep d'.maxDepth)) := by
      intro α R c c' hc
      rw [hc.same, h.maxDepth]
      exact .error _
    exact ⟨fun _ => hfail, fun _ => hfail, hvalue, hpower _, hresolve _ _ rfl rfl⟩
  | succ k ih =>
    refine ⟨fun power => ?_, fun nested => ?_, hvalue, hpower _, hresolve _ _ rfl rfl⟩
    · rw [h.below_eq]
      exact ih.expressionOf h.rules h.symbol power
    · rw [h.below_eq]
      exact ih.blockOf nested

/-- The text of an attribute is alike under both dialects, however often its reading starts another
one. The induction is on how often it may. -/
theorem attributeText_parallel (budget : Nat) (text : String) (line : Nat) (htext : S.Text text) :
    Likewise (S.here .value) (d.attributeText budget text line)
      (d'.attributeText budget text line) := by
  induction budget generalizing text line with
  | zero => exact .ok (S.formed (.text .nil))
  | succ budget ih =>
    rw [Dialect.attributeText, Dialect.attributeText, h.tokens text line htext]
    cases hts : Lexer.tokenizeFrom d.grammar.vocabulary text line with
    | error e => exact .error e
    | ok ts =>
      have hlevels := h.levels_parallel ih d.maxDepth
      have hcontent := hlevels.content .attribute _ _ (h.beside_ofTokens htext hts)
      rw [h.maxDepth]
      refine .bind (R := fun x y => x = ts ∧ y = ts) (.ok ⟨rfl, rfl⟩) ?_
      rintro _ _ ⟨rfl, rfl⟩
      refine hcontent.bind ?_
      rintro ⟨o, _⟩ ⟨o', _⟩ ⟨ho, -⟩
      refine .ok ?_
      cases ho with
      | none => exact S.formed (.text .nil)
      | some hline =>
        obtain ⟨parts, parts', -, hparts, rfl, rfl⟩ := hline
        exact S.formed (.text hparts)

/-- **The dialects read a template likewise.** -/
theorem parseSource_parallel (source : String) (htext : S.Text source) :
    Likewise (S.here .block) (d.parseSource source) (d'.parseSource source) := by
  rw [Dialect.parseSource, Dialect.parseSource, Lexer.tokenize, Lexer.tokenize,
    h.tokens source 1 htext]
  cases hts : Lexer.tokenizeFrom d.grammar.vocabulary source 1 with
  | error e => exact .error e
  | ok ts =>
    have hlevels := h.levels_parallel (h.attributeText_parallel (Dialect.longestText ts + 1))
      d.maxDepth
    have hblock := hlevels.block false _ _ (h.beside_ofTokens htext hts)
    have hread : ∀ d : Dialect, (Except.ok ts >>= d.parse : Except SyntaxError Node) =
        ((d.levels (d.attributeText (Dialect.longestText ts + 1)) d.maxDepth).block false
          (Cursor.ofTokens ts)).map Prod.fst := fun _ => rfl
    rw [hread, hread, h.maxDepth]
    rw [h.below_eq] at hblock
    exact hblock.map fun _ _ hxy => hxy.1

end Dialects

end Likeness

end Stencil
