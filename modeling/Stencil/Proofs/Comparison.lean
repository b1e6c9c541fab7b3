import Stencil.Proofs.Likeness
import Stencil.Proofs.Reading
/-!
# Comparisons of readings

Whatever is shown of all readings of a grammar is shown along its rules, and the rules are made of
few kinds of steps. A comparison names a relation between two readings of the same tokens and says
that each kind of step keeps it; that the rules keep it follows here once for all comparisons. Which
relation it is, is left open: that both readings do the same, that the second one does so but for
some errors, that the first one never goes back, keeps a bound, comes to no errors but those that
are due, or is a program in the answers of the levels that it asks. Where only one reading is spoken
of, the second one is the same and its nodes are related to themselves.
-/

namespace Stencil

open Reading

/-- What is known of a cursor where two readings look at it, with `ps` waiting for the second one.
-/
structure Likeness.Sees (S : Likeness) (c : Cursor) (ps : List Pending) : Prop where
  ownerClosed : (c.withPending ps).ownerClosed = c.ownerClosed
  known : ∀ t ∈ c.tokens, S.Known t
  told : S.Told c.line

/-- Where nodes are compared for equality, nothing has to be known of a cursor. -/
theorem Likeness.sees_equal (c : Cursor) : equal.Sees c c.pending :=
  ⟨rfl, fun _ _ => trivial, trivial⟩

/-- A comparison of readings that use the levels `l` with readings that use the levels `m`. The
levels may depend on what is not fixed yet, such as the answers that they give. -/
structure Comparison (S : Likeness) {ι : Type} (l m : ι → Level) where
  /-- Whether two readings compare, with results that are related. The first flag says that a token
  has been taken, before which no level is asked; the second one that a statement waits. -/
  rel : Bool → Bool → ∀ {α β : Type}, (α → β → Prop) → (ι → Reading α) → (ι → Reading β) → Prop
  pure : ∀ {k w : Bool} {α β : Type} {R : α → β → Prop} {a : α} {b : β}, R a b →
    rel k w R (fun _ => Pure.pure a) fun _ => Pure.pure b
  bind : ∀ {k w : Bool} {α β γ δ : Type} {R : α → β → Prop} {Q : γ → δ → Prop}
    {r : ι → Reading α} {s : ι → Reading β} {f : ι → α → Reading γ} {g : ι → β → Reading δ},
    rel k w R r s → (∀ a b, R a b → rel k w Q (fun i => f i a) fun i => g i b) →
    rel k w Q (fun i => r i >>= f i) fun i => s i >>= g i
  failAt : ∀ {k w : Bool} {α β : Type} {R : α → β → Prop} {line : Nat} {fault : SyntaxFault},
    S.Due ⟨line, fault⟩ → rel k w R (fun _ => Reading.failAt line fault) fun _ =>
      Reading.failAt line fault
  look : ∀ {k w : Bool} {γ δ : Type} {Q : γ → δ → Prop} {f : ι → Cursor → Reading γ}
    {g : ι → Cursor → Reading δ},
    (∀ c ps, S.Sees c ps → rel k w Q (fun i => f i c) fun i => g i (c.withPending ps)) →
    rel k w Q (fun i => get >>= f i) fun i => get >>= g i
  take : ∀ {k w : Bool} {γ δ : Type} {Q : γ → δ → Prop} {f : ι → Token → Reading γ}
    {g : ι → Token → Reading δ},
    (∀ t, S.Known t → rel true w Q (fun i => f i t) fun i => g i t) →
    rel k w Q (fun i => advance >>= f i) fun i => advance >>= g i
  /-- Some tokens are passed over, whatever they are. -/
  pass : ∀ {k w : Bool} (p : Token → Bool),
    rel k w Eq (fun _ => modify fun c => { c with tokens := c.tokens.dropWhile p }) fun _ =>
      modify fun c => { c with tokens := c.tokens.dropWhile p }
  owner : ∀ {k w : Bool} {γ δ : Type} {Q : γ → δ → Prop} {f : ι → Option Pending → Reading γ}
    {g : ι → Option Pending → Reading δ},
    (rel k w Q (fun i => f i none) fun i => g i none) →
    (∀ p p', p.kind = p'.kind → p.otherwise = p'.otherwise →
      rel k true Q (fun i => f i (some p)) fun i => g i (some p')) →
    rel k w Q (fun i => owner? >>= f i) fun i => owner? >>= g i
  /-- A statement that waits still does behind a block. -/
  still : ∀ {k : Bool} {γ δ : Type} {Q : γ → δ → Prop} {line : Nat} {fault : SyntaxFault}
    {f : ι → Unit → Reading γ} {g : ι → Unit → Reading δ},
    (rel k true Q (fun i => f i ()) fun i => g i ()) →
    rel k true Q
      (fun i => owner? >>= fun o =>
        if o.isNone then Reading.failAt line fault >>= f i else f i ())
      fun i => owner? >>= fun o =>
        if o.isNone then Reading.failAt line fault >>= g i else g i ()
  /-- The statement that waits has an `else` without a test. -/
  mark : ∀ {k w : Bool}, rel k w Eq (fun _ => amend fun p => { p with otherwise := true }) fun _ =>
    amend fun p => { p with otherwise := true }
  /-- The statement that waits has one more branch, and finds its end in it. -/
  record : ∀ {k w : Bool} {b b' : Branch}, Branch.Formed S.below b b' →
    rel k w Eq (fun _ => amend fun p => { p with branches := b :: p.branches, closed := true })
      fun _ => amend fun p => { p with branches := b' :: p.branches, closed := true }
  /-- A block that a statement waits for, and the branches that have come in it. -/
  awaited : ∀ {w : Bool} {γ δ : Type} {Q : γ → δ → Prop} {kind : Compound} {line : Nat}
    {fault : SyntaxFault} {f : ι → Node → Option Pending → Reading γ}
    {g : ι → Node → Option Pending → Reading δ},
    (∀ i body, f i body none = Reading.failAt line fault) →
    (∀ i body, g i body none = Reading.failAt line fault) →
    (∀ body body' p p', S.below .block body body' →
      List.Forall₂ (Branch.Formed S.below) p.branches p'.branches →
      rel true w Q (fun i => f i body (some p)) fun i => g i body' (some p')) →
    rel true w Q
      (fun i => await kind >>= fun _ => (l i).block true >>= fun body => settle? >>= f i body)
      fun i => await kind >>= fun _ => (m i).block true >>= fun body => settle? >>= g i body
  expression : ∀ {w : Bool} (power : Nat), rel true w (Option.Rel (S.below .operand))
    (fun i => (l i).expression power) fun i => (m i).expression power
  block : ∀ {w : Bool} (nested : Bool), rel true w (S.below .block)
    (fun i => (l i).block nested) fun i => (m i).block nested
  attributeText : ∀ {w : Bool} {text : String} {n : Node} {line : Nat},
    S.below .operand (.leaf (.string text)) n → S.Told line → rel true w (S.below .value)
      (fun i => StateT.lift ((l i).attributeText text line))
      fun i => StateT.lift ((m i).attributeText text line)
  power : ∀ {t : Token}, S.Known t → ∃ power, ∀ i, (l i).power t = power ∧ (m i).power t = power
  resolve : ∀ {n n' : Node}, S.below .operand n n' → ∃ x x', S.below .modifier x x' ∧
    ∀ i, Statement.resolve (l i) n = x ∧ Statement.resolve (m i) n' = x'

namespace Comparison

variable {S : Likeness} {ι : Type} {l m : ι → Level} (K : Comparison S l m)
variable {k w : Bool} {α β γ δ σ τ : Type} {R : α → β → Prop} {Q : γ → δ → Prop}

/-! ## Steps -/

theorem ite {p q : Prop} [Decidable p] [Decidable q] {r r' : ι → Reading α} {s s' : ι → Reading β}
    (hpq : p ↔ q) (h : p → K.rel k w R r s) (h' : ¬p → K.rel k w R r' s') :
    K.rel k w R (fun i => if p then r i else r' i) fun i => if q then s i else s' i := by
  by_cases hp : p
  · simp only [if_pos hp, if_pos (hpq.1 hp)]
    exact h hp
  · simp only [if_neg hp, if_neg fun hq => hp (hpq.2 hq)]
    exact h' hp

/-- A check that fails, in front of what follows. -/
theorem check {p q : Prop} [Decidable p] [Decidable q] {line : Nat} {fault : SyntaxFault}
    {f : ι → Unit → Reading γ} {g : ι → Unit → Reading δ} (hpq : p ↔ q)
    (hdue : S.Due ⟨line, fault⟩)
    (h : ¬p → K.rel k w Q (fun i => f i ()) fun i => g i ()) :
    K.rel k w Q (fun i => if p then Reading.failAt line fault >>= f i else f i ()) fun i =>
      if q then Reading.failAt line fault >>= g i else g i () :=
  K.ite hpq (fun _ => K.bind (R := fun _ _ => False) (K.failAt hdue) fun _ _ hfalse =>
    hfalse.elim) h

/-- An error where the cursor stands is due in any line that is told, so it needs no more than to be
a common one. -/
theorem fail {fault : SyntaxFault} (h : fault.isCommon = true) :
    K.rel k w R (fun _ => fail fault) fun _ => fail fault := by
  have hlook : ∀ {α : Type}, (Reading.fail fault : Reading α) =
      get >>= fun c => Reading.failAt c.line fault := rfl
  rw [hlook, hlook]
  exact K.look fun _ _ hc => K.failAt (S.common _ _ hc.told h)

theorem expected {what : String} :
    K.rel k w R (fun _ => expected what) fun _ => expected what := by
  have hlook : ∀ {α : Type}, (Reading.expected what : Reading α) =
      get >>= fun c => Reading.failAt c.line (.expected what c.found) := rfl
  rw [hlook, hlook]
  exact K.look fun _ _ hc => K.failAt (S.common _ _ hc.told rfl)

/-- A token of one kind and text, or an error; both readings take the same token. -/
theorem expect {kind : TokenKind} {text what : String} :
    K.rel k w Eq (fun _ => expect kind text what) fun _ => expect kind text what := by
  rw [expect_eq]
  exact K.look fun _ _ _ => K.ite Iff.rfl (fun _ => K.take fun _ _ => K.pure rfl) fun _ =>
    K.expected

/-- A word as such is the same text on both sides. -/
theorem literal {what : String} :
    K.rel k w Eq (fun _ => literal what) fun _ => literal what := by
  rw [literal_eq]
  exact K.look fun _ _ _ => K.ite Iff.rfl (fun _ => K.take fun _ _ => K.pure rfl) fun _ =>
    K.expected

/-- Both loops take as many turns as the tokens allow, which are the same. -/
theorem loop {turn : ι → σ → Reading (σ ⊕ γ)} {turn' : ι → τ → Reading (τ ⊕ δ)}
    {I : σ → τ → Prop}
    (next : ∀ s s', I s s' → K.rel k w (Sum.LiftRel I Q) (fun i => turn i s) fun i => turn' i s')
    {s : σ} {s' : τ} (start : I s s') :
    K.rel k w Q (fun i => loop (turn i) s) fun i => loop (turn' i) s' := by
  have hturns : ∀ n s s', I s s' →
      K.rel k w Q (fun i => turns (turn i) n s) fun i => turns (turn' i) n s' := by
    intro n
    induction n with
    | zero => exact fun _ _ _ => K.fail rfl
    | succ n ih =>
      refine fun s s' hs => K.bind (next s s' hs) fun x y hxy => ?_
      cases hxy with
      | inl hs => exact ih _ _ hs
      | inr hb => exact K.pure hb
  have hlook : ∀ {σ γ : Type} (turn : σ → Reading (σ ⊕ γ)) (s : σ), Reading.loop turn s =
      get >>= fun c => turns turn (c.tokens.length + 1) s := fun _ _ => rfl
  simp only [hlook]
  exact K.look fun _ _ _ => hturns _ _ _ start

/-- The end of a turn that goes on behind a separator. -/
theorem separated {text : String} {a : α} {b : β} {x : γ} {y : δ} (h : R a b) (h' : Q x y) :
    K.rel k w (Sum.LiftRel R Q)
      (fun _ => do
        if (← get).at? .delimiter text then
          let _ ← advance
          return .inl a
        else return .inr x)
      fun _ => do
        if (← get).at? .delimiter text then
          let _ ← advance
          return .inl b
        else return .inr y :=
  K.look fun _ _ _ => K.ite Iff.rfl (fun _ => K.take fun _ _ => K.pure (.inl h)) fun _ =>
    K.pure (.inr h')

/-! ## Lines and blocks -/

/-- An expression that must be there: without it, both readings fail with the same error. -/
theorem require (power : Nat) (what : String) :
    K.rel true w (S.below .operand) (fun i => (l i).require power what) fun i =>
      (m i).require power what := by
  refine K.look fun c _ hc => K.bind (K.expression power) fun o o' ho => ?_
  cases ho with
  | none => exact K.failAt (S.common _ _ hc.told rfl)
  | some hn => exact K.pure hn

/-- An operator binds the operand before it to what the level below reads with its power. -/
theorem binary {t : Token} (ht : S.Known t) {left left' : Node}
    (hleft : S.here .operand left left') (power : Nat) :
    K.rel true w (S.here .operand) (fun i => (l i).binary t left power) fun i =>
      (m i).binary t left' power := by
  unfold Level.binary
  cases Level.operator? t with
  | none => exact K.failAt (S.common _ _ (S.told t ht) rfl)
  | some op =>
    exact K.bind (K.require _ _) fun _ _ hright => K.pure (S.formed (.binary op hleft hright))

/-- The text of a line is made of tokens alone and of no node. -/
theorem contentText {t : Token} (ht : S.Known t) :
    K.rel k w Eq (fun _ => Level.contentText t) fun _ => Level.contentText t := by
  unfold Level.contentText
  split
  · next hk =>
    split
    · exact K.pure rfl
    · next hnone => exact K.failAt (S.number t ht hk hnone)
  · exact K.pure rfl

/-- One more part of a line is a text on both sides, or an expression on both sides. -/
theorem contentTurn {parts parts' : List Part}
    (hparts : List.Forall₂ (Part.Formed S.below) parts parts') :
    K.rel k w
      (Sum.LiftRel (List.Forall₂ (Part.Formed S.below)) (List.Forall₂ (Part.Formed S.below)))
      (fun i => (l i).contentTurn parts) fun i => (m i).contentTurn parts' := by
  refine K.look fun _ _ _ => K.ite Iff.rfl (fun _ => K.pure (.inr hparts)) fun _ => ?_
  refine K.take fun t ht => ?_
  refine K.ite Iff.rfl (fun _ => K.bind (K.expression 0) fun o o' ho => ?_) fun _ => ?_
  · refine K.look fun _ _ hc => K.ite (by rw [hc.ownerClosed]) (fun _ => ?_) fun _ => ?_
    · cases ho with
      | none => exact K.pure (.inr hparts)
      | some hn => exact K.pure (.inr (.cons (.expr hn) hparts))
    · cases ho with
      | none => exact K.pure (.inl hparts)
      | some hn => exact K.pure (.inl (.cons (.expr hn) hparts))
  · refine K.bind (K.contentText ht) fun s s' hs => ?_
    subst hs
    exact K.pure (.inl (.cons (.text s) hparts))

/-- A line has parts, which are related. -/
theorem content (mode : OutputMode) :
    K.rel k w (Option.Rel fun n n' => ∃ parts parts' : List Part, parts ≠ [] ∧
      List.Forall₂ (Part.Formed S.below) parts parts' ∧ n = .output mode parts ∧
        n' = .output mode parts') (fun i => (l i).content mode) fun i => (m i).content mode := by
  refine K.bind (K.loop (fun _ _ hs => K.contentTurn hs) .nil) fun parts parts' hparts => ?_
  refine K.ite ?_ (fun _ => K.pure .none) fun hne => K.pure (.some ?_)
  · cases hparts <;> simp
  · exact ⟨_, _, by simpa using hne, List.rel_reverse hparts, rfl, rfl⟩

/-- One more child of a block; what ends the block is seen in the tokens, which are the same. -/
theorem blockTurn (nested : Bool) {children children' : List Node}
    (hchildren : List.Forall₂ (S.here .child) children children') :
    K.rel k w (Sum.LiftRel (List.Forall₂ (S.here .child)) (List.Forall₂ (S.here .child)))
      (fun i => (l i).blockTurn nested children) fun i => (m i).blockTurn nested children' := by
  -- what an expression or a line leaves goes in front of the children
  have hrest : ∀ {k : Bool} (o o' : Option Node), Option.Rel (S.here .child) o o' →
      K.rel k w (Sum.LiftRel (List.Forall₂ (S.here .child)) (List.Forall₂ (S.here .child)))
        (fun _ => do
          let children := o.toList ++ children
          if (← get).ownerClosed then return .inr children else return .inl children)
        fun _ => do
          let children := o'.toList ++ children'
          if (← get).ownerClosed then return .inr children else return .inl children := by
    intro k o o' ho
    have hall : List.Forall₂ (S.here .child) (o.toList ++ children) (o'.toList ++ children') := by
      cases ho with
      | none => exact hchildren
      | some hn => exact .cons hn hchildren
    exact K.look fun _ _ hc => K.ite (by rw [hc.ownerClosed]) (fun _ => K.pure (.inr hall))
      fun _ => K.pure (.inl hall)
  refine K.bind (K.pass _) fun _ _ _ => K.look fun c _ hc => ?_
  refine K.ite Iff.rfl (fun _ => ?_) fun _ => K.ite Iff.rfl (fun _ => ?_) fun _ => ?_
  · exact K.ite Iff.rfl (fun _ => K.fail rfl) fun _ => K.pure (.inr hchildren)
  · refine K.take fun _ _ => K.take fun _ _ => ?_
    exact K.ite Iff.rfl (fun _ => K.pure (.inr hchildren)) fun _ =>
      K.failAt (S.common _ _ hc.told rfl)
  refine K.look fun _ _ _ => K.ite Iff.rfl (fun _ => K.take fun _ _ => ?_) fun _ => ?_
  · refine K.bind (K.expression 0) fun o o' ho => hrest o o' ?_
    cases ho with
    | none => exact .none
    | some hn => exact .some (S.formed (.child hn))
  · refine K.bind (K.content .content) fun o o' ho => hrest o o' ?_
    cases ho with
    | none => exact .none
    | some hline =>
      obtain ⟨parts, parts', hne, hparts, rfl, rfl⟩ := hline
      exact .some (S.formed (.line hne hparts))

/-- Blocks are compared by their children, turn by turn. -/
theorem blockOf (nested : Bool) :
    K.rel k w (S.here .block) (fun i => (l i).blockOf nested) fun i => (m i).blockOf nested :=
  K.bind (K.loop (fun _ _ hs => K.blockTurn nested hs) .nil) fun _ _ hchildren =>
    K.pure (S.formed (.block (List.rel_reverse hchildren)))

end Comparison

end Stencil
