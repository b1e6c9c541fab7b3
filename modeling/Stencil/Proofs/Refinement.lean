import Stencil.Proofs.Parallel
/-!
# Stricter readings

A reading is as another one up to some errors if it gives the same result, or fails with one of
these errors. This is a comparison, and so it passes through every rule of the grammar: two stacks
of levels that differ in the depth they allow, or in the rule for elements, read the same up to the
errors of the stricter one.
-/

namespace Stencil

namespace Reading

variable {α β σ : Type} {err : SyntaxError → Prop}

/-- Whether `s` gives what `r` gives or fails with an admitted error. -/
def UpTo (err : SyntaxError → Prop) (r s : Reading α) : Prop :=
  ∀ c, s c = r c ∨ ∃ e, err e ∧ s c = .error e

theorem UpTo.refl (r : Reading α) : UpTo err r r :=
  fun _ => Or.inl rfl

/-- If the second reading gives a result, it is that of the first one, and both go on alike. -/
theorem UpTo.bind {r s : Reading α} {f g : α → Reading β} (h : UpTo err r s)
    (hf : ∀ a, UpTo err (f a) (g a)) : UpTo err (r >>= f) (s >>= g) := by
  intro c
  rcases h c with h | ⟨e, he, h⟩
  · cases hr : r c with
    | error e =>
      left
      rw [bind_of_error hr, bind_of_error (h.trans hr)]
    | ok x =>
      obtain ⟨a, c₁⟩ := x
      rw [bind_of_ok hr, bind_of_ok (h.trans hr)]
      exact hf a c₁
  · exact Or.inr ⟨e, he, bind_of_error h⟩

/-- What follows a common step. -/
theorem UpTo.after (r : Reading α) {f g : α → Reading β} (hf : ∀ a, UpTo err (f a) (g a)) :
    UpTo err (r >>= f) (r >>= g) :=
  .bind (.refl r) hf

theorem UpTo.ite {p : Prop} [Decidable p] {r r' s s' : Reading α} (h : UpTo err r s)
    (h' : UpTo err r' s') : UpTo err (if p then r else r') (if p then s else s') := by
  by_cases hp : p
  · rw [if_pos hp, if_pos hp]
    exact h
  · rw [if_neg hp, if_neg hp]
    exact h'

/-- A look at the cursor that only the second reading takes. -/
theorem UpTo.look {r : Reading α} {g : Cursor → Reading α} (h : ∀ c, UpTo err r (g c)) :
    UpTo err r (get >>= g) :=
  fun c => h c c

/-- A check that only the second reading makes, with an admitted error. -/
theorem UpTo.refuse {p : Prop} [Decidable p] {r s t : Reading α}
    (hs : ∀ c, ∃ e, err e ∧ s c = .error e) (h : UpTo err r t) :
    UpTo err r (if p then s else t) := by
  by_cases hp : p
  · rw [if_pos hp]
    exact fun c => Or.inr (hs c)
  · rw [if_neg hp]
    exact h

/-- The same for readings whose results are related. -/
def UpToWith {α β : Type} (err : SyntaxError → Prop) (R : α → β → Prop) (r : Reading α)
    (s : Reading β) : Prop :=
  ∀ c, Likewise (fun x y => R x.1 y.1 ∧ x.2 = y.2) (r c) (s c) ∨ ∃ e, err e ∧ s c = .error e

namespace UpToWith

variable {α β γ δ : Type} {R : α → β → Prop} {Q : γ → δ → Prop}

/-- Results of one reading are equal and so related, if equal results are. -/
theorem of_upTo {R : α → α → Prop} {r s : Reading α} (h : UpTo err r s) (hR : ∀ a, R a a) :
    UpToWith err R r s := by
  refine fun c => (h c).imp_left fun hsame => ?_
  rw [hsame]
  cases r c with
  | error e => exact .error e
  | ok x => exact .ok ⟨hR x.1, rfl⟩

theorem upTo {R : α → α → Prop} {r s : Reading α} (h : UpToWith err R r s)
    (hR : ∀ a b, R a b → a = b) : UpTo err r s := by
  refine fun c => (h c).imp_left fun hlike => ?_
  generalize r c = x at hlike
  generalize s c = y at hlike
  cases hlike with
  | error e => rfl
  | ok hxy => rw [Prod.ext (hR _ _ hxy.1) hxy.2]

theorem bind {r : Reading α} {s : Reading β} {f : α → Reading γ} {g : β → Reading δ}
    (h : UpToWith err R r s) (hf : ∀ a b, R a b → UpToWith err Q (f a) (g b)) :
    UpToWith err Q (r >>= f) (s >>= g) := by
  intro c
  rcases h c with hlike | ⟨e, he, hs⟩
  · cases hr : r c with
    | error e =>
      rw [hr] at hlike
      generalize hs : s c = y at hlike
      cases hlike
      rw [bind_of_error hr, bind_of_error hs]
      exact .inl (.error e)
    | ok x =>
      rw [hr] at hlike
      generalize hs : s c = y at hlike
      cases hlike with
      | @ok x y hxy =>
        obtain ⟨a, c'⟩ := x
        obtain ⟨b, _⟩ := y
        obtain ⟨hab, rfl⟩ := hxy
        rw [bind_of_ok hr, bind_of_ok hs]
        exact hf a b hab c'
  · exact .inr ⟨e, he, bind_of_error hs⟩

/-- What follows a common step. -/
theorem after (r : Reading α) {f : α → Reading γ} {g : α → Reading δ}
    (hf : ∀ a, UpToWith err Q (f a) (g a)) : UpToWith err Q (r >>= f) (r >>= g) :=
  .bind (of_upTo (.refl r) fun _ => rfl) fun a _ hab => hab ▸ hf a

theorem failAt {line : Nat} {fault : SyntaxFault} :
    UpToWith err R (failAt line fault) (failAt line fault) :=
  fun _ => .inl (.error _)

theorem lift {x y : Except SyntaxError α} (h : y = x ∨ ∃ e, err e ∧ y = .error e) :
    UpToWith err Eq (StateT.lift x) (StateT.lift y) := by
  refine of_upTo (fun c => ?_) fun _ => rfl
  rcases h with rfl | ⟨e, he, rfl⟩
  · exact .inl rfl
  · exact .inr ⟨e, he, rfl⟩

end UpToWith

end Reading

open Reading

/-- The same for all readings of a level. -/
structure Level.UpTo (err : SyntaxError → Prop) (l m : Level) : Prop where
  expression : ∀ power, Reading.UpTo err (l.expression power) (m.expression power)
  block : ∀ nested, Reading.UpTo err (l.block nested) (m.block nested)
  attributeText : ∀ text line, m.attributeText text line = l.attributeText text line ∨
    ∃ e, err e ∧ m.attributeText text line = .error e
  power : m.power = l.power
  modifier? : m.modifier? = l.modifier?

variable {err : SyntaxError → Prop} {l m : Level}

namespace Level.UpTo

variable (h : l.UpTo err m)
include h

/-- To read the same or fail is a comparison of nodes that are equal. -/
def comparison : Comparison .equal (fun _ : Unit => l) fun _ => m where
  rel _ _ _ _ R r s := UpToWith err R (r ()) (s ())
  pure hab := fun _ => .inl (.ok ⟨hab, rfl⟩)
  bind := .bind
  failAt _ := .failAt
  look hf := fun c => hf c c.pending (Likeness.sees_equal c) c
  take hf := .after _ fun t => hf t trivial
  pass _ := .of_upTo (.refl _) fun _ => rfl
  owner hnone hsome := .after _ fun o => by
    cases o with
    | none => exact hnone
    | some p => exact hsome p p rfl rfl
  still hthere := .after _ fun o => by
    cases o with
    | none => exact .bind (R := fun _ _ => False) .failAt fun _ _ hfalse => hfalse.elim
    | some _ => exact hthere
  mark := .of_upTo (.refl _) fun _ => rfl
  record hb := by
    rw [Likeness.branch_eq hb]
    exact .of_upTo (.refl _) fun _ => rfl
  awaited hf hg hnext := .after _ fun _ => .bind (.of_upTo (h.block true) fun _ => rfl)
    fun body body' hbody => .after _ fun o => by
      cases o with
      | none =>
        rw [hf, hg]
        exact .failAt
      | some p =>
        exact hnext body body' p p hbody (Likeness.branches_equal p.branches)
  expression power := .of_upTo (h.expression power) fun _ => rel_self fun _ _ => rfl
  block nested := .of_upTo (h.block nested) fun _ => rfl
  attributeText hn _ := by
    cases hn
    exact .lift (h.attributeText _ _)
  power _ := ⟨_, fun _ => ⟨rfl, congrFun h.power _⟩⟩
  resolve hn := ⟨_, _, rfl, fun _ => ⟨rfl, by rw [← hn, Statement.resolve_congr h.modifier?]⟩⟩

theorem content (mode : OutputMode) : Reading.UpTo err (l.content mode) (m.content mode) := by
  refine (h.comparison.content (k := true) (w := true) mode).upTo fun o o' ho => eq_of_rel ho ?_
  rintro _ _ ⟨parts, parts', -, hparts, rfl, rfl⟩
  rw [parts_eq id hparts]

theorem blockOf (nested : Bool) : Reading.UpTo err (l.blockOf nested) (m.blockOf nested) :=
  (h.comparison.blockOf (k := true) (w := true) nested).upTo fun _ _ hn => hn

end Level.UpTo

/-! ## Elements -/

namespace Statement

/-- The header of an element is read alike until the second level fails. -/
theorem elementHeader_upTo (h : l.UpTo err m) :
    Reading.UpTo err (elementHeader l) (elementHeader m) := by
  have hheader : UpToWith err (fun x y => x.1 = y.1 ∧ List.Forall₂ Eq x.2 y.2)
      (elementHeader l) (elementHeader m) :=
    h.comparison.elementHeader (w := true)
  exact hheader.upTo fun _ _ hxy => Prod.ext hxy.1 (eq_of_forall₂ hxy.2 id)

/-- The word `elem` of the language itself, over two levels. -/
theorem element_upTo (h : l.UpTo err m) (t : Token) :
    Reading.UpTo err (element l t) (element m t) :=
  (h.comparison.element (w := true) t).upTo fun _ _ ho => eq_of_rel ho id

end Statement

/-! ## Expressions and levels -/

namespace Grammar

variable {onElem onElem' : PrefixRule}

/-- Standard grammars compare if their rules for elements do. -/
theorem grammars_of_upTo (h : l.UpTo err m)
    (helem : ∀ t, Reading.UpTo err (onElem l t) (onElem' m t)) :
    h.comparison.Grammars (standardWith onElem) (standardWith onElem') where
  power _ := by rw [power_standardWith, power_standardWith]
  opening {t} _ := by
    rcases opening?_cases t with ⟨-, ho⟩ | ⟨rule, hr, ho⟩ | ho
    · rw [ho, ho]
      exact .some fun {_} => .of_upTo (helem t) fun _ => rel_self fun _ _ => rfl
    · rw [ho, ho]
      exact .some fun {_} => h.comparison.opens hr trivial
    · rw [ho, ho]
      exact .none
  joining {t} _ := by
    rcases joining?_cases t with ⟨rule, hr, hj⟩ | hj
    · rw [hj, hj]
      exact .some fun {_ _ _} hn => h.comparison.joins hr trivial hn
    · rw [hj, hj]
      exact .none

/-- Grammars that differ in the word `elem` only, over two levels. -/
theorem expressionOf_upTo (h : l.UpTo err m)
    (helem : ∀ t, Reading.UpTo err (onElem l t) (onElem' m t)) (power : Nat) :
    Reading.UpTo err ((standardWith onElem).expressionOf l power)
      ((standardWith onElem').expressionOf m power) :=
  ((grammars_of_upTo h helem).expressionOf (k := true) (w := true) power).upTo fun _ _ ho =>
    eq_of_rel ho id

end Grammar

namespace Dialect

variable {d d' : Dialect} {onElem onElem' : PrefixRule}
variable {A A' : String → Nat → Except SyntaxError Node}

/-- Levels that start from related levels are related. -/
theorem levels_upTo (hg : d.grammar = .standardWith onElem)
    (hg' : d'.grammar = .standardWith onElem') (hm : d'.modifier? = d.modifier?)
    (helem : ∀ l m, l.UpTo err m → ∀ t, Reading.UpTo err (onElem l t) (onElem' m t))
    (hA : ∀ text line, A' text line = A text line ∨ ∃ e, err e ∧ A' text line = .error e)
    {n : Nat} (hlow : (d.levels A n).UpTo err (d'.levels A' 0)) (k : Nat) :
    (d.levels A (n + k)).UpTo err (d'.levels A' k) := by
  induction k with
  | zero => exact hlow
  | succ k ih =>
    refine ⟨fun power => ?_, fun nested => ih.blockOf nested, hA, ?_, hm⟩
    · change Reading.UpTo err (d.grammar.expressionOf _ power) (d'.grammar.expressionOf _ power)
      rw [hg, hg']
      exact Grammar.expressionOf_upTo ih (helem _ _ ih) power
    · change d'.grammar.power = d.grammar.power
      funext t
      rw [hg, hg', Grammar.power_standardWith, Grammar.power_standardWith]

/-- Lowest levels that refuse with the same message. -/
theorem levels_zero_upTo (hg : d.grammar = .standardWith onElem)
    (hg' : d'.grammar = .standardWith onElem') (hm : d'.modifier? = d.modifier?)
    (hdepth : d'.maxDepth = d.maxDepth)
    (hA : ∀ text line, A' text line = A text line ∨ ∃ e, err e ∧ A' text line = .error e) :
    (d.levels A 0).UpTo err (d'.levels A' 0) := by
  have hfail {α : Type} : Reading.UpTo err (Reading.fail (.tooDeep d.maxDepth) : Reading α)
      (Reading.fail (.tooDeep d'.maxDepth)) := by
    rw [hdepth]
    exact .refl _
  refine ⟨fun _ => hfail, fun _ => hfail, hA, ?_, hm⟩
  change d'.grammar.power = d.grammar.power
  funext t
  rw [hg, hg', Grammar.power_standardWith, Grammar.power_standardWith]

/-- The levels of dialects of one depth, whose rules for elements are related. -/
theorem levels_upTo_of_depth (hg : d.grammar = .standardWith onElem)
    (hg' : d'.grammar = .standardWith onElem') (hm : d'.modifier? = d.modifier?)
    (hdepth : d'.maxDepth = d.maxDepth)
    (helem : ∀ l m, l.UpTo err m → ∀ t, Reading.UpTo err (onElem l t) (onElem' m t))
    (hA : ∀ text line, A' text line = A text line ∨ ∃ e, err e ∧ A' text line = .error e)
    (k : Nat) : (d.levels A k).UpTo err (d'.levels A' k) := by
  have h := levels_upTo hg hg' hm helem hA (levels_zero_upTo hg hg' hm hdepth hA) k
  rw [Nat.zero_add] at h
  exact h

variable (hv : d'.grammar.vocabulary = d.grammar.vocabulary)
  (hlevels : ∀ A A', (∀ text line, A' text line = A text line ∨
    ∃ e, err e ∧ A' text line = .error e) →
    (d.levels A d.maxDepth).UpTo err (d'.levels A' d'.maxDepth))

include hv hlevels

/-- The texts of attributes are templates, so a dialect that refuses more refuses more of them. -/
theorem attributeText_upTo (budget : Nat) (text : String) (line : Nat) :
    d'.attributeText budget text line = d.attributeText budget text line ∨
      ∃ e, err e ∧ d'.attributeText budget text line = .error e := by
  induction budget generalizing text line with
  | zero => exact Or.inl rfl
  | succ budget ih =>
    rw [attributeText, attributeText, hv]
    cases Lexer.tokenizeFrom d.grammar.vocabulary text line with
    | error e =>
      left
      simp only [bind, Except.bind]
    | ok tokens =>
      rcases (hlevels _ _ ih).content .attribute (Cursor.ofTokens tokens) with h | ⟨e, he, h⟩
      · left
        simp only [bind, Except.bind, h]
      · refine Or.inr ⟨e, he, ?_⟩
        simp only [bind, Except.bind, h]

/-- **A stricter dialect reads the same or fails.** -/
theorem parse_upTo (ts : List Token) :
    d'.parse ts = d.parse ts ∨ ∃ e, err e ∧ d'.parse ts = .error e := by
  have hl := hlevels _ _ (attributeText_upTo hv hlevels (longestText ts + 1))
  rw [parse, parse, read, read, top, top]
  rcases hl.block false (Cursor.ofTokens ts) with h | ⟨e, he, h⟩
  · left
    rw [h]
  · refine Or.inr ⟨e, he, ?_⟩
    rw [h]
    rfl

end Dialect

end Stencil
