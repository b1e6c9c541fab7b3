import Mathlib
import Stencil.Proofs.Comparison.Rules
import Stencil.Proofs.Expression
import Stencil.Proofs.Lexing
import Stencil.Proofs.Tree
/-!
# How deep a template is

The limit of nesting counts the expressions and blocks that are read inside each other, not the
nodes that they leave. A word behind an operand puts a node around what was read before, so that a
row of operators goes down its left operands as far as it likes. Everything else is bounded: a level
leaves at most three nodes for two levels, and a string in an attribute, which starts again with all
levels, stands in a source no more than twice inside each other.
-/

namespace Stencil

namespace Node

/-- The operand that a word has found before it. -/
def leftOperand? : Node → Option Node
  | binary _ left _ => some left
  | conditional test _ _ => some test
  | member item _ => some item
  | path target _ => some target
  | index target _ => some target
  | call callee _ => some callee
  | filtered value _ => some value
  | _ => none

/-- The children of a node but its left operand. -/
def inner : Node → List Node
  | binary _ _ right => [right]
  | conditional _ whenTrue whenFalse => whenTrue :: whenFalse.toList
  | member _ container => [container]
  | path _ _ => []
  | index _ key => [key]
  | call _ args => args
  | filtered _ _ => []
  | n => n.children

theorem mem_children_iff {n m : Node} :
    m ∈ n.children ↔ n.leftOperand? = some m ∨ m ∈ n.inner := by
  cases n <;> simp [children, leftOperand?, inner, eq_comm]

section Formed

variable {below here : Place → Node → Node → Prop} {Text : String → Prop} {n n' m : Node}

/-- The operand before a word has been made by the rules of the same level. -/
theorem here_of_leftOperand? (h : Formed below here Text .operand n n')
    (hm : n.leftOperand? = some m) : ∃ m', here .operand m m' := by
  cases h with
  | binary op hleft _ => exact ⟨_, Option.some.inj hm ▸ hleft⟩
  | conditional htest _ _ => exact ⟨_, Option.some.inj hm ▸ htest⟩
  | path _ htarget => exact ⟨_, Option.some.inj hm ▸ htarget⟩
  | index htarget _ => exact ⟨_, Option.some.inj hm ▸ htarget⟩
  | member hitem _ => exact ⟨_, Option.some.inj hm ▸ hitem⟩
  | call hcallee _ => exact ⟨_, Option.some.inj hm ▸ hcallee⟩
  | filtered _ hvalue => exact ⟨_, Option.some.inj hm ▸ hvalue⟩
  | _ => cases hm

/-- All other parts of what stands in an expression are given by the level below. -/
theorem below_of_mem_inner (h : Formed below here Text .operand n n') :
    ∀ m ∈ n.inner, ∃ p m', below p m m' := by
  have hall : ∀ {p ns ns'}, List.Forall₂ (below p) ns ns' → ∀ m ∈ ns, ∃ p m', below p m m' :=
    fun h => forall_of_forall₂ h fun hm => ⟨_, _, hm⟩
  have hany : ∀ {p o o'}, Option.Rel (below p) o o' → ∀ m ∈ o.toList, ∃ p m', below p m m' := by
    intro p o o' ho
    cases ho with
    | none => nofun
    | some hm => exact List.forall_mem_singleton.2 ⟨_, _, hm⟩
  cases h with
  | leaf => nofun
  | binary op _ hright => exact List.forall_mem_singleton.2 ⟨_, _, hright⟩
  | negation hn => exact List.forall_mem_singleton.2 ⟨_, _, hn⟩
  | conditional _ htrue hfalse => exact List.forall_mem_cons.2 ⟨⟨_, _, htrue⟩, hany hfalse⟩
  | path => nofun
  | index _ hkey => exact List.forall_mem_singleton.2 ⟨_, _, hkey⟩
  | member _ hinside => exact List.forall_mem_singleton.2 ⟨_, _, hinside⟩
  | call _ hargs => exact hall hargs
  | filtered => nofun
  | assignment name hvalue => exact List.forall_mem_singleton.2 ⟨_, _, hvalue⟩
  | «attribute» name hvalue _ => exact List.forall_mem_singleton.2 ⟨_, _, hvalue⟩
  | attributeText name hvalue => exact List.forall_mem_singleton.2 ⟨_, _, hvalue⟩
  | array hitems => exact hall hitems
  | object hmembers =>
    refine List.forall_mem_flatMap.2 (forall_of_forall₂ hmembers ?_)
    rintro _ _ ⟨hkey, hvalue⟩
    exact List.forall_mem_cons.2 ⟨⟨_, _, hkey⟩, List.forall_mem_singleton.2 ⟨_, _, hvalue⟩⟩
  | choice hbranches =>
    refine List.forall_mem_flatMap.2 (forall_of_forall₂ hbranches ?_)
    rintro _ _ ⟨htest, hbody⟩
    exact List.forall_mem_append.2 ⟨hany htest, List.forall_mem_singleton.2 ⟨_, _, hbody⟩⟩
  | loop _ hsource hbody hother =>
    exact List.forall_mem_cons.2 ⟨⟨_, _, hsource⟩,
      List.forall_mem_cons.2 ⟨⟨_, _, hbody⟩, hany hother⟩⟩
  | loopOf _ hsource hbody =>
    exact List.forall_mem_cons.2 ⟨⟨_, _, hsource⟩, List.forall_mem_singleton.2 ⟨_, _, hbody⟩⟩
  | render => nofun
  | renderComputed htarget _ => exact List.forall_mem_singleton.2 ⟨_, _, htarget⟩
  | element tag hmodifiers => exact List.forall_mem_append.2 ⟨hall hmodifiers, nofun⟩
  | elementBlock tag hmodifiers hbody =>
    exact List.forall_mem_append.2
      ⟨hall hmodifiers, List.forall_mem_singleton.2 ⟨_, _, hbody⟩⟩
  | elementText tag hmodifiers hbody _ =>
    exact List.forall_mem_append.2
      ⟨hall hmodifiers, List.forall_mem_singleton.2 ⟨_, _, hbody⟩⟩

end Formed

/-- A way down from a node passes `nodes` nodes, the node itself among them; `lefts` of them are
left operands of the node before. -/
inductive Descent : Node → Nat → Nat → Prop
  | here (n : Node) : Descent n 1 0
  | left {n m : Node} {nodes lefts : Nat} : n.leftOperand? = some m → Descent m nodes lefts →
    Descent n (nodes + 1) (lefts + 1)
  | inner {n m : Node} {nodes lefts : Nat} : m ∈ n.inner → Descent m nodes lefts →
    Descent n (nodes + 1) lefts

/-- Every step from a node to one of its children goes on with a way down. -/
theorem Descent.child {n m : Node} {nodes lefts : Nat} (hm : m ∈ n.children)
    (h : Descent m nodes lefts) : ∃ lefts', Descent n (nodes + 1) lefts' := by
  rcases mem_children_iff.1 hm with hleft | hinner
  · exact ⟨_, .left hleft h⟩
  · exact ⟨_, .inner hinner h⟩

/-- Whether every way down from a node has, left operands aside, at most half of `bound` nodes. -/
def Within (bound : Nat) (n : Node) : Prop :=
  ∀ nodes lefts, n.Descent nodes lefts → 2 * nodes ≤ bound + 2 * lefts

theorem Within.mono {b b' : Nat} {n : Node} (h : n.Within b) (hle : b ≤ b') : n.Within b' := by
  intro nodes lefts hdown
  have hb := h nodes lefts hdown
  omega

/-- A node counts two for itself. A left operand stands in its place. -/
theorem Within.node {b : Nat} {n : Node} (hleft : ∀ m, n.leftOperand? = some m → m.Within (b + 2))
    (hinner : ∀ m ∈ n.inner, m.Within b) : n.Within (b + 2) := by
  intro nodes lefts hdown
  cases hdown with
  | here => omega
  | left hm hdown =>
    have hb := hleft _ hm _ _ hdown
    omega
  | inner hm hdown =>
    have hb := hinner _ hm _ _ hdown
    omega

end Node

/-- An empty line is one node. -/
theorem Node.within_output_nil (mode : OutputMode) : (Node.output mode []).Within 2 :=
  .node (by simp [leftOperand?]) (by simp [inner, children])

/-! ## What readings keep -/

/-- Whether the value of an attribute with this text is within a bound. -/
def Shallow (A : String → Nat → Except SyntaxError Node) (y : Nat) (text : String) : Prop :=
  ∀ line n, A text line = .ok n → n.Within y

/-- Whether the branches of a statement are within a bound. -/
def Pending.Within (b : Nat) (p : Pending) : Prop :=
  ∀ br ∈ p.branches, ∀ n ∈ br.test.toList ++ [br.body], n.Within b

/-- The strings that are left are shallow, and what the waiting statements have found is within
their bounds. -/
structure Cursor.Holds (A : String → Nat → Except SyntaxError Node) (y : Nat) (bs : List Nat)
    (c : Cursor) : Prop where
  strings : ∀ t ∈ c.tokens, t.kind = .string → Shallow A y t.text
  pending : List.Forall₂ Pending.Within bs c.pending

variable {A : String → Nat → Except SyntaxError Node} {y x : Nat} {bs : List Nat}

/-- What is left of the tokens has no other strings. -/
theorem Cursor.Holds.moveTo {c : Cursor} (h : c.Holds A y bs) {rest : List Token}
    (hsub : rest <:+ c.tokens) : (c.moveTo rest).Holds A y bs :=
  ⟨fun t ht => h.strings t (hsub.subset ht), h.pending⟩

namespace Reading

variable {α β σ : Type} {P : α → Prop} {R : β → Prop} {r s : Reading α}

/-- Whether a reading, where it succeeds, keeps the bounds and gives a result with `P`. -/
def Keeps (A : String → Nat → Except SyntaxError Node) (y : Nat) (bs : List Nat) (P : α → Prop)
    (r : Reading α) : Prop :=
  ∀ c : Cursor, c.Holds A y bs → ∀ a c', r c = .ok (a, c') → c'.Holds A y bs ∧ P a

namespace Keeps

theorem pure {a : α} (h : P a) : Keeps A y bs P (pure a) := by
  intro c hc b c' hr
  obtain ⟨rfl, rfl⟩ := pure_eq_ok.1 hr
  exact ⟨hc, h⟩

theorem failAt {line : Nat} {fault : SyntaxFault} : Keeps A y bs P (failAt line fault) :=
  fun _ _ _ _ hr => absurd hr failAt_ne_ok

/-- A level that refuses everything keeps any bound. -/
theorem fail {fault : SyntaxFault} : Keeps A y bs P (fail fault) :=
  fun _ _ _ _ hr => absurd hr fail_ne_ok

theorem mono {P' : α → Prop} (h : Keeps A y bs P r) (hP : ∀ a, P a → P' a) :
    Keeps A y bs P' r := by
  intro c hc a c' hr
  obtain ⟨hc', ha⟩ := h c hc a c' hr
  exact ⟨hc', hP a ha⟩

theorem bind {f : α → Reading β} (h : Keeps A y bs P r) (hf : ∀ a, P a → Keeps A y bs R (f a)) :
    Keeps A y bs R (r >>= f) := by
  intro c hc b c' hb
  obtain ⟨a, c₁, hr, hb⟩ := bind_eq_ok.1 hb
  obtain ⟨hc₁, ha⟩ := h c hc a c₁ hr
  exact hf a ha c₁ hc₁ b c' hb

theorem get {f : Cursor → Reading β} (h : ∀ d, d.Holds A y bs → Keeps A y bs R (f d)) :
    Keeps A y bs R (get >>= f) := by
  intro c hc b c' hb
  exact h c hc c hc b c' hb

/-- A string that is taken is one of those that have been known. -/
theorem advance : Keeps A y bs (fun t => t.kind = .string → Shallow A y t.text) advance := by
  intro c hc t c' hr
  obtain ⟨rest, htok, rfl⟩ := advance_eq_ok.1 hr
  exact ⟨hc.moveTo (htok ▸ List.suffix_cons t rest), hc.strings t (htok ▸ List.mem_cons_self)⟩

theorem owner : Keeps A y bs (fun _ => True) owner? := by
  intro c hc o c' hr
  obtain ⟨-, rfl⟩ := owner?_eq_ok.1 hr
  exact ⟨hc, trivial⟩

/-- A change of the innermost waiting statement that respects its bound. -/
theorem amend {f : Pending → Pending} (hf : ∀ b ∈ bs, ∀ p : Pending, p.Within b → (f p).Within b) :
    Keeps A y bs (fun _ => True) (amend f) := by
  intro c hc u c' hr
  have hpending := hc.pending
  cases hp : c.pending with
  | nil =>
    rw [amend_of_nil hp, Except.ok.injEq, Prod.mk.injEq] at hr
    exact ⟨hr.2 ▸ hc, trivial⟩
  | cons p ps =>
    rw [amend_of_cons hp, Except.ok.injEq, Prod.mk.injEq] at hr
    rw [hp] at hpending
    cases hpending with
    | cons hhead htail =>
      refine ⟨hr.2 ▸ ⟨hc.strings, .cons ?_ htail⟩, trivial⟩
      exact hf _ List.mem_cons_self p hhead

/-- To pass over tokens leaves fewer of them. -/
theorem dropWhile (p : Token → Bool) : Keeps A y bs (fun _ => True)
    (modify fun c => { c with tokens := c.tokens.dropWhile p } : Reading Unit) := by
  intro c hc u c' hr
  cases hr
  exact ⟨hc.moveTo (List.dropWhile_suffix p), trivial⟩

/-- The block of a statement that waits, and what the statement has found when it is read. -/
theorem awaited {kind : Compound} {b : Nat} {body : Reading α} {f : α → Option Pending → Reading β}
    (hbody : Keeps A y (b :: bs) P body)
    (hf : ∀ a p, P a → p.Within b → Keeps A y bs R (f a (some p))) :
    Keeps A y bs R (await kind >>= fun _ => body >>= fun a => settle? >>= fun o => f a o) := by
  intro c hc r c' hr
  rw [bind_of_ok (await_apply kind)] at hr
  obtain ⟨a, c₂, hblock, hend⟩ := bind_eq_ok.1 hr
  have hopened : (c.withPending (.new kind :: c.pending)).Holds A y (b :: bs) :=
    ⟨hc.strings, .cons (by simp [Pending.Within, Pending.new]) hc.pending⟩
  obtain ⟨hc₂, ha⟩ := hbody _ hopened _ _ hblock
  have hpending := hc₂.pending
  cases hp : c₂.pending with
  | nil =>
    rw [hp] at hpending
    cases hpending
  | cons p ps =>
    rw [hp] at hpending
    cases hpending with
    | cons hhead htail =>
      rw [bind_of_ok (settle?_of_cons hp)] at hend
      have hafter : (c₂.withPending ps).Holds A y bs := ⟨hc₂.strings, htail⟩
      exact hf a p ha hhead _ hafter r c' hend

/-- A value that is found apart from the cursor has to be known. -/
theorem lift {e : Except SyntaxError α} (he : ∀ a, e = .ok a → P a) :
    Keeps A y bs P (StateT.lift e) := by
  intro c hc a c' hr
  cases e with
  | error err => cases hr
  | ok b =>
    cases hr
    exact ⟨hc, he _ rfl⟩

end Keeps

end Reading

open Reading

/-- What an expression leaves: a node within a bound, and if it is a string, one whose value as an
attribute is within the bound for children of the next level. -/
structure Node.Fine (A : String → Nat → Except SyntaxError Node) (x : Nat) (n : Node) : Prop where
  within : n.Within x
  string : ∀ text, n = .leaf (.string text) → Shallow A (x + 1) text

/-- A string that is shallow for one bound is so for a greater one. -/
theorem Node.Fine.mono {n : Node} {x' : Nat} (h : n.Fine A x) (hle : x ≤ x') : n.Fine A x' :=
  ⟨h.within.mono hle, fun text hn line m hm =>
    (h.string text hn line m hm).mono (Nat.add_le_add_right hle 1)⟩

/-- The bounds of a level: `x` for an expression, one more for a block. -/
structure Level.Bounded (A : String → Nat → Except SyntaxError Node) (y x : Nat) (l : Level) :
    Prop where
  expression : ∀ power bs, (∀ b ∈ bs, x + 1 ≤ b) →
    Keeps A y bs (fun o => ∀ n, o = some n → n.Fine A x) (l.expression power)
  block : ∀ nested bs, (∀ b ∈ bs, x + 1 ≤ b) →
    Keeps A y bs (fun n => n.Within (x + 1)) (l.block nested)
  attributeText : l.attributeText = A

/-! ## The comparison -/

namespace Place

/-- The bounds of what the level below gives. -/
def Given (A : String → Nat → Except SyntaxError Node) (x : Nat) : Place → Node → Prop
  | operand, n => n.Fine A x
  | modifier, n => n.Within x
  | child, n => n.Within x
  | test, n => n.Within (x + 1)
  | block, n => n.Within (x + 1)
  | value, n => n.Within (x + 1)

/-- The bounds of what the rules make of it. -/
def Made (A : String → Nat → Except SyntaxError Node) (x : Nat) : Place → Node → Prop
  | operand, n => n.Fine A (x + 3)
  | modifier, n => n.Within (x + 3)
  | test, n => n.Within (x + 3)
  | child, n => n.Within (x + 2)
  | value, n => n.Within (x + 2)
  | block, n => n.Within (x + 4)

variable {p : Place} {n : Node}

/-- Whatever its place, what the level below gives stands no deeper than a block. -/
theorem Given.within (h : p.Given A x n) : n.Within (x + 1) := by
  cases p with
  | operand => exact (Node.Fine.within h).mono (Nat.le_add_right x 1)
  | modifier => exact Node.Within.mono h (Nat.le_add_right x 1)
  | child => exact Node.Within.mono h (Nat.le_add_right x 1)
  | test => exact h
  | block => exact h
  | value => exact h

/-- What is given may also stand where something is made. -/
theorem Given.made (h : p.Given A x n) : p.Made A x n := by
  cases p with
  | operand => exact Node.Fine.mono h (Nat.le_add_right x 3)
  | modifier => exact h.within.mono (by omega)
  | test => exact h.within.mono (by omega)
  | child => exact h.within.mono (by omega)
  | value => exact h.within.mono (by omega)
  | block => exact h.within.mono (by omega)

end Place

namespace Node

/-- A line leaves one node above its parts. -/
theorem within_output {mode : OutputMode} {parts parts' : List Part}
    (h : List.Forall₂ (Part.Formed fun p n n' => n = n' ∧ p.Given A x n) parts parts') :
    (output mode parts).Within (x + 2) := by
  refine .node nofun (List.forall_mem_filterMap.2 (forall_of_forall₂ h ?_))
  rintro _ _ (s | hn) m hm
  · cases hm
  · obtain rfl := Option.some.inj hm
    exact Fine.within hn.2

/-- What a rule puts together is within the bounds: a left operand stands in the place of the node,
everything else comes from the level below. -/
theorem made_of_formed (hy : y ≤ x + 4) {p : Place} {n n' : Node}
    (h : Formed (fun p n n' => n = n' ∧ p.Given A x n) (fun p n n' => n = n' ∧ p.Made A x n)
      (Shallow A y) p n n') : p.Made A x n := by
  cases p with
  | operand =>
    refine ⟨.node (fun m hm => ?_) fun m hm => ?_, ?_⟩
    · obtain ⟨m', hm'⟩ := here_of_leftOperand? h hm
      exact hm'.2.within
    · obtain ⟨p, m', hm'⟩ := below_of_mem_inner h m hm
      exact hm'.2.within
    · rintro text rfl
      cases h with
      | leaf htext => exact fun line m hm => (htext text rfl line m hm).mono hy
  | child =>
    cases h with
    | line _ hparts => exact within_output hparts
    | child hn => exact hn.2.within.mono (by omega)
  | block =>
    cases h with
    | block hchildren => exact .node nofun (forall_of_forall₂ hchildren fun hn => hn.2)
  | value =>
    cases h with
    | text hparts => exact within_output hparts
  | test => cases h
  | modifier => cases h

/-- A node is related to itself if it is within the bounds of its place. -/
def likeness (A : String → Nat → Except SyntaxError Node) (hy : y ≤ x + 4) : Likeness where
  toWatch := .ofTokens fun t => t.kind = .string → Shallow A y t.text
  Text := Shallow A y
  below p n n' := n = n' ∧ p.Given A x n
  here p n n' := n = n' ∧ p.Made A x n
  text_of_known h hkind := h hkind
  lift h := ⟨h.1, h.2.made⟩
  test h := ⟨h.1, h.2.within⟩
  formed h := ⟨eq_of_formed And.left And.left h, made_of_formed hy h⟩
  kindName h := h.1 ▸ rfl
  leaf h l := by rw [h.1]

end Node

/-- A function in the place of a name has no children either. -/
theorem Statement.within_resolve {l : Level} {b : Nat} {n : Node} (hn : n.Within b) :
    (resolve l n).Within b := by
  unfold resolve
  split
  · next id args =>
    cases l.modifier? id with
    | none => exact hn
    | some f =>
      intro nodes lefts hdown
      cases hdown with
      | here => exact hn _ _ (.here _)
      | inner hm hdown => exact hn _ _ (.inner hm hdown)
      | left hm hdown =>
        obtain rfl := Option.some.inj hm
        cases hdown with
        | here => exact hn _ _ (.left rfl (.here _))
        | inner hm => cases hm
        | left hm => cases hm
  · exact hn

namespace Level.Bounded

variable {l : Level} (h : l.Bounded A y x) (hy : y ≤ x + 4)

/-- To keep the bounds is a comparison of every reading with itself. -/
def comparison : Comparison (Node.likeness A hy) (fun _ : Unit => l) fun _ => l where
  rel _ _ _ _ R r _ := ∀ bs, (∀ b ∈ bs, x + 1 ≤ b) → Keeps A y bs (fun a => ∃ b, R a b) (r ())
  pure hab _ _ := .pure ⟨_, hab⟩
  bind hr hf bs hbs := (hr bs hbs).bind fun a ⟨b, hab⟩ => hf a b hab bs hbs
  failAt _ _ _ := .failAt
  look hf bs hbs := .get fun d hd => hf d d.pending ⟨rfl, hd.strings, trivial⟩ bs hbs
  take hf bs hbs := .bind .advance fun t ht => hf t ht bs hbs
  pass p _ _ := .mono (.dropWhile p) fun u _ => ⟨u, rfl⟩
  owner hnone hsome bs hbs := .bind .owner fun o _ => by
    cases o with
    | none => exact hnone bs hbs
    | some p => exact hsome p p rfl rfl bs hbs
  still hthere bs hbs := .bind .owner fun o _ => by
    cases o with
    | none => exact .bind (P := fun _ => False) .failAt fun _ hfalse => hfalse.elim
    | some _ => exact hthere bs hbs
  mark _ _ := .mono (.amend fun _ _ _ hp => hp) fun u _ => ⟨u, rfl⟩
  record hb bs hbs := by
    refine .mono (.amend fun b hmem p hp => List.forall_mem_cons.2 ⟨?_, hp⟩) fun u _ => ⟨u, rfl⟩
    obtain ⟨htest, hbody⟩ := hb
    have hle := hbs b hmem
    refine List.forall_mem_append.2 ⟨?_, List.forall_mem_singleton.2 (hbody.2.within.mono hle)⟩
    cases htest with
    | none => nofun
    | some hn => exact List.forall_mem_singleton.2 (hn.2.within.mono hle)
  awaited _ _ hnext bs hbs := by
    have hbounds := List.forall_mem_cons.2 ⟨Nat.le_refl _, hbs⟩
    refine .awaited (h.block true _ hbounds) fun body p hbody hp => ?_
    refine hnext body body p p ⟨rfl, hbody⟩ (List.forall₂_same.2 fun br hbr => ?_) bs hbs
    obtain ⟨test, body⟩ := br
    have hparts := List.forall_mem_append.1 (hp _ hbr)
    refine .mk (rel_self fun n hn => ⟨rfl, hparts.1 n (Option.mem_toList.2 hn)⟩) ⟨rfl, ?_⟩
    exact List.forall_mem_singleton.1 hparts.2
  expression power bs hbs := .mono (h.expression power bs hbs) fun o ho =>
    ⟨o, rel_self fun n hn => ⟨rfl, ho n hn⟩⟩
  block nested bs hbs := .mono (h.block nested bs hbs) fun n hn => ⟨n, rfl, hn⟩
  attributeText hn _ _ _ := by
    rw [h.attributeText]
    exact .lift fun n hread => ⟨n, rfl, hn.2.string _ rfl _ n hread⟩
  power _ := ⟨_, fun _ => ⟨rfl, rfl⟩⟩
  resolve hn := ⟨_, _, ⟨congrArg _ hn.1, Statement.within_resolve (Node.Fine.within hn.2)⟩,
    fun _ => ⟨rfl, rfl⟩⟩

variable (hbs : ∀ b ∈ bs, x + 1 ≤ b)
include h hy hbs

/-- A line is one node above its expressions. -/
theorem content (mode : OutputMode) :
    Keeps A y bs (fun o => ∀ n, o = some n → n.Within (x + 2)) (l.content mode) := by
  refine ((h.comparison hy).content (k := true) (w := true) mode bs hbs).mono ?_
  rintro _ ⟨_, hline⟩ n rfl
  cases hline with
  | some hline =>
    obtain ⟨parts, parts', -, hparts, rfl, -⟩ := hline
    exact Node.within_output hparts

/-- A block is one node above its lines. -/
theorem blockOf (nested : Bool) : Keeps A y bs (fun n => n.Within (x + 4)) (l.blockOf nested) :=
  ((h.comparison hy).blockOf (k := true) (w := true) nested bs hbs).mono fun _ ⟨_, hn⟩ => hn.2

/-- An expression is one node above its parts, and so it may have three halves of a node for two
levels. -/
theorem expressionOf {g : Grammar} (hg : g.HasStandardRules) (power : Nat) :
    Keeps A y bs (fun o => ∀ n, o = some n → n.Fine A (x + 3)) (g.expressionOf l power) := by
  have hgrammars := (h.comparison hy).grammars_of_standard hg fun _ _ => rfl
  refine (hgrammars.expressionOf (k := true) (w := true) power bs hbs).mono ?_
  rintro _ ⟨_, ho⟩ n rfl
  cases ho with
  | some hn => exact hn.2

end Level.Bounded

/-- There are two quotes. -/
theorem Lexer.eq_of_isQuote {p p' q : Char} (hp : isQuote p = true) (hp' : isQuote p' = true)
    (hq : isQuote q = true) (hne : p ≠ q) (hne' : p' ≠ q) : p = p' := by
  simp only [isQuote, Bool.or_eq_true, beq_iff_eq] at hp hp' hq
  rcases hp with rfl | rfl <;> rcases hp' with rfl | rfl <;> rcases hq with rfl | rfl <;>
    first | rfl | exact absurd rfl hne | exact absurd rfl hne'

namespace Dialect

variable {d : Dialect}

/-- The bound of a level is three halves of a node for each level below it, and a constant for the
attributes. -/
theorem levels_bounded (hd : d.grammar = .standard) {extra : Nat} (k : Nat) :
    (d.levels A k).Bounded A (extra + 4) (3 * k + extra) := by
  induction k with
  | zero => exact ⟨fun _ _ _ => .fail, fun _ _ _ => .fail, rfl⟩
  | succ k ih =>
    have hx : 3 * (k + 1) + extra = 3 * k + extra + 3 := by omega
    rw [hx]
    refine ⟨fun power bs hbs => ?_, fun nested bs hbs => ?_, rfl⟩
    · rw [expression_levels_succ, hd]
      exact ih.expressionOf (by omega) (fun b hb => Nat.le_trans (by omega) (hbs b hb))
        Grammar.hasStandardRules_standard power
    · exact ih.blockOf (by omega) (fun b hb => Nat.le_trans (by omega) (hbs b hb)) nested

/-- A string in an attribute is as deep as a line that is read with all levels. -/
theorem attributeText_within (hd : d.grammar = .standard) (extra : Nat) {budget line : Nat}
    {text : String} {n : Node} (hshallow : ∀ s, Lexer.IsQuoted text.toList s.toList →
      Shallow (d.attributeText budget) (extra + 4) s)
    (h : d.attributeText (budget + 1) text line = .ok n) :
    n.Within (3 * d.maxDepth + extra + 2) := by
  obtain ⟨tokens, o, c', htokens, hcontent, rfl⟩ := attributeText_eq_ok.1 h
  have hholds : (Cursor.ofTokens tokens).Holds (d.attributeText budget) (extra + 4) [] := by
    refine ⟨fun t ht hk => hshallow t.text ?_, .nil⟩
    rw [hd, Grammar.vocabulary_standard] at htokens
    exact Lexer.isQuoted_of_tokenizeFrom Vocabulary.not_string htokens
      ((List.takeWhile_prefix _).subset ht) hk
  obtain ⟨-, hwithin⟩ := (levels_bounded hd d.maxDepth).content (by omega) (by simp) .attribute _
    hholds _ _ hcontent
  cases o with
  | none => exact (Node.within_output_nil _).mono (Nat.le_add_left 2 _)
  | some n => exact hwithin n rfl

/-- A text with neither of the two quotes holds no strings. -/
theorem shallow_of_unquoted (hd : d.grammar = .standard) {text : String}
    (h : ∀ q, Lexer.isQuote q = true → q ∉ text.toList) (budget : Nat) :
    Shallow (d.attributeText budget) (3 * d.maxDepth + 2) text := by
  intro line n hn
  cases budget with
  | zero =>
    cases hn
    exact (Node.within_output_nil _).mono (Nat.le_add_left 2 _)
  | succ budget =>
    refine attributeText_within hd 0 (fun s hs => ?_) hn
    obtain ⟨q, hq, hquote, -⟩ := hs.quote
    exact absurd hq (h q hquote)

/-- In a text between quotes only the other quote can stand, so that a string in it has neither. -/
theorem shallow_of_quoted (hd : d.grammar = .standard) (hpos : 0 < d.maxDepth)
    {source : List Char} {text : String} (h : Lexer.IsQuoted source text.toList) (budget : Nat) :
    Shallow (d.attributeText budget) (6 * d.maxDepth) text := by
  intro line n hn
  cases budget with
  | zero =>
    cases hn
    exact (Node.within_output_nil _).mono (by omega)
  | succ budget =>
    obtain ⟨q, -, hquote, hq⟩ := h.quote
    have hwithin : n.Within (3 * d.maxDepth + (3 * d.maxDepth - 2) + 2) := by
      refine attributeText_within hd _ (fun s hs => ?_) hn
      obtain ⟨q', hq', hquote', hnot⟩ := hs.quote
      have hneither : ∀ p, Lexer.isQuote p = true → p ∉ s.toList := by
        intro p hp hmem
        have hpq : p ≠ q := fun heq => hq (heq ▸ hs.chars hmem)
        have hqq' : q' ≠ q := fun heq => hq (heq ▸ hq')
        exact hnot (Lexer.eq_of_isQuote hp hquote' hquote hpq hqq' ▸ hmem)
      have hextra : 3 * d.maxDepth - 2 + 4 = 3 * d.maxDepth + 2 := by omega
      rw [hextra]
      exact shallow_of_unquoted hd hneither budget
    exact hwithin.mono (by omega)

/-- **How deep a template is.** On every way down a template, the nodes that are not left operands
of the node before are at most four and a half for each level that the limit of nesting allows. -/
theorem descent_le (hd : d.grammar = .standard) {source : String} {n : Node}
    (h : d.parseSource source = .ok n) {nodes lefts : Nat} (hdown : n.Descent nodes lefts) :
    2 * nodes + 3 ≤ 9 * d.maxDepth + 2 * lefts := by
  obtain ⟨tokens, htokens, hparse⟩ := parseSource_eq_ok.1 h
  obtain ⟨c', hread⟩ := parse_eq_ok.1 hparse
  have hpos : 0 < d.maxDepth := by
    refine Nat.pos_of_ne_zero fun hzero => ?_
    rw [top, hzero] at hread
    exact Reading.fail_ne_ok hread
  have hextra : 6 * d.maxDepth - 4 + 4 = 6 * d.maxDepth := by omega
  have hholds : (Cursor.ofTokens tokens).Holds (d.attributeText (longestText tokens + 1))
      (6 * d.maxDepth - 4 + 4) [] := by
    refine ⟨fun t ht hk => ?_, .nil⟩
    rw [hd, Grammar.vocabulary_standard] at htokens
    rw [hextra]
    exact shallow_of_quoted hd hpos (Lexer.isQuoted_of_tokenizeFrom Vocabulary.not_string htokens
      ((List.takeWhile_prefix _).subset ht) hk) _
  obtain ⟨-, hwithin⟩ := (levels_bounded hd d.maxDepth).block false [] (by simp) _ hholds _ _ hread
  have hbound := hwithin nodes lefts hdown
  omega

/-- Three numbers in a row. -/
theorem descent_le_sums :
    let d : Dialect := ⟨.standard, fun _ => none, 3⟩
    let number (i : Int64) : Node := .leaf (.number (.number (.int i)))
    let sum : Node := .binary .add (.binary .add (number 1) (number 2)) (number 3)
    let n : Node := .block [.output .content [.expr sum]]
    d.parseSource "@1 + 2 + 3" = .ok n ∧ n.Descent 5 2 ∧ 2 * 5 + 3 ≤ 9 * d.maxDepth + 2 * 2 := by
  intro d number sum n
  have hparse : d.parseSource "@1 + 2 + 3" = .ok n := by cbv
  have hdown : n.Descent 5 2 := .inner List.mem_cons_self <| .inner List.mem_cons_self <|
    .left rfl <| .left rfl <| .here (number 1)
  exact ⟨hparse, hdown, descent_le rfl hparse hdown⟩

/-- The numbers from one on, added from the left. -/
def sumTo : Nat → Node
  | 0 => .leaf (.number (.ofNat 1))
  | k + 1 => .binary .add (sumTo k) (.leaf (.number (.ofNat (k + 2))))

/-- A row of sums is as deep as it is long, and all of that is left operands. -/
theorem descent_sumTo (k : Nat) : (sumTo k).Descent (k + 1) k := by
  induction k with
  | zero => exact .here _
  | succ k ih => exact .left rfl ih

/-- A node in the line of a choice, which stands in the line of a choice, and so on. -/
def nested : Nat → Node → Node
  | 0, n => n
  | k + 1, n => .choice [.mk (some (.leaf (.name "a")))
      (.block [.output .content [.text "x", .expr (nested k n)]])]

/-- Each choice in a choice adds three nodes: itself, its block and the line in it. -/
theorem descent_nested {n : Node} {nodes : Nat} (h : n.Descent nodes 0) (k : Nat) :
    (nested k n).Descent (nodes + 3 * k) 0 := by
  induction k with
  | zero => exact h
  | succ k ih =>
    have hbody : (.block [.output .content [.text "x", .expr (nested k n)]] : Node).Descent
        (nodes + 3 * k + 1 + 1) 0 := .inner List.mem_cons_self (.inner List.mem_cons_self ih)
    exact .inner (List.mem_cons_of_mem _ List.mem_cons_self) hbody

set_option maxRecDepth 4000 in
/-- Four nodes for each level are not enough: a row of operators is deeper, and strings in
attributes make a template deeper without any left operand. -/
theorem exists_descent_beyond :
    let shallow : Dialect := ⟨.standard, fun _ => none, 3⟩
    let deep : Dialect := ⟨.standard, fun _ => none, 14⟩
    (∃ n, shallow.parseSource "@1 + 2 + 3 + 4 + 5 + 6 + 7 + 8 + 9 + 10 + 11 + 12 + 13 + 14 + 15 + 16"
        = .ok n ∧ n.Descent 18 15 ∧ 4 * (shallow.maxDepth + 1) < 18) ∧
      ∃ n, deep.parseSource "x @if a:x@if a:x@if a:x@if a:x@if a:x@not i=\"@if a:x@if a:x@if a:x@if a:x@if a:x@if a:x@i='@if a:x@if a:x@if a:x@if a:x@if a:x@if a:x@if a:x @end @end @end @end @end @end @end' @end @end @end @end @end @end\" @end @end @end @end @end" = .ok n ∧
        n.Descent 61 0 ∧ 4 * (deep.maxDepth + 1) < 61 := by
  intro shallow deep
  let text (n : Node) : Node := .output .attribute (.expr n :: [])
  let last : Node :=
    .choice [.mk (some (.leaf (.name "a"))) (.block [.output .content [.text "x"]])]
  have hlast : last.Descent 3 0 := .inner (List.mem_cons_of_mem _ List.mem_cons_self) <|
    .inner List.mem_cons_self (.here _)
  have hattribute : ∀ {n : Node} {nodes : Nat}, n.Descent nodes 0 →
      (Node.attribute "i" (text n)).Descent (nodes + 1 + 1) 0 :=
    fun h => .inner List.mem_cons_self (.inner List.mem_cons_self h)
  have hline : ∀ {n : Node} {nodes : Nat} {lefts : Nat} {parts : List Part}, n.Descent nodes lefts →
      .expr n ∈ parts →
      (Node.block [.output .content parts]).Descent (nodes + 1 + 1) lefts :=
    fun h hn => .inner List.mem_cons_self (.inner (List.mem_filterMap.2 ⟨_, hn, rfl⟩) h)
  refine ⟨⟨.block [.output .content [.expr (sumTo 15)]], by cbv, ?_, by decide⟩,
    .block [.output .content [.text "x", .expr (nested 5 (.negation (.attribute "i" (text
      (nested 6 (.attribute "i" (text (nested 6 last))))))))]], by cbv, ?_, by decide⟩
  · exact hline (descent_sumTo 15) List.mem_cons_self
  · have hinner := hattribute (descent_nested (hattribute (descent_nested hlast 6)) 6)
    have hoperand : (Node.negation (.attribute "i" (text (nested 6 (.attribute "i" (text
        (nested 6 last))))))).Descent _ 0 := .inner List.mem_cons_self hinner
    exact hline (descent_nested hoperand 5) (List.mem_cons_of_mem _ List.mem_cons_self)

end Dialect

end Stencil
