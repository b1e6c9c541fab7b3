import Stencil.Proofs.Variables
/-!
# Inlining

A template that renders another one could as well contain it, as a branch that is always taken.
The other template would then begin with a copy of the frame in use on top of the frames before,
and not with that frame alone; but an evaluation sees no more than the frame on top, and both
leave it behind. So the two are not only alike, they are the same, and may be put in the place of
each other wherever they stand.
-/

namespace Stencil

open Rendering

mutual

/-- The second node is the first one, where in some of its blocks, at any depth, a child that
renders the template `t` may have given way to its root, as the body of a branch without a test. -/
inductive Node.Inlined (t : String) (root : Node) : Node → Node → Prop
  | same (n : Node) : Inlined t root n n
  | inside {n n' : Node} : Node.Matched (Node.Inlined t root) n n' → Inlined t root n n'
  | block {ns ns' : List Node} : List.Forall₂ (Node.InlinedChild t root) ns ns' →
    Inlined t root (.block ns) (.block ns')

/-- The same for the children of a block. -/
inductive Node.InlinedChild (t : String) (root : Node) : Node → Node → Prop
  | node {n n' : Node} : Node.Inlined t root n n' → InlinedChild t root n n'
  | here : InlinedChild t root (.render t) (.choice [.mk none root])

end

namespace Node

variable {t : String} {root n n' : Node}

/-- A single child of a block is inlined. -/
theorem Inlined.child (t : String) (root : Node) (before after : List Node) :
    Inlined t root (.block (before ++ .render t :: after))
      (.block (before ++ .choice [.mk none root] :: after)) := by
  have hsame : ∀ ns, List.Forall₂ (InlinedChild t root) ns ns :=
    fun ns => List.forall₂_same.2 fun n _ => .node (.same n)
  exact .block (List.rel_append (hsame before) (.cons .here (hsame after)))

/-- A line, a path or a leaf is never what is replaced, so errors call nodes as before. -/
theorem Inlined.describe (h : Inlined t root n n') : n.describe = n'.describe := by
  induction n using Node.describe.induct generalizing n' with
  | case1 l =>
    cases h with
    | same => rfl
    | inside h =>
      cases h
      rfl
  | case2 target segments ih =>
    cases h with
    | same => rfl
    | inside h =>
      cases h with
      | path _ htarget => rw [Node.describe, Node.describe, ih htarget]
  | case3 n hleaf hpath =>
    cases h with
    | same => rfl
    | block _ => rfl
    | inside h =>
      cases h with
      | leaf l => exact absurd rfl (hleaf l)
      | path segments _ => exact absurd rfl (hpath _ segments)
      | _ => rfl

theorem Inlined.resembles (h : Inlined t root n n') : n.Resembles n' := by
  refine ⟨?_, h.describe, fun l => ?_⟩
  · cases h with
    | same => rfl
    | block _ => rfl
    | inside h => cases h <;> rfl
  · cases h with
    | same => exact Iff.rfl
    | block _ => exact ⟨nofun, nofun⟩
    | inside h =>
      cases h with
      | leaf l' => exact Iff.rfl
      | _ => exact ⟨nofun, nofun⟩

theorem InlinedChild.isOutput_eq (h : InlinedChild t root n n') : n.isOutput = n'.isOutput := by
  cases h with
  | node h => exact h.resembles.isOutput
  | here => rfl

end Node

/-! ## A template and a body -/

namespace Rendering

variable {α : Type} {m m' : Rendering α} {frames : Frame → Frame → Prop}

/-- What has done the same in two scopes is the same when these are left. -/
theorem Agree.inScope_eq {r : Run} {scope scope' : Scope}
    (h : Agree (Run.Same frames) (m { r with scope }) (m' { r with scope := scope' })) :
    Rendering.inScope scope m r = Rendering.inScope scope' m' r := by
  change thenScope m (fun _ => r.scope) { r with scope } =
    thenScope m' (fun _ => r.scope) { r with scope := scope' }
  unfold thenScope
  generalize m { r with scope } = x at h ⊢
  generalize m' { r with scope := scope' } = y at h ⊢
  cases h with
  | ok a h => simp only [h.edits, h.next, h.turns]
  | error err h => simp only [h.edits, h.next, h.turns]

end Rendering

namespace Engine

/-- **A template is evaluated like a body**, in a copy of the frame in use. -/
theorem evalTemplate_eq_evalBody (e : Engine) {t : String} {root : Node}
    (h : e.template? t = some root) (levels : Nat) (c : NodeId) :
    e.evalTemplate (e.eval levels) t c = evalBody (e.eval levels) c root := by
  let m : Rendering Unit := do
    let _ ← e.eval levels root c
  have hcauses : Causes e (fun _ => True) c m :=
    .bind (causes_eval_any e levels root c) fun _ => .pure ()
  -- all names have their values from the frame on top
  let frames := Frame.AgreeOn fun _ => True
  let sim := Simulation.ofFrames e e.globals frames fun name v hf => hf.insert name v
  have hroot : sim.congruence.On levels (0 + levels) root root :=
    sim.congruence.rel_eval (P := fun _ => True) (fun _ _ _ _ => trivial) (.of_eq fun _ => rfl)
      (fun _ _ _ => trivial) (fun name _ => e.alike_evalName trivial) sim.on_zero levels root
      trivial
  rw [Nat.zero_add] at hroot
  have halike : Alike (Run.Same frames) m m := .bind (hroot c c rfl) fun _ => .pure ()
  funext r
  have hsame : Run.Same frames { r with scope := .ofFrame r.scope.top }
      { r with scope := r.scope.opened } := ⟨fun _ _ => rfl, rfl, rfl, rfl⟩
  rw [evalBody, hcauses.inFrame_eq, evalTemplate, h]
  exact (halike _ _ hsame).inScope_eq

variable {e e' : Engine}

/-- To be the same is a congruence. -/
def identity (hhost : e.host = e'.host) (hfilter : ∀ name, e.filter? name = e'.filter? name) :
    Congruence e e' where
  rel m m' := m = m'
  node c c' := c = c'
  filter := hfilter
  pure _ := rfl
  fail _ := rfl
  bind h hf := by rw [h, funext hf]
  assign _ _ := rfl
  opened h := by rw [h]
  entered h := by rw [h]
  turn h := by rw [funext h]
  perform f args hc := by rw [hc, hhost]
  change _ hc := by rw [hc]
  element tag h := by rw [funext fun el => h el el rfl]
  append hc hx := by rw [hc, hx]

/-- The engine with another template for a name. -/
def withTemplate (e : Engine) (name : String) (root : Node) : Engine :=
  { e with templates := Table.insert e.templates name root }

theorem template?_withTemplate (e : Engine) (name : String) (root : Node) (other : String) :
    (e.withTemplate name root).template? other =
      if name = other then some root else e.template? other := by
  by_cases hname : name = other
  · subst hname
    rw [if_pos rfl]
    exact Table.get?_insert_self _ _ _
  · rw [if_neg hname]
    exact Table.get?_insert_of_ne _ _ hname

section Inlining

variable {t name : String} {root n n' : Node}

/-- The engines have the same templates, but for the one in which `t` is inlined. -/
theorem template?_inlined {R : Node → Node → Prop} (hR : ∀ m m', Node.Inlined t root m m' → R m m')
    (hn : e.template? name = some n) (h : Node.Inlined t root n n') (other : String) :
    Option.Rel R (e.template? other) ((e.withTemplate name n').template? other) := by
  rw [template?_withTemplate]
  by_cases hname : name = other
  · subst hname
    rw [if_pos rfl, hn]
    exact .some (hR n n' h)
  · rw [if_neg hname]
    cases e.template? other with
    | none => exact .none
    | some m => exact .some (hR m m (.same m))

/-- By induction on the levels of nesting: a child that has been inlined needs one level for the
branch where it needed one for the rendering, and the root is evaluated with what is left. -/
theorem eval_inlinedChild (ht : e.template? t = some root) (hn : e.template? name = some n)
    (h : Node.Inlined t root n n') (levels : Nat) {m m' : Node}
    (hm : Node.InlinedChild t root m m') (c : NodeId) :
    e.eval levels m c = (e.withTemplate name n').eval levels m' c := by
  let cong : Congruence e (e.withTemplate name n') := identity rfl fun _ => rfl
  induction levels generalizing m m' c with
  | zero => rfl
  | succ levels ih =>
    have hchild : ∀ m m', Node.InlinedChild t root m m' → cong.On levels levels m m' := by
      rintro m m' hm c _ rfl
      exact ih hm c
    have hnode : ∀ m m', Node.Inlined t root m m' → cong.On levels levels m m' :=
      fun m m' hm => hchild m m' (.node hm)
    have htemplates : ∀ target, e.evalTemplate (e.eval levels) target c =
        (e.withTemplate name n').evalTemplate ((e.withTemplate name n').eval levels) target c :=
      fun target => cong.rel_evalTemplate (template?_inlined hnode hn h target) rfl
    -- nodes of the same form are compared child by child, by induction on the levels
    have hmatched : ∀ {m m'}, Node.Matched (Node.Inlined t root) m m' →
        e.eval (levels + 1) m c = (e.withTemplate name n').eval (levels + 1) m' c :=
      fun hm => cong.rel_evalNode hnode (fun _ _ hm => hm.resembles) hm (fun _ _ => rfl) htemplates
        (c := c) rfl
    cases hm with
    | node hm =>
      cases hm with
      | same => exact hmatched (.refl m fun x _ => .same x)
      | inside hm => exact hmatched hm
      | block hns =>
        have hblock := cong.rel_evalBlock hchild (fun _ _ hx => hx.isOutput_eq) hns (c := c) rfl
        exact cong.bind hblock fun _ => rfl
    -- the call that is replaced gives what the body gives that replaces it
    | here =>
      have hbody : evalBody (e.eval levels) c root =
          evalBody ((e.withTemplate name n').eval levels) c root :=
        cong.rel_evalBody hnode (.same root) rfl
      have hrender := (e.evalTemplate_eq_evalBody ht levels c).trans hbody
      exact cong.bind hrender fun _ => rfl

/-- **To render a template is to inline it.** With any limit of nesting, a template is evaluated
like a body in a frame of its own. If in one of the templates children of blocks that render `t`
give way to a branch without a test that holds the root of `t`, then every node, with as many levels
of nesting left, and every template come to the same as before: to the same result or error by the
same edits. -/
theorem render_inlined (ht : e.template? t = some root) (hn : e.template? name = some n)
    (h : Node.Inlined t root n n') :
    let e' := e.withTemplate name n'
    (∀ levels c, e.evalTemplate (e.eval levels) t c = evalBody (e.eval levels) c root) ∧
      (∀ levels m m' c, Node.Inlined t root m m' → e.eval levels m c = e'.eval levels m' c) ∧
      ∀ page frame next container,
        e.render page frame next container = e'.render page frame next container := by
  intro e'
  have heval : ∀ levels m m' c, Node.Inlined t root m m' →
      e.eval levels m c = e'.eval levels m' c :=
    fun levels _ _ c hm => eval_inlinedChild ht hn h levels (.node hm) c
  refine ⟨e.evalTemplate_eq_evalBody ht, heval, fun page frame next container => ?_⟩
  let cong : Congruence e e' := identity rfl fun _ => rfl
  have hhas : e.hasTemplate page = e'.hasTemplate page := by
    have htemplate := template?_inlined (fun _ _ hm => hm) hn h page
    change (e.template? page).isSome = (e'.template? page).isSome
    generalize e.template? page = x at htemplate ⊢
    generalize e'.template? page = x' at htemplate ⊢
    cases htemplate <;> rfl
  have hrender : ∀ c, e.renderIn page c = e'.renderIn page c := by
    intro c
    refine cong.rel_evalTemplate (template?_inlined (fun m m' hm => ?_) hn h page) rfl
    rintro c _ rfl
    exact heval _ m m' c hm
  have hrun : e.renderRun page container = e'.renderRun page container :=
    cong.rel_renderRun (fun _ _ => Iff.rfl) rfl rfl hrender container
  rw [render, render, hhas, hrun]

end Inlining

/-- A card in an element of a page. It assigns a variable of the page, which the page does not
see. -/
theorem render_inlined_card :
    let x : Node := .leaf (.name "x")
    let line : Node := .output .content [.expr x]
    let card : Node := .block [.assignment "x" (.leaf (.string "in")), line]
    let page (child : Node) : Node := .block [.assignment "x" (.leaf (.string "out")),
      .element "p" [] (.block (.block [line, child, line]))]
    let e : Engine := ⟨.standard, [], [], .empty,
      [("card", card), ("page", page (.render "card"))], [],
      { Settings.standard with maxDepth := 8 }⟩
    let n := page (.render "card")
    let n' := page (.choice [.mk none card])
    let e' := e.withTemplate "page" n'
    e.template? "card" = some card ∧ e.template? "page" = some n ∧ Node.Inlined "card" card n n' ∧
      e.renderHtml "page" [] = .ok "<p>outinout</p>" ∧
      (∀ levels c, e.evalTemplate (e.eval levels) "card" c = evalBody (e.eval levels) c card) ∧
      (∀ levels m m' c, Node.Inlined "card" card m m' → e.eval levels m c = e'.eval levels m' c) ∧
      ∀ page frame next container,
        e.render page frame next container = e'.render page frame next container := by
  intro x line card page e n n' e'
  have hchild : Node.Inlined "card" card (.block [line, .render "card", line])
      (.block [line, .choice [.mk none card], line]) :=
    .child "card" card [line] [line]
  have h : Node.Inlined "card" card n n' :=
    .inside (.block (.cons (.same _) (.cons (.inside (.element "p" .nil (.block hchild))) .nil)))
  have hhtml : e.renderHtml "page" [] = .ok "<p>outinout</p>" := by
    dsimp +zetaDelta only
    decide
  exact ⟨rfl, rfl, h, hhtml, render_inlined rfl rfl h⟩

end Engine

end Stencil
