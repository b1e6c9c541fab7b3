import Stencil.Proofs.Congruence
/-!
# The limit of nesting

The same renderings with a lower and with a higher limit of nesting. As long as the lower limit is
not reached, they do the same step by step. Where it is reached, the rendering with the lower limit
stops, and all it has written until then the other one has written too; for whatever goes on there
only adds edits.
-/

namespace Stencil

theorem Run.edits_suffix_write (r : Run) (edit : Edit) : r.edits <:+ (r.write edit).edits :=
  List.suffix_cons edit r.edits

theorem Run.edits_suffix_writeAll (r : Run) (edits : List Edit) :
    r.edits <:+ (r.writeAll edits).edits := by
  induction edits generalizing r with
  | nil => exact List.suffix_refl _
  | cons edit edits ih => exact (r.edits_suffix_write edit).trans (ih _)

/-- Effects only add edits. -/
theorem Effect.edits_suffix {e : Engine} {names : String → Prop} {whole : Bool} {c : NodeId}
    {r s : Run} (h : Effect e names whole c r s) : r.edits <:+ s.edits := by
  induction h with
  | nothing => exact List.suffix_refl _
  | andThen _ _ ih ih' => exact ih.trans ih'
  | brokenOff _ ih => exact ih
  | change ch => exact Run.edits_suffix_writeAll _ _
  | called edits _ => exact Run.edits_suffix_writeAll _ _
  | assign _ _ => exact List.suffix_refl _
  | lookUp _ _ => exact List.suffix_refl _
  | turn => exact List.suffix_refl _
  | frame _ ih => exact ih
  | elsewhere _ _ ih => exact ih
  | element tag _ _ _ ih ih' ih'' =>
    have hfilled := (((Run.edits_suffix_write _ _).trans ih).trans ih').trans ih''
    exact hfilled.trans (Run.edits_suffix_write _ _)
  | lost tag _ _ ih ih' => exact ((Run.edits_suffix_write _ _).trans ih).trans ih'

namespace Rendering

variable {α β : Type} {stops : RenderError → Prop} {m m' : Rendering α} {f f' : α → Rendering β}

/-- `m` does what `m'` does, or is cut short by an error that `stops` it; what it has written until
then, `m'` writes too. -/
structure CutShort (stops : RenderError → Prop) (m m' : Rendering α) : Prop where
  grows : ∀ r, r.edits <:+ (m'.after r).edits
  agrees : ∀ r, m r = m' r ∨
    ∃ err s, stops err ∧ m r = .error err s ∧ s.edits <:+ (m'.after r).edits

namespace CutShort

theorem refl (h : ∀ r, r.edits <:+ (m.after r).edits) : CutShort stops m m :=
  ⟨h, fun _ => .inl rfl⟩

theorem fail {err : RenderError} (herr : stops err) (h : ∀ r, r.edits <:+ (m'.after r).edits) :
    CutShort stops (fail err) m' :=
  ⟨h, fun r => .inr ⟨err, r, herr, rfl, h r⟩⟩

theorem bind (h : CutShort stops m m') (hf : ∀ a, CutShort stops (f a) (f' a)) :
    CutShort stops (m >>= f) (m' >>= f') := by
  -- what `m'` has written is still there behind it
  have hbehind : ∀ r, (m'.after r).edits <:+ ((m' >>= f').after r).edits := by
    intro r
    cases hm : m' r with
    | ok a s =>
      rw [after_of_ok hm, after, bind_of_ok hm]
      exact (hf a).grows s
    | error err s =>
      have hsame : (m' >>= f').after r = m'.after r := by
        rw [after_of_error hm, after_of_error (bind_of_error hm)]
      exact hsame ▸ List.suffix_refl _
  refine ⟨fun r => (h.grows r).trans (hbehind r), fun r => ?_⟩
  rcases h.agrees r with hsame | ⟨err, s, herr, hm, hedits⟩
  · cases hm : m' r with
    | ok a s =>
      rw [after, bind_of_ok (hsame.trans hm), bind_of_ok hm]
      exact (hf a).agrees s
    | error err s =>
      rw [bind_of_error (hsame.trans hm), bind_of_error hm]
      exact .inl rfl
  · exact .inr ⟨err, s, herr, bind_of_error hm, hedits.trans (hbehind r)⟩

/-- In a scope of their own, which depends on the one before. -/
theorem inScope (h : CutShort stops m m') (scope : Run → Scope) :
    CutShort stops (fun r => inScope (scope r) m r) fun r => inScope (scope r) m' r := by
  have hafter : ∀ r, (Rendering.after (fun r => Rendering.inScope (scope r) m' r) r).edits =
      (m'.after { r with scope := scope r }).edits := by
    intro r
    change ((Rendering.inScope (scope r) m').after r).edits = _
    rw [after_inScope]
  refine ⟨fun r => hafter r ▸ h.grows { r with scope := scope r }, fun r => ?_⟩
  rw [hafter r]
  change thenScope m (fun _ => r.scope) { r with scope := scope r } =
      thenScope m' (fun _ => r.scope) { r with scope := scope r } ∨
    ∃ err s, stops err ∧
      thenScope m (fun _ => r.scope) { r with scope := scope r } = .error err s ∧ _
  rcases h.agrees { r with scope := scope r } with hsame | ⟨err, s, herr, hm, hedits⟩
  · left
    rw [thenScope, thenScope, hsame]
  · right
    refine ⟨err, { s with scope := r.scope }, herr, ?_, hedits⟩
    rw [thenScope, hm]

end CutShort

theorem edits_ofRun (m : Rendering NodeId) (r : Run) :
    (Rendered.ofRun (m r)).edits = (m.after r).edits.reverse := by
  unfold Rendered.ofRun after
  cases m r <;> rfl

/-- A rendering that is cut short has rendered a beginning of the other one. -/
theorem CutShort.rendered {m m' : Rendering NodeId} (h : CutShort stops m m') (r : Run) :
    let x := Rendered.ofRun (m r)
    let x' := Rendered.ofRun (m' r)
    x' = x ∨ ∃ err, stops err ∧ x.outcome = .error err ∧ x.edits <+: x'.edits := by
  intro x x'
  rcases h.agrees r with hsame | ⟨err, s, herr, hm, hedits⟩
  · exact .inl (congrArg Rendered.ofRun hsame.symm)
  · refine .inr ⟨err, herr, ?_, ?_⟩
    · simp only [x, hm, Rendered.ofRun]
    · rw [edits_ofRun, edits_ofRun, after_of_error hm]
      exact List.reverse_prefix.2 hedits

end Rendering

open Rendering

namespace Engine

variable {e e' : Engine}

/-- To be cut short is a congruence. -/
def cutShort (stops : RenderError → Prop) (hhost : e.host = e'.host)
    (hfilter : ∀ name, e.filter? name = e'.filter? name) : Congruence e e' where
  rel := CutShort stops
  node c c' := c = c'
  filter := hfilter
  pure _ := .refl fun _ => List.suffix_refl _
  fail _ := .refl fun _ => List.suffix_refl _
  bind := .bind
  assign _ _ := .refl fun _ => List.suffix_refl _
  opened h := h.inScope fun r => r.scope.opened
  entered h := h.inScope fun r => .ofFrame r.scope.top
  turn h := ⟨fun r => (h r.turns).grows { r with turns := r.turns + 1 },
    fun r => (h r.turns).agrees { r with turns := r.turns + 1 }⟩
  perform f args hc := by
    rw [hc, hhost]
    refine .refl fun r => ?_
    rw [after_perform]
    exact Run.edits_suffix_writeAll r _
  change ch hc := hc ▸ .refl fun r => Run.edits_suffix_writeAll r _
  element tag h := by
    have hfilled := fun r : Run => h r.next r.next rfl
    have hcreated := fun r : Run => r.edits_suffix_write (.element tag)
    exact ⟨fun r => (hcreated r).trans ((hfilled r).grows _), fun r => (hfilled r).agrees _⟩
  append hc hx := hc ▸ hx ▸ .refl fun r => r.edits_suffix_write _

/-- The engine `e'` renders the same templates with the same filters, global variables and functions
of the host as `e`, in the same containers, and allows at least the same nesting. -/
structure Deepened (e e' : Engine) : Prop where
  templates : ∀ name, e.template? name = e'.template? name
  filters : ∀ name, e.filter? name = e'.filter? name
  globals : ∀ name, e.global? name = e'.global? name
  host : e.host = e'.host
  containerTag : e.settings.containerTag = e'.settings.containerTag
  containerClass : e.settings.containerClass = e'.settings.containerClass
  maxDepth : e.settings.maxDepth ≤ e'.settings.maxDepth

/-- An engine stops with this error where its limit of nesting is reached. -/
def LimitReached (e : Engine) (err : RenderError) : Prop :=
  err = .depthExceeded e.settings.maxDepth

namespace Deepened

theorem refl (e : Engine) : Deepened e e :=
  ⟨fun _ => rfl, fun _ => rfl, fun _ => rfl, rfl, rfl, rfl, Nat.le_refl _⟩

/-- Where no level is left, the evaluation stops at once. -/
theorem cutShort_zero (h : Deepened e e') (extra : Nat) (n : Node) :
    (cutShort (LimitReached e) h.host h.filters).On 0 extra n n := by
  rintro c _ rfl
  exact .fail rfl fun r => (causes_eval_any e' extra n c r).edits_suffix

theorem cutShort_evalName (h : Deepened e e') (name : String) :
    CutShort (LimitReached e) (e.evalName name) (e'.evalName name) := by
  have hsame : e.evalName name = e'.evalName name := by rw [evalName, evalName, h.globals name]
  have hcauses : Causes e' (fun _ => True) 0 (e'.evalName name) := causes_evalName name
  rw [hsame]
  exact .refl fun r => (hcauses r).edits_suffix

/-- The evaluation with more levels left goes on where the one with less is stopped. -/
theorem cutShort_eval (h : Deepened e e') (extra levels : Nat) (n : Node) (c : NodeId) :
    CutShort (LimitReached e) (e.eval levels n c) (e'.eval (extra + levels) n c) :=
  (cutShort (LimitReached e) h.host h.filters).rel_eval (P := fun _ => True)
    (fun _ _ _ _ => trivial) (.of_eq h.templates) (fun _ _ _ => trivial)
    (fun name _ => h.cutShort_evalName name) (h.cutShort_zero extra) levels n trivial c c rfl

theorem cutShort_renderRun (h : Deepened e e') (name : String) (container : Option NodeId) :
    CutShort (LimitReached e) (e.renderRun name container) (e'.renderRun name container) := by
  obtain ⟨extra, hextra⟩ := Nat.exists_eq_add_of_le' h.maxDepth
  let cong := cutShort (LimitReached e) h.host h.filters
  have hrender : ∀ c, CutShort (LimitReached e) (e.renderIn name c) (e'.renderIn name c) := by
    intro c
    exact cong.rel_renderIn (P := fun _ => True) (fun _ _ _ _ => trivial) (.of_eq h.templates)
      (fun _ _ _ => trivial) (fun name _ => h.cutShort_evalName name) (h.cutShort_zero extra)
      hextra name rfl
  exact cong.rel_renderRun (fun _ _ => Iff.rfl) h.containerTag h.containerClass hrender container

end Deepened

/-- **A higher limit of nesting changes nothing but where a rendering stops.** What is written with
the lower limit is always the beginning of what is written with the higher one. If the rendering
has not been stopped for its nesting, the two come to the same: to the same result or error by the
same edits, and so to the same document. -/
theorem render_deepened (h : Deepened e e') (name : String) (frame : Frame) (next : NodeId)
    (container : Option NodeId) :
    let r := e.render name frame next container
    let r' := e'.render name frame next container
    r.edits <+: r'.edits ∧ (r.outcome ≠ .error (.depthExceeded e.settings.maxDepth) → r' = r) := by
  intro r r'
  have hhas : e.hasTemplate name = e'.hasTemplate name :=
    congrArg Option.isSome (h.templates name)
  by_cases hknown : e'.hasTemplate name = true
  · have hr : r = .ofRun (e.renderRun name container (.start frame next)) :=
      if_pos (hhas.trans hknown)
    have hr' : r' = .ofRun (e'.renderRun name container (.start frame next)) := if_pos hknown
    rw [hr, hr']
    rcases (h.cutShort_renderRun name container).rendered (.start frame next) with
      hsame | ⟨err, rfl, hstopped, hedits⟩
    · rw [hsame]
      exact ⟨List.prefix_refl _, fun _ => rfl⟩
    · exact ⟨hedits, fun hne => absurd hstopped hne⟩
  · -- a template that is not there is missing in both
    have hsame : r' = r := by
      simp only [r, r', render, hhas, if_neg hknown]
    rw [hsame]
    exact ⟨List.prefix_refl _, fun _ => rfl⟩

/-- A template that renders itself again and again is stopped at the fourth level, and at the eighth
one it has written more. A line of text needs no more than two levels. -/
theorem render_deepened_again :
    let line : Node := .output .content [.text "x"]
    let e : Engine := ⟨.standard, [], [], .empty,
      [("line", .block [line]), ("again", .block [line, .render "again"])], [],
      { Settings.standard with maxDepth := 4 }⟩
    let e' : Engine := { e with settings.maxDepth := 8 }
    let r := e.render "again" [] 0 none
    let r' := e'.render "again" [] 0 none
    Deepened e e' ∧
      r.outcome = .error (.depthExceeded 4) ∧ r.edits.length = 6 ∧ r'.edits.length = 10 ∧
      r.edits <+: r'.edits ∧
      (e.render "line" [] 0 none).outcome = .ok 0 ∧
      (e.render "line" [] 0 none).outcome ≠ .error (.depthExceeded 4) ∧
      e'.render "line" [] 0 none = e.render "line" [] 0 none := by
  intro line e e' r r'
  have h : Deepened e e' := ⟨fun _ => rfl, fun _ => rfl, fun _ => rfl, rfl, rfl, rfl, by decide⟩
  have hline : (e.render "line" [] 0 none).outcome = .ok 0 := rfl
  have hne : (e.render "line" [] 0 none).outcome ≠ .error (.depthExceeded 4) := by
    rw [hline]
    exact nofun
  exact ⟨h, rfl, rfl, rfl, (render_deepened h "again" [] 0 none).1, hline, hne,
    (render_deepened h "line" [] 0 none).2 hne⟩

end Engine

end Stencil
