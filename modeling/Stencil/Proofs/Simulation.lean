import Stencil.Engine.Render
import Stencil.Proofs.Congruence
/-!
# Simulations

Two renderings of the same nodes, side by side. What an evaluation does at a single step is listed
once; if each of these steps leads from states that correspond to states that correspond, then two
evaluations that begin in such states come to the same value or the same error, in states that
correspond again. Often two states correspond if both runs have done the same so far, and their
frames in use have to do with each other; then two renderings come to the same.
-/

namespace Stencil

namespace Rendering

/-- The same value or the same error, in states that correspond. -/
inductive Agree (state : Run → Run → Prop) {α : Type} :
    EStateM.Result RenderError Run α → EStateM.Result RenderError Run α → Prop
  | ok {r s : Run} (a : α) : state r s → Agree state (.ok a r) (.ok a s)
  | error {r s : Run} (err : RenderError) : state r s → Agree state (.error err r) (.error err s)

/-- Two parts of renderings that agree wherever they begin in states that correspond. -/
def Alike (state : Run → Run → Prop) {α : Type} (m m' : Rendering α) : Prop :=
  ∀ r s, state r s → Agree state (m r) (m' s)

variable {state : Run → Run → Prop} {α β : Type} {m m' : Rendering α} {f f' : α → Rendering β}
variable {r s : Run}

namespace Agree

theorem outcome (h : Agree state (m r) (m' s)) : m.outcome r = m'.outcome s := by
  unfold Rendering.outcome
  generalize m r = x at h ⊢
  generalize m' s = y at h ⊢
  cases h <;> rfl

/-- The states behind two renderings that agree correspond. -/
theorem after (h : Agree state (m r) (m' s)) : state (m.after r) (m'.after s) := by
  unfold Rendering.after
  generalize m r = x at h ⊢
  generalize m' s = y at h ⊢
  cases h <;> assumption

/-- The scopes may be put back afterwards, if the states then correspond. -/
theorem inScope {scope scope' : Scope}
    (h : Agree state (m { r with scope }) (m' { s with scope := scope' }))
    (hleft : ∀ {r' s' : Run}, state r' s' →
      state { r' with scope := r.scope } { s' with scope := s.scope }) :
    Agree state (inScope scope m r) (inScope scope' m' s) := by
  change Agree state (thenScope m (fun _ => r.scope) { r with scope })
    (thenScope m' (fun _ => s.scope) { s with scope := scope' })
  unfold thenScope
  generalize m { r with scope } = x at h ⊢
  generalize m' { s with scope := scope' } = y at h ⊢
  cases h with
  | ok a hstate => exact .ok a (hleft hstate)
  | error err hstate => exact .error err (hleft hstate)

end Agree

namespace Alike

theorem pure (a : α) : Alike state (Pure.pure a) (Pure.pure a) :=
  fun _ _ h => .ok a h

theorem fail (err : RenderError) : Alike state (fail err : Rendering α) (fail err) :=
  fun _ _ h => .error err h

theorem ofResult (x : Except RenderError α) : Alike state (ofResult x) (ofResult x) := by
  cases x with
  | ok a => exact .pure a
  | error err => exact .fail err

theorem bind (h : Alike state m m') (hf : ∀ a, Alike state (f a) (f' a)) :
    Alike state (m >>= f) (m' >>= f') := by
  intro r s hrs
  have hm := h r s hrs
  change Agree state (EStateM.bind m f r) (EStateM.bind m' f' s)
  unfold EStateM.bind
  generalize m r = x at hm ⊢
  generalize m' s = y at hm ⊢
  cases hm with
  | ok a hstate => exact hf a _ _ hstate
  | error err hstate => exact .error err hstate

end Alike

end Rendering

open Rendering

/-- Two engines with the same limit of nesting, functions of the host and filters. -/
structure Engine.Akin (e e' : Engine) : Prop where
  maxDepth : e.settings.maxDepth = e'.settings.maxDepth
  host : e.host = e'.host
  filter : ∀ name, e.filter? name = e'.filter? name

/-- Global variables do not make engines less akin. -/
theorem Engine.akin_globals (e : Engine) (globals : Frame) : Akin e { e with globals } :=
  ⟨rfl, rfl, fun _ => rfl⟩

/-- A simulation of the renderings of one engine by those of another: which of their states and
which of their nodes correspond, and why they go on doing so. -/
structure Simulation (e e' : Engine) where
  state : Run → Run → Prop
  node : NodeId → NodeId → Prop
  akin : e.Akin e'
  assign : ∀ {r s : Run} (name : String) (v : Value), state r s →
    state { r with scope := r.scope.assign name v } { s with scope := s.scope.assign name v }
  opened : ∀ {r s : Run}, state r s →
    state { r with scope := r.scope.opened } { s with scope := s.scope.opened }
  /-- A template begins with what can be seen. -/
  entered : ∀ {r s : Run}, state r s →
    state { r with scope := .ofFrame r.scope.top } { s with scope := .ofFrame s.scope.top }
  /-- In the end the scope from before it is back. -/
  left : ∀ {r s r' s' : Run}, state r s → state r' s' →
    state { r' with scope := r.scope } { s' with scope := s.scope }
  turn : ∀ {r s : Run}, state r s →
    r.turns = s.turns ∧ state { r with turns := r.turns + 1 } { s with turns := s.turns + 1 }
  perform : ∀ {c c' : NodeId} (f : Callable) (args : List Value), node c c' →
    Alike state (Rendering.perform c (f.reply e.host) args)
      (Rendering.perform c' (f.reply e'.host) args)
  change : ∀ {c c' : NodeId} {r s : Run} (ch : Change), node c c' → state r s →
    state (r.writeAll (ch.edits c r.next)) (s.writeAll (ch.edits c' s.next))
  element : ∀ {r s : Run} (tag : String), state r s →
    node r.next s.next ∧ state (r.write (.element tag)) (s.write (.element tag))
  append : ∀ {c c' x x' : NodeId} {r s : Run}, node c c' → node x x' → state r s →
    state (r.write (.append c x)) (s.write (.append c' x'))

namespace Simulation

variable {e e' : Engine} (sim : Simulation e e') {c c' : NodeId}

/-- To be alike is a congruence. -/
def congruence : Congruence e e' where
  rel := Alike sim.state
  node := sim.node
  filter := sim.akin.filter
  pure := .pure
  fail := .fail
  bind := .bind
  assign name v _ _ hrs := .ok () (sim.assign name v hrs)
  opened h _ _ hrs := (h _ _ (sim.opened hrs)).inScope (sim.left hrs)
  entered h _ _ hrs := (h _ _ (sim.entered hrs)).inScope (sim.left hrs)
  turn := by
    intro α f f' h r s hrs
    obtain ⟨hserial, hstate⟩ := sim.turn hrs
    change Agree sim.state (f r.turns { r with turns := r.turns + 1 })
      (f' s.turns { s with turns := s.turns + 1 })
    rw [hserial] at hstate ⊢
    exact h s.turns _ _ hstate
  perform := sim.perform
  change ch hc _ _ hrs := .ok () (sim.change ch hc hrs)
  element tag h _ _ hrs := h _ _ (sim.element tag hrs).1 _ _ (sim.element tag hrs).2
  append hc hx _ _ hrs := .ok () (sim.append hc hx hrs)

/-- Without a level left, both renderings fail with the same error. -/
theorem on_zero (n : Node) : sim.congruence.On 0 0 n n := by
  intro c c' _
  rw [Engine.eval, Engine.eval, sim.akin.maxDepth]
  exact .fail _

/-- Renderings are alike if names are; only names in nodes with `P` are looked up. -/
theorem alike_renderIn {P : Node → Prop} (hP : ∀ n, P n → ∀ m ∈ n.children, P m)
    (htemplate : ∀ name, e.template? name = e'.template? name)
    (hroot : ∀ name root, e.template? name = some root → P root)
    (hname : ∀ name, P (.leaf (.name name)) → Alike sim.state (e.evalName name) (e'.evalName name))
    (name : String) (hc : sim.node c c') :
    Alike sim.state (e.renderIn name c) (e'.renderIn name c') := by
  have hdepth : e'.settings.maxDepth = 0 + e.settings.maxDepth := by
    rw [Nat.zero_add, sim.akin.maxDepth]
  exact sim.congruence.rel_renderIn hP (.of_eq htemplate) hroot hname sim.on_zero hdepth name
    hc

end Simulation

/-! ## Runs that have done the same -/

/-- Two runs that have done the same so far, and whose frames in use correspond. -/
structure Run.Same (frames : Frame → Frame → Prop) (r s : Run) : Prop where
  top : frames r.scope.top s.scope.top
  edits : r.edits = s.edits
  next : r.next = s.next
  turns : r.turns = s.turns

namespace Run.Same

variable {frames : Frame → Frame → Prop} {r s : Run}

theorem write (h : Same frames r s) (edit : Edit) : Same frames (r.write edit) (s.write edit) where
  top := h.top
  edits := congrArg (edit :: ·) h.edits
  next := congrArg (· + edit.created) h.next
  turns := h.turns

theorem writeAll (h : Same frames r s) (edits : List Edit) :
    Same frames (r.writeAll edits) (s.writeAll edits) := by
  induction edits generalizing r s with
  | nil => exact h
  | cons edit edits ih => exact ih (h.write edit)

end Run.Same

namespace Simulation

/-- Runs in scopes whose frames correspond, with the same global variables or other ones, if frames
that correspond still do so when a variable is written to both. -/
def ofFrames (e : Engine) (globals : Frame) (frames : Frame → Frame → Prop)
    (hinsert : ∀ {f f' : Frame} (name : String) (v : Value), frames f f' →
      frames (Table.insert f name v) (Table.insert f' name v)) :
    Simulation e { e with globals } where
  state := Run.Same frames
  node c c' := c = c'
  akin := e.akin_globals globals
  assign name v h := ⟨hinsert name v h.top, h.edits, h.next, h.turns⟩
  opened h := ⟨h.top, h.edits, h.next, h.turns⟩
  entered h := ⟨h.top, h.edits, h.next, h.turns⟩
  left h h' := ⟨h.top, h'.edits, h'.next, h'.turns⟩
  turn h := ⟨h.turns, h.top, h.edits, h.next, congrArg (· + 1) h.turns⟩
  perform f args hc r s h := by
    rw [hc, perform_run, perform_run, h.next]
    cases (f.reply e.host ⟨_, s.next⟩ args).answer with
    | ok v => exact .ok v (h.writeAll _)
    | error err => exact .error err (h.writeAll _)
  change ch hc h := by
    rw [hc, h.next]
    exact h.writeAll _
  element tag h := ⟨h.next, h.write _⟩
  append hc hx h := by
    rw [hc, hx]
    exact h.write _

end Simulation

namespace Rendering.Agree

/-- Runs that have done the same have rendered the same. -/
theorem rendered_eq {frames : Frame → Frame → Prop}
    {x y : EStateM.Result RenderError Run NodeId} (h : Agree (Run.Same frames) x y) :
    Rendered.ofRun x = Rendered.ofRun y := by
  cases h with
  | ok node h => rw [Rendered.ofRun, Rendered.ofRun, h.edits]
  | error err h => rw [Rendered.ofRun, Rendered.ofRun, h.edits]

end Rendering.Agree

namespace Engine

/-- Renderings with frames that correspond come to the same, if the names in the templates do. -/
theorem render_eq (e : Engine) (globals : Frame) {frames : Frame → Frame → Prop}
    (hinsert : ∀ {f f' : Frame} (name : String) (v : Value), frames f f' →
      frames (Table.insert f name v) (Table.insert f' name v))
    {P : Node → Prop} (hP : ∀ n, P n → ∀ m ∈ n.children, P m)
    (hroot : ∀ name root, e.template? name = some root → P root)
    (hname : ∀ name, P (.leaf (.name name)) →
      Alike (Run.Same frames) (e.evalName name) (Engine.evalName { e with globals } name))
    {frame frame' : Frame} (hframe : frames frame frame') (name : String) (next : NodeId)
    (container : Option NodeId) :
    e.render name frame next container =
      Engine.render { e with globals } name frame' next container := by
  let sim := Simulation.ofFrames e globals frames hinsert
  have hhas : Engine.hasTemplate { e with globals } name = e.hasTemplate name := rfl
  rw [render, render, hhas]
  by_cases hknown : e.hasTemplate name = true
  · rw [if_pos hknown, if_pos hknown]
    have hrender : ∀ c, Alike (Run.Same frames) (e.renderIn name c)
        (Engine.renderIn { e with globals } name c) :=
      fun c => sim.alike_renderIn hP (fun _ => rfl) hroot hname name (c := c) rfl
    have hstart : Run.Same frames (.start frame next) (.start frame' next) :=
      ⟨hframe, rfl, rfl, rfl⟩
    have hrun := sim.congruence.rel_renderRun (fun _ _ => Iff.rfl) rfl rfl hrender container
    exact (hrun _ _ hstart).rendered_eq
  · rw [if_neg hknown, if_neg hknown]

end Engine

end Stencil
