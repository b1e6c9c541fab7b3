import Stencil.Proofs.Effect
/-!
# Frames

What becomes of the scope during an evaluation: only the frame in use is written, and there a
variable changes only if the node assigns it outside the bodies that have a frame of their own, or
if it was missing and a global variable was looked up in its place. Bodies and other templates
leave the whole scope as it was, also when they fail.
-/

namespace Stencil

namespace Table

variable {α : Type}

/-- An entry leaves the keys as they are, or comes behind all of them. -/
theorem keys_insert (t : Table α) (key : String) (value : α) :
    (key ∈ keys t ∧ keys (insert t key value) = keys t) ∨
      (key ∉ keys t ∧ keys (insert t key value) = keys t ++ [key]) := by
  induction t with
  | nil => exact .inr ⟨List.not_mem_nil, rfl⟩
  | cons entry t ih =>
    obtain ⟨k, v⟩ := entry
    by_cases hk : k = key
    · exact .inl (by simp [insert, hk, keys])
    · simp only [insert, if_neg hk, keys, List.map_cons, List.cons_append, List.cons.injEq,
        true_and, List.mem_cons, Ne.symm hk, false_or] at ih ⊢
      exact ih

theorem keys_prefix_insert (t : Table α) (key : String) (value : α) :
    keys t <+: keys (insert t key value) := by
  rcases keys_insert t key value with ⟨-, h⟩ | ⟨-, h⟩
  · exact h ▸ List.prefix_refl _
  · exact h ▸ List.prefix_append _ _

end Table

namespace Scope

/-- How a scope goes on when variables with `names` are assigned in the frame in use, and global
variables are looked up. -/
structure Written (e : Engine) (names : String → Prop) (s s' : Scope) : Prop where
  outer : s'.frames.tail = s.frames.tail
  nonempty : s'.frames ≠ []
  keys : Table.keys s.top <+: Table.keys s'.top
  binding : ∀ name, s'.get? name = s.get? name ∨ names name ∨
    s.get? name = none ∧ (e.global? name).isSome ∧ s'.get? name = e.global? name

variable {e : Engine} {names : String → Prop} {s s' s'' : Scope} {name : String} {v : Value}

theorem get?_assign_self (s : Scope) (name : String) (v : Value) :
    (s.assign name v).get? name = some v :=
  Table.get?_insert_self _ _ _

theorem get?_assign_of_ne (s : Scope) {name other : String} (v : Value) (h : name ≠ other) :
    (s.assign name v).get? other = s.get? other :=
  Table.get?_insert_of_ne _ _ h

namespace Written

theorem refl (h : s.frames ≠ []) : Written e names s s :=
  ⟨rfl, h, List.prefix_refl _, fun _ => .inl rfl⟩

/-- What is written in two steps: a variable that the second one found missing was missing before,
or the first one has written it. -/
theorem trans (h : Written e names s s') (h' : Written e names s' s'') :
    Written e names s s'' := by
  refine ⟨h'.outer.trans h.outer, h'.nonempty, h.keys.trans h'.keys, fun name => ?_⟩
  rcases h.binding name with hsame | hname | ⟨habsent, hglobal, hbound⟩
  · rw [← hsame]
    exact h'.binding name
  · exact .inr (.inl hname)
  · rcases h'.binding name with hsame' | hname' | ⟨habsent', -, -⟩
    · exact .inr (.inr ⟨habsent, hglobal, hsame'.trans hbound⟩)
    · exact .inr (.inl hname')
    · -- a name that has been looked up is not missing any more
      rw [hbound] at habsent'
      rw [habsent'] at hglobal
      cases hglobal

/-- A single variable is written, for one of the two reasons. -/
theorem assign (h : names name ∨ s.get? name = none ∧ e.global? name = some v) :
    Written e names s (s.assign name v) := by
  refine ⟨rfl, List.cons_ne_nil _ _, Table.keys_prefix_insert _ _ _, fun other => ?_⟩
  by_cases hother : name = other
  · subst hother
    rcases h with hname | ⟨habsent, hglobal⟩
    · exact .inr (.inl hname)
    · refine .inr (.inr ⟨habsent, ?_, ?_⟩)
      · rw [hglobal]
        rfl
      · rw [hglobal]
        exact get?_assign_self s name v
  · exact .inl (get?_assign_of_ne s v hother)

/-- Whatever is written to an opened frame is gone when it is closed. -/
theorem closed (h : Written e names s.opened s') : s'.closed = s := by
  have houter := h.outer
  rw [Scope.closed, houter]
  rfl

end Written

end Scope

/-- Writing to the document does not write to the scope. -/
@[simp] theorem Run.scope_writeAll (r : Run) (edits : List Edit) :
    (r.writeAll edits).scope = r.scope := by
  induction edits generalizing r with
  | nil => rfl
  | cons edit edits ih => exact ih _

open Scope

/-- Of the effect of a node, this is what concerns the scope. -/
theorem Effect.written {e : Engine} {names : String → Prop} {whole : Bool} {c : NodeId} {r s : Run}
    (h : Effect e names whole c r s) (hr : r.scope.frames ≠ []) :
    Written e names r.scope s.scope := by
  induction h with
  | nothing => exact .refl hr
  | andThen _ _ ih ih' => exact (ih hr).trans (ih' (ih hr).nonempty)
  | brokenOff _ ih => exact ih hr
  | change ch =>
    rw [Run.scope_writeAll]
    exact .refl hr
  | called edits _ =>
    rw [Run.scope_writeAll]
    exact .refl hr
  | assign v hname => exact .assign (.inl hname)
  | lookUp habsent hglobal => exact .assign (.inr ⟨habsent, hglobal⟩)
  | turn => exact .refl hr
  | frame _ ih =>
    have hclosed := (ih (List.cons_ne_nil _ _)).closed
    simp only [hclosed]
    exact .refl hr
  | elsewhere _ _ _ => exact .refl hr
  | element tag _ _ _ ih ih' ih'' =>
    have hinner := ih hr
    have houter := ih' hinner.nonempty
    exact (hinner.trans houter).trans (ih'' houter.nonempty)
  | lost tag _ _ ih ih' => exact (ih hr).trans (ih' (ih hr).nonempty)

/-! ## Bodies and other templates -/

namespace Rendering

variable {e : Engine} {names : String → Prop} {c : NodeId} {α β : Type} {m : Rendering α}
variable {f : α → Rendering β}

/-- A part of a rendering leaves the scope as it was, whether it comes to a result or not. -/
def KeepsScope (m : Rendering α) : Prop :=
  ∀ r, (m.after r).scope = r.scope

namespace KeepsScope

theorem pure (a : α) : KeepsScope (Pure.pure a) :=
  fun _ => rfl

/-- The scope comes back from the first step as it was, and so from both. -/
theorem bind (h : KeepsScope m) (hf : ∀ a, KeepsScope (f a)) : KeepsScope (m >>= f) := by
  intro r
  have hm := h r
  cases hmr : m r with
  | ok a s =>
    rw [after_of_ok hmr] at hm
    rw [after, bind_of_ok hmr]
    exact (hf a s).trans hm
  | error err s =>
    rw [after_of_error hmr] at hm
    rw [after, bind_of_error hmr]
    exact hm

/-- The frame of its own is dropped at the end, so a rendering in one leaves no trace, on success or
failure. -/
theorem inFrame (h : Causes e names c m) : KeepsScope (inFrame m) := by
  intro r
  have hwritten := (h { r with scope := r.scope.opened }).written (List.cons_ne_nil _ _)
  rw [after_inFrame]
  exact hwritten.closed

end KeepsScope

/-- Whatever is done in a frame of its own could as well be done in another scope, which has that
frame on top: closing the frame brings the scope from before back. -/
theorem Causes.inFrame_eq (h : Causes e names c m) :
    Rendering.inFrame m = fun r => Rendering.inScope r.scope.opened m r := by
  funext r
  have hclosed := ((h { r with scope := r.scope.opened }).written (List.cons_ne_nil _ _)).closed
  change thenScope m Scope.closed { r with scope := r.scope.opened } =
    thenScope m (fun _ => r.scope) { r with scope := r.scope.opened }
  cases hm : m { r with scope := r.scope.opened } with
  | ok a s =>
    rw [after_of_ok hm] at hclosed
    simp only [thenScope, hm, hclosed]
  | error err s =>
    rw [after_of_error hm] at hclosed
    simp only [thenScope, hm, hclosed]

end Rendering

namespace Engine

open Rendering

variable {e : Engine} {ev : Evaluator} {c : NodeId}

/-- A body has a frame of its own. -/
theorem keepsScope_evalBody {body : Node} (h : Causes e (fun _ => True) c (ev body c)) :
    KeepsScope (evalBody ev c body) :=
  .inFrame (h.bind fun _ => .pure ())

/-- Every turn of a loop has a frame of its own, and so have all of them together. -/
theorem keepsScope_evalTurns {names : List String} {body : Node} {total turn : Nat}
    {turns : List (List Value)} (h : Causes e (fun _ => True) c (ev body c)) :
    KeepsScope (evalTurns ev c names body total turn turns) := by
  induction turns generalizing turn with
  | nil => exact .pure ()
  | cons values rest ih =>
    intro r
    have hturn : KeepsScope (do
        inFrame do
          modifyScope fun s => Loop.turnScope s names values (Loop.record turn total r.turns)
          let _ ← ev body c
        evalTurns ev c names body total (turn + 1) rest) :=
      .bind (.inFrame (.bind (causes_turnScope _) fun _ => .bind h fun _ => .pure ())) fun _ => ih
    exact hturn _

/-- A loop leaves no variables behind, neither those of its turns nor those of its other block. -/
theorem keepsScope_evalLoop {names : List String} {body : Node} {otherwise : Option Node}
    {turns : List (List Value)} (h : ∀ body, Causes e (fun _ => True) c (ev body c)) :
    KeepsScope (evalLoop ev c names body otherwise turns) := by
  unfold evalLoop
  split
  · exact keepsScope_evalBody (h _)
  · exact keepsScope_evalTurns (h body)

/-- A template called by another one sees a frame of its own. -/
theorem keepsScope_evalTemplate (name : String) : KeepsScope (e.evalTemplate ev name c) := by
  intro r
  unfold evalTemplate
  split
  · next root _ =>
    change ((inScope (.ofFrame r.scope.top) (do let _ ← ev root c)).after r).scope = r.scope
    rw [after_inScope]
  · rfl

/-- **What evaluation may do to the variables.** The number of frames, and all frames but the one
in use, are what they were. In the frame in use all keys keep their places, and a name has another
binding only if the node assigns it, bodies of branches and loops and other templates left out, or
if it had none and now has that of a global variable. Those bodies and templates change nothing at
all. -/
theorem eval_scope (e : Engine) (levels : Nat) (n : Node) (c : NodeId) {r : Run}
    (hr : r.scope.frames ≠ []) :
    let ev := e.eval levels
    let scope := ((ev n c).after r).scope
    scope.frames.length = r.scope.frames.length ∧ scope.frames.tail = r.scope.frames.tail ∧
      Table.keys r.scope.top <+: Table.keys scope.top ∧
      (∀ name, scope.get? name = r.scope.get? name ∨ n.Assigns name ∨
        r.scope.get? name = none ∧ (e.global? name).isSome ∧
          scope.get? name = e.global? name) ∧
      (∀ body, ((evalBody ev c body).after r).scope = r.scope) ∧
      (∀ names body otherwise turns,
        ((evalLoop ev c names body otherwise turns).after r).scope = r.scope) ∧
      ∀ name, ((e.evalTemplate ev name c).after r).scope = r.scope := by
  intro ev scope
  have hwritten : Written e (fun name => n.Assigns name) r.scope scope :=
    (causes_eval e levels n c r).written hr
  have hbody : ∀ body, Causes e (fun _ => True) c (ev body c) :=
    fun body => (causes_eval e levels body c).mono fun _ _ => trivial
  refine ⟨?_, hwritten.outer, hwritten.keys, hwritten.binding, ?_, ?_, ?_⟩
  · have hlength : scope.frames.tail.length = r.scope.frames.tail.length :=
      congrArg List.length hwritten.outer
    have hbefore := List.length_pos_iff.2 hr
    have hafter := List.length_pos_iff.2 hwritten.nonempty
    rw [List.length_tail, List.length_tail] at hlength
    omega
  · exact fun body => keepsScope_evalBody (hbody body) r
  · exact fun names body otherwise turns => keepsScope_evalLoop hbody r
  · exact fun name => keepsScope_evalTemplate name r

/-- A branch and another template assign variables that the node assigns too, and a global variable
is looked up: the variable has the value from outside the branch, and the global one is new. -/
theorem eval_scope_branch :
    let one : Value := .string "one"
    let card : Node := .block [.assignment "a" (.leaf (.string "three"))]
    let e : Engine := ⟨.standard, [], [("site", .string "plates")], .empty, [("card", card)], [],
      .standard⟩
    let n : Node := .block [.assignment "a" (.leaf (.string "one")),
      .choice [.mk (some (.leaf (.name "site"))) (.block [.assignment "a" (.leaf (.string "two")),
        .assignment "b" (.leaf .null)])], .render "card"]
    let r : Run := .start [("a", .null)] 1
    let ev := e.eval 8
    let scope := ((ev n 0).after r).scope
    r.scope.frames ≠ [] ∧ scope.frames = [[("a", one), ("site", .string "plates")]] ∧
      scope.frames.length = r.scope.frames.length ∧ scope.frames.tail = r.scope.frames.tail ∧
      Table.keys r.scope.top <+: Table.keys scope.top ∧
      (∀ name, scope.get? name = r.scope.get? name ∨ n.Assigns name ∨
        r.scope.get? name = none ∧ (e.global? name).isSome ∧
          scope.get? name = e.global? name) ∧
      (∀ body, ((evalBody ev 0 body).after r).scope = r.scope) ∧
      (∀ names body otherwise turns,
        ((evalLoop ev 0 names body otherwise turns).after r).scope = r.scope) ∧
      ∀ name, ((e.evalTemplate ev name 0).after r).scope = r.scope := by
  intro one card e n r ev scope
  have hr : r.scope.frames ≠ [] := List.cons_ne_nil _ _
  exact ⟨hr, rfl, eval_scope e 8 n 0 hr⟩

end Engine

end Stencil
