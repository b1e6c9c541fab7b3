import Stencil.Render.Eval
import Stencil.Proofs.Tree
/-!
# Effects

What an evaluation does to the state of a run, said once for all kinds of nodes: it changes its
container, assigns variables, opens frames, and creates elements, whether it comes to a value or
breaks off. `causes_eval` shows that nothing else happens. Whatever each of these effects keeps,
every evaluation keeps.
-/

namespace Stencil

namespace Node

/-- The nodes right below a node that are evaluated in the frame of the node: the bodies of
branches and loops have a frame of their own. -/
def frameChildren : Node → List Node
  | choice branches => branches.filterMap Branch.test
  | loop _ source _ _ => [source]
  | n => n.children

/-- Whether a node assigns a variable in the frame in which it is evaluated. -/
inductive Assigns (name : String) : Node → Prop
  | here (value : Node) : Assigns name (.assignment name value)
  | inside {n m : Node} : m ∈ n.frameChildren → Assigns name m → Assigns name n

end Node

/-! ## Results of renderings -/

/-- The edits of changes that follow one another begin where those before them have ended. -/
theorem Run.writeAll_editsAll_cons (r : Run) (c : NodeId) (ch : Change) (cs : List Change) :
    r.writeAll (Change.editsAll c r.next (ch :: cs)) =
      (r.writeAll (ch.edits c r.next)).writeAll
        (Change.editsAll c (r.writeAll (ch.edits c r.next)).next cs) := by
  have hnext : (r.writeAll (ch.edits c r.next)).next = r.next + ch.created := by cases ch <;> rfl
  rw [hnext, Change.editsAll, writeAll, writeAll, writeAll, List.foldl_append]

namespace Rendering

variable {α β : Type} {m : Rendering α} {f : α → Rendering β} {r s : Run} {a : α}
variable {err : RenderError}

/-- The state in which a part of a rendering ends or breaks off. -/
def after (m : Rendering α) (r : Run) : Run :=
  match m r with
  | .ok _ s => s
  | .error _ s => s

/-- What a part of a rendering comes to. -/
def outcome (m : Rendering α) (r : Run) : Except RenderError α :=
  match m r with
  | .ok a _ => .ok a
  | .error err _ => .error err

/-- Of two parts in a row the second one goes on where the first one has ended. -/
theorem bind_of_ok (h : m r = .ok a s) : (m >>= f) r = f a s := by
  change EStateM.bind m f r = _
  simp [EStateM.bind, h]

/-- Where the first part stops, the second one is not looked at. -/
theorem bind_of_error (h : m r = .error err s) : (m >>= f) r = .error err s := by
  change EStateM.bind m f r = _
  simp [EStateM.bind, h]

/-- Two parts that end in the same way are followed by what agrees on that end. -/
theorem bind_congr_at {m' : Rendering α} {f' : α → Rendering β} {r' : Run} (h : m r = m' r')
    (hf : ∀ a t, m' r' = .ok a t → f a t = f' a t) : (m >>= f) r = (m' >>= f') r' := by
  cases hm : m' r' with
  | ok a t => rw [bind_of_ok (h.trans hm), bind_of_ok hm, hf a t hm]
  | error err t => rw [bind_of_error (h.trans hm), bind_of_error hm]

/-- Two parts that have come to a result have both come to one. -/
theorem eq_ok_of_bind {b : β} (h : (m >>= f) r = .ok b s) :
    ∃ a t, m r = .ok a t ∧ f a t = .ok b s := by
  cases hm : m r with
  | ok a t =>
    rw [bind_of_ok hm] at h
    exact ⟨a, t, rfl, h⟩
  | error err t =>
    rw [bind_of_error hm] at h
    cases h

/-- The state that is left is that of the result. -/
theorem after_of_ok (h : m r = .ok a s) : m.after r = s := by
  rw [after, h]

/-- A rendering that stops leaves a state as well: what has been written stays written. -/
theorem after_of_error (h : m r = .error err s) : m.after r = s := by
  rw [after, h]

theorem outcome_of_ok (h : m r = .ok a s) : m.outcome r = .ok a := by
  rw [outcome, h]

theorem outcome_of_error (h : m r = .error err s) : m.outcome r = .error err := by
  rw [outcome, h]

/-- A look at the state changes nothing. -/
theorem get_bind (f : Run → Rendering β) : ((get : Rendering Run) >>= f) r = f r r :=
  rfl

/-- What follows a change of the state sees the state that is changed. -/
theorem modify_bind (g : Run → Run) (f : Unit → Rendering β) :
    ((modify g : Rendering Unit) >>= f) r = f () (g r) :=
  rfl

/-- A function of the host writes its edits before its answer is looked at. -/
theorem perform_run (c : NodeId) (f : HostFunction) (args : List Value) (r : Run) :
    perform c f args r = ofResult (f ⟨c, r.next⟩ args).answer
      (r.writeAll (f ⟨c, r.next⟩ args).edits) :=
  rfl

/-- Changes never fail. -/
theorem change_run (c : NodeId) (cs : List Change) (r : Run) :
    change c cs r = .ok () (r.writeAll (Change.editsAll c r.next cs)) := by
  induction cs generalizing r with
  | nil => rfl
  | cons ch cs ih => rw [change, modify_bind, ih, Run.writeAll_editsAll_cons]

/-- The edits of a function of the host stay also where it fails. -/
theorem after_perform (c : NodeId) (f : HostFunction) (args : List Value) (r : Run) :
    (perform c f args).after r = r.writeAll (f ⟨c, r.next⟩ args).edits := by
  rw [after, perform_run]
  cases (f ⟨c, r.next⟩ args).answer <;> rfl

/-- A frame that is opened is closed again, whatever has happened in it. -/
theorem after_inFrame (m : Rendering α) (r : Run) :
    (inFrame m).after r =
      { m.after { r with scope := r.scope.opened } with
        scope := (m.after { r with scope := r.scope.opened }).scope.closed } := by
  simp only [after, inFrame, modifyScope, modify_bind, thenScope]
  cases m { r with scope := r.scope.opened } <;> rfl

/-- What happens in a frame is told by the outcome alone. -/
theorem outcome_inFrame (m : Rendering α) (r : Run) :
    (inFrame m).outcome r = m.outcome { r with scope := r.scope.opened } := by
  simp only [outcome, inFrame, modifyScope, modify_bind, thenScope]
  cases m { r with scope := r.scope.opened } <;> rfl

/-- A scope for a part of a rendering is given back behind it, even behind an error. -/
theorem after_inScope (scope : Scope) (m : Rendering α) (r : Run) :
    (inScope scope m).after r = { m.after { r with scope } with scope := r.scope } := by
  simp only [after, inScope, modifyScope, get_bind, modify_bind, thenScope]
  cases m { r with scope } <;> rfl

/-- What happens in another scope is told by the outcome alone. -/
theorem outcome_inScope (scope : Scope) (m : Rendering α) (r : Run) :
    (inScope scope m).outcome r = m.outcome { r with scope } := by
  simp only [outcome, inScope, modifyScope, get_bind, modify_bind, thenScope]
  cases m { r with scope } <;> rfl

end Rendering

/-! ## What can happen -/

/-- What can happen to the state of a run while something is evaluated in a container. In the frame
in use only the variables with `names` are assigned. An effect is whole if nothing has broken it
off. -/
inductive Effect (e : Engine) : (String → Prop) → Bool → NodeId → Run → Run → Prop
  | nothing {names : String → Prop} {c : NodeId} {r : Run} : Effect e names true c r r
  | andThen {names : String → Prop} {whole : Bool} {c : NodeId} {r s t : Run} :
    Effect e names true c r s → Effect e names whole c s t → Effect e names whole c r t
  | brokenOff {names : String → Prop} {c : NodeId} {r s : Run} :
    Effect e names true c r s → Effect e names false c r s
  | change {names : String → Prop} {c : NodeId} {r : Run} (ch : Change) :
    Effect e names true c r (r.writeAll (ch.edits c r.next))
  /-- A function of the host writes any edits, unless all of them keep to their containers. -/
  | called {names : String → Prop} {c : NodeId} {r : Run} (edits : List Edit) :
    ¬e.host.Confined → Effect e names true c r (r.writeAll edits)
  | assign {names : String → Prop} {c : NodeId} {r : Run} {name : String} (v : Value) :
    names name → Effect e names true c r { r with scope := r.scope.assign name v }
  /-- A global variable becomes a variable. -/
  | lookUp {names : String → Prop} {c : NodeId} {r : Run} {name : String} {v : Value} :
    r.scope.get? name = none → e.global? name = some v →
    Effect e names true c r { r with scope := r.scope.assign name v }
  /-- A turn of a loop takes its serial number. -/
  | turn {names : String → Prop} {c : NodeId} {r : Run} :
    Effect e names true c r { r with turns := r.turns + 1 }
  | frame {names inner : String → Prop} {whole : Bool} {c : NodeId} {r s : Run} :
    Effect e inner whole c { r with scope := r.scope.opened } s →
    Effect e names whole c r { s with scope := s.scope.closed }
  /-- Something happens in a scope of its own. -/
  | elsewhere {names inner : String → Prop} {whole : Bool} {c : NodeId} {r s : Run}
    (scope : Scope) : Effect e inner whole c { r with scope } s →
    Effect e names whole c r { s with scope := r.scope }
  /-- A new element is filled, and appended in the end; something can happen in the container
  before it is full. -/
  | element {names : String → Prop} {c : NodeId} {r s t u : Run} (tag : String) :
    Effect e names true r.next (r.write (.element tag)) s → Effect e names true c s t →
    Effect e names true r.next t u → Effect e names true c r (u.write (.append c r.next))
  /-- A new element is lost, since filling it has broken off. -/
  | lost {names : String → Prop} {whole whole' : Bool} {c : NodeId} {r s t : Run}
    (tag : String) : Effect e names whole r.next (r.write (.element tag)) s →
    Effect e names whole' c s t → Effect e names false c r t

namespace Effect

variable {e : Engine} {names names' : String → Prop} {whole : Bool} {c : NodeId} {r s : Run}

/-- More names may be assigned than are. -/
theorem mono (h : Effect e names whole c r s) (hn : ∀ name, names name → names' name) :
    Effect e names' whole c r s := by
  induction h with
  | nothing => exact .nothing
  | andThen _ _ ih ih' => exact .andThen (ih hn) (ih' hn)
  | brokenOff _ ih => exact .brokenOff (ih hn)
  | change ch => exact .change ch
  | called edits hhost => exact .called edits hhost
  | assign v hname => exact .assign v (hn _ hname)
  | lookUp habsent hglobal => exact .lookUp habsent hglobal
  | turn => exact .turn
  | frame h _ => exact .frame h
  | elsewhere scope h _ => exact .elsewhere scope h
  | element tag _ _ _ ih ih' ih'' => exact .element tag (ih hn) (ih' hn) (ih'' hn)
  | lost tag _ _ ih ih' => exact .lost tag (ih hn) (ih' hn)

/-- Changes one after the other. -/
theorem changes (cs : List Change) :
    Effect e names true c r (r.writeAll (Change.editsAll c r.next cs)) := by
  induction cs generalizing r with
  | nil => exact .nothing
  | cons ch cs ih =>
    rw [Run.writeAll_editsAll_cons]
    exact .andThen (.change ch) ih

end Effect

namespace Rendering

/-- Whatever a part of a rendering does in a container is an effect, which is whole if the part
comes to a result. -/
def Causes (e : Engine) (names : String → Prop) (c : NodeId) {α : Type} (m : Rendering α) : Prop :=
  ∀ r, Effect e names (m.outcome r).isOk c r (m.after r)

namespace Causes

variable {e : Engine} {names names' : String → Prop} {c : NodeId} {α β : Type} {m : Rendering α}
variable {f : α → Rendering β} {r s : Run} {a : α} {err : RenderError}

/-- Where a rendering comes to a result, its effect is one of the whole rendering. -/
theorem of_ok (h : Causes e names c m) (hm : m r = .ok a s) : Effect e names true c r s := by
  have heffect := h r
  rw [outcome_of_ok hm, after_of_ok hm] at heffect
  exact heffect

/-- Where it stops, its effect may have been cut short. -/
theorem of_error (h : Causes e names c m) (hm : m r = .error err s) :
    Effect e names false c r s := by
  have heffect := h r
  rw [outcome_of_error hm, after_of_error hm] at heffect
  exact heffect

/-- The names that may be assigned are an upper bound. -/
theorem mono (h : Causes e names c m) (hn : ∀ name, names name → names' name) :
    Causes e names' c m :=
  fun r => (h r).mono hn

theorem pure (a : α) : Causes e names c (Pure.pure a : Rendering α) :=
  fun _ => .nothing

theorem fail (err : RenderError) : Causes e names c (fail err : Rendering α) :=
  fun _ => .brokenOff .nothing

/-- A step that only computes has no effect. -/
theorem ofResult (x : Except RenderError α) : Causes e names c (ofResult x) := by
  cases x with
  | ok a => exact .pure a
  | error err => exact .fail err

/-- The effects of two parts follow each other; the second one is missing where the first one stops.
-/
theorem bind (h : Causes e names c m) (hf : ∀ a, Causes e names c (f a)) :
    Causes e names c (m >>= f) := by
  intro r
  cases hm : m r with
  | ok a s =>
    rw [outcome, after, bind_of_ok hm]
    exact .andThen (h.of_ok hm) (hf a s)
  | error err s =>
    rw [outcome, after, bind_of_error hm]
    exact h.of_error hm

theorem ite {p : Prop} [Decidable p] {m' : Rendering α} (h : Causes e names c m)
    (h' : Causes e names c m') : Causes e names c (if p then m else m') := by
  split <;> assumption

/-- Changes are effects at the container that the rendering writes to. -/
theorem change (chs : List Change) : Causes e names c (Rendering.change c chs) := by
  intro r
  rw [outcome, after, change_run]
  exact .changes chs

/-- A function makes changes if the functions of the host are confined. -/
theorem perform (f : Callable) (args : List Value) :
    Causes e names c (Rendering.perform c (f.reply e.host) args) := by
  intro r
  have hedits : Effect e names true c r (r.writeAll (f.reply e.host ⟨c, r.next⟩ args).edits) := by
    by_cases hhost : e.host.Confined
    · obtain ⟨cs, hcs⟩ := Callable.confined_reply hhost f ⟨c, r.next⟩ args
      rw [hcs]
      exact .changes cs
    · exact .called _ hhost
  rw [outcome, after, perform_run]
  cases (f.reply e.host ⟨c, r.next⟩ args).answer with
  | ok v => exact hedits
  | error err => exact .brokenOff hedits

/-- A text is one of the changes. -/
theorem addText (content : String) : Causes e names c (Rendering.addText c content) :=
  .change _

/-- Only names that may be assigned are. -/
theorem assign (name : String) (v : Value) (h : names name) :
    Causes e names c (modifyScope fun s => s.assign name v) :=
  fun _ => .assign v h

/-- What is written to a frame of its own does not matter to the frame around it. -/
theorem inFrame (h : Causes e (fun _ => True) c m) : Causes e names c (inFrame m) := by
  intro r
  rw [outcome_inFrame, after_inFrame]
  exact .frame (h _)

/-- In a scope of its own any name may be assigned, since the scope is given back. -/
theorem inScope (scope : Scope) (h : Causes e (fun _ => True) c m) :
    Causes e names c (inScope scope m) := by
  intro r
  rw [outcome_inScope, after_inScope]
  exact .elsewhere scope (h _)

end Causes

end Rendering

/-! ## Evaluation has no other effects -/

namespace Engine

open Rendering

variable {e : Engine} {ev : Evaluator} {names : String → Prop} {c : NodeId}

/-- Nodes in a row have the effects of each, in this order. -/
theorem causes_evalAll {ns : List Node} (h : ∀ n ∈ ns, Causes e names c (ev n c)) :
    Causes e names c (evalAll ev c ns) := by
  induction ns with
  | nil => exact .pure []
  | cons n ns ih =>
    refine .bind (h n List.mem_cons_self) fun v => ?_
    exact .bind (ih fun m hm => h m (List.mem_cons_of_mem n hm)) fun vs => .pure _

/-- A block evaluates its nodes in a row and gives no value. -/
theorem causes_evalBlock {ns : List Node} (h : ∀ n ∈ ns, Causes e names c (ev n c)) :
    Causes e names c (evalBlock ev c ns) := by
  induction ns with
  | nil => exact .pure ()
  | cons n ns ih =>
    refine .bind (h n List.mem_cons_self) fun v => ?_
    have hrest := ih fun m hm => h m (List.mem_cons_of_mem n hm)
    refine .ite (.bind (.addText _) fun _ => ?_) hrest
    exact .ite (.bind (.addText _) fun _ => hrest) hrest

/-- The frame of a body takes along what is assigned in it. -/
theorem causes_evalBody {body : Node} (h : Causes e (fun _ => True) c (ev body c)) :
    Causes e names c (evalBody ev c body) :=
  .inFrame (.bind h fun _ => .pure ())

/-- A test is evaluated in the frame of the statement, and so its assignments stay; those in a body
do not. -/
theorem causes_evalBranches {bs : List Branch}
    (htest : ∀ n ∈ bs.filterMap Branch.test, Causes e names c (ev n c))
    (hbody : ∀ b ∈ bs, Causes e (fun _ => True) c (ev b.body c)) :
    Causes e names c (evalBranches ev c bs) := by
  induction bs with
  | nil => exact .pure ()
  | cons b bs ih =>
    obtain ⟨test, body⟩ := b
    have htaken : Causes e names c (evalBody ev c body) :=
      causes_evalBody (hbody _ List.mem_cons_self)
    cases test with
    | none => exact htaken
    | some test =>
      simp only [List.filterMap_cons, Branch.test, List.mem_cons, forall_eq_or_imp] at htest
      refine .bind htest.1 fun v => .ite htaken ?_
      exact ih htest.2 fun b hb => hbody b (List.mem_cons_of_mem _ hb)

/-- The names of a turn are bound in the frame of its body. -/
theorem causes_turnScope {names' : List String} {values : List Value} (record : Value) :
    Causes e (fun _ => True) c
      (modifyScope fun s => Loop.turnScope s names' values record) := by
  intro r
  have hassign : ∀ (entries : List (String × Value)) (scope : Scope),
      Effect e (fun _ => True) true c { r with scope }
        { r with scope := entries.foldl (fun s entry => s.assign entry.1 entry.2) scope } := by
    intro entries
    induction entries with
    | nil => exact fun scope => .nothing
    | cons entry entries ih => exact fun scope => .andThen (.assign _ trivial) (ih _)
  exact .andThen (hassign (names'.zip values) r.scope) (.assign record trivial)

/-- Each turn has a frame of its own. -/
theorem causes_evalTurns {names' : List String} {body : Node} {total turn : Nat}
    {turns : List (List Value)} (h : Causes e (fun _ => True) c (ev body c)) :
    Causes e names c (evalTurns ev c names' body total turn turns) := by
  induction turns generalizing turn with
  | nil => exact .pure ()
  | cons values rest ih =>
    intro r
    have hturn : Causes e names c (do
        inFrame do
          modifyScope fun s => Loop.turnScope s names' values (Loop.record turn total r.turns)
          let _ ← ev body c
        evalTurns ev c names' body total (turn + 1) rest) :=
      .bind (.inFrame (.bind (causes_turnScope _) fun _ => .bind h fun _ => .pure ())) fun _ => ih
    exact .andThen .turn (hturn _)

/-- Nothing that is assigned in a loop outlives it. -/
theorem causes_evalLoop {names' : List String} {body : Node} {otherwise : Option Node}
    {turns : List (List Value)} (h : Causes e (fun _ => True) c (ev body c))
    (hother : ∀ other ∈ otherwise, Causes e (fun _ => True) c (ev other c)) :
    Causes e names c (evalLoop ev c names' body otherwise turns) := by
  unfold evalLoop
  split
  · exact causes_evalBody (hother _ rfl)
  · exact causes_evalTurns h

/-- The parts of a line are evaluated in the frame of the line. -/
theorem causes_evalParts {ps : List Part} (h : ∀ n, .expr n ∈ ps → Causes e names c (ev n c)) :
    Causes e names c (evalParts ev c ps) := by
  induction ps with
  | nil => exact .pure []
  | cons p ps ih =>
    have hrest := ih fun n hn => h n (List.mem_cons_of_mem p hn)
    cases p with
    | text s => exact .bind hrest fun _ => .pure _
    | expr n => exact .bind (h n List.mem_cons_self) fun v => .bind hrest fun _ => .pure _

/-- Reading a value as a key has no effect. -/
theorem causes_evalKey {key : Node} (h : Causes e names c (ev key c)) :
    Causes e names c (evalKey ev c key) := by
  cases key with
  | leaf l => exact .pure _
  | _ => exact .bind h fun v => .pure _

/-- The keys and the values of an object are evaluated in turn. -/
theorem causes_evalMembers {ms : List Member} {before : Table Value}
    (h : ∀ n ∈ ms.flatMap fun m => [m.key, m.value], Causes e names c (ev n c)) :
    Causes e names c (evalMembers ev c before ms) := by
  induction ms generalizing before with
  | nil => exact .pure before
  | cons m ms ih =>
    obtain ⟨key, value⟩ := m
    simp only [List.flatMap_cons, Member.key, Member.value, List.cons_append, List.nil_append,
      List.mem_cons, forall_eq_or_imp] at h
    refine .bind (causes_evalKey h.1) fun k => ?_
    have hrest : Causes e names c (do
        let v ← ev value c
        evalMembers ev c (Table.insert before k v) ms) :=
      .bind h.2.1 fun v => ih h.2.2
    exact .ite (.bind (.fail _) fun _ => hrest) hrest

/-- How filling the element `el` ends that is to be appended to `c`. -/
inductive Fills (e : Engine) (names : String → Prop) (c el : NodeId) :
    Run → EStateM.Result RenderError Run Unit → Prop
  | full {r s t u : Run} : Effect e names true el r s → Effect e names true c s t →
    Effect e names true el t u → Fills e names c el r (.ok () u)
  | broken {whole whole' : Bool} {r s t : Run} (err : RenderError) :
    Effect e names whole el r s → Effect e names whole' c s t →
    Fills e names c el r (.error err t)

/-- A block is evaluated inside the new element. The text behind a tag is evaluated in the
container, and only what it shows goes into the element. -/
theorem fills_evalContent {el : NodeId} {body : Body} {r : Run}
    (h : ∀ n d, body = .block n ∨ body = .text n → Causes e names d (ev n d)) :
    Fills e names c el r (evalContent ev c el body r) := by
  cases body with
  | empty => exact .full .nothing .nothing .nothing
  -- a block is evaluated in the new element
  | block body =>
    have hbody := h body el (.inl rfl)
    cases hev : ev body el r with
    | ok v s =>
      rw [evalContent, bind_of_ok hev]
      exact .full (hbody.of_ok hev) .nothing .nothing
    | error err s =>
      rw [evalContent, bind_of_error hev]
      exact .broken err (hbody.of_error hev) .nothing
  -- a text is evaluated outside of it, and then written to it
  | text body =>
    have hbody := h body c (.inr rfl)
    cases hev : ev body c r with
    | ok v s =>
      rw [evalContent, bind_of_ok hev]
      by_cases hempty : v.display.isEmpty = true
      · simp only [hempty, if_true]
        exact .full .nothing (hbody.of_ok hev) .nothing
      · simp only [hempty]
        exact .full .nothing (hbody.of_ok hev) (.change (.text v.display))
    | error err s =>
      rw [evalContent, bind_of_error hev]
      exact .broken err .nothing (hbody.of_error hev)

/-- An element is created first, then filled by its modifiers and its content, and appended in the
end. -/
theorem causes_element {tag : String} {modifiers : List Node} {body : Body}
    (h : ∀ n d, n ∈ (Node.element tag modifiers body).children → Causes e names d (ev n d)) :
    Causes e names c (e.evalNode ev (.element tag modifiers body) c) := by
  intro r
  have hmodifiers : Causes e names r.next (evalAll ev r.next modifiers) :=
    causes_evalAll fun n hn => h n _ (List.mem_append_left _ hn)
  -- the element is made before its modifiers are evaluated, which write to it
  have hcreate : create (.element tag) r = .ok r.next (r.write (.element tag)) := rfl
  rw [outcome, after, evalNode, bind_of_ok hcreate]
  cases hall : evalAll ev r.next modifiers (r.write (.element tag)) with
  | error err s =>
    rw [bind_of_error hall]
    exact .lost tag (hmodifiers.of_error hall) .nothing
  | ok vs s =>
    rw [bind_of_ok hall]
    have hfills : Fills e names c r.next s (evalContent ev c r.next body s) := by
      refine fills_evalContent fun n d hn => h n d (List.mem_append_right _ ?_)
      rcases hn with rfl | rfl <;> exact List.mem_singleton_self n
    cases hcontent : evalContent ev c r.next body s with
    | error err t =>
      rw [bind_of_error hcontent]
      rw [hcontent] at hfills
      cases hfills with
      | broken _ hinner houter =>
        exact .lost tag (.andThen (hmodifiers.of_ok hall) hinner) houter
    | ok _ u =>
      rw [bind_of_ok hcontent]
      rw [hcontent] at hfills
      cases hfills with
      | full hinner houter hlast =>
        exact .element tag (.andThen (hmodifiers.of_ok hall) hinner) houter hlast

/-- A name is looked up in the scope, which may keep the global value that it finds. -/
theorem evalName_run (e : Engine) (name : String) (r : Run) :
    e.evalName name r = match r.scope.find name (e.global? name) with
      | .ok (v, scope) => .ok v { r with scope }
      | .error _ => .ok .null r := by
  simp only [evalName, get_bind, modifyScope]
  cases r.scope.find name (e.global? name) <;> rfl

section Names

variable {name : String} {v : Value} {r : Run}

/-- A variable hides a global of the same name, and the scope stays as it is. -/
theorem evalName_of_variable (h : r.scope.get? name = some v) : e.evalName name r = .ok v r := by
  have hfind : r.scope.find name (e.global? name) = .ok (v, r.scope) := by simp [Scope.find, h]
  rw [evalName_run, hfind]

/-- A global that has been found is kept as a variable. -/
theorem evalName_of_global (h : r.scope.get? name = none) (hglobal : e.global? name = some v) :
    e.evalName name r = .ok v { r with scope := r.scope.assign name v } := by
  have hfind : r.scope.find name (e.global? name) = .ok (v, r.scope.assign name v) := by
    simp [Scope.find, h, hglobal]
  rw [evalName_run, hfind]

/-- A name that nothing is known of is null and stays unknown. -/
theorem evalName_of_none (h : r.scope.get? name = none) (hglobal : e.global? name = none) :
    e.evalName name r = .ok .null r := by
  have hfind : r.scope.find name (e.global? name) = .error (.undefinedVariable name) := by
    simp [Scope.find, h, hglobal]
  rw [evalName_run, hfind]

end Names

/-- To keep a global as a variable is the one assignment that no template has written. -/
theorem causes_evalName (name : String) : Causes e names c (e.evalName name) := by
  intro r
  cases hvar : r.scope.get? name with
  | some v =>
    rw [outcome, after, evalName_of_variable hvar]
    exact .nothing
  | none =>
    cases hglobal : e.global? name with
    | some v =>
      rw [outcome, after, evalName_of_global hvar hglobal]
      exact .lookUp hvar hglobal
    | none =>
      rw [outcome, after, evalName_of_none hvar hglobal]
      exact .nothing

/-- A template is rendered in a scope of its own. -/
theorem causes_evalTemplate (name : String)
    (h : ∀ root, Causes e (fun _ => True) c (ev root c)) :
    Causes e names c (e.evalTemplate ev name c) := by
  unfold evalTemplate
  split
  · next root _ => exact fun r => Causes.inScope _ (.bind (h root) fun _ => .pure ()) r
  · exact .fail _

/-- A call of the host or of a modifier changes nothing but the container. -/
theorem causes_call (callee : Value) (args : List Value) :
    Causes e names c (e.call c callee args) := by
  cases callee with
  | function f => exact .perform f args
  | _ => exact .fail _

/-- One node has the effects of the nodes below it, and those of its own kind. -/
theorem causes_evalNode (n : Node) (h : ∀ m d, Causes e (fun name => m.Assigns name) d (ev m d)) :
    Causes e (fun name => n.Assigns name) c (e.evalNode ev n c) := by
  -- children in the same frame assign what the node does; a body has a frame of its own and may
  -- assign anything
  have hchild : ∀ m d, m ∈ n.frameChildren → Causes e (fun name => n.Assigns name) d (ev m d) :=
    fun m d hm => (h m d).mono fun _ => .inside hm
  have hbody : ∀ m d, Causes e (fun _ => True) d (ev m d) :=
    fun m d => (h m d).mono fun _ _ => trivial
  cases n with
  | block children => exact .bind (causes_evalBlock fun m => hchild m c) fun _ => .pure _
  | choice branches =>
    exact .bind (causes_evalBranches (fun m => hchild m c) fun b _ => hbody _ c) fun _ => .pure _
  | loop names source body otherwise =>
    refine .bind (hchild _ c List.mem_cons_self) fun items => .bind (.ofResult _) fun turns => ?_
    exact .bind (causes_evalLoop (hbody _ c) fun _ _ => hbody _ c) fun _ => .pure _
  | binary op left right =>
    refine .bind (hchild _ c (by simp [Node.frameChildren, Node.children])) fun a => ?_
    refine .bind (hchild _ c (by simp [Node.frameChildren, Node.children])) fun b => ?_
    exact .ofResult _
  | negation operand => exact .bind (hchild _ c List.mem_cons_self) fun v => .pure _
  | conditional test whenTrue whenFalse =>
    refine .bind (hchild _ c List.mem_cons_self) fun v => ?_
    refine .ite (hchild _ c (by simp [Node.frameChildren, Node.children])) ?_
    cases whenFalse with
    | none => exact .pure _
    | some other => exact hchild _ c (by simp [Node.frameChildren, Node.children])
  | leaf l =>
    cases l with
    | name name => exact causes_evalName name
    | _ => exact .pure _
  | path target segments => exact .bind (hchild _ c List.mem_cons_self) fun v => .ofResult _
  | index target key =>
    refine .bind (hchild _ c List.mem_cons_self) fun v => ?_
    refine .bind (hchild _ c (by simp [Node.frameChildren, Node.children])) fun k => ?_
    exact .ofResult _
  | member item inside =>
    refine .bind (hchild _ c List.mem_cons_self) fun v => ?_
    refine .bind (hchild _ c (by simp [Node.frameChildren, Node.children])) fun k => ?_
    exact .bind (.ofResult _) fun _ => .pure _
  | call callee args =>
    refine .bind (hchild _ c List.mem_cons_self) fun f => ?_
    refine .bind (causes_evalAll fun m hm => hchild m c (List.mem_cons_of_mem _ hm)) fun vs => ?_
    exact causes_call f vs
  | filtered value filters => exact .bind (hchild _ c List.mem_cons_self) fun v => .ofResult _
  | assignment name value =>
    refine .bind (hchild _ c List.mem_cons_self) fun v => ?_
    exact .bind (.assign name v (.here value)) fun _ => .pure _
  | «attribute» name value =>
    exact .bind (hchild _ c List.mem_cons_self) fun v => .bind (.change _) fun _ => .pure _
  | array items => exact .bind (causes_evalAll fun m => hchild m c) fun vs => .pure _
  | object members => exact .bind (causes_evalMembers fun m => hchild m c) fun ms => .pure _
  | output mode parts =>
    refine .bind (causes_evalParts fun m hm => hchild m c ?_) fun ps => .pure _
    exact List.mem_filterMap.2 ⟨_, hm, rfl⟩
  | element tag modifiers body => exact causes_element fun m d => hchild m d
  | render name =>
    exact .bind (causes_evalTemplate name fun root => hbody root c) fun _ => .pure _
  | renderComputed target =>
    refine .bind (hchild _ c List.mem_cons_self) fun v => ?_
    exact .bind (causes_evalTemplate _ fun root => hbody root c) fun _ => .pure _
  | external f => exact .pure _

/-- **Evaluation has no other effects.** Whatever the kind of a node, and whether its evaluation
comes to a value or not, what happens is an effect, and of the variables in the frame in use it
assigns those that the node assigns. -/
theorem causes_eval (e : Engine) (levels : Nat) (n : Node) (c : NodeId) :
    Causes e (fun name => n.Assigns name) c (e.eval levels n c) := by
  induction levels generalizing n c with
  | zero => exact .fail _
  | succ levels ih => exact causes_evalNode n ih

/-- The same, whatever the node assigns. -/
theorem causes_eval_any (e : Engine) (levels : Nat) (n : Node) (c : NodeId) :
    Causes e (fun _ => True) c (e.eval levels n c) :=
  (causes_eval e levels n c).mono fun _ _ => trivial

end Engine

end Stencil
