import Stencil.Engine.Render
import Stencil.Proofs.Effect
/-!
# Allowances

What a rendering can be kept from doing. An allowance says which tags new elements may have, which
names may be given to attributes, and with which errors a rendering may stop. Whether a node keeps
to it by itself can be told from the node; if all nodes of all templates do, and so do the filters
and the functions of the host, then every rendering does.
-/

namespace Stencil

/-! ## Errors of results -/

/-- An error other than that a template is missing. -/
def RenderError.Ordinary (err : RenderError) : Prop :=
  ∀ name, err ≠ .templateNotFound name

/-- A result that fails with errors of a certain kind only. -/
def FailsOnly (p : RenderError → Prop) {α : Type} (x : Except RenderError α) : Prop :=
  ∀ err, x = .error err → p err

namespace FailsOnly

variable {p q : RenderError → Prop} {α β : Type}

theorem ok (a : α) : FailsOnly p (.ok a) := by
  intro err h
  cases h

theorem error {err : RenderError} (h : p err) :
    FailsOnly p (.error err : Except RenderError α) := by
  intro err' h'
  cases h'
  exact h

/-- Every error that the language itself tells names something else than a missing template. -/
theorem ordinary {err : RenderError} (h : ∀ name, err ≠ .templateNotFound name) :
    FailsOnly RenderError.Ordinary (.error err : Except RenderError α) :=
  error h

/-- Where a result is computed in two parts, either of them may be the one that fails. -/
theorem bind {x : Except RenderError α} {f : α → Except RenderError β} (h : FailsOnly p x)
    (hf : ∀ a, FailsOnly p (f a)) : FailsOnly p (x >>= f) := by
  cases x with
  | ok a => exact hf a
  | error err => exact error (h err rfl)

theorem mono {x : Except RenderError α} (h : FailsOnly p x) (hpq : ∀ err, p err → q err) :
    FailsOnly q x :=
  fun err herr => hpq err (h err herr)

/-- Values without an order among them are refused by an error of the operator. -/
theorem compared (op : BinaryOp) (a b : Value) :
    FailsOnly RenderError.Ordinary (op.compared a b) := by
  unfold BinaryOp.compared
  split
  · exact ok _
  · exact ordinary fun _ => nofun

/-- Arithmetic fails on operands that are no numbers, and where the operator has no result. -/
theorem calculated (op : BinaryOp) (f : Number → Number → Option Number) (a b : Value) :
    FailsOnly RenderError.Ordinary (op.calculated f a b) := by
  unfold BinaryOp.calculated
  split
  · split
    · exact ok _
    · exact ordinary fun _ => nofun
  · exact ordinary fun _ => nofun

/-- Where texts or arrays are put together a sum cannot fail; the sum of numbers can. -/
theorem added (a b : Value) : FailsOnly RenderError.Ordinary (BinaryOp.added a b) := by
  unfold BinaryOp.added
  split
  iterate 3 exact ok _
  exact calculated _ _ _ _

/-- No operator looks at templates. -/
theorem apply (op : BinaryOp) (a b : Value) : FailsOnly RenderError.Ordinary (op.apply a b) := by
  cases op with
  | and | or | eq | ne => exact ok _
  | lt | le | gt | ge => exact compared _ a b
  | sub | mul | div =>
    rw [BinaryOp.apply]
    exact calculated _ _ a b
  | add => exact added a b

/-- `null` holds nothing and is asked all the same; only what can never hold anything is refused. -/
theorem contains (container item : Value) :
    FailsOnly RenderError.Ordinary (container.contains item) := by
  unfold Value.contains
  split
  iterate 4 exact ok _
  exact ordinary fun _ => nofun

/-- A path fails at the segment that it cannot follow, and tells the way so far. -/
theorem follow (trail : String) (v : Value) (segments : List String) :
    FailsOnly RenderError.Ordinary (v.follow trail segments) := by
  induction segments generalizing trail v with
  | nil => exact ok v
  | cons segment segments ih =>
    unfold Value.follow
    split
    iterate 2
      dsimp only
      split
      · exact ih _ _
      · exact ordinary fun _ => nofun
    · exact ordinary fun _ => nofun
    · exact ordinary fun _ => nofun

/-- An index fails on a key of the wrong kind. -/
theorem atKey (v key : Value) : FailsOnly RenderError.Ordinary (v.atKey key) := by
  unfold Value.atKey
  split
  · split
    · exact ok _
    · exact ordinary fun _ => nofun
  · exact ok _
  · exact ordinary fun _ => nofun

/-- One turn of a loop fails if its element does not give a value to each name. -/
theorem bindElement (names : List String) (v : Value) :
    FailsOnly RenderError.Ordinary (Loop.bindElement names v) := by
  unfold Loop.bindElement
  split <;> split
  · exact ok _
  · exact ordinary fun _ => nofun
  · exact ok _
  · exact ordinary fun _ => nofun

/-- The turns of a loop are bound one after the other, and the first one that fails is told. -/
theorem bindAll (names : List String) (items : List Value) :
    FailsOnly RenderError.Ordinary (Loop.bindAll names items) := by
  induction items with
  | nil => exact ok _
  | cons item items ih => exact bind (bindElement names item) fun _ => bind ih fun _ => ok _

/-- What a loop runs through is bound before its body is looked at. -/
theorem bindings (names : List String) (source : Value) :
    FailsOnly RenderError.Ordinary (Loop.bindings names source) := by
  unfold Loop.bindings
  split
  · exact ok _
  · exact bindAll names _
  · split
    · exact ok _
    · exact ordinary fun _ => nofun
  · exact ordinary fun _ => nofun

/-- A handler is told by its name or by a function; anything else is an ordinary error. -/
theorem handlerName (args : List Value) :
    FailsOnly RenderError.Ordinary (Callable.handlerName args) := by
  unfold Callable.handlerName
  split
  · exact ok _
  · exact ok _
  · exact ordinary fun _ => nofun
  · exact ordinary fun _ => nofun

/-- The standard filters never tell that a template is missing. -/
theorem standard {name : String} {f : Filter} (h : Table.get? Filter.standard name = some f)
    (v : Value) : FailsOnly RenderError.Ordinary (f v) := by
  have hlength : ∀ v, FailsOnly RenderError.Ordinary (Filter.length v) := by
    intro v
    unfold Filter.length
    split
    iterate 4 exact ok _
    exact ordinary fun _ => nofun
  have hmem := Table.mem_of_get? h
  simp only [Filter.standard, List.mem_cons, Prod.mk.injEq, List.not_mem_nil, or_false] at hmem
  rcases hmem with ⟨-, rfl⟩ | ⟨-, rfl⟩ | ⟨-, rfl⟩ | ⟨-, rfl⟩ | ⟨-, rfl⟩ | ⟨-, rfl⟩ | ⟨-, rfl⟩ |
    ⟨-, rfl⟩ | ⟨-, rfl⟩ | ⟨-, rfl⟩ | ⟨-, rfl⟩
  iterate 6 exact ok _
  · exact hlength v
  · unfold Filter.first
    split <;> exact ok _
  · unfold Filter.last
    split <;> exact ok _
  · unfold Filter.reversed
    split <;> exact ok _
  · exact ok _

end FailsOnly

/-! ## What is allowed -/

/-- What renderings are allowed to do: the tags of the elements they create, the names of the
attributes they set, and the errors with which they stop. Texts and classes are not restricted. -/
structure Allowance where
  tag : String → Prop
  name : String → Prop
  error : RenderError → Prop

namespace Allowance

variable (a : Allowance)

/-- An edit is allowed. -/
def AllowsEdit : Edit → Prop
  | .element tag => a.tag tag
  | .attribute _ name _ => a.name name
  | .text _ | .append _ _ | .className _ _ => True

/-- A change is allowed. -/
def AllowsChange : Change → Prop
  | .attribute name _ => a.name name
  | .className _ | .text _ => True

/-- What a node does by itself is allowed, whatever the nodes below it come to. -/
def Permits (e : Engine) : Node → Prop
  | .element tag _ _ => a.tag tag
  | .attribute name _ => ∀ v, ∀ ch ∈ attributeChanges name v, a.AllowsChange ch
  | .render name => e.hasTemplate name = false → a.error (.templateNotFound name)
  | .renderComputed _ =>
    ∀ name, e.hasTemplate name = false → a.error (.templateNotFound name)
  | _ => True

/-- All that an engine brings to a rendering keeps to what is allowed. -/
structure Covers (e : Engine) : Prop where
  ordinary : ∀ err : RenderError, err.Ordinary → a.error err
  /-- The attribute that a modifier of the language sets. -/
  click : a.name "onclick"
  edits : ∀ name ctx args, ∀ edit ∈ (e.host name ctx args).edits, a.AllowsEdit edit
  answer : ∀ name ctx args, FailsOnly a.error (e.host name ctx args).answer
  filter : ∀ name f v, e.filter? name = some f → FailsOnly a.error (f v)
  nodes : ∀ name root, e.template? name = some root → ∀ n ∈ root.walk, a.Permits e n

/-- From one state of a run to another, only allowed edits have been added. -/
def Adds (r s : Run) : Prop :=
  ∃ edits, s.edits = edits ++ r.edits ∧ ∀ edit ∈ edits, a.AllowsEdit edit

variable {a} {r s t : Run}

/-- A state in which nothing has been written since adds nothing; scopes may differ. -/
theorem Adds.refl (h : s.edits = r.edits) : a.Adds r s :=
  ⟨[], h, fun _ hedit => absurd hedit List.not_mem_nil⟩

/-- The later edits stand in front of the earlier ones. -/
theorem Adds.trans (h : a.Adds r s) (h' : a.Adds s t) : a.Adds r t := by
  obtain ⟨edits, hs, hedits⟩ := h
  obtain ⟨edits', ht, hedits'⟩ := h'
  refine ⟨edits' ++ edits, by rw [ht, hs, List.append_assoc], fun edit hedit => ?_⟩
  exact (List.mem_append.1 hedit).elim (hedits' edit) (hedits edit)

theorem Adds.write {edit : Edit} (h : a.AllowsEdit edit) : a.Adds r (r.write edit) :=
  ⟨[edit], rfl, fun _ hedit => List.mem_singleton.1 hedit ▸ h⟩

/-- A row of edits is allowed if each of them is. -/
theorem Adds.writeAll {edits : List Edit} (h : ∀ edit ∈ edits, a.AllowsEdit edit) :
    a.Adds r (r.writeAll edits) := by
  induction edits generalizing r with
  | nil => exact .refl rfl
  | cons edit edits ih =>
    obtain ⟨hedit, hedits⟩ := List.forall_mem_cons.1 h
    exact (Adds.write hedit).trans (ih hedits)

/-- An allowed change is made by allowed edits. -/
theorem Adds.change {ch : Change} (h : a.AllowsChange ch) (c : NodeId) :
    a.Adds r (r.writeAll (ch.edits c r.next)) := by
  cases ch with
  | «attribute» name value => exact .write h
  | className value => exact .write trivial
  | text content =>
    have htext : a.AllowsEdit (.text content) := trivial
    have happend : a.AllowsEdit (.append c r.next) := trivial
    exact (Adds.write htext).trans (.write happend)

end Allowance

/-! ## Renderings that keep to it -/

namespace Rendering

/-- An end of a part of a rendering that has begun in the state `r` and kept to what is allowed. -/
inductive Kept (a : Allowance) (r : Run) {α : Type} : EStateM.Result RenderError Run α → Prop
  | ok {s : Run} (x : α) : a.Adds r s → Kept a r (.ok x s)
  | error {s : Run} {err : RenderError} : a.error err → a.Adds r s → Kept a r (.error err s)

/-- A part of a rendering that keeps to what is allowed, wherever it begins. -/
def Within (a : Allowance) {α : Type} (m : Rendering α) : Prop :=
  ∀ r, Kept a r (m r)

variable {a : Allowance} {α β : Type} {m : Rendering α} {f : α → Rendering β} {r s : Run}

/-- What has been kept to from a later state has been kept to from an earlier one. -/
theorem Kept.after {r : Run} {x : EStateM.Result RenderError Run α} (h : Kept a r x)
    (hs : a.Adds s r) : Kept a s x := by
  cases h with
  | ok x hadds => exact .ok x (hs.trans hadds)
  | error herr hadds => exact .error herr (hs.trans hadds)

namespace Within

/-- A rendering stops with no error but those that are allowed. -/
theorem error (h : Within a m) {err : RenderError} (hm : m.outcome r = .error err) :
    a.error err := by
  have hkept := h r
  unfold outcome at hm
  generalize m r = x at hkept hm
  cases hkept with
  | ok => cases hm
  | error herr =>
    cases hm
    exact herr

/-- Whether it stops or not, what a rendering has added is allowed. -/
theorem adds (h : Within a m) (r : Run) : a.Adds r (m.after r) := by
  have hkept := h r
  unfold Rendering.after
  generalize m r = x at hkept
  cases hkept with
  | ok _ hadds => exact hadds
  | error _ hadds => exact hadds

theorem pure (x : α) : Within a (Pure.pure x : Rendering α) :=
  fun _ => .ok x (.refl rfl)

theorem fail {err : RenderError} (h : a.error err) : Within a (fail err : Rendering α) :=
  fun _ => .error h (.refl rfl)

/-- A step that computes without writing is kept within what is allowed by its errors alone. -/
theorem ofResult {x : Except RenderError α} (h : FailsOnly a.error x) : Within a (ofResult x) := by
  cases x with
  | ok x => exact pure x
  | error err => exact fail (h err rfl)

/-- The second part starts in the state that the first one has left. -/
theorem bind (h : Within a m) (hf : ∀ x, Within a (f x)) : Within a (m >>= f) := by
  intro r
  have hkept := h r
  change Kept a r (EStateM.bind m f r)
  unfold EStateM.bind
  generalize m r = x at hkept
  cases hkept with
  | ok x hadds => exact (hf x _).after hadds
  | error herr hadds => exact .error herr hadds

theorem ite {p : Prop} [Decidable p] {m' : Rendering α} (h : Within a m) (h' : Within a m') :
    Within a (if p then m else m') := by
  split <;> assumption

theorem modifyScope (g : Scope → Scope) : Within a (modifyScope g) :=
  fun _ => .ok () (.refl rfl)

/-- A single edit is as allowed as the rendering that makes it. -/
theorem edit {edit : Edit} (h : a.AllowsEdit edit) : Within a (Rendering.edit edit) :=
  fun _ => .ok () (.write h)

/-- A new node is told by its edit, and its name is no edit. -/
theorem create {edit : Edit} (h : a.AllowsEdit edit) : Within a (Rendering.create edit) :=
  fun _ => .ok _ (.write h)

/-- A function of the host is held to its edits and to its answer, and to nothing it has read. -/
theorem perform {f : HostFunction} {args : List Value} {c : NodeId}
    (hedits : ∀ ctx, ∀ edit ∈ (f ctx args).edits, a.AllowsEdit edit)
    (hanswer : ∀ ctx, FailsOnly a.error (f ctx args).answer) :
    Within a (Rendering.perform c f args) := by
  intro r
  rw [perform_run]
  exact (ofResult (hanswer _) _).after (.writeAll (hedits _))

/-- Changes are allowed by what they set, wherever their node stands. -/
theorem change {chs : List Change} (h : ∀ ch ∈ chs, a.AllowsChange ch) (c : NodeId) :
    Within a (Rendering.change c chs) := by
  induction chs with
  | nil => exact pure ()
  | cons ch chs ih =>
    have hrest := ih fun ch hch => h ch (List.mem_cons_of_mem _ hch)
    exact fun r => (hrest _).after (.change (h _ List.mem_cons_self) c)

/-- Texts are not restricted. -/
theorem addText (c : NodeId) (content : String) : Within a (Rendering.addText c content) :=
  change (fun _ hch => by rw [List.mem_singleton.1 hch]; trivial) c

/-- Leaving a scope writes nothing. -/
theorem thenScope (h : Within a m) (leave : Scope → Scope) : Within a (thenScope m leave) := by
  intro r
  have hkept := h r
  unfold Rendering.thenScope
  generalize m r = x at hkept
  cases hkept with
  | ok x hadds => exact .ok x hadds
  | error herr hadds => exact .error herr hadds

theorem inFrame (h : Within a m) : Within a (inFrame m) :=
  bind (modifyScope _) fun _ => thenScope h _

/-- A part with a scope of its own writes what it writes, whatever names it sees. -/
theorem inScope (h : Within a m) (scope : Scope) : Within a (inScope scope m) :=
  fun r => bind (modifyScope fun _ => scope) (fun _ => thenScope h fun _ => r.scope) r

/-- A turn of a loop takes its serial number. -/
theorem turn {f : Nat → Rendering α} (h : ∀ serial, Within a (f serial)) :
    Within a fun r => f r.turns { r with turns := r.turns + 1 } :=
  fun r => (h r.turns { r with turns := r.turns + 1 }).after (.refl rfl)

end Within

end Rendering

/-! ## Evaluation -/

namespace Engine

open Rendering

variable {a : Allowance} {e : Engine} {ev : Evaluator} {c : NodeId}

/-- Nodes in a row keep to what is allowed if each of them does; so it is for every way in which a
node evaluates the nodes below it. -/
theorem within_evalAll {ns : List Node} (h : ∀ n ∈ ns, Within a (ev n c)) :
    Within a (evalAll ev c ns) := by
  induction ns with
  | nil => exact .pure []
  | cons n ns ih =>
    refine .bind (h n List.mem_cons_self) fun v => ?_
    exact .bind (ih fun m hm => h m (List.mem_cons_of_mem n hm)) fun vs => .pure _

theorem within_evalBlock {ns : List Node} (h : ∀ n ∈ ns, Within a (ev n c)) :
    Within a (evalBlock ev c ns) := by
  induction ns with
  | nil => exact .pure ()
  | cons n ns ih =>
    refine .bind (h n List.mem_cons_self) fun v => ?_
    have hrest := ih fun m hm => h m (List.mem_cons_of_mem n hm)
    refine .ite (.bind (.addText c _) fun _ => ?_) hrest
    exact .ite (.bind (.addText c _) fun _ => hrest) hrest

theorem within_evalBody {body : Node} (h : Within a (ev body c)) :
    Within a (evalBody ev c body) :=
  .inFrame (.bind h fun _ => .pure ())

/-- Only one branch is taken, but any of them may be. -/
theorem within_evalBranches {bs : List Branch}
    (h : ∀ n ∈ bs.flatMap fun b => b.test.toList ++ [b.body], Within a (ev n c)) :
    Within a (evalBranches ev c bs) := by
  induction bs with
  | nil => exact .pure ()
  | cons b bs ih =>
    rw [List.flatMap_cons, List.forall_mem_append] at h
    obtain ⟨test, body⟩ := b
    have htaken : Within a (evalBody ev c body) :=
      within_evalBody (h.1 body (List.mem_append_right _ (List.mem_singleton_self body)))
    cases test with
    | none => exact htaken
    | some test =>
      have htest := h.1 test (List.mem_append_left _ (List.mem_singleton_self test))
      exact .bind htest fun v => .ite htaken (ih h.2)

/-- All turns of a loop evaluate the same body. -/
theorem within_evalTurns {names : List String} {body : Node} {total turn : Nat}
    {turns : List (List Value)} (h : Within a (ev body c)) :
    Within a (evalTurns ev c names body total turn turns) := by
  induction turns generalizing turn with
  | nil => exact .pure ()
  | cons values rest ih =>
    -- the serial number is taken before the frame of the turn is opened
    refine Within.turn (f := fun serial => do
      inFrame do
        modifyScope fun s => Loop.turnScope s names values (Loop.record turn total serial)
        let _ ← ev body c
      evalTurns ev c names body total (turn + 1) rest) fun serial => ?_
    refine .bind (.inFrame (.bind (.modifyScope _) fun _ => ?_)) fun _ => ih
    exact .bind h fun _ => .pure ()

/-- A loop that has nothing to run through comes to its other body. -/
theorem within_evalLoop {names : List String} {body : Node} {otherwise : Option Node}
    {turns : List (List Value)} (h : Within a (ev body c))
    (hother : ∀ other ∈ otherwise.toList, Within a (ev other c)) :
    Within a (evalLoop ev c names body otherwise turns) := by
  unfold evalLoop
  split
  · exact within_evalBody (hother _ (List.mem_singleton_self _))
  · exact within_evalTurns h

theorem within_evalParts {ps : List Part} (h : ∀ n, .expr n ∈ ps → Within a (ev n c)) :
    Within a (evalParts ev c ps) := by
  induction ps with
  | nil => exact .pure []
  | cons p ps ih =>
    have hrest := ih fun n hn => h n (List.mem_cons_of_mem p hn)
    cases p with
    | text s => exact .bind hrest fun _ => .pure _
    | expr n => exact .bind (h n List.mem_cons_self) fun v => .bind hrest fun _ => .pure _

/-- A key is evaluated like any node and then read as a text, which may fail. -/
theorem within_evalKey {key : Node} (h : Within a (ev key c)) : Within a (evalKey ev c key) := by
  cases key with
  | leaf l => exact .pure _
  | _ => exact .bind h fun v => .pure _

/-- An object may be refused for a name without characters, and that must be allowed. -/
theorem within_evalMembers {ms : List Member} {before : Table Value}
    (hempty : a.error .emptyMemberName)
    (h : ∀ n ∈ ms.flatMap fun m => [m.key, m.value], Within a (ev n c)) :
    Within a (evalMembers ev c before ms) := by
  induction ms generalizing before with
  | nil => exact .pure before
  | cons m ms ih =>
    obtain ⟨key, value⟩ := m
    simp only [List.flatMap_cons, Member.key, Member.value, List.cons_append, List.nil_append,
      List.mem_cons, forall_eq_or_imp] at h
    refine .bind (within_evalKey h.1) fun k => ?_
    have hrest : Within a (do
        let v ← ev value c
        evalMembers ev c (Table.insert before k v) ms) :=
      .bind h.2.1 fun v => ih h.2.2
    exact .ite (.bind (.fail hempty) fun _ => hrest) hrest

/-- The content of an element is written into the element, and so it is asked of all containers. -/
theorem within_evalContent {el : NodeId} {body : Body}
    (h : ∀ n d, body = .block n ∨ body = .text n → Within a (ev n d)) :
    Within a (evalContent ev c el body) := by
  cases body with
  | empty => exact .pure ()
  | block body => exact .bind (h body el (.inl rfl)) fun _ => .pure ()
  | text body =>
    exact .bind (h body c (.inr rfl)) fun v => .ite (.pure ()) (.addText el _)

/-- A name that stands for nothing gives null, and so looking it up never fails. -/
theorem within_evalName (name : String) : Within a (e.evalName name) := by
  intro r
  rw [evalName_run]
  cases r.scope.find name (e.global? name) with
  | ok found => exact .ok found.1 (.refl rfl)
  | error err => exact .ok Value.null (.refl rfl)

/-- A template that is not there is an error of its own, which the allowance may leave out only
where it is there. -/
theorem within_evalTemplate {name : String}
    (hmissing : e.hasTemplate name = false → a.error (.templateNotFound name))
    (hroot : ∀ name root, e.template? name = some root → ∀ d, Within a (ev root d)) (c : NodeId) :
    Within a (e.evalTemplate ev name c) := by
  unfold evalTemplate
  split
  · next root hget =>
    exact fun r => Within.inScope (.bind (hroot name root hget c) fun _ => .pure ()) _ r
  · next hget =>
    refine .fail (hmissing ?_)
    change (e.template? name).isSome = false
    rw [hget]
    rfl

section Covered

variable (h : a.Covers e)
include h

/-- Filters are applied one after the other, and one that is not known is an ordinary error. -/
theorem failsOnly_filtered (v : Value) (names : List String) :
    FailsOnly a.error (e.filtered v names) := by
  induction names generalizing v with
  | nil => exact .ok v
  | cons name names ih =>
    unfold filtered
    split
    · next f hf => exact .bind (h.filter name f v hf) fun w => ih w
    · exact .error (h.ordinary _ fun _ => nofun)

/-- What can be called has been covered, and a value that cannot be called is refused with an
ordinary error. -/
theorem within_call (callee : Value) (args : List Value) : Within a (e.call c callee args) := by
  cases callee with
  | function f =>
    -- what a function writes, and then what it answers
    refine .perform (fun ctx => ?_) fun ctx => ?_
    · cases f with
      | cycle turn serial => exact fun edit hedit => absurd hedit List.not_mem_nil
      | host name => exact h.edits name ctx args
      | click =>
        intro edit hedit
        rw [Callable.reply, Callable.clickReply] at hedit
        cases hname : Callable.handlerName args with
        | ok handler =>
          rw [hname] at hedit
          exact List.mem_singleton.1 hedit ▸ h.click
        | error err =>
          rw [hname] at hedit
          exact absurd hedit List.not_mem_nil
    · cases f with
      | cycle turn serial => exact .ok _
      | host name => exact h.answer name ctx args
      | click =>
        have hordinary := (FailsOnly.handlerName args).mono h.ordinary
        rw [Callable.reply, Callable.clickReply]
        cases hname : Callable.handlerName args with
        | ok handler => exact .ok _
        | error err => exact .error (hordinary err hname)
  | _ => exact .fail (h.ordinary _ fun _ heq => by cases heq)

/-- **One node keeps to what is allowed** if the nodes below it do, and if it does so itself. -/
theorem within_evalNode {n : Node} (hn : a.Permits e n)
    (hchild : ∀ m ∈ n.children, ∀ d, Within a (ev m d))
    (hroot : ∀ name root, e.template? name = some root → ∀ d, Within a (ev root d)) (c : NodeId) :
    Within a (e.evalNode ev n c) := by
  have hresult : ∀ {α : Type} {x : Except RenderError α}, FailsOnly RenderError.Ordinary x →
      Within a (ofResult x) := fun hx => .ofResult (hx.mono h.ordinary)
  cases n with
  | block children =>
    exact .bind (within_evalBlock fun m hm => hchild m hm c) fun _ => .pure _
  | choice branches =>
    exact .bind (within_evalBranches fun m hm => hchild m hm c) fun _ => .pure _
  | loop names source body otherwise =>
    simp only [Node.children, List.mem_cons, forall_eq_or_imp] at hchild
    obtain ⟨hsource, hbody, hother⟩ := hchild
    refine .bind (hsource c) fun items => .bind (hresult (.bindings _ _)) fun turns => ?_
    exact .bind (within_evalLoop (hbody c) fun m hm => hother m hm c) fun _ => .pure _
  | binary op left right =>
    simp only [Node.children, List.mem_cons, forall_eq_or_imp] at hchild
    exact .bind (hchild.1 c) fun x => .bind (hchild.2.1 c) fun y => hresult (.apply op x y)
  | negation operand => exact .bind (hchild operand List.mem_cons_self c) fun v => .pure _
  | conditional test whenTrue whenFalse =>
    simp only [Node.children, List.mem_cons, forall_eq_or_imp] at hchild
    obtain ⟨htest, htrue, hfalse⟩ := hchild
    refine .bind (htest c) fun v => .ite (htrue c) ?_
    cases whenFalse with
    | none => exact .pure _
    | some other => exact hfalse other (List.mem_singleton_self other) c
  | leaf l =>
    cases l with
    | name name => exact within_evalName name
    | _ => exact .pure _
  | path target segments =>
    exact .bind (hchild target List.mem_cons_self c) fun v => hresult (.follow _ v segments)
  | index target key =>
    simp only [Node.children, List.mem_cons, forall_eq_or_imp] at hchild
    exact .bind (hchild.1 c) fun v => .bind (hchild.2.1 c) fun k => hresult (.atKey v k)
  | member item inside =>
    simp only [Node.children, List.mem_cons, forall_eq_or_imp] at hchild
    refine .bind (hchild.1 c) fun v => .bind (hchild.2.1 c) fun k => ?_
    exact .bind (hresult (.contains k v)) fun _ => .pure _
  | call callee args =>
    refine .bind (hchild callee List.mem_cons_self c) fun f => ?_
    refine .bind (within_evalAll fun m hm => ?_) fun vs => within_call h f vs
    exact hchild m (List.mem_cons_of_mem callee hm) c
  | filtered value filters =>
    refine .bind (hchild value List.mem_cons_self c) fun v => ?_
    exact .ofResult (failsOnly_filtered h v filters)
  | assignment name value =>
    refine .bind (hchild value List.mem_cons_self c) fun v => ?_
    exact .bind (.modifyScope _) fun _ => .pure _
  | «attribute» name value =>
    refine .bind (hchild value List.mem_cons_self c) fun v => ?_
    exact .bind (.change (hn v) c) fun _ => .pure _
  | array items => exact .bind (within_evalAll fun m hm => hchild m hm c) fun vs => .pure _
  | object members =>
    have hempty : a.error .emptyMemberName := h.ordinary _ fun _ heq => by cases heq
    exact .bind (within_evalMembers hempty fun m hm => hchild m hm c) fun ms => .pure _
  | output mode parts =>
    refine .bind (within_evalParts fun m hm => hchild m ?_ c) fun ps => .pure _
    exact List.mem_filterMap.2 ⟨_, hm, rfl⟩
  | element tag modifiers body =>
    -- the modifiers and a block change the new element, a text is evaluated outside it
    refine .bind (.create hn) fun el => ?_
    refine .bind (within_evalAll fun m hm => hchild m (List.mem_append_left _ hm) el) fun _ => ?_
    refine .bind (within_evalContent fun m d hm => hchild m (List.mem_append_right _ ?_) d)
      fun _ => .bind (.edit trivial) fun _ => .pure _
    rcases hm with rfl | rfl <;> exact List.mem_singleton_self m
  | render name => exact .bind (within_evalTemplate hn hroot c) fun _ => .pure _
  | renderComputed target =>
    refine .bind (hchild target List.mem_cons_self c) fun v => ?_
    exact .bind (within_evalTemplate (hn _) hroot c) fun _ => .pure _
  | external f => exact .pure _

/-- **Evaluation keeps to what is allowed** for a node all of whose nodes do, with any number of
levels of nesting left. -/
theorem within_eval (levels : Nat) {n : Node} (hn : ∀ m ∈ n.walk, a.Permits e m) (c : NodeId) :
    Within a (e.eval levels n c) := by
  induction levels generalizing n c with
  | zero => exact .fail (h.ordinary _ fun _ => nofun)
  | succ levels ih =>
    refine within_evalNode h (hn n n.mem_walk_self) (fun m hm d => ih ?_ d) (fun name root hget d =>
      ih (h.nodes name root hget) d) c
    exact fun x hx => hn x (Node.walk_subset_of_mem_children hm hx)

/-- **So does rendering a template**, whichever variables it gets. -/
theorem within_renderIn {name : String} (hname : e.hasTemplate name = true) (c : NodeId) :
    Within a (e.renderIn name c) := by
  refine within_evalTemplate (fun hmissing => ?_) (fun name root hget d => ?_) c
  · rw [hname] at hmissing
    cases hmissing
  · exact within_eval h e.settings.maxDepth (h.nodes name root hget) d

/-- A rendering without a container creates one, whose tag has to be allowed as well. -/
theorem within_renderRun {name : String} (hname : e.hasTemplate name = true)
    {container : Option NodeId} (htag : container = none → a.tag e.settings.containerTag) :
    Within a (e.renderRun name container) := by
  have hrest : ∀ c, Within a (do e.renderIn name c; return c) :=
    fun c => .bind (within_renderIn h hname c) fun _ => .pure c
  cases container with
  | some c => exact .bind (.pure c) hrest
  | none =>
    refine .bind (.bind (.create (htag rfl)) fun c => .bind (.edit ?_) fun _ => .pure c) hrest
    exact trivial

end Covered

end Engine

end Stencil
