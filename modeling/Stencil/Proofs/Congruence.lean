import Mathlib.Data.List.Forall2
import Stencil.Engine.Render
import Stencil.Proofs.Frames
/-!
# Congruences

Two evaluations side by side. An evaluation is put together from a few steps, and a relation of
parts of renderings that is kept by each of these steps is a congruence. It relates the evaluations
of two nodes of the same shape as soon as it relates those of the nodes right below them. The kinds
of nodes are gone through here once for all such relations.
-/

namespace Stencil

/-! ## Nodes of the same shape -/

section Matched

variable (R : Node → Node → Prop)

/-- Two branches whose parts correspond. -/
inductive Branch.Matched : Branch → Branch → Prop
  | untested {body body' : Node} : R body body' → Matched (.mk none body) (.mk none body')
  | tested {test test' body body' : Node} : R test test' → R body body' →
    Matched (.mk (some test) body) (.mk (some test') body')

/-- Two members of object literals whose parts correspond. -/
inductive Member.Matched : Member → Member → Prop
  | mk {key key' value value' : Node} : R key key' → R value value' →
    Matched (.mk key value) (.mk key' value')

/-- Two parts of lines that correspond. -/
inductive Part.Matched : Part → Part → Prop
  | text (s : String) : Matched (.text s) (.text s)
  | expr {n n' : Node} : R n n' → Matched (.expr n) (.expr n')

/-- Two contents of elements that correspond. -/
inductive Body.Matched : Body → Body → Prop
  | empty : Matched .empty .empty
  | block {n n' : Node} : R n n' → Matched (.block n) (.block n')
  | text {n n' : Node} : R n n' → Matched (.text n) (.text n')

/-- Two nodes that differ at most in the nodes right below them, and there correspond. -/
inductive Node.Matched : Node → Node → Prop
  | block {ns ns' : List Node} : List.Forall₂ R ns ns' → Matched (.block ns) (.block ns')
  | choice {bs bs' : List Branch} : List.Forall₂ (Branch.Matched R) bs bs' →
    Matched (.choice bs) (.choice bs')
  | loop (names : List String) {source source' body body' : Node}
    {otherwise otherwise' : Option Node} : R source source' → R body body' →
    Option.Rel R otherwise otherwise' →
    Matched (.loop names source body otherwise) (.loop names source' body' otherwise')
  | binary (op : BinaryOp) {left left' right right' : Node} : R left left' → R right right' →
    Matched (.binary op left right) (.binary op left' right')
  | negation {n n' : Node} : R n n' → Matched (.negation n) (.negation n')
  | conditional {test test' whenTrue whenTrue' : Node} {whenFalse whenFalse' : Option Node} :
    R test test' → R whenTrue whenTrue' → Option.Rel R whenFalse whenFalse' →
    Matched (.conditional test whenTrue whenFalse) (.conditional test' whenTrue' whenFalse')
  | leaf (l : Leaf) : Matched (.leaf l) (.leaf l)
  | path (segments : List String) {target target' : Node} : R target target' →
    Matched (.path target segments) (.path target' segments)
  | index {target target' key key' : Node} : R target target' → R key key' →
    Matched (.index target key) (.index target' key')
  | member {item item' inside inside' : Node} : R item item' → R inside inside' →
    Matched (.member item inside) (.member item' inside')
  | call {callee callee' : Node} {args args' : List Node} : R callee callee' →
    List.Forall₂ R args args' → Matched (.call callee args) (.call callee' args')
  | filtered (filters : List String) {value value' : Node} : R value value' →
    Matched (.filtered value filters) (.filtered value' filters)
  | assignment (name : String) {value value' : Node} : R value value' →
    Matched (.assignment name value) (.assignment name value')
  | attribute (name : String) {value value' : Node} : R value value' →
    Matched (.attribute name value) (.attribute name value')
  | array {items items' : List Node} : List.Forall₂ R items items' →
    Matched (.array items) (.array items')
  | object {members members' : List Member} : List.Forall₂ (Member.Matched R) members members' →
    Matched (.object members) (.object members')
  | output (mode : OutputMode) {parts parts' : List Part} :
    List.Forall₂ (Part.Matched R) parts parts' →
    Matched (.output mode parts) (.output mode parts')
  | element (tag : String) {modifiers modifiers' : List Node} {body body' : Body} :
    List.Forall₂ R modifiers modifiers' → Body.Matched R body body' →
    Matched (.element tag modifiers body) (.element tag modifiers' body')
  | render (name : String) : Matched (.render name) (.render name)
  | renderComputed {target target' : Node} : R target target' →
    Matched (.renderComputed target) (.renderComputed target')
  | external (v : Value) : Matched (.external v) (.external v)

end Matched

namespace Node

variable {R : Node → Node → Prop}

/-- A part that may be missing is missing on both sides. -/
theorem rel_of_toList {o : Option Node} (h : ∀ m ∈ o.toList, R m m) : Option.Rel R o o := by
  cases o with
  | none => exact .none
  | some m => exact .some (h m (List.mem_singleton_self m))

/-- A branch is matched with itself if its test and its body are related to themselves. -/
theorem matched_branches {bs : List Branch}
    (h : ∀ m ∈ bs.flatMap fun b => b.test.toList ++ [b.body], R m m) :
    List.Forall₂ (Branch.Matched R) bs bs := by
  induction bs with
  | nil => exact .nil
  | cons b bs ih =>
    rw [List.flatMap_cons, List.forall_mem_append] at h
    refine .cons ?_ (ih h.2)
    obtain ⟨test, body⟩ := b
    have hbody : R body body :=
      h.1 body (List.mem_append_right _ (List.mem_singleton_self body))
    cases test with
    | none => exact .untested hbody
    | some test =>
      exact .tested (h.1 test (List.mem_append_left _ (List.mem_singleton_self test))) hbody

/-- The same for members. -/
theorem matched_members {ms : List Member}
    (h : ∀ m ∈ ms.flatMap fun m => [m.key, m.value], R m m) :
    List.Forall₂ (Member.Matched R) ms ms := by
  induction ms with
  | nil => exact .nil
  | cons m ms ih =>
    obtain ⟨key, value⟩ := m
    simp only [List.flatMap_cons, Member.key, Member.value, List.cons_append, List.nil_append,
      List.mem_cons, forall_eq_or_imp] at h
    exact .cons (.mk h.1 h.2.1) (ih h.2.2)

/-- The same for the parts of a line, of which texts are always matched. -/
theorem matched_parts {ps : List Part} (h : ∀ n, .expr n ∈ ps → R n n) :
    List.Forall₂ (Part.Matched R) ps ps := by
  induction ps with
  | nil => exact .nil
  | cons p ps ih =>
    refine .cons ?_ (ih fun n hn => h n (List.mem_cons_of_mem p hn))
    cases p with
    | text s => exact .text s
    | expr n => exact .expr (h n List.mem_cons_self)

/-- A node matches itself if the nodes right below it correspond to themselves. -/
theorem Matched.refl (n : Node) (h : ∀ m ∈ n.children, R m m) : Matched R n n := by
  cases n with
  | block children => exact .block (List.forall₂_same.2 h)
  | choice branches => exact .choice (matched_branches h)
  | loop names source body otherwise =>
    simp only [children, List.mem_cons, forall_eq_or_imp] at h
    exact .loop names h.1 h.2.1 (rel_of_toList h.2.2)
  | binary op left right =>
    exact .binary op (h left (by simp [children])) (h right (by simp [children]))
  | negation operand => exact .negation (h operand List.mem_cons_self)
  | conditional test whenTrue whenFalse =>
    simp only [children, List.mem_cons, forall_eq_or_imp] at h
    exact .conditional h.1 h.2.1 (rel_of_toList h.2.2)
  | leaf l => exact .leaf l
  | path target segments => exact .path segments (h target List.mem_cons_self)
  | index target key =>
    exact .index (h target List.mem_cons_self) (h key (by simp [children]))
  | member item inside =>
    exact .member (h item List.mem_cons_self) (h inside (by simp [children]))
  | call callee args =>
    refine .call (h callee List.mem_cons_self) (List.forall₂_same.2 fun m hm => ?_)
    exact h m (List.mem_cons_of_mem callee hm)
  | filtered value filters => exact .filtered filters (h value List.mem_cons_self)
  | assignment name value => exact .assignment name (h value List.mem_cons_self)
  | «attribute» name value => exact .attribute name (h value List.mem_cons_self)
  | array items => exact .array (List.forall₂_same.2 h)
  | object members => exact .object (matched_members h)
  | output mode parts =>
    refine .output mode (matched_parts fun m hm => h m ?_)
    exact List.mem_filterMap.2 ⟨_, hm, rfl⟩
  | element tag modifiers body =>
    refine .element tag (List.forall₂_same.2 fun m hm => h m (List.mem_append_left _ hm)) ?_
    cases body with
    | empty => exact .empty
    | block m => exact .block (h m (List.mem_append_right _ (List.mem_singleton_self m)))
    | text m => exact .text (h m (List.mem_append_right _ (List.mem_singleton_self m)))
  | render name => exact .render name
  | renderComputed target => exact .renderComputed (h target List.mem_cons_self)
  | external v => exact .external v

/-- Two nodes that are the same in all that is asked of a node besides its value: whether it is a
line, how errors call it, and which leaf it is. -/
structure Resembles (n n' : Node) : Prop where
  isOutput : n.isOutput = n'.isOutput
  describe : n.describe = n'.describe
  leaf : ∀ l, n = .leaf l ↔ n' = .leaf l

/-- A node resembles itself, and so relations of equal nodes are a case of this. -/
theorem Resembles.refl (n : Node) : Resembles n n :=
  ⟨rfl, rfl, fun _ => Iff.rfl⟩

end Node

/-! ## Relations that evaluation keeps -/

open Rendering

/-- A relation between parts of renderings with the engines `e` and `e'` that is kept by every step
an evaluation is put together from, together with the containers that correspond. -/
structure Congruence (e e' : Engine) where
  rel : {α : Type} → Rendering α → Rendering α → Prop
  node : NodeId → NodeId → Prop
  filter : ∀ name, e.filter? name = e'.filter? name
  pure : ∀ {α : Type} (a : α), rel (Pure.pure a) (Pure.pure a)
  fail : ∀ {α : Type} (err : RenderError), rel (fail err : Rendering α) (fail err)
  bind : ∀ {α β : Type} {m m' : Rendering α} {f f' : α → Rendering β}, rel m m' →
    (∀ a, rel (f a) (f' a)) → rel (m >>= f) (m' >>= f')
  assign : ∀ (name : String) (v : Value),
    rel (modifyScope fun s => s.assign name v) (modifyScope fun s => s.assign name v)
  /-- A body has a copy of the frame in use. -/
  opened : ∀ {α : Type} {m m' : Rendering α}, rel m m' →
    rel (fun r => inScope r.scope.opened m r) fun r => inScope r.scope.opened m' r
  /-- A template begins with what can be seen. -/
  entered : ∀ {α : Type} {m m' : Rendering α}, rel m m' →
    rel (fun r => inScope (.ofFrame r.scope.top) m r) fun r => inScope (.ofFrame r.scope.top) m' r
  /-- A turn of a loop takes its serial number. -/
  turn : ∀ {α : Type} {f f' : Nat → Rendering α}, (∀ serial, rel (f serial) (f' serial)) →
    rel (fun r => f r.turns { r with turns := r.turns + 1 })
      fun r => f' r.turns { r with turns := r.turns + 1 }
  /-- A function is called in containers that correspond. -/
  perform : ∀ {c c' : NodeId} (f : Callable) (args : List Value), node c c' →
    rel (Rendering.perform c (f.reply e.host) args) (Rendering.perform c' (f.reply e'.host) args)
  change : ∀ {c c' : NodeId} (ch : Change), node c c' →
    rel (Rendering.change c [ch]) (Rendering.change c' [ch])
  element : ∀ {α : Type} {f f' : NodeId → Rendering α} (tag : String),
    (∀ el el', node el el' → rel (f el) (f' el')) →
    rel (create (.element tag) >>= f) (create (.element tag) >>= f')
  append : ∀ {c c' x x' : NodeId}, node c c' → node x x' →
    rel (edit (.append c x)) (edit (.append c' x'))

namespace Congruence

variable {e e' : Engine} (cong : Congruence e e') {levels levels' : Nat} {c c' : NodeId}

/-- Two nodes are evaluated in related ways, with so many levels of nesting left, in all containers
that correspond. -/
def On (levels levels' : Nat) (n n' : Node) : Prop :=
  ∀ c c', cong.node c c' → cong.rel (e.eval levels n c) (e'.eval levels' n' c')

/-! ### Steps -/

/-- A step that only computes is the same on both sides. -/
theorem ofResult {α : Type} (x : Except RenderError α) :
    cong.rel (Rendering.ofResult x) (Rendering.ofResult x) := by
  cases x with
  | ok a => exact cong.pure a
  | error err => exact cong.fail err

/-- A test that both sides agree on leaves them in the same branch. -/
theorem ite {α : Type} {p : Prop} [Decidable p] {m m' l l' : Rendering α} (h : cong.rel m m')
    (h' : cong.rel l l') : cong.rel (if p then m else l) (if p then m' else l') := by
  by_cases hp : p
  · rw [if_pos hp, if_pos hp]
    exact h
  · rw [if_neg hp, if_neg hp]
    exact h'

/-- Changes are made to containers that correspond. -/
theorem changes (hc : cong.node c c') (chs : List Change) :
    cong.rel (Rendering.change c chs) (Rendering.change c' chs) := by
  induction chs with
  | nil => exact cong.pure ()
  | cons ch chs ih => exact cong.bind (cong.change ch hc) fun _ => ih

theorem addText (hc : cong.node c c') (content : String) :
    cong.rel (Rendering.addText c content) (Rendering.addText c' content) :=
  cong.change _ hc

/-- The names of a turn are bound in the same way on both sides. -/
theorem turnScope (names : List String) (values : List Value) (record : Value) :
    cong.rel (modifyScope fun s => Loop.turnScope s names values record)
      (modifyScope fun s => Loop.turnScope s names values record) := by
  have hnames : ∀ entries : List (String × Value),
      cong.rel (modifyScope fun s => entries.foldl (fun s entry => s.assign entry.1 entry.2) s)
        (modifyScope fun s => entries.foldl (fun s entry => s.assign entry.1 entry.2) s) := by
    intro entries
    induction entries with
    | nil => exact cong.pure ()
    | cons entry entries ih => exact cong.bind (cong.assign entry.1 entry.2) fun _ => ih
  exact cong.bind (hnames (names.zip values)) fun _ => cong.assign "loop" record

/-- A body has effects in its container only, which is what a frame of its own may be asked for. -/
theorem causes_body (e : Engine) (levels : Nat) (body : Node) (c : NodeId) :
    Causes e (fun _ => True) c (do let _ ← e.eval levels body c) :=
  .bind (Engine.causes_eval_any e levels body c) fun _ => .pure ()

/-- What is done in a frame of its own is done in a copy of the frame in use, as it brings the scope
from before back. -/
theorem inFrame {α : Type} {m m' : Rendering α} (h : cong.rel m m')
    (hm : Causes e (fun _ => True) c m) (hm' : Causes e' (fun _ => True) c' m') :
    cong.rel (Rendering.inFrame m) (Rendering.inFrame m') := by
  rw [hm.inFrame_eq, hm'.inFrame_eq]
  exact cong.opened h

/-! ### Lists of nodes -/

section Nodes

variable {R : Node → Node → Prop} (hR : ∀ n n', R n n' → cong.On levels levels' n n')
include hR

/-- Lists of nodes are gone through side by side. -/
theorem rel_evalAll {ns ns' : List Node} (h : List.Forall₂ R ns ns') (hc : cong.node c c') :
    cong.rel (Engine.evalAll (e.eval levels) c ns) (Engine.evalAll (e'.eval levels') c' ns') := by
  induction h with
  | nil => exact cong.pure []
  | cons hn _ ih => exact cong.bind (hR _ _ hn c c' hc) fun v => cong.bind ih fun vs => cong.pure _

/-- A block joins its lines; so both sides have to agree on what is a line. -/
theorem rel_evalBlock (hout : ∀ n n', R n n' → n.isOutput = n'.isOutput) {ns ns' : List Node}
    (h : List.Forall₂ R ns ns') (hc : cong.node c c') :
    cong.rel (Engine.evalBlock (e.eval levels) c ns)
      (Engine.evalBlock (e'.eval levels') c' ns') := by
  induction h with
  | nil => exact cong.pure ()
  | @cons n n' ns ns' hn hns ih =>
    -- a line is followed by a break if another line comes next
    have hhead : ns.head?.any Node.isOutput = ns'.head?.any Node.isOutput := by
      cases hns with
      | nil => rfl
      | cons hm _ => exact hout _ _ hm
    rw [Engine.evalBlock, Engine.evalBlock, hout n n' hn, hhead]
    refine cong.bind (hR n n' hn c c' hc) fun v => ?_
    refine cong.ite (cong.bind (cong.addText hc _) fun _ => ?_) ih
    exact cong.ite (cong.bind (cong.addText hc _) fun _ => ih) ih

theorem rel_evalBody {body body' : Node} (h : R body body') (hc : cong.node c c') :
    cong.rel (Engine.evalBody (e.eval levels) c body)
      (Engine.evalBody (e'.eval levels') c' body') := by
  have hinside := cong.bind (hR _ _ h c c' hc) fun _ => cong.pure ()
  exact cong.inFrame hinside (causes_body e levels body c) (causes_body e' levels' body' c')

/-- The tests agree on the branch that is taken. -/
theorem rel_evalBranches {bs bs' : List Branch} (h : List.Forall₂ (Branch.Matched R) bs bs')
    (hc : cong.node c c') :
    cong.rel (Engine.evalBranches (e.eval levels) c bs)
      (Engine.evalBranches (e'.eval levels') c' bs') := by
  induction h with
  | nil => exact cong.pure ()
  | cons hb _ ih =>
    cases hb with
    | untested hbody => exact cong.rel_evalBody hR hbody hc
    | tested htest hbody =>
      refine cong.bind (hR _ _ htest c c' hc) fun v => ?_
      exact cong.ite (cong.rel_evalBody hR hbody hc) ih

/-- The turns are the same, since both sides loop over the same value. -/
theorem rel_evalTurns {names : List String} {body body' : Node} {total turn : Nat}
    {turns : List (List Value)} (h : R body body') (hc : cong.node c c') :
    cong.rel (Engine.evalTurns (e.eval levels) c names body total turn turns)
      (Engine.evalTurns (e'.eval levels') c' names body' total turn turns) := by
  induction turns generalizing turn with
  | nil => exact cong.pure ()
  | cons values rest ih =>
    have hturn : ∀ serial, cong.rel
        (do
          Rendering.inFrame do
            modifyScope fun s => Loop.turnScope s names values (Loop.record turn total serial)
            let _ ← e.eval levels body c
          Engine.evalTurns (e.eval levels) c names body total (turn + 1) rest)
        (do
          Rendering.inFrame do
            modifyScope fun s => Loop.turnScope s names values (Loop.record turn total serial)
            let _ ← e'.eval levels' body' c'
          Engine.evalTurns (e'.eval levels') c' names body' total (turn + 1) rest) := by
      intro serial
      have hinside := cong.bind (cong.turnScope names values (Loop.record turn total serial))
        fun _ => cong.bind (hR _ _ h c c' hc) fun _ => cong.pure ()
      -- a turn on either side only writes, so its frame can be dropped again
      have hcauses : ∀ (e : Engine) levels body c, Causes e (fun _ => True) c (do
          modifyScope fun s => Loop.turnScope s names values (Loop.record turn total serial)
          let _ ← e.eval levels body c) :=
        fun e levels body c =>
          .bind (Engine.causes_turnScope _) fun _ => causes_body e levels body c
      exact cong.bind (cong.inFrame hinside (hcauses e levels body c)
        (hcauses e' levels' body' c')) fun _ => ih
    exact cong.turn hturn

/-- Both sides have turns or neither has. -/
theorem rel_evalLoop {names : List String} {body body' : Node} {otherwise otherwise' : Option Node}
    {turns : List (List Value)} (h : R body body') (hother : Option.Rel R otherwise otherwise')
    (hc : cong.node c c') :
    cong.rel (Engine.evalLoop (e.eval levels) c names body otherwise turns)
      (Engine.evalLoop (e'.eval levels') c' names body' otherwise' turns) := by
  cases turns with
  | cons values rest => exact cong.rel_evalTurns hR h hc
  | nil =>
    cases hother with
    | some hother => exact cong.rel_evalBody hR hother hc
    | none => exact cong.rel_evalTurns hR h hc

/-- The parts of a line are put together from equal values. -/
theorem rel_evalParts {ps ps' : List Part} (h : List.Forall₂ (Part.Matched R) ps ps')
    (hc : cong.node c c') :
    cong.rel (Engine.evalParts (e.eval levels) c ps)
      (Engine.evalParts (e'.eval levels') c' ps') := by
  induction h with
  | nil => exact cong.pure []
  | cons hp _ ih =>
    cases hp with
    | text s => exact cong.bind ih fun _ => cong.pure _
    | expr hn => exact cong.bind (hR _ _ hn c c' hc) fun v => cong.bind ih fun _ => cong.pure _

/-- A name in the place of a key stands for itself, and so both sides have to agree on leaves. -/
theorem rel_evalKey {key key' : Node} (hleaf : ∀ l, key = .leaf l ↔ key' = .leaf l)
    (h : R key key') (hc : cong.node c c') :
    cong.rel (Engine.evalKey (e.eval levels) c key) (Engine.evalKey (e'.eval levels') c' key') := by
  -- a leaf is a key as it stands and is not evaluated
  by_cases hkey : ∃ l, key = .leaf l
  · obtain ⟨l, rfl⟩ := hkey
    obtain rfl : key' = .leaf l := (hleaf l).1 rfl
    exact cong.pure _
  · have hcomputed : ∀ {n : Node} (ev : Evaluator) (c : NodeId), (∀ l, n ≠ .leaf l) →
        Engine.evalKey ev c n = do return (← ev n c).display := by
      intro n ev c hn
      cases n with
      | leaf l => exact absurd rfl (hn l)
      | _ => rfl
    have hne : ∀ l, key ≠ .leaf l := fun l hl => hkey ⟨l, hl⟩
    rw [hcomputed _ c hne, hcomputed _ c' fun l hl => hne l ((hleaf l).2 hl)]
    exact cong.bind (hR _ _ h c c' hc) fun v => cong.pure _

/-- Members are related one by one, after those that have been evaluated before. -/
theorem rel_evalMembers (hleaf : ∀ n n', R n n' → ∀ l, n = .leaf l ↔ n' = .leaf l)
    {ms ms' : List Member} {before : Table Value}
    (h : List.Forall₂ (Member.Matched R) ms ms') (hc : cong.node c c') :
    cong.rel (Engine.evalMembers (e.eval levels) c before ms)
      (Engine.evalMembers (e'.eval levels') c' before ms') := by
  induction h generalizing before with
  | nil => exact cong.pure before
  | cons hm _ ih =>
    obtain ⟨hkey, hvalue⟩ := hm
    refine cong.bind (cong.rel_evalKey hR (hleaf _ _ hkey) hkey hc) fun k => ?_
    have hrest := cong.bind (hR _ _ hvalue c c' hc) fun v => @ih (Table.insert before k v)
    exact cong.ite (cong.bind (cong.fail _) fun _ => hrest) hrest

/-- The contents of elements that correspond are related. -/
theorem rel_evalContent {el el' : NodeId} {body body' : Body} (h : Body.Matched R body body')
    (hc : cong.node c c') (hel : cong.node el el') :
    cong.rel (Engine.evalContent (e.eval levels) c el body)
      (Engine.evalContent (e'.eval levels') c' el' body') := by
  cases h with
  | empty => exact cong.pure ()
  | block hbody => exact cong.bind (hR _ _ hbody el el' hel) fun _ => cong.pure ()
  | text hbody =>
    refine cong.bind (hR _ _ hbody c c' hc) fun v => ?_
    exact cong.ite (cong.pure ()) (cong.addText hel _)

/-- Both sides create an element, and from then on the new nodes correspond. -/
theorem rel_element {tag : String} {modifiers modifiers' : List Node} {body body' : Body}
    (h : List.Forall₂ R modifiers modifiers') (hbody : Body.Matched R body body')
    (hc : cong.node c c') :
    cong.rel (e.evalNode (e.eval levels) (.element tag modifiers body) c)
      (e'.evalNode (e'.eval levels') (.element tag modifiers' body') c') := by
  refine cong.element tag fun el el' hel => ?_
  refine cong.bind (cong.rel_evalAll hR h hel) fun _ => ?_
  refine cong.bind (cong.rel_evalContent hR hbody hc hel) fun _ => ?_
  exact cong.bind (cong.append hc hel) fun _ => cong.pure _

end Nodes

/-! ### Nodes -/

/-- The filters are the same on both sides. -/
theorem filtered_eq (cong : Congruence e e') (v : Value) (names : List String) :
    e.filtered v names = e'.filtered v names := by
  induction names generalizing v with
  | nil => rfl
  | cons name names ih =>
    rw [Engine.filtered, Engine.filtered, cong.filter name]
    cases e'.filter? name with
    | none => rfl
    | some f => simp only [ih]

/-- A function is called with equal arguments, in containers that correspond. -/
theorem rel_call (hc : cong.node c c') (callee : Value) (args : List Value) :
    cong.rel (e.call c callee args) (e'.call c' callee args) := by
  cases callee with
  | function f => exact cong.perform f args hc
  | _ => exact cong.fail _

/-- Templates with related roots, under the same name. -/
theorem rel_evalTemplate {name : String}
    (h : Option.Rel (cong.On levels levels') (e.template? name) (e'.template? name))
    (hc : cong.node c c') :
    cong.rel (e.evalTemplate (e.eval levels) name c)
      (e'.evalTemplate (e'.eval levels') name c') := by
  unfold Engine.evalTemplate
  generalize e.template? name = root at h ⊢
  generalize e'.template? name = root' at h ⊢
  cases h with
  | none => exact cong.fail _
  | some hroot => exact cong.entered (cong.bind (hroot c c' hc) fun _ => cong.pure ())

/-- **Nodes of the same shape are evaluated in related ways** if the nodes right below them are,
and the names and the templates. -/
theorem rel_evalNode {R : Node → Node → Prop} (hR : ∀ n n', R n n' → cong.On levels levels' n n')
    (hlook : ∀ n n', R n n' → n.Resembles n') {n n' : Node} (h : Node.Matched R n n')
    (hname : ∀ name, n = .leaf (.name name) → cong.rel (e.evalName name) (e'.evalName name))
    (htemplate : ∀ name, cong.rel (e.evalTemplate (e.eval levels) name c)
      (e'.evalTemplate (e'.eval levels') name c'))
    (hc : cong.node c c') :
    cong.rel (e.evalNode (e.eval levels) n c) (e'.evalNode (e'.eval levels') n' c') := by
  have hchild : ∀ {n n'}, R n n' → cong.rel (e.eval levels n c) (e'.eval levels' n' c') :=
    fun hn => hR _ _ hn c c' hc
  cases h with
  | block hns =>
    have hout : ∀ n n', R n n' → n.isOutput = n'.isOutput := fun n n' hn => (hlook n n' hn).isOutput
    exact cong.bind (cong.rel_evalBlock hR hout hns hc) fun _ => cong.pure _
  | choice hbs => exact cong.bind (cong.rel_evalBranches hR hbs hc) fun _ => cong.pure _
  | loop names hsource hbody hother =>
    refine cong.bind (hchild hsource) fun items => cong.bind (cong.ofResult _) fun turns => ?_
    exact cong.bind (cong.rel_evalLoop hR hbody hother hc) fun _ => cong.pure _
  | binary op hleft hright =>
    exact cong.bind (hchild hleft) fun a => cong.bind (hchild hright) fun b => cong.ofResult _
  | negation hn => exact cong.bind (hchild hn) fun v => cong.pure _
  | conditional htest htrue hfalse =>
    refine cong.bind (hchild htest) fun v => cong.ite (hchild htrue) ?_
    cases hfalse with
    | none => exact cong.pure _
    | some hother => exact hchild hother
  | leaf l =>
    cases l with
    | name name => exact hname name rfl
    | _ => exact cong.pure _
  | path segments htarget =>
    -- the target is called by its text where it has no such member
    simp only [Engine.evalNode, (hlook _ _ htarget).describe]
    exact cong.bind (hchild htarget) fun v => cong.ofResult _
  | index htarget hkey =>
    exact cong.bind (hchild htarget) fun v => cong.bind (hchild hkey) fun k => cong.ofResult _
  | member hitem hinside =>
    refine cong.bind (hchild hitem) fun v => cong.bind (hchild hinside) fun k => ?_
    exact cong.bind (cong.ofResult _) fun _ => cong.pure _
  | call hcallee hargs =>
    refine cong.bind (hchild hcallee) fun f => ?_
    exact cong.bind (cong.rel_evalAll hR hargs hc) fun vs => cong.rel_call hc f vs
  | filtered filters hvalue =>
    refine cong.bind (hchild hvalue) fun v => ?_
    rw [cong.filtered_eq]
    exact cong.ofResult _
  | assignment name hvalue =>
    exact cong.bind (hchild hvalue) fun v => cong.bind (cong.assign name v) fun _ => cong.pure _
  | «attribute» name hvalue =>
    exact cong.bind (hchild hvalue) fun v => cong.bind (cong.changes hc _) fun _ => cong.pure _
  | array hitems => exact cong.bind (cong.rel_evalAll hR hitems hc) fun vs => cong.pure _
  | object hmembers =>
    have hleaf : ∀ n n', R n n' → ∀ l, n = .leaf l ↔ n' = .leaf l :=
      fun n n' hn => (hlook n n' hn).leaf
    exact cong.bind (cong.rel_evalMembers hR hleaf hmembers hc) fun ms => cong.pure _
  | output mode hparts => exact cong.bind (cong.rel_evalParts hR hparts hc) fun ps => cong.pure _
  | element tag hmodifiers hbody => exact cong.rel_element hR hmodifiers hbody hc
  | render name =>
    exact cong.bind (htemplate name) fun _ => cong.pure _
  | renderComputed htarget =>
    refine cong.bind (hchild htarget) fun v => ?_
    exact cong.bind (htemplate _) fun _ => cong.pure _
  | external v => exact cong.pure _

/-- The second engine has the templates of the first one. Where the first one misses a template,
what the second one does with that name is related to the error. -/
structure Templates : Prop where
  found : ∀ name root, e.template? name = some root → e'.template? name = some root
  missing : ∀ name, e.template? name = none → ∀ levels c c', cong.node c c' →
    cong.rel (Rendering.fail (.templateNotFound name)) (e'.evalTemplate (e'.eval levels) name c')

namespace Templates

variable {cong}

/-- Engines with the same templates miss the same ones. -/
theorem of_eq (h : ∀ name, e.template? name = e'.template? name) : cong.Templates where
  found name root hroot := (h name).symm.trans hroot
  missing name hnone levels c c' _ := by
    rw [Engine.evalTemplate, (h name).symm.trans hnone]
    exact cong.fail _

/-- A template that is there is there on both sides; if it is missing, `missing` says what happens.
-/
theorem rel_evalTemplate (h : cong.Templates) {name : String}
    (hroot : ∀ root, e.template? name = some root → cong.On levels levels' root root)
    (hc : cong.node c c') :
    cong.rel (e.evalTemplate (e.eval levels) name c)
      (e'.evalTemplate (e'.eval levels') name c') := by
  cases hget : e.template? name with
  | none =>
    rw [Engine.evalTemplate, hget]
    exact h.missing name hget levels' c c' hc
  | some root =>
    refine cong.rel_evalTemplate ?_ hc
    rw [hget, h.found name root hget]
    exact .some (hroot root hget)

end Templates

/-- **Evaluations of the same node are related**, the second one with `extra` more levels of nesting
left, if `P` holds of the node, of the nodes below such nodes and of the templates, and if names in
such nodes are looked up in related ways. -/
theorem rel_eval {P : Node → Prop} {extra : Nat} (hP : ∀ n, P n → ∀ m ∈ n.children, P m)
    (htemplate : cong.Templates)
    (hroot : ∀ name root, e.template? name = some root → P root)
    (hname : ∀ name, P (.leaf (.name name)) → cong.rel (e.evalName name) (e'.evalName name))
    (hzero : ∀ n, cong.On 0 extra n n) (levels : Nat) (n : Node) (hn : P n) :
    cong.On levels (extra + levels) n n := by
  induction levels generalizing n with
  | zero => exact hzero n
  | succ levels ih =>
    intro c c' hc
    have htemplates : ∀ name, cong.rel (e.evalTemplate (e.eval levels) name c)
        (e'.evalTemplate (e'.eval (extra + levels)) name c') :=
      fun name => htemplate.rel_evalTemplate (fun root hget => ih root (hroot name root hget)) hc
    refine cong.rel_evalNode (R := fun m m' => m = m' ∧ P m) ?_ ?_ (.refl n ?_) ?_ htemplates hc
    · rintro m _ ⟨rfl, hm⟩
      exact ih m hm
    · rintro m _ ⟨rfl, -⟩
      exact .refl m
    · exact fun m hm => ⟨rfl, hP n hn m hm⟩
    · rintro name rfl
      exact hname name hn

/-! ### Renderings -/

/-- The second engine allows `extra` more levels of nesting than the first one. -/
theorem rel_renderIn {P : Node → Prop} {extra : Nat} (hP : ∀ n, P n → ∀ m ∈ n.children, P m)
    (htemplate : cong.Templates)
    (hroot : ∀ name root, e.template? name = some root → P root)
    (hname : ∀ name, P (.leaf (.name name)) → cong.rel (e.evalName name) (e'.evalName name))
    (hzero : ∀ n, cong.On 0 extra n n)
    (hdepth : e'.settings.maxDepth = extra + e.settings.maxDepth) (name : String)
    (hc : cong.node c c') : cong.rel (e.renderIn name c) (e'.renderIn name c') := by
  rw [Engine.renderIn, Engine.renderIn, Engine.evaluate, Engine.evaluate, hdepth]
  exact htemplate.rel_evalTemplate (fun root hget =>
    cong.rel_eval hP htemplate hroot hname hzero _ root (hroot name root hget)) hc

/-- A new container has its tag and its class from the settings. -/
theorem rel_newContainer (hnode : ∀ c c', cong.node c c' ↔ c = c')
    (htag : e.settings.containerTag = e'.settings.containerTag)
    (hclass : e.settings.containerClass = e'.settings.containerClass) :
    cong.rel e.newContainer e'.newContainer := by
  rw [Engine.newContainer, Engine.newContainer, htag, hclass]
  refine cong.element _ fun el el' hel => ?_
  obtain rfl := (hnode el el').1 hel
  exact cong.bind (cong.change (.className e'.settings.containerClass) hel) fun _ => cong.pure el

/-- Renderings into the same container, or into a new one, are related if evaluating the template
there is. -/
theorem rel_renderRun (hnode : ∀ c c', cong.node c c' ↔ c = c')
    (htag : e.settings.containerTag = e'.settings.containerTag)
    (hclass : e.settings.containerClass = e'.settings.containerClass) {name : String}
    (h : ∀ c, cong.rel (e.renderIn name c) (e'.renderIn name c)) (container : Option NodeId) :
    cong.rel (e.renderRun name container) (e'.renderRun name container) := by
  have hrest : ∀ c, cong.rel (do e.renderIn name c; return c) (do e'.renderIn name c; return c) :=
    fun c => cong.bind (h c) fun _ => cong.pure c
  cases container with
  | some c => exact cong.bind (cong.pure c) hrest
  | none => exact cong.bind (cong.rel_newContainer hnode htag hclass) hrest

end Congruence

end Stencil
