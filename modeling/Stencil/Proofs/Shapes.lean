import Mathlib
import Stencil.Extension
import Stencil.Proofs.Parallel
import Stencil.Proofs.Tree
/-!
# The shape of templates

What stands where in a template that has been read. Evaluation relies on much of it without asking:
that a branch holds a block, that a path has segments, that a line stands in a block. `Shaped` says
it of one node and of the nodes right below it. It holds of every node of a template, as every rule
puts nodes together in this way only.
-/

namespace Stencil

namespace Node

/-- Whether the node is a block. -/
def IsBlock (n : Node) : Prop :=
  ∃ children, n = block children

/-- Whether the node is a line of content, which has parts. -/
def IsLine (n : Node) : Prop :=
  ∃ parts, n = output .content parts ∧ parts ≠ []

/-- Whether the node can stand in an expression. Statements can. -/
def IsTerm : Node → Prop
  | block _ => False
  | output _ _ => False
  | external _ => False
  | _ => True

end Node

/-- What the content of an element is. -/
def Body.Shaped : Body → Prop
  | empty => True
  | block body => body.IsBlock
  | text body => body.IsTerm ∧ ∀ name value, body ≠ .attribute name value

/-- What a node asks of the nodes right below it. -/
def Node.Shaped : Node → Prop
  | block children => ∀ n ∈ children, n.IsTerm ∨ n.IsLine
  | choice branches => ∀ b ∈ branches, (∀ test ∈ b.test, test.IsTerm) ∧ b.body.IsBlock
  | loop names source body otherwise => names ≠ [] ∧ source.IsTerm ∧
    (body.IsTerm ∧ otherwise = none ∨ body.IsBlock ∧ ∀ other ∈ otherwise, other.IsBlock)
  | binary _ left right => left.IsTerm ∧ right.IsTerm
  | negation operand => operand.IsTerm
  | conditional test whenTrue whenFalse =>
    test.IsTerm ∧ whenTrue.IsTerm ∧ ∀ n ∈ whenFalse, n.IsTerm
  | leaf l => ∀ v, l = .number v → ∃ n, v = .number n
  | path target segments => target.IsTerm ∧ segments ≠ []
  | index target key => target.IsTerm ∧ key.IsTerm
  | member item container => item.IsTerm ∧ container.IsTerm
  | call callee args =>
    (callee.IsTerm ∨ ∃ f, callee = external (.function f)) ∧ ∀ n ∈ args, n.IsTerm
  | filtered value filters => value.IsTerm ∧ filters ≠ []
  | assignment _ value => value.IsTerm
  | .attribute _ value => (value.IsTerm ∧ ∀ s, value ≠ leaf (.string s)) ∨
    ∃ parts, value = output .attribute parts
  | array items => ∀ n ∈ items, n.IsTerm
  | object members => ∀ m ∈ members, m.key.IsTerm ∧ m.value.IsTerm
  | output _ parts => ∀ n, .expr n ∈ parts → n.IsTerm
  | element _ modifiers body => (∀ n ∈ modifiers, n.IsTerm) ∧ body.Shaped
  | render _ => True
  | renderComputed target => target.IsTerm ∧ target.label? = none
  | external _ => True

/-- What a node is at a place. -/
def Place.Holds : Place → Node → Prop
  | operand, n => n.IsTerm
  | test, n => n.IsTerm
  | modifier, n => n.IsTerm
  | child, n => n.IsTerm ∨ n.IsLine
  | block, n => n.IsBlock
  | value, n => ∃ parts, n = .output .attribute parts

namespace Node

/-- Whether all nodes of a tree have their shape. -/
def Sound (n : Node) : Prop :=
  ∀ m ∈ n.walk, m.Shaped

/-- A sound tree that belongs at its place. -/
def Fits (p : Place) (n : Node) : Prop :=
  p.Holds n ∧ n.Sound

theorem sound_external (v : Value) : (external v).Sound := by
  intro m hm
  obtain rfl := List.mem_singleton.1 hm
  trivial

theorem sound_iff {n : Node} : n.Sound ↔ n.Shaped ∧ ∀ m ∈ n.children, m.Sound := by
  unfold Sound
  rw [walk_eq, List.forall_mem_cons]
  simp only [List.mem_flatMap, forall_exists_index, and_imp]
  exact and_congr_right fun _ => forall_comm.trans (forall_congr' fun _ => forall_comm)

theorem fits_of_children {p : Place} {n : Node} (hp : p.Holds n) (hn : n.Shaped)
    (h : ∀ m ∈ n.children, m.Sound) : n.Fits p :=
  ⟨hp, sound_iff.2 ⟨hn, h⟩⟩

theorem mem_children_output {mode : OutputMode} {parts : List Part} {n : Node} :
    n ∈ (output mode parts).children ↔ .expr n ∈ parts := by
  rw [children, List.mem_filterMap]
  constructor
  · rintro ⟨p, hp, hn⟩
    cases p with
    | text s => cases hn
    | expr m =>
      cases hn
      exact hp
  · exact fun hn => ⟨_, hn, rfl⟩

/-! ## What the rules put together -/

/-- A node that fits its place, given by both of two readings. -/
def BothFit (p : Place) (n n' : Node) : Prop :=
  n.Fits p ∧ n = n'

theorem forall_of_rel {p : Place} {o o' : Option Node} (h : Option.Rel (BothFit p) o o') :
    ∀ n ∈ o, n.Fits p := by
  cases h with
  | none => nofun
  | some hn =>
    rintro _ ⟨⟩
    exact hn.1

/-- Every rule gives nodes that fit. -/
theorem fits_of_formed {p : Place} {n n' : Node}
    (h : Formed BothFit BothFit (fun _ => True) p n n') : n.Fits p := by
  -- the parts of the node fit their places, whichever of both readings they are of
  have hall : ∀ {q ns ns'}, List.Forall₂ (BothFit q) ns ns' → ∀ n ∈ ns, n.Fits q :=
    fun h => forall_of_forall₂ h And.left
  have hparts : ∀ {ps ps'}, List.Forall₂ (Part.Formed BothFit) ps ps' → ∀ n, .expr n ∈ ps →
      n.Fits .operand := by
    intro ps ps' h n hn
    refine forall_of_forall₂ (P := fun p => ∀ n, p = .expr n → n.Fits .operand) h ?_ _ hn n rfl
    rintro _ _ (s | hm) n hn
    · cases hn
    · cases hn
      exact hm.1
  cases h with
  | leaf _ hnumber => exact fits_of_children trivial hnumber nofun
  | binary op hleft hright =>
    refine fits_of_children trivial ⟨hleft.1.1, hright.1.1⟩ ?_
    exact List.forall_mem_cons.2 ⟨hleft.1.2, List.forall_mem_singleton.2 hright.1.2⟩
  | negation hn => exact fits_of_children trivial hn.1.1 (List.forall_mem_singleton.2 hn.1.2)
  | conditional htest htrue hfalse =>
    have hfalse := forall_of_rel hfalse
    refine fits_of_children trivial ⟨htest.1.1, htrue.1.1, fun n hn => (hfalse n hn).1⟩ ?_
    refine List.forall_mem_cons.2 ⟨htest.1.2, List.forall_mem_cons.2 ⟨htrue.1.2, ?_⟩⟩
    exact fun n hn => (hfalse n (Option.mem_toList.1 hn)).2
  | path hne htarget =>
    exact fits_of_children trivial ⟨htarget.1.1, hne⟩ (List.forall_mem_singleton.2 htarget.1.2)
  | index htarget hkey =>
    refine fits_of_children trivial ⟨htarget.1.1, hkey.1.1⟩ ?_
    exact List.forall_mem_cons.2 ⟨htarget.1.2, List.forall_mem_singleton.2 hkey.1.2⟩
  | member hitem hinside =>
    refine fits_of_children trivial ⟨hitem.1.1, hinside.1.1⟩ ?_
    exact List.forall_mem_cons.2 ⟨hitem.1.2, List.forall_mem_singleton.2 hinside.1.2⟩
  | call hcallee hargs =>
    refine fits_of_children trivial ⟨Or.inl hcallee.1.1, fun n hn => (hall hargs n hn).1⟩ ?_
    exact List.forall_mem_cons.2 ⟨hcallee.1.2, fun n hn => (hall hargs n hn).2⟩
  | filtered hne hvalue =>
    exact fits_of_children trivial ⟨hvalue.1.1, hne⟩ (List.forall_mem_singleton.2 hvalue.1.2)
  | assignment name hvalue =>
    exact fits_of_children trivial hvalue.1.1 (List.forall_mem_singleton.2 hvalue.1.2)
  | «attribute» name hvalue hplain =>
    refine fits_of_children trivial (Or.inl ⟨hvalue.1.1, hplain⟩) ?_
    exact List.forall_mem_singleton.2 hvalue.1.2
  | attributeText name hvalue =>
    exact fits_of_children trivial (Or.inr hvalue.1.1) (List.forall_mem_singleton.2 hvalue.1.2)
  | array hitems =>
    exact fits_of_children trivial (fun n hn => (hall hitems n hn).1)
      fun n hn => (hall hitems n hn).2
  | object hmembers =>
    have hboth := forall_of_forall₂ (P := fun m : Member => m.key.Fits .operand ∧
      m.value.Fits .operand) hmembers fun ⟨hkey, hvalue⟩ => ⟨hkey.1, hvalue.1⟩
    refine fits_of_children trivial (fun m hm => (hboth m hm).imp And.left And.left) ?_
    intro n hn
    obtain ⟨m, hm, hn⟩ := List.mem_flatMap.1 hn
    rcases List.mem_cons.1 hn with rfl | hn
    · exact (hboth m hm).1.2
    · exact List.mem_singleton.1 hn ▸ (hboth m hm).2.2
  | choice hbranches =>
    have hboth := forall_of_forall₂ (P := fun b : Branch => (∀ test ∈ b.test, test.Fits .test) ∧
      b.body.Fits .block) hbranches fun ⟨htest, hbody⟩ => ⟨forall_of_rel htest, hbody.1⟩
    refine fits_of_children trivial (fun b hb => ?_) ?_
    · exact (hboth b hb).imp (fun h test ht => (h test ht).1) And.left
    · intro n hn
      obtain ⟨b, hb, hn⟩ := List.mem_flatMap.1 hn
      rcases List.mem_append.1 hn with hn | hn
      · exact ((hboth b hb).1 n (Option.mem_toList.1 hn)).2
      · exact List.mem_singleton.1 hn ▸ (hboth b hb).2.2
  | loop hne hsource hbody hother =>
    have hother := forall_of_rel hother
    refine fits_of_children trivial ⟨hne, hsource.1.1, Or.inr ⟨hbody.1.1, ?_⟩⟩ ?_
    · exact fun n hn => (hother n hn).1
    refine List.forall_mem_cons.2 ⟨hsource.1.2, List.forall_mem_cons.2 ⟨hbody.1.2, ?_⟩⟩
    exact fun n hn => (hother n (Option.mem_toList.1 hn)).2
  | loopOf hne hsource hbody =>
    refine fits_of_children trivial ⟨hne, hsource.1.1, Or.inl ⟨hbody.1.1, rfl⟩⟩ ?_
    exact List.forall_mem_cons.2 ⟨hsource.1.2, List.forall_mem_singleton.2 hbody.1.2⟩
  | render name => exact fits_of_children trivial trivial nofun
  | renderComputed htarget hlabel =>
    refine fits_of_children trivial ⟨htarget.1.1, hlabel⟩ ?_
    exact List.forall_mem_singleton.2 htarget.1.2
  | element tag hmodifiers =>
    refine fits_of_children trivial ⟨fun n hn => (hall hmodifiers n hn).1, trivial⟩ ?_
    exact List.forall_mem_append.2 ⟨fun n hn => (hall hmodifiers n hn).2, nofun⟩
  | elementBlock tag hmodifiers hbody =>
    refine fits_of_children trivial ⟨fun n hn => (hall hmodifiers n hn).1, hbody.1.1⟩ ?_
    exact List.forall_mem_append.2
      ⟨fun n hn => (hall hmodifiers n hn).2, List.forall_mem_singleton.2 hbody.1.2⟩
  | elementText tag hmodifiers hbody hplain =>
    refine fits_of_children trivial
      ⟨fun n hn => (hall hmodifiers n hn).1, hbody.1.1, hplain⟩ ?_
    exact List.forall_mem_append.2
      ⟨fun n hn => (hall hmodifiers n hn).2, List.forall_mem_singleton.2 hbody.1.2⟩
  | line hne hps =>
    exact fits_of_children (Or.inr ⟨_, rfl, hne⟩) (fun n hn => (hparts hps n hn).1)
      fun n hn => (hparts hps n (mem_children_output.1 hn)).2
  | child hn => exact ⟨Or.inl hn.1.1, hn.1.2⟩
  | block hchildren =>
    exact fits_of_children ⟨_, rfl⟩ (fun n hn => (hall hchildren n hn).1)
      fun n hn => (hall hchildren n hn).2
  | text hps =>
    exact fits_of_children ⟨_, rfl⟩ (fun n hn => (hparts hps n hn).1)
      fun n hn => (hparts hps n (mem_children_output.1 hn)).2

/-- A modifier fits also with a function in the place of the name that it calls. -/
theorem fits_resolve (l : Level) {n : Node} (h : n.Fits .operand) :
    (Statement.resolve l n).Fits .modifier := by
  unfold Statement.resolve
  split
  · next id args =>
    split
    · next f hf =>
      obtain ⟨⟨-, hargs⟩, hsound⟩ := sound_iff.1 h.2
      refine fits_of_children trivial ⟨Or.inr ⟨f, rfl⟩, hargs⟩ ?_
      exact List.forall_mem_cons.2 ⟨sound_external _, fun m hm => hsound m (.tail _ hm)⟩
    · exact h
  · exact h

/-! ## Well-formed templates -/

/-- What the nodes right below a node are, where all nodes have their shape. -/
theorem Shaped.child {n m : Node} (h : n.Shaped) (hm : m ∈ n.children) :
    m.IsTerm ∨ m.IsBlock ∨ (n.IsBlock ∧ m.IsLine) ∨
      (∃ name parts, m = output .attribute parts ∧ n = .attribute name m) ∨
        ∃ f args, m = external (.function f) ∧ n = call m args ∧ ∀ arg ∈ args, arg.IsTerm := by
  cases n with
  | block children => exact (h m hm).elim Or.inl fun hline => .inr (.inr (.inl ⟨⟨_, rfl⟩, hline⟩))
  | choice branches =>
    obtain ⟨b, hb, hm⟩ := List.mem_flatMap.1 hm
    rcases List.mem_append.1 hm with hm | hm
    · exact Or.inl ((h b hb).1 m (Option.mem_toList.1 hm))
    · exact .inr (.inl (List.mem_singleton.1 hm ▸ (h b hb).2))
  | loop names source body otherwise =>
    obtain ⟨-, hsource, hparts⟩ := h
    rcases List.mem_cons.1 hm with rfl | hm
    · exact Or.inl hsource
    rcases hparts with ⟨hbody, rfl⟩ | ⟨hbody, hother⟩
    · exact Or.inl (List.mem_singleton.1 hm ▸ hbody)
    · rcases List.mem_cons.1 hm with rfl | hm
      · exact .inr (.inl hbody)
      · exact .inr (.inl (hother m (Option.mem_toList.1 hm)))
  | conditional test whenTrue whenFalse =>
    obtain ⟨htest, htrue, hfalse⟩ := h
    rcases List.mem_cons.1 hm with rfl | hm
    · exact Or.inl htest
    rcases List.mem_cons.1 hm with rfl | hm
    · exact Or.inl htrue
    · exact Or.inl (hfalse m (Option.mem_toList.1 hm))
  | call callee args =>
    obtain ⟨hcallee, hargs⟩ := h
    rcases List.mem_cons.1 hm with rfl | hm
    · rcases hcallee with hcallee | ⟨f, rfl⟩
      · exact Or.inl hcallee
      · exact .inr (.inr (.inr (.inr ⟨f, args, rfl, rfl, hargs⟩)))
    · exact Or.inl (hargs m hm)
  | «attribute» name value =>
    obtain rfl := List.mem_singleton.1 hm
    rcases h with ⟨hvalue, -⟩ | ⟨parts, rfl⟩
    · exact Or.inl hvalue
    · exact .inr (.inr (.inr (.inl ⟨name, parts, rfl, rfl⟩)))
  | object members =>
    obtain ⟨x, hx, hm⟩ := List.mem_flatMap.1 hm
    obtain ⟨hkey, hvalue⟩ := h x hx
    rcases List.mem_cons.1 hm with rfl | hm
    · exact Or.inl hkey
    · exact Or.inl (List.mem_singleton.1 hm ▸ hvalue)
  | output mode parts => exact Or.inl (h m (mem_children_output.1 hm))
  | element tag modifiers body =>
    obtain ⟨hmodifiers, hbody⟩ := h
    rcases List.mem_append.1 hm with hm | hm
    · exact Or.inl (hmodifiers m hm)
    cases body with
    | empty => cases hm
    | block body => exact .inr (.inl (List.mem_singleton.1 hm ▸ hbody))
    | text body => exact Or.inl (List.mem_singleton.1 hm ▸ hbody.1)
  | array items => exact Or.inl (h m hm)
  | binary op left right =>
    rcases List.mem_cons.1 hm with rfl | hm
    · exact Or.inl h.1
    · exact Or.inl (List.mem_singleton.1 hm ▸ h.2)
  | index target key =>
    rcases List.mem_cons.1 hm with rfl | hm
    · exact Or.inl h.1
    · exact Or.inl (List.mem_singleton.1 hm ▸ h.2)
  | member item inside =>
    rcases List.mem_cons.1 hm with rfl | hm
    · exact Or.inl h.1
    · exact Or.inl (List.mem_singleton.1 hm ▸ h.2)
  | negation operand => exact Or.inl (List.mem_singleton.1 hm ▸ h)
  | assignment name value => exact Or.inl (List.mem_singleton.1 hm ▸ h)
  | path target segments => exact Or.inl (List.mem_singleton.1 hm ▸ h.1)
  | filtered value filters => exact Or.inl (List.mem_singleton.1 hm ▸ h.1)
  | renderComputed target => exact Or.inl (List.mem_singleton.1 hm ▸ h.1)
  | leaf l => cases hm
  | render name => cases hm
  | external v => cases hm

/-- The shape of a template: what stands where in the whole tree. -/
structure WellFormed (root : Node) : Prop where
  root_block : root.IsBlock
  branch : ∀ {branches}, choice branches ∈ root.walk → ∀ b ∈ branches, b.body.IsBlock
  names : ∀ {names source body otherwise}, loop names source body otherwise ∈ root.walk → names ≠ []
  otherwise : ∀ {names source body other}, loop names source body (some other) ∈ root.walk →
    other.IsBlock ∧ body.IsBlock
  elementBlock : ∀ {tag modifiers body}, element tag modifiers (.block body) ∈ root.walk →
    body.IsBlock
  elementText : ∀ {tag modifiers body}, element tag modifiers (.text body) ∈ root.walk →
    ∀ name value, body ≠ .attribute name value
  segments : ∀ {target segments}, path target segments ∈ root.walk → segments ≠ []
  filters : ∀ {value filters}, filtered value filters ∈ root.walk → filters ≠ []
  /-- A string as the value of an attribute has been read again. -/
  attributeValue : ∀ {name value}, .attribute name value ∈ root.walk → ∀ s, value ≠ leaf (.string s)
  computed : ∀ {target}, renderComputed target ∈ root.walk → ∀ s,
    target ≠ leaf (.name s) ∧ target ≠ leaf (.string s)
  content : ∀ {n parts}, n ∈ root.walk → output .content parts ∈ n.children →
    n.IsBlock ∧ parts ≠ []
  text : ∀ {n parts}, n ∈ root.walk → output .attribute parts ∈ n.children →
    ∃ name, n = .attribute name (output .attribute parts)
  number : ∀ {v}, leaf (.number v) ∈ root.walk →
    (∃ i, v = .number (.int i)) ∨ ∃ x, v = .number (.float x)
  callee : ∀ {n v}, n ∈ root.walk → external v ∈ n.children →
    (∃ f, v = .function f) ∧ ∃ args, n = call (external v) args ∧ external v ∉ args

theorem wellFormed_of_shaped {root : Node} (hroot : root.IsBlock)
    (h : ∀ n ∈ root.walk, n.Shaped) : root.WellFormed where
  root_block := hroot
  branch hn b hb := (h _ hn b hb).2
  names hn := (h _ hn).1
  otherwise hn := by
    obtain ⟨-, -, ⟨-, hnone⟩ | ⟨hbody, hother⟩⟩ := h _ hn
    · cases hnone
    · exact ⟨hother _ rfl, hbody⟩
  elementBlock hn := (h _ hn).2
  elementText hn := (h _ hn).2.2
  segments hn := (h _ hn).2
  filters hn := (h _ hn).2
  attributeValue hn s := by
    rcases h _ hn with ⟨-, hplain⟩ | ⟨parts, rfl⟩
    · exact hplain s
    · nofun
  computed hn s := by
    have hlabel := (h _ hn).2
    constructor <;> rintro rfl <;> cases hlabel
  content hn hm := by
    rcases (h _ hn).child hm with hfalse | ⟨_, hne⟩ | ⟨hblock, parts, hparts, hne⟩ |
      ⟨_, _, hne, -⟩ | ⟨_, _, hne, -⟩
    · exact hfalse.elim
    · cases hne
    · cases hparts
      exact ⟨hblock, hne⟩
    · cases hne
    · cases hne
  text hn hm := by
    rcases (h _ hn).child hm with hfalse | ⟨_, hne⟩ | ⟨-, _, hne, -⟩ | ⟨name, _, -, hattribute⟩ |
      ⟨_, _, hne, -⟩
    · exact hfalse.elim
    · cases hne
    · cases hne
    · exact ⟨name, hattribute⟩
    · cases hne
  number hn := by
    obtain ⟨i | x, rfl⟩ := h _ hn _ rfl
    · exact Or.inl ⟨i, rfl⟩
    · exact Or.inr ⟨x, rfl⟩
  callee hn hm := by
    rcases (h _ hn).child hm with hfalse | ⟨_, hne⟩ | ⟨-, _, hne, -⟩ | ⟨_, _, hne, -⟩ |
      ⟨f, args, hf, hcall, hargs⟩
    · exact hfalse.elim
    · cases hne
    · cases hne
    · cases hne
    · exact ⟨⟨f, Node.external.inj hf⟩, args, hcall, fun hmem => hargs _ hmem⟩

end Node

/-- Nodes of a reading beside themselves, with the shape that they have. -/
def Likeness.shape : Likeness where
  toWatch := .ofTokens fun _ => True
  Text _ := True
  below := Node.BothFit
  here := Node.BothFit
  text_of_known _ _ := trivial
  lift h := h
  test h := h
  formed h := ⟨Node.fits_of_formed h, Node.eq_of_formed And.right And.right h⟩
  kindName h := h.2 ▸ rfl
  leaf h l := by rw [h.2]

/-- Only errors are told together with a place. -/
theorem Dialect.parseSource_of_compile {d : Dialect} {name source : String} {root : Node}
    (h : d.compile name source = .ok root) : d.parseSource source = .ok root := by
  rw [compile] at h
  cases hx : d.parseSource source with
  | error e =>
    rw [hx] at h
    cases h
  | ok n =>
    rw [hx] at h
    cases h
    rfl

/-- **Every template that is read is well formed**, whatever functions the host has registered. -/
theorem Dialect.compile_wellFormed {r : String → Option Callable} {maxDepth : Nat}
    {name source : String} {root : Node}
    (h : Dialect.compile ⟨.standard, r, maxDepth⟩ name source = .ok root) : root.WellFormed := by
  let d : Dialect := ⟨.standard, r, maxDepth⟩
  have hdialects : Likeness.shape.Dialects d d := by
    refine ⟨Grammar.hasStandardRules_standard, fun _ _ => rfl, rfl, rfl, fun _ => trivial, ?_,
      fun _ _ _ => rfl, fun _ _ _ _ _ _ _ => trivial⟩
    rintro l m hl hm n _ ⟨hn, rfl⟩
    exact ⟨Node.fits_resolve l hn, Statement.resolve_congr (hl.trans hm.symm) n⟩
  have hread := hdialects.parseSource_parallel source trivial
  rw [parseSource_of_compile h] at hread
  obtain ⟨⟨hblock, hall⟩, -⟩ := hread
  exact Node.wellFormed_of_shaped hblock hall

/-- An element with a function of the host and with a string as the value of an attribute. -/
theorem Dialect.compile_wellFormed_element :
    let d : Dialect := ⟨.standard, Extensions.standard.modifier?, 64⟩
    let title : List Part := [.expr (.leaf (.name "b"))]
    let root : Node := .block [.element "a"
      [.call (.external (.function .click)) [.leaf (.name "f")],
        .attribute "title" (.output .attribute title)] .empty]
    d.compile "t" "@elem a click(f) title='@b'" = .ok root ∧ root.WellFormed := by
  intro d title root
  have htokens : Lexer.tokenize d.grammar.vocabulary "@elem a click(f) title='@b'" = .ok
      [⟨.mark, "@", 1⟩, ⟨.keyword, "elem", 1⟩, ⟨.literal, "a", 1⟩, ⟨.literal, "click", 1⟩,
        ⟨.delimiter, "(", 1⟩, ⟨.literal, "f", 1⟩, ⟨.delimiter, ")", 1⟩, ⟨.literal, "title", 1⟩,
        ⟨.assignment, "=", 1⟩, ⟨.string, "@b", 1⟩, ⟨.newline, "\n", 1⟩,
        ⟨.stop, "(end)", 1⟩] := by
    decide +kernel
  have hcompile : d.compile "t" "@elem a click(f) title='@b'" = .ok root := by
    rw [compile, parseSource_of_tokenize htokens]
    cbv
  exact ⟨hcompile, compile_wellFormed hcompile⟩

end Stencil
