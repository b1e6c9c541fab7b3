import Mathlib.Data.List.Forall2
import Stencil.Template.Operation
import Stencil.Template.Statement
/-!
# Likenesses

A likeness says how the nodes of two readings of the same tokens correspond, place by place: the
nodes that the levels below give, and the nodes that the rules of a level make of them. It is kept
by every way in which a rule puts a node together, and it keeps what a rule can see of a node. What
holds of all nodes of one template is the case where nodes are related to themselves.
-/

namespace Stencil

/-- The places of a template where a node can stand. -/
inductive Place
  /-- In an expression, or as a statement. -/
  | operand
  /-- At the head of a branch. -/
  | test
  /-- Behind the tag of an element. -/
  | modifier
  /-- In a block. -/
  | child
  /-- The body of a statement, or the whole template. -/
  | block
  /-- What a string becomes as the value of an attribute. -/
  | value

section Formed

variable (below here : Place → Node → Node → Prop)

/-- Branches whose parts are related. -/
inductive Branch.Formed : Branch → Branch → Prop
  | mk {test test' : Option Node} {body body' : Node} : Option.Rel (below .test) test test' →
    below .block body body' → Formed (.mk test body) (.mk test' body')

/-- Members whose parts are related. -/
inductive Member.Formed : Member → Member → Prop
  | mk {key key' value value' : Node} : below .operand key key' → below .operand value value' →
    Formed (.mk key value) (.mk key' value')

/-- Parts of lines that are related. -/
inductive Part.Formed : Part → Part → Prop
  | text (s : String) : Formed (.text s) (.text s)
  | expr {n n' : Node} : below .operand n n' → Formed (.expr n) (.expr n')

variable (Text : String → Prop)

/-- The ways in which the rules put a node together, each with the place where the node stands. Its
parts are what the levels below give, but for the operand before a word and the children of a block,
which the rules of the same level have made. Strings are among the admitted texts, and numbers are
numbers. -/
inductive Node.Formed : Place → Node → Node → Prop
  | leaf {l : Leaf} : (∀ s, l = .string s → Text s) → (∀ v, l = .number v → ∃ n, v = .number n) →
    Formed .operand (.leaf l) (.leaf l)
  | binary (op : BinaryOp) {left left' right right' : Node} : here .operand left left' →
    below .operand right right' →
    Formed .operand (.binary op left right) (.binary op left' right')
  | negation {n n' : Node} : below .operand n n' → Formed .operand (.negation n) (.negation n')
  | conditional {test test' whenTrue whenTrue' : Node} {whenFalse whenFalse' : Option Node} :
    here .operand test test' → below .operand whenTrue whenTrue' →
    Option.Rel (below .operand) whenFalse whenFalse' →
    Formed .operand (.conditional test whenTrue whenFalse)
      (.conditional test' whenTrue' whenFalse')
  | path {segments : List String} {target target' : Node} : segments ≠ [] →
    here .operand target target' → Formed .operand (.path target segments) (.path target' segments)
  | index {target target' key key' : Node} : here .operand target target' →
    below .operand key key' → Formed .operand (.index target key) (.index target' key')
  | member {item item' inside inside' : Node} : here .operand item item' →
    below .operand inside inside' → Formed .operand (.member item inside) (.member item' inside')
  | call {callee callee' : Node} {args args' : List Node} : here .operand callee callee' →
    List.Forall₂ (below .operand) args args' →
    Formed .operand (.call callee args) (.call callee' args')
  | filtered {filters : List String} {value value' : Node} : filters ≠ [] →
    here .operand value value' →
    Formed .operand (.filtered value filters) (.filtered value' filters)
  | assignment (name : String) {value value' : Node} : below .operand value value' →
    Formed .operand (.assignment name value) (.assignment name value')
  | attribute (name : String) {value value' : Node} : below .operand value value' →
    (∀ s, value ≠ .leaf (.string s)) →
    Formed .operand (.attribute name value) (.attribute name value')
  | attributeText (name : String) {value value' : Node} : below .value value value' →
    Formed .operand (.attribute name value) (.attribute name value')
  | array {items items' : List Node} : List.Forall₂ (below .operand) items items' →
    Formed .operand (.array items) (.array items')
  | object {members members' : List Member} :
    List.Forall₂ (Member.Formed below) members members' →
    Formed .operand (.object members) (.object members')
  | choice {branches branches' : List Branch} :
    List.Forall₂ (Branch.Formed below) branches branches' →
    Formed .operand (.choice branches) (.choice branches')
  | loop {names : List String} {source source' body body' : Node}
    {otherwise otherwise' : Option Node} : names ≠ [] → below .operand source source' →
    below .block body body' → Option.Rel (below .block) otherwise otherwise' →
    Formed .operand (.loop names source body otherwise) (.loop names source' body' otherwise')
  | loopOf {names : List String} {source source' body body' : Node} : names ≠ [] →
    below .operand source source' → below .operand body body' →
    Formed .operand (.loop names source body none) (.loop names source' body' none)
  | render (name : String) : Formed .operand (.render name) (.render name)
  | renderComputed {target target' : Node} : below .operand target target' →
    target.label? = none → Formed .operand (.renderComputed target) (.renderComputed target')
  | element (tag : String) {modifiers modifiers' : List Node} :
    List.Forall₂ (below .modifier) modifiers modifiers' →
    Formed .operand (.element tag modifiers .empty) (.element tag modifiers' .empty)
  | elementBlock (tag : String) {modifiers modifiers' : List Node} {body body' : Node} :
    List.Forall₂ (below .modifier) modifiers modifiers' → below .block body body' →
    Formed .operand (.element tag modifiers (.block body)) (.element tag modifiers' (.block body'))
  | elementText (tag : String) {modifiers modifiers' : List Node} {body body' : Node} :
    List.Forall₂ (below .modifier) modifiers modifiers' → below .modifier body body' →
    (∀ name value, body ≠ .attribute name value) →
    Formed .operand (.element tag modifiers (.text body)) (.element tag modifiers' (.text body'))
  | line {parts parts' : List Part} : parts ≠ [] → List.Forall₂ (Part.Formed below) parts parts' →
    Formed .child (.output .content parts) (.output .content parts')
  | child {n n' : Node} : below .operand n n' → Formed .child n n'
  | block {children children' : List Node} : List.Forall₂ (here .child) children children' →
    Formed .block (.block children) (.block children')
  | text {parts parts' : List Part} : List.Forall₂ (Part.Formed below) parts parts' →
    Formed .value (.output .attribute parts) (.output .attribute parts')

end Formed

/-! ## Parts that are related -/

/-- What follows for the left member of each pair holds of the whole left list. -/
theorem forall_of_forall₂ {α β : Type} {R : α → β → Prop} {P : α → Prop} {as : List α}
    {bs : List β} (h : List.Forall₂ R as bs) (hR : ∀ {a b}, R a b → P a) : ∀ a ∈ as, P a := by
  induction h with
  | nil => nofun
  | cons hab _ ih => exact List.forall_mem_cons.2 ⟨hR hab, ih⟩

/-- An option is related to itself if its value, should there be one, is. -/
theorem rel_self {α : Type} {R : α → α → Prop} {o : Option α} (h : ∀ a, o = some a → R a a) :
    Option.Rel R o o := by
  cases o with
  | none => exact .none
  | some a => exact .some (h a rfl)

/-- Branches are related to themselves as soon as the nodes in them are. -/
theorem branches_self {below : Place → Node → Node → Prop} (htest : ∀ n, below .test n n)
    (hblock : ∀ n, below .block n n) (bs : List Branch) :
    List.Forall₂ (Branch.Formed below) bs bs :=
  List.forall₂_same.2 fun ⟨_, body⟩ _ => .mk (rel_self fun n _ => htest n) (hblock body)

/-! ## Nodes that are the same

Where only equal nodes are related, the nodes that are put together from them are equal. -/

theorem eq_of_forall₂ {α : Type} {R : α → α → Prop} {as bs : List α} (h : List.Forall₂ R as bs)
    (hR : ∀ {a b}, R a b → a = b) : as = bs :=
  List.forall₂_eq_eq_eq ▸ h.imp fun _ _ => hR

theorem eq_of_rel {α : Type} {R : α → α → Prop} {o o' : Option α} (h : Option.Rel R o o')
    (hR : ∀ {a b}, R a b → a = b) : o = o' := by
  cases h with
  | none => rfl
  | some hn => rw [hR hn]

section Same

variable {below here : Place → Node → Node → Prop} {Text : String → Prop}
  (hbelow : ∀ {p n n'}, below p n n' → n = n')

include hbelow

/-- Related branches are equal if the likeness of the nodes below is equality. -/
theorem branches_eq {bs bs' : List Branch} (h : List.Forall₂ (Branch.Formed below) bs bs') :
    bs = bs' := by
  refine eq_of_forall₂ h ?_
  rintro _ _ ⟨htest, hbody⟩
  rw [eq_of_rel htest hbelow, hbelow hbody]

theorem members_eq {ms ms' : List Member} (h : List.Forall₂ (Member.Formed below) ms ms') :
    ms = ms' := by
  refine eq_of_forall₂ h ?_
  rintro _ _ ⟨hkey, hvalue⟩
  rw [hbelow hkey, hbelow hvalue]

theorem parts_eq {ps ps' : List Part} (h : List.Forall₂ (Part.Formed below) ps ps') :
    ps = ps' := by
  refine eq_of_forall₂ h ?_
  rintro _ _ (s | hn)
  · rfl
  · rw [hbelow hn]

/-- Nothing of a node is left open by its parts: nodes that are formed in the same way of equal
parts are equal. -/
theorem Node.eq_of_formed (hhere : ∀ {p n n'}, here p n n' → n = n') {p : Place} {n n' : Node}
    (h : Node.Formed below here Text p n n') : n = n' := by
  cases h with
  | leaf => rfl
  | binary op hleft hright => rw [hhere hleft, hbelow hright]
  | negation hn => rw [hbelow hn]
  | conditional htest htrue hfalse => rw [hhere htest, hbelow htrue, eq_of_rel hfalse hbelow]
  | path _ htarget => rw [hhere htarget]
  | index htarget hkey => rw [hhere htarget, hbelow hkey]
  | member hitem hinside => rw [hhere hitem, hbelow hinside]
  | call hcallee hargs => rw [hhere hcallee, eq_of_forall₂ hargs hbelow]
  | filtered _ hvalue => rw [hhere hvalue]
  | assignment name hvalue => rw [hbelow hvalue]
  | «attribute» name hvalue _ => rw [hbelow hvalue]
  | attributeText name hvalue => rw [hbelow hvalue]
  | array hitems => rw [eq_of_forall₂ hitems hbelow]
  | object hmembers => rw [members_eq hbelow hmembers]
  | choice hbranches => rw [branches_eq hbelow hbranches]
  | loop _ hsource hbody hother => rw [hbelow hsource, hbelow hbody, eq_of_rel hother hbelow]
  | loopOf _ hsource hbody => rw [hbelow hsource, hbelow hbody]
  | render name => rfl
  | renderComputed htarget _ => rw [hbelow htarget]
  | element tag hmodifiers => rw [eq_of_forall₂ hmodifiers hbelow]
  | elementBlock tag hmodifiers hbody => rw [eq_of_forall₂ hmodifiers hbelow, hbelow hbody]
  | elementText tag hmodifiers hbody _ => rw [eq_of_forall₂ hmodifiers hbelow, hbelow hbody]
  | line _ hparts => rw [parts_eq hbelow hparts]
  | child hn => exact hbelow hn
  | block hchildren => rw [eq_of_forall₂ hchildren hhere]
  | text hparts => rw [parts_eq hbelow hparts]

end Same

/-! ## What is known of tokens -/

/-- Whether any rule can come to a fault. The others are those of the division into tokens, of the
limit of nesting, of numbers, and of statements that have been lost. -/
def SyntaxFault.isCommon : SyntaxFault → Bool
  | unclosedString _ | tooDeep _ | invalidNumber _ => false
  | lostBranches | lostElseOwner | lostLoop => false
  | _ => true

/-- What is known of tokens, which lines are told, and which errors are due. -/
structure Watch where
  Known : Token → Prop
  Told : Nat → Prop
  Due : SyntaxError → Prop
  told : ∀ t, Known t → Told t.line
  common : ∀ line fault, Told line → fault.isCommon = true → Due ⟨line, fault⟩
  number : ∀ t, Known t → t.kind = .number → Number.ofText? t.text.toList = none →
    Due ⟨t.line, .invalidNumber t.text⟩

/-- Nothing is asked of lines and of errors. -/
def Watch.ofTokens (Known : Token → Prop) : Watch where
  Known := Known
  Told _ := True
  Due _ := True
  told _ _ := trivial
  common _ _ _ _ := trivial
  number _ _ _ _ := trivial

namespace Watch

variable {W : Watch}

/-- The line of a cursor is that of its next token, or of the last one where none is left; both are
told. -/
theorem told_line {c : Cursor} (hlast : W.Told c.lastLine) (h : ∀ t ∈ c.tokens, W.Known t) :
    W.Told c.line := by
  unfold Cursor.line
  split
  · exact hlast
  · next t rest htok => exact W.told t (h t (htok ▸ List.mem_cons_self))

/-- The line of the end is that of a stop, if there is one. -/
theorem told_lastLine {ts : List Token} (hts : ∀ t ∈ ts, W.Known t)
    (hstop : ∃ t ∈ ts, t.kind = .stop) : W.Told (Cursor.ofTokens ts).lastLine := by
  obtain ⟨t, ht, hkind⟩ := hstop
  obtain ⟨stop, hfind⟩ : ∃ stop, ts.find? (fun t => t.kind == .stop) = some stop :=
    Option.isSome_iff_exists.1 (List.find?_isSome.2 ⟨t, ht, by simp [hkind]⟩)
  have hline : (Cursor.ofTokens ts).lastLine = stop.line := by simp [Cursor.ofTokens, hfind]
  rw [hline]
  exact W.told stop (hts stop (List.mem_of_find?_eq_some hfind))

end Watch

/-- A relation between the nodes of two readings of the same tokens. -/
structure Likeness extends Watch where
  /-- The texts of the strings among the tokens. -/
  Text : String → Prop
  /-- How the nodes correspond that the levels below give. -/
  below : Place → Node → Node → Prop
  /-- How the nodes correspond that the rules make of them. -/
  here : Place → Node → Node → Prop
  text_of_known : ∀ {t}, Known t → t.kind = .string → Text t.text
  lift : ∀ {p n n'}, below p n n' → here p n n'
  test : ∀ {n n'}, below .operand n n' → below .test n n'
  formed : ∀ {p n n'}, Node.Formed below here Text p n n' → here p n n'
  kindName : ∀ {p n n'}, here p n n' → n.kindName = n'.kindName
  leaf : ∀ {n n'}, here .operand n n' → ∀ l, n = .leaf l ↔ n' = .leaf l

namespace Likeness

variable {S : Likeness} {n n' : Node}

/-- Nodes are the same, whatever they are. -/
def equal : Likeness where
  toWatch := .ofTokens fun _ => True
  Text _ := True
  below _ n n' := n = n'
  here _ n n' := n = n'
  text_of_known _ _ := trivial
  lift h := h
  test h := h
  formed := Node.eq_of_formed id id
  kindName h := h ▸ rfl
  leaf h l := by rw [h]

/-- Branches of equal nodes are those that are equal. -/
theorem branches_equal (bs : List Branch) : List.Forall₂ (Branch.Formed equal.below) bs bs :=
  branches_self (fun _ => rfl) (fun _ => rfl) bs

theorem branch_eq {b b' : Branch} (h : Branch.Formed equal.below b b') : b = b' := by
  obtain ⟨htest, hbody⟩ := h
  rw [eq_of_rel htest id, hbody]

/-- Whether a node is a bare name, and which one, is seen through every likeness. -/
theorem label?_eq (h : S.here .operand n n') : n.label? = n'.label? := by
  by_cases hleaf : ∃ l, n = .leaf l
  · obtain ⟨l, rfl⟩ := hleaf
    rw [(S.leaf h l).1 rfl]
  · have hnone : ∀ {n : Node}, (∀ l, n ≠ .leaf l) → n.label? = none := by
      intro n hn
      cases n with
      | leaf l => exact absurd rfl (hn l)
      | _ => rfl
    rw [hnone fun l hl => hleaf ⟨l, hl⟩, hnone fun l hl => hleaf ⟨l, (S.leaf h l).2 hl⟩]

/-- An attribute is told by the word for its shape. -/
theorem attribute_iff {p : Place} (h : S.here p n n') :
    (∃ name value, n = .attribute name value) ↔ ∃ name value, n' = .attribute name value := by
  have hkind : ∀ n : Node, (∃ name value, n = .attribute name value) ↔
      n.kindName = "Attribute" := by
    intro n
    cases n <;> simp [Node.kindName]
  rw [hkind, hkind, S.kindName h]

/-- The first branch without a test is at the same place. -/
theorem otherwise?_formed {bs bs' : List Branch}
    (hbs : List.Forall₂ (Branch.Formed S.below) bs bs') :
    Option.Rel (S.below .block) (Statement.otherwise? bs) (Statement.otherwise? bs') := by
  unfold Statement.otherwise?
  induction hbs with
  | nil => exact .none
  | cons hb _ ih =>
    obtain ⟨htest, hbody⟩ := hb
    cases htest with
    | none => exact .some hbody
    | some _ => exact ih

end Likeness

end Stencil
