import Stencil.Extension
import Stencil.Proofs.Parallel
/-!
# Modifiers of the host

A function that the host has registered takes the place of its name while a template is read, as
soon as the modifier has been read that calls it. Here the same is done afterwards: a template that
was read without any functions gets them by `swapped`, in the modifiers of its elements and nowhere
else. Reading never notices the difference.
-/

namespace Stencil

namespace Node

variable (r : String → Option Callable)

/-- The node with the function of a name in the place of the name, if it is a call of a name that
has one. -/
def calling : Node → Node
  | call (leaf (.name id)) args =>
    match r id with
    | some f => call (external (.function f)) args
    | none => call (leaf (.name id)) args
  | node => node

mutual

/-- The tree with functions in the place of the names that the modifiers of its elements call. The
text of an element is its last modifier. -/
def swapped : Node → Node
  | block children => block (swappedAll children)
  | choice branches => choice (swappedBranches branches)
  | loop names source body otherwise =>
    loop names (swapped source) (swapped body) (swappedOption otherwise)
  | binary op left right => binary op (swapped left) (swapped right)
  | negation operand => negation (swapped operand)
  | conditional test whenTrue whenFalse =>
    conditional (swapped test) (swapped whenTrue) (swappedOption whenFalse)
  | leaf l => leaf l
  | path target segments => path (swapped target) segments
  | index target key => index (swapped target) (swapped key)
  | member item container => member (swapped item) (swapped container)
  | call callee args => call (swapped callee) (swappedAll args)
  | filtered value filters => filtered (swapped value) filters
  | assignment name value => assignment name (swapped value)
  | .attribute name value => .attribute name (swapped value)
  | array items => array (swappedAll items)
  | object members => object (swappedMembers members)
  | output mode parts => output mode (swappedParts parts)
  | element tag modifiers body => element tag (swappedModifiers modifiers) (swappedBody body)
  | render name => render name
  | renderComputed name => renderComputed (swapped name)
  | external v => external v

def swappedAll : List Node → List Node
  | [] => []
  | n :: ns => swapped n :: swappedAll ns

def swappedOption : Option Node → Option Node
  | none => none
  | some n => some (swapped n)

def swappedBranches : List Branch → List Branch
  | [] => []
  | .mk test body :: bs => .mk (swappedOption test) (swapped body) :: swappedBranches bs

def swappedMembers : List Member → List Member
  | [] => []
  | .mk key value :: ms => .mk (swapped key) (swapped value) :: swappedMembers ms

def swappedParts : List Part → List Part
  | [] => []
  | .text s :: ps => .text s :: swappedParts ps
  | .expr e :: ps => .expr (swapped e) :: swappedParts ps

def swappedModifiers : List Node → List Node
  | [] => []
  | n :: ns => calling r (swapped n) :: swappedModifiers ns

def swappedBody : Body → Body
  | .empty => .empty
  | .block body => .block (swapped body)
  | .text body => .text (calling r (swapped body))

end

variable {r}

/-- Below a modifier only elements of its own have modifiers. -/
example : swapped (fun _ => some .click) (.element "a" [.call (.leaf (.name "f"))
      [.call (.leaf (.name "g")) []]] .empty) =
    .element "a" [.call (.external (.function .click)) [.call (.leaf (.name "g")) []]] .empty :=
  rfl

theorem kindName_calling (n : Node) : (n.calling r).kindName = n.kindName := by
  unfold calling
  split
  · split <;> rfl
  · rfl

/-- Where nothing is registered nothing is replaced. -/
theorem calling_of_none {n : Node} (h : ∀ id, r id = none) : n.calling r = n := by
  unfold calling
  split
  · rw [h]
  · rfl

theorem resolve_eq_calling (l : Level) (n : Node) :
    Statement.resolve l n = n.calling l.modifier? :=
  rfl

theorem kindName_swapped (n : Node) : (n.swapped r).kindName = n.kindName := by
  cases n <;> simp only [swapped, kindName]

theorem swapped_eq_leaf {n : Node} {l : Leaf} : n.swapped r = .leaf l ↔ n = .leaf l := by
  cases n <;> simp [swapped]

/-! ## Related parts -/

section Parts

/-- How the nodes of a template that was read without functions correspond to those with them. -/
def Swaps (r : String → Option Callable) : Place → Node → Node → Prop
  | .modifier, n, n' => (n.swapped r).calling r = n'
  | _, n, n' => n.swapped r = n'

theorem swappedAll_of_forall₂ {ns ns' : List Node}
    (h : List.Forall₂ (fun n n' => n.swapped r = n') ns ns') : swappedAll r ns = ns' := by
  induction h with
  | nil => rfl
  | cons hn _ ih => rw [swappedAll, hn, ih]

theorem swappedModifiers_of_forall₂ {ns ns' : List Node}
    (h : List.Forall₂ (Swaps r .modifier) ns ns') : swappedModifiers r ns = ns' := by
  induction h with
  | nil => rfl
  | cons hn _ ih => rw [swappedModifiers, hn, ih]

theorem swappedOption_of_rel {o o' : Option Node}
    (h : Option.Rel (fun n n' => n.swapped r = n') o o') : swappedOption r o = o' := by
  cases h with
  | none => rfl
  | some hn => rw [swappedOption, hn]

theorem swappedBranches_of_forall₂ {bs bs' : List Branch}
    (h : List.Forall₂ (Branch.Formed (Swaps r)) bs bs') : swappedBranches r bs = bs' := by
  induction h with
  | nil => rfl
  | cons hb _ ih =>
    obtain ⟨htest, hbody⟩ := hb
    rw [swappedBranches, swappedOption_of_rel htest, hbody, ih]

theorem swappedMembers_of_forall₂ {ms ms' : List Member}
    (h : List.Forall₂ (Member.Formed (Swaps r)) ms ms') : swappedMembers r ms = ms' := by
  induction h with
  | nil => rfl
  | cons hm _ ih =>
    obtain ⟨hkey, hvalue⟩ := hm
    rw [swappedMembers, hkey, hvalue, ih]

theorem swappedParts_of_forall₂ {ps ps' : List Part}
    (h : List.Forall₂ (Part.Formed (Swaps r)) ps ps') : swappedParts r ps = ps' := by
  induction h with
  | nil => rfl
  | cons hp _ ih =>
    cases hp with
    | text s => rw [swappedParts, ih]
    | expr hn => rw [swappedParts, hn, ih]

end Parts

/-- Swapping goes through every node that the rules put together. -/
theorem swaps_of_formed {p : Place} {n n' : Node}
    (h : Formed (Swaps r) (Swaps r) (fun _ => True) p n n') : Swaps r p n n' := by
  cases h with
  | leaf => rfl
  | binary op hleft hright =>
    obtain rfl := hleft
    obtain rfl := hright
    rfl
  | negation hn =>
    obtain rfl := hn
    rfl
  | conditional htest htrue hfalse =>
    obtain rfl := htest
    obtain rfl := htrue
    obtain rfl := swappedOption_of_rel hfalse
    rfl
  | path _ htarget =>
    obtain rfl := htarget
    rfl
  | index htarget hkey =>
    obtain rfl := htarget
    obtain rfl := hkey
    rfl
  | member hitem hinside =>
    obtain rfl := hitem
    obtain rfl := hinside
    rfl
  | call hcallee hargs =>
    obtain rfl := hcallee
    obtain rfl := swappedAll_of_forall₂ hargs
    rfl
  | filtered _ hvalue =>
    obtain rfl := hvalue
    rfl
  | assignment name hvalue =>
    obtain rfl := hvalue
    rfl
  | «attribute» name hvalue _ =>
    obtain rfl := hvalue
    rfl
  | attributeText name hvalue =>
    obtain rfl := hvalue
    rfl
  | array hitems =>
    obtain rfl := swappedAll_of_forall₂ hitems
    rfl
  | object hmembers =>
    obtain rfl := swappedMembers_of_forall₂ hmembers
    rfl
  | choice hbranches =>
    obtain rfl := swappedBranches_of_forall₂ hbranches
    rfl
  | loop _ hsource hbody hother =>
    obtain rfl := hsource
    obtain rfl := hbody
    obtain rfl := swappedOption_of_rel hother
    rfl
  | loopOf _ hsource hbody =>
    obtain rfl := hsource
    obtain rfl := hbody
    rfl
  | render name => rfl
  | renderComputed htarget _ =>
    obtain rfl := htarget
    rfl
  | element tag hmodifiers =>
    obtain rfl := swappedModifiers_of_forall₂ hmodifiers
    rfl
  | elementBlock tag hmodifiers hbody =>
    obtain rfl := swappedModifiers_of_forall₂ hmodifiers
    obtain rfl := hbody
    rfl
  | elementText tag hmodifiers hbody _ =>
    obtain rfl := swappedModifiers_of_forall₂ hmodifiers
    obtain rfl := hbody
    rfl
  | line _ hparts =>
    obtain rfl := swappedParts_of_forall₂ hparts
    rfl
  | child hn => exact hn
  | block hchildren =>
    obtain rfl := swappedAll_of_forall₂ hchildren
    rfl
  | text hparts =>
    obtain rfl := swappedParts_of_forall₂ hparts
    rfl

end Node

/-- Templates without functions beside the same templates with functions. -/
def Likeness.swapping (r : String → Option Callable) : Likeness where
  toWatch := .ofTokens fun _ => True
  Text _ := True
  below := Node.Swaps r
  here := Node.Swaps r
  text_of_known _ _ := trivial
  lift h := h
  test h := h
  formed := Node.swaps_of_formed
  kindName := by
    intro p n n' h
    cases p with
    | modifier => rw [← h, Node.kindName_calling, Node.kindName_swapped]
    | _ => rw [← h, Node.kindName_swapped]
  leaf := by
    rintro n _ rfl l
    exact Node.swapped_eq_leaf.symm

/-- **The functions of the host only take the places of names**: a template is read with them as it
is read without them, up to the same error, and has them in the modifiers of its elements and
nowhere else. -/
theorem Dialect.compile_swapped (r : String → Option Callable) (maxDepth : Nat)
    (name source : String) :
    Dialect.compile ⟨.standard, r, maxDepth⟩ name source =
      (Dialect.compile ⟨.standard, Extensions.modifier? [], maxDepth⟩ name source).map
        (Node.swapped r) := by
  let d : Dialect := ⟨.standard, Extensions.modifier? [], maxDepth⟩
  let d' : Dialect := ⟨.standard, r, maxDepth⟩
  have hdialects : (Likeness.swapping r).Dialects d d' := by
    refine ⟨Grammar.hasStandardRules_standard, fun _ _ => rfl, rfl, rfl, fun _ => trivial, ?_,
      fun _ _ _ => rfl, fun _ _ _ _ _ _ _ => trivial⟩
    rintro l m hl hm n _ rfl
    -- without functions nothing takes the place of a name
    have hkept : Statement.resolve l n = n := by
      rw [Node.resolve_eq_calling, hl]
      exact Node.calling_of_none fun _ => rfl
    rw [hkept, Node.resolve_eq_calling, hm]
    rfl
  have hread := hdialects.parseSource_parallel source trivial
  change d'.compile name source = (d.compile name source).map (Node.swapped r)
  rw [compile, compile]
  generalize d.parseSource source = x at hread
  generalize d'.parseSource source = y at hread
  cases hread with
  | ok h =>
    obtain rfl : Node.swapped r _ = _ := h
    rfl
  | error e => rfl

end Stencil
