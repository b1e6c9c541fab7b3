import Stencil.Proofs.Comparison
import Stencil.Proofs.Standard
/-!
# Comparisons along the rules

Every rule of the standard grammar keeps what a comparison keeps, and so does every expression and
every block that is read with such rules. The rules may be those of any words: nothing is said of
the texts that they are registered under.
-/

namespace Stencil

open Reading

namespace Comparison

variable {S : Likeness} {ι : Type} {l m : ι → Level} (K : Comparison S l m)
variable {k w : Bool} {t : Token} {n n' : Node}

/-! ## Operations -/

/-- Items up to a sign are read one by one, each by the level below. -/
theorem sequence (close what : String) :
    K.rel true w (List.Forall₂ (S.below .operand)) (fun i => Operation.sequence (l i) close what)
      fun i => Operation.sequence (m i) close what := by
  have hturn : ∀ items items', List.Forall₂ (S.below .operand) items items' →
      K.rel true w
        (Sum.LiftRel (List.Forall₂ (S.below .operand)) (List.Forall₂ (S.below .operand)))
        (fun i => Operation.itemTurn (l i) close what items)
        fun i => Operation.itemTurn (m i) close what items' := by
    intro items items' hitems
    refine K.look fun _ _ _ => K.ite Iff.rfl (fun _ => K.pure (.inr hitems)) fun _ => ?_
    exact K.bind (K.require 0 what) fun _ _ hn =>
      K.separated (.cons hn hitems) (.cons hn hitems)
  exact K.bind (K.loop hturn .nil) fun _ _ hitems => K.bind K.expect fun _ _ _ =>
    K.pure (List.rel_reverse hitems)

/-- A member is a key, a colon and a value; an object without members is compared as one that has
them. -/
theorem object (t : Token) :
    K.rel true w (Option.Rel (S.here .operand)) (fun i => Operation.object (l i) t)
      fun i => Operation.object (m i) t := by
  have hturn : ∀ members members', List.Forall₂ (Member.Formed S.below) members members' →
      K.rel true w (Sum.LiftRel (List.Forall₂ (Member.Formed S.below))
        (List.Forall₂ (Member.Formed S.below))) (fun i => Operation.memberTurn (l i) members)
        fun i => Operation.memberTurn (m i) members' := by
    intro members members' hmembers
    refine K.look fun _ _ _ => K.ite Iff.rfl (fun _ => K.pure (.inr hmembers)) fun _ => ?_
    exact K.bind (K.require 0 _) fun _ _ hkey => K.bind K.expect fun _ _ _ =>
      K.bind (K.require 0 _) fun _ _ hvalue =>
        K.separated (.cons (.mk hkey hvalue) hmembers) (.cons (.mk hkey hvalue) hmembers)
  exact K.bind (K.loop hturn .nil) fun _ _ hmembers => K.bind K.expect fun _ _ _ =>
    K.pure (.some (S.formed (.object (List.rel_reverse hmembers))))

/-- The test has been read already; what follows the question mark comes from below. -/
theorem conditional (t : Token) (hn : S.here .operand n n') :
    K.rel true w (S.here .operand) (fun i => Operation.conditional (l i) t n)
      fun i => Operation.conditional (m i) t n' := by
  refine K.bind (K.require 0 _) fun _ _ htrue => K.look fun _ _ _ => ?_
  refine K.ite Iff.rfl (fun _ => ?_) fun _ => ?_
  · exact K.take fun _ _ => K.bind (K.require 0 _) fun _ _ hfalse =>
      K.pure (S.formed (.conditional hn htrue (.some hfalse)))
  · exact K.pure (S.formed (.conditional hn htrue .none))

/-- A string as a value is read as a template of its own, which is why the value is related at
another place. -/
theorem attributePair (ht : S.Known t) (hn : S.here .operand n n') :
    K.rel true w (S.here .operand) (fun i => Operation.attributePair (l i) t n)
      fun i => Operation.attributePair (m i) t n' := by
  unfold Operation.attributePair
  rw [← Likeness.label?_eq hn, ← S.kindName hn]
  cases n.label? with
  | none => exact K.failAt (S.common _ _ (S.told t ht) rfl)
  | some name =>
    refine K.bind (K.require 0 _) fun value value' hvalue => ?_
    by_cases hstring : ∃ s, value = .leaf (.string s)
    · obtain ⟨s, rfl⟩ := hstring
      obtain rfl := (S.leaf (S.lift hvalue) _).1 rfl
      exact K.bind (K.attributeText hvalue (S.told t ht)) fun _ _ htext =>
        K.pure (S.formed (.attributeText name htext))
    -- if the first value is no string, neither is the second one
    · have hplain : ∀ s, value ≠ .leaf (.string s) := fun s hs => hstring ⟨s, hs⟩
      have hplain' : ∀ s, value' ≠ .leaf (.string s) := fun s hs =>
        hplain s ((S.leaf (S.lift hvalue) _).2 hs)
      split
      · next s => exact absurd rfl (hplain s)
      · exact K.pure (S.formed (.attribute name hvalue hplain))

/-- A path has segments. -/
theorem segments :
    K.rel true w (fun a b => a = b ∧ a ≠ []) (fun _ => Reading.loop Operation.segmentTurn [])
      fun _ => Reading.loop Operation.segmentTurn [] := by
  have hturn : ∀ segments segments', segments = segments' →
      K.rel true w (Sum.LiftRel Eq fun a b => a = b ∧ a ≠ [])
        (fun _ => Operation.segmentTurn segments) fun _ => Operation.segmentTurn segments' := by
    rintro segments _ rfl
    refine K.look fun c ps _ => ?_
    rw [Cursor.withPending_tokens]
    split
    · exact K.expected
    · exact K.ite Iff.rfl (fun _ => K.take fun _ _ =>
        K.separated rfl ⟨rfl, List.cons_ne_nil _ _⟩) fun _ => K.expected
  exact K.loop hturn rfl

/-- Behind a bar there are filters. -/
theorem filters :
    K.rel true w (fun a b => a = b ∧ a ≠ []) (fun _ => Reading.loop Operation.filterTurn [])
      fun _ => Reading.loop Operation.filterTurn [] := by
  have hturn : ∀ filters filters', filters = filters' →
      K.rel true w (Sum.LiftRel Eq fun a b => a = b ∧ a ≠ [])
        (fun _ => Operation.filterTurn filters) fun _ => Operation.filterTurn filters' := by
    rintro filters _ rfl
    refine K.bind K.literal fun name name' hname => ?_
    subst hname
    exact K.separated rfl ⟨rfl, List.cons_ne_nil _ _⟩
  exact K.loop hturn rfl

/-- Every word that joins operands keeps a comparison: the one case distinction over the infix
rules. -/
theorem joins {text : String} {rule : InfixRule} (hr : Grammar.Joins text rule)
    (ht : S.Known t) (hn : S.here .operand n n') :
    K.rel true w (S.here .operand) (fun i => rule (l i) t n) fun i => rule (m i) t n' := by
  have hlogical : K.rel true w (S.here .operand) (fun i => Operation.logical (l i) t n)
      fun i => Operation.logical (m i) t n' := by
    obtain ⟨power, hpower⟩ := K.power ht
    simp only [Operation.logical, (hpower _).1, (hpower _).2]
    exact K.binary ht hn _
  cases hr with
  | conjunction => exact hlogical
  | disjunction => exact hlogical
  | membership =>
    exact K.bind (K.require 0 _) fun _ _ hin => K.pure (S.formed (.member hn hin))
  | conditional => exact K.conditional t hn
  | attributePair => exact K.attributePair ht hn
  | call =>
    exact K.bind (K.sequence _ _) fun _ _ hargs => K.pure (S.formed (.call hn hargs))
  | index =>
    exact K.bind (K.require 0 _) fun _ _ hkey => K.bind K.expect fun _ _ _ =>
      K.pure (S.formed (.index hn hkey))
  | path =>
    refine K.bind K.segments fun segments segments' hsame => ?_
    obtain ⟨rfl, hne⟩ := hsame
    exact K.pure (S.formed (.path (by simpa using hne) hn))
  | filtered =>
    refine K.bind K.filters fun filters filters' hsame => ?_
    obtain ⟨rfl, hne⟩ := hsame
    exact K.pure (S.formed (.filtered (by simpa using hne) hn))

/-! ## Statements -/

/-- What a statement is about is an expression that must be there. -/
theorem header (what : String) :
    K.rel true w (S.below .operand) (fun i => Statement.header (l i) what)
      fun i => Statement.header (m i) what :=
  K.bind (K.require 0 what) fun _ _ htest => K.bind K.expect fun _ _ _ => K.pure htest

/-- An `if` waits for its branches in the block behind its test, so its body and its branches come
together. -/
theorem choice (t : Token) :
    K.rel true w (Option.Rel (S.here .operand)) (fun i => Statement.choice (l i) t)
      fun i => Statement.choice (m i) t := by
  refine K.bind (K.header _) fun _ _ htest => ?_
  refine K.awaited (fun _ _ => rfl) (fun _ _ => rfl) fun _ _ p p' hbody hbranches => ?_
  exact K.pure (.some (S.formed (.choice (.cons (.mk (.some (S.test htest)) hbody) hbranches))))

/-- The test of a branch is read for an `if` only, and which statement waits is the same on both
sides. -/
theorem branchTest (ht : S.Known t) {owner owner' : Pending} (hkind : owner.kind = owner'.kind) :
    K.rel true w (Option.Rel (S.below .test)) (fun i => Statement.branchTest (l i) t owner)
      fun i => Statement.branchTest (m i) t owner' := by
  refine K.look fun _ _ _ => K.ite Iff.rfl (fun _ => ?_) fun _ => ?_
  · refine K.check (by rw [hkind]) (S.common _ _ (S.told t ht) rfl) fun _ => ?_
    exact K.take fun _ _ => K.bind (K.header _) fun _ _ htest => K.pure (.some (S.test htest))
  · exact K.bind K.expect fun _ _ _ => K.bind K.mark fun _ _ _ => K.pure .none

/-- A branch ends the block that it stands in: it is recorded with the statement that waits, and
gives no node. -/
theorem branch (ht : S.Known t) :
    K.rel true w (Option.Rel (S.here .operand)) (fun i => Statement.branch (l i) t)
      fun i => Statement.branch (m i) t := by
  have hcommon : ∀ fault : SyntaxFault, fault.isCommon = true → S.Due ⟨t.line, fault⟩ :=
    fun fault => S.common _ fault (S.told t ht)
  refine K.owner (K.failAt (hcommon _ rfl)) fun p p' hkind hother => ?_
  refine K.check (by rw [hother]) (hcommon _ rfl) fun _ => ?_
  refine K.bind (K.branchTest ht hkind) fun _ _ htest => ?_
  refine K.bind (K.block true) fun _ _ hbody => K.still ?_
  exact K.bind (K.record (.mk htest hbody)) fun _ _ _ => K.pure .none

/-- Both loops have the same names. -/
theorem names :
    K.rel true w Eq (fun _ => Reading.loop Statement.nameTurn []) fun _ =>
      Reading.loop Statement.nameTurn [] := by
  have hturn : ∀ names names', names = names' → K.rel true w (Sum.LiftRel Eq Eq)
      (fun _ => Statement.nameTurn names) fun _ => Statement.nameTurn names' := by
    rintro names _ rfl
    refine K.look fun _ _ _ => K.ite Iff.rfl (fun _ => K.pure (.inr rfl)) fun _ => ?_
    refine K.bind K.literal fun name name' hname => ?_
    subst hname
    exact K.separated rfl rfl
  exact K.loop hturn rfl

theorem forLoop (ht : S.Known t) :
    K.rel true w (Option.Rel (S.here .operand)) (fun i => Statement.loop (l i) t)
      fun i => Statement.loop (m i) t := by
  have hcommon : ∀ fault : SyntaxFault, fault.isCommon = true → S.Due ⟨t.line, fault⟩ :=
    fun fault => S.common _ fault (S.told t ht)
  refine K.bind K.names fun names names' hnames => ?_
  subst hnames
  refine K.check Iff.rfl (hcommon _ rfl) fun hne => K.bind K.expect fun _ _ _ => ?_
  have hne : names.reverse ≠ [] := by simpa using hne
  refine K.bind (K.require 0 _) fun _ _ hsource => K.look fun _ _ _ => ?_
  refine K.ite Iff.rfl (fun _ => K.take fun _ _ => ?_) fun _ => ?_
  · refine K.awaited (fun _ _ => rfl) (fun _ _ => rfl) fun _ _ p p' hbody hbranches => ?_
    exact K.pure (.some (S.formed (.loop hne hsource hbody (Likeness.otherwise?_formed hbranches))))
  · refine K.ite Iff.rfl (fun _ => K.failAt (hcommon _ rfl)) fun _ => ?_
    refine K.bind (K.require 0 _) fun _ _ hbody => ?_
    exact K.pure (.some (S.formed (.loopOf hne hsource hbody)))

theorem render (t : Token) :
    K.rel true w (Option.Rel (S.here .operand)) (fun i => Statement.render (l i) t)
      fun i => Statement.render (m i) t := by
  refine K.bind (K.require 0 _) fun target target' htarget => ?_
  rw [← Likeness.label?_eq (S.lift htarget)]
  cases hlabel : target.label? with
  | none => exact K.pure (.some (S.formed (.renderComputed htarget hlabel)))
  | some name => exact K.pure (.some (S.formed (.render name)))

theorem assignment (t : Token) :
    K.rel true w (Option.Rel (S.here .operand)) (fun i => Statement.assignment (l i) t)
      fun i => Statement.assignment (m i) t := by
  refine K.bind K.literal fun name name' hname => ?_
  subst hname
  exact K.bind K.expect fun _ _ _ => K.bind (K.require 0 _) fun _ _ hvalue =>
    K.pure (.some (S.formed (.assignment name hvalue)))

/-! ## Elements -/

/-- Both readings find the same tag, and modifiers that are related one by one. -/
theorem elementHeader :
    K.rel true w (fun x y => x.1 = y.1 ∧ List.Forall₂ (S.below .modifier) x.2 y.2)
      (fun i => Statement.elementHeader (l i)) fun i => Statement.elementHeader (m i) := by
  have hturn : ∀ modifiers modifiers', List.Forall₂ (S.below .modifier) modifiers modifiers' →
      K.rel true w
        (Sum.LiftRel (List.Forall₂ (S.below .modifier)) (List.Forall₂ (S.below .modifier)))
        (fun i => Statement.modifierTurn (l i) modifiers)
        fun i => Statement.modifierTurn (m i) modifiers' := by
    intro modifiers modifiers' hmodifiers
    refine K.look fun _ _ _ => K.ite Iff.rfl (fun _ => K.pure (.inr hmodifiers)) fun _ => ?_
    refine K.bind (K.require 0 _) fun _ _ hn => ?_
    obtain ⟨x, x', hx, hsame⟩ := K.resolve hn
    simp only [(hsame _).1, (hsame _).2]
    exact K.pure (.inl (.cons hx hmodifiers))
  refine K.look fun c _ hc => K.bind (K.require 0 _) fun tag tag' htag => ?_
  rw [← Likeness.label?_eq (S.lift htag), ← S.kindName (S.lift htag)]
  cases tag.label? with
  | none => exact K.failAt (S.common _ _ hc.told rfl)
  | some name => exact K.bind (K.loop hturn .nil) fun _ _ hmodifiers => K.pure ⟨rfl, hmodifiers⟩

/-- An element is compared by its header and by the block or the line behind it. -/
theorem element (t : Token) :
    K.rel true w (Option.Rel (S.here .operand)) (fun i => Statement.element (l i) t)
      fun i => Statement.element (m i) t := by
  refine K.bind K.elementHeader fun x y hxy => ?_
  obtain ⟨tag, modifiers⟩ := x
  obtain ⟨_, modifiers'⟩ := y
  obtain ⟨rfl, hmodifiers⟩ := hxy
  have hmodifiers := List.rel_reverse hmodifiers
  refine K.look fun _ _ _ => K.ite Iff.rfl (fun _ => K.take fun _ _ => ?_) fun _ => ?_
  · exact K.bind (K.block true) fun _ _ hbody =>
      K.pure (.some (S.formed (.elementBlock tag hmodifiers hbody)))
  · exact K.pure (.some (S.formed (.element tag hmodifiers)))

/-- The last modifier becomes the text of the element, unless it is an attribute for both. -/
theorem elementText (ht : S.Known t) :
    K.rel true w (Option.Rel (S.here .operand)) (fun i => Statement.elementText (l i) t)
      fun i => Statement.elementText (m i) t := by
  have hfail : K.rel true w (Option.Rel (S.here .operand))
      (fun _ => Reading.failAt t.line .elementWithoutText)
      fun _ => Reading.failAt t.line .elementWithoutText :=
    K.failAt (S.common _ _ (S.told t ht) rfl)
  refine K.bind K.elementHeader fun x y hxy => ?_
  obtain ⟨tag, modifiers⟩ := x
  obtain ⟨_, modifiers'⟩ := y
  obtain ⟨rfl, hmodifiers⟩ := hxy
  dsimp only at hmodifiers ⊢
  cases hmodifiers with
  | nil => exact hfail
  | @cons body body' modifiers modifiers' hbody hmodifiers =>
    have hiff := Likeness.attribute_iff (S.lift hbody)
    -- an attribute is no text, and the likeness tells attributes from the rest
    by_cases hattribute : ∃ name value, body = .attribute name value
    · obtain ⟨_, _, rfl⟩ := hiff.1 hattribute
      obtain ⟨_, _, rfl⟩ := hattribute
      exact hfail
    · have hplain : ∀ name value, body ≠ .attribute name value :=
        fun name value heq => hattribute ⟨name, value, heq⟩
      have hplain' : ∀ name value, body' ≠ .attribute name value :=
        fun name value heq => hattribute (hiff.2 ⟨name, value, heq⟩)
      split
      · next heq => cases heq
      · next heq => exact absurd (List.cons.inj heq).1 (hplain _ _)
      · next heq =>
        obtain ⟨rfl, rfl⟩ := List.cons.inj heq
        exact K.pure
          (.some (S.formed (.elementText tag (List.rel_reverse hmodifiers) hbody hplain)))

/-- Every word that opens an operand keeps a comparison: the one case distinction over the prefix
rules. -/
theorem opens {text : String} {rule : PrefixRule} (hr : Grammar.Opens text rule)
    (ht : S.Known t) :
    K.rel true w (Option.Rel (S.here .operand)) (fun i => rule (l i) t) fun i => rule (m i) t := by
  cases hr with
  | negation =>
    exact K.bind (K.require 0 _) fun _ _ hn => K.pure (.some (S.formed (.negation hn)))
  | group =>
    exact K.bind (K.require 0 _) fun _ _ hn => K.bind K.expect fun _ _ _ =>
      K.pure (.some (S.lift hn))
  | array =>
    exact K.bind (K.sequence _ _) fun _ _ hitems => K.pure (.some (S.formed (.array hitems)))
  | object => exact K.object t
  | comment => exact K.bind (K.pass _) fun _ _ _ => K.pure .none
  | choice => exact K.choice t
  | branch => exact K.branch ht
  | loop => exact K.forLoop ht
  | render => exact K.render t
  | assignment => exact K.assignment t
  | elementText => exact K.elementText ht

end Comparison

/-! ## Grammars -/

namespace Grammar

/-- Whether a rule is one that the standard grammar has for the start of an expression. -/
def IsOpening (rule : PrefixRule) : Prop :=
  rule = Statement.element ∨ ∃ text, Opens text rule

/-- Whether a rule is one that the standard grammar has behind an operand. -/
def IsJoining (rule : InfixRule) : Prop :=
  ∃ text, Joins text rule

/-- A grammar whose words have no rules but those of the standard grammar. -/
structure HasStandardRules (g : Grammar) : Prop where
  opening : ∀ {t rule}, g.opening? t = some rule → IsOpening rule
  joining : ∀ {t rule}, g.joining? t = some rule → IsJoining rule

/-- The grammar of the language itself has the standard rules only. -/
theorem hasStandardRules_standard : standard.HasStandardRules := by
  rw [← standardWith_element]
  constructor
  · intro t rule hrule
    rcases opening?_cases t with ⟨-, ho⟩ | ⟨rule', hr, ho⟩ | ho
    · exact Or.inl (Option.some.inj ((ho _).symm.trans hrule)).symm
    · obtain rfl := Option.some.inj ((ho _).symm.trans hrule)
      exact Or.inr ⟨_, hr⟩
    · cases (ho _).symm.trans hrule
  · intro t rule hrule
    rcases joining?_cases t with ⟨rule', hr, hj⟩ | hj
    · obtain rfl := Option.some.inj ((hj _).symm.trans hrule)
      exact ⟨_, hr⟩
    · cases (hj _).symm.trans hrule

end Grammar

namespace Comparison

open Grammar

variable {S : Likeness} {ι : Type} {l m : ι → Level} (K : Comparison S l m)
variable {k w : Bool} {t : Token} {n n' : Node} {g g' : Grammar}

/-- What two grammars have for the tokens that are known: words that bind equally, and rules that
compare. -/
structure Grammars (K : Comparison S l m) (g g' : Grammar) : Prop where
  power : ∀ {t}, S.Known t → g.power t = g'.power t
  opening : ∀ {t}, S.Known t → Option.Rel (fun rule rule' => ∀ {w : Bool},
    K.rel true w (Option.Rel (S.here .operand)) (fun i => rule (l i) t) fun i => rule' (m i) t)
    (g.opening? t) (g'.opening? t)
  joining : ∀ {t}, S.Known t → Option.Rel (fun rule rule' => ∀ {w : Bool} {n n' : Node},
    S.here .operand n n' → K.rel true w (S.here .operand) (fun i => rule (l i) t n) fun i =>
      rule' (m i) t n') (g.joining? t) (g'.joining? t)

/-- A rule of the standard grammar compares with itself. -/
theorem opening {rule : PrefixRule} (hr : IsOpening rule) (ht : S.Known t) :
    K.rel true w (Option.Rel (S.here .operand)) (fun i => rule (l i) t) fun i => rule (m i) t := by
  rcases hr with rfl | ⟨text, hr⟩
  · exact K.element t
  · exact K.opens hr ht

/-- Grammars with standard rules that agree on the tokens that are known. -/
theorem grammars_of_standard (hg : g.HasStandardRules)
    (hsame : ∀ t, S.Known t → g'.symbol? t = g.symbol? t) : K.Grammars g g' where
  power ht := by rw [Grammar.power, Grammar.power, hsame _ ht]
  opening {t} ht := by
    have hsame : g'.opening? t = g.opening? t := by rw [opening?, opening?, hsame t ht]
    rw [hsame]
    cases hrule : g.opening? t with
    | none => exact .none
    | some rule => exact .some fun {_} => K.opening (hg.opening hrule) ht
  joining {t} ht := by
    have hsame : g'.joining? t = g.joining? t := by rw [joining?, joining?, hsame t ht]
    rw [hsame]
    cases hrule : g.joining? t with
    | none => exact .none
    | some rule =>
      obtain ⟨text, hr⟩ := hg.joining hrule
      exact .some fun {_ _ _} hn => K.joins hr ht hn

/-- A leaf is the same for both readings. -/
theorem leaf (ht : S.Known t) :
    K.rel k w (Option.Rel (S.here .operand)) (fun _ => do return some (.leaf (← Level.leaf t)))
      fun _ => do return some (.leaf (← Level.leaf t)) := by
  have hcommon : ∀ fault : SyntaxFault, fault.isCommon = true → S.Due ⟨t.line, fault⟩ :=
    fun fault => S.common _ fault (S.told t ht)
  -- a word or a value is the same leaf on both sides, and an error is common to both
  have hleaf : K.rel k w (fun lf lf' => lf = lf' ∧ (∀ s, lf = .string s → S.Text s) ∧
      ∀ v, lf = .number v → ∃ n, v = .number n) (fun _ => Level.leaf t) fun _ => Level.leaf t := by
    unfold Level.leaf
    split
    · exact K.pure ⟨rfl, nofun, nofun⟩
    · next hk =>
      refine K.pure ⟨rfl, fun s hs => ?_, nofun⟩
      cases hs
      exact S.text_of_known ht hk
    · next hk =>
      split
      · next n _ =>
        refine K.pure ⟨rfl, nofun, fun v hv => ?_⟩
        cases hv
        exact ⟨n, rfl⟩
      · next hnone => exact K.failAt (S.number t ht hk hnone)
    · exact K.pure ⟨rfl, nofun, nofun⟩
    · exact K.pure ⟨rfl, nofun, nofun⟩
    · exact K.pure ⟨rfl, nofun, nofun⟩
    · exact K.failAt (hcommon _ rfl)
    · exact K.failAt (hcommon _ rfl)
  refine K.bind hleaf fun lf lf' hlf => ?_
  obtain ⟨rfl, htext, hnumber⟩ := hlf
  exact K.pure (.some (S.formed (.leaf htext hnumber)))

namespace Grammars

variable {K} (hg : K.Grammars g g')
include hg

theorem start (ht : S.Known t) :
    K.rel true w (Option.Rel (S.here .operand)) (fun i => g.start (l i) t) fun i =>
      g'.start (m i) t := by
  have hopening := hg.opening ht
  generalize hrule : g.opening? t = o at hopening
  generalize hrule' : g'.opening? t = o' at hopening
  cases hopening with
  | none =>
    simp only [start_of_opening?_none hrule, start_of_opening?_none hrule']
    exact K.leaf ht
  | some h =>
    simp only [start_of_opening? hrule, start_of_opening? hrule']
    exact h

/-- What a word makes of the operand before it. -/
theorem extend (ht : S.Known t) (hn : S.here .operand n n') :
    K.rel true w (S.here .operand) (fun i => g.extend (l i) t n) fun i =>
      g'.extend (m i) t n' := by
  have hjoining := hg.joining ht
  generalize hrule : g.joining? t = o at hjoining
  generalize hrule' : g'.joining? t = o' at hjoining
  cases hjoining with
  | none =>
    simp only [extend_of_joining?_none hrule, extend_of_joining?_none hrule', hg.power ht]
    exact K.binary ht hn _
  | some h =>
    simp only [extend_of_joining? hrule, extend_of_joining? hrule']
    exact h hn

/-- One turn of the loop that extends an expression. It ends on both sides at the same token, since
both grammars give it the same power. -/
theorem extendTurn (power : Nat) {o o' : Option Node} (ho : Option.Rel (S.here .operand) o o') :
    K.rel k w (Sum.LiftRel (Option.Rel (S.here .operand)) (Option.Rel (S.here .operand)))
      (fun i => g.extendTurn (l i) power o) fun i => g'.extendTurn (m i) power o' := by
  refine K.look fun c ps hc => ?_
  have hknown := hc.known
  rw [Cursor.withPending_tokens]
  cases htok : c.tokens with
  | nil => exact K.pure (.inr ho)
  | cons u rest =>
    rw [htok] at hknown
    have hpower := hg.power (hknown u List.mem_cons_self)
    refine K.ite (by rw [hpower]) (fun _ => K.take fun t ht => ?_) fun _ => K.pure (.inr ho)
    cases ho with
    | none => exact K.failAt (S.common _ _ (S.told t ht) rfl)
    | some hn => exact K.bind (hg.extend ht hn) fun _ _ hx => K.pure (.inl (.some hx))

/-- **An expression keeps what is compared** if the levels do that its parts are read with. -/
theorem expressionOf (power : Nat) :
    K.rel k w (Option.Rel (S.here .operand)) (fun i => g.expressionOf (l i) power) fun i =>
      g'.expressionOf (m i) power :=
  K.take fun _ ht => K.bind (hg.start ht) fun _ _ ho =>
    K.loop (fun _ _ ho => hg.extendTurn power ho) ho

end Grammars

end Comparison

end Stencil
