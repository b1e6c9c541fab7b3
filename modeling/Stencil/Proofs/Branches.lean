import Mathlib
import Stencil.Proofs.Branches.Places
import Stencil.Proofs.Derivation.Levels
/-!
# The branches of choices

Every choice that a derivation leaves is a chain of branches with places in the source, or in a
string of it that is the value of an attribute. The induction carries along what the statements
that wait have recorded, and that nothing is out of order where nothing is cut off. The strict
dialect cuts off nothing, so that all choices of the templates that it reads are in the order of
the source.
-/

namespace Stencil

open Reading

/-- The lists of tokens that are read: the given one, and those of the strings in it, which are
read where they are the values of attributes. -/
inductive Source (v : Vocabulary) : List Token → List Token → Prop
  | here {ts : List Token} : Source v ts ts
  | string {ts tokens src : List Token} {t : Token} {line : Nat} :
      t ∈ ts → t.kind = .string → Lexer.tokenizeFrom v t.text line = .ok tokens →
      Source v (Cursor.ofTokens tokens).tokens src → Source v ts src

/-- Whether every choice in a tree is a chain in one of the sources, and in order where nothing is
cut off, as `strict` says. -/
def Chained (L : Level → Prop) (strict : Prop) (v : Vocabulary) (whole : List Token) (n : Node) :
    Prop :=
  ∀ bs, .choice bs ∈ n.walk → ∃ src first others, Source v whole src ∧
    Chain L src bs first others ∧ (strict → others.Pairwise Entry.Before)

variable {L : Level → Prop} {strict : Prop} {v : Vocabulary} {whole : List Token}

/-- A tree is chained if the trees of its children are, and its root is a chain should it be a
choice. -/
theorem chained_of_children {n : Node} (h : ∀ m ∈ n.children, Chained L strict v whole m)
    (hn : ∀ bs, n = .choice bs → ∃ src first others, Source v whole src ∧
      Chain L src bs first others ∧ (strict → others.Pairwise Entry.Before)) :
    Chained L strict v whole n := by
  intro bs hbs
  rw [Node.walk_eq, List.mem_cons, List.mem_flatMap] at hbs
  rcases hbs with hbs | ⟨m, hm, hbs⟩
  · exact hn bs hbs.symm
  · exact h m hm bs hbs

/-- A tree with another node on top has the choices of the trees right below it. -/
theorem chained_of_ne {n : Node} (hn : ∀ bs, n ≠ .choice bs)
    (h : ∀ m ∈ n.children, Chained L strict v whole m) : Chained L strict v whole n :=
  chained_of_children h fun bs hbs => absurd hbs (hn bs)

/-- The function that a host has registered stands for a name, and so holds no choice either. -/
theorem Chained.external {id : String} {args : List Node} {f : Callable}
    (h : Chained L strict v whole (.call (.leaf (.name id)) args)) :
    Chained L strict v whole (.call (.external (.function f)) args) := by
  intro bs hbs
  refine h bs ?_
  simp only [Node.walk_eq, Node.children, List.mem_cons, List.flatMap_cons, List.mem_append,
    List.flatMap_nil, reduceCtorEq, false_or] at hbs ⊢
  simpa using hbs

/-- What holds of a derivation at whose start only tokens of `whole` are left. -/
structure Records (L : Level → Prop) (strict : Prop) (v : Vocabulary) (whole : List Token)
    (c : Cursor) (ns : List Node) (c' : Cursor) : Prop where
  evolves : Evolves L strict (Chained L strict v whole) c.tokens c'.tokens c.pending c'.pending
  nodes : ∀ n ∈ ns, Chained L strict v whole n
  strings : ∀ text, .leaf (.string text) ∈ ns → ∃ t ∈ whole, t.kind = .string ∧ t.text = text

namespace Records

variable {M : Level → Level → Prop} {j k : Tally} {psg psg' : Passage} {own : Bool}
variable {c c₁ c₂ c' : Cursor} {ns ms : List Node} {n : Node} {t : Token} {rest : List Token}

/-- Nothing is recorded as long as the same statements wait. -/
theorem nil (hp : c'.pending = c.pending) : Records L strict v whole c [] c' :=
  ⟨hp ▸ .refl, by simp, by simp⟩

/-- Nodes one after the other record what they record together. Where everything has to be in order,
the first ones leave the waiting statements as they are. -/
theorem append (hder : Derives M j psg c ns c₁) (hder' : Derives M k psg' c₁ ms c')
    (h : Records L strict v whole c ns c₁) (h' : Records L strict v whole c₁ ms c')
    (hstrict : strict → c₁.pending = c.pending) : Records L strict v whole c (ns ++ ms) c' := by
  refine ⟨h.evolves.trans h'.evolves hder.suffix hder'.suffix hder'.waits hstrict, ?_, ?_⟩
  · exact List.forall_mem_append.2 ⟨h.nodes, h'.nodes⟩
  · intro text ht
    rcases List.mem_append.1 ht with ht | ht
    · exact h.strings text ht
    · exact h'.strings text ht

/-- A leaf is one token of the source. If it is a string, it may become the value of an attribute
later. -/
theorem leaf {lf : Leaf} (hc : c.tokens = t :: rest) (hlf : t.leaf? = some lf)
    (hsrc : c.tokens <:+ whole) : Records L strict v whole c [.leaf lf] (c.moveTo rest) := by
  have hword : Records L strict v whole c [] (c.moveTo rest) := .nil rfl
  refine ⟨hword.evolves, ?_, fun text ht => ?_⟩
  · refine List.forall_mem_singleton.2 (chained_of_ne (fun _ => Node.noConfusion) ?_)
    simp [Node.children]
  · have hstring : lf = .string text := by simpa [eq_comm] using ht
    rw [hstring] at hlf
    exact ⟨t, hsrc.subset (by rw [hc]; exact List.mem_cons_self), Token.string_of_leaf? hlf⟩

/-- Another node, which is no string, made of the same derivation. -/
theorem replace (h : Records L strict v whole c ns c') (hn : Chained L strict v whole n)
    (hs : ∀ text, n ≠ .leaf (.string text)) : Records L strict v whole c [n] c' := by
  refine ⟨h.evolves, List.forall_mem_singleton.2 hn, fun text ht => ?_⟩
  exact absurd (List.mem_singleton.1 ht).symm (hs text)

/-- A plain node records what its children do. -/
theorem node (h : Records L strict v whole c n.children c') (hn : n.IsPlain) :
    Records L strict v whole c [n] c' := by
  refine h.replace (chained_of_ne ?_ h.nodes) ?_
  · rintro bs rfl
    exact hn
  · rintro text rfl
    exact hn

/-- A block records what its children do, since it is no choice. -/
theorem block (h : Records L strict v whole c ns c') :
    Records L strict v whole c [.block ns] c' :=
  h.replace (chained_of_ne (fun _ => Node.noConfusion) h.nodes) fun _ => Node.noConfusion

/-- Tokens in front of and behind a derivation. -/
theorem widen {d d' : Cursor} (h : Records L strict v whole d ns d')
    (htop : d.tokens <:+ c.tokens) (hbottom : c'.tokens <:+ d'.tokens)
    (hp : d.pending = c.pending) (hp' : d'.pending = c'.pending) :
    Records L strict v whole c ns c' := by
  have hev := h.evolves.mono htop hbottom
  rw [hp, hp'] at hev
  exact ⟨hev, h.nodes, h.strings⟩

/-- The block of a statement that waits for branches leaves the statements around it alone. -/
theorem opened {kind : Compound} {body : Node} {p : Pending} {ps : List Pending}
    (h : Records L strict v whole (c₁.withPending (.new kind :: c₁.pending)) [body] c₂)
    (hp : c₂.pending = p :: ps) :
    ∃ es, Recorded L strict (Chained L strict v whole) c₁.tokens c₂.tokens es ∧
      p.branches = es.map Entry.branch ∧ ps = c₁.pending := by
  have hev := h.evolves
  rw [hp, Cursor.withPending_pending, Cursor.withPending_tokens] at hev
  cases hev with
  | @owner es _ _ _ hes hbranches _ =>
    exact ⟨es, hes, by rw [hbranches]; exact List.append_nil _, rfl⟩

/-- The nodes of branches that were recorded are chained, as each was recorded with its trees. -/
theorem branch_nodes {top bottom : List Token} {es : List Entry} {bs : List Branch}
    (hes : Recorded L strict (Chained L strict v whole) top bottom es)
    (hbs : bs = es.map Entry.branch) :
    ∀ b ∈ bs, ∀ n ∈ b.test.toList ++ [b.body], Chained L strict v whole n := by
  intro b hb n hn
  rw [hbs] at hb
  obtain ⟨e, he, rfl⟩ := List.mem_map.1 hb
  exact hes.nodes e he n hn

/-- An `if` ends with the branches that its waiting statement has: its own branch comes first, and
what was recorded lies behind it. -/
theorem choice {test body : Node} {p : Pending} {ps : List Pending}
    (hc : c.tokens = t :: rest) (hsrc : c.tokens <:+ whole)
    (hif : Entry.OfIf L ⟨.mk (some test) body, c.tokens, c₂.tokens⟩)
    (hmid : c₁.tokens <:+ rest) (hend : c₂.tokens <:+ c₁.tokens)
    (htest : Records L strict v whole (c.moveTo rest) [test] c₁)
    (hbody : Records L strict v whole (c₁.withPending (.new .choice :: c₁.pending)) [body] c₂)
    (hp : c₂.pending = p :: ps) :
    Records L strict v whole c [.choice (.mk (some test) body :: p.branches)]
      (c₂.withPending ps) := by
  obtain ⟨es, hes, hbranches, rfl⟩ := hbody.opened hp
  have hword : rest <:+ c.tokens := Derives.suffix_of_cons hc
  have hlen : c₁.tokens.length < c.tokens.length := by
    have hmidLen := hmid.length_le
    rw [hc, List.length_cons]
    omega
  have hchain := hes.chain hif hbranches hsrc ⟨hmid.trans hword, hlen⟩ rfl hend
  have htaken : Records L strict v whole c [test] (c₂.withPending c₁.pending) :=
    htest.widen hword hend rfl rfl
  refine htaken.replace (chained_of_children ?_ fun bs hbs => ?_) (fun _ => Node.noConfusion)
  · refine fun m hm => ?_
    obtain ⟨b, hb, hm⟩ := List.mem_flatMap.1 hm
    rcases List.mem_cons.1 hb with rfl | hb
    · rcases List.mem_cons.1 hm with rfl | hm
      · exact htest.nodes m List.mem_cons_self
      · exact hbody.nodes m hm
    · exact branch_nodes hes hbranches b hb m hm
  · cases hbs
    exact ⟨whole, _, es, .here, hchain, hes.ordered⟩

/-- A loop has at most one branch waiting for it, the block behind its `else`. -/
theorem loop {names : List String} {source body : Node} {p : Pending} {ps : List Pending}
    (hsource : Records L strict v whole c [source] c₁)
    (hbody : Records L strict v whole (c₁.withPending (.new .loop :: c₁.pending)) [body] c₂)
    (hend : c₂.tokens <:+ c₁.tokens) (hp : c₂.pending = p :: ps) :
    Records L strict v whole c [.loop names source body (Statement.otherwise? p.branches)]
      (c₂.withPending ps) := by
  obtain ⟨es, hes, hbranches, rfl⟩ := hbody.opened hp
  have htaken : Records L strict v whole c [source] (c₂.withPending c₁.pending) :=
    hsource.widen (List.suffix_refl _) hend rfl rfl
  refine htaken.replace (chained_of_ne (fun _ => Node.noConfusion) ?_) fun _ => Node.noConfusion
  refine List.forall_mem_cons.2 ⟨hsource.nodes source (by simp), ?_⟩
  refine List.forall_mem_cons.2 ⟨hbody.nodes body (by simp), fun m hm => ?_⟩
  -- of the branches of a loop only the block of the untested one stays in the tree
  have hfound : m ∈ (p.branches.find? fun b => b.test.isNone).map Branch.body := by
    simpa [Statement.otherwise?] using hm
  obtain ⟨b, hb, rfl⟩ := Option.map_eq_some_iff.1 hfound
  exact branch_nodes hes hbranches b (List.mem_of_find?_eq_some hb) _ (by simp)

/-- A branch is recorded in front of what was recorded in its test and its block. -/
theorem branch {test : Option Node} {body : Node} {p q : Pending} {ps qs : List Pending}
    (hc : c.tokens = t :: rest) (hp : c.pending = p :: ps)
    (helse : Entry.OfElse L ⟨.mk test body, c.tokens, c₂.tokens⟩) (hend : c₂.tokens <:+ rest)
    (hev : Evolves L strict (Chained L strict v whole) rest c₂.tokens (p :: ps) (q :: qs))
    (hnodes : ∀ n ∈ test.toList ++ [body], Chained L strict v whole n)
    (hlast : test = none → q.otherwise = true ∧ q.branches = p.branches) :
    Records L strict v whole c [] (c₂.withPending
      ({ q with branches := .mk test body :: q.branches, closed := true } :: qs)) := by
  have hword : rest <:+ c.tokens ∧ rest.length < c.tokens.length :=
    ⟨Derives.suffix_of_cons hc, by rw [hc, List.length_cons]; omega⟩
  refine ⟨?_, by simp, by simp⟩
  rw [hp, Cursor.withPending_pending, Cursor.withPending_tokens]
  cases hev with
  | @owner es _ _ _ hes hbranches hlasts =>
    have hne : es ≠ [] → ¬Entry.Untested ⟨.mk test body, c.tokens, c₂.tokens⟩ := fun hne hu =>
      hne (Entry.eq_nil_of_append (hbranches.symm.trans (hlast hu).2))
    refine .owner (hes.cons helse rfl rfl hword hend hnodes hne) ?_ ?_
    · rw [hbranches]
      rfl
    · exact List.forall_mem_cons.2 ⟨fun hu => (hlast hu).1, hlasts⟩

/-- A branch with a test is recorded with the statement that waits, in front of those recorded
before. -/
theorem tested {test body : Node} {p q : Pending} {ps qs : List Pending}
    (hc : c.tokens = t :: rest) (hp : c.pending = p :: ps)
    (helse : Entry.OfElse L ⟨.mk (some test) body, c.tokens, c₂.tokens⟩)
    (hboth : Records L strict v whole (c.moveTo rest) [test, body] c₂)
    (hend : c₂.tokens <:+ rest) (hq : c₂.pending = q :: qs) :
    Records L strict v whole c [] (c₂.withPending
      ({ q with branches := .mk (some test) body :: q.branches, closed := true } :: qs)) := by
  have hev := hboth.evolves
  rw [Cursor.moveTo_tokens, Cursor.moveTo_pending, hp, hq] at hev
  exact branch hc hp helse hend hev hboth.nodes nofun

/-- Nothing is recorded in a branch without a test. -/
theorem untested {body : Node} {p q : Pending} {ps qs : List Pending}
    (hc : c.tokens = t :: rest) (hp : c.pending = p :: ps)
    (helse : Entry.OfElse L ⟨.mk none body, c.tokens, c₂.tokens⟩)
    (hp₁ : c₁.pending = { p with otherwise := true } :: ps) (hmid : c₁.tokens <:+ rest)
    (hder : Derives M k (.block own) c₁ [body] c₂) (hbody : Records L strict v whole c₁ [body] c₂)
    (hq : c₂.pending = q :: qs) :
    Records L strict v whole c [] (c₂.withPending
      ({ q with branches := .mk none body :: q.branches, closed := true } :: qs)) := by
  have hwaits := hder.waits
  rw [hp₁, hq] at hwaits
  obtain ⟨hgrows, rfl⟩ := hwaits.tail
  have hlast := hgrows.otherwise rfl
  have hev : Evolves L strict (Chained L strict v whole) rest c₂.tokens (p :: qs) (q :: qs) :=
    .owner .nil hlast.2 (by simp)
  exact branch hc hp helse (hder.suffix.trans hmid) hev hbody.nodes fun _ => hlast

end Records

/-- **What every derivation records**, if the values of attributes in the source are chained. -/
theorem Derives.records {M : Level → Level → Prop} {k : Tally} {psg : Passage} {c c' : Cursor}
    {ns : List Node} (hM : ∀ l m, M l m → L l)
    (hA : ∀ l m, M l m → ∀ t ∈ whole, t.kind = .string → ∀ line n,
      l.attributeText t.text line = .ok n → (strict → m.attributeText t.text line = .ok n) →
        Chained L strict v whole n ∧ ∀ text, n ≠ .leaf (.string text))
    (h : Derives M k psg c ns c') (hsrc : c.tokens <:+ whole) (hclean : strict → Clean k c) :
    Records L strict v whole c ns c' := by
  induction h with
  | nothing | token | mark | comment => exact .nil rfl
  | append hder hder' ih ih' =>
    have h := ih hsrc fun hs => (hclean hs).left
    have huncut := fun hs => hder.uncut (hclean hs).left
    have h' := ih' (hder.suffix.trans hsrc) fun hs => (hclean hs).after (huncut hs) (Or.inl rfl)
    exact .append hder hder' h h' fun hs => (huncut hs).pending (Or.inl rfl)
  | leaf hc hlf => exact .leaf hc hlf hsrc
  | label _ ih => exact ⟨(ih hsrc hclean).evolves, by simp, by simp⟩
  | node _ hn ih => exact (ih hsrc hclean).node hn
  | attributeText _ hl htext hstrict ih =>
    -- the string is one of the source, and what is read in it is chained there
    have h := ih hsrc fun hs => (hclean hs).left
    obtain ⟨t, ht, hk, rfl⟩ := h.strings _ List.mem_cons_self
    obtain ⟨hn, hstring⟩ := hA _ _ hl t ht hk _ _ htext fun hs =>
      hstrict (Nat.add_eq_zero_iff.1 (hclean hs).cuts).2
    exact h.replace hn hstring
  | external _ ih =>
    have h := ih hsrc hclean
    exact h.replace (h.nodes _ List.mem_cons_self).external fun _ => Node.noConfusion
  | choice hc ht hl htest hbody hderTest hderBody hp ih ih' =>
    have hrest := (suffix_of_cons hc).trans hsrc
    have h := ih hrest fun hs => (hclean hs).left.moveTo _
    have h' := ih' (hderTest.suffix.trans hrest) fun hs => by
      have huncut := hderTest.uncut ((hclean hs).left.moveTo _)
      exact (((hclean hs).moveTo _).after huncut (Or.inl rfl)).opening _
    exact .choice hc hsrc (.read hc ht (hM _ _ hl) htest hbody) hderTest.suffix hderBody.suffix
      h h' hp
  | loop hderSource hderBody hp ih ih' =>
    have h := ih hsrc fun hs => (hclean hs).left
    have h' := ih' (hderSource.suffix.trans hsrc) fun hs =>
      ((hclean hs).after (hderSource.uncut (hclean hs).left) (Or.inl rfl)).opening _
    exact h.loop h' hderBody.suffix hp
  | element hder hderBody ih ih' =>
    have h := ih hsrc fun hs => (hclean hs).left.left
    have huncut := fun hs => hder.uncut (hclean hs).left.left
    have h' := ih' (hder.suffix.trans hsrc) fun hs =>
      (hclean hs).left.after (huncut hs) (Or.inl rfl)
    have hall := Records.append hder hderBody h h' fun hs => (huncut hs).pending (Or.inl rfl)
    exact hall.replace (chained_of_ne (fun _ => Node.noConfusion) hall.nodes)
      fun _ => Node.noConfusion
  | parts _ ih => exact ih hsrc hclean
  | line _ hn ih => exact (ih hsrc hclean).node hn
  | more hder hopen hder' ih ih' =>
    -- a block goes on only where the innermost statement has no end yet
    have h := ih hsrc fun hs => (hclean hs).left
    have huncut := fun hs => hder.uncut (hclean hs).left
    have hc₁ := fun hs => Cursor.open_of_or hopen (hclean hs).opened
    have h' := ih' (hder.suffix.trans hsrc) fun hs =>
      (hclean hs).after (huncut hs) (Or.inr (hc₁ hs))
    exact .append hder hder' h h' fun hs => (huncut hs).pending (Or.inr (hc₁ hs))
  | closing hc _ _ ih =>
    have hword := suffix_of_cons hc
    have h := ih (hword.trans hsrc) fun hs => (hclean hs).moveTo _
    exact h.widen hword (List.suffix_refl _) rfl rfl
  | tested hc ht hp _ _ hl hbranch hbody hderTest hderBody hq ih ih' =>
    have hrest := (suffix_of_cons hc).trans hsrc
    have h := ih hrest fun hs => (hclean hs).left.left.moveTo _
    have huncut := fun hs => hderTest.uncut ((hclean hs).left.left.moveTo _)
    have h' := ih' (hderTest.suffix.trans hrest) fun hs =>
      ((hclean hs).left.moveTo _).after (huncut hs) (Or.inl rfl)
    have hboth := Records.append hderTest hderBody h h' fun hs => (huncut hs).pending (Or.inl rfl)
    exact .tested hc hp (.read hc ht hp (hM _ _ hl) hbranch hbody) hboth
      (hderBody.suffix.trans hderTest.suffix) hq
  | untested hc ht hp _ hl hbranch hp₁ hbody hderTest hderBody hq _ ih' =>
    have hrest := (suffix_of_cons hc).trans hsrc
    have h' := ih' (hderTest.suffix.trans hrest) fun hs => by
      have huncut := hderTest.uncut ((hclean hs).left.left.moveTo _)
      exact (((hclean hs).left.moveTo _).after huncut (Or.inl rfl)).otherwise hp hp₁
    exact .untested hc hp (.read hc ht hp (hM _ _ hl) hbranch hbody) hp₁ hderTest.suffix hderBody
      h' hq
  | @ownEnd _ c c₁ ns t u rest _ _ hc _ _ ih =>
    have hend : (c₁.moveTo rest).tokens <:+ c₁.tokens := by
      rw [hc]
      exact (List.suffix_cons u rest).trans (List.suffix_cons t _)
    have h : Records L strict v whole c ns (c₁.moveTo rest) :=
      (ih hsrc hclean).widen (List.suffix_refl _) hend rfl rfl
    exact h.block
  | closed _ _ ih => exact (ih hsrc hclean).block

/-! ## Sources of a template -/

/-- A choice in a string that is the value of an attribute has its places there. -/
theorem Chained.lift {tokens : List Token} {t : Token} {line : Nat} {n : Node} (ht : t ∈ whole)
    (hk : t.kind = .string) (hl : Lexer.tokenizeFrom v t.text line = .ok tokens)
    (h : Chained L strict v (Cursor.ofTokens tokens).tokens n) : Chained L strict v whole n := by
  intro bs hbs
  obtain ⟨src, first, others, hsrc, hchain⟩ := h bs hbs
  exact ⟨src, first, others, .string ht hk hl hsrc, hchain⟩

namespace Dialect

variable {d : Dialect} {ts : List Token} {n : Node}

/-- Whether a level is one of those that a dialect reads with. -/
def HasLevel (d : Dialect) (l : Level) : Prop :=
  ∃ budget k, l = d.levels (d.attributeText budget) k

/-- What has a derivation is recorded: the induction over derivations, with what is known of
attributes put in. -/
theorem records_of_derives {budget : Nat} {k : Tally} {psg : Passage} {c c' : Cursor}
    {ns : List Node}
    (hA : ∀ t ∈ whole, t.kind = .string → ∀ line n, d.attributeText budget t.text line = .ok n →
      (strict → d.strict.attributeText budget t.text line = .ok n) →
        Chained d.HasLevel strict v whole n)
    (h : Derives (d.HasBudget budget) k psg c ns c') (hsrc : c.tokens <:+ whole)
    (hclean : strict → Clean k c) : Records d.HasLevel strict v whole c ns c' := by
  refine h.records (fun l m ⟨k, hl, _⟩ => ⟨budget, k, hl⟩) ?_ hsrc hclean
  intro l m hlm t ht hk line n hn hs
  rw [(attributeText_of_hasBudget hlm).1] at hn
  rw [(attributeText_of_hasBudget hlm).2] at hs
  obtain ⟨parts, rfl⟩ := attributeText_output hn
  exact ⟨hA t ht hk line _ hn hs, fun _ => Node.noConfusion⟩

/-- The strict dialect knows the same words. -/
theorem strict_vocabulary (hd : d.grammar = .standard) :
    d.strict.grammar.vocabulary = d.grammar.vocabulary := by
  rw [hd, Grammar.vocabulary_standard]
  exact Grammar.vocabulary_standardWith

/-- The choices in the value of an attribute are chains in the string that it was read from. The
induction is on the strings that may still be read in strings. -/
theorem attributeText_chained (hd : d.grammar = .standard) (budget : Nat) {whole : List Token}
    {t : Token} {line : Nat} {n : Node} (ht : t ∈ whole) (hk : t.kind = .string)
    (h : d.attributeText budget t.text line = .ok n)
    (hstrict : strict → d.strict.attributeText budget t.text line = .ok n) :
    Chained d.HasLevel strict d.grammar.vocabulary whole n := by
  induction budget generalizing whole t line n with
  | zero =>
    cases h
    exact chained_of_ne (fun _ => Node.noConfusion) (by simp [Node.children])
  | succ budget ih =>
    obtain ⟨tokens, o, c', htok, hcontent, rfl⟩ := attributeText_eq_ok.1 h
    refine .lift ht hk htok ?_
    obtain ⟨k, hder, hcuts⟩ :=
      (levels_sound hd budget d.maxDepth).content_follows .attribute o c' hcontent
    -- where the strict dialect reads the string too, nothing in it is cut off
    have hclean : strict → Clean k (Cursor.ofTokens tokens) := by
      intro hs
      obtain ⟨tokens', o', c'', htok', hcontent', -⟩ := attributeText_eq_ok.1 (hstrict hs)
      rw [strict_vocabulary hd, htok] at htok'
      cases htok'
      refine ⟨(hcuts.resolve_right ?_).1, rfl⟩
      rintro ⟨-, e, -, herror⟩
      cases hcontent'.symm.trans herror
    have hrecords := records_of_derives (fun _ ht hk _ _ h hs => ih ht hk h hs) hder
      (List.suffix_refl _) hclean
    cases o with
    | none => exact chained_of_ne (fun _ => Node.noConfusion) (by simp [Node.children])
    | some n => exact hrecords.nodes n (by simp)

/-- The choices of a template are chains in its tokens or in its strings. -/
theorem parse_chained (hd : d.grammar = .standard) (h : d.parse ts = .ok n) :
    Chained d.HasLevel (d.strict.parse ts = .ok n) d.grammar.vocabulary (Cursor.ofTokens ts).tokens
      n := by
  obtain ⟨budget, k, ns, c', rfl, hder, -, hcuts⟩ := derives_of_parse hd h
  have hclean : d.strict.parse ts = .ok (.block ns) → Clean k (Cursor.ofTokens ts) := by
    intro hs
    refine ⟨(hcuts.resolve_right ?_).1, rfl⟩
    rintro ⟨-, e, -, herror⟩
    cases hs.symm.trans herror
  have hrecords := records_of_derives
    (fun _ ht hk _ _ h hs => attributeText_chained hd _ ht hk h hs) hder (List.suffix_refl _) hclean
  exact chained_of_ne (fun _ => Node.noConfusion) hrecords.nodes

/-- **What becomes of the branches of a choice.** Every choice of a template has its branches in
places of one source, the first one that of an `if` and the others those of `else`. Only one of
them can be without a test. They stand in the order of the source, the one without a test last,
exactly if none of them begins behind the end of another one; and so they stand in every template
that the strict dialect reads too. -/
theorem parse_choice (hd : d.grammar = .standard) (h : d.parse ts = .ok n) {bs : List Branch}
    (hbs : .choice bs ∈ n.walk) :
    ∃ src first others, Source d.grammar.vocabulary (Cursor.ofTokens ts).tokens src ∧
      Chain d.HasLevel src bs first others ∧ first.branch.test.isSome ∧
      (bs.Pairwise fun a b => a.test.isSome ∨ b.test.isSome) ∧
      (Entry.InOrder (first :: others) ↔
        ∀ a ∈ first :: others, ∀ b ∈ first :: others, ¬a.Behind b) ∧
      (d.strict.parse ts = .ok n → Entry.InOrder (first :: others)) := by
  obtain ⟨src, first, others, hsrc, hchain, hbefore⟩ := parse_chained hd h bs hbs
  exact ⟨src, first, others, hsrc, hchain, hchain.tested, hchain.one_untested, hchain.inOrder_iff,
    fun hs => hchain.inOrder (hchain.not_behind (hbefore hs))⟩

/-- An `if` with a tested and an untested `else`. -/
theorem parse_choice_chain :
    let d : Dialect := ⟨.standard, fun _ => none, 64⟩
    let ts : List Token := [⟨.mark, "@", 1⟩, ⟨.keyword, "if", 1⟩, ⟨.literal, "a", 1⟩,
      ⟨.delimiter, ":", 1⟩, ⟨.literal, "x", 1⟩, ⟨.mark, "@", 1⟩, ⟨.keyword, "else", 1⟩,
      ⟨.keyword, "if", 1⟩, ⟨.literal, "b", 1⟩, ⟨.delimiter, ":", 1⟩, ⟨.literal, "y", 1⟩,
      ⟨.mark, "@", 1⟩, ⟨.keyword, "else", 1⟩, ⟨.delimiter, ":", 1⟩, ⟨.literal, "z", 1⟩,
      ⟨.mark, "@", 1⟩, ⟨.keyword, "end", 1⟩]
    let bs : List Branch :=
      [.mk (some (.leaf (.name "a"))) (.block [.output .content [.text "x"]]),
        .mk (some (.leaf (.name "b"))) (.block [.output .content [.text "y"]]),
        .mk none (.block [.output .content [.text "z"]])]
    let n : Node := .block [.choice bs]
    d.grammar = .standard ∧ d.parse ts = .ok n ∧ .choice bs ∈ n.walk ∧
      ∃ src first others, Source d.grammar.vocabulary (Cursor.ofTokens ts).tokens src ∧
        Chain d.HasLevel src bs first others ∧ first.branch.test.isSome ∧
        (bs.Pairwise fun a b => a.test.isSome ∨ b.test.isSome) ∧
        (Entry.InOrder (first :: others) ↔
          ∀ a ∈ first :: others, ∀ b ∈ first :: others, ¬a.Behind b) ∧
        (d.strict.parse ts = .ok n → Entry.InOrder (first :: others)) := by
  intro d ts bs n
  have hparse : d.parse ts = .ok n := by cbv
  have hmem : .choice bs ∈ n.walk := List.mem_cons_of_mem _ List.mem_cons_self
  exact ⟨rfl, hparse, hmem, parse_choice rfl hparse hmem⟩

/-- An `else` behind the end that a tested `else` has taken: the branches of this template are
those of `a`, of the `else` and of `b`, which comes before the `else` in the source. -/
theorem parseSource_choice_swapped :
    let d : Dialect := ⟨.standard, fun _ => none, 64⟩
    let source := "@if a: @[elem p: @else if b: y @end, elem q: @else: @end]"
    ∃ n bs, d.parseSource source = .ok n ∧ .choice bs ∈ n.walk ∧
      ¬∀ b ∈ bs.dropLast, b.test.isSome := by
  intro d source
  obtain ⟨bs, hbs⟩ : ∃ bs : List Branch, bs =
    [.mk (some (.leaf (.name "a"))) (.block [.output .content [.expr (.array
        [.element "p" [] (.block (.block [])), .element "q" [] (.block (.block []))])]]),
      .mk none (.block []),
      .mk (some (.leaf (.name "b"))) (.block [.output .content [.text "y"]])] := ⟨_, rfl⟩
  have htokens : Lexer.tokenize d.grammar.vocabulary source = .ok
      [⟨.mark, "@", 1⟩, ⟨.keyword, "if", 1⟩, ⟨.literal, "a", 1⟩, ⟨.delimiter, ":", 1⟩,
        ⟨.mark, "@", 1⟩, ⟨.delimiter, "[", 1⟩, ⟨.keyword, "elem", 1⟩, ⟨.literal, "p", 1⟩,
        ⟨.delimiter, ":", 1⟩, ⟨.mark, "@", 1⟩, ⟨.keyword, "else", 1⟩, ⟨.keyword, "if", 1⟩,
        ⟨.literal, "b", 1⟩, ⟨.delimiter, ":", 1⟩, ⟨.literal, "y", 1⟩, ⟨.mark, "@", 1⟩,
        ⟨.keyword, "end", 1⟩, ⟨.delimiter, ",", 1⟩, ⟨.keyword, "elem", 1⟩, ⟨.literal, "q", 1⟩,
        ⟨.delimiter, ":", 1⟩, ⟨.mark, "@", 1⟩, ⟨.keyword, "else", 1⟩, ⟨.delimiter, ":", 1⟩,
        ⟨.mark, "@", 1⟩, ⟨.keyword, "end", 1⟩, ⟨.delimiter, "]", 1⟩, ⟨.newline, "\n", 1⟩,
        ⟨.stop, "(end)", 1⟩] := by
    decide +kernel
  refine ⟨.block [.choice bs], bs, ?_, List.mem_cons_of_mem _ List.mem_cons_self, ?_⟩
  · rw [parseSource_of_tokenize htokens, hbs]
    cbv
  · intro htested
    have := htested (.mk none (.block [])) (by rw [hbs]; simp)
    cases this

end Dialect

end Stencil
