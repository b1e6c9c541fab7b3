import Stencil.Proofs.Derivation
/-!
# The rules of the grammar as derivations

One lemma for each rule: behind a derivation, what the rule reads makes a longer derivation, and the
same rule of a stricter level follows it. The rule for elements is left open; whatever it does with
its blocks, all other rules do the same. This is no comparison: what a result stands for depends on
the cursors before and behind it, and each node is derived once.
-/

namespace Stencil

open Reading

variable {L : Level → Level → Prop} {l m : Level} {k : Tally} {c c₁ : Cursor} {ns : List Node}
variable {t : Token}

/-! ## Operations -/

namespace Operation

/-- A separator behind a derivation, if a turn goes on behind it. -/
theorem separated_follows {α β : Type} {text : String} {a : α} {b : β}
    {A : Tally → α → Cursor → Prop} {B : Tally → β → Cursor → Prop}
    (hder : Derives L k .parts c ns c₁) (hnext : ∀ c', Derives L k .parts c ns c' → A k a c')
    (hend : B k b c₁) :
    Follows k (fun k x c' => Sum.elim (A k · c') (B k · c') x)
      (do
        if (← get).at? .delimiter text then
          let _ ← advance
          return .inl a
        else return .inr b : Reading (α ⊕ β))
      (do
        if (← get).at? .delimiter text then
          let _ ← advance
          return .inl a
        else return .inr b : Reading (α ⊕ β)) c₁ := by
  refine .same fun x c' h => ?_
  rcases separated_eq_ok.1 h with ⟨t, rest, htok, ht, rfl, rfl⟩ | ⟨-, rfl, rfl⟩
  · exact hnext _ (hder.before_is htok ht TokenKind.noConfusion)
  · exact hend

/-- A word of a given kind and text behind a derivation. -/
theorem expect_follows {β : Type} {Q : Tally → β → Cursor → Prop} {kind : TokenKind}
    {text what : String} {f g : Unit → Reading β} (hder : Derives L k .parts c ns c₁)
    (hk : kind ≠ .mark) (h : ∀ c', Derives L k .parts c ns c' → Follows k Q (f ()) (g ()) c') :
    Follows k Q (expect kind text what >>= f) (expect kind text what >>= g) c₁ := by
  refine .step fun _ c' he => ?_
  obtain ⟨t, rest, htok, ht, rfl⟩ := expect_eq_ok.1 he
  exact h _ (hder.before_is htok ht hk)

/-- The same for a word that is known to come next. -/
theorem advance_follows {β : Type} {Q : Tally → β → Cursor → Prop} {kind : TokenKind}
    {text : String} {f g : Token → Reading β} (hder : Derives L k .parts c ns c₁)
    (hat : c₁.at? kind text = true) (hk : kind ≠ .mark)
    (h : ∀ t c', Derives L k .parts c ns c' → Follows k Q (f t) (g t) c') :
    Follows k Q (advance >>= f) (advance >>= g) c₁ := by
  obtain ⟨t, rest, htok, ht⟩ := Cursor.at?_eq_true.1 hat
  exact .after (advance_of_cons htok) (h t _ (hder.before_is htok ht hk))

/-- A name is a token and leaves no node. -/
theorem literal_follows {β : Type} {Q : Tally → β → Cursor → Prop} {what : String}
    {f g : String → Reading β} (hder : Derives L k .parts c ns c₁)
    (h : ∀ s c', Derives L k .parts c ns c' → Follows k Q (f s) (g s) c') :
    Follows k Q (literal what >>= f) (literal what >>= g) c₁ := by
  refine .step fun s c' hl => ?_
  obtain ⟨t, rest, htok, ht, -, rfl⟩ := literal_eq_ok.1 hl
  exact h s _ (hder.before htok fun hm => by simp [ht] at hm)

/-- The items of a sequence are collected in front, and so stand behind the nodes before them in
the reverse of their order. -/
theorem itemTurn_follows (h : l.Sound L m) (close what : String) {items : List Node}
    (hder : Derives L k .parts c (ns ++ items.reverse) c₁) :
    Follows k (fun k x c' => Sum.elim
        (fun items => Derives L k .parts c (ns ++ items.reverse) c')
        (fun items => Derives L k .parts c (ns ++ items.reverse) c') x)
      (itemTurn l close what items) (itemTurn m close what items) c₁ := by
  refine .get (.ite (fun _ => .pure hder) fun _ => ?_)
  refine .bind (h.require_after 0 what hder) fun k item c₂ _ hitem => ?_
  have hitems : Derives L k .parts c (ns ++ (item :: items).reverse) c₂ := by
    rw [List.reverse_cons, ← List.append_assoc]
    exact hitem
  exact separated_follows hitems (fun _ h => h) hitems

/-- The items of a sequence are derived one after the other. -/
theorem sequence_follows (h : l.Sound L m) (close what : String)
    (hder : Derives L k .parts c ns c₁) :
    Follows k (fun k items c' => Derives L k .parts c (ns ++ items) c') (sequence l close what)
      (sequence m close what) c₁ := by
  refine .bind (P := fun k items c' => Derives L k .parts c (ns ++ items.reverse) c') ?_
    fun k items c₂ _ hitems => ?_
  · exact .loop (I := fun k items c' => Derives L k .parts c (ns ++ items.reverse) c')
      (fun _ _ _ hitems => itemTurn_follows h close what hitems) (by simpa using hder)
  · exact expect_follows hitems TokenKind.noConfusion fun _ hclose => .pure hclose

/-- The keys and values of members, in the order of the source. -/
def memberNodes (members : List Member) : List Node :=
  members.flatMap fun m => [m.key, m.value]

/-- A member derives its key and then its value. -/
theorem memberTurn_follows (h : l.Sound L m) {members : List Member}
    (hder : Derives L k .parts c (memberNodes members.reverse) c₁) :
    Follows k (fun k x c' => Sum.elim
        (fun members => Derives L k .parts c (memberNodes members.reverse) c')
        (fun members => Derives L k .parts c (memberNodes members.reverse) c') x)
      (memberTurn l members) (memberTurn m members) c₁ := by
  refine .get (.ite (fun _ => .pure hder) fun _ => ?_)
  refine .bind (h.require_after 0 _ hder) fun k key c₂ _ hkey => ?_
  refine expect_follows hkey TokenKind.noConfusion fun c₃ hcolon => ?_
  refine .bind (h.require_after 0 _ hcolon) fun k value c₄ _ hvalue => ?_
  have hmembers : memberNodes members.reverse ++ [key] ++ [value] =
      memberNodes (Member.mk key value :: members).reverse := by
    simp [memberNodes, Member.key, Member.value]
  rw [hmembers] at hvalue
  exact separated_follows hvalue (fun _ h => h) hvalue

/-- The segments of a path leave nothing but the tokens that they take. -/
theorem segmentTurn_follows {segments : List String} (hder : Derives L k .parts c ns c₁) :
    Follows k (fun k x c' => Sum.elim (fun _ : List String => Derives L k .parts c ns c')
        (fun _ : List String => Derives L k .parts c ns c') x)
      (segmentTurn segments) (segmentTurn segments) c₁ := by
  refine .get ?_
  cases htok : c₁.tokens with
  | nil => exact .expected
  | cons t rest =>
    refine .ite (fun hseg => ?_) fun _ => .expected
    have hmark : ¬(t.kind = .mark ∧ t.text = "@") := by
      rintro ⟨hk, -⟩
      simp [isSegment, hk] at hseg
    have hword := hder.before htok hmark
    exact .after (advance_of_cons htok) (separated_follows hword (fun _ h => h) hword)

/-- Filters leave no nodes. -/
theorem filterTurn_follows {filters : List String} (hder : Derives L k .parts c ns c₁) :
    Follows k (fun k x c' => Sum.elim (fun _ : List String => Derives L k .parts c ns c')
        (fun _ : List String => Derives L k .parts c ns c') x)
      (filterTurn filters) (filterTurn filters) c₁ :=
  literal_follows hder fun _ _ hname => separated_follows hname (fun _ h => h) hname

/-- A condition is derived from its test, which has been derived before, and from its values. -/
theorem conditional_follows (h : l.Sound L m) {left : Node}
    (hder : Derives L k .parts c [left] c₁) :
    Follows k (fun k n c' => Derives L k .parts c [n] c') (conditional l t left)
      (conditional m t left) c₁ := by
  refine .bind (h.require_after 0 _ hder) fun k whenTrue c₂ _ hboth => ?_
  refine .get (.ite (fun hat => ?_) fun _ => .pure (.node hboth trivial))
  refine advance_follows hboth hat TokenKind.noConfusion fun _ c₃ hcolon => ?_
  refine .bind (h.require_after 0 _ hcolon) fun k whenFalse c₄ _ hall => ?_
  exact .pure (.node hall trivial)

/-- A name in front of a value is no node of its own, and its derivation can be taken back. -/
theorem derives_label {left : Node} (hlabel : left.label?.isSome)
    (hder : Derives L k .parts c [left] c₁) : Derives L k .parts c [] c₁ := by
  cases left with
  | leaf lf => exact .label hder
  | _ => simp [Node.label?] at hlabel

/-- A string that is the value of an attribute is read by the level itself. -/
theorem lift_follows (h : l.Sound L m) {text : String} {line : Nat}
    (hder : Derives L k .parts c [.leaf (.string text)] c₁) :
    Follows k (fun k n c' => Derives L k .parts c [n] c') (StateT.lift (l.attributeText text line))
      (StateT.lift (m.attributeText text line)) c₁ := by
  intro n c' hr
  cases ha : l.attributeText text line with
  | error e =>
    rw [ha] at hr
    cases hr
  | ok n' =>
    have hm := h.attributeText text line
    rw [ha] at hr hm
    cases hr
    rcases hm with hm | ⟨e, he, hm⟩
    · refine ⟨k + ⟨0, 0, 0⟩, .attributeText hder h.mem ha fun _ => hm, Or.inl ⟨rfl, ?_⟩⟩
      rw [hm]
      rfl
    · have hcut : Derives L (k + ⟨1, 1, 0⟩) .parts c [n] c₁ :=
        .attributeText hder h.mem ha fun h => absurd h Nat.one_ne_zero
      exact ⟨_, hcut, Or.inr ⟨Nat.lt_succ_self _, e, he, by rw [hm]; rfl⟩⟩

/-- The name of an attribute is taken back, and its value is derived. -/
theorem attributePair_follows (h : l.Sound L m) {left : Node}
    (hder : Derives L k .parts c [left] c₁) :
    Follows k (fun k n c' => Derives L k .parts c [n] c') (attributePair l t left)
      (attributePair m t left) c₁ := by
  unfold attributePair
  cases hlabel : left.label? with
  | none => exact .failAt
  | some name =>
    have hname : Derives L k .parts c [] c₁ := derives_label (by rw [hlabel]; rfl) hder
    refine .bind (h.require_after 0 _ hname) fun k value c₂ _ hvalue => ?_
    split
    · exact .bind (lift_follows h hvalue) fun k n c₃ _ hn => .pure (.node hn trivial)
    · exact .pure (.node hvalue trivial)

/-- The left operand has been derived before the operator. -/
theorem binary_follows (h : l.Sound L m) {left : Node} (power : Nat)
    (hder : Derives L k .parts c [left] c₁) :
    Follows k (fun k n c' => Derives L k .parts c [n] c') (l.binary t left power)
      (m.binary t left power) c₁ := by
  unfold Level.binary
  cases Level.operator? t with
  | none => exact .failAt
  | some op =>
    exact .bind (h.require_after _ _ hder) fun k right c₂ _ hboth => .pure (.node hboth trivial)

theorem logical_follows (h : l.Sound L m) {left : Node}
    (hder : Derives L k .parts c [left] c₁) :
    Follows k (fun k n c' => Derives L k .parts c [n] c') (logical l t left)
      (logical m t left) c₁ := by
  unfold logical
  rw [h.power]
  exact binary_follows h _ hder

/-- A word behind an operand, its rule behind a derivation that has taken both. -/
theorem joins_follows {word : String} {rule : InfixRule} (hj : Grammar.Joins word rule)
    (h : l.Sound L m) {left : Node} (hder : Derives L k .parts c [left] c₁) :
    Follows k (fun k n c' => Derives L k .parts c [n] c') (rule l t left) (rule m t left) c₁ := by
  cases hj with
  | conjunction => exact logical_follows h hder
  | disjunction => exact logical_follows h hder
  | membership =>
    exact .bind (h.require_after 0 _ hder) fun k _ c₂ _ hboth => .pure (.node hboth trivial)
  | conditional => exact conditional_follows h hder
  | attributePair => exact attributePair_follows h hder
  | call =>
    exact .bind (sequence_follows h _ _ hder) fun k args c₂ _ hall => .pure (.node hall trivial)
  | index =>
    refine .bind (h.require_after 0 _ hder) fun k key c₂ _ hboth => ?_
    exact expect_follows hboth TokenKind.noConfusion fun _ hclose => .pure (.node hclose trivial)
  | path =>
    refine .bind (P := fun k _ c' => Derives L k .parts c [left] c') ?_
      fun k _ c₂ _ hall => .pure (.node hall trivial)
    exact .loop (I := fun k _ c' => Derives L k .parts c [left] c')
      (fun _ _ _ hder => segmentTurn_follows hder) hder
  | filtered =>
    refine .bind (P := fun k _ c' => Derives L k .parts c [left] c') ?_
      fun k _ c₂ _ hall => .pure (.node hall trivial)
    exact .loop (I := fun k _ c' => Derives L k .parts c [left] c')
      (fun _ _ _ hder => filterTurn_follows hder) hder

end Operation

/-! ## Statements -/

namespace Statement

open Operation

/-- The test of a statement is derived up to the colon. -/
theorem header_follows (h : l.Sound L m) (what : String) (hder : Derives L k .parts c [] c₁) :
    Follows k (fun k n c' => Derives L k .parts c [n] c') (header l what) (header m what) c₁ := by
  refine .bind (h.require_after 0 what hder) fun k test c₂ _ htest => ?_
  exact expect_follows htest TokenKind.noConfusion fun _ hcolon => .pure hcolon

/-- A choice is derived from its test, its block, and the branches that have come in it. -/
theorem choice_follows (h : l.Sound L m) {rest : List Token} (hc : c.tokens = t :: rest)
    (ht : t.text = "if") :
    Follows 0 (fun k o c' => Leaves L k c o c') (choice l t) (choice m t) (c.moveTo rest) := by
  refine .bind (header_follows h "if 条件" .nothing) fun j test c₁ htest hderTest => ?_
  refine .after (await_apply _) ?_
  refine .bind h.block_after fun _ body c₂ hbody ⟨k, own, hk, hderBody⟩ => ?_
  subst hk
  cases hp : c₂.pending with
  | nil => exact .after (settle?_of_nil hp) .failAt
  | cons p ps =>
    refine .after (settle?_of_cons hp) (.pure ?_)
    exact .choice hc ht h.mem htest hbody hderTest hderBody hp

/-- A branch has a test, or it has none and takes a colon, behind which the statement that waits
for it waits for no more branches. -/
theorem branchTest_follows (h : l.Sound L m) {p : Pending} {ps : List Pending}
    (hp : c.pending = p :: ps) :
    Follows 0 (fun k test c' => match test with
        | some test => p.kind = .choice ∧ Derives L k .parts c [test] c'
        | none => k = 0 ∧ c'.pending = { p with otherwise := true } :: ps ∧
            Derives L 0 .parts c [] (c'.withPending c.pending))
      (branchTest l t p) (branchTest m t p) c := by
  refine .get (.ite (fun hat => ?_) fun _ => ?_)
  · refine .check fun hkind => ?_
    refine advance_follows (Derives.nothing (L := L)) hat TokenKind.noConfusion fun _ c₁ hword => ?_
    refine .bind (header_follows h _ hword) fun k test c₂ _ htest => .pure ⟨?_, htest⟩
    simpa using hkind
  · refine .step fun _ c₁ hcolon => ?_
    obtain ⟨u, rest, htok, hu, rfl⟩ := expect_eq_ok.1 hcolon
    refine .after (amend_of_cons (c := c.moveTo rest) hp) (.pure ⟨rfl, rfl, ?_⟩)
    exact .token htok (Derives.not_mark_of_is hu TokenKind.noConfusion)

theorem owner?_apply {c : Cursor} : owner? c = .ok (c.pending.head?, c) :=
  owner?_eq_ok.2 ⟨rfl, rfl⟩

/-- The block of a branch behind its test, and its place among the branches. -/
theorem branch_follows (h : l.Sound L m) {rest : List Token} (hc : c.tokens = t :: rest)
    (ht : t.text = "else") :
    Follows 0 (fun k o c' => Leaves L k c o c') (branch l t) (branch m t) (c.moveTo rest) := by
  refine .after owner?_apply ?_
  cases hp : c.pending with
  | nil =>
    rw [Cursor.moveTo_pending, hp]
    exact .failAt
  | cons p ps =>
    rw [Cursor.moveTo_pending, hp]
    refine .check fun hopen => ?_
    have hopen : p.otherwise = false := by simpa using hopen
    refine .bind (branchTest_follows h (c := c.moveTo rest) hp) fun j test c₁ htest hderTest => ?_
    refine .bind h.block_after fun _ body c₂ hbody ⟨k, own, hk, hderBody⟩ => ?_
    subst hk
    refine .after owner?_apply ?_
    cases hq : c₂.pending with
    | nil => exact .step fun _ _ hr => absurd hr failAt_ne_ok
    | cons q qs =>
      refine .check fun _ => .after (amend_of_cons hq) ?_
      -- an end of the block's own is one too many if the statement found its end in the block
      refine .of_cuts (j := j + k + ⟨0, 0, (own && q.closed).toNat⟩) rfl (.pure (Or.inr ?_))
      cases test with
      | some test =>
        exact .tested hc ht hp hopen hderTest.1 h.mem htest hbody hderTest.2 hderBody hq
      | none =>
        obtain ⟨rfl, hp₁, hcolon⟩ := hderTest
        exact .untested hc ht hp hopen h.mem htest hp₁ hbody hcolon hderBody hq

/-- The names of a loop leave nothing but the tokens that they take. -/
theorem nameTurn_follows {names : List String} (hder : Derives L k .parts c ns c₁) :
    Follows k (fun k x c' => Sum.elim (fun _ : List String => Derives L k .parts c ns c')
        (fun _ : List String => Derives L k .parts c ns c') x)
      (nameTurn names) (nameTurn names) c₁ := by
  refine .get (.ite (fun _ => .pure hder) fun _ => ?_)
  exact literal_follows hder fun _ _ hname => separated_follows hname (fun _ h => h) hname

/-- A loop is derived in one of its two forms. -/
theorem loop_follows (h : l.Sound L m) (hword : Derives L k .parts c [] c₁) :
    Follows k (fun k o c' => Leaves L k c o c') (loop l t) (loop m t) c₁ := by
  refine .bind (P := fun k _ c' => Derives L k .parts c [] c') ?_ fun k names c₂ _ hnames => ?_
  · exact .loop (I := fun k _ c' => Derives L k .parts c [] c')
      (fun _ _ _ hder => nameTurn_follows hder) hword
  refine .check fun _ => expect_follows hnames TokenKind.noConfusion fun c₃ hin => ?_
  refine .bind (h.require_after 0 _ hin) fun j source c₄ _ hsource => ?_
  refine .get (.ite (fun hat => ?_) fun _ => .ite (fun _ => .failAt) fun _ => ?_)
  · refine advance_follows hsource hat TokenKind.noConfusion fun _ c₅ hcolon => ?_
    refine .after (await_apply _) ?_
    refine .bind h.block_after fun _ body c₆ _ ⟨k, own, hk, hbody⟩ => ?_
    subst hk
    cases hp : c₆.pending with
    | nil => exact .after (settle?_of_nil hp) .failAt
    | cons p ps => exact .after (settle?_of_cons hp) (.pure (.loop hcolon hbody hp))
  · exact .bind (h.require_after 0 _ hsource) fun k body c₅ _ hboth => .pure (.node hboth rfl)

/-- A template that is named by a leaf leaves no node below. -/
theorem render_follows (h : l.Sound L m) (hword : Derives L k .parts c [] c₁) :
    Follows k (fun k o c' => Leaves L k c o c') (render l t) (render m t) c₁ := by
  refine .bind (h.require_after 0 _ hword) fun k target c₂ _ htarget => ?_
  cases hlabel : target.label? with
  | some name =>
    exact .pure (.node (derives_label (by rw [hlabel]; rfl) htarget) trivial)
  | none => exact .pure (.node htarget trivial)

/-- Only the value of an assignment is a node. -/
theorem assignment_follows (h : l.Sound L m) (hword : Derives L k .parts c [] c₁) :
    Follows k (fun k o c' => Leaves L k c o c') (assignment l t) (assignment m t) c₁ := by
  refine literal_follows hword fun _ c₂ hname => ?_
  refine expect_follows hname TokenKind.noConfusion fun c₃ hsign => ?_
  exact .bind (h.require_after 0 _ hsign) fun k value c₄ _ hvalue => .pure (.node hvalue trivial)

/-! ## Elements -/

/-- A function in the place of a name is derived where the name is. -/
theorem derives_resolve {n : Node} (hder : Derives L k .parts c [n] c₁) :
    Derives L k .parts c [resolve l n] c₁ := by
  unfold resolve
  split
  · split
    · exact .external hder
    · exact hder
  · exact hder

/-- Modifiers are derived one after the other. -/
theorem modifierTurn_follows (h : l.Sound L m) {modifiers : List Node}
    (hder : Derives L k .parts c modifiers.reverse c₁) :
    Follows k (fun k x c' => Sum.elim
        (fun modifiers => Derives L k .parts c modifiers.reverse c')
        (fun modifiers => Derives L k .parts c modifiers.reverse c') x)
      (modifierTurn l modifiers) (modifierTurn m modifiers) c₁ := by
  -- both levels know the same modifiers
  have hresolve : resolve m = resolve l := by
    funext node
    unfold resolve
    rw [h.modifier?]
  unfold modifierTurn
  rw [hresolve]
  refine .get (.ite (fun _ => .pure hder) fun _ => ?_)
  refine .bind ((h.require 0 _).from_zero fun i n c' hn => ?_) fun k n c₂ _ hn => .pure hn
  change Derives L (k + i) .parts c (resolve l n :: modifiers).reverse c'
  rw [List.reverse_cons]
  exact hder.append (derives_resolve hn)

/-- The tag is a label, and so the modifiers are all that an element's first line leaves. -/
theorem elementHeader_follows (h : l.Sound L m) (hword : Derives L k .parts c [] c₁) :
    Follows k (fun k r c' => Derives L k .parts c r.2.reverse c') (elementHeader l)
      (elementHeader m) c₁ := by
  refine .get (.bind (h.require_after 0 _ hword) fun k target c₂ _ htarget => ?_)
  cases hlabel : target.label? with
  | none => exact .failAt
  | some tag =>
    have htag : Derives L k .parts c [] c₂ := derives_label (by rw [hlabel]; rfl) htarget
    refine .bind (P := fun k modifiers c' => Derives L k .parts c modifiers.reverse c') ?_
      fun k modifiers c₃ _ hmodifiers => .pure hmodifiers
    exact .loop (I := fun k modifiers c' => Derives L k .parts c modifiers.reverse c')
      (fun _ _ _ hder => modifierTurn_follows h hder) htag

/-- The text of an element is the last of its modifiers. -/
theorem elementText_follows (h : l.Sound L m) (hword : Derives L k .parts c [] c₁) :
    Follows k (fun k o c' => Leaves L k c o c') (elementText l t) (elementText m t) c₁ := by
  refine .bind (elementHeader_follows h hword) fun k r c₂ _ hder => ?_
  obtain ⟨tag, modifiers⟩ := r
  dsimp only at hder ⊢
  split
  · exact .failAt
  · exact .failAt
  · rw [List.reverse_cons] at hder
    exact .pure (.node hder trivial)

/-- The word `elem` where a block must not be cut off. -/
def strictElement (l : Level) (_ : Token) : Reading (Option Node) := do
  let (tag, modifiers) ← elementHeader l
  if (← get).at? .delimiter ":" then
    let _ ← advance
    let c ← get
    let body ← l.block true
    if c.cuts (← get) then fail .unclosedBlock
    return some (.element tag modifiers.reverse (.block body))
  else return some (.element tag modifiers.reverse .empty)

/-- The element whose block is cut off is the one that the stricter rule refuses. -/
theorem element_follows (h : l.Sound L m) (hword : Derives L k .parts c [] c₁) :
    Follows k (fun k o c' => Leaves L k c o c') (element l t) (strictElement m t) c₁ := by
  refine .bind (elementHeader_follows h hword) fun j r c₂ _ hder => ?_
  obtain ⟨tag, modifiers⟩ := r
  refine .get (.ite (fun hat => ?_) fun _ => .pure (.node ?_ trivial))
  · refine advance_follows hder hat TokenKind.noConfusion fun _ c₃ hcolon => ?_
    intro o c' hr
    obtain ⟨body, c₄, hbody, hr⟩ := bind_eq_ok.1 hr
    obtain ⟨rfl, rfl⟩ := pure_eq_ok.1 hr
    -- the two rules differ behind the block, and so the steps cannot be taken in common
    obtain ⟨_, ⟨i, own, rfl, hderBody⟩, hs⟩ := h.block_after (k := j) body c' hbody
    refine ⟨_, .element hcolon hderBody, ?_⟩
    rw [get_bind_apply]
    rcases hs with ⟨hi, hs⟩ | ⟨hlt, e, he, hs⟩
    · rw [bind_of_ok hs, get_bind_apply]
      cases hcut : c₃.cuts c' with
      | false => exact Or.inl ⟨by simpa [hcut] using hi, rfl⟩
      | true =>
        refine Or.inr ⟨?_, ⟨c'.line, .unclosedBlock⟩, rfl, rfl⟩
        simp only [Tally.cuts_add, Bool.toNat_true] at hi ⊢
        omega
    · refine Or.inr ⟨?_, e, he, bind_of_error hs⟩
      simp only [Tally.cuts_add] at hlt ⊢
      omega
  · simpa [Node.children] using hder

end Statement

/-! ## Expressions -/

namespace Grammar

/-- The standard grammar where the block of an element must not be cut off. -/
def strict : Grammar :=
  standardWith Statement.strictElement

/-- A word at the start of an expression. -/
theorem opens_follows {rule : PrefixRule} {rest : List Token} (ho : Opens t.text rule)
    (hw : t.kind.isWord = true) (h : l.Sound L m) (hc : c.tokens = t :: rest) :
    Follows 0 (fun k o c' => Leaves L k c o c') (rule l t) (rule m t) (c.moveTo rest) := by
  -- words other than the mark are tokens of the derivation
  have hword : t.text ≠ "@" → Derives L 0 .parts c [] (c.moveTo rest) :=
    fun ht => .token hc fun hm => ht hm.2
  obtain ⟨text, htext⟩ : ∃ text, text = t.text := ⟨_, rfl⟩
  rw [← htext] at ho hword
  cases ho with
  | negation =>
    exact .bind (h.require_after 0 _ (hword (by decide))) fun k n c₂ _ hn =>
      .pure (.node hn trivial)
  | group =>
    refine .bind (h.require_after 0 _ (hword (by decide))) fun k n c₂ _ hn => ?_
    exact Operation.expect_follows hn TokenKind.noConfusion fun _ hclose => .pure hclose
  | array =>
    exact .bind (Operation.sequence_follows h _ _ (hword (by decide))) fun k items c₂ _ hitems =>
      .pure (.node hitems trivial)
  | object =>
    have hnil : Derives L 0 .parts c (Operation.memberNodes [].reverse) (c.moveTo rest) :=
      hword (by decide)
    refine .bind (P := fun k members c' =>
        Derives L k .parts c (Operation.memberNodes members.reverse) c')
      ?_ fun k members c₂ _ hall => ?_
    · exact .loop (I := fun k members c' =>
          Derives L k .parts c (Operation.memberNodes members.reverse) c')
        (fun _ _ _ hder => Operation.memberTurn_follows h hder) hnil
    · exact Operation.expect_follows hall TokenKind.noConfusion fun _ hclose =>
        .pure (.node hclose trivial)
  -- a comment leaves nothing, and this is said of the word itself
  | comment =>
    refine .same fun o c' hr => ?_
    cases hr
    exact Or.inl ⟨rfl, t, rest, hc, hw, htext.symm, rfl⟩
  | choice => exact Statement.choice_follows h hc htext.symm
  | branch => exact Statement.branch_follows h hc htext.symm
  | loop => exact Statement.loop_follows h (hword (by decide))
  | render => exact Statement.render_follows h (hword (by decide))
  | assignment => exact Statement.assignment_follows h (hword (by decide))
  | elementText => exact Statement.elementText_follows h (hword (by decide))

/-- How an expression starts depends on the rule for elements only where the word is `elem`. -/
theorem start_follows {rest : List Token} (h : l.Sound L m) (hc : c.tokens = t :: rest) :
    Follows 0 (fun k o c' => Leaves L k c o c') (standard.start l t) (strict.start m t)
      (c.moveTo rest) := by
  rw [← standardWith_element, strict]
  rcases opening?_cases t with ⟨ht, ho⟩ | ⟨rule, hrule, ho⟩ | ho
  · rw [start_of_opening? (ho _), start_of_opening? (ho _)]
    have ht : t.text ≠ "@" := by
      rw [ht]
      decide
    exact Statement.element_follows h (.token hc fun hm => ht hm.2)
  · rw [start_of_opening? (ho _), start_of_opening? (ho _)]
    exact opens_follows hrule (isWord_of_opening? (ho Statement.element)) h hc
  · rw [start_of_opening?_none (ho _), start_of_opening?_none (ho _)]
    refine .step fun lf c' hleaf => ?_
    obtain ⟨hlf, rfl⟩ := Level.leaf_eq_ok.1 hleaf
    exact .pure (.leaf hc hlf)

/-- A mark never binds, and so it is no word behind an operand. -/
theorem text_ne_of_power (h : standard.power t ≠ 0) : t.text ≠ "@" := by
  intro ht
  exact h (power_of_get?_none (by rw [ht]; rfl))

/-- A word behind an operand has the same rule in both grammars. -/
theorem extend_follows (h : l.Sound L m) {left : Node} (hder : Derives L k .parts c [left] c₁) :
    Follows k (fun k n c' => Derives L k .parts c [n] c') (standard.extend l t left)
      (strict.extend m t left) c₁ := by
  rw [← standardWith_element, strict]
  rcases joining?_cases t with ⟨rule, hrule, hj⟩ | hj
  · rw [extend_of_joining? (hj _), extend_of_joining? (hj _)]
    exact Operation.joins_follows hrule h hder
  · rw [extend_of_joining?_none (hj _), extend_of_joining?_none (hj _), power_standardWith,
      power_standardWith]
    exact Operation.binary_follows h _ hder

/-- Nothing is joined to an expression that leaves no node. -/
theorem extendTurn_follows (h : l.Sound L m) (power : Nat) {left : Option Node}
    (hder : Leaves L k c left c₁) :
    Follows k (fun k x c' => Sum.elim (Leaves L k c · c') (Leaves L k c · c') x)
      (standard.extendTurn l power left) (strict.extendTurn m power left) c₁ := by
  have hpower : strict.power = standard.power := funext fun _ => power_standardWith
  unfold extendTurn
  rw [hpower]
  refine .get ?_
  cases hc : c₁.tokens with
  | nil => exact .pure hder
  | cons t rest =>
    refine .ite (fun hbind => ?_) fun _ => .pure hder
    refine .after (advance_of_cons hc) ?_
    cases left with
    | none => exact .failAt
    | some left =>
      -- a word that binds is no mark, since the mark has no power
      have hne : standard.power t ≠ 0 := by
        simp only [Bool.and_eq_true, decide_eq_true_eq] at hbind
        omega
      have hword : Derives L k .parts c [left] (c₁.moveTo rest) :=
        Derives.before hder hc fun hm => text_ne_of_power hne hm.2
      exact .bind (extend_follows h hword) fun k n c₂ _ hn => .pure hn

/-- An expression is derived from its first token on. -/
theorem expressionOf_follows (h : l.Sound L m) (power : Nat) :
    Follows 0 (fun k o c' => Leaves L k c o c') (standard.expressionOf l power)
      (strict.expressionOf m power) c := by
  refine .step fun t c₁ hadv => ?_
  obtain ⟨rest, hc, rfl⟩ := advance_eq_ok.1 hadv
  refine .bind (start_follows h hc) fun k left c₂ _ hleft => ?_
  exact .loop (I := fun k left c₁ => Leaves L k c left c₁)
    (fun _ _ _ hder => extendTurn_follows h power hder) hleft

end Grammar

end Stencil
