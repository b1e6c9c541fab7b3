import Stencil.Proofs.Derivation
/-!
# What derivations leave alone

A derivation only takes tokens, and of the statements that wait it changes the innermost one. This
one can get branches; a loop gets one branch at most, and none with a test. As long as there are no
cuts, parts of expressions change no statement at all, and every block of an element and every
statement has one end.
-/

namespace Stencil

/-- What can become of a statement that waits for branches. -/
structure Pending.Grows (p q : Pending) : Prop where
  kind : q.kind = p.kind
  closed : p.closed = true → q.closed = true
  otherwise : p.otherwise = true → q.otherwise = true ∧ q.branches = p.branches
  loop : p.kind = .loop → p.otherwise = false →
    q.otherwise = false ∧ q.branches = p.branches ∨
    q.otherwise = true ∧ ∃ body, q.branches = .mk none body :: p.branches

namespace Pending.Grows

variable {p q r : Pending}

theorem refl : p.Grows p :=
  ⟨rfl, id, fun h => ⟨h, rfl⟩, fun _ h => Or.inl ⟨h, rfl⟩⟩

theorem trans (h : p.Grows q) (h' : q.Grows r) : p.Grows r := by
  refine ⟨h'.kind.trans h.kind, fun hp => h'.closed (h.closed hp), fun hp => ?_, fun hk hp => ?_⟩
  · obtain ⟨hq, hbranches⟩ := h.otherwise hp
    exact ⟨(h'.otherwise hq).1, (h'.otherwise hq).2.trans hbranches⟩
  · rcases h.loop hk hp with ⟨hq, hbranches⟩ | ⟨hq, body, hbranches⟩
    · rw [← hbranches]
      exact h'.loop (h.kind.trans hk) hq
    · obtain ⟨hr, hsame⟩ := h'.otherwise hq
      exact Or.inr ⟨hr, body, hsame.trans hbranches⟩

end Pending.Grows

/-- What can become of the statements that wait. -/
inductive Waits : List Pending → List Pending → Prop
  | none : Waits [] []
  | owner {p q : Pending} {ps : List Pending} : p.Grows q → Waits (p :: ps) (q :: ps)

namespace Waits

variable {ps qs rs : List Pending}

theorem refl : Waits ps ps := by
  cases ps with
  | nil => exact .none
  | cons p ps => exact .owner .refl

/-- The innermost statement may grow twice; below it nothing changes. -/
theorem trans (h : Waits ps qs) (h' : Waits qs rs) : Waits ps rs := by
  cases h with
  | none => exact h'
  | owner h =>
    cases h' with
    | owner h' => exact .owner (h.trans h')

theorem nil (h : Waits [] qs) : qs = [] := by
  cases h
  rfl

/-- The statements around the innermost one stay as they are. -/
theorem tail {p q : Pending} (h : Waits (p :: ps) (q :: qs)) : p.Grows q ∧ qs = ps := by
  cases h with
  | owner h => exact ⟨h, rfl⟩

end Waits

namespace Derives

variable {L : Level → Level → Prop} {k : Tally} {psg : Passage} {c c' : Cursor} {ns : List Node}

theorem suffix_of_cons {ts rest : List Token} {t : Token} (h : ts = t :: rest) : rest <:+ ts :=
  h ▸ List.suffix_cons t rest

/-- A derivation only takes tokens. -/
theorem suffix (h : Derives L k psg c ns c') : c'.tokens <:+ c.tokens := by
  induction h with
  | nothing => exact List.suffix_refl _
  | append _ _ ih ih' => exact ih'.trans ih
  | token hc _ => exact suffix_of_cons hc
  | mark hc _ => exact suffix_of_cons hc
  | comment hc _ _ _ =>
    exact ((List.dropWhile_suffix _).trans (List.suffix_cons _ _)).trans (suffix_of_cons hc)
  | leaf hc _ => exact suffix_of_cons hc
  | label _ ih => exact ih
  | node _ _ ih => exact ih
  | attributeText _ _ _ _ ih => exact ih
  | external _ ih => exact ih
  | choice hc _ _ _ _ _ _ _ ih ih' => exact (ih'.trans ih).trans (suffix_of_cons hc)
  | loop _ _ _ ih ih' => exact ih'.trans ih
  | element _ _ ih ih' => exact ih'.trans ih
  | parts _ ih => exact ih
  | line _ _ ih => exact ih
  | more _ _ _ ih ih' => exact ih'.trans ih
  | closing hc _ _ ih => exact ih.trans (suffix_of_cons hc)
  | tested hc _ _ _ _ _ _ _ _ _ _ ih ih' => exact (ih'.trans ih).trans (suffix_of_cons hc)
  | untested hc _ _ _ _ _ _ _ _ _ _ ih ih' => exact (ih'.trans ih).trans (suffix_of_cons hc)
  | ownEnd _ _ hc _ _ ih =>
    exact ((List.suffix_cons _ _).trans (suffix_of_cons hc)).trans ih
  | closed _ _ ih => exact ih

/-- A derivation changes no statement but the innermost one. -/
theorem waits (h : Derives L k psg c ns c') : Waits c.pending c'.pending := by
  induction h with
  | nothing | token | mark | comment | leaf => exact .refl
  | append _ _ ih ih' => exact ih.trans ih'
  | label _ ih => exact ih
  | node _ _ ih => exact ih
  | attributeText _ _ _ _ ih => exact ih
  | external _ ih => exact ih
  | choice _ _ _ _ _ _ _ hp ih ih' =>
    rw [hp, Cursor.withPending_pending] at ih'
    rw [Cursor.withPending_pending, ih'.tail.2]
    exact ih
  | loop _ _ hp ih ih' =>
    rw [hp, Cursor.withPending_pending] at ih'
    rw [Cursor.withPending_pending, ih'.tail.2]
    exact ih
  | element _ _ ih ih' => exact ih.trans ih'
  | parts _ ih => exact ih
  | line _ _ ih => exact ih
  | more _ _ _ ih ih' => exact ih.trans ih'
  | closing _ _ _ ih => exact ih
  | tested _ _ hp hopen hkind _ _ _ _ _ hq ih ih' =>
    have hboth := ih.trans ih'
    rw [Cursor.moveTo_pending, hp, hq] at hboth
    obtain ⟨hgrows, rfl⟩ := hboth.tail
    rw [hp]
    refine .owner ⟨hgrows.kind, fun _ => rfl, fun h => ?_, fun h => ?_⟩
    · rw [hopen] at h
      cases h
    · rw [hkind] at h
      cases h
  -- no branch can be recorded in the block of one without a test
  | untested _ _ hp hopen _ _ hp₁ _ _ _ hq _ ih' =>
    rw [hp₁, hq] at ih'
    obtain ⟨hgrows, rfl⟩ := ih'.tail
    obtain ⟨hlast, hbranches⟩ := hgrows.otherwise rfl
    rw [hp]
    refine .owner ⟨hgrows.kind, fun _ => rfl, fun h => ?_, fun _ _ => Or.inr ⟨hlast, ?_⟩⟩
    · rw [hopen] at h
      cases h
    · exact ⟨_, congrArg (List.cons _) hbranches⟩
  | ownEnd _ _ _ _ _ ih => exact ih
  | closed _ _ ih => exact ih

/-- A block with an end of its own leaves the statement around it without one. -/
theorem open_of_own (h : Derives L k (.block true) c ns c') (hc : c.ownerClosed = false) :
    c'.ownerClosed = false := by
  cases h with
  | ownEnd _ hopen _ _ _ =>
    exact Cursor.open_of_or hopen hc

/-- A block that is cut off has no end of its own. -/
theorem cuts_le_not_own {own : Bool} (h : Derives L k (.block own) c ns c') :
    (c.cuts c').toNat ≤ (!own).toNat := by
  cases own with
  | false => exact Bool.toNat_le _
  | true =>
    cases hc : c.ownerClosed with
    | true => simp [Cursor.cuts, hc]
    | false => simp [Cursor.cuts, h.open_of_own hc]

/-- Every cut leaves an element without an end. -/
theorem cuts_le_shorts (h : Derives L k psg c ns c') : k.cuts ≤ k.shorts := by
  induction h with
  | nothing | token | mark | comment | leaf => exact Nat.le_refl 0
  | append _ _ ih ih' => exact Nat.add_le_add ih ih'
  | label _ ih => exact ih
  | node _ _ ih => exact ih
  | attributeText _ _ _ _ ih => exact Nat.add_le_add_right ih _
  | external _ ih => exact ih
  | choice _ _ _ _ _ _ _ _ ih ih' => exact Nat.add_le_add ih ih'
  | loop _ _ _ ih ih' => exact Nat.add_le_add ih ih'
  | element _ hbody ih ih' => exact Nat.add_le_add (Nat.add_le_add ih ih') hbody.cuts_le_not_own
  | parts _ ih => exact ih
  | line _ _ ih => exact ih
  | more _ _ _ ih ih' => exact Nat.add_le_add ih ih'
  | closing _ _ _ ih => exact ih
  | tested _ _ _ _ _ _ _ _ _ _ _ ih ih' =>
    exact Nat.add_le_add (Nat.add_le_add ih ih') (Nat.le_refl 0)
  | untested _ _ _ _ _ _ _ _ _ _ _ ih ih' =>
    exact Nat.add_le_add (Nat.add_le_add ih ih') (Nat.le_refl 0)
  | ownEnd _ _ _ _ _ ih => exact ih
  | closed _ _ ih => exact ih

/-- A block without an end of its own has been ended by the statement around it. -/
theorem closed_of_not_own (h : Derives L k (.block false) c ns c') : c'.ownerClosed = true := by
  cases h with
  | closed _ hclosed => exact hclosed

/-- A block ends at its own end or with the statement around it, if this one had no end before. -/
theorem own_or_closed {own : Bool} (h : Derives L k (.block own) c ns c')
    (hc : c.ownerClosed = false) : own.toNat + c'.ownerClosed.toNat = 1 := by
  cases own with
  | true =>
    rw [h.open_of_own hc]
    rfl
  | false =>
    rw [h.closed_of_not_own]
    rfl

/-- The block of a passage is a block. -/
theorem block_node {own : Bool} (h : Derives L k (.block own) c ns c') :
    ∃ ms, ns = [.block ms] := by
  cases h with
  | ownEnd => exact ⟨_, rfl⟩
  | closed => exact ⟨_, rfl⟩

end Derives

/-- Whether nothing is cut off from a position on where the innermost statement has no end yet. -/
structure Clean (k : Tally) (c : Cursor) : Prop where
  cuts : k.cuts = 0
  opened : c.ownerClosed = false

/-- What holds of a derivation in which nothing is cut off: the blocks in it end as they should, and
the innermost statement stays as it is unless it finds its end. -/
structure Uncut (k : Tally) (psg : Passage) (c c' : Cursor) : Prop where
  shorts : k.shorts = 0
  extras : k.extras = 0
  pending : psg = .parts ∨ c'.ownerClosed = false → c'.pending = c.pending

variable {L : Level → Level → Prop} {j k : Tally} {psg : Passage}
variable {c c₁ c' : Cursor} {ns : List Node}

namespace Clean

/-- Of two counts that leave a cursor clean, the first one does. -/
theorem left (h : Clean (j + k) c) : Clean j c :=
  ⟨(Nat.add_eq_zero_iff.1 h.cuts).1, h.opened⟩

/-- Whether it is clean is a matter of the statements that wait, not of the tokens. -/
theorem moveTo (h : Clean k c) (ts : List Token) : Clean k (c.moveTo ts) :=
  ⟨h.cuts, h.opened⟩

/-- What is clean goes on so where the innermost statement is as it was. -/
theorem after (h : Clean (j + k) c) (huncut : Uncut j psg c c₁)
    (hpsg : psg = .parts ∨ c₁.ownerClosed = false) : Clean k c₁ :=
  ⟨(Nat.add_eq_zero_iff.1 h.cuts).2,
    (Cursor.ownerClosed_congr (huncut.pending hpsg)).trans h.opened⟩

/-- A statement that begins has no end yet. -/
theorem opening (h : Clean k c) (kind : Compound) :
    Clean k (c.withPending (.new kind :: c.pending)) :=
  ⟨h.cuts, rfl⟩

/-- A branch without a test is noted before its block is read. -/
theorem otherwise {p : Pending} {ps : List Pending} (h : Clean k (c₁.withPending c.pending))
    (hp : c.pending = p :: ps) (hp₁ : c₁.pending = { p with otherwise := true } :: ps) :
    Clean k c₁ := by
  have hopened := h.opened
  rw [Cursor.ownerClosed, Cursor.withPending_pending, hp] at hopened
  refine ⟨h.cuts, ?_⟩
  rw [Cursor.ownerClosed, hp₁]
  exact hopened

end Clean

namespace Uncut

theorem refl (h : c'.pending = c.pending) : Uncut 0 psg c c' :=
  ⟨rfl, rfl, fun _ => h⟩

/-- Tokens that were passed before cut off nothing. -/
theorem of_moveTo {rest : List Token} (h : Uncut k psg (c.moveTo rest) c') : Uncut k psg c c' :=
  ⟨h.shorts, h.extras, h.pending⟩

/-- One derivation behind another, where the innermost statement is as it was between them. -/
theorem append {psg' : Passage} (h : Uncut j psg c c₁) (h' : Uncut k psg' c₁ c')
    (hpsg : psg = .parts ∨ c₁.ownerClosed = false) : Uncut (j + k) psg' c c' := by
  refine ⟨?_, ?_, fun hpsg' => (h'.pending hpsg').trans (h.pending hpsg)⟩
  · rw [Tally.shorts_add, h.shorts, h'.shorts]
  · rw [Tally.extras_add, h.extras, h'.extras]

/-- The string of an attribute is a template of its own, with no statement around it. -/
theorem attributeText (h : Uncut k .parts c c') : Uncut (k + ⟨0, 0, 0⟩) .parts c c' :=
  ⟨h.shorts, h.extras, h.pending⟩

/-- A statement that waits for branches in its block waits no longer behind it. -/
theorem settle {own : Bool} {kind : Compound} {body : Node} {p : Pending} {ps : List Pending}
    (h : Uncut j .parts c c₁)
    (h' : Uncut k (.block own) (c₁.withPending (.new kind :: c₁.pending)) c')
    (hder : Derives L k (.block own) (c₁.withPending (.new kind :: c₁.pending)) [body] c')
    (hp : c'.pending = p :: ps) : Uncut (j + k) .parts c (c'.withPending ps) := by
  have hwaits := hder.waits
  rw [hp, Cursor.withPending_pending] at hwaits
  refine ⟨?_, ?_, fun _ => hwaits.tail.2.trans (h.pending (Or.inl rfl))⟩
  · rw [Tally.shorts_add, h.shorts, h'.shorts]
  · rw [Tally.extras_add, h.extras, h'.extras]

/-- An element whose block is not cut off has an end of its own. -/
theorem element {own : Bool} {body : Node} (h : Uncut j .parts c c₁)
    (h' : Uncut k (.block own) c₁ c') (hder : Derives L k (.block own) c₁ [body] c')
    (hclean : Clean (j + k + ⟨(c₁.cuts c').toNat, (!own).toNat, 0⟩) c) :
    Uncut (j + k + ⟨(c₁.cuts c').toNat, (!own).toNat, 0⟩) .parts c c' := by
  have hc' : c'.ownerClosed = false := by
    have hcuts := (Nat.add_eq_zero_iff.1 hclean.cuts).2
    rw [Cursor.cuts, (hclean.left.after h (Or.inl rfl)).opened] at hcuts
    simpa using hcuts
  have hown : own = true := by
    cases own with
    | true => rfl
    | false => simp [hder.closed_of_not_own] at hc'
  have hall := h.append h' (Or.inl rfl)
  refine ⟨?_, hall.extras, fun _ => hall.pending (Or.inr hc')⟩
  rw [Tally.shorts_add, hall.shorts, hown]
  rfl

/-- The block of a branch has the end that its statement shares with it. -/
theorem branch {own : Bool} {d d' : Cursor} {body : Node} {q q' : Pending} {qs : List Pending}
    (h : Uncut j .parts d d') (h' : Uncut k (.block own) c₁ c')
    (hder : Derives L k (.block own) c₁ [body] c') (hc₁ : c₁.ownerClosed = false)
    (hq : c'.pending = q :: qs) (hq' : q'.closed = true) :
    Uncut (j + k + ⟨0, 0, (own && q.closed).toNat⟩) .branch c (c'.withPending (q' :: qs)) := by
  have hextra : (own && q.closed) = false := by
    cases own with
    | false => rfl
    | true =>
      have hopen := hder.open_of_own hc₁
      simpa [Cursor.ownerClosed, hq] using hopen
  refine ⟨?_, ?_, fun hpsg => ?_⟩
  · rw [Tally.shorts_add, Tally.shorts_add, h.shorts, h'.shorts]
    rfl
  · rw [Tally.extras_add, Tally.extras_add, h.extras, h'.extras, hextra]
    rfl
  · -- the statement of the branch is closed now, so that nothing is claimed of it
    rcases hpsg with hpsg | hopen
    · cases hpsg
    · simp [Cursor.ownerClosed, hq'] at hopen

/-- Of what is more than parts it is only claimed that the innermost statement stays open. -/
theorem narrow {psg' : Passage} (h : Uncut k psg c c') (hpsg : psg' ≠ .parts) : Uncut k psg' c c' :=
  ⟨h.shorts, h.extras, fun hpsg' => h.pending (Or.inr (hpsg'.resolve_left hpsg))⟩

end Uncut

/-- **Where nothing is cut off all blocks end as they should.** -/
theorem Derives.uncut (h : Derives L k psg c ns c') (hclean : Clean k c) : Uncut k psg c c' := by
  induction h with
  | nothing | token | mark | comment | leaf => exact .refl rfl
  | append _ _ ih ih' =>
    have h := ih hclean.left
    exact h.append (ih' (hclean.after h (Or.inl rfl))) (Or.inl rfl)
  | label _ ih => exact ih hclean
  | node _ _ ih => exact ih hclean
  | attributeText _ _ _ _ ih =>
    have hcuts := (Nat.add_eq_zero_iff.1 hclean.cuts).2
    dsimp only at hcuts
    rw [hcuts]
    exact (ih hclean.left).attributeText
  | external _ ih => exact ih hclean
  | choice _ _ _ _ _ _ hbody hp ih ih' =>
    have h := (ih (hclean.left.moveTo _)).of_moveTo
    exact h.settle (ih' ((hclean.after h (Or.inl rfl)).opening _)) hbody hp
  | loop _ hbody hp ih ih' =>
    have h := ih hclean.left
    exact h.settle (ih' ((hclean.after h (Or.inl rfl)).opening _)) hbody hp
  | element _ hbody ih ih' =>
    have h := ih hclean.left.left
    exact h.element (ih' (hclean.left.after h (Or.inl rfl))) hbody hclean
  | parts _ ih => exact (ih hclean).narrow Passage.noConfusion
  | line _ _ ih => exact ih hclean
  | more _ hopen _ ih ih' =>
    have hc₁ := Cursor.open_of_or hopen hclean.opened
    have h := ih hclean.left
    exact h.append (ih' (hclean.after h (Or.inr hc₁))) (Or.inr hc₁)
  | closing _ _ _ ih => exact (ih (hclean.moveTo _)).of_moveTo.narrow Passage.noConfusion
  | tested _ _ _ _ _ _ _ _ _ hbody hq ih ih' =>
    have h := (ih (hclean.left.left.moveTo _)).of_moveTo
    have hbodyClean := hclean.left.after h (Or.inl rfl)
    exact h.branch (ih' hbodyClean) hbody hbodyClean.opened hq rfl
  | untested _ _ hp _ _ _ hp₁ _ _ hbody hq ih ih' =>
    have h := (ih (hclean.left.left.moveTo _)).of_moveTo
    have hbodyClean := (hclean.left.after h (Or.inl rfl)).otherwise hp hp₁
    exact h.branch (ih' hbodyClean) hbody hbodyClean.opened hq rfl
  | ownEnd _ hopen _ _ _ ih =>
    -- the end is taken where the innermost statement is open, and it is as it was
    have h := ih hclean
    have hc₁ := Cursor.open_of_or hopen hclean.opened
    exact ⟨h.shorts, h.extras, fun _ => h.pending (Or.inr hc₁)⟩
  | closed _ _ ih => exact (ih hclean).narrow Passage.noConfusion

end Stencil
