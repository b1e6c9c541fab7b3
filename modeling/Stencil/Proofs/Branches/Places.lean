import Stencil.Proofs.Derivation.Frame
/-!
# Branches and their places

A branch has a place in the source: the tokens from its `if` or `else` on, and the tokens behind
its block. Branches are recorded when their blocks end, later ones in front, and this is the order
of the source as long as every `else` stands inside the branch before it. It need not: an `else`
in the block of an element reaches the statement around the element, and closes it while the
expression that holds the element goes on, so that a second `else` can stand behind the first
one's end. The two readings of order, by first words and by ends, agree on everything else, and
this file says exactly when a choice keeps the order of the source.
-/

namespace Stencil

open Reading

/-- A branch with its place: the tokens from its first word on, and those behind its block. -/
structure Entry where
  branch : Branch
  start : List Token
  stop : List Token

namespace Entry

/-- Whether one branch begins before another one. -/
def Before (a b : Entry) : Prop :=
  b.start.length < a.start.length

/-- Whether a branch begins where another one has ended, or behind. -/
def Behind (a b : Entry) : Prop :=
  a.start.length ≤ b.stop.length

/-- Whether a branch has no test. -/
def Untested (a : Entry) : Prop :=
  a.branch.test = none

/-- Whether the branch of an `if` is read where it stands. -/
inductive OfIf (L : Level → Prop) : Entry → Prop
  | read {c c₁ c₂ : Cursor} {t : Token} {rest : List Token} {l : Level} {test body : Node} :
      c.tokens = t :: rest → t.text = "if" → L l →
      Statement.header l "if 条件" (c.moveTo rest) = .ok (test, c₁) →
      l.block true (c₁.withPending (.new .choice :: c₁.pending)) = .ok (body, c₂) →
        OfIf L ⟨.mk (some test) body, c.tokens, c₂.tokens⟩

/-- Whether the branch of an `else` is read where it stands. -/
inductive OfElse (L : Level → Prop) : Entry → Prop
  | read {c c₁ c₂ : Cursor} {t : Token} {rest : List Token} {l : Level} {test : Option Node}
      {body : Node} {p : Pending} {ps : List Pending} :
      c.tokens = t :: rest → t.text = "else" → c.pending = p :: ps → L l →
      Statement.branchTest l t p (c.moveTo rest) = .ok (test, c₁) →
      l.block true c₁ = .ok (body, c₂) → OfElse L ⟨.mk test body, c.tokens, c₂.tokens⟩

/-- Whether a branch begins before another one, and has the other one in its block. -/
def Around (a b : Entry) : Prop :=
  a.Before b ∧ ¬b.Behind a

/-- How two recorded branches stand to each other, the one in front first: the other one is in its
block, or it begins behind the other one's end. Nothing begins after a branch without a test. -/
def Beside (a b : Entry) : Prop :=
  (a.Around b ∨ a.Behind b) ∧ (a.Untested → b.Before a) ∧ (b.Untested → a.Before b)

/-- Branches in the order of the source, of which only the last one can be without a test. -/
structure InOrder (es : List Entry) : Prop where
  before : es.Pairwise Before
  tested : ∀ e ∈ es.dropLast, ¬e.Untested

variable {a b : Entry}

/-- A branch cannot be behind another one and before it. -/
theorem Behind.not_before (h : a.Behind b) (hb : b.stop.length < b.start.length) :
    ¬a.Before b := by
  unfold Behind at h
  unfold Before
  omega

/-- A branch around another one is neither behind nor before it. -/
theorem Around.apart (h : a.Around b) (hb : b.stop.length < b.start.length) :
    ¬a.Behind b ∧ ¬b.Behind a :=
  ⟨fun hbehind => hbehind.not_before hb h.1, h.2⟩

/-- Nothing was recorded where the branches are the same ones. -/
theorem eq_nil_of_append {es : List Entry} {bs : List Branch}
    (h : es.map Entry.branch ++ bs = bs) : es = [] :=
  List.map_eq_nil_iff.1 (List.append_left_eq_self.1 h)

end Entry

/-! ## What is recorded -/

/-- Branches that were recorded between two positions of the source, last one first. Where nothing
is cut off, as `strict` says, none of them begins behind the end of another one. -/
structure Recorded (L : Level → Prop) (strict : Prop) (G : Node → Prop) (top bottom : List Token)
    (es : List Entry) : Prop where
  read : ∀ e ∈ es, e.OfElse L
  start : ∀ e ∈ es, e.start <:+ top
  stop : ∀ e ∈ es, e.stop <:+ e.start ∧ e.stop.length < e.start.length
  bottom : ∀ e ∈ es, bottom <:+ e.stop
  beside : es.Pairwise Entry.Beside
  ordered : strict → es.Pairwise Entry.Before
  nodes : ∀ e ∈ es, ∀ n ∈ e.branch.test.toList ++ [e.branch.body], G n

variable {L : Level → Prop} {strict : Prop} {G : Node → Prop}
variable {top top' mid bottom bottom' : List Token} {es fs : List Entry}

namespace Recorded

theorem nil : Recorded L strict G top bottom [] := by
  constructor <;> simp

/-- The stretch of source that branches were recorded in may be taken longer. -/
theorem mono (h : Recorded L strict G top bottom es) (htop : top <:+ top')
    (hbottom : bottom' <:+ bottom) : Recorded L strict G top' bottom' es :=
  { h with
    start := fun e he => (h.start e he).trans htop
    bottom := fun e he => hbottom.trans (h.bottom e he) }

/-- What is recorded later begins behind the ends of what was recorded before. -/
theorem append (hes : Recorded L strict G top mid es) (hfs : Recorded L strict G mid bottom fs)
    (htop : mid <:+ top) (hbottom : bottom <:+ mid) (hlast : fs ≠ [] → ∀ e ∈ es, ¬e.Untested)
    (hstrict : strict → es = []) : Recorded L strict G top bottom (fs ++ es) := by
  have hes' := hes.mono (List.suffix_refl top) hbottom
  have hfs' := hfs.mono htop (List.suffix_refl bottom)
  refine ⟨?_, ?_, ?_, ?_, ?_, fun h => ?_, ?_⟩
  · exact List.forall_mem_append.2 ⟨hfs'.read, hes'.read⟩
  · exact List.forall_mem_append.2 ⟨hfs'.start, hes'.start⟩
  · exact List.forall_mem_append.2 ⟨hfs'.stop, hes'.stop⟩
  · exact List.forall_mem_append.2 ⟨hfs'.bottom, hes'.bottom⟩
  · refine List.pairwise_append.2 ⟨hfs.beside, hes.beside, fun a ha b hb => ?_⟩
    -- `a` was recorded later, from tokens that were left when `b` was done
    have hbehind : a.Behind b := ((hfs.start a ha).trans (hes.bottom b hb)).length_le
    have hstop := (hes.stop b hb).2
    refine ⟨Or.inr hbehind, fun _ => ?_, fun h => absurd h (hlast (List.ne_nil_of_mem ha) b hb)⟩
    unfold Entry.Before
    unfold Entry.Behind at hbehind
    omega
  · rw [hstrict h, List.append_nil]
    exact hfs.ordered h
  · exact List.forall_mem_append.2 ⟨hfs'.nodes, hes'.nodes⟩

/-- What begins before the recorded branches and ends behind them is around them. -/
theorem around {e b : Entry} (hes : Recorded L strict G top bottom es) (hb : b ∈ es)
    (hstart : top.length < e.start.length) (hstop : e.stop <:+ bottom) : e.Around b := by
  have hb₁ := (hes.start b hb).length_le
  have hb₂ := (hstop.trans (hes.bottom b hb)).length_le
  have hb₃ := (hes.stop b hb).2
  constructor
  · unfold Entry.Before
    omega
  · unfold Entry.Behind
    omega

/-- A branch in front of the ones that were recorded while it was read. -/
theorem cons {e : Entry} (hes : Recorded L strict G mid bottom es) (hread : e.OfElse L)
    (hstart : e.start = top) (hstop : e.stop = bottom)
    (hmid : mid <:+ top ∧ mid.length < top.length) (hbottom : bottom <:+ mid)
    (hnodes : ∀ n ∈ e.branch.test.toList ++ [e.branch.body], G n)
    (hlast : es ≠ [] → ¬e.Untested) : Recorded L strict G top bottom (e :: es) := by
  have hes' := hes.mono hmid.1 (List.suffix_refl bottom)
  have hlen := hbottom.length_le
  have haround : ∀ b ∈ es, e.Around b := fun b hb =>
    hes.around hb (hstart ▸ hmid.2) (hstop ▸ List.suffix_refl _)
  -- the new branch begins before all the others and ends behind them
  refine ⟨?_, ?_, ?_, ?_, ?_, fun h => ?_, ?_⟩
  · exact List.forall_mem_cons.2 ⟨hread, hes'.read⟩
  · exact List.forall_mem_cons.2 ⟨hstart ▸ List.suffix_refl _, hes'.start⟩
  · refine List.forall_mem_cons.2 ⟨?_, hes'.stop⟩
    rw [hstart, hstop]
    exact ⟨hbottom.trans hmid.1, by omega⟩
  · exact List.forall_mem_cons.2 ⟨hstop ▸ List.suffix_refl _, hes'.bottom⟩
  · refine List.pairwise_cons.2 ⟨fun b hb => ⟨Or.inl (haround b hb), ?_, ?_⟩, hes.beside⟩
    · exact fun h => absurd h (hlast (List.ne_nil_of_mem hb))
    · exact fun _ => (haround b hb).1
  · exact List.pairwise_cons.2 ⟨fun b hb => (haround b hb).1, hes.ordered h⟩
  · exact List.forall_mem_cons.2 ⟨hnodes, hes'.nodes⟩

end Recorded

/-- How the statements that wait get branches between two positions: only the innermost one
does. -/
inductive Evolves (L : Level → Prop) (strict : Prop) (G : Node → Prop) (top bottom : List Token) :
    List Pending → List Pending → Prop
  | none : Evolves L strict G top bottom [] []
  | owner {es : List Entry} {p q : Pending} {ps : List Pending} :
      Recorded L strict G top bottom es → q.branches = es.map Entry.branch ++ p.branches →
      (∀ e ∈ es, e.Untested → q.otherwise = true) →
        Evolves L strict G top bottom (p :: ps) (q :: ps)

namespace Evolves

variable {ps qs rs : List Pending}

theorem refl : Evolves L strict G top bottom ps ps := by
  cases ps with
  | nil => exact .none
  | cons p ps => exact .owner .nil rfl (by simp)

theorem mono (h : Evolves L strict G top bottom ps qs) (htop : top <:+ top')
    (hbottom : bottom' <:+ bottom) : Evolves L strict G top' bottom' ps qs := by
  cases h with
  | none => exact .none
  | owner hes hbranches hlast => exact .owner (hes.mono htop hbottom) hbranches hlast

/-- Nothing is recorded any more once a branch without a test has come. -/
theorem trans (h : Evolves L strict G top mid ps qs) (h' : Evolves L strict G mid bottom qs rs)
    (htop : mid <:+ top) (hbottom : bottom <:+ mid) (hwaits : Waits qs rs)
    (hstrict : strict → qs = ps) : Evolves L strict G top bottom ps rs := by
  cases h with
  | none =>
    cases h'
    exact .none
  | @owner es p q ps hes hbranches hlast =>
    cases h' with
    | @owner fs _ r _ hfs hbranches' hlast' =>
      have hgrows := hwaits.tail.1
      -- a branch without a test ends the list, and what is recorded later would come after it
      have hnone : fs ≠ [] → ∀ e ∈ es, ¬e.Untested := by
        intro hne e he hu
        have hsame := (hgrows.otherwise (hlast e he hu)).2
        exact hne (Entry.eq_nil_of_append (hbranches'.symm.trans hsame))
      have hnil : strict → es = [] := by
        intro hs
        have hpq : q = p := (List.cons_eq_cons.1 (hstrict hs)).1
        rw [hpq] at hbranches
        exact Entry.eq_nil_of_append hbranches.symm
      refine .owner (hes.append hfs htop hbottom hnone hnil) ?_ ?_
      · rw [hbranches', hbranches, List.map_append, List.append_assoc]
      · refine List.forall_mem_append.2 ⟨hlast', fun e he hu => ?_⟩
        exact (hgrows.otherwise (hlast e he hu)).1

end Evolves

/-! ## The order of a chain -/

/-- What each member has in view of any later one, all but the last have. -/
theorem forall_mem_dropLast_of_pairwise {α : Type} {P : α → Prop} {as : List α}
    (h : as.Pairwise fun a _ => P a) : ∀ a ∈ as.dropLast, P a := by
  rcases List.eq_nil_or_concat as with rfl | ⟨init, last, rfl⟩
  · simp
  · rw [List.concat_eq_append] at h ⊢
    rw [List.dropLast_concat]
    exact fun a ha => (List.pairwise_append.1 h).2.2 a ha last (by simp)

/-- The branches of a choice with their places in a source. -/
structure Chain (L : Level → Prop) (src : List Token) (bs : List Branch) (first : Entry)
    (others : List Entry) : Prop where
  branches : bs = first.branch :: others.map Entry.branch
  ofIf : first.OfIf L
  ofElse : ∀ e ∈ others, e.OfElse L
  start : ∀ e ∈ first :: others, e.start <:+ src
  stop : ∀ e ∈ first :: others, e.stop <:+ e.start ∧ e.stop.length < e.start.length
  around : ∀ e ∈ others, first.Around e
  beside : others.Pairwise Entry.Beside

/-- An `if` and what was recorded in its block. -/
theorem Recorded.chain {src : List Token} {first : Entry} {bs : List Branch}
    (h : Recorded L strict G top bottom es) (hif : first.OfIf L) (hbs : bs = es.map Entry.branch)
    (hstart : first.start <:+ src) (htop : top <:+ first.start ∧ top.length < first.start.length)
    (hstop : first.stop = bottom) (hbottom : bottom <:+ top) :
    Chain L src (first.branch :: bs) first es := by
  have hlen := hbottom.length_le
  have hfirst : first.stop <:+ first.start ∧ first.stop.length < first.start.length := by
    rw [hstop]
    exact ⟨hbottom.trans htop.1, by omega⟩
  refine ⟨by rw [hbs], hif, h.read, ?_, ?_, fun e he => ?_, h.beside⟩
  · exact List.forall_mem_cons.2 ⟨hstart, fun e he =>
      ((h.start e he).trans htop.1).trans hstart⟩
  · exact List.forall_mem_cons.2 ⟨hfirst, h.stop⟩
  · exact h.around he htop.2 (hstop ▸ List.suffix_refl _)

namespace Chain

variable {src : List Token} {bs : List Branch} {first : Entry} {others : List Entry}

/-- The first branch of a chain is that of the `if`, which has a test. -/
theorem tested (h : Chain L src bs first others) : first.branch.test.isSome := by
  cases h.ofIf
  rfl

/-- Of two branches one has a test. -/
theorem one_untested (h : Chain L src bs first others) :
    bs.Pairwise fun a b => a.test.isSome ∨ b.test.isSome := by
  rw [h.branches]
  refine List.pairwise_cons.2 ⟨fun _ _ => Or.inl h.tested, ?_⟩
  refine List.pairwise_map.2 (h.beside.imp fun {a b} hab => ?_)
  refine Decidable.byContradiction fun hnone => ?_
  simp only [not_or, Option.not_isSome_iff_eq_none] at hnone
  have hab₁ := hab.2.1 hnone.1
  have hab₂ := hab.2.2 hnone.2
  unfold Entry.Before at hab₁ hab₂
  omega

/-- Branches in the order of the source lie in each other. -/
theorem not_behind (h : Chain L src bs first others) (hbefore : others.Pairwise Entry.Before) :
    ∀ a ∈ first :: others, ∀ b ∈ first :: others, ¬a.Behind b := by
  have hapart : (first :: others).Pairwise fun a b => ¬a.Behind b ∧ ¬b.Behind a := by
    refine List.pairwise_cons.2 ⟨fun e he => ?_, ?_⟩
    · exact (h.around e he).apart (h.stop e (List.mem_cons_of_mem _ he)).2
    · refine (hbefore.and h.beside).imp_of_mem fun {a b} _ hb hab => ?_
      have hstop := (h.stop b (List.mem_cons_of_mem _ hb)).2
      rcases hab.2.1 with haround | hbehind
      · exact haround.apart hstop
      · exact absurd hab.1 (hbehind.not_before hstop)
  -- a branch takes at least its first word, so that it is not behind itself
  have hself : ∀ e ∈ first :: others, ¬e.Behind e := by
    intro e he
    have hstop := (h.stop e he).2
    unfold Entry.Behind
    omega
  intro a ha b hb
  exact (hapart.imp And.left).forall_of_forall_of_flip hself (hapart.imp And.right) ha hb

/-- Without a branch behind an earlier one, the chain is in the order of the source. -/
theorem inOrder (h : Chain L src bs first others)
    (hnone : ∀ a ∈ first :: others, ∀ b ∈ first :: others, ¬a.Behind b) :
    Entry.InOrder (first :: others) := by
  have haround : (first :: others).Pairwise fun a b => a.Before b ∧ ¬a.Untested := by
    refine List.pairwise_cons.2 ⟨fun e he => ⟨(h.around e he).1, ?_⟩, ?_⟩
    · exact fun hu => absurd h.tested (by rw [hu]; simp)
    · refine h.beside.imp_of_mem fun {a b} ha hb hab => ?_
      have hbehind := hnone a (List.mem_cons_of_mem _ ha) b (List.mem_cons_of_mem _ hb)
      have hbefore := (hab.1.resolve_right hbehind).1
      refine ⟨hbefore, fun hu => ?_⟩
      have hback := hab.2.1 hu
      unfold Entry.Before at hbefore hback
      omega
  exact ⟨haround.imp And.left, forall_mem_dropLast_of_pairwise (haround.imp And.right)⟩

/-- **The order of the branches** is that of the source exactly if they lie in each other. -/
theorem inOrder_iff (h : Chain L src bs first others) :
    Entry.InOrder (first :: others) ↔
      ∀ a ∈ first :: others, ∀ b ∈ first :: others, ¬a.Behind b :=
  ⟨fun horder => h.not_behind (List.pairwise_cons.1 horder.before).2, h.inOrder⟩

end Chain

end Stencil
