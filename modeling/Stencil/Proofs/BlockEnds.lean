import Mathlib
import Stencil.Proofs.Lexing
import Stencil.Proofs.Derivation.Frame
import Stencil.Proofs.Derivation.Levels
/-!
# Ends and constructs

Every statement and every element with a block should have one end in the source, which all branches
of the statement share. What a derivation takes of the ends it adds to the constructs: to those in
the nodes that it leaves, and to those in the branches that wait. The account is exact if one adds
the blocks of elements that have no end of their own, and the branches that take an end though their
statement has found one.
-/

namespace Stencil

/-- How many pairs of neighbours have a property. -/
def pairs (p : Token → Token → Bool) : List Token → Nat
  | t :: u :: rest => (p t u).toNat + pairs p (u :: rest)
  | _ => 0

/-- How many ends of blocks there are: the mark, and the word `end` behind it. -/
def blockEnds : List Token → Nat :=
  pairs fun t u => t.kind == .mark && u.is .keyword "end"

/-- How many comments start: the mark, and the comment sign behind it. -/
def commentStarts : List Token → Nat :=
  pairs fun t u => t.kind == .mark && u.kind == .comment

/-- A token that is never the first of a pair adds none. -/
theorem pairs_cons_of_false {p : Token → Token → Bool} {t : Token} {ts : List Token}
    (h : ∀ u, p t u = false) : pairs p (t :: ts) = pairs p ts := by
  cases ts with
  | nil => rfl
  | cons u ts => simp [pairs, h]

/-- Fewer tokens have fewer pairs. -/
theorem pairs_suffix {p : Token → Token → Bool} {ts us : List Token} (h : us <:+ ts) :
    pairs p us ≤ pairs p ts := by
  obtain ⟨init, rfl⟩ := h
  induction init with
  | nil => exact Nat.le_refl _
  | cons t init ih =>
    refine ih.trans ?_
    rw [List.cons_append]
    cases init ++ us with
    | nil => exact Nat.le_refl _
    | cons u rest => exact Nat.le_add_left _ _

theorem blockEnds_cons_cons (t u : Token) (ts : List Token) :
    blockEnds (t :: u :: ts) =
      (t.kind == .mark && u.is .keyword "end").toNat + blockEnds (u :: ts) :=
  rfl

/-- A token that is no mark does not begin an end. -/
theorem blockEnds_cons {t : Token} {ts : List Token} (h : t.kind ≠ .mark) :
    blockEnds (t :: ts) = blockEnds ts :=
  pairs_cons_of_false fun u => by simp [h]

namespace Node

/-- Whether a node is a statement or an element with a block. -/
def isConstruct : Node → Bool
  | choice _ => true
  | loop _ _ (.block _) _ => true
  | element _ _ (.block _) => true
  | _ => false

/-- How many statements and elements with blocks there are in a tree. -/
def constructs (n : Node) : Nat :=
  n.walk.countP isConstruct

/-- The same for several trees. -/
def total (ns : List Node) : Nat :=
  (ns.map constructs).sum

/-- The constructs of a tree are those below the root, and the root if it is one. -/
theorem constructs_eq (n : Node) : n.constructs = n.isConstruct.toNat + total n.children := by
  rw [constructs, walk_eq, List.countP_cons, List.countP_flatMap, Nat.add_comm]
  congr 1
  cases n.isConstruct <;> rfl

@[simp] theorem total_nil : total [] = 0 := rfl

@[simp] theorem total_cons (n : Node) (ns : List Node) :
    total (n :: ns) = n.constructs + total ns := by
  simp [total]

@[simp] theorem total_append (ns ms : List Node) : total (ns ++ ms) = total ns + total ms := by
  simp [total]

/-- Whether a node can be an operand that is not a string. -/
def IsOperand (n : Node) : Prop :=
  (∀ ns, n ≠ .block ns) ∧ ∀ text, n ≠ .leaf (.string text)

end Node

open Node

/-- The constructs in a branch. -/
def Branch.constructs (b : Branch) : Nat :=
  total (b.test.toList ++ [b.body])

/-- The ends that a statement has taken before it becomes a node: those of the constructs in its
branches, and the one that it has found. -/
def Pending.taken (p : Pending) : Nat :=
  (p.branches.map Branch.constructs).sum + p.closed.toNat

/-- The ends that are left or that the statements that wait have taken. -/
def Cursor.ledger (c : Cursor) : Nat :=
  blockEnds c.tokens + (c.pending.map Pending.taken).sum

/-- Tokens of a source without strings and without comments. -/
structure Quiet (ts : List Token) : Prop where
  mark : ∀ t ∈ ts, t.kind = .mark → t.text = "@"
  string : ∀ t ∈ ts, t.kind ≠ .string
  sign : ∀ t ∈ ts, t.kind.isWord = true → t.text = "#" → t.kind = .comment
  comment : commentStarts ts = 0

/-- What is left of quiet tokens is quiet. -/
theorem Quiet.suffix {ts us : List Token} (h : Quiet ts) (hs : us <:+ ts) : Quiet us :=
  ⟨fun t ht => h.mark t (hs.subset ht), fun t ht => h.string t (hs.subset ht),
    fun t ht => h.sign t (hs.subset ht), Nat.le_zero.1 (h.comment ▸ pairs_suffix hs)⟩

/-! ## The account -/

/-- How many ends a passage takes for itself. -/
def Passage.ownEnds : Passage → Nat
  | .block own => own.toNat
  | _ => 0

/-- The account of a derivation. -/
structure Settled (k : Tally) (psg : Passage) (c : Cursor) (ns : List Node) (c' : Cursor) :
    Prop where
  account : c.ledger + k.shorts = c'.ledger + total ns + k.extras + psg.ownEnds
  operands : (∀ own, psg ≠ .block own) → ∀ n ∈ ns, n.IsOperand

namespace Quiet

variable {c : Cursor} {t u : Token} {rest : List Token}

/-- The only mark is the sign itself. -/
theorem not_mark (h : Quiet c.tokens) (hc : c.tokens = t :: rest) (ht : t.text ≠ "@") :
    t.kind ≠ .mark :=
  fun hk => ht (h.mark t (by rw [hc]; exact List.mem_cons_self) hk)

/-- A mark with the sign of a comment behind it would begin a comment, and there are none. -/
theorem not_comment (h : Quiet c.tokens) (hc : c.tokens = t :: u :: rest) (ht : t.kind = .mark)
    (hu : u.kind.isWord = true) : u.text ≠ "#" := by
  intro hsign
  have hk := h.sign u (by rw [hc]; simp) hu hsign
  have hnone := h.comment
  rw [hc, commentStarts, pairs] at hnone
  simp [ht, hk] at hnone

end Quiet

namespace Cursor

variable {c : Cursor} {t u : Token} {rest : List Token}

/-- A word is taken without taking an end. -/
theorem ledger_word (hc : c.tokens = t :: rest) (ht : t.kind ≠ .mark) :
    (c.moveTo rest).ledger = c.ledger := by
  rw [ledger, ledger, hc, blockEnds_cons ht]
  rfl

/-- A mark that begins no end is taken without taking one. -/
theorem ledger_mark (hc : c.tokens = t :: rest) (hend : c.atBlockEnd = false) :
    (c.moveTo rest).ledger = c.ledger := by
  have hsame : blockEnds c.tokens = blockEnds rest := by
    rw [hc]
    cases rest with
    | nil => rfl
    | cons u rest =>
      simp only [atBlockEnd, hc] at hend
      rw [blockEnds_cons_cons, hend]
      exact Nat.zero_add _
  rw [ledger, ledger, hsame]
  rfl

/-- An end is taken from those that are left. -/
theorem ledger_end (hc : c.tokens = t :: u :: rest) (ht : t.kind = .mark)
    (hu : u.is .keyword "end" = true) : c.ledger = (c.moveTo rest).ledger + 1 := by
  have hk : u.kind ≠ .mark := by
    simp only [Token.is, Bool.and_eq_true, beq_iff_eq] at hu
    simp [hu.1]
  have hends : blockEnds c.tokens = blockEnds rest + 1 := by
    rw [hc, blockEnds_cons_cons, blockEnds_cons hk, ht, hu]
    exact Nat.add_comm _ _
  rw [ledger, ledger, hends, moveTo_tokens, moveTo_pending]
  omega

/-- What waits is counted apart from the tokens. -/
theorem ledger_withPending (c : Cursor) (ps : List Pending) :
    (c.withPending ps).ledger = blockEnds c.tokens + (ps.map Pending.taken).sum :=
  rfl

/-- What the innermost statement that waits has taken. -/
theorem ledger_of_cons {p : Pending} {ps : List Pending} (hp : c.pending = p :: ps) :
    c.ledger = (c.withPending ps).ledger + (p.branches.map Branch.constructs).sum +
      c.ownerClosed.toNat := by
  have howner : c.ownerClosed = p.closed := by rw [ownerClosed, hp]
  rw [ledger, ledger_withPending, howner, hp, List.map_cons, List.sum_cons, Pending.taken]
  omega

end Cursor

namespace Node

/-- Statements and elements with blocks have a block among their children. -/
theorem isConstruct_of_isPlain {n : Node} (hn : n.IsPlain)
    (h : ∀ m ∈ n.children, m.IsOperand) : n.isConstruct = false := by
  cases n with
  | choice => exact absurd hn id
  | loop names source body otherwise =>
    cases body with
    | block ns => exact absurd rfl ((h (.block ns) (by simp [children])).1 ns)
    | _ => rfl
  | element tag modifiers body =>
    cases body with
    | block body => exact absurd hn id
    | _ => rfl
  | _ => rfl

/-- Trees are counted in groups. -/
theorem total_flatMap {α : Type} (f : α → List Node) (as : List α) :
    total (as.flatMap f) = (as.map fun a => total (f a)).sum := by
  induction as with
  | nil => rfl
  | cons a as ih => simp [ih]

/-- The branches of a loop are its one branch without a test. -/
theorem total_otherwise? {p : Pending} (h : (Pending.new .loop).Grows p) :
    total (Statement.otherwise? p.branches).toList = (p.branches.map Branch.constructs).sum := by
  rcases h.loop rfl rfl with ⟨-, hb⟩ | ⟨-, body, hb⟩
  · rw [hb]
    rfl
  · rw [hb]
    simp [Statement.otherwise?, Pending.new, Branch.constructs, Branch.test, Branch.body]

/-- A statement counts once, however many branches it has. -/
theorem choice_constructs {test body : Node} {bs : List Branch} :
    (Node.choice (.mk (some test) body :: bs)).constructs =
      1 + total [test, body] + (bs.map Branch.constructs).sum := by
  rw [constructs_eq, children, total_flatMap]
  change 1 + ((Branch.mk (some test) body :: bs).map Branch.constructs).sum = _
  rw [List.map_cons, List.sum_cons, Nat.add_assoc]
  rfl

/-- A loop counts once, with its other body or without it. -/
theorem loop_constructs {names : List String} {source : Node} {ns : List Node}
    {otherwise : Option Node} :
    (Node.loop names source (.block ns) otherwise).constructs =
      1 + total [source, .block ns] + total otherwise.toList := by
  rw [constructs_eq]
  simp [isConstruct, children, Nat.add_assoc]

theorem block_constructs {ns : List Node} : (Node.block ns).constructs = total ns := by
  rw [constructs_eq]
  simp [isConstruct, children]

end Node

namespace Settled

variable {L : Level → Level → Prop} {j k : Tally} {psg : Passage} {c c₁ c₂ c' d : Cursor}
variable {ns ms : List Node} {n : Node} {t u : Token} {rest : List Token}

/-- Where nothing is taken, nothing is left to settle. -/
theorem nothing {psg : Passage} (hpsg : psg.ownEnds = 0) (h : c'.ledger = c.ledger) :
    Settled 0 psg c [] c' :=
  ⟨by simp [h, hpsg], by simp⟩

/-- An account may begin where the ledger is the same. -/
theorem of_ledger (h : Settled k psg c ns c') (hd : d.ledger = c.ledger) : Settled k psg d ns c' :=
  ⟨by rw [hd]; exact h.account, h.operands⟩

/-- An account may end where the ledger is the same. -/
theorem to_ledger (h : Settled k psg c ns d) (hd : c'.ledger = d.ledger) : Settled k psg c ns c' :=
  ⟨by rw [hd]; exact h.account, h.operands⟩

/-- Accounts one after the other are added up. -/
theorem append (hpsg : psg.ownEnds = 0) (h : Settled j psg c ns c₁) (h' : Settled k psg c₁ ms c') :
    Settled (j + k) psg c (ns ++ ms) c' := by
  refine ⟨?_, fun hpsg => List.forall_mem_append.2 ⟨h.operands hpsg, h'.operands hpsg⟩⟩
  have hfirst := h.account
  have hsecond := h'.account
  simp only [Tally.shorts_add, Tally.extras_add, total_append]
  omega

/-- A node that is no construct counts what its children do. -/
theorem node (hpsg : ∀ own, psg ≠ .block own) (h : Settled k psg c n.children c')
    (hn : n.IsPlain) : Settled k psg c [n] c' := by
  refine ⟨?_, fun _ => List.forall_mem_singleton.2 ⟨?_, ?_⟩⟩
  · rw [total_cons, total_nil, constructs_eq, isConstruct_of_isPlain hn (h.operands hpsg)]
    simpa using h.account
  · rintro ns rfl
    exact hn
  · rintro text rfl
    exact hn

/-- A leaf counts nothing. -/
theorem leaf {lf : Leaf} (h : c'.ledger = c.ledger) (hlf : ∀ text, lf ≠ .string text) :
    Settled 0 .parts c [.leaf lf] c' := by
  refine ⟨?_, fun _ => List.forall_mem_singleton.2 ⟨fun _ => Node.noConfusion, ?_⟩⟩
  · rw [h]
    rfl
  · rintro text ⟨⟩
    exact hlf text rfl

/-- A function in the place of a name has no constructs either. -/
theorem external {id : String} {args : List Node} {f : Callable}
    (h : Settled k .parts c [.call (.leaf (.name id)) args] c') :
    Settled k .parts c [.call (.external (.function f)) args] c' := by
  refine ⟨?_, fun _ => List.forall_mem_singleton.2 ⟨fun _ => Node.noConfusion,
    fun _ => Node.noConfusion⟩⟩
  have hsame : (Node.call (.external (.function f)) args).constructs =
      (Node.call (.leaf (.name id)) args).constructs := by
    rw [constructs_eq, constructs_eq]
    rfl
  have haccount := h.account
  rw [total_cons, ← hsame] at haccount
  exact haccount

/-- A statement with its test or its source, its block and its branches: the end of the block is
the one that it takes. -/
theorem settle {own : Bool} {kind : Compound} {test body : Node} {p : Pending} {ps : List Pending}
    (h : Settled j .parts c [test] c₁)
    (h' : Settled k (.block own) (c₁.withPending (.new kind :: c₁.pending)) [body] c₂)
    (hder : Derives L k (.block own) (c₁.withPending (.new kind :: c₁.pending)) [body] c₂)
    (hp : c₂.pending = p :: ps)
    (hn : n.constructs = 1 + total [test, body] + (p.branches.map Branch.constructs).sum)
    (hoperand : n.IsOperand) : Settled (j + k) .parts c [n] (c₂.withPending ps) := by
  refine ⟨?_, fun _ => List.forall_mem_singleton.2 hoperand⟩
  have htest := h.account
  have hbody := h'.account
  -- the statement has taken nothing yet when its block begins
  have hnew : (c₁.withPending (.new kind :: c₁.pending)).ledger = c₁.ledger := by
    rw [Cursor.ledger_withPending, Cursor.ledger]
    simp [Pending.taken, Pending.new]
  have hend := hder.own_or_closed rfl
  have htaken := Cursor.ledger_of_cons hp
  simp only [Tally.shorts_add, Tally.extras_add, total_cons, total_nil, Passage.ownEnds] at *
  omega

/-- An element with its modifiers and its block: it is short of an end if the block has none. -/
theorem element {own : Bool} {tag : String} {modifiers : List Node} {body : Node} {cuts : Nat}
    (h : Settled j .parts c modifiers c₁) (h' : Settled k (.block own) c₁ [body] c') :
    Settled (j + k + ⟨cuts, (!own).toNat, 0⟩) .parts c [.element tag modifiers (.block body)]
      c' := by
  refine ⟨?_, fun _ => List.forall_mem_singleton.2 ⟨fun _ => Node.noConfusion,
    fun _ => Node.noConfusion⟩⟩
  have hmodifiers := h.account
  have hbody := h'.account
  have hn : (Node.element tag modifiers (.block body)).constructs =
      1 + (total modifiers + body.constructs) := by
    rw [constructs_eq]
    simp [isConstruct, children]
  have hown : own.toNat + (!own).toNat = 1 := by cases own <;> rfl
  simp only [Tally.shorts_add, Tally.extras_add, total_cons, total_nil, Passage.ownEnds] at *
  omega

/-- A branch takes the end of its statement, or one more if there is one already. -/
theorem branch {own : Bool} {test : Option Node} {body : Node} {q q' : Pending} {qs : List Pending}
    (h : Settled j .parts c test.toList c₁) (h' : Settled k (.block own) c₁ [body] c₂)
    (hder : Derives L k (.block own) c₁ [body] c₂) (hq : c₂.pending = q :: qs)
    (hbranches : q'.branches = .mk test body :: q.branches) (hclosed : q'.closed = true) :
    Settled (j + k + ⟨0, 0, (own && q.closed).toNat⟩) .branch c [] (c₂.withPending (q' :: qs)) := by
  refine ⟨?_, by simp⟩
  have htest := h.account
  have hbody := h'.account
  -- the end of the branch is its own, or that of a branch in its block, or there are two
  have hends : own.toNat + q.closed.toNat = 1 + (own && q.closed).toNat := by
    cases own with
    | true => simp
    | false =>
      have hc₂ := hder.closed_of_not_own
      rw [Cursor.ownerClosed, hq] at hc₂
      have hq : q.closed = true := hc₂
      simp [hq]
  have hold := Cursor.ledger_of_cons hq
  have hnew : (c₂.withPending (q' :: qs)).ledger =
      (c₂.withPending qs).ledger + (q'.branches.map Branch.constructs).sum + 1 := by
    have htaken := Cursor.ledger_of_cons (c := c₂.withPending (q' :: qs)) rfl
    rw [show (c₂.withPending (q' :: qs)).ownerClosed = true from hclosed] at htaken
    exact htaken
  have hmore : (q'.branches.map Branch.constructs).sum =
      total test.toList + body.constructs + (q.branches.map Branch.constructs).sum := by
    rw [hbranches, List.map_cons, List.sum_cons, Branch.constructs, total_append]
    simp [Branch.test, Branch.body]
  rw [show c₂.ownerClosed = q.closed by rw [Cursor.ownerClosed, hq]] at hold
  simp only [Tally.shorts_add, Tally.extras_add, total_cons, total_nil, Passage.ownEnds] at *
  omega

end Settled

/-- **The account of every derivation is settled.** -/
theorem Derives.settled {L : Level → Level → Prop} {k : Tally} {psg : Passage} {c c' : Cursor}
    {ns : List Node} (h : Derives L k psg c ns c') (hq : Quiet c.tokens) :
    Settled k psg c ns c' := by
  induction h with
  | nothing => exact .nothing rfl rfl
  | append hder _ ih ih' => exact .append rfl (ih hq) (ih' (hq.suffix hder.suffix))
  -- every mark in quiet tokens is the sign, which cannot be passed as a token
  | token hc ht =>
    refine .nothing rfl (Cursor.ledger_word hc fun hk => ht ⟨hk, ?_⟩)
    exact hq.mark _ (by rw [hc]; exact List.mem_cons_self) hk
  | mark hc hend => exact .nothing rfl (Cursor.ledger_mark hc hend)
  -- there are no comments in quiet tokens
  | comment hc ht hu hsign => exact absurd hsign (hq.not_comment hc ht hu)
  | leaf hc hlf =>
    refine .leaf (Cursor.ledger_word hc (Token.not_mark_of_leaf? hlf)) ?_
    rintro text rfl
    exact hq.string _ (by rw [hc]; exact List.mem_cons_self) (Token.string_of_leaf? hlf).1
  | label _ ih => exact ⟨(ih hq).account, by simp⟩
  | node _ hn ih => exact .node (fun _ => Passage.noConfusion) (ih hq) hn
  -- the value would be a string, and quiet tokens have none
  | attributeText _ _ _ _ ih =>
    have hoperand := (ih hq).operands (fun _ => Passage.noConfusion) _ List.mem_cons_self
    exact absurd rfl (hoperand.2 _)
  | external _ ih => exact .external (ih hq)
  | choice hc ht _ _ _ hderTest hderBody hp ih ih' =>
    have hquiet := hq.suffix (suffix_of_cons hc)
    have hword := Cursor.ledger_word hc (hq.not_mark hc (by rw [ht]; decide))
    refine .settle ((ih hquiet).of_ledger hword.symm) (ih' (hquiet.suffix hderTest.suffix)) hderBody
      hp choice_constructs ⟨fun _ => Node.noConfusion, fun _ => Node.noConfusion⟩
  -- the branches of a loop are those of its `else`, so they count as one body
  | loop hderSource hderBody hp ih ih' =>
    obtain ⟨ms, hms⟩ := hderBody.block_node
    have hwaits := hderBody.waits
    rw [hp, Cursor.withPending_pending] at hwaits
    refine .settle (ih hq) (ih' (hq.suffix hderSource.suffix)) hderBody hp ?_
      ⟨fun _ => Node.noConfusion, fun _ => Node.noConfusion⟩
    rw [← total_otherwise? hwaits.tail.1, List.singleton_inj.1 hms,
      loop_constructs]
  | element hder _ ih ih' => exact .element (ih hq) (ih' (hq.suffix hder.suffix))
  | parts _ ih =>
    exact ⟨(ih hq).account, fun _ => (ih hq).operands fun _ => Passage.noConfusion⟩
  | line _ hn ih => exact .node (fun _ => Passage.noConfusion) (ih hq) hn
  | more hder _ _ ih ih' => exact .append rfl (ih hq) (ih' (hq.suffix hder.suffix))
  | closing hc hend _ ih =>
    have h := (ih (hq.suffix (suffix_of_cons hc))).of_ledger (Cursor.ledger_mark hc hend).symm
    exact ⟨h.account, by simp⟩
  | @tested _ _ _ _ _ _ _ _ _ _ test _ _ _ _ _ hc ht _ _ _ _ _ _ hderTest hderBody hq' ih ih' =>
    have hquiet := hq.suffix (suffix_of_cons hc)
    have hword := Cursor.ledger_word hc (hq.not_mark hc (by rw [ht]; decide))
    have htest : Settled _ .parts _ (some test).toList _ := (ih hquiet).of_ledger hword.symm
    exact .branch htest (ih' (hquiet.suffix hderTest.suffix)) hderBody hq' rfl rfl
  | @untested _ _ _ c c₁ _ _ _ _ _ _ _ _ _ _ hc ht hp _ _ _ hp₁ _ hderTest hderBody hq' ih ih' =>
    have hquiet := hq.suffix (suffix_of_cons hc)
    have hword := Cursor.ledger_word hc (hq.not_mark hc (by rw [ht]; decide))
    -- an `else` without a test only marks the statement that waits, which the ledger does not see
    have hlast : c₁.ledger = (c₁.withPending c.pending).ledger := by
      rw [Cursor.ledger_withPending, Cursor.ledger, hp₁, hp]
      rfl
    have hclean : Quiet c₁.tokens := hquiet.suffix hderTest.suffix
    have htest : Settled _ .parts c (none : Option Node).toList c₁ :=
      ((ih hquiet).of_ledger hword.symm).to_ledger hlast
    exact .branch htest (ih' hclean) hderBody hq' rfl rfl
  | @ownEnd _ _ c₁ ns _ _ rest hder _ hc ht hu ih =>
    have haccount := (ih hq).account
    have hend := Cursor.ledger_end hc ht hu
    refine ⟨?_, fun hpsg => absurd rfl (hpsg true)⟩
    simp only [total_cons, total_nil, block_constructs, Passage.ownEnds, Bool.toNat_true] at *
    omega
  | closed _ _ ih =>
    refine ⟨?_, fun hpsg => absurd rfl (hpsg false)⟩
    rw [total_cons, total_nil, block_constructs]
    exact (ih hq).account

/-- No statement waits around a template, and so the account of the template is that of its tokens
and its constructs alone. -/
theorem Derives.account_of_template {L : Level → Level → Prop} {k : Tally} {ts : List Token}
    {ns : List Node} {c' : Cursor} (h : Derives L k .lines (Cursor.ofTokens ts) ns c')
    (hq : Quiet (Cursor.ofTokens ts).tokens)
    (hends : blockEnds (Cursor.ofTokens ts).tokens = blockEnds ts)
    (hend : c'.tokens = [] ∨ c'.ownerClosed = true) :
    blockEnds ts + k.shorts = (Node.block ns).constructs + k.extras := by
  have hpending : c'.pending = [] := h.waits.nil
  have htokens : c'.tokens = [] := hend.resolve_right (by simp [Cursor.ownerClosed, hpending])
  have hledger : c'.ledger = 0 := by
    rw [Cursor.ledger, htokens, hpending]
    rfl
  have hstart : (Cursor.ofTokens ts).ledger = blockEnds ts := by
    rw [Cursor.ledger, hends]
    rfl
  have haccount := (h.settled hq).account
  rw [hledger, hstart] at haccount
  rw [block_constructs]
  simpa [Passage.ownEnds] using haccount

/-! ## Sources -/

/-- A last token that is never the second of a pair adds none. -/
theorem pairs_concat {p : Token → Token → Bool} {u : Token} (h : ∀ t, p t u = false)
    (ts : List Token) : pairs p (ts ++ [u]) = pairs p ts := by
  induction ts with
  | nil => rfl
  | cons t ts ih =>
    cases ts with
    | nil =>
      change (p t u).toNat + 0 = 0
      rw [h]
      rfl
    | cons t' ts => exact congrArg ((p t t').toNat + ·) ih

/-- The sign of a comment is registered as one. -/
theorem Vocabulary.comment_of_sign {kind : TokenKind} (h : standard.Fits kind "#")
    (hk : kind.isWord = true) : kind = .comment := by
  rcases h with h | rfl | rfl | rfl | rfl
  · exact (Option.some.inj h).symm
  all_goals cases hk

/-- The stop in the end is left out of the account, and it is no end of a block. -/
theorem quiet_of_tokenize {source : String} {ts : List Token}
    (htok : Lexer.tokenize .standard source = .ok ts) (hstring : ∀ t ∈ ts, t.kind ≠ .string)
    (hcomment : commentStarts ts = 0) :
    Quiet (Cursor.ofTokens ts).tokens ∧ blockEnds (Cursor.ofTokens ts).tokens = blockEnds ts := by
  obtain ⟨init, stop, rfl, hstop, hfits⟩ := Lexer.fits_of_tokenizeFrom htok
  have hinit : (Cursor.ofTokens (init ++ [stop])).tokens = init :=
    Cursor.ofTokens_append_stop hfits hstop
  rw [hinit]
  refine ⟨⟨fun t ht hk => ?_, fun t ht => ?_, fun t ht hword hsign => ?_, ?_⟩, ?_⟩
  · exact Vocabulary.text_of_mark (hk ▸ hfits t ht)
  · exact hstring t (List.mem_append_left _ ht)
  · exact Vocabulary.comment_of_sign (hsign ▸ hfits t ht) hword
  · rw [← hcomment]
    exact (pairs_concat (fun t => by simp [hstop]) init).symm
  · exact (pairs_concat (fun t => by simp [Token.is, hstop]) init).symm

namespace Dialect

/-- **What becomes of the ends of a source.** In a source without strings and comments that is a
template, there are as many ends as constructs, if one adds the elements that have none and the
branches that take one too many. If there is no such element, there are as many ends as
constructs, and the strict dialect reads the same template; if there is one, the strict dialect
says that a block is not closed. -/
theorem parse_blockEnds {d : Dialect} (hd : d.grammar = .standard) {source : String}
    {ts : List Token} {n : Node} (htok : Lexer.tokenize d.grammar.vocabulary source = .ok ts)
    (hstring : ∀ t ∈ ts, t.kind ≠ .string) (hcomment : commentStarts ts = 0)
    (h : d.parseSource source = .ok n) :
    ∃ budget k ns c', n = .block ns ∧
      Derives (d.HasBudget budget) k .lines (Cursor.ofTokens ts) ns c' ∧
      blockEnds ts + k.shorts = n.constructs + k.extras ∧
      (k.shorts = 0 ∧ blockEnds ts = n.constructs ∧ d.strict.parse ts = .ok n ∨
        0 < k.shorts ∧ ∃ e : SyntaxError, e.IsUnclosed ∧ d.strict.parse ts = .error e) := by
  rw [parseSource_of_tokenize htok] at h
  obtain ⟨budget, k, ns, c', rfl, hder, hend, hstrict⟩ := derives_of_parse hd h
  rw [hd, Grammar.vocabulary_standard] at htok
  obtain ⟨hquiet, hends⟩ := quiet_of_tokenize htok hstring hcomment
  have haccount := hder.account_of_template hquiet hends hend
  refine ⟨budget, k, ns, c', rfl, hder, haccount, ?_⟩
  rcases hstrict with ⟨hcuts, hsame⟩ | ⟨hcuts, herror⟩
  · -- nothing is cut off, and so neither number is corrected
    have huncut := hder.uncut ⟨hcuts, rfl⟩
    refine Or.inl ⟨huncut.shorts, ?_, hsame⟩
    rw [huncut.shorts, huncut.extras] at haccount
    exact haccount
  · exact Or.inr ⟨Nat.lt_of_lt_of_le hcuts hder.cuts_le_shorts, herror⟩

/-- A choice of two branches, which share an end. -/
theorem parse_blockEnds_choice :
    let d : Dialect := ⟨.standard, fun _ => none, 64⟩
    let source := "@if a: x @else: y @end"
    let ts : List Token := [⟨.mark, "@", 1⟩, ⟨.keyword, "if", 1⟩, ⟨.literal, "a", 1⟩,
      ⟨.delimiter, ":", 1⟩, ⟨.literal, "x", 1⟩, ⟨.mark, "@", 1⟩, ⟨.keyword, "else", 1⟩,
      ⟨.delimiter, ":", 1⟩, ⟨.literal, "y", 1⟩, ⟨.mark, "@", 1⟩, ⟨.keyword, "end", 1⟩,
      ⟨.newline, "\n", 1⟩, ⟨.stop, "(end)", 1⟩]
    let n : Node := .block [.choice
      [.mk (some (.leaf (.name "a"))) (.block [.output .content [.text "x"]]),
        .mk none (.block [.output .content [.text "y"]])]]
    d.grammar = .standard ∧ Lexer.tokenize d.grammar.vocabulary source = .ok ts ∧
      (∀ t ∈ ts, t.kind ≠ .string) ∧ commentStarts ts = 0 ∧ d.parseSource source = .ok n ∧
      ∃ budget k ns c', n = .block ns ∧
        Derives (d.HasBudget budget) k .lines (Cursor.ofTokens ts) ns c' ∧
        blockEnds ts + k.shorts = n.constructs + k.extras ∧
        (k.shorts = 0 ∧ blockEnds ts = n.constructs ∧ d.strict.parse ts = .ok n ∨
          0 < k.shorts ∧ ∃ e : SyntaxError, e.IsUnclosed ∧ d.strict.parse ts = .error e) := by
  intro d source ts n
  have htok : Lexer.tokenize d.grammar.vocabulary source = .ok ts := by decide +kernel
  have hstring : ∀ t ∈ ts, t.kind ≠ .string := by decide
  have hcomment : commentStarts ts = 0 := rfl
  have hparse : d.parseSource source = .ok n := by
    rw [parseSource_of_tokenize htok]
    cbv
  have hd : d.grammar = .standard := rfl
  exact ⟨hd, htok, hstring, hcomment, hparse, parse_blockEnds hd htok hstring hcomment hparse⟩

/-- An `else` in the block of an element: its end closes the choice around the element, and the
element has none. -/
theorem parseSource_element_short :
    let d : Dialect := ⟨.standard, fun _ => none, 64⟩
    let source := "@if a:\n@elem div:\nx\n@else:\ny\n@end"
    ∃ ts n, Lexer.tokenize d.grammar.vocabulary source = .ok ts ∧ (∀ t ∈ ts, t.kind ≠ .string) ∧
      commentStarts ts = 0 ∧ d.parseSource source = .ok n ∧ blockEnds ts ≠ n.constructs := by
  intro d source
  obtain ⟨ts, hts⟩ : ∃ ts : List Token, ts =
    [⟨.mark, "@", 1⟩, ⟨.keyword, "if", 1⟩, ⟨.literal, "a", 1⟩, ⟨.delimiter, ":", 1⟩,
      ⟨.newline, "\n", 1⟩, ⟨.mark, "@", 2⟩, ⟨.keyword, "elem", 2⟩, ⟨.literal, "div", 2⟩,
      ⟨.delimiter, ":", 2⟩, ⟨.newline, "\n", 2⟩, ⟨.literal, "x", 3⟩, ⟨.newline, "\n", 3⟩,
      ⟨.mark, "@", 4⟩, ⟨.keyword, "else", 4⟩, ⟨.delimiter, ":", 4⟩, ⟨.newline, "\n", 4⟩,
      ⟨.literal, "y", 5⟩, ⟨.newline, "\n", 5⟩, ⟨.mark, "@", 6⟩, ⟨.keyword, "end", 6⟩,
      ⟨.newline, "\n", 6⟩, ⟨.stop, "(end)", 6⟩] := ⟨_, rfl⟩
  obtain ⟨n, hn⟩ : ∃ n : Node, n = .block [.choice
    [.mk (some (.leaf (.name "a"))) (.block
        [.element "div" [] (.block (.block [.output .content [.text "x"]]))]),
      .mk none (.block [.output .content [.text "y"]])]] := ⟨_, rfl⟩
  have htok : Lexer.tokenize d.grammar.vocabulary source = .ok ts := by
    rw [hts]
    decide +kernel
  refine ⟨ts, n, htok, ?_, ?_, ?_, ?_⟩
  · rw [hts]
    decide
  · rw [hts]
    decide
  · rw [parseSource_of_tokenize htok, hts, hn]
    cbv
  · rw [hts, hn]
    decide

end Dialect

end Stencil
