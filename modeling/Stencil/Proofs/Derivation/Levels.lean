import Stencil.Proofs.Refinement
import Stencil.Proofs.Derivation.Rules
/-!
# Levels and templates as derivations

Lines and blocks are derivations of what their levels read, and so all levels of a dialect read
derivations. A template is a derivation over all of its tokens, and the strict dialect, where no
block of an element is cut off, accepts it exactly if there are no cuts.
-/

namespace Stencil

open Reading

namespace Level.Sound

variable {L : Level → Level → Prop} {l m : Level} {k : Tally} {c c₁ c' : Cursor} {ns : List Node}
variable {t : Token} {rest : List Token}

/-- A marked statement or expression. -/
theorem marked (h : l.Sound L m) (hc : c.tokens = t :: rest) (ht : t.kind = .mark)
    (hend : c.atBlockEnd = false) :
    Follows 0 (fun k o c' => Derives L k .lines c o.toList c') (l.expression 0) (m.expression 0)
      (c.moveTo rest) := by
  refine (h.expression 0 _).mono fun k o c' ho => ?_
  cases o with
  | some n =>
    have hall := Derives.append (.mark hc hend) ho
    rw [Tally.zero_add] at hall
    exact .parts hall
  | none =>
    rcases ho with ⟨rfl, u, rest', htok, hword, htext, rfl⟩ | hbranch
    · rw [Cursor.moveTo_tokens] at htok
      exact .parts (.comment (hc.trans (by rw [htok])) ht hword htext)
    · exact .closing hc hend hbranch

theorem contentText_cursor {s : String} (h : contentText t c = .ok (s, c')) : c' = c := by
  unfold contentText at h
  cases hk : t.kind <;> simp only [hk] at h
  case number =>
    cases hn : Number.ofText? t.text.toList <;> simp only [hn] at h
    · exact absurd h failAt_ne_ok
    · exact (pure_eq_ok.1 h).2
  all_goals exact (pure_eq_ok.1 h).2

/-- The nodes of a line whose parts are collected in front. -/
def lineNodes (parts : List Part) : List Node :=
  (Node.output .content parts.reverse).children

theorem lineNodes_text {s : String} {parts : List Part} :
    lineNodes (.text s :: parts) = lineNodes parts := by
  simp [lineNodes, Node.children]

theorem lineNodes_expr {e : Node} {parts : List Part} :
    lineNodes (.expr e :: parts) = lineNodes parts ++ [e] := by
  simp [lineNodes, Node.children]

/-- What a line or a block is while its turns go on: the innermost statement has no end yet, or is
as it was. -/
def Underway (L : Level → Level → Prop) (c : Cursor) (k : Tally) (ns : List Node)
    (c' : Cursor) : Prop :=
  Derives L k .lines c ns c' ∧ (c'.ownerClosed = false ∨ c'.pending = c.pending)

/-- What a turn of a line does behind a marked part. -/
theorem part_follows {parts : List Part} (hder : Derives L k .lines c (lineNodes parts) c₁) :
    Follows k (fun k x c' => Sum.elim (fun parts => Underway L c k (lineNodes parts) c')
        (fun parts => Derives L k .lines c (lineNodes parts) c') x)
      (do
        if (← get).ownerClosed then return .inr parts
        else return .inl parts : Reading (List Part ⊕ List Part))
      (do
        if (← get).ownerClosed then return .inr parts
        else return .inl parts : Reading (List Part ⊕ List Part)) c₁ := by
  refine .get (.ite (fun _ => .pure hder) fun hclosed => .pure ⟨hder, Or.inl ?_⟩)
  simpa using hclosed

/-- A line goes on behind a part only if the statement around it has not found its end there. -/
theorem contentTurn_follows (h : l.Sound L m) {parts : List Part}
    (hder : Underway L c k (lineNodes parts) c₁) :
    Follows k (fun k x c' => Sum.elim (fun parts => Underway L c k (lineNodes parts) c')
        (fun parts => Derives L k .lines c (lineNodes parts) c') x)
      (l.contentTurn parts) (m.contentTurn parts) c₁ := by
  obtain ⟨hder, hopen⟩ := hder
  refine .get (.ite (fun _ => .pure hder) fun hstop => ?_)
  have hend : c₁.atBlockEnd = false := by
    simp only [Bool.or_eq_true, not_or, Bool.not_eq_true] at hstop
    exact hstop.2
  refine .step fun t c₂ hadv => ?_
  obtain ⟨rest, hc, rfl⟩ := advance_eq_ok.1 hadv
  refine .ite (fun hmark => ?_) fun hmark => ?_
  · refine .bind (P := fun k o c' => Derives L k .lines c (lineNodes parts ++ o.toList) c')
      ((h.marked hc (by simpa using hmark) hend).from_zero fun _ _ _ ho => hder.more hopen ho)
      fun k o c₃ _ hall => ?_
    -- a comment or a branch leaves no part
    cases o with
    | none =>
      rw [Option.toList_none, List.append_nil] at hall
      exact part_follows hall
    | some n =>
      rw [Option.toList_some, ← lineNodes_expr] at hall
      exact part_follows hall
  · refine .step fun text c₃ htext => ?_
    rw [contentText_cursor htext]
    have htoken : Derives L 0 .parts c₁ [] (c₁.moveTo rest) :=
      .token hc fun hm => hmark (by simpa using hm.1)
    have hall := hder.line_before hopen htoken
    rw [← lineNodes_text] at hall
    exact .pure ⟨hall, hopen⟩

theorem content_follows (h : l.Sound L m) (mode : OutputMode) :
    Follows 0 (fun k o c' => Derives L k .lines c o.toList c') (l.content mode)
      (m.content mode) c := by
  refine .bind (P := fun k parts c' => Derives L k .lines c (lineNodes parts) c') ?_
    fun k parts c₁ _ hder => ?_
  · exact .loop (I := fun k parts c' => Underway L c k (lineNodes parts) c')
      (fun _ _ _ hder => h.contentTurn_follows hder) ⟨.parts .nothing, Or.inr rfl⟩
  · refine .ite (fun hempty => .pure ?_) fun _ => .pure (.line hder trivial)
    rw [List.isEmpty_iff.1 hempty] at hder
    exact hder

theorem skipNewlines_derives :
    Derives L 0 .parts c [] (c.moveTo (c.tokens.dropWhile fun t => t.kind == .newline)) := by
  obtain ⟨ts, hts⟩ : ∃ ts, c.tokens = ts := ⟨_, rfl⟩
  rw [hts]
  induction ts generalizing c with
  | nil =>
    rw [List.dropWhile_nil, ← hts, Cursor.moveTo_self]
    exact .nothing
  | cons t ts ih =>
    rw [List.dropWhile_cons]
    split
    · next hk =>
      have hk : t.kind = .newline := by simpa using hk
      exact .append (.token hts fun hm => by simp [hk] at hm) (ih (c := c.moveTo ts) rfl)
    · rw [← hts, Cursor.moveTo_self]
      exact .nothing

/-- What a block is behind its last turn: it is at its own end, or the statement around it has
found its end; the block of the template is at the end of the tokens instead. -/
def Ended (L : Level → Level → Prop) (nested : Bool) (c : Cursor) (k : Tally) (children : List Node)
    (c' : Cursor) : Prop :=
  nested = true ∧ (∃ own, Derives L k (.block own) c [.block children.reverse] c') ∨
  nested = false ∧ Derives L k .lines c children.reverse c' ∧
    (c'.tokens = [] ∨ c'.ownerClosed = true)

/-- What a turn of a block does behind a statement. -/
theorem statement_follows {nested : Bool} {children : List Node} {o : Option Node}
    (hder : Derives L k .lines c (children.reverse ++ o.toList) c₁) :
    Follows k (fun k x c' => Sum.elim (fun ns => Underway L c k ns.reverse c')
        (Ended L nested c k · c') x)
      (do
        if (← get).ownerClosed then return .inr (o.toList ++ children)
        else return .inl (o.toList ++ children) : Reading (List Node ⊕ List Node))
      (do
        if (← get).ownerClosed then return .inr (o.toList ++ children)
        else return .inl (o.toList ++ children) : Reading (List Node ⊕ List Node)) c₁ := by
  have hall : Derives L k .lines c (o.toList ++ children).reverse c₁ := by
    cases o <;> simpa using hder
  refine .get (.ite (fun hclosed => .pure ?_) fun hclosed => .pure ⟨hall, Or.inl ?_⟩)
  · cases nested with
    | true => exact Or.inl ⟨rfl, false, .closed hall hclosed⟩
    | false => exact Or.inr ⟨rfl, hall, Or.inr hclosed⟩
  · simpa using hclosed

theorem blockTurn_follows (h : l.Sound L m) (nested : Bool) {children : List Node}
    (hder : Underway L c k children.reverse c₁) :
    Follows k (fun k x c' => Sum.elim (fun ns => Underway L c k ns.reverse c')
        (Ended L nested c k · c') x)
      (l.blockTurn nested children) (m.blockTurn nested children) c₁ := by
  obtain ⟨hder, hopen⟩ := hder
  refine .after skipNewlines_apply (.get ?_)
  obtain ⟨c₂, hc₂⟩ : ∃ c₂, c₂ = c₁.moveTo (c₁.tokens.dropWhile fun t => t.kind == .newline) :=
    ⟨_, rfl⟩
  have hskip : Derives L k .lines c children.reverse c₂ := by
    rw [hc₂]
    exact hder.line_before hopen skipNewlines_derives
  have hopen₂ : c₂.ownerClosed = false ∨ c₂.pending = c.pending := by
    rw [hc₂]
    exact hopen
  rw [← hc₂]
  refine .ite (fun hempty => ?_) fun _ => .ite (fun hend => ?_) fun hend => ?_
  -- only the block of the template may end with the tokens
  · refine .ite (fun _ => .fail) fun hnested => .pure ?_
    exact Or.inr ⟨by simpa using hnested, hskip, Or.inl (List.isEmpty_iff.1 hempty)⟩
  · refine .step fun t c₃ hadv => ?_
    obtain ⟨rest, hc, rfl⟩ := advance_eq_ok.1 hadv
    refine .step fun u c₄ hadv => ?_
    obtain ⟨rest', hc', rfl⟩ := advance_eq_ok.1 hadv
    rw [Cursor.moveTo_tokens] at hc'
    rw [hc'] at hc
    simp only [Cursor.atBlockEnd, hc, Bool.and_eq_true, beq_iff_eq] at hend
    -- an end on the level of the template is refused
    have hblock : Derives L k (.block true) c [.block children.reverse] (c₂.moveTo rest') :=
      .ownEnd hskip hopen₂ hc hend.1 hend.2
    exact .ite (fun hnested => .pure (Or.inl ⟨hnested, true, hblock⟩)) fun _ => .failAt
  · have hend : c₂.atBlockEnd = false := by simpa using hend
    refine .ite (fun hstat => ?_) fun _ => ?_
    · refine .step fun t c₃ hadv => ?_
      obtain ⟨rest, hc, rfl⟩ := advance_eq_ok.1 hadv
      have ht : t.kind = .mark := by
        simp only [Cursor.atStatement, hc] at hstat
        cases rest with
        | nil => simp at hstat
        | cons u rest =>
          simp only [Bool.and_eq_true, beq_iff_eq] at hstat
          exact hstat.1
      exact .bind ((h.marked hc ht hend).from_zero fun _ _ _ ho => hskip.more hopen₂ ho)
        fun k o c₄ _ ho => statement_follows ho
    · exact .bind ((h.content_follows .content).from_zero fun _ _ _ ho => hskip.more hopen₂ ho)
        fun k o c₄ _ ho => statement_follows ho

theorem blockOf_follows (h : l.Sound L m) (nested : Bool) :
    Follows 0 (fun k n c' => ∃ ns, n = .block ns ∧ Ended L nested c k ns.reverse c')
      (l.blockOf nested) (m.blockOf nested) c := by
  refine .bind (P := fun k children c' => Ended L nested c k children c') ?_
    fun k children c₁ _ hended => .pure ⟨children.reverse, rfl, ?_⟩
  · exact .loop (I := fun k ns c' => Underway L c k ns.reverse c')
      (fun _ _ _ hder => h.blockTurn_follows nested hder)
      ⟨.parts .nothing, Or.inr rfl⟩
  · rw [List.reverse_reverse]
    exact hended

end Level.Sound

namespace Dialect

variable {d : Dialect} {ts : List Token} {n : Node}

/-- The dialect where the block of an element must not be cut off. -/
def strict (d : Dialect) : Dialect :=
  { d with grammar := .strict }

/-- Whether two levels are those of a dialect and of its strict dialect, at the same depth and with
the same budget for strings in attributes. -/
def HasBudget (d : Dialect) (budget : Nat) (l m : Level) : Prop :=
  ∃ k, l = d.levels (d.attributeText budget) k ∧
    m = d.strict.levels (d.strict.attributeText budget) k

theorem attributeText_of_hasBudget {budget : Nat} {l m : Level} (h : d.HasBudget budget l m) :
    l.attributeText = d.attributeText budget ∧
      m.attributeText = d.strict.attributeText budget := by
  obtain ⟨k, rfl, rfl⟩ := h
  cases k <;> exact ⟨rfl, rfl⟩

/-- The strict rule does what the rule for elements does, or says that a block has no end. -/
theorem strictElement_upTo {l m : Level} (h : l.UpTo SyntaxError.IsUnclosed m) (t : Token) :
    UpTo SyntaxError.IsUnclosed (Statement.element l t) (Statement.strictElement m t) := by
  refine .bind (Statement.elementHeader_upTo h) fun _ => .after _ fun _ => .ite ?_ (.refl _)
  refine .after _ fun _ => .look fun _ => .bind (h.block true) fun _ => .look fun _ => ?_
  exact .refuse (fun c => ⟨⟨c.line, .unclosedBlock⟩, rfl, rfl⟩) (.refl _)

variable (hd : d.grammar = .standard)

include hd

/-- The levels of the strict dialect do what the levels of the dialect do, or say that a block has
no end, if the readers of attribute texts are so. -/
theorem levels_upTo_strict {A A' : String → Nat → Except SyntaxError Node}
    (hA : ∀ text line, A' text line = A text line ∨
      ∃ e : SyntaxError, e.IsUnclosed ∧ A' text line = .error e) (k : Nat) :
    (d.levels A k).UpTo SyntaxError.IsUnclosed (d.strict.levels A' k) :=
  have hstrict : d.strict.grammar = .standardWith Statement.strictElement := rfl
  levels_upTo_of_depth (hd.trans Grammar.standardWith_element.symm) hstrict rfl rfl
    (fun _ _ h t => strictElement_upTo h t) hA k

/-- **All readings of the levels of a standard dialect are derivations**, and the levels of the
strict dialect follow them, whatever reads the texts of attributes. -/
theorem levels_sound_of {A A' : String → Nat → Except SyntaxError Node}
    (hA : ∀ text line, A' text line = A text line ∨
      ∃ e : SyntaxError, e.IsUnclosed ∧ A' text line = .error e) (k : Nat) :
    (d.levels A k).Sound (fun l m => ∃ k, l = d.levels A k ∧ m = d.strict.levels A' k)
      (d.strict.levels A' k) := by
  have hup := levels_upTo_strict hd hA
  induction k with
  | zero =>
    exact ⟨⟨0, rfl, rfl⟩, fun _ _ => .fail, fun _ => .fail, (hup 0).attributeText, (hup 0).power,
      (hup 0).modifier?⟩
  | succ k ih =>
    refine ⟨⟨k + 1, rfl, rfl⟩, fun power c => ?_, fun c => ?_, (hup _).attributeText, (hup _).power,
      (hup _).modifier?⟩
    · rw [expression_levels_succ, expression_levels_succ, hd]
      exact Grammar.expressionOf_follows ih power
    · refine (ih.blockOf_follows true).mono ?_
      rintro k n c' ⟨ns, rfl, ⟨-, own, hblock⟩ | ⟨hnested, -⟩⟩
      · rw [List.reverse_reverse] at hblock
        exact ⟨own, hblock⟩
      · cases hnested

theorem levels_sound (budget k : Nat) :
    (d.levels (d.attributeText budget) k).Sound (d.HasBudget budget)
      (d.strict.levels (d.strict.attributeText budget) k) := by
  have hv : d.strict.grammar.vocabulary = d.grammar.vocabulary := by
    rw [show d.strict.grammar = .standardWith Statement.strictElement from rfl,
      hd.trans Grammar.standardWith_element.symm, Grammar.vocabulary_standardWith,
      Grammar.vocabulary_standardWith]
  exact levels_sound_of hd
    (attributeText_upTo hv (fun A A' hA => levels_upTo_strict hd hA _) budget) k

/-- **A template is a derivation over all of its tokens**, if it is not left early. The strict
dialect reads the same template exactly if no block is cut off. -/
theorem derives_of_parse (h : d.parse ts = .ok n) :
    ∃ budget k ns c', n = .block ns ∧
      Derives (d.HasBudget budget) k .lines (Cursor.ofTokens ts) ns c' ∧
      (c'.tokens = [] ∨ c'.ownerClosed = true) ∧
      (k.cuts = 0 ∧ d.strict.parse ts = .ok n ∨
        0 < k.cuts ∧ ∃ e : SyntaxError, e.IsUnclosed ∧ d.strict.parse ts = .error e) := by
  obtain ⟨c', hread⟩ := parse_eq_ok.1 h
  rw [top] at hread
  cases hdepth : d.maxDepth with
  | zero =>
    rw [hdepth] at hread
    exact absurd hread fail_ne_ok
  | succ j =>
    rw [hdepth] at hread
    obtain ⟨k, ⟨ns, rfl, hended⟩, hstrict⟩ :=
      (levels_sound hd (longestText ts + 1) j).blockOf_follows false n c' hread
    have hparse : d.strict.parse ts =
        ((d.strict.levels (d.strict.attributeText (longestText ts + 1)) j).blockOf false
          (Cursor.ofTokens ts)).map Prod.fst := by
      rw [parse, read, top, show d.strict.maxDepth = j + 1 from hdepth]
      rfl
    obtain ⟨hnested, -⟩ | ⟨-, hlines, hend⟩ := hended
    · cases hnested
    · rw [List.reverse_reverse] at hlines
      refine ⟨_, k, ns, c', rfl, hlines, hend, ?_⟩
      rw [hparse]
      rcases hstrict with ⟨hk, hs⟩ | ⟨hk, e, he, hs⟩
      · exact Or.inl ⟨hk, by rw [hs]; rfl⟩
      · exact Or.inr ⟨hk, e, he, by rw [hs]; rfl⟩

end Dialect

end Stencil
