import Mathlib
import Stencil.Proofs.Calls
import Stencil.Proofs.Derivation.Levels
import Stencil.Proofs.Room
/-!
# The books of a reader

Whoever reads with the rules of the standard grammar keeps two books: how deep it is, and which
statements wait for an `else`. Both are balanced. Wherever an expression, a block or a line has been
read, from whatever cursor, the depth is what it was, and the waiting statements are those that
waited before, each of its kind; only what the innermost one has gathered may be more. So a
statement that has put itself there before its block finds itself there behind it, and none is ever
lost. A template is read to its end, and leaves nothing open.
-/

namespace Stencil

/-- Whether a fault says that a statement has been lost while its block was read. -/
def SyntaxFault.isLoss : SyntaxFault → Bool
  | lostBranches | lostElseOwner | lostLoop => true
  | _ => false

/-- The same statements wait: each of its kind, and all but the innermost one as they were. -/
structure Cursor.Keeps (c c' : Cursor) : Prop where
  length : c'.pending.length = c.pending.length
  kinds : c'.pending.map Pending.kind = c.pending.map Pending.kind
  outer : c'.pending.tail = c.pending.tail

/-- A statement that has put itself on top is there behind its block, and the others below it. -/
theorem Cursor.Keeps.settle?_eq {c c' : Cursor} {kind : Compound}
    (h : (c.withPending (.new kind :: c.pending)).Keeps c') :
    ∃ s, s.kind = kind ∧ Reading.settle? c' = .ok (some s, c'.withPending c.pending) := by
  have hkinds := h.kinds
  have houter := h.outer
  cases hpending : c'.pending with
  | nil =>
    rw [hpending] at hkinds
    cases hkinds
  | cons s rest =>
    rw [hpending] at hkinds houter
    refine ⟨s, (List.cons.inj hkinds).1, ?_⟩
    rw [Reading.settle?_of_cons hpending]
    exact congrArg (fun ps => Except.ok (some s, c'.withPending ps)) houter

/-- The watch over any tokens: no error is that of a lost statement. -/
def Watch.books : Watch where
  Known _ := True
  Told _ := True
  Due e := e.fault.isLoss = false
  told _ _ := trivial
  common _ fault _ h := by
    cases fault with
    | lostBranches | lostElseOwner | lostLoop => cases h
    | _ => rfl
  number _ _ _ _ := rfl

theorem Watch.at_books (c : Cursor) : books.At ⊤ (c.pending.map Pending.kind) c :=
  ⟨ENat.natCast_lt_top _, fun _ _ => trivial, trivial, rfl⟩

/-- What a reading does to the books, wherever it ends. -/
structure Reading.Balanced {α : Type} (r : Reading α) (c : Cursor) : Prop where
  keeps : ∀ a c', r c = .ok (a, c') → c.Keeps c'
  noLoss : ∀ e, r c = .error e → e.fault.isLoss = false

theorem Reading.Steady.balanced {α : Type} {P : α → Prop} {r : Reading α} {c : Cursor}
    (h : Steady Watch.books ⊤ (c.pending.map Pending.kind) P r) : r.Balanced c := by
  have hends := h c (Watch.at_books c)
  refine ⟨fun a c' hr => ?_, fun e hr => ?_⟩
  · rw [hr] at hends
    cases hends with
    | ok hat htail _ =>
      have hlength := congrArg List.length hat.kinds
      rw [List.length_map, List.length_map] at hlength
      exact ⟨hlength, hat.kinds, htail⟩
  · rw [hr] at hends
    cases hends with
    | error hdue => exact hdue

theorem Lexer.not_isLoss_of_tokenizeFrom {v : Vocabulary} {source : String} {first : Nat}
    {e : SyntaxError} (h : tokenizeFrom v source first = .error e) : e.fault.isLoss = false := by
  obtain ⟨quote, hfault⟩ := fault_of_tokenizeFrom h
  rw [hfault]
  rfl

namespace Dialect

variable {d : Dialect} (hd : d.grammar = .standard)
include hd

theorem watched_books : d.Watched Watch.books where
  rules := hd ▸ Grammar.hasStandardRules_standard.watched _
  tokens _ _ _ _ _ _ _ _ := trivial
  lexical _ _ _ _ _ h := Lexer.not_isLoss_of_tokenizeFrom h
  deep _ _ := rfl

theorem levels_watched_books (budget n : Nat) :
    (d.levels (d.attributeText budget) n).Watched Watch.books ⊤ :=
  levels_watched (watched_books hd).rules ((watched_books hd).attributeText budget)
    (watched_books hd).deep n

/-- **Levels keep the books**, at calls and in lines. -/
theorem balanced_answer (budget n : Nat) (q : Call) (c : Cursor) :
    ((d.levels (d.attributeText budget) n).answer q).Balanced c := by
  have hlevel := levels_watched_books hd budget n
  cases q with
  | expression power => exact (hlevel.expression _ power).balanced
  | block nested => exact (hlevel.block _ nested).balanced

theorem balanced_content (budget n : Nat) (mode : OutputMode) (c : Cursor) :
    ((d.levels (d.attributeText budget) n).content mode).Balanced c :=
  Reading.Steady.balanced ((levels_watched_books hd budget n).content mode)

/-! ## The end of a template -/

/-- **A template is read to its end**, and no statement waits there. -/
theorem end_of_read {ts : List Token} {n : Node} {c' : Cursor} (h : d.read ts = .ok (n, c')) :
    c'.pending = [] ∧ c'.tokens = [] := by
  have hkeeps := (balanced_answer hd _ _ (.block false) _).keeps n c' h
  have hpending : c'.pending = [] := List.eq_nil_of_length_eq_zero hkeeps.length
  refine ⟨hpending, ?_⟩
  rw [read, top] at h
  cases hdepth : d.maxDepth with
  | zero =>
    rw [hdepth] at h
    exact absurd h Reading.fail_ne_ok
  | succ j =>
    rw [hdepth] at h
    obtain ⟨k, ⟨ns, -, hended⟩, -⟩ := (levels_sound hd _ j).blockOf_follows false n c' h
    obtain ⟨hnested, -⟩ | ⟨-, -, hend⟩ := hended
    · cases hnested
    · -- a block that is left early has a statement around it
      exact hend.resolve_right (by simp [Cursor.ownerClosed, hpending])

theorem not_isLoss_of_read {ts : List Token} {e : SyntaxError} (h : d.read ts = .error e) :
    e.fault.isLoss = false :=
  (balanced_answer hd _ _ (.block false) _).noLoss e h

end Dialect

/-! ## Where the depth is counted -/

namespace Counting

variable {α : Type} {r : Counting α} {s : Reading α} {depth : Nat} {c : Cursor}

/-- What a counted reading does to both books. -/
structure Balanced (r : Counting α) (depth : Nat) (c : Cursor) : Prop where
  keeps : ∀ a depth' c', r.run depth c = .ok ((a, depth'), c') → depth' = depth ∧ c.Keeps c'
  noLoss : ∀ e, r.run depth c = .error e → e.fault.isLoss = false

/-- A counted reading that ends at the depth where it began, and does what another reading does. -/
theorem run_apply (h : r.run depth = (fun a => (a, depth)) <$> s) (c : Cursor) :
    r.run depth c = (s c).map fun x => ((x.1, depth), x.2) := by
  rw [h]
  rcases hs : s c with e | x <;>
    simp [Functor.map, StateT.map, hs, bind, Except.bind, Except.map, pure, Except.pure]

theorem balanced_of_run_eq (h : r.run depth = (fun a => (a, depth)) <$> s) (hs : s.Balanced c) :
    r.Balanced depth c := by
  have hrun := run_apply h c
  rcases hread : s c with e | x
  · rw [hread] at hrun
    refine ⟨fun a depth' c' hr => ?_, fun e' hr => ?_⟩
    · cases hrun.symm.trans hr
    · cases hrun.symm.trans hr
      exact hs.noLoss e hread
  · rw [hread] at hrun
    refine ⟨fun a depth' c' hr => ?_, fun e' hr => ?_⟩
    · cases hrun.symm.trans hr
      exact ⟨rfl, hs.keeps _ _ hread⟩
    · cases hrun.symm.trans hr

end Counting

namespace Dialect

variable {d : Dialect}

/-- Both books of a counted reader at a depth and a cursor: they are balanced at calls and in lines,
and a statement that has put itself on top before its block takes itself from there behind it. -/
structure Programs.KeepsBooks {A : String → Nat → Except SyntaxError Node} (p : d.Programs A)
    (fuel depth : Nat) (c : Cursor) : Prop where
  calls : ∀ q, (p.answer (fuel + 1) q).Balanced depth c
  lines : ∀ mode, (p.content (fuel + 1) mode).Balanced depth c
  owner : ∀ kind body depth' c', (p.answer (fuel + 1) (.block true)).run depth
      (c.withPending (.new kind :: c.pending)) = .ok ((body, depth'), c') →
    ∃ s, s.kind = kind ∧ Reading.settle? c' = .ok (some s, c'.withPending c.pending)

/-- **Counting and waiting are balanced** at any depth that the fuel is enough for, whatever has
been read before. -/
theorem Programs.keepsBooks (hd : d.grammar = .standard) {budget : Nat}
    (p : d.Programs (d.attributeText budget)) {fuel depth : Nat} (h : d.maxDepth ≤ depth + fuel)
    (c : Cursor) : p.KeepsBooks fuel depth c := by
  have hcalls : ∀ q c, (p.answer (fuel + 1) q).Balanced depth c := fun q c =>
    Counting.balanced_of_run_eq (p.run_answer h q) (balanced_answer hd budget _ q c)
  refine ⟨fun q => hcalls q c, fun mode => ?_, fun kind body depth' c' hblock => ?_⟩
  · exact Counting.balanced_of_run_eq (p.run_content h mode) (balanced_content hd budget _ mode c)
  · exact ((hcalls (.block true) _).keeps body depth' c' hblock).2.settle?_eq

/-- The counted reader of a template is the reader of the template, and is done at depth 0. -/
theorem Programs.run_template {ts : List Token}
    (p : d.Programs (d.attributeText (longestText ts + 1))) :
    (p.answer (d.maxDepth + 1) (.block false)).run 0 (Cursor.ofTokens ts) =
      (d.read ts).map fun x => ((x.1, 0), x.2) :=
  Counting.run_apply (p.run_answer (Nat.le_add_left _ 0) (.block false)) _

/-- **The books of a reader are balanced.** The rules are programs, and the reader that runs them
with a counter for the depth, which goes up at every call and down behind it, reads what the levels
read. It keeps both books at every call and in every line, at any depth and from any cursor. The
reader of a template does the same from depth 0 to depth 0, comes to the end of its tokens with no
statement waiting, and never says that one is lost. -/
theorem counted_balanced (hd : d.grammar = .standard) :
    (∀ budget, Nonempty (d.Programs (d.attributeText budget)) ∧
      ∀ (p : d.Programs (d.attributeText budget)) (fuel depth : Nat), d.maxDepth ≤ depth + fuel →
        (∀ q, (p.answer (fuel + 1) q).run depth = (fun a => (a, depth)) <$>
          (d.levels (d.attributeText budget) (d.maxDepth - depth)).answer q) ∧
        ∀ c, p.KeepsBooks fuel depth c) ∧
    ∀ ts,
      (∀ p : d.Programs (d.attributeText (longestText ts + 1)),
        (p.answer (d.maxDepth + 1) (.block false)).run 0 (Cursor.ofTokens ts) =
          (d.read ts).map fun x => ((x.1, 0), x.2)) ∧
      (∀ n c', d.read ts = .ok (n, c') → c'.pending = [] ∧ c'.tokens = []) ∧
      ∀ e, d.read ts = .error e → e.fault.isLoss = false := by
  have hrules : d.grammar.HasStandardRules := hd ▸ Grammar.hasStandardRules_standard
  exact ⟨fun budget => ⟨nonempty_programs hrules,
      fun p _ _ h => ⟨p.run_answer h, p.keepsBooks hd h⟩⟩,
    fun ts => ⟨Programs.run_template, fun n c' => end_of_read hd, fun e => not_isLoss_of_read hd⟩⟩

/-- A choice of two branches. Its block is read at depth 2, finds the choice waiting, and leaves it
with one branch more and with its end. -/
theorem counted_balanced_choice :
    let d : Dialect := ⟨.standard, fun _ => none, 8⟩
    let block : List Token := [⟨.literal, "x", 1⟩, ⟨.mark, "@", 1⟩, ⟨.keyword, "else", 1⟩,
      ⟨.delimiter, ":", 1⟩, ⟨.literal, "y", 1⟩, ⟨.mark, "@", 1⟩, ⟨.keyword, "end", 1⟩,
      ⟨.newline, "\n", 1⟩]
    let ts : List Token := [⟨.mark, "@", 1⟩, ⟨.keyword, "if", 1⟩, ⟨.literal, "a", 1⟩,
      ⟨.delimiter, ":", 1⟩] ++ block ++ [⟨.stop, "(end)", 1⟩]
    let x : Node := .block [.output .content [.text "x"]]
    let y : Node := .block [.output .content [.text "y"]]
    let choice : Node := .choice [.mk (some (.leaf (.name "a"))) x, .mk none y]
    let waiting : Pending := ⟨.choice, [.mk none y], true, true⟩
    ∃ p : d.Programs (d.attributeText (longestText ts + 1)),
      (p.answer 9 (.block false)).run 0 (Cursor.ofTokens ts) =
        .ok ((.block [choice], 0), ⟨[], 1, []⟩) ∧
      (p.answer 7 (.block true)).run 2 ⟨block, 1, [.new .choice]⟩ =
        .ok ((x, 2), ⟨[⟨.newline, "\n", 1⟩], 1, [waiting]⟩) ∧
      ∃ s : Pending, s.kind = .choice ∧
        Reading.settle? ⟨[⟨.newline, "\n", 1⟩], 1, [waiting]⟩ =
          .ok (some s, ⟨[⟨.newline, "\n", 1⟩], 1, []⟩) := by
  intro d block ts x y choice waiting
  obtain ⟨hbooks, htemplate⟩ := counted_balanced (d := d) rfl
  obtain ⟨⟨p⟩, hcalls⟩ := hbooks (longestText ts + 1)
  have hread : d.read ts = .ok (.block [choice], ⟨[], 1, []⟩) := by cbv
  have hblock : (p.answer 7 (.block true)).run 2 ⟨block, 1, [.new .choice]⟩ =
      .ok ((x, 2), ⟨[⟨.newline, "\n", 1⟩], 1, [waiting]⟩) := by
    rw [Counting.run_apply ((hcalls p 6 2 (by decide)).1 (.block true))]
    cbv
  refine ⟨p, ?_, hblock, ?_⟩
  · rw [(htemplate ts).1 p, hread]
    rfl
  · exact ((hcalls p 6 2 (by decide)).2 ⟨block, 1, []⟩).owner .choice x 2 _ hblock

end Dialect

end Stencil
