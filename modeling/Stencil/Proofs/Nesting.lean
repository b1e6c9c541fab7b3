import Mathlib
import Stencil.Proofs.Refinement
/-!
# The limit of nesting of a dialect

The same tokens read with a lower and with a higher limit of nesting. The readers of the lower
limit are the upper levels of a higher stack, with nothing but a refusal below them. So they read
what the higher stack reads, or come to that refusal. A string in an attribute starts again with
all levels, and so it is read alike as well.
-/

namespace Stencil

namespace Dialect

variable {d : Dialect}

/-- An error says that the limit of nesting of a dialect is reached. -/
def LimitReached (d : Dialect) (e : SyntaxError) : Prop :=
  e.fault = .tooDeep d.maxDepth

/-- The dialect with another limit of nesting. -/
def withDepth (d : Dialect) (maxDepth : Nat) : Dialect :=
  { d with maxDepth }

/-- Any level of a higher stack does what the lowest one does, but for its refusal. -/
theorem levels_upTo_refusal {limit : Nat} {A A' : String → Nat → Except SyntaxError Node}
    (hA : ∀ text line, A' text line = A text line ∨
      ∃ e, d.LimitReached e ∧ A' text line = .error e) (k : Nat) :
    ((d.withDepth limit).levels A k).UpTo d.LimitReached (d.levels A' 0) := by
  have hrefusal : ∀ c : Cursor, d.LimitReached ⟨c.line, .tooDeep d.maxDepth⟩ := fun _ => rfl
  refine ⟨fun power c => ?_, fun nested c => ?_, ?_, ?_, ?_⟩
  · exact Or.inr ⟨_, hrefusal c, rfl⟩
  · exact Or.inr ⟨_, hrefusal c, rfl⟩
  · cases k <;> exact hA
  · cases k <;> rfl
  · cases k <;> rfl

/-- The levels of the lower limit are the upper ones of the higher stack. -/
theorem levels_upTo_withDepth (hd : d.grammar = .standard) {limit : Nat} (hle : d.maxDepth ≤ limit)
    {A A' : String → Nat → Except SyntaxError Node}
    (hA : ∀ text line, A' text line = A text line ∨
      ∃ e, d.LimitReached e ∧ A' text line = .error e) :
    ((d.withDepth limit).levels A limit).UpTo d.LimitReached (d.levels A' d.maxDepth) := by
  obtain ⟨extra, rfl⟩ := Nat.exists_eq_add_of_le' hle
  have hg : d.grammar = .standardWith Statement.element :=
    hd.trans Grammar.standardWith_element.symm
  exact levels_upTo (d := d.withDepth (extra + d.maxDepth)) hg hg rfl
    (fun _ _ h t => Statement.element_upTo h t) hA (levels_upTo_refusal hA extra) d.maxDepth

/-- **A higher limit of nesting changes nothing but where reading is refused for it.** A template
that is read with the lower limit is read with the higher one, to the same nodes. One that fails
for any other reason than its nesting fails in the same way, at the same line and for the same
fault, which is all that an error tells. -/
theorem parse_deepened (hd : d.grammar = .standard) {limit : Nat} (hle : d.maxDepth ≤ limit)
    (ts : List Token) :
    (∀ n, d.parse ts = .ok n → (d.withDepth limit).parse ts = .ok n) ∧
      ∀ e, d.parse ts = .error e → e.fault ≠ .tooDeep d.maxDepth →
        (d.withDepth limit).parse ts = .error e := by
  have hv : d.grammar.vocabulary = (d.withDepth limit).grammar.vocabulary := rfl
  have hup : d.parse ts = (d.withDepth limit).parse ts ∨
      ∃ e, d.LimitReached e ∧ d.parse ts = .error e :=
    parse_upTo hv (fun _ _ hA => levels_upTo_withDepth hd hle hA) ts
  rcases hup with hsame | ⟨e, he, herror⟩
  · exact ⟨fun n hn => hsame.symm.trans hn, fun e hn _ => hsame.symm.trans hn⟩
  · refine ⟨fun n hn => ?_, fun e' he' hne => ?_⟩
    · rw [herror] at hn
      cases hn
    · rw [herror, Except.error.injEq] at he'
      exact absurd (he' ▸ he) hne

set_option maxRecDepth 1000 in
/-- An attribute whose text holds an expression in brackets takes four levels and no less. So many
are enough, too, to see that a bracket is not closed. -/
theorem parse_deepened_string :
    let d : Dialect := ⟨.standard, fun _ => none, 4⟩
    let ts : List Token := [⟨.mark, "@", 1⟩, ⟨.keyword, "elem", 1⟩, ⟨.literal, "p", 1⟩,
      ⟨.literal, "id", 1⟩, ⟨.assignment, "=", 1⟩, ⟨.string, "a@(b)", 1⟩]
    let broken : List Token := [⟨.mark, "@", 1⟩, ⟨.delimiter, "(", 1⟩, ⟨.literal, "b", 1⟩]
    let parts : List Part := [.text "a", .expr (.leaf (.name "b"))]
    let n : Node := .block [.element "p" [.attribute "id" (.output .attribute parts)] .empty]
    let e : SyntaxError := ⟨1, .expected "右括号 ')'" none⟩
    d.grammar = .standard ∧ d.maxDepth ≤ 9 ∧ (d.withDepth 3).parse ts = .error ⟨1, .tooDeep 3⟩ ∧
      d.parse ts = .ok n ∧ (d.withDepth 9).parse ts = .ok n ∧ d.parse broken = .error e ∧
      e.fault ≠ .tooDeep d.maxDepth ∧ (d.withDepth 9).parse broken = .error e := by
  intro d ts broken parts n e
  have hshallow : (d.withDepth 3).parse ts = .error ⟨1, .tooDeep 3⟩ := by cbv
  have hts : d.parse ts = .ok n := by cbv
  have hbroken : d.parse broken = .error e := by cbv
  have hle : d.maxDepth ≤ 9 := by decide
  have hne : e.fault ≠ .tooDeep d.maxDepth := fun heq => by cases heq
  exact ⟨rfl, hle, hshallow, hts, (parse_deepened rfl hle ts).1 n hts, hbroken, hne,
    (parse_deepened rfl hle broken).2 e hbroken hne⟩

end Dialect

end Stencil
