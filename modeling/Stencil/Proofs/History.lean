import Mathlib
import Stencil.Proofs.Standard
/-!
# Histories of registrations

What a grammar knows of a word it knows from the registrations of this word: their greatest power,
the last rule of either sort that one of them brought, and the kind that the vocabulary had for the
word before any of them. `symbolBy` reads these off a history, and registering word by word comes to
the same (`word?_addAll`). As `symbolBy` reads the registrations of one text only, those of other
texts do not matter.
-/

namespace Stencil

namespace Grammar

/-- The grammar with words registered one after the other. -/
def addAll (g : Grammar) (rs : List Registration) : Grammar :=
  rs.foldl add g

/-- The symbol of a word by its text. -/
def word? (g : Grammar) (text : String) : Option Symbol :=
  Table.get? g.symbols text

/-- Where a history of registrations starts: in a grammar that has the words of a vocabulary and
its own registrations behind it. A bare grammar has none, whatever its vocabulary. -/
inductive Starts : Grammar → Vocabulary → List Registration → Prop
  | bare (v : Vocabulary) : Starts (ofVocabulary v) v []
  | standard : Starts standard .standard standardRegistrations

/-- The registrations of one text. -/
def registrationsOf (text : String) (rs : List Registration) : List Registration :=
  rs.filter fun r => r.text == text

/-- The last rule that was brought by a registration of a text. -/
def lastRule {α : Type} (rule : Registration → Option α) (text : String)
    (rs : List Registration) : Option α :=
  ((registrationsOf text rs).filterMap rule).getLast?

/-- The symbol of a text by the registrations of this text, first to last. -/
def symbolBy (v : Vocabulary) (text : String) (rs : List Registration) : Option Symbol :=
  if registrationsOf text rs = [] then none
  else some {
    kind := (v.kind? text).getD .keyword
    power := (registrationsOf text rs).foldl (fun power r => max power r.power)
      Vocabulary.basePower
    prefixRule := lastRule Registration.prefixRule text rs
    infixRule := lastRule Registration.infixRule text rs }

variable {g g₀ : Grammar} {v : Vocabulary} {own rs rs' : List Registration} {text : String}
  {s : Symbol}

theorem addAll_append (g : Grammar) (rs more : List Registration) :
    g.addAll (rs ++ more) = (g.addAll rs).addAll more :=
  List.foldl_append

/-- Every start is a bare grammar with some registrations behind it, so it is enough to speak of
bare ones. -/
theorem Starts.addAll_eq (h : Starts g₀ v own) (rs : List Registration) :
    g₀.addAll rs = (ofVocabulary v).addAll (own ++ rs) := by
  cases h with
  | bare => rfl
  | standard => exact (addAll_append _ _ _).symm

/-! ## One registration -/

/-- A definition holds for one text, and does not change a kind that is there. -/
theorem kind?_define (v : Vocabulary) (word : String) (kind : TokenKind) (text : String) :
    (v.define word kind).kind? text =
      if word = text then some ((v.kind? text).getD kind) else v.kind? text := by
  rw [Vocabulary.define, Table.has]
  split
  · next hhas =>
    obtain ⟨old, hold⟩ := Option.isSome_iff_exists.mp hhas
    split
    · next heq =>
      subst heq
      rw [Vocabulary.kind?, hold, Option.getD_some]
    · rfl
  · next hhas =>
    have hnone := Option.not_isSome_iff_eq_none.mp hhas
    split
    · next heq =>
      subst heq
      rw [Vocabulary.kind?, Vocabulary.kind?, Table.get?_insert_self, hnone, Option.getD_none]
    · next hne => exact Table.get?_insert_of_ne v kind hne

/-- A registration makes its text a keyword if it was no word before. -/
theorem kind?_add (g : Grammar) (r : Registration) (text : String) :
    (g.add r).vocabulary.kind? text =
      if r.text = text then some ((g.vocabulary.kind? text).getD .keyword)
      else g.vocabulary.kind? text :=
  kind?_define g.vocabulary r.text .keyword text

/-- A registration revises the symbol of its text, or a blank one if there is none. -/
theorem word?_add_self (g : Grammar) (r : Registration) :
    (g.add r).word? r.text =
      some (revise ((g.word? r.text).getD (blank ((g.vocabulary.kind? r.text).getD .keyword)))
        r.power r.prefixRule r.infixRule) := by
  have hkind : ((g.vocabulary.define r.text .keyword).kind? r.text).getD .keyword =
      (g.vocabulary.kind? r.text).getD .keyword := by
    rw [kind?_define, if_pos rfl, Option.getD_some]
  rw [word?, add, register, Table.get?_insert_self, hkind]
  rfl

theorem word?_add_of_ne (g : Grammar) {r : Registration} (h : r.text ≠ text) :
    (g.add r).word? text = g.word? text :=
  Table.get?_insert_of_ne _ _ h

/-! ## Registrations one after the other -/

/-- Of a history, only whether the text was registered matters for its kind. -/
theorem kind?_addAll (g : Grammar) (rs : List Registration) (text : String) :
    (g.addAll rs).vocabulary.kind? text =
      if registrationsOf text rs = [] then g.vocabulary.kind? text
      else some ((g.vocabulary.kind? text).getD .keyword) := by
  induction rs using List.reverseRecOn with
  | nil => rfl
  | append_singleton rs r ih =>
    rw [addAll_append, addAll, List.foldl_cons, List.foldl_nil, kind?_add, ih, registrationsOf,
      registrationsOf, List.filter_append]
    by_cases hr : r.text = text
    · simp only [hr, if_true]
      split <;> simp [hr]
    · simp [hr]

/-- An entry of the vocabulary stays, with its kind. -/
theorem kind?_addAll_of_some {kind : TokenKind} (h : g.vocabulary.kind? text = some kind)
    (rs : List Registration) : (g.addAll rs).vocabulary.kind? text = some kind := by
  rw [kind?_addAll, h, Option.getD_some, ite_self]

/-- A new registration brings the last rule if it brings any. -/
theorem lastRule_append_self {α : Type} (rule : Registration → Option α)
    (rs : List Registration) (r : Registration) :
    lastRule rule r.text (rs ++ [r]) = (rule r).or (lastRule rule r.text rs) := by
  rw [lastRule, registrationsOf, List.filter_append, List.filterMap_append,
    List.getLast?_append, List.filter_cons_of_pos (by simp), List.filter_nil]
  cases hrule : rule r <;> simp [hrule, lastRule, registrationsOf]

/-- A word that has not been registered is blank, so the first registration is like any later
one. -/
theorem getD_symbolBy (v : Vocabulary) (text : String) (rs : List Registration) :
    (symbolBy v text rs).getD (blank ((v.kind? text).getD .keyword)) = {
      kind := (v.kind? text).getD .keyword
      power := (registrationsOf text rs).foldl (fun power r => max power r.power)
        Vocabulary.basePower
      prefixRule := lastRule Registration.prefixRule text rs
      infixRule := lastRule Registration.infixRule text rs } := by
  rw [symbolBy]
  split
  · next hnone => simp [lastRule, hnone, blank]
  · rfl

/-- One more registration of a text revises what the earlier ones have made. -/
theorem symbolBy_append_self (v : Vocabulary) (rs : List Registration) (r : Registration) :
    symbolBy v r.text (rs ++ [r]) =
      some (revise ((symbolBy v r.text rs).getD (blank ((v.kind? r.text).getD .keyword)))
        r.power r.prefixRule r.infixRule) := by
  have hlast : registrationsOf r.text (rs ++ [r]) = registrationsOf r.text rs ++ [r] := by
    simp [registrationsOf]
  rw [getD_symbolBy, symbolBy, if_neg (by simp [hlast]), hlast, List.foldl_append, List.foldl_cons,
    List.foldl_nil, lastRule_append_self, lastRule_append_self]
  rfl

/-- Histories with the same registrations of a text give it the same symbol. -/
theorem symbolBy_congr (h : registrationsOf text rs = registrationsOf text rs') :
    symbolBy v text rs = symbolBy v text rs' := by
  simp only [symbolBy, lastRule, h]

/-- **Registering words one after the other keeps what `symbolBy` reads off the history.** -/
theorem word?_addAll (v : Vocabulary) (rs : List Registration) (text : String) :
    ((ofVocabulary v).addAll rs).word? text = symbolBy v text rs := by
  induction rs using List.reverseRecOn with
  | nil => rfl
  | append_singleton rs r ih =>
    rw [addAll_append, addAll, List.foldl_cons, List.foldl_nil]
    by_cases hr : r.text = text
    · subst hr
      have hkind : (((ofVocabulary v).addAll rs).vocabulary.kind? r.text).getD .keyword =
          (v.kind? r.text).getD .keyword := by
        rw [kind?_addAll]
        split
        · rfl
        · exact Option.getD_some
      rw [word?_add_self, ih, hkind, symbolBy_append_self]
    · rw [word?_add_of_ne _ hr, ih]
      refine symbolBy_congr ?_
      simp [registrationsOf, hr]

/-! ## What a symbol has from its history -/

/-- The greatest power is one of the powers and no other is greater. -/
theorem isGreatest_foldl_power {rs : List Registration} (h : rs ≠ []) :
    IsGreatest {power | ∃ r ∈ rs, r.power = power}
      (rs.foldl (fun power r => max power r.power) Vocabulary.basePower) := by
  induction rs using List.reverseRecOn with
  | nil => exact absurd rfl h
  | append_singleton rs r ih =>
    rw [List.foldl_append, List.foldl_cons, List.foldl_nil]
    have hset : {power | ∃ x ∈ rs ++ [r], x.power = power} =
        {power | ∃ x ∈ rs, x.power = power} ∪ {r.power} := by
      ext power
      simp [or_and_right, exists_or, eq_comm, or_comm]
    rw [hset]
    by_cases hrs : rs = []
    · subst hrs
      simp [Vocabulary.basePower]
    · exact (ih hrs).union isGreatest_singleton

/-- A symbol as the registrations of its text have made it: the vocabulary knew the text as `kind`
before, or not at all. -/
structure MadeBy (v : Vocabulary) (text : String) (rs : List Registration) (s : Symbol) :
    Prop where
  power : IsGreatest {power | ∃ r ∈ rs, r.text = text ∧ r.power = power} s.power
  prefixRule : s.prefixRule = lastRule Registration.prefixRule text rs
  infixRule : s.infixRule = lastRule Registration.infixRule text rs
  kind : ∀ before r after, rs = before ++ r :: after → r.text = text →
    (∀ x ∈ before, x.text ≠ text) →
    s.kind = (((ofVocabulary v).addAll before).vocabulary.kind? text).getD .keyword

/-- A text is unregistered if no registration is of it. -/
theorem registrationsOf_eq_nil_iff : registrationsOf text rs = [] ↔ ∀ r ∈ rs, r.text ≠ text := by
  simp [registrationsOf, List.filter_eq_nil_iff]

theorem isSome_symbolBy_iff : (symbolBy v text rs).isSome ↔ ∃ r ∈ rs, r.text = text := by
  rw [symbolBy]
  split
  · next hnone => simpa using registrationsOf_eq_nil_iff.mp hnone
  · next hsome => simpa [registrationsOf_eq_nil_iff] using hsome

/-- The kind of a symbol is from before the first registration of its text. -/
theorem kind_of_symbolBy (h : symbolBy v text rs = some s) :
    s.kind = (v.kind? text).getD .keyword := by
  rw [symbolBy] at h
  split at h
  · cases h
  · cases h
    rfl

/-- What is read off a history is what the history says. -/
theorem madeBy_of_symbolBy (h : symbolBy v text rs = some s) : MadeBy v text rs s := by
  have hkind := kind_of_symbolBy h
  rw [symbolBy] at h
  split at h
  · cases h
  · next hne =>
    cases h
    refine ⟨?_, rfl, rfl, fun before r after _ _ hbefore => ?_⟩
    · have hset : {power | ∃ r ∈ rs, r.text = text ∧ r.power = power} =
          {power | ∃ r ∈ registrationsOf text rs, r.power = power} := by
        simp [registrationsOf, and_assoc]
      rw [hset]
      exact isGreatest_foldl_power hne
    · rw [kind?_addAll, if_pos (registrationsOf_eq_nil_iff.mpr hbefore)]
      exact hkind

/-- The kind of a symbol is the kind of its text in the vocabulary. -/
theorem kind?_of_symbolBy (h : symbolBy v text rs = some s) :
    ((ofVocabulary v).addAll rs).vocabulary.kind? text = some s.kind := by
  have hsome : (symbolBy v text rs).isSome := by simp [h]
  have hne : registrationsOf text rs ≠ [] := by
    simpa [registrationsOf_eq_nil_iff] using isSome_symbolBy_iff.mp hsome
  rw [kind?_addAll, if_neg hne, kind_of_symbolBy h]
  rfl

/-! ## The result -/

/-- Words are registered in a bare grammar or in the standard one. A text has a symbol if and only
if it has been registered; the symbol is made by the registrations of the text, and its kind is
that of the vocabulary. Whatever is registered later, the symbol is still there and of this kind,
and so is every entry of the vocabulary; and histories with the same registrations of a text do the
same for it. -/
theorem word?_of_history (h : Starts g₀ v own) (rs : List Registration) (text : String) :
    ((∃ s, (g₀.addAll rs).word? text = some s) ↔ ∃ r ∈ own ++ rs, r.text = text) ∧
      (∀ s, (g₀.addAll rs).word? text = some s →
        MadeBy v text (own ++ rs) s ∧
        (g₀.addAll rs).vocabulary.kind? text = some s.kind ∧
        ∀ more, ∃ s', (g₀.addAll (rs ++ more)).word? text = some s' ∧ s'.kind = s.kind) ∧
      (∀ kind, (g₀.addAll rs).vocabulary.kind? text = some kind →
        ∀ more, (g₀.addAll (rs ++ more)).vocabulary.kind? text = some kind) ∧
      (∀ rs', registrationsOf text rs' = registrationsOf text rs →
        (g₀.addAll rs').word? text = (g₀.addAll rs).word? text ∧
        (g₀.addAll rs').vocabulary.kind? text = (g₀.addAll rs).vocabulary.kind? text) ∧
      ∀ t : Token, t.text = text →
        (g₀.addAll rs).symbol? t =
          if t.kind.isWord then (g₀.addAll rs).word? text else none := by
  -- everything is read off the history by `symbolBy`
  have hsymbolBy : ∀ rs, (g₀.addAll rs).word? text = symbolBy v text (own ++ rs) := fun rs => by
    rw [h.addAll_eq, word?_addAll]
  refine ⟨?_, fun s hs => ⟨?_, ?_, fun more => ?_⟩, fun kind hkind more => ?_,
    fun rs' hrs' => ⟨?_, ?_⟩, fun t ht => ?_⟩
  · rw [hsymbolBy, ← Option.isSome_iff_exists, isSome_symbolBy_iff]
  · exact madeBy_of_symbolBy (hsymbolBy rs ▸ hs)
  · rw [h.addAll_eq]
    exact kind?_of_symbolBy (hsymbolBy rs ▸ hs)
  · rw [hsymbolBy] at hs ⊢
    have hsome : (symbolBy v text (own ++ (rs ++ more))).isSome := by
      obtain ⟨r, hr, htext⟩ := isSome_symbolBy_iff.mp (Option.isSome_of_eq_some hs)
      rw [← List.append_assoc]
      exact isSome_symbolBy_iff.mpr ⟨r, List.mem_append_left more hr, htext⟩
    obtain ⟨s', hs'⟩ := Option.isSome_iff_exists.mp hsome
    exact ⟨s', hs', (kind_of_symbolBy hs').trans (kind_of_symbolBy hs).symm⟩
  · rw [addAll_append]
    exact kind?_addAll_of_some hkind more
  · rw [hsymbolBy, hsymbolBy]
    refine symbolBy_congr ?_
    rw [registrationsOf, List.filter_append, ← registrationsOf, ← registrationsOf, hrs']
    simp [registrationsOf]
  · rw [kind?_addAll, kind?_addAll, hrs']
  · split
    · next hword => rw [symbol?_eq_get? hword, ht, word?]
    · next hword => exact symbol?_of_not_isWord (by simpa using hword)

/-- A new word registered twice, the second time with a lower power and without its rule, in the
standard grammar. -/
theorem word?_of_history_include :
    let again : List Registration :=
      [⟨"include", 7, some Statement.render, none⟩, ⟨"in", 5, none, none⟩,
        ⟨"include", 3, none, none⟩]
    ∃ s, (standard.addAll again).word? "include" = some s ∧ 7 ≤ s.power ∧
      s.prefixRule.isSome ∧ (standard.addAll again).vocabulary.kind? "include" = some s.kind := by
  intro again
  obtain ⟨hiff, hmade, -⟩ := word?_of_history .standard again "include"
  have hmem : (⟨"include", 7, some Statement.render, none⟩ : Registration) ∈
      standardRegistrations ++ again :=
    List.mem_append_right _ List.mem_cons_self
  obtain ⟨s, hs⟩ := hiff.mpr ⟨_, hmem, rfl⟩
  obtain ⟨hhistory, hkind, -⟩ := hmade s hs
  refine ⟨s, hs, hhistory.power.2 ⟨_, hmem, rfl, rfl⟩, ?_, hkind⟩
  rw [hhistory.prefixRule]
  rfl

end Grammar

end Stencil
