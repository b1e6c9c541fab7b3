import Stencil.Proofs.Canonical
import Stencil.Proofs.Layout
import Stencil.Proofs.Literals
/-!
# Names with joiners in attributes

The text of an attribute is taken apart twice, as a string of its line and as a line of words, and
is put together again with blanks between its pieces. Names that are joined by single marks come
through all of this as they are, whatever else the names are words for, and so do such words behind
each other with single blanks between them. The attribute itself must have a name of its own: in
front of the sign `=` even a mark that is no word by itself can become one.
-/

namespace Stencil

open Reading

variable {cs w rest : List Char} {ws : List (List Char)} {c : Char}

/-! ## Names and joiners -/

/-- A text that is one piece and stands apart from other pieces: without characters that are words,
quotes or blanks, not of digits alone, and none of the marks that close up without being words. -/
structure IsPlainName (cs : List Char) : Prop where
  nonempty : cs ≠ []
  chars : ∀ c ∈ cs, IsNameChar c
  digits : ¬∀ c ∈ cs, c.isDigit = true
  apart : cs ≠ ['_'] ∧ cs ≠ [';']

/-- Whether a text is a plain name can be computed. -/
theorem isPlainName_iff : IsPlainName cs ↔ cs ≠ [] ∧ cs.all (fun c => IsNameChar c) = true ∧
    cs.all Char.isDigit = false ∧ cs ≠ ['_'] ∧ cs ≠ [';'] := by
  simp only [← Bool.not_eq_true, List.all_eq_true, decide_eq_true_eq]
  exact ⟨fun h => ⟨h.1, h.2, h.3, h.4⟩, fun h => ⟨h.1, h.2.1, h.2.2.1, h.2.2.2⟩⟩

instance (cs : List Char) : Decidable (IsPlainName cs) :=
  decidable_of_iff _ isPlainName_iff.symm

/-- The marks that join names. -/
def joiners : List Char := ['-', ':', '.']

/-- A word of names with single joiners between them. -/
inductive IsJoined : List Char → Prop
  | name {cs : List Char} (h : IsPlainName cs) : IsJoined cs
  | join {cs rest : List Char} {c : Char} (h : IsPlainName cs) (hc : c ∈ joiners)
      (hrest : IsJoined rest) : IsJoined (cs ++ c :: rest)

/-- A text of such words with single blanks between them, or the empty one. -/
def IsVerbatim (cs : List Char) : Prop :=
  ∃ ws : List (List Char), (∀ w ∈ ws, IsJoined w) ∧ cs = [' '].intercalate ws

namespace IsPlainName

/-- A name is no numeral. -/
theorem exists_not_digit (h : IsPlainName cs) : ∃ c ∈ cs, c.isDigit = false := by
  by_contra hall
  exact h.digits fun c hc => by
    by_contra hdigit
    exact hall ⟨c, hc, Bool.not_eq_true _ ▸ hdigit⟩

/-- Nor is any word that it is a part of. -/
theorem not_isNumeral (h : IsPlainName cs) (hsub : cs ⊆ w) : Lexer.isNumeral w = false := by
  obtain ⟨c, hc, hdigit⟩ := h.exists_not_digit
  refine Lexer.not_isNumeral_of_mem (hsub hc) hdigit ?_
  rintro rfl
  have hinner := (h.chars '.' hc).1
  rw [Lexer.charKind?_point] at hinner
  cases hinner

/-- A name is none of the marks without blanks beside them. -/
theorem not_mem_marks (h : IsPlainName cs) : String.ofList cs ∉ opensUp ++ closesUp := by
  have hmarks : ∀ s ∈ opensUp ++ closesUp, s.toList = ['_'] ∨ s.toList = [';'] ∨
      s.toList.any fun c => (Vocabulary.standard.charKind? c).isSome := by decide
  intro hmem
  have hcs := hmarks _ hmem
  rw [String.toList_ofList] at hcs
  rw [List.any_eq_true] at hcs
  rcases hcs with rfl | rfl | ⟨c, hc, hword⟩
  · exact h.apart.1 rfl
  · exact h.apart.2 rfl
  · rw [(h.chars c hc).1] at hword
    cases hword

end IsPlainName

namespace IsJoined

/-- The characters of a word are those of names, and joiners. -/
theorem mem (h : IsJoined w) : ∀ c ∈ w, IsNameChar c ∨ c ∈ joiners := by
  induction h with
  | name h => exact fun c hc => .inl (h.chars c hc)
  | @join cs rest c h hc _ ih =>
    intro d hd
    rcases List.mem_append.1 hd with hd | hd
    · exact .inl (h.chars d hd)
    · rcases List.mem_cons.1 hd with rfl | hd
      · exact .inr hc
      · exact ih d hd

/-- A word of names has characters. -/
theorem ne_nil (h : IsJoined w) : w ≠ [] := by
  cases h with
  | name h => exact h.nonempty
  | join => exact List.append_ne_nil_of_right_ne_nil _ (List.cons_ne_nil _ _)

/-- A word ends in a name. -/
theorem getLast? (h : IsJoined w) : ∀ c ∈ w.getLast?, IsNameChar c := by
  induction h with
  | name h => exact fun c hc => h.chars c (List.mem_of_getLast? hc)
  | @join cs rest c _ _ hrest ih =>
    rw [List.getLast?_append_cons, List.getLast?_cons_of_ne_nil hrest.ne_nil]
    exact ih

end IsJoined

/-! ## The pieces of a word -/

/-- Only numbers are shown in another form than they are written in. -/
theorem Token.shown_of_ne {t : Token} (h : t.kind ≠ .number) : t.shown = t.text := by
  rw [shown]
  split
  · next hkind => exact absurd hkind h
  · rfl

namespace Lexer

/-- The words of the language of more than one character have no joiners. -/
theorem kind?_eq_none_of_joiner (hc : c ∈ joiners) (hmem : c ∈ cs) (hlen : 1 < cs.length) :
    Vocabulary.standard.kind? (String.ofList cs) = none := by
  have hwords : ∀ e ∈ Vocabulary.standard, 1 < e.1.toList.length →
      (joiners.all fun c => !e.1.toList.contains c) = true := by decide
  rw [Vocabulary.kind?, Option.eq_none_iff_forall_not_mem]
  intro kind hkind
  have hnot := List.all_eq_true.1 (hwords _ (Table.mem_of_get? hkind) (by simpa using hlen)) c hc
  simp [hmem] at hnot

/-- The texts of the pieces of a word. -/
def shown (w : List Char) : List String :=
  (word .standard w).map fun x => (tokenAt 1 x).shown

/-- A name is one piece, whatever else it is a word for. -/
theorem shown_name (h : IsPlainName cs) : shown cs = [String.ofList cs] := by
  cases hword : Vocabulary.standard.kind? (String.ofList cs) with
  | none =>
    rw [shown, word_of_forall h.nonempty (fun c hc => (h.chars c hc).1) hword
      (h.not_isNumeral (List.Subset.refl _))]
    rfl
  -- as a word of the language it is no number
  | some kind =>
    have hwords : ∀ e ∈ Vocabulary.standard, e.2 ≠ .number := by decide
    rw [shown, word_of_kind? h.nonempty hword, List.map_singleton,
      Token.shown_of_ne (hwords _ (Table.mem_of_get? hword))]
    rfl

/-- A joiner is a piece of its own, and cuts the names apart. -/
theorem shown_join (h : IsPlainName cs) (hc : c ∈ joiners) (hrest : IsJoined rest) :
    shown (cs ++ c :: rest) = String.ofList cs :: String.ofList [c] :: shown rest := by
  obtain ⟨kind, hkind, hnumber⟩ : ∃ kind, Vocabulary.standard.charKind? c = some kind ∧
      kind ≠ .number := by
    simp only [joiners, List.mem_cons, List.not_mem_nil, or_false] at hc
    rcases hc with rfl | rfl | rfl
    · exact ⟨.arithmetic, rfl, nofun⟩
    · exact ⟨.delimiter, rfl, nofun⟩
    · exact ⟨.delimiter, rfl, nofun⟩
  have hlen : 1 < (cs ++ c :: rest).length := by
    have hpos := List.length_pos_of_ne_nil h.nonempty
    rw [List.length_append, List.length_cons]
    omega
  have hword := word_append_cons h.nonempty (fun c hc => (h.chars c hc).1) hkind
    (kind?_eq_none_of_joiner hc (List.mem_append_right _ List.mem_cons_self) hlen)
    (h.not_isNumeral (List.subset_append_left _ _)) fun e he => ?_
  · have hmark : (tokenAt 1 (kind, [c])).shown = String.ofList [c] := Token.shown_of_ne hnumber
    rw [shown, hword, List.map_cons, List.map_cons, hmark]
    rfl
  · exact ((IsJoined.join h hc hrest).getLast? e he).1

end Lexer

/-! ## Putting the pieces together -/

namespace OutputMode

/-- Two pieces are put together with a blank between them, unless one of them closes up. -/
theorem join_cons {mode : OutputMode} {t : String} {ts : List String} (h : ts ≠ []) :
    mode.join (t :: ts) = t ++ (if mode.spaced t (ts.head h) then " " else "") ++ mode.join ts := by
  obtain ⟨u, us, rfl⟩ := List.exists_cons_of_ne_nil h
  rw [join, List.head_cons]

end OutputMode

open Lexer

/-- A word of names shows something. -/
theorem IsJoined.shown_ne_nil (h : IsJoined w) : shown w ≠ [] := by
  cases h with
  | name h => rw [shown_name h]; exact List.cons_ne_nil _ _
  | join h hc hrest => rw [shown_join h hc hrest]; exact List.cons_ne_nil _ _

/-- The first piece of a word is a name. -/
theorem IsJoined.head?_shown (h : IsJoined w) : ∀ t ∈ (shown w).head?, t ∉ closesUp := by
  have hname : ∀ {cs}, IsPlainName cs → String.ofList cs ∉ closesUp := fun h hmem =>
    h.not_mem_marks (List.mem_append_right _ hmem)
  cases h with
  | name h =>
    rw [shown_name h]
    rintro t ⟨⟩
    exact hname h
  | join h hc hrest =>
    rw [shown_join h hc hrest]
    rintro t ⟨⟩
    exact hname h

/-- Which pieces close up is told by two lists of signs. -/
theorem spaced_eq_false_iff {before after : String} :
    OutputMode.attribute.spaced before after = false ↔ before ∈ opensUp ∨ after ∈ closesUp := by
  rw [OutputMode.spaced, Bool.and_eq_false_iff, Bool.not_eq_false', Bool.not_eq_false',
    List.contains_iff_mem, List.contains_iff_mem]

/-- A word is put together from its pieces, with a blank behind it if there is more. -/
theorem IsJoined.join_shown (h : IsJoined w) {ts : List String}
    (hts : ∀ t ∈ ts.head?, t ∉ closesUp) : OutputMode.attribute.join (shown w ++ ts) =
      String.ofList w ++ if ts = [] then "" else " " ++ OutputMode.attribute.join ts := by
  induction h with
  | @name cs h =>
    rw [shown_name h, List.singleton_append]
    by_cases hnil : ts = []
    · rw [hnil, if_pos rfl, String.append_empty]
      rfl
    · have hspaced : OutputMode.attribute.spaced (String.ofList cs) (ts.head hnil) = true := by
        rw [← Bool.not_eq_false, spaced_eq_false_iff, not_or]
        exact ⟨fun hmem => h.not_mem_marks (List.mem_append_left _ hmem),
          hts _ (List.head?_eq_some_head hnil)⟩
      rw [if_neg hnil, OutputMode.join_cons hnil, hspaced, if_pos rfl, String.append_assoc]
  | @join cs rest c h hc hrest ih =>
    have hmark : String.ofList [c] ∈ opensUp ∧ String.ofList [c] ∈ closesUp := by
      simp only [joiners, List.mem_cons, List.not_mem_nil, or_false] at hc
      rcases hc with rfl | rfl | rfl <;> decide
    have hne : shown rest ++ ts ≠ [] := List.append_ne_nil_of_left_ne_nil hrest.shown_ne_nil _
    rw [shown_join h hc hrest, List.cons_append, List.cons_append,
      OutputMode.join_cons (List.cons_ne_nil _ _), OutputMode.join_cons hne, ih, List.head_cons,
      spaced_eq_false_iff.2 (.inr hmark.2), spaced_eq_false_iff.2 (.inl hmark.1)]
    simp only [Bool.false_eq_true, if_false, String.append_empty, ← String.append_assoc,
      ← String.ofList_append]
    rw [List.singleton_append]

/-- **Words of names and joiners are put together as they were.** -/
theorem join_flatMap_shown (h : ∀ w ∈ ws, IsJoined w) :
    OutputMode.attribute.join (ws.flatMap shown) = String.ofList ([' '].intercalate ws) := by
  induction ws with
  | nil => rfl
  | cons w ws ih =>
    obtain ⟨hw, hws⟩ := List.forall_mem_cons.1 h
    cases ws with
    | nil =>
      have hword : OutputMode.attribute.join (shown w ++ []) = String.ofList w ++ "" :=
        hw.join_shown nofun
      rw [List.append_nil, String.append_empty] at hword
      rw [List.flatMap_singleton, List.intercalate_singleton, hword]
    | cons u us =>
      have hu := hws u List.mem_cons_self
      have hne : (u :: us).flatMap shown ≠ [] := by
        rw [List.flatMap_cons]
        exact List.append_ne_nil_of_left_ne_nil hu.shown_ne_nil _
      have hhead : ∀ t ∈ ((u :: us).flatMap shown).head?, t ∉ closesUp := by
        rw [List.flatMap_cons, List.head?_append_of_ne_nil _ hu.shown_ne_nil]
        exact hu.head?_shown
      rw [List.flatMap_cons, hw.join_shown hhead, if_neg hne, ih hws, List.intercalate_cons_cons,
        List.append_assoc, String.ofList_append, String.ofList_append]

/-! ## Reading the text -/

/-- Words of names and joiners are whole words of a line, without marks. -/
theorem IsJoined.isSolid (h : IsJoined w) : (∀ c ∈ w, IsSolid c) ∧ '@' ∉ w := by
  have hmem : ∀ c ∈ w, IsSolid c ∧ c ≠ '@' := by
    intro c hc
    rcases h.mem c hc with hname | hjoiner
    · refine ⟨hname.2, ?_⟩
      rintro rfl
      have hinner := hname.1
      rw [charKind?_mark] at hinner
      cases hinner
    · simp only [joiners, List.mem_cons, List.not_mem_nil, or_false] at hjoiner
      rcases hjoiner with rfl | rfl | rfl <;> decide
  exact ⟨fun c hc => (hmem c hc).1, fun hc => (hmem _ hc).2 rfl⟩

/-- The tokens of a text of such words are the pieces of the words. -/
theorem tokenizeFrom_words (hne : ws ≠ []) (h : ∀ w ∈ ws, IsJoined w) (line : Nat) :
    tokenizeFrom .standard (String.ofList ([' '].intercalate ws)) line =
      .ok ((ws.flatMap (word .standard)).map (tokenAt line) ++
        [⟨.newline, "\n", line⟩, ⟨.stop, "(end)", line⟩]) := by
  have hsolid : ∀ c ∈ ws.flatten, IsSolid c := fun c hc => by
    obtain ⟨w, hw, hin⟩ := List.mem_flatten.1 hc
    exact (h w hw).isSolid.1 c hin
  refine tokenizeFrom_intercalate hne (fun w hw => (h w hw).ne_nil) (fun c hc => ?_)
    (fun c hc => (hsolid c (List.mem_of_head? hc)).2.2)
    (fun c hc => (hsolid c (List.mem_of_getLast? hc)).2.2) line
  obtain ⟨hquote, hcontrol, -⟩ := hsolid c hc
  exact ⟨(hsolid c hc).ne.1, (hsolid c hc).ne.2, hquote, hcontrol⟩

/-- Words of names are texts in a line, with no mark among them. -/
theorem isText_of_mem_words (h : ∀ w ∈ ws, IsJoined w) (line : Nat) :
    ∀ t ∈ (ws.flatMap (word .standard)).map (tokenAt line), t.IsText := by
  intro t ht
  obtain ⟨x, hx, rfl⟩ := List.mem_map.1 ht
  obtain ⟨w, hw, hx⟩ := List.mem_flatMap.1 hx
  exact (isPiece_of_mem_word hx).isText (h w hw).isSolid.2 line

/-- What the tokens show is what the words show. -/
theorem map_shown_words (ws : List (List Char)) (line : Nat) :
    ((ws.flatMap (word .standard)).map (tokenAt line)).map Token.shown = ws.flatMap shown := by
  rw [List.map_map, List.map_flatMap]
  rfl

/-- A line of texts is an output of these texts. -/
theorem Level.content_texts {l : Level} {mode : OutputMode} {c : Cursor} {ts behind : List Token}
    {u : Token} (hne : ts ≠ []) (htext : ∀ t ∈ ts, t.IsText) (hu : u.kind = .newline)
    (hc : c.tokens = ts ++ u :: behind) : l.content mode c =
      .ok (some (.output mode (ts.map fun t => .text t.shown)), c.moveTo (u :: behind)) := by
  have hsome : (ts.map fun t => Part.text t.shown).isEmpty = false := by
    rw [List.isEmpty_eq_false_iff, Ne, List.map_eq_nil_iff]
    exact hne
  rw [content, bind_of_ok (loop_contentTurn_text htext hu hc [])]
  simp only [List.append_nil, List.isEmpty_reverse, List.reverse_reverse, hsome,
    Bool.false_eq_true, if_false]
  rfl

namespace Dialect

variable {d : Dialect} {A : String → Nat → Except SyntaxError Node} {k line : Nat}

/-- The value of an attribute whose text consists of such words has their pieces as its parts. -/
theorem reread_words (hd : d.grammar = .standard) (h : ∀ w ∈ ws, IsJoined w) :
    d.reread A (String.ofList ([' '].intercalate ws)) line =
      .ok (.output .attribute ((ws.flatMap shown).map Part.text)) := by
  rw [reread_eq_ok, hd, Grammar.vocabulary_standard]
  by_cases hne : ws = []
  · subst hne
    exact ⟨_, none, _, rfl, rfl, rfl⟩
  obtain ⟨here, hhere⟩ : ∃ here, here = (ws.flatMap (word .standard)).map (tokenAt line) := ⟨_, rfl⟩
  have htokenize := tokenizeFrom_words hne h line
  rw [← hhere, List.append_cons] at htokenize
  obtain ⟨init, stop, hinit, hstop, hfits⟩ := fits_of_tokenizeFrom htokenize
  obtain ⟨rfl, hlast⟩ := List.append_inj' hinit rfl
  have htokens := Cursor.ofTokens_append_stop hfits hstop
  rw [← hinit] at htokens
  have htext : ∀ t ∈ here, t.IsText := hhere ▸ isText_of_mem_words h line
  have hparts : here.map (fun t => Part.text t.shown) = (ws.flatMap shown).map Part.text := by
    rw [← map_shown_words ws line, ← hhere, List.map_map]
    rfl
  have hhereNe : here ≠ [] := by
    obtain ⟨w, us, rfl⟩ := List.exists_cons_of_ne_nil hne
    rw [hhere, Ne, List.map_eq_nil_iff, List.flatMap_cons]
    exact List.append_ne_nil_of_left_ne_nil (word_ne_nil (h w List.mem_cons_self).ne_nil) _
  refine ⟨_, _, _, htokenize, Level.content_texts hhereNe htext rfl htokens, ?_⟩
  rw [hparts]
  rfl

section

variable {c : Cursor} {n text : String} {value : Node} {behind : List Token}

/-- A name, the sign `=` and a string are an attribute. -/
theorem expression_attribute (hd : d.grammar = .standard) (hvalue : A text line = .ok value)
    (hc : c.tokens = ⟨.literal, n, line⟩ :: ⟨.assignment, "=", line⟩ :: ⟨.string, text, line⟩ ::
      .lineEnd line :: behind) :
    (d.levels A (k + 2)).expression 0 c =
      .ok (some (.attribute n value), c.moveTo (.lineEnd line :: behind)) := by
  have hs : Grammar.standard.symbol? ⟨.assignment, "=", line⟩ =
      some ⟨.assignment, 10, none, some Operation.attributePair⟩ := Grammar.symbol?_standard rfl
  have hpower : Grammar.standard.power ⟨.assignment, "=", line⟩ = 10 :=
    Grammar.power_of_symbol? hs
  have hstops : Grammar.standard.Stops 0 (.lineEnd line :: behind) :=
    Grammar.stops_cons.2 (.inl rfl)
  have hstring : (d.levels A (k + 1)).require 0 "属性值"
      (c.moveTo (⟨.string, text, line⟩ :: .lineEnd line :: behind)) =
        .ok (.leaf (.string text), c.moveTo (.lineEnd line :: behind)) := by
    refine Level.require_of_ok ?_
    rw [expression_levels_succ, Grammar.expressionOf_of_start rfl
      (Grammar.start_leaf (Grammar.symbol?_of_not_isWord rfl) rfl), hd]
    exact Grammar.extend_stop hstops
  rw [expression_levels_succ, Grammar.expressionOf_of_start hc
    (Grammar.start_leaf (Grammar.symbol?_of_not_isWord rfl) rfl), hd]
  refine Grammar.extend_next rfl TokenKind.noConfusion (by rw [hpower]; decide) ?_ ?_
    (Grammar.extend_stop hstops)
  · rw [Grammar.extend_of_symbol? hs rfl, Operation.attributePair]
    simp only [Node.label?]
    rw [Cursor.moveTo_moveTo, bind_of_ok hstring, attributeText_levels]
    simp only [hvalue]
    rfl
  · simp

/-- The tag of an element and one attribute. -/
theorem elementHeader_attribute (hd : d.grammar = .standard) (hvalue : A text line = .ok value)
    (hc : c.tokens = ⟨.literal, "p", line⟩ :: ⟨.literal, n, line⟩ :: ⟨.assignment, "=", line⟩ ::
      ⟨.string, text, line⟩ :: .lineEnd line :: behind) :
    Statement.elementHeader (d.levels A (k + 2)) c =
      .ok (("p", [.attribute n value]), c.moveTo (.lineEnd line :: behind)) := by
  -- the level and the tokens behind the tag get names, so that they are not unfolded
  obtain ⟨l, hl⟩ : ∃ l, l = d.levels A (k + 2) := ⟨_, rfl⟩
  obtain ⟨words, hwords⟩ : ∃ words : List Token, words = ⟨.literal, n, line⟩ ::
      ⟨.assignment, "=", line⟩ :: ⟨.string, text, line⟩ :: .lineEnd line :: behind := ⟨_, rfl⟩
  rw [← hwords] at hc
  have htag : l.require 0 "元素名" c = .ok (.leaf (.name "p"), c.moveTo words) := by
    refine Level.require_of_ok ?_
    rw [hl, expression_levels_succ, Grammar.expressionOf_of_start hc
      (Grammar.start_leaf (Grammar.symbol?_of_not_isWord rfl) rfl), hd]
    refine Grammar.extend_stop ?_
    rw [Cursor.moveTo_tokens, hwords]
    exact Grammar.stops_cons.2 (.inr le_rfl)
  have hattribute : l.require 0 "元素修饰" (c.moveTo words) =
      .ok (.attribute n value, (c.moveTo words).moveTo (.lineEnd line :: behind)) := by
    rw [hl]
    exact Level.require_of_ok (expression_attribute hd hvalue hwords)
  -- one turn reads the attribute, the next one sees the end of the line
  have hturn : Statement.modifierTurn l [] (c.moveTo words) =
      .ok (.inl [.attribute n value], c.moveTo (.lineEnd line :: behind)) := by
    have hgoes : ((c.moveTo words).atLineEnd || (c.moveTo words).at? .delimiter ":" ||
        (c.moveTo words).atBlockEnd) = false := by
      rw [hwords]
      rfl
    rw [Statement.modifierTurn, get_bind_apply]
    simp only [hgoes, Bool.false_eq_true, if_false]
    rw [bind_of_ok hattribute]
    rfl
  have hdone : Statement.modifierTurn l [.attribute n value] (c.moveTo (.lineEnd line :: behind)) =
      .ok (.inr [.attribute n value], c.moveTo (.lineEnd line :: behind)) := by
    rw [Statement.modifierTurn, get_bind_apply]
    rfl
  have hloop : Reading.loop (Statement.modifierTurn l) [] (c.moveTo words) =
      .ok ([.attribute n value], c.moveTo (.lineEnd line :: behind)) := by
    refine loop_next hturn ?_ (loop_stop hdone)
    rw [Cursor.moveTo_tokens, Cursor.moveTo_tokens, hwords]
    simp
  rw [← hl, Statement.elementHeader, get_bind_apply, bind_of_ok htag]
  simp only [Node.label?]
  rw [bind_of_ok hloop]
  rfl

/-- An element with one attribute in its line. -/
theorem expression_element (hd : d.grammar = .standard) (hvalue : A text line = .ok value)
    (hc : c.tokens = ⟨.keyword, "elem", line⟩ :: ⟨.literal, "p", line⟩ :: ⟨.literal, n, line⟩ ::
      ⟨.assignment, "=", line⟩ :: ⟨.string, text, line⟩ :: .lineEnd line :: behind) :
    (d.levels A (k + 3)).expression 0 c =
      .ok (some (.element "p" [.attribute n value] .empty),
        c.moveTo (.lineEnd line :: behind)) := by
  have hs : Grammar.standard.symbol? ⟨.keyword, "elem", line⟩ =
      some ⟨.keyword, 0, some Statement.element, none⟩ := Grammar.symbol?_standard rfl
  rw [expression_levels_succ, Grammar.expressionOf_of_start hc ?_, hd]
  · exact Grammar.extend_stop (Grammar.stops_cons.2 (.inl rfl))
  · rw [hd, Grammar.start_of_symbol? hs rfl, Statement.element,
      bind_of_ok (elementHeader_attribute hd hvalue rfl)]
    rfl

end

/-- The tokens of a line with an element and one attribute, which is written as a string. -/
def attributeTokens (line : Nat) (n text : String) : List Token :=
  [⟨.mark, "@", line⟩, ⟨.keyword, "elem", line⟩, ⟨.literal, "p", line⟩, ⟨.literal, n, line⟩,
    ⟨.assignment, "=", line⟩, ⟨.string, text, line⟩, .lineEnd line]

/-- The line is read as an element with one attribute, whose value is read again from its text. -/
theorem parse_attributeTokens (hd : d.grammar = .standard) (hdepth : 4 ≤ d.maxDepth)
    {n text : String} {value : Node} (hvalue : ∀ A, d.reread A text line = .ok value) :
    d.parse (close line (attributeTokens line n text)) =
      .ok (.block [.element "p" [.attribute n value] .empty]) := by
  obtain ⟨k, hk⟩ : ∃ k, d.maxDepth = k + 3 + 1 := ⟨d.maxDepth - 4, by omega⟩
  have hword : (⟨.keyword, "elem", line⟩ : Token).text ≠ "end" := by
    change "elem" ≠ "end"
    decide
  exact parse_of_statement rfl rfl hword hk
    (expression_element hd (attributeText_succ.trans (hvalue _)) rfl) rfl rfl

end Dialect

/-! ## The line with the text -/

/-- A line with an element and one attribute. -/
def attributeLine (n text : String) : String :=
  "@elem p " ++ n ++ "=\"" ++ text ++ "\""

/-- The template of a line with an element and one attribute. -/
def attributePage (n : String) (texts : List String) : Node :=
  .block [.element "p" [.attribute n (.output .attribute (texts.map Part.text))] .empty]

namespace Lexer

variable {n text : String} {line : Nat}

/-- The words of such a line in front of its text. -/
def attributeWords (n : String) : List (List Char) :=
  ["@elem".toList, ['p'], n.toList ++ ['=']]

/-- The line is its words, and then the text between quotes. -/
theorem toList_attributeLine (n text : String) : (attributeLine n text).toList =
    [' '].intercalate (attributeWords n) ++ '"' :: (text.toList ++ ['"']) := by
  simp [attributeLine, attributeWords, List.intercalate]

/-- The words in front of the text have no blanks and no quotes. -/
theorem isSolid_attributeWords (hn : IsPlainName n.toList) :
    ∀ part ∈ attributeWords n, part ≠ [] ∧ ∀ c ∈ part, IsSolid c := by
  refine List.forall_mem_cons.2 ⟨⟨List.cons_ne_nil _ _, List.all_iff_forall_prop.1 rfl⟩,
    List.forall_mem_cons.2 ⟨⟨List.cons_ne_nil _ _, List.all_iff_forall_prop.1 rfl⟩,
      List.forall_mem_singleton.2 ⟨List.append_ne_nil_of_left_ne_nil hn.nonempty _,
        List.forall_mem_append.2 ⟨fun c hc => (hn.chars c hc).2, ?_⟩⟩⟩⟩
  exact List.forall_mem_singleton.2 (by decide)

/-- The name of an attribute is cut off from the sign behind it, unless they are a word. -/
theorem word_attributeName (hn : IsPlainName n.toList) (hword : Vocabulary.standard.kind? n = none)
    (hbang : n ≠ "!") :
    word .standard (n.toList ++ ['=']) = [(.literal, n.toList), (.assignment, ['='])] := by
  have hnumeral : isNumeral (n.toList ++ ['=']) = false :=
    hn.not_isNumeral (List.subset_append_left _ _)
  have hname : word .standard n.toList = [(.literal, n.toList)] := by
    refine word_of_forall hn.nonempty (fun c hc => (hn.chars c hc).1) ?_
      (hn.not_isNumeral (List.Subset.refl _))
    rw [String.ofList_toList]
    exact hword
  -- no word of the vocabulary is a plain name with this sign behind it
  have hsign : Vocabulary.standard.kind? (String.ofList (n.toList ++ ['='])) = none := by
    have hwords : ∀ e ∈ Vocabulary.standard, e.1.toList.getLast? = some '=' →
        e.1.toList.dropLast = [] ∨ e.1.toList.dropLast = ['!'] ∨
          e.1.toList.dropLast.any fun c => (Vocabulary.standard.charKind? c).isSome := by decide
    rw [Vocabulary.kind?, Option.eq_none_iff_forall_not_mem]
    intro kind hkind
    have hfront := hwords _ (Table.mem_of_get? hkind)
    simp only [String.toList_ofList, List.getLast?_concat, List.dropLast_concat, true_imp_iff,
      List.any_eq_true] at hfront
    rcases hfront with hnil | hmark | ⟨c, hc, hsome⟩
    · exact hn.nonempty hnil
    · exact hbang (String.toList_inj.1 hmark)
    · rw [(hn.chars c hc).1] at hsome
      cases hsome
  have hassign : Vocabulary.standard.charKind? '=' = some .assignment := by decide
  rw [word_concat hsign hnumeral hassign, hname]
  rfl

section

variable {v : Vocabulary} {parts : List (List Char)} {text : List Char} {number : Nat}

/-- Words without quotes have none when they are put together. -/
theorem unquoted_intercalate (hparts : ∀ part ∈ parts, part ≠ [] ∧ ∀ c ∈ part, IsSolid c) :
    ∀ c ∈ [' '].intercalate parts, isQuote c = false ∧ isControl c = false := by
  intro c hc
  rcases mem_intercalate hc with rfl | ⟨part, hpart, hin⟩
  · decide
  · have hsolid := (hparts part hpart).2 c hin
    exact ⟨hsolid.1, hsolid.2.1⟩

/-- Words and a string behind them are clean: the line ends in a quote, and its first character is
one of a word or a quote. -/
theorem clean_of_quoted (hparts : ∀ part ∈ parts, part ≠ [] ∧ ∀ c ∈ part, IsSolid c)
    (htext : ∀ c ∈ text, isControl c = false) :
    clean ([' '].intercalate parts ++ '"' :: (text ++ ['"'])) =
      [' '].intercalate parts ++ '"' :: (text ++ ['"']) := by
  refine clean_eq_self (fun c hc => ?_) (fun c hc => ?_) (fun c hc => ?_)
  · simp only [List.mem_append, List.mem_cons, List.not_mem_nil, or_false] at hc
    rcases hc with hc | rfl | hc | rfl
    · exact (unquoted_intercalate hparts c hc).2
    · rfl
    · exact htext c hc
    · rfl
  · rw [List.head?_append, (ends_intercalate fun part hpart => (hparts part hpart).1).1] at hc
    cases hhead : parts.flatten.head? with
    | none =>
      rw [hhead] at hc
      cases hc
      rfl
    | some d =>
      rw [hhead] at hc
      cases hc
      obtain ⟨part, hpart, hin⟩ := List.mem_flatten.1 (List.mem_of_head? hhead)
      exact ((hparts part hpart).2 c hin).2.2
  · rw [← List.cons_append, ← List.append_assoc, List.getLast?_concat] at hc
    cases hc
    rfl

/-- Words and a string behind them are a line. -/
theorem line_of_quoted (hne : parts ≠ [])
    (hparts : ∀ part ∈ parts, part ≠ [] ∧ ∀ c ∈ part, IsSolid c)
    (htext : ∀ c ∈ text, c ≠ '"' ∧ isControl c = false) :
    Lexer.line v number ([' '].intercalate parts ++ '"' :: (text ++ ['"'])) =
      .ok ((parts.flatMap (word v) ++ [(TokenKind.string, text)]).map (tokenAt number) ++
        [⟨.newline, "\n", number⟩]) := by
  have hclean := clean_of_quoted hparts fun c hc => (htext c hc).2
  have hwords := words_intercalate hne (fun part hpart => (hparts part hpart).1)
    fun part hpart hc => ((hparts part hpart).2 ' ' hc).ne.1 rfl
  have hempty : ([' '].intercalate parts ++ '"' :: (text ++ ['"'])).isEmpty = false :=
    List.isEmpty_eq_false_iff.2 (List.append_ne_nil_of_right_ne_nil _ (List.cons_ne_nil _ _))
  have hlexemes : lexemes v ([' '].intercalate parts ++ '"' :: (text ++ ['"'])) =
      .ok (parts.flatMap (word v) ++ [(.string, text)]) := by
    rw [lexemes_quoted (fun c hc => (unquoted_intercalate hparts c hc).1) rfl
        (fun hc => (htext '"' hc).1 rfl) [],
      lexemes_of_unquoted fun c hc => absurd hc List.not_mem_nil, hwords]
    rfl
  simp only [line_eq, hclean, hempty, hlexemes, Bool.false_eq_true, if_false]

end

/-- The pieces of the words in front: the name of the attribute goes with its sign. -/
theorem flatMap_attributeWords (hn : IsPlainName n.toList)
    (hword : Vocabulary.standard.kind? n = none) (hbang : n ≠ "!") :
    (attributeWords n).flatMap (word .standard) = [(.mark, ['@']), (.keyword, "elem".toList),
      (.literal, ['p']), (.literal, n.toList), (.assignment, ['='])] := by
  have hkeyword : word .standard "elem".toList = [(.keyword, "elem".toList)] :=
    word_of_kind? (List.cons_ne_nil _ _) (by decide)
  have hmark : word .standard "@elem".toList = (.mark, ['@']) :: word .standard "elem".toList :=
    word_mark ⟨['e', 'l', 'e'], 'm', rfl, by decide⟩
  have hp : word .standard ['p'] = [(.literal, ['p'])] :=
    word_of_forall (List.cons_ne_nil _ _) (List.forall_mem_singleton.2 (by decide)) (by decide)
      (by decide)
  rw [attributeWords, List.flatMap_cons, List.flatMap_cons, List.flatMap_singleton, hmark, hkeyword,
    hp, word_attributeName hn hword hbang]
  rfl

/-- The text of the attribute is a string of its line. -/
theorem tokenizeFrom_attributeLine (hn : IsPlainName n.toList)
    (hword : Vocabulary.standard.kind? n = none) (hbang : n ≠ "!")
    (htext : ∀ c ∈ text.toList, c ≠ '\n' ∧ c ≠ '"' ∧ isControl c = false) (line : Nat) :
    tokenizeFrom .standard (attributeLine n text) line =
      .ok (close line (Dialect.attributeTokens line n text)) := by
  have hsolid := isSolid_attributeWords hn
  have hne : attributeWords n ≠ [] := List.cons_ne_nil _ _
  have hnewline : '\n' ∉ [' '].intercalate (attributeWords n) ++
      '"' :: (text.toList ++ ['"']) := by
    intro hc
    simp only [List.mem_append, List.mem_cons, List.not_mem_nil, or_false] at hc
    rcases hc with hc | hc | hc | hc
    · rcases mem_intercalate hc with hc | ⟨part, hpart, hin⟩
      · cases hc
      · exact ((hsolid part hpart).2 _ hin).ne.2 rfl
    · cases hc
    · exact (htext _ hc).1 rfl
    · cases hc
  rw [tokenizeFrom, toList_attributeLine, List.splitOn_eq_singleton hnewline, lines,
    line_of_quoted hne hsolid fun c hc => (htext c hc).2,
    flatMap_attributeWords hn hword hbang]
  simp only [lines, Except.map, List.append_nil, List.cons_append, List.nil_append, List.map_cons,
    List.map_nil, tokenAt, String.ofList_toList]
  rfl

end Lexer

/-! ## Rendering -/

/-- An attribute other than the class is set to its text. -/
theorem attributeChanges_string {n : String} (hn : n ≠ "class") (text : String) :
    attributeChanges n (.string text) = [.attribute n text] := by
  rw [attributeChanges, if_neg hn]
  · rfl
  · exact nofun

namespace Engine

open Rendering

variable {e : Engine} {n : String} {texts : List String}

/-- The text of an attribute is put together from its parts. -/
theorem eval_attribute_texts (levels : Nat) (htexts : ∀ t ∈ texts, t ≠ "") (hn : n ≠ "class")
    (c : NodeId) (r : Run) :
    e.eval (levels + 2) (.attribute n (.output .attribute (texts.map Part.text))) c r =
      .ok .null (r.write (.attribute c n (OutputMode.attribute.join texts))) := by
  have hall : texts.filter (fun t => !t.isEmpty) = texts := by
    refine List.filter_eq_self.2 fun t ht => ?_
    rw [Bool.not_eq_true', ← Bool.not_eq_true, String.isEmpty_iff]
    exact htexts t ht
  have hvalue : e.eval (levels + 1) (.output .attribute (texts.map Part.text)) c r =
      .ok (.string (OutputMode.attribute.join texts)) r := by
    rw [eval, evalNode, bind_of_ok (evalParts_texts texts), hall]
    rfl
  rw [eval, evalNode, bind_of_ok hvalue, attributeChanges_string hn]
  rfl

/-- An element with one attribute comes into its container. -/
theorem eval_element_texts (levels : Nat) (htexts : ∀ t ∈ texts, t ≠ "") (hn : n ≠ "class")
    (c : NodeId) (r : Run) :
    e.eval (levels + 4) (attributePage n texts) c r =
      .ok .null (((r.write (.element "p")).write
        (.attribute r.next n (OutputMode.attribute.join texts))).write (.append c r.next)) := by
  have hattribute := eval_attribute_texts (e := e) levels htexts hn r.next (r.write (.element "p"))
  have hmodifiers : evalAll (e.eval (levels + 2)) r.next
      [.attribute n (.output .attribute (texts.map Part.text))] (r.write (.element "p")) =
        .ok [.null] ((r.write (.element "p")).write
          (.attribute r.next n (OutputMode.attribute.join texts))) := by
    rw [evalAll, bind_of_ok hattribute]
    rfl
  have helement : e.eval (levels + 3) (.element "p"
      [.attribute n (.output .attribute (texts.map Part.text))] .empty) c r =
        .ok .null (((r.write (.element "p")).write
          (.attribute r.next n (OutputMode.attribute.join texts))).write (.append c r.next)) := by
    have hcreate : create (.element "p") r = .ok r.next (r.write (.element "p")) := rfl
    rw [eval, evalNode, bind_of_ok hcreate, bind_of_ok hmodifiers]
    rfl
  have hblock : evalBlock (e.eval (levels + 3)) c [.element "p"
      [.attribute n (.output .attribute (texts.map Part.text))] .empty] r =
        .ok () (((r.write (.element "p")).write
          (.attribute r.next n (OutputMode.attribute.join texts))).write (.append c r.next)) := by
    rw [evalBlock, bind_of_ok helement]
    rfl
  rw [eval, attributePage, evalNode, bind_of_ok hblock]
  rfl

end Engine

/-- No piece is empty, and so none is left out when they are put together. -/
theorem ne_empty_of_mem_shown (h : ∀ w ∈ ws, IsJoined w) : ∀ t ∈ ws.flatMap shown, t ≠ "" := by
  intro t ht
  rw [← map_shown_words ws 1] at ht
  obtain ⟨u, hu, rfl⟩ := List.mem_map.1 ht
  exact (isText_of_mem_words h 1 u hu).shown

/-- The characters of a text of names and joiners stand for themselves, or are single blanks. -/
theorem mem_verbatim (h : ∀ w ∈ ws, IsJoined w) :
    ∀ c ∈ [' '].intercalate ws, c ≠ '\n' ∧ c ≠ '"' ∧ isControl c = false := by
  intro c hc
  rcases mem_intercalate hc with rfl | ⟨w, hw, hin⟩
  · decide
  · have hsolid := (h w hw).isSolid.1 c hin
    refine ⟨hsolid.ne.2, ?_, hsolid.2.1⟩
    rintro rfl
    cases hsolid.1

namespace Blueprint

variable {b : Blueprint} {name n text : String}

/-- The line is compiled to the element, with its text in pieces. -/
theorem compile_attributeLine {d : Dialect} (hd : d.grammar = .standard) (hdepth : 4 ≤ d.maxDepth)
    (hn : IsPlainName n.toList) (hword : Vocabulary.standard.kind? n = none) (hbang : n ≠ "!")
    (hws : ∀ w ∈ ws, IsJoined w) (htext : text.toList = [' '].intercalate ws) :
    d.compile name (attributeLine n text) = .ok (attributePage n (ws.flatMap shown)) := by
  have htokenize : tokenize d.grammar.vocabulary (attributeLine n text) =
      .ok (close 1 (Dialect.attributeTokens 1 n text)) := by
    rw [hd, Grammar.vocabulary_standard]
    exact tokenizeFrom_attributeLine hn hword hbang (htext ▸ mem_verbatim hws) 1
  have hread : ∀ A, d.reread A text 1 =
      .ok (.output .attribute ((ws.flatMap shown).map Part.text)) := by
    intro A
    rw [← String.ofList_toList (s := text), htext]
    exact Dialect.reread_words hd hws
  rw [Dialect.compile_eq_ok_iff, Dialect.parseSource_of_tokenize htokenize]
  exact Dialect.parse_attributeTokens hd hdepth hread

/-- **Text of names and joiners stands in an attribute as it is written.** The names can be words of
the language, and there can be any variables, filters and functions and other templates. The name of
the attribute is a name that is no word and does not become one with the sign `=` behind it. The
attribute `class` takes its text apart by itself. -/
theorem renderAlone_attribute (hgrammar : b.grammar = .standard) (hdepth : 4 ≤ b.settings.maxDepth)
    (hsource : Table.get? b.sources name = some (attributeLine n text))
    (hn : IsPlainName n.toList) (hword : Vocabulary.standard.kind? n = none) (hclass : n ≠ "class")
    (hbang : n ≠ "!") (htext : IsVerbatim text.toList) (frame : Frame) :
    let r := b.build.renderAlone name frame
    r.outcome = .ok 0 ∧
      (r.document .empty).element? 0 =
        some ⟨b.settings.containerTag, some b.settings.containerClass, [], [1]⟩ ∧
      (r.document .empty).element? 1 = some ⟨"p", none, [(n, text)], []⟩ := by
  obtain ⟨ws, hws, hlist⟩ := htext
  obtain ⟨k, hk⟩ := Nat.exists_eq_add_of_le' hdepth
  have hcompile : b.dialect.compile name (attributeLine n text) =
      .ok (attributePage n (ws.flatMap shown)) :=
    compile_attributeLine hgrammar hdepth hn hword hbang hws hlist
  have hroot := Engine.eval_element_texts (e := b.build) k (ne_empty_of_mem_shown hws) hclass 0
    (b.build.contained frame)
  have hall : b.build.evaluate = b.build.eval (k + 4) := congrArg b.build.eval hk
  rw [join_flatMap_shown hws, ← hlist, String.ofList_toList, ← hall] at hroot
  have hrender := Engine.renderAlone_eq (template?_build hsource hcompile) frame
  rw [hroot] at hrender
  dsimp only
  rw [hrender]
  exact ⟨rfl, rfl, rfl⟩

/-- Words of the language with joiners between them, and words that begin with digits. -/
theorem renderAlone_attribute_words :
    let text := "if-true:é.x end 1px"
    let b : Blueprint :=
      { Blueprint.empty with sources := [("page", attributeLine "data" text)],
                             settings := ⟨"div", "page", 4⟩ }
    IsPlainName "data".toList ∧ IsVerbatim text.toList ∧
      ((b.build.renderAlone "page" []).document .empty).element? 1 =
        some ⟨"p", none, [("data", text)], []⟩ := by
  intro text b
  have hn : IsPlainName "data".toList := by decide
  have hjoined : IsJoined "if-true:é.x".toList := by
    have hx : IsJoined "x".toList := .name (by decide)
    have hpath : IsJoined ("é".toList ++ '.' :: "x".toList) := .join (by decide) (by decide) hx
    have htrue : IsJoined ("true".toList ++ ':' :: "é.x".toList) :=
      .join (by decide) (by decide) hpath
    have hif : IsJoined ("if".toList ++ '-' :: "true:é.x".toList) :=
      .join (by decide) (by decide) htrue
    exact hif
  have htext : IsVerbatim text.toList := by
    refine ⟨["if-true:é.x".toList, "end".toList, "1px".toList], ?_, by decide +kernel⟩
    exact List.forall_mem_cons.2 ⟨hjoined, List.forall_mem_cons.2 ⟨.name (by decide),
      List.forall_mem_singleton.2 (.name (by decide))⟩⟩
  have hsource : Table.get? b.sources "page" = some (attributeLine "data" text) := rfl
  obtain ⟨-, -, hattribute⟩ := renderAlone_attribute (b := b) rfl (Nat.le_refl 4) hsource hn
    (by decide) (by decide) (by decide) htext []
  exact ⟨hn, htext, hattribute⟩

/-- The sign `!` is no word by itself, but it is one together with the sign `=` behind it: no
element with an attribute of this name can be read, at whatever depth. -/
theorem not_renderAlone_attribute : ¬ ∃ depth, ∀ (b : Blueprint) (name n text : String)
    (frame : Frame), b.grammar = .standard → depth ≤ b.settings.maxDepth →
    Table.get? b.sources name = some (attributeLine n text) → IsPlainName n.toList →
    Vocabulary.standard.kind? n = none → n ≠ "class" → IsVerbatim text.toList →
    ((b.build.renderAlone name frame).document .empty).element? 1 =
      some ⟨"p", none, [(n, text)], []⟩ := by
  rintro ⟨depth, h⟩
  let b : Blueprint :=
    { Blueprint.empty with sources := [("page", attributeLine "!" "a")],
                           settings := ⟨"div", "page", depth + 4⟩ }
  have hparse : b.dialect.parseSource (attributeLine "!" "a") =
      .error ⟨1, .elementName "Binary"⟩ := by cbv
  have hcompile : b.dialect.compile "page" (attributeLine "!" "a") =
      .error (.inTemplate "page" (attributeLine "!" "a") ⟨1, .elementName "Binary"⟩) := by
    rw [Dialect.compile, hparse]
    rfl
  have hnone : b.build.templates = [] := by
    change [b.compile ("page", attributeLine "!" "a")].filterMap readable = []
    rw [compile, hcompile]
    rfl
  have hrender : b.build.renderAlone "page" [] = ⟨.error (.templateNotFound "page"), []⟩ := by
    refine if_neg ?_
    rw [Engine.hasTemplate, hnone]
    exact Bool.false_ne_true
  have hclaim := h b "page" "!" "a" [] rfl (Nat.le_add_right _ _) rfl (by decide) (by decide)
    (by decide) ⟨[['a']], List.forall_mem_singleton.2 (.name (by decide)), rfl⟩
  rw [hrender] at hclaim
  cases hclaim

end Blueprint

end Stencil
