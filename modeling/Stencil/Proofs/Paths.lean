import Mathlib.Data.List.DropRight
import Stencil.Proofs.PlainText
/-!
# Dotted paths

How a path of names and positions behind a mark is read, from its characters on. Each point of the
text ends a segment, as long as there is a name behind it. The positions behind the last name are
one word of digits and points: the division into tokens takes a numeral whole, so that they arrive
as one segment. `parseSource_dotted` is the statement for the whole source.
-/

namespace Stencil

/-! ## Segments -/

/-- A character of names: it is no word by itself, and no word ends at it. -/
def IsNameChar (c : Char) : Prop :=
  Vocabulary.standard.charKind? c = none ∧ Lexer.isQuote c = false ∧
    Lexer.isControl c = false ∧ Text.isBlank c = false

instance (c : Char) : Decidable (IsNameChar c) :=
  inferInstanceAs (Decidable (_ ∧ _ ∧ _ ∧ _))

/-- A name: a text of such characters that begins with no digit and is no word of the language. -/
structure IsName (s : String) : Prop where
  start : s.toList.head?.any fun c => !c.isDigit
  chars : ∀ c ∈ s.toList, IsNameChar c
  notWord : Vocabulary.standard.kind? s = none

/-- A position: a text of digits. -/
def isPosition (s : String) : Bool :=
  !s.toList.isEmpty && s.toList.all Char.isDigit

/-- A segment of a path: a name or a position. -/
def IsSegment (s : String) : Prop :=
  IsName s ∨ isPosition s = true

/-- The path that segments between points stand for: positions at its end stay together. -/
def pathOf (segments : List String) : List String :=
  match segments.rtakeWhile isPosition with
  | [] => segments
  | positions => segments.rdropWhile isPosition ++ [".".intercalate positions]

variable {s : String} {ss segments : List String}

/-- A path that does not end with positions stays as it is. -/
theorem pathOf_of_eq_nil (h : segments.rtakeWhile isPosition = []) :
    pathOf segments = segments := by
  rw [pathOf, h]

/-- Positions at the end are put together again. -/
theorem pathOf_of_ne_nil (h : segments.rtakeWhile isPosition ≠ []) :
    pathOf segments = segments.rdropWhile isPosition ++
      [".".intercalate (segments.rtakeWhile isPosition)] := by
  rw [pathOf]
  split
  · contradiction
  · rfl

/-- A path of positions only is one numeral. -/
theorem pathOf_of_forall (hne : segments ≠ []) (h : ∀ s ∈ segments, isPosition s = true) :
    pathOf segments = [".".intercalate segments] := by
  have htake : segments.rtakeWhile isPosition = segments := List.rtakeWhile_eq_self_iff.2 h
  have hdrop : segments.rdropWhile isPosition = [] := List.rdropWhile_eq_nil_iff.2 h
  rw [pathOf_of_ne_nil (by rwa [htake]), htake, hdrop, List.nil_append]

/-- A name at the end keeps all positions before it apart. -/
theorem pathOf_concat_of_not (h : isPosition s = false) : pathOf (ss ++ [s]) = ss ++ [s] := by
  exact pathOf_of_eq_nil (List.rtakeWhile_concat_neg _ _ _ (by rw [h]; decide))

/-- A segment with a name behind it, or a name with segments behind it, is one by itself. -/
theorem pathOf_cons (hne : ss ≠ []) (h : ∃ t ∈ s :: ss, isPosition t = false) :
    pathOf (s :: ss) = s :: pathOf ss := by
  have hsplit := List.rdropWhile_append_rtakeWhile (p := isPosition) (l := ss)
  by_cases hall : ∀ t ∈ ss, isPosition t = true
  -- the first segment is the name, and everything behind it is one segment
  · have hs : isPosition s = false := by
      obtain ⟨t, ht, hname⟩ := h
      rcases List.mem_cons.1 ht with rfl | ht
      · exact hname
      · simp [hall t ht] at hname
    have htake : (s :: ss).rtakeWhile isPosition = ss := by
      rw [List.rtakeWhile, List.reverse_cons, List.takeWhile_append_of_pos fun t ht =>
        hall t (List.mem_reverse.1 ht)]
      simp [hs]
    have hdrop : (s :: ss).rdropWhile isPosition = [s] := by
      rw [List.rdropWhile, List.reverse_cons, List.dropWhile_append_of_pos fun t ht =>
        hall t (List.mem_reverse.1 ht)]
      simp [hs]
    rw [pathOf_of_forall hne hall, pathOf_of_ne_nil (by rwa [htake]), htake, hdrop]
    rfl
  -- the positions at the end are the same with and without the first segment
  · have hlt : (ss.reverse.takeWhile isPosition).length ≠ ss.reverse.length := by
      intro hlen
      have heq := (List.takeWhile_prefix (p := isPosition) (l := ss.reverse)).eq_of_length hlen
      exact hall fun t ht => List.takeWhile_eq_self_iff.1 heq t (List.mem_reverse.2 ht)
    have htake : (s :: ss).rtakeWhile isPosition = ss.rtakeWhile isPosition := by
      rw [List.rtakeWhile, List.reverse_cons, List.takeWhile_append, if_neg hlt]
      rfl
    have hdrop : (s :: ss).rdropWhile isPosition = s :: ss.rdropWhile isPosition := by
      have hwhole := List.rdropWhile_append_rtakeWhile (p := isPosition) (l := s :: ss)
      rw [htake] at hwhole
      refine (List.append_left_inj (ss.rtakeWhile isPosition)).1 ?_
      rw [hwhole, List.cons_append, hsplit]
    by_cases hnil : ss.rtakeWhile isPosition = []
    · rw [pathOf_of_eq_nil (htake.trans hnil), pathOf_of_eq_nil hnil]
    · rw [pathOf_of_ne_nil (by rwa [htake]), pathOf_of_ne_nil hnil, htake, hdrop]
      rfl

theorem pathOf_singleton : pathOf [s] = [s] := by
  cases h : isPosition s with
  | true =>
    rw [pathOf_of_forall (List.cons_ne_nil _ _) fun t ht => by rw [List.mem_singleton.1 ht, h]]
    exact congrArg (fun t => [t]) String.intercalate_singleton
  | false =>
    have hconcat : pathOf ([] ++ [s]) = [] ++ [s] := pathOf_concat_of_not h
    exact hconcat

/-- A path with segments does not become empty. -/
theorem pathOf_ne_nil (hne : segments ≠ []) : pathOf segments ≠ [] := by
  by_cases hnil : segments.rtakeWhile isPosition = []
  · rwa [pathOf_of_eq_nil hnil]
  · rw [pathOf_of_ne_nil hnil]
    exact List.append_ne_nil_of_right_ne_nil _ (List.cons_ne_nil _ _)

/-- The path has all segments, unless two of its positions stand at its end. -/
theorem pathOf_eq_self_iff :
    pathOf segments = segments ↔ (segments.rtakeWhile isPosition).length ≤ 1 := by
  have hsplit := List.rdropWhile_append_rtakeWhile (p := isPosition) (l := segments)
  have hlen := congrArg List.length hsplit
  rw [List.length_append] at hlen
  by_cases hnil : segments.rtakeWhile isPosition = []
  · simp [pathOf_of_eq_nil hnil, hnil]
  · rw [pathOf_of_ne_nil hnil]
    constructor
    · intro h
      have := congrArg List.length h
      simp only [List.length_append, List.length_singleton] at this
      omega
    · intro h
      obtain ⟨t, ht⟩ : ∃ t, segments.rtakeWhile isPosition = [t] :=
        List.length_eq_one_iff.1 (by
          have := List.length_pos_of_ne_nil hnil
          omega)
      rw [ht] at hsplit ⊢
      rw [String.intercalate_singleton, hsplit]

/-! ## Words -/

/-- Digits may stand in names. -/
theorem isNameChar_of_isDigit {c : Char} (h : c.isDigit = true) : IsNameChar c := by
  have hwords : ∀ e ∈ Vocabulary.standard, e.1.toList.any Char.isDigit = false := by
    decide
  have hchars : ∀ q : Char, q.isDigit = false → (c == q) = false := fun q hq =>
    beq_eq_false_iff_ne.2 fun heq => by simp [heq, hq] at h
  refine ⟨?_, ?_, ?_, Text.isBlank_of_isDigit h⟩
  · rw [Vocabulary.charKind?, Vocabulary.kind?, Option.eq_none_iff_forall_not_mem]
    intro kind hkind
    have hc := hwords _ (Table.mem_of_get? hkind)
    simp [h] at hc
  · rw [Lexer.isQuote, hchars '"' rfl, hchars '\'' rfl]
    rfl
  · rw [Lexer.isControl, hchars '\r' rfl, hchars '\t' rfl, hchars '\x08' rfl, hchars '\x0c' rfl]
    rfl

/-- A position has digits only, and at least one. -/
theorem isPosition_iff :
    isPosition s = true ↔ s.toList ≠ [] ∧ ∀ c ∈ s.toList, c.isDigit = true := by
  simp [isPosition]

namespace IsSegment

/-- A segment has characters. -/
theorem ne_nil (h : IsSegment s) : s.toList ≠ [] := by
  rcases h with h | h
  · intro hnil
    have hstart := h.start
    simp [hnil] at hstart
  · exact (isPosition_iff.1 h).1

/-- All characters of a segment may stand in a name. -/
theorem isNameChar (h : IsSegment s) : ∀ c ∈ s.toList, IsNameChar c := by
  intro c hc
  rcases h with h | h
  · exact h.chars c hc
  · exact isNameChar_of_isDigit ((isPosition_iff.1 h).2 c hc)

/-- No segment is a word of the language. -/
theorem notWord (h : IsSegment s) : Vocabulary.standard.kind? s = none := by
  rcases h with h | h
  · exact h.notWord
  · have hwords : ∀ e ∈ Vocabulary.standard, isPosition e.1 = false := by decide
    rw [Vocabulary.kind?, Option.eq_none_iff_forall_not_mem]
    intro kind hkind
    have hs := hwords _ (Table.mem_of_get? hkind)
    simp [h] at hs

end IsSegment

namespace Lexer

/-- The words of the language of more than one character have neither a mark nor a point. -/
theorem kind?_eq_none_of_mem {cs : List Char} {c : Char} (hc : c = '@' ∨ c = '.') (hmem : c ∈ cs)
    (hlen : 1 < cs.length) : Vocabulary.standard.kind? (String.ofList cs) = none := by
  have hwords : ∀ e ∈ Vocabulary.standard, 1 < e.1.toList.length →
      '@' ∉ e.1.toList ∧ '.' ∉ e.1.toList := by decide
  rw [Vocabulary.kind?, Option.eq_none_iff_forall_not_mem]
  intro kind hkind
  have hnot := hwords _ (Table.mem_of_get? hkind) (by simpa using hlen)
  simp only [String.toList_ofList] at hnot
  rcases hc with rfl | rfl
  · exact hnot.1 hmem
  · exact hnot.2 hmem

section

variable {v : Vocabulary} {cs rest : List Char} {c : Char} {kind : TokenKind}

/-- What is no word by itself does not end one. -/
theorem isInner_of_charKind? (h : v.charKind? c = none) : isInner v c = true := by
  rw [isInner, h]
  rfl

/-- What has no character that is a word is a literal, if it is neither a word nor a numeral. -/
theorem word_of_forall (hne : cs ≠ []) (h : ∀ c ∈ cs, v.charKind? c = none)
    (hword : v.kind? (String.ofList cs) = none) (hnumeral : isNumeral cs = false) :
    word v cs = [(.literal, cs)] := by
  obtain ⟨c, rest, rfl⟩ := List.exists_cons_of_ne_nil hne
  have hdrop : rest.dropWhile (isInner v) = [] := List.dropWhile_eq_nil_iff.2 fun d hd =>
    isInner_of_charKind? (h d (List.mem_cons_of_mem _ hd))
  rw [word_cut hword hnumeral (fun e he => h e (List.mem_of_getLast? he))
    (h c List.mem_cons_self), hdrop]

/-- Such a text is cut off as a literal where a character that is a word stands behind it. -/
theorem word_append_cons (hne : cs ≠ []) (h : ∀ c ∈ cs, v.charKind? c = none)
    (hkind : v.charKind? c = some kind)
    (hword : v.kind? (String.ofList (cs ++ c :: rest)) = none)
    (hnumeral : isNumeral (cs ++ c :: rest) = false)
    (hlast : ∀ e ∈ (cs ++ c :: rest).getLast?, v.charKind? e = none) :
    word v (cs ++ c :: rest) = (.literal, cs) :: (kind, [c]) :: word v rest := by
  obtain ⟨d, ds, rfl⟩ := List.exists_cons_of_ne_nil hne
  have hds : ∀ e ∈ ds, isInner v e = true := fun e he =>
    isInner_of_charKind? (h e (List.mem_cons_of_mem _ he))
  have hstop : ¬isInner v c = true := by
    rw [isInner, hkind]
    exact Bool.false_ne_true
  rw [List.cons_append] at hword hnumeral hlast ⊢
  rw [word_cut hword hnumeral hlast (h d List.mem_cons_self), List.dropWhile_append_of_pos hds,
    List.takeWhile_append_of_pos hds, List.dropWhile_cons_of_neg hstop,
    List.takeWhile_cons_of_neg hstop, List.append_nil]
  simp only [hkind, Option.getD_some]

end

/-- A text with a character that is neither a digit nor a point is no numeral. -/
theorem not_isNumeral_of_mem {cs : List Char} {c : Char} (hc : c ∈ cs) (hdigit : c.isDigit = false)
    (hpoint : c ≠ '.') : isNumeral cs = false := by
  have hall : cs.all (fun d => d.isDigit || d == '.') = false :=
    List.all_eq_false.2 ⟨c, hc, by simp [hdigit, hpoint]⟩
  rw [isNumeral, hall, Bool.and_false, Bool.false_and]

/-- A segment is one word, a numeral or a literal. -/
theorem word_segment (h : IsSegment s) : word .standard s.toList =
    [(if isNumeral s.toList then .number else .literal, s.toList)] := by
  have hword : Vocabulary.standard.kind? (String.ofList s.toList) = none := by
    rw [String.ofList_toList]
    exact h.notWord
  cases hnumeral : isNumeral s.toList with
  | true => exact word_of_isNumeral h.ne_nil hword hnumeral
  | false => exact word_of_forall h.ne_nil (fun c hc => (h.isNameChar c hc).1) hword hnumeral

/-- The point is a word by itself, and so it ends the words around it. -/
theorem charKind?_point : Vocabulary.standard.charKind? '.' = some .delimiter := by
  decide

/-- So is the mark. -/
theorem charKind?_mark : Vocabulary.standard.charKind? '@' = some .mark := by
  decide

/-- A segment is cut off at the point behind it, if what follows makes no numeral of the whole. -/
theorem word_point {rest : List Char} (h : IsSegment s)
    (hlast : ∃ cs c, rest = cs ++ [c] ∧ IsNameChar c)
    (hnumeral : isNumeral (s.toList ++ '.' :: rest) = false) :
    word .standard (s.toList ++ '.' :: rest) =
      (.literal, s.toList) :: (.delimiter, ['.']) :: word .standard rest := by
  have hlen : 1 < (s.toList ++ '.' :: rest).length := by
    have hs := List.length_pos_of_ne_nil h.ne_nil
    rw [List.length_append, List.length_cons]
    omega
  have hword := kind?_eq_none_of_mem (Or.inr rfl)
    (List.mem_append_right s.toList (List.mem_cons_self (l := rest))) hlen
  refine word_append_cons h.ne_nil (fun c hc => (h.isNameChar c hc).1) charKind?_point hword
    hnumeral fun e he => ?_
  obtain ⟨cs, c, rfl, hc⟩ := hlast
  rw [← List.cons_append, ← List.append_assoc, List.getLast?_concat, Option.mem_some_iff] at he
  exact he ▸ hc.1

/-- A mark is cut off before anything else of a word that ends in a name or a position. -/
theorem word_mark {rest : List Char} (hlast : ∃ cs c, rest = cs ++ [c] ∧ IsNameChar c) :
    word .standard ('@' :: rest) = (.mark, ['@']) :: word .standard rest := by
  obtain ⟨cs, c, rfl, hc⟩ := hlast
  have hlen : 1 < ('@' :: (cs ++ [c])).length := by
    simp
  refine word_cons (kind?_eq_none_of_mem (Or.inl rfl) List.mem_cons_self hlen) ?_ ?_ charKind?_mark
  · simp [isNumeral]
  · intro e he
    rw [← List.cons_append, List.getLast?_concat, Option.mem_some_iff] at he
    exact he ▸ hc.1

/-- The pieces of a path: its segments between points. The last one may be a numeral. -/
def dotted : List String → List Lexeme
  | [] => []
  | [s] => [(if isNumeral s.toList then .number else .literal, s.toList)]
  | s :: ss => (.literal, s.toList) :: (.delimiter, ['.']) :: dotted ss

/-- Only the last segment can be a numeral. -/
theorem dotted_cons (hne : ss ≠ []) :
    dotted (s :: ss) = (.literal, s.toList) :: (.delimiter, ['.']) :: dotted ss := by
  rw [dotted]
  exact hne

/-- Between two segments stands a point. -/
theorem toList_intercalate_cons (hne : ss ≠ []) :
    (".".intercalate (s :: ss)).toList = s.toList ++ '.' :: (".".intercalate ss).toList := by
  obtain ⟨t, ts, rfl⟩ := List.exists_cons_of_ne_nil hne
  rw [String.intercalate_cons_cons, String.toList_append, String.toList_append, List.append_assoc]
  rfl

/-- A text of segments ends as its last segment does. -/
theorem exists_last (hne : segments ≠ []) (h : ∀ s ∈ segments, IsSegment s) :
    ∃ cs c, (".".intercalate segments).toList = cs ++ [c] ∧ IsNameChar c := by
  induction segments with
  | nil => contradiction
  | cons s ss ih =>
    obtain ⟨hs, hss⟩ := List.forall_mem_cons.1 h
    by_cases hnil : ss = []
    · obtain ⟨cs, c, hcs⟩ := (List.eq_nil_or_concat s.toList).resolve_left hs.ne_nil
      refine ⟨cs, c, ?_, hs.isNameChar c (by rw [hcs]; simp)⟩
      rw [hnil, String.intercalate_singleton, hcs, List.concat_eq_append]
    · obtain ⟨cs, c, hcs, hc⟩ := ih hnil hss
      exact ⟨s.toList ++ '.' :: cs, c, by rw [toList_intercalate_cons hnil, hcs]; simp, hc⟩

theorem mem_toList_intercalate (h : s ∈ segments) {c : Char} (hc : c ∈ s.toList) :
    c ∈ (".".intercalate segments).toList := by
  induction segments with
  | nil => contradiction
  | cons t ts ih =>
    by_cases hnil : ts = []
    · rw [hnil, List.mem_singleton] at h
      rw [hnil, String.intercalate_singleton, ← h]
      exact hc
    · rw [toList_intercalate_cons hnil]
      rcases List.mem_cons.1 h with rfl | h
      · exact List.mem_append_left _ hc
      · exact List.mem_append_right _ (List.mem_cons_of_mem _ (ih h))

/-- A path has no characters but those of its segments, and points. -/
theorem mem_of_mem_toList_intercalate {c : Char} (hc : c ∈ (".".intercalate segments).toList) :
    c = '.' ∨ ∃ s ∈ segments, c ∈ s.toList := by
  rw [String.toList_intercalate] at hc
  rcases mem_intercalate hc with rfl | ⟨part, hpart, hin⟩
  · exact Or.inl rfl
  · obtain ⟨s, hs, rfl⟩ := List.mem_map.1 hpart
    exact Or.inr ⟨s, hs, hin⟩

/-- Positions between points are a numeral. -/
theorem isNumeral_intercalate (hne : ss ≠ []) (h : ∀ t ∈ s :: ss, isPosition t = true) :
    isNumeral (".".intercalate (s :: ss)).toList = true := by
  have hchars : ∀ c ∈ (".".intercalate (s :: ss)).toList, c.isDigit = true ∨ c = '.' := by
    intro c hc
    rcases mem_of_mem_toList_intercalate hc with rfl | ⟨t, ht, hin⟩
    · exact Or.inr rfl
    · exact Or.inl ((isPosition_iff.1 (h t ht)).2 c hin)
  obtain ⟨hs, hdigits⟩ := isPosition_iff.1 (h s List.mem_cons_self)
  obtain ⟨c, cs, hcs⟩ := List.exists_cons_of_ne_nil hs
  have hc : c.isDigit = true := hdigits c (by rw [hcs]; exact List.mem_cons_self)
  obtain ⟨rest, hrest⟩ : ∃ rest, (".".intercalate (s :: ss)).toList = c :: rest := by
    rw [toList_intercalate_cons hne, hcs, List.cons_append]
    exact ⟨_, rfl⟩
  have hpoint : '.' ∈ c :: rest := by
    rw [← hrest, toList_intercalate_cons hne]
    exact List.mem_append_right _ List.mem_cons_self
  rw [hrest] at hchars ⊢
  -- no character of the text is a blank or a sign, so that it is read from its first digit on
  have htrim : Text.trim (c :: rest) = c :: rest := by
    refine Text.trim_of_forall fun d hd => ?_
    rcases hchars d hd with hdigit | rfl
    · exact Text.isBlank_of_isDigit hdigit
    · rfl
  have hsigned : Number.signed (c :: rest) = (false, c :: rest) := by
    unfold Number.signed
    split
    · next heq => simp [(List.cons.inj heq).1] at hc
    · next heq => simp [(List.cons.inj heq).1] at hc
    · rfl
  have hsome : (Number.ofText? (c :: rest)).isSome = true := by
    rw [Number.ofText?, htrim, hsigned]
    simp only [hpoint, if_true, Number.floatOfDigits?, Number.leadingDigits,
      List.takeWhile_cons, hc, List.isEmpty_cons, Bool.false_and, Bool.false_eq_true, if_false]
    rfl
  have hall : (c :: rest).all (fun d => d.isDigit || d == '.') = true := by
    rw [List.all_eq_true]
    intro d hd
    rcases hchars d hd with hdigit | rfl
    · rw [hdigit, Bool.true_or]
    · rfl
  rw [isNumeral, hall, hsome]
  rfl

/-- A text of segments with a name among them is no numeral. -/
theorem not_isNumeral_intercalate (h : ∃ t ∈ segments, IsName t) :
    isNumeral (".".intercalate segments).toList = false := by
  obtain ⟨t, ht, hname⟩ := h
  have hstart := hname.start
  obtain ⟨c, cs, hcs⟩ := List.exists_cons_of_ne_nil (IsSegment.ne_nil (.inl hname))
  rw [hcs] at hstart
  have hc : c ∈ t.toList := hcs ▸ List.mem_cons_self
  have hpoint : c ≠ '.' := by
    rintro rfl
    have hinner := (hname.chars '.' hc).1
    rw [charKind?_point] at hinner
    cases hinner
  have hdigit : c.isDigit = false := by simpa using hstart
  exact not_isNumeral_of_mem (mem_toList_intercalate ht hc) hdigit hpoint

/-- A name is no position, since it does not begin with a digit. -/
theorem isPosition_of_isName (h : IsName s) : isPosition s = false := by
  have hstart := h.start
  rw [isPosition]
  cases hcs : s.toList with
  | nil => rfl
  | cons c cs =>
    rw [hcs] at hstart
    have hdigit : c.isDigit = false := by simpa using hstart
    simp [hdigit]

/-- **Segments between points are divided into the pieces of their path.** -/
theorem word_intercalate (hne : segments ≠ []) (h : ∀ s ∈ segments, IsSegment s) :
    word .standard (".".intercalate segments).toList = dotted (pathOf segments) := by
  induction segments with
  | nil => contradiction
  | cons s ss ih =>
    obtain ⟨hs, hss⟩ := List.forall_mem_cons.1 h
    by_cases hnil : ss = []
    · rw [hnil, String.intercalate_singleton, pathOf_singleton, word_segment hs]
      rfl
    by_cases hname : ∃ t ∈ s :: ss, IsName t
    · have hnumeral := not_isNumeral_intercalate hname
      have hcut : ∃ t ∈ s :: ss, isPosition t = false := by
        obtain ⟨t, ht, hname⟩ := hname
        exact ⟨t, ht, isPosition_of_isName hname⟩
      rw [toList_intercalate_cons hnil] at hnumeral ⊢
      rw [word_point hs (exists_last hnil hss) hnumeral, ih hnil hss, pathOf_cons hnil hcut,
        dotted_cons (pathOf_ne_nil hnil)]
    -- without a name behind its points the text is one numeral
    · have hall : ∀ t ∈ s :: ss, isPosition t = true := fun t ht =>
        (h t ht).resolve_left fun hn => hname ⟨t, ht, hn⟩
      have hnumeral := isNumeral_intercalate hnil hall
      have hword : Vocabulary.standard.kind? (String.ofList (".".intercalate (s :: ss)).toList) =
          none := by
        refine kind?_eq_none_of_mem (Or.inr rfl) ?_ ?_
        · rw [toList_intercalate_cons hnil]
          exact List.mem_append_right _ List.mem_cons_self
        · have hlen := List.length_pos_of_ne_nil hs.ne_nil
          rw [toList_intercalate_cons hnil, List.length_append, List.length_cons]
          omega
      rw [pathOf_of_forall (List.cons_ne_nil _ _) hall, dotted, hnumeral]
      refine word_of_isNumeral ?_ hword hnumeral
      rw [toList_intercalate_cons hnil]
      exact List.append_ne_nil_of_right_ne_nil _ (List.cons_ne_nil _ _)

/-! ## Lines -/

/-- A character that stands for itself in a line: no quote, no blank, and not dropped. -/
def IsSolid (c : Char) : Prop :=
  isQuote c = false ∧ isControl c = false ∧ Text.isBlank c = false

instance (c : Char) : Decidable (IsSolid c) :=
  inferInstanceAs (Decidable (_ ∧ _ ∧ _))

/-- No other character ends a line or a word. -/
theorem IsSolid.ne {c : Char} (h : IsSolid c) : c ≠ ' ' ∧ c ≠ '\n' := by
  constructor <;> (rintro rfl; cases h.2.2)

/-- A text whose characters stand for themselves is one word. -/
theorem line_of_forall {v : Vocabulary} {number : Nat} {text : List Char} (hne : text ≠ [])
    (h : ∀ c ∈ text, IsSolid c) :
    line v number text =
      .ok ((word v text).map (tokenAt number) ++ [⟨.newline, "\n", number⟩]) := by
  have hfilter : text.filter (fun c => !isControl c) = text :=
    List.filter_eq_self.2 fun c hc => by rw [(h c hc).2.1]; rfl
  have hclean : clean text = text := by
    rw [clean, hfilter, Text.trim_of_forall fun c hc => (h c hc).2.2]
  have hblank : ' ' ∉ text := fun hc => (h ' ' hc).ne.1 rfl
  have hempty : text.isEmpty = false := List.isEmpty_eq_false_iff.2 hne
  have hwords : words text = [text] := by
    rw [words, List.splitOn_eq_singleton hblank, List.filter_cons_of_pos (by rw [hempty]; rfl)]
    rfl
  simp only [line, hclean, hempty, Bool.false_eq_true, if_false,
    chunks_of_not_isQuote fun c hc => (h c hc).1, List.flatMap_singleton, Chunk.lexemes, hwords]

/-- The tokens of a marked path. -/
def pathTokens (number : Nat) (x : String) (segments : List String) : List Token :=
  ⟨.mark, "@", number⟩ :: ⟨.literal, x, number⟩ :: ⟨.delimiter, ".", number⟩ ::
    ((dotted (pathOf segments)).map (tokenAt number) ++ [⟨.newline, "\n", number⟩])

/-- Within a path the source does not stop. -/
theorem ne_stop_of_mem_dotted {path : List String} {l : Lexeme} (h : l ∈ dotted path) :
    l.1 ≠ .stop := by
  induction path with
  | nil => cases h
  | cons s ss ih =>
    by_cases hnil : ss = []
    · rw [hnil, dotted, List.mem_singleton] at h
      rw [h]
      cases isNumeral s.toList <;> exact TokenKind.noConfusion
    · rw [dotted_cons hnil, List.mem_cons, List.mem_cons] at h
      rcases h with rfl | rfl | h
      · exact TokenKind.noConfusion
      · exact TokenKind.noConfusion
      · exact ih h

theorem ne_stop_of_mem_pathTokens {number : Nat} {x : String} {t : Token}
    (h : t ∈ pathTokens number x segments) : t.kind ≠ .stop := by
  simp only [pathTokens, List.mem_cons, List.mem_append, List.mem_map, List.not_mem_nil,
    or_false] at h
  rcases h with rfl | rfl | rfl | ⟨l, hl, rfl⟩ | rfl
  · exact TokenKind.noConfusion
  · exact TokenKind.noConfusion
  · exact TokenKind.noConfusion
  · exact ne_stop_of_mem_dotted hl
  · exact TokenKind.noConfusion

/-- The source of a marked path is divided at its points. -/
theorem tokenizeFrom_dotted {x : String} (hx : IsName x) (hne : segments ≠ [])
    (h : ∀ s ∈ segments, IsSegment s) (number : Nat) :
    tokenizeFrom .standard ("@" ++ ".".intercalate (x :: segments)) number =
      .ok (close number (pathTokens number x segments)) := by
  have hall : ∀ s ∈ x :: segments, IsSegment s := List.forall_mem_cons.2 ⟨.inl hx, h⟩
  have htext : ("@" ++ ".".intercalate (x :: segments)).toList =
      '@' :: (".".intercalate (x :: segments)).toList := by
    rw [String.toList_append]
    rfl
  have hchars : ∀ c ∈ '@' :: (".".intercalate (x :: segments)).toList, IsSolid c := by
    intro c hc
    rcases List.mem_cons.1 hc with rfl | hc
    · decide
    · rcases mem_of_mem_toList_intercalate hc with rfl | ⟨s, hs, hin⟩
      · decide
      · exact ((hall s hs).isNameChar c hin).2
  have hnewline : '\n' ∉ '@' :: (".".intercalate (x :: segments)).toList :=
    fun hc => (hchars _ hc).ne.2 rfl
  have hname : ∃ s ∈ x :: segments, IsName s := ⟨x, List.mem_cons_self, hx⟩
  have hnumeral := not_isNumeral_intercalate hname
  have hlast := exists_last (List.cons_ne_nil _ _) hall
  rw [toList_intercalate_cons hne] at hnumeral hlast
  rw [tokenizeFrom, htext, List.splitOn_eq_singleton hnewline, lines,
    line_of_forall (List.cons_ne_nil _ _) hchars, toList_intercalate_cons hne, word_mark hlast,
    word_point (.inl hx) (exists_last hne h) hnumeral, word_intercalate hne h]
  simp only [lines, Except.map, List.append_nil, List.map_cons, tokenAt, String.ofList_toList,
    List.cons_append, pathTokens]

end Lexer

/-! ## Reading -/

section

open Reading Grammar

variable {c : Cursor} {rest : List Token} {number : Nat}

/-- A loop over segments takes a path up to what is no point. -/
theorem loop_segmentTurn_dotted {path : List String} (hne : path ≠ [])
    (hc : c.tokens = (Lexer.dotted path).map (Lexer.tokenAt number) ++ rest)
    (hrest : (c.moveTo rest).at? .delimiter "." = false) (acc : List String) :
    loop Operation.segmentTurn acc c = .ok (path.reverse ++ acc, c.moveTo rest) := by
  induction path generalizing c acc with
  | nil => contradiction
  | cons s ss ih =>
    -- a turn takes one segment, and goes on if a point follows
    have hturn : ∀ (t : Token) (tail : List Token), c.tokens = t :: tail →
        Operation.isSegment t = true → t.text = s →
        Operation.segmentTurn acc c = (do
          if (← get).at? .delimiter "." then
            let _ ← advance
            return .inl (s :: acc)
          else return .inr (s :: acc) : Reading (List String ⊕ List String)) (c.moveTo tail) := by
      rintro t tail ht hsegment rfl
      rw [Operation.segmentTurn, get_bind_apply, ht]
      simp only [hsegment, if_true]
      rw [bind_of_ok (advance_of_cons ht)]
    by_cases hnil : ss = []
    -- the last segment: what follows is no point
    · subst hnil
      refine loop_stop ?_
      rw [hturn _ _ hc (by cases Lexer.isNumeral s.toList <;> rfl) (String.ofList_toList)]
      exact separated_eq_ok.2 (.inr ⟨hrest, rfl, rfl⟩)
    · rw [Lexer.dotted_cons hnil, List.map_cons, List.map_cons, List.cons_append,
        List.cons_append] at hc
      refine loop_next (hturn _ _ hc rfl (String.ofList_toList) ▸
        separated_eq_ok.2 (.inl ⟨_, _, rfl, rfl, rfl, rfl⟩)) ?_ ?_
      · simp only [hc, Cursor.moveTo_tokens, List.length_cons]
        omega
      · have hmore := ih (c := c.moveTo ((Lexer.dotted ss).map (Lexer.tokenAt number) ++ rest)) hnil
          rfl hrest (s :: acc)
        rw [Cursor.moveTo_moveTo, hmore]
        simp

namespace Dialect

variable {d : Dialect} {A : String → Nat → Except SyntaxError Node} {k power : Nat}

/-- A name and a path behind it are one expression. -/
theorem expression_dotted (hd : d.grammar = .standard) {x : String} {path : List String}
    (hne : path ≠ []) (hc : c.tokens = ⟨.literal, x, number⟩ :: ⟨.delimiter, ".", number⟩ ::
      ((Lexer.dotted path).map (Lexer.tokenAt number) ++ [⟨.newline, "\n", number⟩])) :
    (d.levels A (k + 1)).expression 0 c =
      .ok (some (.path (.leaf (.name x)) path), c.moveTo [⟨.newline, "\n", number⟩]) := by
  have hs : standard.symbol? ⟨.delimiter, ".", number⟩ =
      some ⟨.delimiter, 80, none, some Operation.path⟩ := symbol?_standard rfl
  have hpower : standard.power ⟨.delimiter, ".", number⟩ = 80 := power_of_symbol? hs
  rw [expression_levels_succ, expressionOf_of_start hc (start_leaf (symbol?_of_not_isWord rfl) rfl),
    hd]
  refine extend_next rfl TokenKind.noConfusion (by rw [hpower]; decide) ?_ ?_
    (extend_stop (stops_cons.2 (.inl rfl)))
  · rw [extend_of_symbol? hs rfl, Operation.path,
      bind_of_ok (loop_segmentTurn_dotted hne rfl rfl [])]
    simp [pure_apply]
  · simp

/-- The tokens of a marked path form a template that is this path. -/
theorem parse_pathTokens (hd : d.grammar = .standard) (hdepth : 2 ≤ d.maxDepth) (x : String)
    {segments : List String} (hne : segments ≠ []) :
    d.parse (Lexer.close number (Lexer.pathTokens number x segments)) =
      .ok (.block [.output .content [.expr (.path (.leaf (.name x)) (pathOf segments))]]) := by
  obtain ⟨k, hk⟩ : ∃ k, d.maxDepth = k + 1 + 1 := ⟨d.maxDepth - 2, by omega⟩
  have htokens :
      (Cursor.ofTokens (Lexer.close number (Lexer.pathTokens number x segments))).tokens =
        Lexer.pathTokens number x segments := by
    rw [Cursor.ofTokens, Lexer.close, List.takeWhile_append_of_pos
      fun t ht => bne_iff_ne.2 (Lexer.ne_stop_of_mem_pathTokens ht)]
    exact List.append_nil _
  refine parse_marked_line htokens rfl hk TokenKind.noConfusion TokenKind.noConfusion ?_ ?_
    (expression_dotted hd (pathOf_ne_nil hne) rfl)
  · exact fun t ht => by rw [List.mem_singleton.1 ht]
  · simp only [List.length_cons, List.length_append]
    omega

/-- **A dotted path is read segment by segment**, but for the positions at its end, which are one
segment together. The path has all segments of the text unless it ends in two positions. -/
theorem parseSource_dotted (hd : d.grammar = .standard) (hdepth : 2 ≤ d.maxDepth) {x : String}
    (hx : IsName x) {segments : List String} (hne : segments ≠ [])
    (hsegments : ∀ s ∈ segments, IsSegment s) :
    d.parseSource ("@" ++ ".".intercalate (x :: segments)) =
        .ok (.block [.output .content [.expr (.path (.leaf (.name x)) (pathOf segments))]]) ∧
      (pathOf segments = segments ↔ (segments.rtakeWhile isPosition).length ≤ 1) := by
  have htokenize : Lexer.tokenize d.grammar.vocabulary ("@" ++ ".".intercalate (x :: segments)) =
      .ok (Lexer.close 1 (Lexer.pathTokens 1 x segments)) := by
    rw [hd, vocabulary_standard]
    exact Lexer.tokenizeFrom_dotted hx hne hsegments 1
  rw [parseSource_of_tokenize htokenize]
  exact ⟨parse_pathTokens hd hdepth x hne, pathOf_eq_self_iff⟩

/-- Before a name each position is a segment by itself, behind it they are one. -/
theorem parseSource_dotted_positions :
    IsName "grid" ∧ (∀ s ∈ ["0", "12", "é_7", "1", "2"], IsSegment s) ∧
      (⟨.standard, fun _ => none, 256⟩ : Dialect).parseSource "@grid.0.12.é_7.1.2" =
        .ok (.block [.output .content
          [.expr (.path (.leaf (.name "grid")) ["0", "12", "é_7", "1.2"])]]) := by
  have hgrid : IsName "grid" := ⟨rfl, List.all_iff_forall_prop.1 rfl, rfl⟩
  have hname : IsName "é_7" := ⟨rfl, List.all_iff_forall_prop.1 rfl, rfl⟩
  have hsegments : ∀ s ∈ ["0", "12", "é_7", "1", "2"], IsSegment s := by
    simp only [List.forall_mem_cons]
    exact ⟨.inr (by decide), .inr (by decide), .inl hname,
      .inr (by decide), .inr (by decide), fun s hs => absurd hs List.not_mem_nil⟩
  have hpath : pathOf ["0", "12", "é_7", "1", "2"] = ["0", "12", "é_7", "1.2"] := by
    decide
  refine ⟨hgrid, hsegments, ?_⟩
  have hread := (parseSource_dotted (d := ⟨.standard, fun _ => none, 256⟩) rfl (by decide) hgrid
    (by decide) hsegments).1
  rw [hpath] at hread
  exact hread

/-- Two positions at the end of a path are one segment: their text is a numeral. -/
theorem parseSource_positions : ¬ ∀ (x : String) (segments : List String), IsName x →
    segments ≠ [] → (∀ s ∈ segments, IsSegment s) →
    (⟨.standard, fun _ => none, 256⟩ : Dialect).parseSource
      ("@" ++ ".".intercalate (x :: segments)) =
        .ok (.block [.output .content [.expr (.path (.leaf (.name x)) segments)]]) := by
  intro h
  have hx : IsName "x" := ⟨rfl, List.all_iff_forall_prop.1 rfl, rfl⟩
  have hsegments : ∀ s ∈ ["1", "2"], IsSegment s := by
    simp only [List.forall_mem_cons]
    exact ⟨.inr rfl, .inr rfl, fun s hs => absurd hs List.not_mem_nil⟩
  have hpath : pathOf ["1", "2"] = ["1.2"] := by decide
  have htokenize : Lexer.tokenize standard.vocabulary ("@" ++ ".".intercalate ["x", "1", "2"]) =
      .ok (Lexer.close 1 (Lexer.pathTokens 1 "x" ["1", "2"])) := by
    rw [vocabulary_standard]
    exact Lexer.tokenizeFrom_dotted hx (List.cons_ne_nil _ _) hsegments 1
  have hclaim := h "x" ["1", "2"] hx (List.cons_ne_nil _ _) hsegments
  rw [parseSource_of_tokenize htokenize,
    parse_pathTokens rfl (by decide) "x" (List.cons_ne_nil _ _), hpath] at hclaim
  simp at hclaim

end Dialect

end

end Stencil
