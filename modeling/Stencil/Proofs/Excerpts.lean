import Mathlib
import Stencil.Proofs.Faults
import Stencil.Proofs.Lossless
/-!
# Places of errors

Where the error of a template is, and what is shown of the source around it. Every token stands in
a line that is not blank, also the stop, and the tokens of a string in an attribute stand in the
line of the attribute. An error is told at the line of some token, so its line is there and is not
blank. The lines that are shown are cut in another way than the lines that are divided into tokens,
but up to the last line that is not blank the two ways have the same lines.
-/

namespace Stencil

namespace Lexer

variable {v : Vocabulary} {source : String} {first n : Nat} {ts : List Token}

/-! ## Lines that are not blank -/

/-- Whether the line with the number `n`, counted from `first`, is there and is not blank. A line of
spaces and control characters is blank, since no token comes from it. -/
def IsFull (source : String) (first n : Nat) : Prop :=
  first ≤ n ∧ ∃ raw, (source.toList.splitOn '\n')[n - first]? = some raw ∧ clean raw ≠ []

theorem isFull_iff :
    IsFull source first n ↔ ∃ p ∈ cleanLines source first, p.1.isEmpty = false ∧ p.2 = n := by
  constructor
  · rintro ⟨hle, raw, hraw, hfull⟩
    refine ⟨(clean raw, n), ?_, List.isEmpty_eq_false_iff.2 hfull, rfl⟩
    rw [cleanLines, List.mk_mem_zipIdx_iff_le_and_getElem?_sub, List.getElem?_map, hraw]
    exact ⟨hle, rfl⟩
  · rintro ⟨⟨text, k⟩, hp, hfull, rfl⟩
    rw [cleanLines, List.mk_mem_zipIdx_iff_le_and_getElem?_sub, List.getElem?_map,
      Option.map_eq_some_iff] at hp
    obtain ⟨hle, raw, hraw, rfl⟩ := hp
    exact ⟨hle, raw, hraw, List.isEmpty_eq_false_iff.1 hfull⟩

theorem isFull_of_mem_fullTokens {t : Token} (h : t ∈ fullTokens v (cleanLines source first)) :
    IsFull source first t.line := by
  obtain ⟨p, hp, ht⟩ := List.mem_flatMap.1 h
  obtain ⟨hp, hfull⟩ := List.mem_filter.1 hp
  refine isFull_iff.2 ⟨p, hp, by simpa using hfull, ?_⟩
  rcases List.mem_append.1 ht with ht | ht
  · obtain ⟨x, -, rfl⟩ := List.mem_map.1 ht
    rfl
  · rw [List.mem_singleton.1 ht]

/-- **Every token stands in a line that is not blank**, unless there is no such line; then there is
only a stop, in the first line. -/
theorem isFull_of_tokenizeFrom (h : tokenizeFrom v source first = .ok ts) {t : Token}
    (ht : t ∈ ts) : IsFull source first t.line ∨ t.line = first ∧ ∀ n, ¬IsFull source first n := by
  rcases tokenizeFrom_spec v source first with ⟨p, quote, -, -, herror⟩ | ⟨-, hok⟩
  · cases h.symm.trans herror
  · cases h.symm.trans hok
    rw [close_fullTokens] at ht
    rcases List.mem_append.1 ht with ht | ht
    · exact .inl (isFull_of_mem_fullTokens ht)
    · rw [List.mem_singleton.1 ht]
      cases hlast : ((cleanLines source first).filter fun p => !p.1.isEmpty).getLast? with
      | some p =>
        obtain ⟨hp, hfull⟩ := List.mem_filter.1 (List.mem_of_getLast? hlast)
        exact .inl (isFull_iff.2 ⟨p, hp, by simpa using hfull, rfl⟩)
      | none =>
        refine .inr ⟨rfl, fun n hn => ?_⟩
        obtain ⟨p, hp, hfull, -⟩ := isFull_iff.1 hn
        have hnone := List.filter_eq_nil_iff.1 (List.getLast?_eq_none_iff.1 hlast) p hp
        simp [hfull] at hnone

/-- A quote that is not closed stands in a line that is not blank. -/
theorem isFull_of_tokenizeFrom_error {e : SyntaxError}
    (h : tokenizeFrom v source first = .error e) : IsFull source first e.line := by
  rcases tokenizeFrom_spec v source first with ⟨p, quote, hfind, hopen, herror⟩ | ⟨-, hok⟩
  · cases h.symm.trans herror
    refine isFull_iff.2 ⟨p, List.mem_of_find?_eq_some hfind, ?_, rfl⟩
    rw [List.isEmpty_eq_false_iff]
    intro hnil
    rw [hnil] at hopen
    cases hopen
  · cases h.symm.trans hok

/-! ## Texts of one line -/

theorem line_eq_of_isFull (hline : '\n' ∉ source.toList) (h : IsFull source first n) :
    n = first := by
  obtain ⟨hle, raw, hraw, -⟩ := h
  rw [List.splitOn_eq_singleton hline] at hraw
  have hlt := (List.getElem?_eq_some_iff.1 hraw).1
  rw [List.length_singleton] at hlt
  omega

theorem line_eq_of_tokenizeFrom (hline : '\n' ∉ source.toList)
    (h : tokenizeFrom v source first = .ok ts) : ∀ t ∈ ts, t.line = first := by
  intro t ht
  rcases isFull_of_tokenizeFrom h ht with hfull | ⟨hfirst, -⟩
  · exact line_eq_of_isFull hline hfull
  · exact hfirst

/-- No string goes over the end of a line. -/
theorem not_mem_of_tokenizeFrom (h : tokenizeFrom v source first = .ok ts) {t : Token}
    (ht : t ∈ ts) (hstring : t.kind = .string) : '\n' ∉ t.text.toList := by
  obtain ⟨init, hlines, rfl⟩ := tokenizeFrom_eq_ok.1 h
  rcases List.mem_append.1 ht with ht | ht
  · obtain ⟨raw, hraw, k, here, hhere, ht⟩ := mem_lines hlines ht
    rcases mem_line hhere ht with rfl | ⟨parts, chunk, x, hparts, hchunk, hx, rfl⟩
    · cases hstring
    · rw [tokenAt, String.toList_ofList]
      have hwithin := (within_of_mem_lexemes hx).trans (within_of_mem_chunks hparts hchunk)
      exact fun hc => not_mem_of_mem_splitOn hraw
        ((clean_sublist raw).subset (hwithin.subset hc))
  · rw [List.mem_singleton.1 ht] at hstring
    cases hstring

end Lexer

/-! ## Lines that are told -/

/-- The watch of tokens that stand in certain lines: errors are told at these lines. -/
def Watch.places (told : Nat → Prop) : Watch where
  Known t := told t.line ∧ (t.kind = .string → '\n' ∉ t.text.toList)
  Told := told
  Due e := told e.line
  told _ ht := ht.1
  common _ _ hline _ := hline
  number _ ht _ _ := ht.1

theorem Dialect.watched_places {d : Dialect} (hd : d.grammar = .standard) (told : Nat → Prop) :
    d.Watched (.places told) where
  rules := hd ▸ Grammar.hasStandardRules_standard.watched _
  tokens text line := by
    rintro ⟨u, ⟨-, hstring⟩, hkind, rfl⟩ hline ts h t ht
    refine ⟨?_, Lexer.not_mem_of_tokenizeFrom h ht⟩
    rw [Lexer.line_eq_of_tokenizeFrom (hstring hkind) h t ht]
    exact hline
  lexical text line := by
    rintro ⟨u, ⟨-, hstring⟩, hkind, rfl⟩ hline e h
    have hfull := Lexer.isFull_of_tokenizeFrom_error h
    change told e.line
    rw [Lexer.line_eq_of_isFull (hstring hkind) hfull]
    exact hline
  deep _ hline := hline

/-- **An error is told at a line that is not blank.** -/
theorem Dialect.isFull_of_parseSource {d : Dialect} (hd : d.grammar = .standard) {source : String}
    (hsource : ∃ n, Lexer.IsFull source 1 n) {e : SyntaxError}
    (h : d.parseSource source = .error e) : Lexer.IsFull source 1 e.line := by
  obtain ⟨n, hn⟩ := hsource
  refine (watched_places hd (Lexer.IsFull source 1)).parseSource (fun ts hts t ht => ⟨?_, ?_⟩)
    (fun e he => Lexer.isFull_of_tokenizeFrom_error he) h
  · rcases Lexer.isFull_of_tokenizeFrom hts ht with hfull | ⟨-, hnone⟩
    · exact hfull
    · exact absurd hn (hnone n)
  · exact Lexer.not_mem_of_tokenizeFrom hts ht

/-! ## Lines that are shown -/

/-- A line that ends in a newline, as it is shown: without a carriage return at its end. -/
def shownLine (text : List Char) : List Char :=
  if text.getLast? == some '\r' then text.dropLast else text

/-- What is not shown does not count either when the line is divided into tokens. -/
theorem Lexer.clean_shownLine (text : List Char) : clean (shownLine text) = clean text := by
  unfold shownLine
  split
  · next hlast =>
    obtain ⟨front, rfl⟩ := List.getLast?_eq_some_iff.1 (beq_iff_eq.1 hlast)
    rw [List.dropLast_concat, clean_control (c := '\r') rfl, List.append_nil]
  · rfl

/-- The pieces of a source between newlines are its lines, but for the last one if it is empty. -/
theorem exists_sourceLines (source : String) : ∃ init last,
    source.toList.splitOn '\n' = init ++ [last] ∧ sourceLines source =
      (init.map shownLine ++ if last.isEmpty then [] else [last]).map String.ofList := by
  have hne := List.splitOn_ne_nil '\n' source.toList
  refine ⟨_, _, (List.dropLast_concat_getLast hne).symm, ?_⟩
  rw [sourceLines, List.getLastD_eq_getLast?, List.getLast?_eq_some_getLast hne, Option.getD_some]
  rfl

/-- A line that is not blank is shown as a line with the same number. -/
theorem exists_sourceLine {source : String} {n : Nat} (h : Lexer.IsFull source 1 n) :
    ∃ raw text, (source.toList.splitOn '\n')[n - 1]? = some raw ∧
      (sourceLines source)[n - 1]? = some text ∧ Lexer.clean text.toList = Lexer.clean raw ∧
      Lexer.clean raw ≠ [] := by
  obtain ⟨-, raw, hraw, hfull⟩ := h
  obtain ⟨init, last, hsplit, hlines⟩ := exists_sourceLines source
  have hpiece := hsplit ▸ hraw
  by_cases hlt : n - 1 < init.length
  · rw [List.getElem?_append_left hlt] at hpiece
    refine ⟨raw, String.ofList (shownLine raw), hraw, ?_, ?_, hfull⟩
    · rw [hlines, List.getElem?_map, List.getElem?_append_left (by simpa using hlt),
        List.getElem?_map, hpiece, Option.map_some, Option.map_some]
    · rw [String.toList_ofList, Lexer.clean_shownLine]
  -- the last line is not empty, since it is not blank
  · rw [List.getElem?_append_right (Nat.le_of_not_lt hlt), List.getElem?_singleton] at hpiece
    split at hpiece
    · next hzero =>
      have hlast : last = raw := Option.some.inj hpiece
      have hempty : last.isEmpty = false := by
        rw [List.isEmpty_eq_false_iff]
        rintro rfl
        exact hfull (hlast ▸ rfl)
      refine ⟨raw, String.ofList raw, hraw, ?_, by rw [String.toList_ofList], hfull⟩
      rw [hlines, List.getElem?_map, List.getElem?_append_right (by simpa using hlt),
        List.length_map, hzero, hempty, hlast]
      rfl
    · cases hpiece

/-- The lines around a line that is there: their numbers go from two before it to two after it, as
far as there are lines, their texts are those of the source, and this line alone is marked. -/
theorem excerpt_spec {source : String} {line : Nat} (hpos : 1 ≤ line)
    (hle : line ≤ (sourceLines source).length) :
    (excerpt source line).map ExcerptLine.number =
        List.Ico (max 1 (line - 2)) (min (line + 2) (sourceLines source).length + 1) ∧
      (∀ x ∈ excerpt source line, (sourceLines source)[x.number - 1]? = some x.text ∧
        (x.marked = true ↔ x.number = line)) ∧
      ((excerpt source line).filter ExcerptLine.marked).map ExcerptLine.number = [line] := by
  have hnumbers : (excerpt source line).map ExcerptLine.number =
      List.Ico (max 1 (line - 2)) (min (line + 2) (sourceLines source).length + 1) := by
    have hfirst : max 1 (line - 2) = line - 3 + 1 := by omega
    have hcount : min (line + 2) (sourceLines source).length + 1 - (line - 3 + 1) =
        min (line + 2) (sourceLines source).length - (line - 3) := by omega
    have hnumber : ExcerptLine.number ∘ (fun e : String × Nat =>
        ⟨line - 3 + e.2 + 1, e.1, line - 3 + e.2 + 1 == line⟩) =
          (fun i => line - 3 + 1 + i) ∘ Prod.snd := by
      funext e
      change line - 3 + e.2 + 1 = line - 3 + 1 + e.2
      omega
    rw [excerpt, List.map_map, hnumber, ← List.map_map, List.zipIdx_map_snd, List.map_add_range',
      List.length_drop, List.length_take, Nat.add_zero, hfirst, List.Ico, hcount,
      Nat.min_eq_left (Nat.min_le_right _ _)]
  have hlines : ∀ x ∈ excerpt source line, (sourceLines source)[x.number - 1]? = some x.text ∧
      (x.marked = true ↔ x.number = line) := by
    intro x hx
    obtain ⟨⟨text, i⟩, hi, rfl⟩ := List.mem_map.1 hx
    have htext := List.mem_zipIdx_iff_getElem?.1 hi
    rw [List.getElem?_drop] at htext
    obtain ⟨hlt, htext⟩ := List.getElem?_eq_some_iff.1 htext
    rw [List.getElem_take] at htext
    have hindex : line - 3 + i + 1 - 1 = line - 3 + i := by omega
    refine ⟨?_, beq_iff_eq⟩
    rw [hindex]
    exact List.getElem?_eq_some_iff.2 ⟨_, htext⟩
  refine ⟨hnumbers, hlines, ?_⟩
  -- the marked lines are those with the number of the error, of which the interval has one
  have hmarked : (excerpt source line).filter ExcerptLine.marked =
      (excerpt source line).filter ((· == line) ∘ ExcerptLine.number) := by
    refine List.filter_congr fun x hx => ?_
    rw [Bool.eq_iff_iff, (hlines x hx).2, Function.comp_apply, beq_iff_eq]
  have hmem : line ∈ List.Ico (max 1 (line - 2))
      (min (line + 2) (sourceLines source).length + 1) := by
    rw [List.Ico.mem]
    omega
  rw [hmarked, ← List.filter_map, hnumbers, List.filter_beq,
    List.count_eq_one_of_mem (List.Ico.nodup _ _) hmem]
  rfl

/-- The excerpt as it is written, with the numbers as wide as the last one. -/
theorem CompileError.context_eq {e : CompileError} {line last : Nat}
    (hmarked : ∀ x ∈ e.excerpt, x.marked = true ↔ x.number = line)
    (hlast : (e.excerpt.map ExcerptLine.number).getLast? = some last) :
    e.context = String.join (e.excerpt.map fun x =>
      "  " ++ (if x.number = line then ">" else " ") ++ " " ++
        Text.padLeft (toString last).length (toString x.number) ++ " | " ++ x.text ++ "\n") := by
  rw [List.getLast?_map, Option.map_eq_some_iff] at hlast
  obtain ⟨x, hx, rfl⟩ := hlast
  rw [context, hx]
  refine congrArg String.join (List.map_congr_left fun y hy => ?_)
  rw [ExcerptLine.display]
  simp only [hmarked y hy, Option.elim_some]

/-- **Errors point at a line that is there.** If a source that is not blank is refused, whatever the
limit of nesting and whatever the modifiers, then the error is told at a line that is not blank, and
the excerpt has the lines of the source from two before it to two after it, as far as there are any,
each with its number, and the mark at this line alone. -/
theorem Dialect.compile_excerpt {d : Dialect} (hd : d.grammar = .standard) {name source : String}
    (hsource : ∃ n, Lexer.IsFull source 1 n) {e : CompileError}
    (h : d.compile name source = .error e) :
    let line := e.error.line
    let lines := sourceLines source
    Lexer.IsFull source 1 line ∧
      (∃ text, lines[line - 1]? = some text ∧ Lexer.clean text.toList ≠ []) ∧
      e.excerpt.map ExcerptLine.number =
        List.Ico (max 1 (line - 2)) (min (line + 2) lines.length + 1) ∧
      (∀ x ∈ e.excerpt, lines[x.number - 1]? = some x.text ∧
        (x.marked = true ↔ x.number = line)) ∧
      (e.excerpt.filter ExcerptLine.marked).map ExcerptLine.number = [line] ∧
      e.context = String.join (e.excerpt.map fun x =>
        "  " ++ (if x.number = line then ">" else " ") ++ " " ++
          Text.padLeft (toString (min (line + 2) lines.length)).length (toString x.number) ++
          " | " ++ x.text ++ "\n") := by
  intro line lines
  obtain ⟨e', hparse, rfl⟩ : ∃ e', d.parseSource source = .error e' ∧
      CompileError.inTemplate name source e' = e := by
    rw [compile] at h
    cases hparse : d.parseSource source with
    | error e' =>
      rw [hparse] at h
      exact ⟨e', rfl, Except.error.inj h⟩
    | ok n =>
      rw [hparse] at h
      cases h
  have hfull : Lexer.IsFull source 1 line := isFull_of_parseSource hd hsource hparse
  obtain ⟨raw, text, -, htext, hclean, hne⟩ := exists_sourceLine hfull
  have hle : line ≤ lines.length := by
    have hlt : line - 1 < lines.length := (List.getElem?_eq_some_iff.1 htext).1
    omega
  obtain ⟨hnumbers, hlines, hmarked⟩ := excerpt_spec hfull.1 hle
  refine ⟨hfull, ⟨text, htext, hclean ▸ hne⟩, hnumbers, hlines, hmarked, ?_⟩
  refine CompileError.context_eq (fun x hx => (hlines x hx).2) ?_
  -- the interval has a last line, whose number is as wide as any
  have hrange : max 1 (line - 2) ≤ min (line + 2) lines.length := by
    have hpos := hfull.1
    omega
  change ((excerpt source line).map ExcerptLine.number).getLast? = _
  rw [hnumbers, List.Ico.succ_top hrange, List.getLast?_concat]

/-- A quote that is not closed in the string of an attribute is told at the line of the attribute,
behind a blank line and in front of lines with and without a carriage return. -/
theorem Dialect.compile_excerpt_string :
    let d : Dialect := ⟨.standard, fun _ => none, 64⟩
    let source := "a\n\n@elem p title=\"it's\"\nb\r\nc\nd"
    let e : CompileError := ⟨"page", ⟨3, .unclosedString '\''⟩, [⟨1, "a", false⟩, ⟨2, "", false⟩,
      ⟨3, "@elem p title=\"it's\"", true⟩, ⟨4, "b", false⟩, ⟨5, "c", false⟩]⟩
    (∃ n, Lexer.IsFull source 1 n) ∧ d.compile "page" source = .error e ∧
      Lexer.IsFull source 1 3 ∧ e.excerpt.map ExcerptLine.number = List.Ico 1 6 ∧
      (e.excerpt.filter ExcerptLine.marked).map ExcerptLine.number = [3] ∧
      e.context =
        "    1 | a\n    2 | \n  > 3 | @elem p title=\"it's\"\n    4 | b\n    5 | c\n" := by
  intro d source e
  have hsource : ∃ n, Lexer.IsFull source 1 n := ⟨1, le_rfl, ['a'], by cbv, by decide⟩
  have hparse : d.parseSource source = .error e.error := by cbv
  have hshown : excerpt source 3 = e.excerpt := by decide +kernel
  have herror : d.compile "page" source = .error e := by
    rw [Dialect.compile, hparse]
    exact congrArg (fun shown => Except.error (CompileError.mk "page" e.error shown)) hshown
  have hcount : (sourceLines source).length = 6 := by decide +kernel
  obtain ⟨hfull, -, hnumbers, -, hmarked, hcontext⟩ := Dialect.compile_excerpt rfl hsource herror
  rw [hcount] at hnumbers hcontext
  exact ⟨hsource, herror, hfull, hnumbers, hmarked, hcontext.trans (by decide +kernel)⟩

end Stencil
