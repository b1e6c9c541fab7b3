import Stencil.Proofs.Cutting
import Stencil.Template.Cursor
import Stencil.Token.Lexer
/-!
# Kinds of tokens

Every token of a source has the kind that the vocabulary gives to its text, or one of the kinds
that are not kinds of words. So in the standard vocabulary the mark, the comment sign and the
words of the language are known by their texts, and nothing but the end of the source is a stop.
-/

namespace Stencil

/-- Whether a kind with a text is right: it is the kind of the text as a word, or no word's. -/
def Vocabulary.Fits (v : Vocabulary) (kind : TokenKind) (text : String) : Prop :=
  v.kind? text = some kind ∨ kind = .literal ∨ kind = .string ∨ kind = .number ∨ kind = .newline

namespace Vocabulary

/-- There is one mark in the standard vocabulary. -/
theorem text_of_mark {text : String} (h : standard.Fits .mark text) : text = "@" := by
  have hall : ∀ e ∈ standard, e.2 = .mark → e.1 = "@" := by decide
  rcases h with h | h | h | h | h
  · exact hall _ (Table.mem_of_get? h) rfl
  all_goals cases h

/-- No text of the standard vocabulary is a stop; only the end of a source is one. -/
theorem not_stop {text : String} : ¬standard.Fits .stop text := by
  have hall : ∀ e ∈ standard, e.2 ≠ .stop := by decide
  rintro (h | h | h | h | h)
  · exact hall _ (Table.mem_of_get? h) rfl
  all_goals cases h

/-- No word is known as a string: strings come of quotes alone. -/
theorem not_string (text : String) : standard.kind? text ≠ some .string := by
  have hall : ∀ e ∈ standard, e.2 ≠ .string := by decide
  exact fun h => hall _ (Table.mem_of_get? h) rfl

end Vocabulary

namespace Lexer

variable {v : Vocabulary}

/-! ## The division of a word -/

section

variable {c : Char} {cs rest : List Char} {kind : TokenKind}

/-- A word of the vocabulary is one piece. -/
theorem word_of_kind? (hne : cs ≠ []) (hword : v.kind? (String.ofList cs) = some kind) :
    word v cs = [(kind, cs)] := by
  obtain ⟨c, rest, rfl⟩ := List.exists_cons_of_ne_nil hne
  rw [word]
  simp only [hword]

/-- So is any other numeral. -/
theorem word_of_isNumeral (hne : cs ≠ []) (hword : v.kind? (String.ofList cs) = none)
    (hnumeral : isNumeral cs = true) : word v cs = [(.number, cs)] := by
  obtain ⟨c, rest, rfl⟩ := List.exists_cons_of_ne_nil hne
  rw [word]
  simp only [hword, hnumeral, if_true]

/-- Whatever is no word and no numeral as a whole is divided at its end, if it ends in a word. -/
theorem word_concat (hword : v.kind? (String.ofList (rest ++ [c])) = none)
    (hnumeral : isNumeral (rest ++ [c]) = false) (hlast : v.charKind? c = some kind) :
    word v (rest ++ [c]) = word v rest ++ [(kind, [c])] := by
  obtain ⟨d, ds, heq⟩ := List.exists_cons_of_ne_nil (List.concat_ne_nil c rest)
  have hend : (d :: ds).getLast (List.cons_ne_nil d ds) = c := by
    simp only [← heq, List.getLast_concat]
  have hfront : (d :: ds).dropLast = rest := by
    rw [← heq, List.dropLast_concat]
  rw [heq] at hword hnumeral ⊢
  rw [word]
  simp only [hword, hnumeral, hend, hlast, hfront, Bool.false_eq_true, if_false]

/-- Otherwise it is divided at its front, if it begins with a word. -/
theorem word_cons (hword : v.kind? (String.ofList (c :: rest)) = none)
    (hnumeral : isNumeral (c :: rest) = false)
    (hlast : ∀ e ∈ (c :: rest).getLast?, v.charKind? e = none)
    (hfirst : v.charKind? c = some kind) :
    word v (c :: rest) = (kind, [c]) :: word v rest := by
  have hend : v.charKind? ((c :: rest).getLast (by simp)) = none :=
    hlast _ (List.getLast?_eq_some_getLast (by simp))
  rw [word]
  simp only [hword, hnumeral, hend, hfirst, Bool.false_eq_true, if_false]

/-- Where neither end of a word is a word, it is divided at its first character that is one. -/
theorem word_cut (hword : v.kind? (String.ofList (c :: rest)) = none)
    (hnumeral : isNumeral (c :: rest) = false)
    (hlast : ∀ e ∈ (c :: rest).getLast?, v.charKind? e = none) (hfirst : v.charKind? c = none) :
    word v (c :: rest) =
      match rest.dropWhile (isInner v) with
      | [] => [(.literal, c :: rest)]
      | d :: after => (.literal, c :: rest.takeWhile (isInner v)) ::
          ((v.charKind? d).getD .literal, [d]) :: word v after := by
  have hend : v.charKind? ((c :: rest).getLast (by simp)) = none :=
    hlast _ (List.getLast?_eq_some_getLast (by simp))
  rw [word]
  simp only [hword, hnumeral, hend, hfirst, Bool.false_eq_true, if_false]
  split
  · next heq => rw [heq]
  · next heq => rw [heq]

end

/-! ## What the pieces are -/

/-- What is known of a piece of a word: its kind is that of its text, or it is a literal or a
numeral, and its characters stand together in the word. -/
structure IsPiece (v : Vocabulary) (cs : List Char) (x : Lexeme) : Prop where
  kind : v.kind? (String.ofList x.2) = some x.1 ∨ x.1 = .literal ∨
    x.1 = .number ∧ isNumeral x.2 = true
  ne_nil : x.2 ≠ []
  within : x.2 <:+: cs

theorem IsPiece.chars {cs : List Char} {x : Lexeme} (h : IsPiece v cs x) : x.2 ⊆ cs :=
  h.within.subset

theorem IsPiece.mono {cs ds : List Char} {x : Lexeme} (h : IsPiece v cs x) (hsub : cs <:+: ds) :
    IsPiece v ds x :=
  ⟨h.kind, h.ne_nil, h.within.trans hsub⟩

/-- A character that is a word by itself. -/
theorem IsPiece.char {cs : List Char} {c : Char} {kind : TokenKind}
    (h : v.charKind? c = some kind) (hc : c ∈ cs) : IsPiece v cs (kind, [c]) :=
  ⟨Or.inl h, List.cons_ne_nil _ _, (List.singleton_infix_iff _ _).2 hc⟩

/-- A word is divided into words of the vocabulary, numerals and literals. -/
theorem isPiece_of_mem_word {cs : List Char} {x : Lexeme} (h : x ∈ word v cs) :
    IsPiece v cs x := by
  fun_induction word v cs with
  | case1 => cases h
  | case2 c rest kind hkind =>
    rw [List.mem_singleton.1 h]
    exact ⟨Or.inl hkind, List.cons_ne_nil _ _, List.infix_rfl⟩
  | case3 c rest _ hnumeral =>
    rw [List.mem_singleton.1 h]
    exact ⟨Or.inr (Or.inr ⟨rfl, hnumeral⟩), List.cons_ne_nil _ _, List.infix_rfl⟩
  | case4 c rest _ _ last kind hlast ih =>
    rcases List.mem_append.1 h with h | h
    · exact (ih h).mono (List.dropLast_prefix _).isInfix
    · rw [List.mem_singleton.1 h]
      exact .char hlast (List.getLast_mem _)
  | case5 c rest _ _ last _ kind hfirst ih =>
    rcases List.mem_cons.1 h with rfl | h
    · exact .char hfirst List.mem_cons_self
    · exact (ih h).mono (List.suffix_cons _ _).isInfix
  | case6 c rest =>
    rw [List.mem_singleton.1 h]
    exact ⟨Or.inr (Or.inl rfl), List.cons_ne_nil _ _, List.infix_rfl⟩
  -- all three pieces of a word that is cut inside stand together in it
  | case7 c rest _ _ last _ _ d after hafter ih =>
    have hrest : d :: after <:+ c :: rest :=
      (hafter ▸ List.dropWhile_suffix _ : d :: after <:+ rest).trans (List.suffix_cons _ _)
    rcases List.mem_cons.1 h with rfl | h
    · exact ⟨Or.inr (Or.inl rfl), List.cons_ne_nil _ _,
        (List.cons_prefix_cons.2 ⟨rfl, List.takeWhile_prefix _⟩).isInfix⟩
    · rcases List.mem_cons.1 h with rfl | h
      · have hd : d ∈ c :: rest := hrest.subset List.mem_cons_self
        cases hkind : v.charKind? d with
        | none => exact ⟨Or.inr (Or.inl rfl), List.cons_ne_nil _ _,
            (List.singleton_infix_iff _ _).2 hd⟩
        | some kind => exact .char hkind hd
      · exact (ih h).mono ((List.suffix_cons _ _).trans hrest).isInfix

/-- The pieces of a word are words of the vocabulary, numbers and literals. -/
theorem fits_of_mem_word {cs : List Char} {x : Lexeme} (h : x ∈ word v cs) :
    v.Fits x.1 (String.ofList x.2) := by
  rcases (isPiece_of_mem_word h).kind with hkind | hliteral | ⟨hnumber, -⟩
  · exact Or.inl hkind
  · exact Or.inr (Or.inl hliteral)
  · exact Or.inr (Or.inr (Or.inr (Or.inl hnumber)))

/-- Quoted text is a string, and other text is what the vocabulary says of its pieces. -/
theorem fits_of_mem_lexemes {chunk : Chunk} {x : Lexeme} (h : x ∈ chunk.lexemes v) :
    v.Fits x.1 (String.ofList x.2) := by
  cases chunk with
  | plain text =>
    obtain ⟨w, -, hx⟩ := List.mem_flatMap.1 h
    exact fits_of_mem_word hx
  | quoted text =>
    rw [List.mem_singleton.1 h]
    exact Or.inr (Or.inr (Or.inl rfl))

/-- The tokens of a line are those of its lexemes, and its end. -/
theorem mem_line {number : Nat} {text : List Char} {ts : List Token}
    (h : line v number text = .ok ts) {t : Token} (ht : t ∈ ts) :
    t = ⟨.newline, "\n", number⟩ ∨ ∃ parts chunk x, chunks (clean text) = .ok parts ∧
      chunk ∈ parts ∧ x ∈ chunk.lexemes v ∧ t = tokenAt number x := by
  unfold line at h
  dsimp only at h
  split at h
  · cases h
    cases ht
  · split at h
    · cases h
    · next parts hparts =>
      cases h
      rcases List.mem_append.1 ht with ht | ht
      · obtain ⟨x, hx, rfl⟩ := List.mem_map.1 ht
        obtain ⟨chunk, hchunk, hx⟩ := List.mem_flatMap.1 hx
        exact Or.inr ⟨parts, chunk, x, hparts, hchunk, hx, rfl⟩
      · exact Or.inl (List.mem_singleton.1 ht)

/-- The tokens of lines are those of each line. -/
theorem mem_lines {number : Nat} {texts : List (List Char)} {ts : List Token}
    (h : lines v number texts = .ok ts) {t : Token} (ht : t ∈ ts) :
    ∃ text ∈ texts, ∃ k here, line v k text = .ok here ∧ t ∈ here := by
  induction texts generalizing number ts with
  | nil =>
    cases h
    cases ht
  | cons text texts ih =>
    rw [lines] at h
    split at h
    · cases h
    · next here hhere =>
      cases hrest : lines v (number + 1) texts with
      | error e =>
        rw [hrest] at h
        cases h
      | ok rest =>
        rw [hrest] at h
        cases h
        rcases List.mem_append.1 ht with ht | ht
        · exact ⟨text, List.mem_cons_self, number, here, hhere, ht⟩
        · obtain ⟨text', htext, hline⟩ := ih hrest ht
          exact ⟨text', List.mem_cons_of_mem _ htext, hline⟩

/-- The tokens of a source are those of its lines, and a stop. -/
theorem tokenizeFrom_eq_ok {source : String} {first : Nat} {ts : List Token} :
    tokenizeFrom v source first = .ok ts ↔
      ∃ init, lines v first (source.toList.splitOn '\n') = .ok init ∧ ts = close first init := by
  unfold tokenizeFrom
  cases lines v first (source.toList.splitOn '\n') with
  | error e => simp [Except.map]
  | ok init => simp [Except.map, eq_comm]

/-- The tokens of a whole source end with a stop, so a reading of them always finds one. -/
theorem exists_stop {v : Vocabulary} {source : String} {first : Nat} {ts : List Token}
    (h : tokenizeFrom v source first = .ok ts) : ∃ t ∈ ts, t.kind = .stop := by
  obtain ⟨init, -, rfl⟩ := tokenizeFrom_eq_ok.1 h
  exact ⟨_, List.mem_append_right _ (List.mem_singleton.2 rfl), rfl⟩

/-- The end of a line is a token as well, of a kind that is no word's. -/
theorem fits_of_lines {number : Nat} {texts : List (List Char)} {ts : List Token}
    (h : lines v number texts = .ok ts) : ∀ t ∈ ts, v.Fits t.kind t.text := by
  intro t ht
  obtain ⟨text, -, k, here, hline, ht⟩ := mem_lines h ht
  rcases mem_line hline ht with rfl | ⟨parts, chunk, x, -, -, hx, rfl⟩
  · exact Or.inr (Or.inr (Or.inr (Or.inr rfl)))
  · exact fits_of_mem_lexemes hx

/-- **The tokens of a source have the right kinds**, up to the stop behind them. -/
theorem fits_of_tokenizeFrom {source : String} {first : Nat} {ts : List Token}
    (h : tokenizeFrom v source first = .ok ts) :
    ∃ init stop, ts = init ++ [stop] ∧ stop.kind = .stop ∧ ∀ t ∈ init, v.Fits t.kind t.text := by
  obtain ⟨init, hlines, rfl⟩ := tokenizeFrom_eq_ok.1 h
  exact ⟨init, _, rfl, rfl, fits_of_lines hlines⟩

/-! ## Places of tokens

The text of a token stands in the source as it is, up to the control characters that are dropped. -/

/-- Cutting a text at a character leaves the order of the others. -/
theorem sublist_of_mem_splitOn {c : Char} {cs part : List Char} (h : part ∈ cs.splitOn c) :
    part.Sublist cs :=
  (within_of_mem_splitOn h).sublist

/-- The text of a part of a line. -/
def Chunk.text : Chunk → List Char
  | .plain text => text
  | .quoted text => text

/-- What stands between or outside quotes stood together in the line. -/
theorem within_of_mem_chunks {cs : List Char} {parts : List Chunk} (h : chunks cs = .ok parts)
    {chunk : Chunk} (hmem : chunk ∈ parts) : chunk.text <:+: cs := by
  fun_induction chunks cs generalizing parts with
  | case1 cs =>
    cases h
    rw [List.mem_singleton.1 hmem]
    exact (List.takeWhile_prefix _).isInfix
  | case2 => cases h
  | case3 cs _ quote rest hquote _ q after hafter =>
    rename_i ih
    cases hmore : chunks after with
    | error e =>
      rw [hmore] at h
      cases h
    | ok more =>
      rw [hmore] at h
      cases h
      -- what is behind the quote and behind the closing one are ends of the line
      have hrest : rest <:+ cs :=
        (List.suffix_cons _ _).trans (hquote ▸ List.dropWhile_suffix _)
      have hafter : after <:+ cs :=
        ((List.suffix_cons _ _).trans (hafter ▸ List.dropWhile_suffix _)).trans hrest
      rcases List.mem_cons.1 hmem with rfl | hmem
      · exact (List.takeWhile_prefix _).isInfix
      rcases List.mem_cons.1 hmem with rfl | hmem
      · exact (List.takeWhile_prefix _).isInfix.trans hrest.isInfix
      · exact (ih hmore hmem).trans hafter.isInfix

/-- A token stands together in the part of the line that it was cut from. -/
theorem within_of_mem_lexemes {chunk : Chunk} {x : Lexeme} (h : x ∈ chunk.lexemes v) :
    x.2 <:+: chunk.text := by
  cases chunk with
  | plain text =>
    obtain ⟨w, hw, hx⟩ := List.mem_flatMap.1 h
    exact (isPiece_of_mem_word hx).within.trans (within_of_mem_splitOn (List.mem_of_mem_filter hw))
  | quoted text =>
    rw [List.mem_singleton.1 h]
    exact List.infix_rfl

/-- A text without the characters that are dropped. -/
def visible (cs : List Char) : List Char :=
  cs.filter fun c => !isControl c

/-- Trimming takes away from the ends only. -/
theorem clean_within (text : List Char) : clean text <:+: visible text := by
  have hstart : (visible text).dropWhile Text.isBlank <:+ visible text := List.dropWhile_suffix _
  have hend : ∀ cs : List Char, Text.trimEnd cs <+: cs := by
    intro cs
    have hsuffix : cs.reverse.dropWhile Text.isBlank <:+ cs.reverse := List.dropWhile_suffix _
    rw [← List.reverse_prefix, List.reverse_reverse] at hsuffix
    exact hsuffix
  exact (hend _).isInfix.trans hstart.isInfix

/-- Cleaning drops characters and moves none. -/
theorem clean_sublist (text : List Char) : (clean text).Sublist text :=
  (clean_within text).sublist.trans List.filter_sublist

/-- The text of every token stands in the source, but for the ends of lines and of the source. -/
theorem within_of_tokenizeFrom {source : String} {first : Nat} {ts : List Token}
    (h : tokenizeFrom v source first = .ok ts) {t : Token} (ht : t ∈ ts) :
    t.kind = .newline ∨ t.kind = .stop ∨ t.text.toList <:+: visible source.toList := by
  obtain ⟨init, hlines, rfl⟩ := tokenizeFrom_eq_ok.1 h
  rcases List.mem_append.1 ht with ht | ht
  · obtain ⟨text, htext, k, here, hline, ht⟩ := mem_lines hlines ht
    rcases mem_line hline ht with rfl | ⟨parts, chunk, x, hparts, hchunk, hx, rfl⟩
    · exact Or.inl rfl
    · refine Or.inr (Or.inr ?_)
      rw [tokenAt, String.toList_ofList]
      have hline := (within_of_mem_chunks hparts hchunk).trans (clean_within text)
      exact ((within_of_mem_lexemes hx).trans hline).trans
        ((within_of_mem_splitOn htext).filter _)
  · exact Or.inr (Or.inl (List.mem_singleton.1 ht ▸ rfl))

/-! ## Strings -/

/-- What is known of a text between quotes in a source: one quote of the source is not in the text,
which leaves out both ends and has only characters of the source. -/
structure IsQuoted (source text : List Char) : Prop where
  quote : ∃ q ∈ source, isQuote q = true ∧ q ∉ text
  chars : text ⊆ source
  length : text.length + 2 ≤ source.length

/-- What is quoted in a source is quoted in every source that has more characters in between. -/
theorem IsQuoted.mono {source source' text : List Char} (h : IsQuoted source text)
    (hsub : source.Sublist source') : IsQuoted source' text := by
  obtain ⟨q, hq, hquote, hnot⟩ := h.quote
  exact ⟨⟨q, hsub.subset hq, hquote, hnot⟩, List.Subset.trans h.chars hsub.subset,
    Nat.le_trans h.length hsub.length_le⟩

/-- What is left begins where the condition fails first. -/
theorem head_dropWhile_eq_false {p : Char → Bool} {cs rest : List Char} {c : Char}
    (h : cs.dropWhile p = c :: rest) : p c = false := by
  have hne : cs.dropWhile p ≠ [] := h ▸ List.cons_ne_nil c rest
  have hhead := List.head_dropWhile_not p hne
  simpa only [h, List.head_cons] using hhead

/-- A quoted part of a line lacks the quote that closes it, and is shorter than the line by both
quotes. -/
theorem isQuoted_of_mem_chunks {cs text : List Char} {parts : List Chunk}
    (h : chunks cs = .ok parts) (hmem : .quoted text ∈ parts) : IsQuoted cs text := by
  fun_induction chunks cs generalizing parts with
  | case1 cs =>
    cases h
    have heq : Chunk.quoted text = .plain _ := List.mem_singleton.1 hmem
    cases heq
  | case2 => cases h
  | case3 cs _ quote rest hquote _ q after hafter =>
    rename_i ih
    cases hmore : chunks after with
    | error e =>
      rw [hmore] at h
      cases h
    | ok more =>
      rw [hmore] at h
      cases h
      have hwhole : quote :: rest <:+ cs := hquote ▸ List.dropWhile_suffix _
      have hrest : q :: after <:+ rest := hafter ▸ List.dropWhile_suffix _
      rcases List.mem_cons.1 hmem with heq | hmem
      · change Chunk.quoted text = .plain _ at heq
        cases heq
      rcases List.mem_cons.1 hmem with heq | hmem
      -- the text that begins with this quote goes on to the next one
      · change Chunk.quoted text = .quoted _ at heq
        cases heq
        have hsplit := congrArg List.length
          (List.takeWhile_append_dropWhile (p := fun c => c != quote) (l := rest))
        rw [hafter, List.length_append, List.length_cons] at hsplit
        refine ⟨⟨quote, hwhole.subset List.mem_cons_self, ?_, fun hin => ?_⟩, fun a ha => ?_, ?_⟩
        · simpa using head_dropWhile_eq_false hquote
        · simpa using List.all_eq_true.1 List.all_takeWhile _ hin
        · exact hwhole.subset (List.mem_cons_of_mem _ ((List.takeWhile_prefix _).subset ha))
        · have hlength := hwhole.length_le
          rw [List.length_cons] at hlength
          omega
      · have hsub : after.Sublist cs := (List.sublist_of_cons_sublist hrest.sublist).trans
          (List.sublist_of_cons_sublist hwhole.sublist)
        exact (ih hmore hmem).mono hsub

/-- **The strings of a source** stand between quotes in it. -/
theorem isQuoted_of_tokenizeFrom {source : String} {first : Nat} {ts : List Token}
    (hv : ∀ word, v.kind? word ≠ some .string) (h : tokenizeFrom v source first = .ok ts)
    {t : Token} (ht : t ∈ ts) (hstring : t.kind = .string) :
    IsQuoted source.toList t.text.toList := by
  obtain ⟨init, hlines, rfl⟩ := tokenizeFrom_eq_ok.1 h
  rcases List.mem_append.1 ht with ht | ht
  · obtain ⟨text, htext, k, here, hline, ht⟩ := mem_lines hlines ht
    refine IsQuoted.mono ?_ (sublist_of_mem_splitOn htext)
    rcases mem_line hline ht with rfl | ⟨parts, chunk, x, hparts, hchunk, hx, rfl⟩
    · cases hstring
    cases chunk with
    | plain part =>
      obtain ⟨w, -, hx⟩ := List.mem_flatMap.1 hx
      change x.1 = .string at hstring
      rcases (isPiece_of_mem_word hx).kind with hkind | hliteral | ⟨hnumber, -⟩
      · exact absurd (hstring ▸ hkind) (hv _)
      · rw [hliteral] at hstring
        cases hstring
      · rw [hnumber] at hstring
        cases hstring
    | quoted part =>
      rw [List.mem_singleton.1 hx, tokenAt, String.toList_ofList]
      exact (isQuoted_of_mem_chunks hparts hchunk).mono (clean_sublist text)
  · rw [List.mem_singleton.1 ht] at hstring
    cases hstring

/-- The strings of a source are shorter than the source. -/
theorem length_lt_of_tokenizeFrom {source : String} {first : Nat} {ts : List Token}
    (hv : ∀ word, v.kind? word ≠ some .string) (h : tokenizeFrom v source first = .ok ts)
    {t : Token} (ht : t ∈ ts) (hstring : t.kind = .string) : t.text.length < source.length := by
  have hlength := (isQuoted_of_tokenizeFrom hv h ht hstring).length
  rw [String.length_toList, String.length_toList] at hlength
  omega

end Lexer

/-- The tokens of a source are those before its stop. -/
theorem Cursor.ofTokens_append_stop {init : List Token} {stop : Token}
    (h : ∀ t ∈ init, Vocabulary.standard.Fits t.kind t.text) (hstop : stop.kind = .stop) :
    (Cursor.ofTokens (init ++ [stop])).tokens = init := by
  have hall : ∀ t ∈ init, (t.kind != .stop) = true := by
    intro t ht
    rw [bne_iff_ne]
    intro hk
    exact Vocabulary.not_stop (hk ▸ h t ht)
  rw [Cursor.ofTokens, List.takeWhile_append_of_pos hall]
  simp [hstop]

end Stencil
