import Mathlib
import Stencil.Proofs.Comments
import Stencil.Proofs.PlainText
import Stencil.Proofs.Spacing
/-!
# No text is lost

The tokens of a line have all characters of the line but the quotes around strings and the blanks
outside them. Which characters those are is said by going through the line once, from the left,
with the quote that is open; the division of words goes from both ends and from the middle, and
yet keeps every character in its place.
-/

namespace Stencil

namespace Lexer

/-! ## Quotes from the left -/

/-- The quote that is open behind a text, if one is, and `before` is open in front of it. -/
def openQuote (before : Option Char) : List Char → Option Char
  | [] => before
  | c :: cs =>
    match before with
    | none => openQuote (if isQuote c then some c else none) cs
    | some quote => openQuote (if c = quote then none else some quote) cs

/-- A text without the quotes that open and close strings and without the blanks outside them,
where `before` is open in front of it. -/
def bare (before : Option Char) : List Char → List Char
  | [] => []
  | c :: cs =>
    match before with
    | none =>
      if isQuote c then bare (some c) cs
      else if c = ' ' then bare none cs
      else c :: bare none cs
    | some quote => if c = quote then bare none cs else c :: bare (some quote) cs

/-- Texts outside quotes. -/
def Unquoted (text : List Char) : Prop :=
  ∀ c ∈ text, isQuote c = false

variable {v : Vocabulary} {text inner : List Char} {quote : Char} {number : Nat}

theorem openQuote_none_cons (c : Char) (cs : List Char) :
    openQuote none (c :: cs) = openQuote (if isQuote c then some c else none) cs :=
  rfl

theorem openQuote_some_cons (quote c : Char) (cs : List Char) :
    openQuote (some quote) (c :: cs) = openQuote (if c = quote then none else some quote) cs :=
  rfl

theorem bare_none_cons (c : Char) (cs : List Char) : bare none (c :: cs) =
    if isQuote c then bare (some c) cs else if c = ' ' then bare none cs else c :: bare none cs :=
  rfl

theorem bare_some_cons (quote c : Char) (cs : List Char) : bare (some quote) (c :: cs) =
    if c = quote then bare none cs else c :: bare (some quote) cs :=
  rfl

/-- What has no quotes opens none. -/
theorem openQuote_append_of_unquoted (h : Unquoted text) (rest : List Char) :
    openQuote none (text ++ rest) = openQuote none rest := by
  induction text with
  | nil => rfl
  | cons c text ih =>
    obtain ⟨hc, htext⟩ := List.forall_mem_cons.1 h
    rw [List.cons_append, openQuote_none_cons, hc]
    exact ih htext

theorem openQuote_of_unquoted (h : Unquoted text) : openQuote none text = none := by
  have happend := openQuote_append_of_unquoted h []
  rwa [List.append_nil] at happend

/-- Inside a quote only the same quote counts. -/
theorem openQuote_append_of_not_mem (h : quote ∉ inner) (rest : List Char) :
    openQuote (some quote) (inner ++ rest) = openQuote (some quote) rest := by
  induction inner with
  | nil => rfl
  | cons c inner ih =>
    obtain ⟨hc, hinner⟩ := not_or.1 (mt List.mem_cons.2 h)
    rw [List.cons_append, openQuote_some_cons, if_neg (Ne.symm hc)]
    exact ih hinner

/-- A quote that does not come a second time stays open. -/
theorem openQuote_unclosed (htext : Unquoted text) (hquote : isQuote quote = true)
    (hinner : quote ∉ inner) : openQuote none (text ++ quote :: inner) = some quote := by
  have happend := openQuote_append_of_not_mem hinner []
  rw [List.append_nil] at happend
  rw [openQuote_append_of_unquoted htext, openQuote_none_cons, if_pos hquote, happend]
  rfl

/-- Behind a quote that has been closed the text goes on as at its beginning. -/
theorem openQuote_quoted (htext : Unquoted text) (hquote : isQuote quote = true)
    (hinner : quote ∉ inner) (after : List Char) :
    openQuote none (text ++ quote :: (inner ++ quote :: after)) = openQuote none after := by
  rw [openQuote_append_of_unquoted htext, openQuote_none_cons, if_pos hquote,
    openQuote_append_of_not_mem hinner, openQuote_some_cons, if_pos rfl]

/-- Outside quotes the blanks are left out. -/
theorem bare_append_of_unquoted (h : Unquoted text) (rest : List Char) :
    bare none (text ++ rest) = text.filter (fun c => c != ' ') ++ bare none rest := by
  induction text with
  | nil => rfl
  | cons c text ih =>
    obtain ⟨hc, htext⟩ := List.forall_mem_cons.1 h
    rw [List.cons_append, bare_none_cons, ih htext, hc]
    by_cases hblank : c = ' '
    · subst hblank
      rfl
    · rw [List.filter_cons_of_pos (by simpa using hblank), if_neg Bool.false_ne_true,
        if_neg hblank]
      rfl

theorem bare_of_unquoted (h : Unquoted text) :
    bare none text = text.filter fun c => c != ' ' := by
  have happend := bare_append_of_unquoted h []
  rw [List.append_nil] at happend
  exact happend.trans (List.append_nil _)

/-- Inside quotes everything stays, blanks and the other quote too. -/
theorem bare_append_of_not_mem (h : quote ∉ inner) (rest : List Char) :
    bare (some quote) (inner ++ rest) = inner ++ bare (some quote) rest := by
  induction inner with
  | nil => rfl
  | cons c inner ih =>
    obtain ⟨hc, hinner⟩ := not_or.1 (mt List.mem_cons.2 h)
    rw [List.cons_append, bare_some_cons, ih hinner, if_neg (Ne.symm hc)]
    rfl

/-- Both quotes are left out, and what stands between them stays. -/
theorem bare_quoted (htext : Unquoted text) (hquote : isQuote quote = true)
    (hinner : quote ∉ inner) (after : List Char) :
    bare none (text ++ quote :: (inner ++ quote :: after)) =
      text.filter (fun c => c != ' ') ++ (inner ++ bare none after) := by
  rw [bare_append_of_unquoted htext, bare_none_cons, if_pos hquote, bare_append_of_not_mem hinner,
    bare_some_cons, if_pos rfl]

/-- Before the first quote there are none. -/
theorem unquoted_takeWhile (cs : List Char) : Unquoted (cs.takeWhile fun c => !isQuote c) := by
  intro c hc
  simpa using List.all_eq_true.1 List.all_takeWhile c hc

/-- A text has no quotes, or one that is not closed after words, or a string after words and then
some more. -/
theorem quotes_induction {P : List Char → Prop} (plain : ∀ text, Unquoted text → P text)
    (unclosed : ∀ text quote inner, Unquoted text → isQuote quote = true → quote ∉ inner →
      P (text ++ quote :: inner))
    (quoted : ∀ text quote inner after, Unquoted text → isQuote quote = true → quote ∉ inner →
      P after → P (text ++ quote :: (inner ++ quote :: after)))
    (cs : List Char) : P cs := by
  fun_induction chunks cs with
  | case1 cs _ hdrop =>
    refine plain cs fun c hc => ?_
    simpa using List.dropWhile_eq_nil_iff.1 hdrop c hc
  | case2 cs quote rest hdrop hclose =>
    rw [← List.takeWhile_append_dropWhile (p := fun c => !isQuote c) (l := cs), hdrop]
    refine unclosed _ quote rest (unquoted_takeWhile cs) ?_ fun hmem => ?_
    · simpa using head_dropWhile_eq_false hdrop
    · simpa using List.dropWhile_eq_nil_iff.1 hclose quote hmem
  | case3 cs _ quote rest hdrop _ c after hclose ih =>
    rw [← List.takeWhile_append_dropWhile (p := fun c => !isQuote c) (l := cs), hdrop,
      ← List.takeWhile_append_dropWhile (p := fun c => c != quote) (l := rest), hclose]
    have hc : c = quote := by simpa using head_dropWhile_eq_false hclose
    rw [hc]
    refine quoted _ quote _ after (unquoted_takeWhile cs) ?_ (fun hmem => ?_) ih
    · simpa using head_dropWhile_eq_false hdrop
    · simpa using List.all_eq_true.1 List.all_takeWhile quote hmem

/-! ## Words and lines from their pieces -/

/-- The pieces of a word, put together again. -/
theorem flatMap_word (v : Vocabulary) (cs : List Char) : (word v cs).flatMap Prod.snd = cs := by
  fun_induction word v cs with
  | case1 => rfl
  | case2 => simp
  | case3 => simp
  | case4 c rest _ _ last kind _ ih =>
    rw [List.flatMap_append, ih]
    simp [last, List.dropLast_append_getLast]
  | case5 c rest _ _ last _ kind _ ih => rw [List.flatMap_cons, ih, List.singleton_append]
  | case6 => simp
  | case7 c rest _ _ last _ _ d after hafter ih =>
    rw [List.flatMap_cons, List.flatMap_cons, ih, List.singleton_append, ← hafter,
      List.cons_append, List.takeWhile_append_dropWhile]

/-- The words of a text have all its characters but the blanks. -/
theorem flatten_words (cs : List Char) : (words cs).flatten = cs.filter fun c => c != ' ' := by
  have hparts : [' '].intercalate (cs.splitOn ' ') = cs := List.intercalate_splitOn ' '
  rw [words, List.flatten_filter_not_isEmpty,
    ← filter_intercalate fun part hpart => not_mem_of_mem_splitOn hpart, hparts]

/-- The tokens of a part of a line outside quotes: they are in that line, have its characters
without the blanks, and no token is a string, or the end of a line or of the source, unless the
vocabulary says so. -/
structure SpellsWords (v : Vocabulary) (number : Nat) (tokens : List Token) (text : List Char) :
    Prop where
  unquoted : Unquoted text
  texts : tokens.flatMap (fun t => t.text.toList) = text.filter fun c => c != ' '
  lines : ∀ t ∈ tokens, t.line = number
  kinds : ∀ t ∈ tokens, t.kind = .string ∨ t.kind = .newline ∨ t.kind = .stop →
    v.kind? t.text = some t.kind

/-- The tokens of a line: those of the words in it, and for every text between two equal quotes a
string token with this very text. -/
inductive Spells (v : Vocabulary) (number : Nat) : List Token → List Char → Prop
  | words {tokens : List Token} {text : List Char} :
    SpellsWords v number tokens text → Spells v number tokens text
  | quoted {tokens rest : List Token} {text inner after : List Char} {quote : Char} :
    SpellsWords v number tokens text → isQuote quote = true → quote ∉ inner →
    Spells v number rest after →
    Spells v number (tokens ++ ⟨.string, String.ofList inner, number⟩ :: rest)
      (text ++ quote :: (inner ++ quote :: after))

/-- The division of a text without quotes into words spells it. -/
theorem spellsWords_words (h : Unquoted text) : SpellsWords v number
    (((words text).flatMap (word v)).map (tokenAt number)) text where
  unquoted := h
  texts := by
    have htext : ∀ x : Lexeme, (tokenAt number x).text.toList = x.2 :=
      fun x => String.toList_ofList
    simp only [List.flatMap_map, htext, List.flatMap_assoc, flatMap_word]
    rw [← flatten_words, List.flatMap_id']
  lines := by
    intro t ht
    obtain ⟨x, -, rfl⟩ := List.mem_map.1 ht
    rfl
  kinds := by
    intro t ht hkind
    obtain ⟨x, hx, rfl⟩ := List.mem_map.1 ht
    obtain ⟨w, -, hx⟩ := List.mem_flatMap.1 hx
    change x.1 = _ ∨ x.1 = _ ∨ x.1 = _ at hkind
    rcases (isPiece_of_mem_word hx).kind with hword | hliteral | ⟨hnumber, -⟩
    · exact hword
    · rw [hliteral] at hkind
      simp at hkind
    · rw [hnumber] at hkind
      simp at hkind

/-- The tokens of a line have its characters, without blanks and quotes. -/
theorem Spells.texts {tokens : List Token} (h : Spells v number tokens text) :
    tokens.flatMap (fun t => t.text.toList) = bare none text := by
  induction h with
  | words hwords => rw [hwords.texts, bare_of_unquoted hwords.unquoted]
  | quoted hwords hquote hinner _ ih =>
    rw [bare_quoted hwords.unquoted hquote hinner, List.flatMap_append, List.flatMap_cons,
      hwords.texts, ih, String.toList_ofList]

/-- All of them tell the number of the line. -/
theorem Spells.lines {tokens : List Token} (h : Spells v number tokens text) :
    ∀ t ∈ tokens, t.line = number := by
  induction h with
  | words hwords => exact hwords.lines
  | quoted hwords _ _ _ ih =>
    exact List.forall_mem_append.2 ⟨hwords.lines, List.forall_mem_cons.2 ⟨rfl, ih⟩⟩

/-- Only blanks leave no token. -/
theorem Spells.ne_nil {tokens : List Token} (h : Spells v number tokens text)
    (hne : ∃ c ∈ text, c ≠ ' ') : tokens ≠ [] := by
  cases h with
  | words hwords =>
    rintro rfl
    obtain ⟨c, hc, hblank⟩ := hne
    have hnone := List.filter_eq_nil_iff.1 hwords.texts.symm c hc
    exact hnone (by simpa using hblank)
  | quoted => simp

/-- A text without quotes is one chunk. -/
theorem lexemes_of_unquoted (htext : Unquoted text) :
    lexemes v text = .ok ((words text).flatMap (word v)) := by
  rw [lexemes, chunks_of_not_isQuote htext]
  simp [Except.map, Chunk.lexemes]

/-- A quote that is not closed is the error, whatever stands before it. -/
theorem lexemes_unclosed (htext : Unquoted text) (hquote : isQuote quote = true)
    (hinner : quote ∉ inner) : lexemes v (text ++ quote :: inner) = .error quote := by
  have hall : ∀ c ∈ text, (!isQuote c) = true := fun c hc => by rw [htext c hc]; rfl
  have hinside : ∀ c ∈ inner, (c != quote) = true := fun c hc => by
    rw [bne_iff_ne]
    rintro rfl
    exact hinner hc
  rw [lexemes, chunks_eq, List.dropWhile_append_of_pos hall,
    List.dropWhile_cons_of_neg (by simp [hquote])]
  dsimp only
  rw [List.dropWhile_eq_nil_iff.2 hinside]
  rfl

/-- What the pieces of a text are, or the quote that is not closed. -/
theorem lexemes_spec (v : Vocabulary) (cs : List Char) :
    (∃ quote, openQuote none cs = some quote ∧ lexemes v cs = .error quote) ∨
      openQuote none cs = none ∧ ∃ ls, lexemes v cs = .ok ls ∧
        ∀ number, Spells v number (ls.map (tokenAt number)) cs := by
  induction cs using quotes_induction with
  | plain text htext =>
    exact Or.inr ⟨openQuote_of_unquoted htext, _, lexemes_of_unquoted htext, fun number =>
      .words (spellsWords_words htext)⟩
  | unclosed text quote inner htext hquote hinner =>
    exact Or.inl ⟨quote, openQuote_unclosed htext hquote hinner,
      lexemes_unclosed htext hquote hinner⟩
  | quoted text quote inner after htext hquote hinner ih =>
    rw [openQuote_quoted htext hquote hinner, lexemes_quoted htext hquote hinner]
    rcases ih with ⟨q, hopen, herror⟩ | ⟨hclosed, ls, hls, hspells⟩
    · exact Or.inl ⟨q, hopen, by rw [herror]; rfl⟩
    · refine Or.inr ⟨hclosed, _, by rw [hls]; rfl, fun number => ?_⟩
      rw [List.map_append, List.map_cons]
      exact .quoted (spellsWords_words htext) hquote hinner (hspells number)

/-! ## Clean lines -/

section

variable {cs : List Char}

/-- Nothing is dropped if the first character stays. -/
theorem dropWhile_eq_self {p : Char → Bool} (h : ∀ c ∈ cs.head?, p c = false) :
    cs.dropWhile p = cs := by
  cases cs with
  | nil => rfl
  | cons c cs => rw [List.dropWhile_cons_of_neg (by simp [h c rfl])]

/-- A text that has no blanks at its ends. -/
theorem trim_eq_self (hhead : ∀ c ∈ cs.head?, Text.isBlank c = false)
    (hlast : ∀ c ∈ cs.getLast?, Text.isBlank c = false) : Text.trim cs = cs := by
  rw [Text.trim, dropWhile_eq_self hhead, Text.trimEnd, dropWhile_eq_self, List.reverse_reverse]
  rwa [List.head?_reverse]

/-- Behind what is dropped there is a character that stays. -/
theorem head?_dropWhile {p : Char → Bool} : ∀ c ∈ (cs.dropWhile p).head?, p c = false := by
  intro c hc
  obtain ⟨rest, hrest⟩ := List.head?_eq_some_iff.1 hc
  exact head_dropWhile_eq_false hrest

/-- A trimmed text has no blanks at its ends. -/
theorem ends_trim (cs : List Char) : (∀ c ∈ (Text.trim cs).head?, Text.isBlank c = false) ∧
    ∀ c ∈ (Text.trim cs).getLast?, Text.isBlank c = false := by
  constructor
  · intro c hc
    have hpre : Text.trim cs <+: cs.dropWhile Text.isBlank := by
      rw [← List.reverse_suffix, Text.trim, Text.trimEnd, List.reverse_reverse]
      exact List.dropWhile_suffix _
    obtain ⟨rest, hrest⟩ := List.head?_eq_some_iff.1 hc
    obtain ⟨back, hback⟩ := hpre
    rw [hrest, List.cons_append] at hback
    exact head_dropWhile_eq_false hback.symm
  · rw [Text.trim, Text.trimEnd, List.getLast?_reverse]
    exact head?_dropWhile

/-- Blanks around a text that has none at its ends are all that is trimmed off it. -/
theorem trim_surrounded {before after : List Char}
    (hblank : ∀ c ∈ before ++ after, Text.isBlank c = true)
    (hhead : ∀ c ∈ text.head?, Text.isBlank c = false)
    (hlast : ∀ c ∈ text.getLast?, Text.isBlank c = false) :
    Text.trim (before ++ text ++ after) = text := by
  obtain ⟨hbefore, hafter⟩ := List.forall_mem_append.1 hblank
  have hend : Text.trimEnd after = [] := by
    rw [Text.trimEnd, List.reverse_eq_nil_iff, List.dropWhile_eq_nil_iff]
    exact fun c hc => hafter c (List.mem_reverse.1 hc)
  rw [Text.trim, List.append_assoc, List.dropWhile_append_of_pos hbefore]
  cases text with
  | nil =>
    rw [List.nil_append, List.dropWhile_eq_nil_iff.2 hafter]
    rfl
  | cons c cs =>
    rw [List.cons_append, List.dropWhile_cons_of_neg (by simp [hhead c rfl]), ← List.cons_append,
      trimEnd_append_of_nil hend, Text.trimEnd, dropWhile_eq_self, List.reverse_reverse]
    rwa [List.head?_reverse]

/-- **What is kept of a line**: the clean line is the only text without blanks at its ends around
which the line, without its control characters, has nothing but blanks. -/
theorem clean_eq_iff {raw : List Char} : clean raw = cs ↔ ∃ before after,
    (raw.filter fun c => !isControl c) = before ++ cs ++ after ∧
      (∀ c ∈ before ++ after, Text.isBlank c = true) ∧
      (∀ c ∈ cs.head?, Text.isBlank c = false) ∧ ∀ c ∈ cs.getLast?, Text.isBlank c = false := by
  constructor
  · rintro rfl
    rw [clean]
    generalize (raw.filter fun c => !isControl c) = text
    refine ⟨text.takeWhile Text.isBlank,
      ((text.dropWhile Text.isBlank).reverse.takeWhile Text.isBlank).reverse, ?_, ?_,
      ends_trim text⟩
    · rw [Text.trim, Text.trimEnd, List.append_assoc, ← List.reverse_append,
        List.takeWhile_append_dropWhile, List.reverse_reverse, List.takeWhile_append_dropWhile]
    · intro c hc
      rcases List.mem_append.1 hc with hc | hc
      · exact List.mem_takeWhile_imp hc
      · exact List.mem_takeWhile_imp (List.mem_reverse.1 hc)
  · rintro ⟨before, after, hraw, hblank, hhead, hlast⟩
    rw [clean, hraw, trim_surrounded hblank hhead hlast]

end

/-! ## Lines and sources -/

/-- The lines of a source as they are divided into tokens, with their numbers. -/
def cleanLines (source : String) (first : Nat) : List (List Char × Nat) :=
  ((source.toList.splitOn '\n').map clean).zipIdx first

/-- Whether a line ends inside quotes. -/
def isOpen (p : List Char × Nat) : Bool :=
  (openQuote none p.1).isSome

/-- The tokens of a clean line, without its end. -/
def lineTokens (v : Vocabulary) (p : List Char × Nat) : List Token :=
  ((lexemes v p.1).toOption.getD []).map (tokenAt p.2)

/-- The tokens of clean lines, each one with its end, where blank lines have none. -/
def fullTokens (v : Vocabulary) (ps : List (List Char × Nat)) : List Token :=
  (ps.filter fun p => !p.1.isEmpty).flatMap fun p => lineTokens v p ++ [⟨.newline, "\n", p.2⟩]

/-- A line in which no quote is open at the end is spelled by its tokens. -/
theorem spells_lineTokens {p : List Char × Nat} (h : openQuote none p.1 = none) :
    Spells v p.2 (lineTokens v p) p.1 := by
  rcases lexemes_spec v p.1 with ⟨quote, hopen, -⟩ | ⟨-, ls, hls, hspells⟩
  · rw [h] at hopen
    cases hopen
  · rw [lineTokens, hls]
    exact hspells p.2

/-- An open quote makes a line fail, with its number. -/
theorem line_of_open {raw : List Char} (h : openQuote none (clean raw) = some quote) :
    line v number raw = .error ⟨number, .unclosedString quote⟩ := by
  have hfull : (clean raw).isEmpty = false := by
    cases hclean : clean raw with
    | nil =>
      rw [hclean] at h
      cases h
    | cons c cs => rfl
  rcases lexemes_spec v (clean raw) with ⟨q, hopen, herror⟩ | ⟨hclosed, -⟩
  · rw [h] at hopen
    cases hopen
    rw [line_eq, hfull, herror]
    rfl
  · rw [h] at hclosed
    cases hclosed

/-- A line without an open quote has its tokens and its end, unless it is blank. -/
theorem line_of_closed {raw : List Char} (h : openQuote none (clean raw) = none) :
    line v number raw = .ok (fullTokens v [(clean raw, number)]) := by
  rcases lexemes_spec v (clean raw) with ⟨q, hopen, -⟩ | ⟨-, ls, hls, -⟩
  · rw [h] at hopen
    cases hopen
  · rw [line_eq, hls, fullTokens]
    cases hempty : (clean raw).isEmpty with
    | true => simp [hempty]
    | false => simp [hempty, lineTokens, hls, Except.toOption]

/-- What is found of lines: the first one that ends inside quotes is the error, and without such a
line there are the tokens of all of them. -/
theorem lines_spec (v : Vocabulary) (number : Nat) (raws : List (List Char)) :
    (∃ p quote, ((raws.map clean).zipIdx number).find? isOpen = some p ∧
      openQuote none p.1 = some quote ∧
      lines v number raws = .error ⟨p.2, .unclosedString quote⟩) ∨
    ((raws.map clean).zipIdx number).find? isOpen = none ∧
      lines v number raws = .ok (fullTokens v ((raws.map clean).zipIdx number)) := by
  induction raws generalizing number with
  | nil => exact Or.inr ⟨rfl, rfl⟩
  | cons raw raws ih =>
    rw [List.map_cons, List.zipIdx_cons, lines]
    cases hquote : openQuote none (clean raw) with
    | some quote =>
      have hopen : isOpen (clean raw, number) = true := by rw [isOpen, hquote]; rfl
      refine Or.inl ⟨_, quote, List.find?_cons_of_pos hopen, hquote, ?_⟩
      rw [line_of_open hquote]
    | none =>
      have hclosed : ¬isOpen (clean raw, number) = true := by
        rw [isOpen, hquote]
        exact Bool.false_ne_true
      rw [List.find?_cons_of_neg hclosed, line_of_closed hquote]
      rcases ih (number + 1) with ⟨p, quote, hfind, hp, herror⟩ | ⟨hfind, hok⟩
      · exact Or.inl ⟨p, quote, hfind, hp, by rw [herror]; rfl⟩
      · refine Or.inr ⟨hfind, ?_⟩
        rw [hok, fullTokens, fullTokens, fullTokens, ← List.singleton_append (l := List.zipIdx _ _),
          List.filter_append, List.flatMap_append]
        rfl

/-- The same of a source. -/
theorem tokenizeFrom_spec (v : Vocabulary) (source : String) (first : Nat) :
    (∃ p quote, (cleanLines source first).find? isOpen = some p ∧
      openQuote none p.1 = some quote ∧
      tokenizeFrom v source first = .error ⟨p.2, .unclosedString quote⟩) ∨
    (cleanLines source first).find? isOpen = none ∧
      tokenizeFrom v source first = .ok (close first (fullTokens v (cleanLines source first))) := by
  rcases lines_spec v first (source.toList.splitOn '\n') with
    ⟨p, quote, hfind, hopen, herror⟩ | ⟨hfind, hok⟩
  · exact Or.inl ⟨p, quote, hfind, hopen, by rw [tokenizeFrom, herror]; rfl⟩
  · exact Or.inr ⟨hfind, by rw [tokenizeFrom, hok]; rfl⟩

/-- A line of a source that is divided into tokens ends outside quotes. -/
theorem closed_of_mem_cleanLines {source : String} {first : Nat} {p : List Char × Nat}
    (hfind : (cleanLines source first).find? isOpen = none) (hp : p ∈ cleanLines source first) :
    openQuote none p.1 = none := by
  simpa [isOpen] using List.find?_eq_none.1 hfind p hp

/-- The last token of full lines ends the last one of them. -/
theorem close_fullTokens (v : Vocabulary) (first : Nat) (ps : List (List Char × Nat)) :
    close first (fullTokens v ps) = fullTokens v ps ++ [⟨.stop, "(end)",
      (((ps.filter fun p => !p.1.isEmpty).getLast?).map Prod.snd).getD first⟩] := by
  rw [close, fullTokens]
  rcases List.eq_nil_or_concat (ps.filter fun p => !p.1.isEmpty) with hnil | ⟨init, p, hlast⟩
  · rw [hnil]
    rfl
  · rw [hlast, List.concat_eq_append, List.flatMap_append, List.flatMap_singleton,
      ← List.append_assoc, List.getLast?_append, List.getLast?_append, List.getLast?_append]
    rfl

/-- **The lexer loses no text.** In every vocabulary, the division of a source into tokens fails
exactly if a line ends inside quotes, and then with an error at the first such line. Otherwise the
tokens are, for each line that is not blank, some tokens that spell it and the end of the line, and
in the end one stop: the texts of the tokens of a line together are the line without the quotes
around strings and without the blanks outside them, and each string has exactly the text between
its quotes. -/
theorem tokenizeFrom_lossless (v : Vocabulary) (source : String) (first : Nat) :
    (∀ e, tokenizeFrom v source first = .error e ↔
      ∃ p quote, (cleanLines source first).find? isOpen = some p ∧
        openQuote none p.1 = some quote ∧ e = ⟨p.2, .unclosedString quote⟩) ∧
    ∀ ts, tokenizeFrom v source first = .ok ts →
      ∃ tokensOf : List Char × Nat → List Token,
        let full := (cleanLines source first).filter fun p => !p.1.isEmpty
        ts = full.flatMap (fun p => tokensOf p ++ [⟨.newline, "\n", p.2⟩]) ++
          [⟨.stop, "(end)", (full.getLast?.map Prod.snd).getD first⟩] ∧
        ∀ p ∈ full, tokensOf p ≠ [] ∧ Spells v p.2 (tokensOf p) p.1 ∧
          (tokensOf p).flatMap (fun t => t.text.toList) = bare none p.1 ∧
          ∀ t ∈ tokensOf p, t.line = p.2 := by
  -- either some line has an open quote, and the first of them is told, or all lines are closed
  rcases tokenizeFrom_spec v source first with ⟨p, quote, hfind, hopen, herror⟩ | ⟨hfind, hok⟩
  · rw [herror]
    refine ⟨fun e => ⟨?_, ?_⟩, by rintro ts ⟨⟩⟩
    · rintro ⟨⟩
      exact ⟨p, quote, hfind, hopen, rfl⟩
    · rintro ⟨p', quote', hfind', hopen', rfl⟩
      cases hfind.symm.trans hfind'
      cases hopen.symm.trans hopen'
      rfl
  · rw [hok]
    refine ⟨fun e => ⟨?_, ?_⟩, fun ts hts => ⟨lineTokens v, ?_, fun p hp => ?_⟩⟩
    · rintro ⟨⟩
    · rintro ⟨p', quote', hfind', -⟩
      cases hfind.symm.trans hfind'
    · cases hts
      exact close_fullTokens v first _
    · obtain ⟨hmem, hfull⟩ := List.mem_filter.1 hp
      have hspells := spells_lineTokens (v := v) (closed_of_mem_cleanLines hfind hmem)
      refine ⟨hspells.ne_nil ?_, hspells, hspells.texts, hspells.lines⟩
      obtain ⟨raw, -, hraw⟩ := List.mem_map.1 (List.fst_mem_of_mem_zipIdx hmem)
      rw [← hraw] at hfull ⊢
      obtain ⟨c, hc, hblank⟩ := exists_not_isBlank (by simpa using hfull)
      refine ⟨c, hc, ?_⟩
      rintro rfl
      cases hblank

-- control characters, blanks at the ends, and either quote between two of the other
example : cleanLines "\t p= 'a  \"b\x08'\r\n \u00a0\n\"it's\"c \t" 4 =
    [("p= 'a  \"b'".toList, 4), ([], 5), ("\"it's\"c".toList, 6)] := by cbv
example : bare none "p= 'a  \"b'".toList = "p=a  \"b".toList := by cbv
example : tokenizeFrom .standard "\t p= 'a  \"b\x08'\r\n \u00a0\n\"it's\"c \t" 4 =
    .ok [⟨.literal, "p", 4⟩, ⟨.assignment, "=", 4⟩, ⟨.string, "a  \"b", 4⟩, ⟨.newline, "\n", 4⟩,
      ⟨.string, "it's", 6⟩, ⟨.literal, "c", 6⟩, ⟨.newline, "\n", 6⟩, ⟨.stop, "(end)", 6⟩] := by cbv
example : tokenizeFrom .standard "'a' \n\t it's \"b\"\n'c" 1 =
    .error ⟨2, .unclosedString '\''⟩ := by cbv

end Lexer

end Stencil
