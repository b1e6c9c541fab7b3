import Mathlib
import Stencil.Proofs.Faults
import Stencil.Proofs.Lossless
import Stencil.Proofs.Registering
/-!
# Canonical tokens

Whatever words have been registered, a token shows its kind in its text: the words of the
vocabulary have the kind that the vocabulary gives them, numbers can be read, and literals have no
character that is a word. So the pieces of a line stand for themselves: put between blanks and
divided again they come out as they were, except that a literal may turn out to be a word.
-/

namespace Stencil

namespace Vocabulary

/-- All words have kinds of words. -/
def IsOfWords (v : Vocabulary) : Prop :=
  ∀ text kind, v.kind? text = some kind → kind.isWord = true

variable {v : Vocabulary}

/-- A word that is registered has the kind of a word. -/
theorem IsOfWords.define (h : v.IsOfWords) (text : String) {kind : TokenKind}
    (hkind : kind.isWord = true) : (v.define text kind).IsOfWords := by
  intro other k hk
  rw [Vocabulary.define] at hk
  split at hk
  · exact h other k hk
  · by_cases hother : text = other
    · subst hother
      rw [kind?, Table.get?_insert_self] at hk
      cases hk
      exact hkind
    · rw [kind?, Table.get?_insert_of_ne _ _ hother] at hk
      exact h other k hk

theorem isOfWords_standard : standard.IsOfWords := by
  have hall : ∀ e ∈ standard, e.2.isWord = true := by decide
  exact fun _ _ h => hall _ (Table.mem_of_get? h)

/-- What the text of a token is if its kind is right. A number can be read, both where it stands
and by itself. -/
def Canonical (v : Vocabulary) (t : Token) : Prop :=
  match t.kind with
  | .literal => t.text ≠ "" ∧
    ∀ c ∈ t.text.toList, c ≠ ' ' ∧ Lexer.isQuote c = false ∧ v.charKind? c = none
  | .number => (∀ c ∈ t.text.toList, c.isDigit = true ∨ c = '.') ∧ v.kind? t.text = none ∧
    ∃ n, Value.numberOfText t.text = .ok n
  | .string | .newline | .stop => True
  | kind => v.kind? t.text = some kind

end Vocabulary

namespace Grammar

/-- The grammars that arise when words are registered, with any rules, from none or from those of
the standard vocabulary. -/
inductive Grown : Grammar → Prop
  | empty : Grown (ofVocabulary [])
  | standard : Grown (ofVocabulary .standard)
  | register {g : Grammar} (text : String) (power : Nat) (prefixRule : Option PrefixRule)
    (infixRule : Option InfixRule) :
    Grown g → Grown (g.register text power prefixRule infixRule)

/-- So it is for every grammar that words have been registered in. -/
theorem Grown.isOfWords {g : Grammar} (h : Grown g) : g.vocabulary.IsOfWords := by
  induction h with
  | empty => exact fun _ _ h => nomatch h
  | standard => exact Vocabulary.isOfWords_standard
  | register text _ _ _ _ ih => exact ih.define text rfl

/-- The standard grammar registers its own words in this way. -/
theorem grown_standard : Grown standard := by
  have hadd : ∀ (rs : List Registration) (g : Grammar), Grown g → Grown (rs.foldl add g) := by
    intro rs
    induction rs with
    | nil => exact fun _ hg => hg
    | cons r rs ih => exact fun g hg => ih (g.add r) (.register _ _ _ _ hg)
  exact hadd _ _ .standard

end Grammar

namespace Lexer

variable {v : Vocabulary} {cs text : List Char} {x : Lexeme} {number : Nat}

/-! ## Pieces of a word -/

/-- What is known of a piece of a word by its kind. -/
theorem shape_of_mem_word (h : x ∈ word v cs) : v.kind? (String.ofList x.2) = some x.1 ∨
    x.1 = .number ∧ isNumeral x.2 = true ∧ v.kind? (String.ofList x.2) = none ∨
    x.1 = .literal ∧ ∀ c ∈ x.2, isInner v c = true := by
  fun_induction word v cs with
  | case1 => cases h
  | case2 c rest kind hkind =>
    rw [List.mem_singleton.1 h]
    exact Or.inl hkind
  | case3 c rest hkind hnumeral =>
    rw [List.mem_singleton.1 h]
    exact Or.inr (Or.inl ⟨rfl, hnumeral, hkind⟩)
  | case4 c rest _ _ last kind hlast ih =>
    rcases List.mem_append.1 h with h | h
    · exact ih h
    · rw [List.mem_singleton.1 h]
      exact Or.inl hlast
  | case5 c rest _ _ last _ kind hfirst ih =>
    rcases List.mem_cons.1 h with rfl | h
    · exact Or.inl hfirst
    · exact ih h
  -- nothing cuts the word, so it is a literal whole
  | case6 c rest _ _ last _ hfirst hafter =>
    rw [List.mem_singleton.1 h]
    refine Or.inr (Or.inr ⟨rfl, List.forall_mem_cons.2 ⟨?_, List.dropWhile_eq_nil_iff.1 hafter⟩⟩)
    rw [isInner, hfirst]
    rfl
  -- cut inside: a literal up to the cut, the character that cuts, and what is behind
  | case7 c rest _ _ last _ hfirst d after hafter ih =>
    rcases List.mem_cons.1 h with rfl | h
    · refine Or.inr (Or.inr ⟨rfl, List.forall_mem_cons.2 ⟨?_, fun a ha => ?_⟩⟩)
      · rw [isInner, hfirst]
        rfl
      · exact List.all_eq_true.1 List.all_takeWhile a ha
    · rcases List.mem_cons.1 h with rfl | h
      · have hd : isInner v d = false := head_dropWhile_eq_false hafter
        rw [isInner, Option.isNone_eq_false_iff, Option.isSome_iff_exists] at hd
        obtain ⟨kind, hkind⟩ := hd
        rw [hkind]
        exact Or.inl hkind
      · exact ih h

/-- Without a character that is a word by itself nothing is cut off. -/
theorem word_of_isInner (hne : cs ≠ []) (h : ∀ c ∈ cs, isInner v c = true) :
    ∃ kind, word v cs = [(kind, cs)] := by
  have hnone : ∀ c ∈ cs, v.charKind? c = none := fun c hc => Option.isNone_iff_eq_none.1 (h c hc)
  fun_cases word v cs with
  | case1 => exact absurd rfl hne
  | case2 c rest kind => exact ⟨kind, rfl⟩
  | case3 c rest => exact ⟨.number, rfl⟩
  | case4 c rest _ _ last kind hlast =>
    cases (hnone last (List.getLast_mem _)).symm.trans hlast
  | case5 c rest _ _ last _ kind hfirst =>
    cases (hnone c List.mem_cons_self).symm.trans hfirst
  | case6 c rest => exact ⟨.literal, rfl⟩
  | case7 c rest _ _ last _ _ d after hafter =>
    have hd : isInner v d = false := head_dropWhile_eq_false hafter
    have hmem : d ∈ c :: rest :=
      List.mem_cons_of_mem c ((List.dropWhile_suffix _).subset (hafter ▸ List.mem_cons_self))
    rw [h d hmem] at hd
    cases hd

/-- **The pieces of a word are words that stay whole**, and their kinds stay but for literals. -/
theorem word_of_mem_word (h : x ∈ word v cs) :
    ∃ kind, word v x.2 = [(kind, x.2)] ∧ (x.1 ≠ .literal → kind = x.1) := by
  have hne := (isPiece_of_mem_word h).ne_nil
  rcases shape_of_mem_word h with hkind | ⟨hnumber, hnumeral, hkind⟩ | ⟨hliteral, hinner⟩
  · exact ⟨x.1, word_of_kind? hne hkind, fun _ => rfl⟩
  · exact ⟨.number, word_of_isNumeral hne hkind hnumeral, fun _ => hnumber.symm⟩
  · obtain ⟨kind, hword⟩ := word_of_isInner hne hinner
    exact ⟨kind, hword, fun hnot => absurd hliteral hnot⟩

/-! ## Tokens are canonical -/

/-- A word of the vocabulary with its own kind is canonical. -/
theorem canonical_of_kind? {t : Token} (h : v.kind? t.text = some t.kind)
    (hword : t.kind.isWord = true) : v.Canonical t := by
  obtain ⟨kind, tokenText, line⟩ := t
  cases kind with
  | literal | string | number | newline | stop => cases hword
  | _ => exact h

/-- Each piece of a word is canonical, since the division looks at the vocabulary only. -/
theorem canonical_of_mem_word (hv : v.IsOfWords) (hquote : Unquoted cs) (hblank : ' ' ∉ cs)
    (h : x ∈ word v cs) : v.Canonical (tokenAt number x) := by
  have hpiece := isPiece_of_mem_word h
  obtain ⟨kind, piece⟩ := x
  rcases shape_of_mem_word h with hkind | ⟨rfl, hnumeral, hkind⟩ | ⟨rfl, hinner⟩
  · exact canonical_of_kind? hkind (hv _ _ hkind)
  · rw [isNumeral, Bool.and_eq_true, Bool.and_eq_true, List.all_eq_true,
      Option.isSome_iff_exists] at hnumeral
    obtain ⟨⟨-, hchars⟩, n, hn⟩ := hnumeral
    refine ⟨fun c hc => ?_, hkind, n, ?_⟩
    · have hc' := hchars c (by rwa [tokenAt, String.toList_ofList] at hc)
      simpa using hc'
    · rw [Value.numberOfText, tokenAt, String.toList_ofList, hn]
  · refine ⟨fun hempty => hpiece.ne_nil (String.ofList_eq_empty_iff.1 hempty), fun c hc => ?_⟩
    rw [tokenAt, String.toList_ofList] at hc
    have hin := hpiece.chars hc
    refine ⟨?_, hquote c hin, Option.isNone_iff_eq_none.1 (hinner c hc)⟩
    rintro rfl
    exact hblank hin

/-- Texts outside quotes have no quotes. -/
theorem unquoted_of_mem_chunks {parts : List Chunk} (h : chunks cs = .ok parts)
    (hmem : .plain text ∈ parts) : Unquoted text := by
  fun_induction chunks cs generalizing parts with
  | case1 cs =>
    cases h
    have heq : Chunk.plain text = .plain _ := List.mem_singleton.1 hmem
    cases heq
    exact unquoted_takeWhile cs
  | case2 => cases h
  | case3 cs _ quote rest _ _ q after _ =>
    rename_i ih
    cases hmore : chunks after with
    | error e =>
      rw [hmore] at h
      cases h
    | ok more =>
      rw [hmore] at h
      cases h
      rcases List.mem_cons.1 hmem with heq | hmem
      · change Chunk.plain text = .plain _ at heq
        cases heq
        exact unquoted_takeWhile cs
      rcases List.mem_cons.1 hmem with heq | hmem
      · change Chunk.plain text = .quoted _ at heq
        cases heq
      · exact ih hmore hmem

theorem not_mem_of_mem_words {w : List Char} (h : w ∈ words text) : ' ' ∉ w :=
  not_mem_of_mem_splitOn (List.mem_of_mem_filter h)

/-- A word has no characters but those of its text. -/
theorem subset_of_mem_words {w : List Char} (h : w ∈ words text) : w ⊆ text :=
  (sublist_of_mem_splitOn (List.mem_of_mem_filter h)).subset

/-- The tokens of every source are canonical. -/
theorem canonical_of_tokenizeFrom (hv : v.IsOfWords) {source : String} {first : Nat}
    {ts : List Token} (h : tokenizeFrom v source first = .ok ts) : ∀ t ∈ ts, v.Canonical t := by
  intro t ht
  obtain ⟨init, hlines, rfl⟩ := tokenizeFrom_eq_ok.1 h
  rcases List.mem_append.1 ht with ht | ht
  · obtain ⟨raw, -, k, here, hline, ht⟩ := mem_lines hlines ht
    rcases mem_line hline ht with rfl | ⟨parts, chunk, x, hparts, hchunk, hx, rfl⟩
    · trivial
    · cases chunk with
      | plain text =>
        obtain ⟨w, hw, hx⟩ := List.mem_flatMap.1 hx
        have hquote := unquoted_of_mem_chunks hparts hchunk
        exact canonical_of_mem_word hv (fun c hc => hquote c (subset_of_mem_words hw hc))
          (not_mem_of_mem_words hw) hx
      | quoted text =>
        rw [List.mem_singleton.1 hx]
        trivial
  · rw [List.mem_singleton.1 ht]
    trivial

/-! ## Pieces between blanks -/

/-- A text without control characters and without blanks at its ends is clean. -/
theorem clean_eq_self (hcontrol : ∀ c ∈ cs, isControl c = false)
    (hhead : ∀ c ∈ cs.head?, Text.isBlank c = false)
    (hlast : ∀ c ∈ cs.getLast?, Text.isBlank c = false) : clean cs = cs := by
  rw [clean, List.filter_eq_self.2 fun c hc => by rw [hcontrol c hc]; rfl, trim_eq_self hhead hlast]

/-- Between the ends of parts and of the whole with blanks in between there is no difference. -/
theorem ends_intercalate {parts : List (List Char)} (h : ∀ part ∈ parts, part ≠ []) :
    ([' '].intercalate parts).head? = parts.flatten.head? ∧
      ([' '].intercalate parts).getLast? = parts.flatten.getLast? := by
  induction parts with
  | nil => exact ⟨rfl, rfl⟩
  | cons part parts ih =>
    obtain ⟨hpart, hparts⟩ := List.forall_mem_cons.1 h
    obtain ⟨-, hlast⟩ := ih hparts
    obtain ⟨c, cs, rfl⟩ := List.exists_cons_of_ne_nil hpart
    cases parts with
    | nil =>
      rw [List.intercalate_singleton, List.flatten_singleton]
      exact ⟨rfl, rfl⟩
    | cons next parts =>
      refine ⟨by rw [List.intercalate_cons_cons]; rfl, ?_⟩
      obtain ⟨d, hd⟩ : ∃ d, (next :: parts).flatten.getLast? = some d := by
        obtain ⟨a, as, rfl⟩ := List.exists_cons_of_ne_nil (hparts next List.mem_cons_self)
        exact ⟨_, List.getLast?_eq_some_getLast (List.cons_ne_nil _ _)⟩
      have hleft : ([' '].intercalate ((c :: cs) :: next :: parts)).getLast? = some d := by
        rw [List.intercalate_cons_cons, List.getLast?_append, hlast, hd]
        rfl
      have hright : ((c :: cs) :: next :: parts).flatten.getLast? = some d := by
        rw [List.flatten_cons, List.getLast?_append, hd]
        rfl
      exact hleft.trans hright.symm

/-- What remains of a text without its blanks has the same ends, if these are no blanks. -/
theorem ends_filter (hhead : ∀ c ∈ text.head?, Text.isBlank c = false)
    (hlast : ∀ c ∈ text.getLast?, Text.isBlank c = false) :
    (text.filter fun c => c != ' ').head? = text.head? ∧
      (text.filter fun c => c != ' ').getLast? = text.getLast? := by
  have hkept : ∀ c, Text.isBlank c = false → (c != ' ') = true := by
    intro c hc
    rw [bne_iff_ne]
    rintro rfl
    cases hc
  rcases List.eq_nil_or_concat text with rfl | ⟨init, d, rfl⟩
  · exact ⟨rfl, rfl⟩
  · rw [List.concat_eq_append] at hhead hlast ⊢
    constructor
    · cases init with
      | nil =>
        rw [List.nil_append, List.filter_cons_of_pos (p := (· != ' ')) (hkept d (hhead d rfl))]
        rfl
      | cons c init =>
        rw [List.cons_append, List.filter_cons_of_pos (p := (· != ' ')) (hkept c (hhead c rfl))]
        rfl
    · have hd : (d != ' ') = true := hkept d (hlast d (by simp))
      rw [List.filter_append, List.filter_cons_of_pos (p := (· != ' ')) hd]
      simp

/-- Of the division of a piece there is one piece, of the same kind unless it was a literal. -/
def Stays (x y : Lexeme) : Prop :=
  y.2 = x.2 ∧ (x.1 ≠ .literal → y.1 = x.1)

/-- To divide pieces again gives the same pieces. -/
theorem stays_flatMap_word {xs : List Lexeme} (h : ∀ x ∈ xs, ∃ w, x ∈ word v w) :
    List.Forall₂ Stays xs ((xs.map Prod.snd).flatMap (word v)) := by
  induction xs with
  | nil => exact .nil
  | cons x xs ih =>
    obtain ⟨⟨w, hw⟩, hxs⟩ := List.forall_mem_cons.1 h
    obtain ⟨kind, hword, hkind⟩ := word_of_mem_word hw
    rw [List.map_cons, List.flatMap_cons, hword]
    exact .cons ⟨rfl, hkind⟩ (ih hxs)

/-- The texts of the pieces that a text without quotes is divided into. -/
def pieces (v : Vocabulary) (text : List Char) : List (List Char) :=
  ((words text).flatMap (word v)).map Prod.snd

theorem ne_nil_of_mem_pieces {piece : List Char} (h : piece ∈ pieces v text) : piece ≠ [] := by
  obtain ⟨x, hx, rfl⟩ := List.mem_map.1 h
  obtain ⟨w, -, hx⟩ := List.mem_flatMap.1 hx
  exact (isPiece_of_mem_word hx).ne_nil

/-- No character of a text is lost in its pieces but blanks. -/
theorem flatten_pieces (v : Vocabulary) (text : List Char) :
    (pieces v text).flatten = text.filter fun c => c != ' ' := by
  rw [pieces, ← List.flatMap_def, List.flatMap_assoc]
  simp only [flatMap_word]
  rw [← flatten_words, List.flatMap_id']

/-- A line that is not blank has pieces. -/
theorem pieces_ne_nil {raw : List Char} (hne : (clean raw).isEmpty = false) :
    pieces v (clean raw) ≠ [] := by
  intro hnil
  obtain ⟨c, hc, hblank⟩ := exists_not_isBlank hne
  have hflat := flatten_pieces v (clean raw)
  rw [hnil] at hflat
  have hnone := List.filter_eq_nil_iff.1 hflat.symm c hc
  rw [bne_iff_ne, ne_eq, not_not] at hnone
  rw [hnone] at hblank
  cases hblank

/-- The words of a text that is put together from words are these words. -/
theorem words_intercalate {parts : List (List Char)} (hne : parts ≠ [])
    (hparts : ∀ part ∈ parts, part ≠ []) (hblank : ∀ part ∈ parts, ' ' ∉ part) :
    words ([' '].intercalate parts) = parts := by
  rw [words, List.splitOn_intercalate _ hblank hne]
  exact List.filter_eq_self.2 fun part hpart => by simpa using hparts part hpart

/-- Parts of a line without quotes and dropped characters, with blanks between them, are divided by
themselves, unless their ends are trimmed. -/
theorem tokenizeFrom_intercalate {parts : List (List Char)} (hne : parts ≠ [])
    (hparts : ∀ part ∈ parts, part ≠ [])
    (hchars : ∀ c ∈ parts.flatten,
      c ≠ ' ' ∧ c ≠ '\n' ∧ isQuote c = false ∧ isControl c = false)
    (hhead : ∀ c ∈ parts.flatten.head?, Text.isBlank c = false)
    (hlast : ∀ c ∈ parts.flatten.getLast?, Text.isBlank c = false) (first : Nat) :
    tokenizeFrom v (String.ofList ([' '].intercalate parts)) first =
      .ok ((parts.flatMap (word v)).map (tokenAt first) ++
        [⟨.newline, "\n", first⟩, ⟨.stop, "(end)", first⟩]) := by
  have hline : ∀ c ∈ [' '].intercalate parts,
      c ≠ '\n' ∧ isQuote c = false ∧ isControl c = false := by
    intro c hc
    rcases mem_intercalate hc with rfl | ⟨part, hpart, hin⟩
    · exact ⟨nofun, rfl, rfl⟩
    · exact (hchars c (List.mem_flatten_of_mem hpart hin)).2
  have hclean : clean ([' '].intercalate parts) = [' '].intercalate parts := by
    obtain ⟨hhead', hlast'⟩ := ends_intercalate hparts
    exact clean_eq_self (fun c hc => (hline c hc).2.2) (hhead' ▸ hhead) (hlast' ▸ hlast)
  have hwords := words_intercalate hne hparts fun part hpart hc =>
    (hchars ' ' (List.mem_flatten_of_mem hpart hc)).1 rfl
  have hempty : ([' '].intercalate parts).isEmpty = false := by
    rw [List.isEmpty_eq_false_iff]
    intro hnil
    rw [hnil] at hwords
    exact hne hwords.symm
  have hunquoted : Unquoted ([' '].intercalate parts) := fun c hc => (hline c hc).2.1
  rw [tokenizeFrom, String.toList_ofList, List.splitOn_eq_singleton fun hc => (hline _ hc).1 rfl,
    lines, line_eq, hclean, hempty, lexemes_of_unquoted hunquoted, hwords]
  simp [lines, Except.map, close]

/-- Texts are put together like lists of characters. -/
theorem intercalate_eq_ofList (texts : List String) :
    " ".intercalate texts = String.ofList ([' '].intercalate (texts.map String.toList)) := by
  rw [← String.toList_inj, String.toList_ofList, String.toList_intercalate]
  rfl

/-- **Pieces between blanks.** If the pieces of a clean line without quotes are put between blanks
and divided again, each of them is one piece, of the same kind unless it was a literal. -/
theorem tokenizeFrom_pieces {raw : List Char} (hline : '\n' ∉ raw)
    (hquote : Unquoted (clean raw)) (hne : (clean raw).isEmpty = false) (v : Vocabulary)
    (first : Nat) :
    let xs := (words (clean raw)).flatMap (word v)
    ∃ ys, tokenizeFrom v (" ".intercalate (xs.map fun x => String.ofList x.2)) first =
        .ok (ys.map (tokenAt first) ++ [⟨.newline, "\n", first⟩, ⟨.stop, "(end)", first⟩]) ∧
      List.Forall₂ Stays xs ys := by
  intro xs
  have hflat := flatten_pieces v (clean raw)
  obtain ⟨hhead, hlast⟩ : (∀ c ∈ (clean raw).head?, Text.isBlank c = false) ∧
      ∀ c ∈ (clean raw).getLast?, Text.isBlank c = false := ends_trim _
  obtain ⟨hhead', hlast'⟩ := ends_filter hhead hlast
  have hchars : ∀ c ∈ (pieces v (clean raw)).flatten,
      c ≠ ' ' ∧ c ≠ '\n' ∧ isQuote c = false ∧ isControl c = false := by
    intro c hc
    obtain ⟨hin, hblank⟩ := List.mem_filter.1 (hflat ▸ hc)
    have hraw : c ∈ raw := (clean_sublist raw).subset hin
    have hcontrol := (List.mem_filter.1 ((clean_within raw).subset hin)).2
    exact ⟨bne_iff_ne.1 hblank, fun heq => hline (heq ▸ hraw), hquote c hin,
      by simpa using hcontrol⟩
  refine ⟨(pieces v (clean raw)).flatMap (word v), ?_, stays_flatMap_word fun x hx => ?_⟩
  · have htexts : (xs.map fun x => String.ofList x.2).map String.toList =
        pieces v (clean raw) := by
      rw [List.map_map]
      exact List.map_congr_left fun x _ => String.toList_ofList
    rw [intercalate_eq_ofList, htexts]
    exact tokenizeFrom_intercalate (pieces_ne_nil hne) (fun _ => ne_nil_of_mem_pieces) hchars
      (by rwa [hflat, hhead']) (by rwa [hflat, hlast']) first
  · obtain ⟨w, -, hx⟩ := List.mem_flatMap.1 hx
    exact ⟨w, hx⟩

/-! ## Lines between blanks -/

/-- Whether a token is one of the words of a line. -/
def isWordIn (number : Nat) (t : Token) : Bool :=
  t.line == number && t.kind != .newline && t.kind != .stop

/-- No word ends a line or a source. -/
theorem SpellsWords.ne_end (hv : v.IsOfWords) {tokens : List Token}
    (h : SpellsWords v number tokens text) : ∀ t ∈ tokens, t.kind ≠ .newline ∧ t.kind ≠ .stop := by
  have hword : ∀ t ∈ tokens, t.kind = .newline ∨ t.kind = .stop → t.kind.isWord = true :=
    fun t ht hkind => hv _ _ (h.kinds t ht (Or.inr hkind))
  intro t ht
  constructor <;> intro hkind
  · have hfalse := hword t ht (Or.inl hkind)
    rw [hkind] at hfalse
    cases hfalse
  · have hfalse := hword t ht (Or.inr hkind)
    rw [hkind] at hfalse
    cases hfalse

/-- Nor does any token within a line. -/
theorem Spells.ne_end (hv : v.IsOfWords) {tokens : List Token} (h : Spells v number tokens text) :
    ∀ t ∈ tokens, t.kind ≠ .newline ∧ t.kind ≠ .stop := by
  induction h with
  | words hwords => exact hwords.ne_end hv
  | quoted hwords _ _ _ ih =>
    exact List.forall_mem_append.2 ⟨hwords.ne_end hv,
      List.forall_mem_cons.2 ⟨⟨nofun, nofun⟩, ih⟩⟩

/-- A line without string tokens has no quotes. -/
theorem Spells.unquoted {tokens : List Token} (h : Spells v number tokens text)
    (hstring : ∀ t ∈ tokens, t.kind ≠ .string) : Unquoted text := by
  cases h with
  | words hwords => exact hwords.unquoted
  | quoted => exact absurd rfl (hstring _ (List.mem_append_right _ List.mem_cons_self))

/-- Lines have their tokens one after the other. -/
theorem fullTokens_cons (v : Vocabulary) (p : List Char × Nat) (ps : List (List Char × Nat)) :
    fullTokens v (p :: ps) = fullTokens v [p] ++ fullTokens v ps := by
  rw [fullTokens, fullTokens, fullTokens, ← List.flatMap_append, ← List.filter_append,
    List.singleton_append]

/-- The words of a line are found by its number. -/
theorem filter_fullTokens_singleton (hv : v.IsOfWords) {p : List Char × Nat}
    (hclosed : openQuote none p.1 = none) (n : Nat) : (fullTokens v [p]).filter (isWordIn n) =
      if p.1.isEmpty = false ∧ p.2 = n then lineTokens v p else [] := by
  have hspells := spells_lineTokens (v := v) hclosed
  cases hempty : p.1.isEmpty with
  | true => simp [fullTokens, hempty]
  | false =>
    have hfull : fullTokens v [p] = lineTokens v p ++ [⟨.newline, "\n", p.2⟩] := by
      simp [fullTokens, hempty]
    have hend : ¬isWordIn n ⟨.newline, "\n", p.2⟩ = true := by simp [isWordIn]
    rw [hfull, List.filter_append, List.filter_cons_of_neg hend, List.filter_nil, List.append_nil]
    by_cases hn : p.2 = n
    · rw [if_pos ⟨rfl, hn⟩]
      refine List.filter_eq_self.2 fun t ht => ?_
      simp [isWordIn, hspells.lines t ht, hn, hspells.ne_end hv t ht]
    · rw [if_neg fun h => hn h.2]
      refine List.filter_eq_nil_iff.2 fun t ht => ?_
      simp [isWordIn, hspells.lines t ht, hn]

/-- The words of a line are the tokens of this line alone. -/
theorem exists_lineTokens (hv : v.IsOfWords) {ps : List (List Char × Nat)}
    (hnodup : (ps.map Prod.snd).Nodup) (hclosed : ∀ p ∈ ps, openQuote none p.1 = none) {n : Nat}
    (hne : (fullTokens v ps).filter (isWordIn n) ≠ []) :
    ∃ p ∈ ps, p.1.isEmpty = false ∧ p.2 = n ∧
      (fullTokens v ps).filter (isWordIn n) = lineTokens v p := by
  induction ps with
  | nil => exact absurd rfl hne
  | cons p ps ih =>
    obtain ⟨hhere, hrest⟩ := List.forall_mem_cons.1 hclosed
    rw [List.map_cons, List.nodup_cons] at hnodup
    rw [fullTokens_cons, List.filter_append, filter_fullTokens_singleton hv hhere] at hne ⊢
    by_cases hp : p.1.isEmpty = false ∧ p.2 = n
    · refine ⟨p, List.mem_cons_self, hp.1, hp.2, ?_⟩
      have hnone : (fullTokens v ps).filter (isWordIn n) = [] := by
        by_contra hsome
        obtain ⟨q, hq, -, hqn, -⟩ := ih hnodup.2 hrest hsome
        exact hnodup.1 (List.mem_map.2 ⟨q, hq, hqn.trans hp.2.symm⟩)
      rw [if_pos hp, hnone, List.append_nil]
    · rw [if_neg hp, List.nil_append] at hne ⊢
      obtain ⟨q, hq, hfull⟩ := ih hnodup.2 hrest hne
      exact ⟨q, List.mem_cons_of_mem p hq, hfull⟩

/-- A line that has no strings, once more: its words between blanks are the same words, of the same
kinds unless they were literals. -/
theorem tokenizeFrom_words (hv : v.IsOfWords) {source : String} {first : Nat} {ts : List Token}
    (h : tokenizeFrom v source first = .ok ts) (n : Nat)
    (hne : ts.filter (isWordIn n) ≠ []) (hstring : ∀ t ∈ ts.filter (isWordIn n), t.kind ≠ .string)
    (first' : Nat) :
    ∃ us, tokenizeFrom v (" ".intercalate ((ts.filter (isWordIn n)).map Token.text)) first' =
        .ok (us ++ [⟨.newline, "\n", first'⟩, ⟨.stop, "(end)", first'⟩]) ∧
      List.Forall₂ (fun t u => u.text = t.text ∧ (t.kind ≠ .literal → u.kind = t.kind))
        (ts.filter (isWordIn n)) us := by
  -- the tokens are those of the lines, since no quote is open
  obtain ⟨hfind, rfl⟩ : (cleanLines source first).find? isOpen = none ∧
      ts = close first (fullTokens v (cleanLines source first)) := by
    rcases tokenizeFrom_spec v source first with ⟨p, quote, -, -, herror⟩ | ⟨hfind, hok⟩
    · cases h.symm.trans herror
    · exact ⟨hfind, Except.ok.inj (h.symm.trans hok)⟩
  have hstop : ∀ l, isWordIn n ⟨.stop, "(end)", l⟩ = false := fun l => by simp [isWordIn]
  rw [close, List.filter_append, List.filter_cons_of_neg (by simp [hstop]), List.filter_nil,
    List.append_nil] at hne hstring ⊢
  have hnodup : ((cleanLines source first).map Prod.snd).Nodup := by
    rw [cleanLines, List.zipIdx_map_snd]
    exact List.nodup_range'
  have hclosed := fun p hp => closed_of_mem_cleanLines (p := p) hfind hp
  -- the words with this number are those of one line
  obtain ⟨p, hp, hempty, -, hfull⟩ := exists_lineTokens hv hnodup hclosed hne
  rw [hfull] at hstring ⊢
  have hquote := (spells_lineTokens (hclosed p hp)).unquoted hstring
  obtain ⟨raw, hraw, hclean⟩ := List.mem_map.1 (List.fst_mem_of_mem_zipIdx hp)
  rw [lineTokens, lexemes_of_unquoted hquote]
  rw [← hclean] at hquote hempty ⊢
  have hline : '\n' ∉ raw := not_mem_of_mem_splitOn hraw
  obtain ⟨ys, hys, hstays⟩ := tokenizeFrom_pieces hline hquote hempty v first'
  refine ⟨ys.map (tokenAt first'), ?_, ?_⟩
  · rw [← hys, Except.toOption, Option.getD_some, List.map_map]
    rfl
  · rw [List.forall₂_map_left_iff, List.forall₂_map_right_iff]
    exact hstays.imp fun x y hxy => ⟨congrArg String.ofList hxy.1, hxy.2⟩

end Lexer

/-! ## Numbers can be read -/

/-- The watch of tokens whose numbers can be read: no error is one of numbers. -/
def Watch.numbers : Watch where
  Known t := t.kind = .number → ∃ n, Number.ofText? t.text.toList = some n
  Told _ := True
  Due e := ∀ text, e.fault ≠ .invalidNumber text
  told _ _ := trivial
  common _ fault _ h := by
    rintro text rfl
    cases h
  number t ht hkind hnone := by
    obtain ⟨n, hn⟩ := ht hkind
    cases hn.symm.trans hnone

/-- What the watch of numbers asks of a token is part of its being canonical. -/
theorem Vocabulary.Canonical.known {v : Vocabulary} {t : Token} (h : v.Canonical t) :
    Watch.numbers.Known t := by
  intro hkind
  unfold Canonical at h
  rw [hkind] at h
  obtain ⟨-, -, n, hn⟩ := h
  rw [Value.numberOfText] at hn
  split at hn
  · next m hm => exact ⟨m, hm⟩
  · cases hn

/-- A number that can be read is not refused as a leaf. -/
theorem Level.due_of_leaf {t : Token} (ht : Watch.numbers.Known t) {c : Cursor} {e : SyntaxError}
    (h : leaf t c = .error e) : Watch.numbers.Due e := by
  generalize hr : leaf t = r at h
  unfold leaf at hr
  split at hr
  case h_3 hkind =>
    obtain ⟨n, hn⟩ := ht hkind
    rw [hn] at hr
    subst hr
    cases h
  all_goals
    subst hr
    cases h
  all_goals exact fun _ => nofun

/-- Nor is it refused as a text. -/
theorem Level.due_of_contentText {t : Token} (ht : Watch.numbers.Known t) {c : Cursor}
    {e : SyntaxError} (h : contentText t c = .error e) : Watch.numbers.Due e := by
  generalize hr : contentText t = r at h
  unfold contentText at hr
  split at hr
  · next hkind =>
    obtain ⟨n, hn⟩ := ht hkind
    rw [hn] at hr
    subst hr
    cases h
  · subst hr
    cases h

/-- The division into tokens complains of quotes only. -/
theorem Lexer.due_of_tokenizeFrom {v : Vocabulary} {source : String} {first : Nat} {e : SyntaxError}
    (h : tokenizeFrom v source first = .error e) : Watch.numbers.Due e := by
  rcases tokenizeFrom_spec v source first with ⟨p, quote, -, -, herror⟩ | ⟨-, hok⟩
  · obtain rfl := Except.error.inj (herror.symm.trans h)
    intro text hfault
    cases hfault
  · cases hok.symm.trans h

/-- Any rules may be registered that do not refuse numbers by themselves. -/
theorem Dialect.watched_numbers {d : Dialect} (hv : d.grammar.vocabulary.IsOfWords)
    (hrules : d.grammar.Watched Watch.numbers) : d.Watched Watch.numbers where
  rules := hrules
  tokens _ _ _ _ _ h t ht := (Lexer.canonical_of_tokenizeFrom hv h t ht).known
  lexical _ _ _ _ _ h := Lexer.due_of_tokenizeFrom h
  deep _ _ _ := nofun

namespace Grammar

open Lexer

/-- **Tokens are canonical, and lexing is stable.** Whatever words have been registered, every token
of a source shows its kind in its text. No number is refused, neither where its token is read, nor,
if the registered rules do not make up errors of numbers by themselves, while any source is
compiled. And the words of a line without strings, put between blanks and divided again, are the
same words, of the same kinds unless they were literals. -/
theorem Grown.tokens_canonical {g : Grammar} (hg : g.Grown) {source : String} {first : Nat}
    {ts : List Token} (h : tokenizeFrom g.vocabulary source first = .ok ts) :
    (∀ t ∈ ts, g.vocabulary.Canonical t) ∧
    (∀ t ∈ ts, ∀ c e text, e.fault = .invalidNumber text →
      Level.leaf t c ≠ .error e ∧ Level.contentText t c ≠ .error e) ∧
    (g.Watched Watch.numbers → ∀ modifier? maxDepth name source e,
      (Dialect.mk g modifier? maxDepth).compile name source = .error e →
      ∀ text, e.error.fault ≠ .invalidNumber text) ∧
    ∀ n, ts.filter (isWordIn n) ≠ [] → (∀ t ∈ ts.filter (isWordIn n), t.kind ≠ .string) →
      ∀ first', ∃ us,
        tokenizeFrom g.vocabulary (" ".intercalate ((ts.filter (isWordIn n)).map Token.text))
          first' = .ok (us ++ [⟨.newline, "\n", first'⟩, ⟨.stop, "(end)", first'⟩]) ∧
        List.Forall₂ (fun t u => u.text = t.text ∧ (t.kind ≠ .literal → u.kind = t.kind))
          (ts.filter (isWordIn n)) us := by
  have hv := hg.isOfWords
  have hcanonical := canonical_of_tokenizeFrom hv h
  refine ⟨hcanonical, fun t ht c e text he => ?_, fun hrules modifier? maxDepth name src e he => ?_,
    tokenizeFrom_words hv h⟩
  · have hknown := (hcanonical t ht).known
    exact ⟨fun hleaf => Level.due_of_leaf hknown hleaf text he,
      fun hcontent => Level.due_of_contentText hknown hcontent text he⟩
  · have hd : (Dialect.mk g modifier? maxDepth).Watched Watch.numbers :=
      Dialect.watched_numbers hv hrules
    rw [Dialect.compile] at he
    cases hparse : (Dialect.mk g modifier? maxDepth).parseSource src with
    | ok n =>
      rw [hparse] at he
      cases he
    | error e' =>
      rw [hparse] at he
      cases he
      exact hd.parseSource (fun _ hok t ht => (canonical_of_tokenizeFrom hv hok t ht).known)
        (fun _ herror => due_of_tokenizeFrom herror) hparse

/-- A word that has been registered divides the words around it, and the line is divided the same
way again when it stands alone and has blanks. -/
theorem tokens_canonical_registered :
    let g : Grammar := standard.register "~" 40 none none
    let ts : List Token := [⟨.literal, "a", 3⟩, ⟨.keyword, "~", 3⟩, ⟨.number, "12", 3⟩,
      ⟨.logical, "and", 3⟩, ⟨.newline, "\n", 3⟩, ⟨.stop, "(end)", 3⟩]
    let us : List Token := [⟨.literal, "a", 1⟩, ⟨.keyword, "~", 1⟩, ⟨.number, "12", 1⟩,
      ⟨.logical, "and", 1⟩]
    tokenizeFrom g.vocabulary "a~12 and" 3 = .ok ts ∧ g.Watched Watch.numbers ∧
      (∀ t ∈ ts, g.vocabulary.Canonical t) ∧
      (∀ source e, (Dialect.mk g (fun _ => none) 64).compile "page" source = .error e →
        ∀ text, e.error.fault ≠ .invalidNumber text) ∧
      ∃ us', tokenizeFrom g.vocabulary "a ~ 12 and" 1 =
          .ok (us' ++ [⟨.newline, "\n", 1⟩, ⟨.stop, "(end)", 1⟩]) ∧ us' = us ∧
        List.Forall₂ (fun t u => u.text = t.text ∧ (t.kind ≠ .literal → u.kind = t.kind))
          (ts.filter (isWordIn 3)) us' := by
  intro g ts us
  have hvocab : g.vocabulary = Vocabulary.standard.define "~" .keyword := by
    change standard.vocabulary.define "~" .keyword = _
    rw [vocabulary_standard]
  have htokens : tokenizeFrom g.vocabulary "a~12 and" 3 = .ok ts := by
    rw [hvocab]
    dsimp only [ts]
    cbv
  have hagain : tokenizeFrom g.vocabulary "a ~ 12 and" 1 =
      .ok (us ++ [⟨.newline, "\n", 1⟩, ⟨.stop, "(end)", 1⟩]) := by
    rw [hvocab]
    dsimp only [us]
    cbv
  have hregistered : g.Registered :=
    .register "~" 40 .standard (by rintro rule ⟨⟩) (by rintro rule ⟨⟩)
  have hrules : g.Watched Watch.numbers := hregistered.hasStandardRules.watched _
  obtain ⟨hcanonical, -, hcompile, hstable⟩ :=
    Grown.tokens_canonical (.register "~" 40 none none grown_standard) htokens
  obtain ⟨us', hus, hsame⟩ := hstable 3 (by decide) (by decide) 1
  change tokenizeFrom g.vocabulary "a ~ 12 and" 1 = _ at hus
  refine ⟨htokens, hrules, hcanonical, hcompile hrules _ _ _, us', hus, ?_, hsame⟩
  exact List.append_cancel_right (Except.ok.inj (hus.symm.trans hagain))

end Grammar

end Stencil
