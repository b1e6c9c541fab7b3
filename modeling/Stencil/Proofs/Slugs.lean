import Mathlib
import Stencil.Proofs.Cutting
import Stencil.Text.Slug
/-!
# Slugs

A slug is its words with one hyphen between any two. A hyphen is neither a letter nor a digit, so
cutting a slug at its hyphens gives back the words, and making a slug of what is in lower case
already changes nothing. That no hyphen stands at an end or beside another one follows from the
words: cutting there would give an empty one.

Lower case is a matter of single characters in ASCII only. Beyond it a character may turn into
several, some of which are neither letters nor digits, so what is said about case and about the
characters that are kept is said of ASCII.
-/

namespace Stencil

namespace Text

/-! ## Words of letters and digits -/

/-- The texts are words: none is empty and each has letters and digits only. -/
def AreWords (words : List (List Char)) : Prop :=
  ∀ w ∈ words, w ≠ [] ∧ ∀ c ∈ w, isAlphanumeric c = true

/-- A hyphen is no part of a word, so it stands between words only. -/
theorem isAlphanumeric_hyphen : isAlphanumeric '-' = false := by
  decide

theorem AreWords.hyphen_notMem {words : List (List Char)} (h : AreWords words) :
    ∀ w ∈ words, '-' ∉ w := by
  intro w hw hmem
  simpa [isAlphanumeric_hyphen] using (h w hw).2 '-' hmem

theorem areWords_alphanumericRuns (cs : List Char) : AreWords (alphanumericRuns cs) := by
  intro w hw
  obtain ⟨hpiece, hne⟩ := List.mem_filter.mp hw
  refine ⟨by simpa using hne, fun c hc => ?_⟩
  simpa using not_of_mem_splitOnP hpiece c hc

/-! ## Cutting what was joined -/

/-- A word is found whole, and the empty text is none. -/
theorem alphanumericRuns_of_forall {w : List Char} (h : ∀ c ∈ w, isAlphanumeric c = true) :
    alphanumericRuns w = [w].filter fun w => !w.isEmpty := by
  rw [alphanumericRuns, List.splitOnP_eq_singleton (by simpa using h)]

/-- A character that is no letter and no digit ends a run. -/
theorem alphanumericRuns_append_cons (xs ys : List Char) {c : Char}
    (hc : isAlphanumeric c = false) :
    alphanumericRuns (xs ++ c :: ys) = alphanumericRuns xs ++ alphanumericRuns ys := by
  rw [alphanumericRuns, List.splitOnP_append_cons xs ys (by simp [hc]), List.filter_append]
  rfl

/-- The runs of words with hyphens between them are the words. -/
theorem alphanumericRuns_intercalate {words : List (List Char)} (h : AreWords words) :
    alphanumericRuns (['-'].intercalate words) = words := by
  induction words with
  | nil => rfl
  | cons w words ih =>
    have hw := h w List.mem_cons_self
    have hwords : AreWords words := fun x hx => h x (List.mem_cons_of_mem _ hx)
    have hrun : alphanumericRuns w = [w] := by
      rw [alphanumericRuns_of_forall hw.2]
      simp [hw.1]
    cases words with
    | nil => simpa using hrun
    | cons x words =>
      rw [List.intercalate_cons_cons, List.append_assoc, List.singleton_append,
        alphanumericRuns_append_cons _ _ isAlphanumeric_hyphen, hrun, ih hwords,
        List.singleton_append]

/-- The runs have all the letters and digits, in their order. -/
theorem flatten_alphanumericRuns (cs : List Char) :
    (alphanumericRuns cs).flatten = cs.filter isAlphanumeric := by
  rw [alphanumericRuns, List.flatten_filter_not_isEmpty]
  induction cs with
  | nil => rfl
  | cons c cs ih =>
    obtain ⟨piece, pieces, hcut⟩ :=
      List.exists_cons_of_ne_nil (List.splitOnP_ne_nil (fun c => !isAlphanumeric c) cs)
    rw [List.splitOnP_cons_eq_if_modifyHead, hcut, List.filter_cons, ← ih, hcut]
    cases isAlphanumeric c <;> simp

/-! ## Hyphens of a slug -/

/-- Cut at its hyphens, a slug that is not empty has no empty piece. -/
theorem nil_notMem_splitOn_slug {cs : List Char} (h : slug cs ≠ []) :
    [] ∉ (slug cs).splitOn '-' := by
  have hwords := areWords_alphanumericRuns (lower cs)
  have hne : alphanumericRuns (lower cs) ≠ [] := fun hnil => h (by rw [slug, hnil]; rfl)
  rw [slug, List.splitOn_intercalate '-' hwords.hyphen_notMem hne]
  exact fun hmem => (hwords [] hmem).1 rfl

/-- A slug does not begin with a hyphen: cutting there would give an empty word. -/
theorem slug_ne_cons_hyphen (cs rest : List Char) : slug cs ≠ '-' :: rest := by
  intro heq
  refine nil_notMem_splitOn_slug (by simp [heq] : slug cs ≠ []) ?_
  rw [heq]
  exact (List.splitOn_append_cons_self [] rest) ▸ by simp

theorem slug_ne_append_hyphen (cs rest : List Char) : slug cs ≠ rest ++ ['-'] := by
  intro heq
  refine nil_notMem_splitOn_slug (by simp [heq] : slug cs ≠ []) ?_
  rw [heq, List.splitOn_append_cons_self]
  simp

/-- Between two hyphens there is a word. -/
theorem not_hyphens_infix_slug (cs : List Char) : ¬ ['-', '-'] <:+: slug cs := by
  rintro ⟨before, after, heq⟩
  refine nil_notMem_splitOn_slug (by simp [← heq] : slug cs ≠ []) ?_
  have hsplit : slug cs = before ++ '-' :: ([] ++ '-' :: after) := by simpa using heq.symm
  rw [hsplit, List.splitOn_append_cons_self, List.splitOn_append_cons_self]
  simp

/-! ## Lower case of ASCII -/

/-- A text of ASCII characters only. -/
def IsAscii (cs : List Char) : Prop :=
  ∀ c ∈ cs, c.toNat < 0x80

/-- What stands before an ASCII character does not matter for its lower case. -/
theorem lowerAfter_of_isAscii {cs : List Char} (h : IsAscii cs) (before : List Char) :
    lowerAfter before cs = cs.map Char.toLower := by
  induction cs generalizing before with
  | nil => rfl
  | cons c cs ih =>
    have hc := h c List.mem_cons_self
    have hsigma : (c == 'Σ') = false := by
      refine beq_eq_false_iff_ne.mpr fun heq => ?_
      subst heq
      exact absurd hc (by decide)
    rw [lowerAfter, hsigma, ih fun x hx => h x (List.mem_cons_of_mem _ hx)]
    simp [lowerChar, hc]

/-- ASCII is put in lower case character by character. -/
theorem lower_of_isAscii {cs : List Char} (h : IsAscii cs) : lower cs = cs.map Char.toLower :=
  lowerAfter_of_isAscii h []

/-- On ASCII, letters and digits are the common ones. -/
theorem isAlphanumeric_of_ascii {c : Char} (h : c.toNat < 0x80) :
    isAlphanumeric c = c.isAlphanum := by
  simp [isAlphanumeric, h]

/-- Lower case stays within ASCII. -/
theorem toNat_toLower_lt {c : Char} (h : c.toNat < 0x80) : c.toLower.toNat < 0x80 := by
  by_cases hup : c.isUpper = true
  · rw [Char.toLower_eq_of_isUpper hup]
    have hle : c.toNat ≤ 90 := by
      simp only [Char.isUpper, ge_iff_le, decide_eq_true_eq] at hup
      exact UInt32.le_iff_toNat_le.mp hup.2
    rw [Char.toNat_ofNat]
    split <;> omega
  · rwa [Char.toLower_eq_of_not_isUpper hup]

/-- Lower case keeps letters and digits apart from the rest. -/
theorem isAlphanum_toLower (c : Char) : c.toLower.isAlphanum = c.isAlphanum := by
  by_cases hup : c.isUpper = true
  · simp [Char.isAlphanum, Char.isAlpha, hup]
  · rw [Char.toLower_eq_of_not_isUpper hup]

/-- The letters and digits of a text are those of its lower case. -/
theorem filter_lower {cs : List Char} (h : IsAscii cs) :
    (lower cs).filter isAlphanumeric = (cs.filter Char.isAlphanum).map Char.toLower := by
  rw [lower_of_isAscii h, List.filter_map]
  congr 1
  refine List.filter_congr fun c hc => ?_
  rw [Function.comp_apply, isAlphanumeric_of_ascii (toNat_toLower_lt (h c hc)),
    isAlphanum_toLower]

/-- Without its hyphens a slug is what is kept of the text. -/
theorem filter_slug {cs : List Char} (h : IsAscii cs) :
    (slug cs).filter (fun c => c != '-') = (cs.filter Char.isAlphanum).map Char.toLower := by
  rw [slug, filter_intercalate (areWords_alphanumericRuns _).hyphen_notMem,
    flatten_alphanumericRuns, filter_lower h]

/-- A character of a slug of ASCII is a hyphen or the lower case of one of the text. -/
theorem eq_toLower_of_mem_slug {cs : List Char} (h : IsAscii cs) {c : Char} (hc : c ∈ slug cs) :
    c = '-' ∨ ∃ a ∈ cs, a.isAlphanum = true ∧ a.toLower = c := by
  refine or_iff_not_imp_left.mpr fun hne => ?_
  have hmem : c ∈ (slug cs).filter (· != '-') := List.mem_filter.mpr ⟨hc, by simpa using hne⟩
  rw [filter_slug h] at hmem
  obtain ⟨a, ha, rfl⟩ := List.mem_map.mp hmem
  obtain ⟨hcs, halnum⟩ := List.mem_filter.mp ha
  exact ⟨a, hcs, halnum, rfl⟩

/-- A slug has no characters but those of the text and hyphens. -/
theorem isAscii_slug {cs : List Char} (h : IsAscii cs) : IsAscii (slug cs) := by
  intro c hc
  rcases eq_toLower_of_mem_slug h hc with rfl | ⟨a, ha, -, rfl⟩
  · decide
  · exact toNat_toLower_lt (h a ha)

/-- A slug is in lower case already. -/
theorem lower_slug {cs : List Char} (h : IsAscii cs) : lower (slug cs) = slug cs := by
  rw [lower_of_isAscii (isAscii_slug h)]
  refine (List.map_congr_left fun c hc => ?_).trans (List.map_id _)
  rcases eq_toLower_of_mem_slug h hc with rfl | ⟨a, -, -, rfl⟩
  · decide
  · exact Char.toLower_toLower_eq_toLower a

/-- What stands in lower case already is cut into the words it was joined from. -/
theorem slug_slug {cs : List Char} (h : IsAscii cs) : slug (slug cs) = slug cs := by
  rw [slug, lower_slug h, slug, alphanumericRuns_intercalate (areWords_alphanumericRuns _)]

/-- A letter or digit in lower case is a small letter or a digit. -/
theorem isLower_or_isDigit_toLower {a : Char} (h : a.isAlphanum = true) :
    a.toLower.isLower = true ∨ a.toLower.isDigit = true := by
  rw [← isAlphanum_toLower, Char.isAlphanum, Char.isAlpha, Char.isUpper_toLower_eq_false,
    Bool.false_or, Bool.or_eq_true] at h
  exact h

/-! ## The result -/

/-- Whatever the text, its slug is made of words with one hyphen between any two, so that no
hyphen stands first, last or beside another one. The slug of an ASCII text is in lower case, is its
own slug, and has the letters and digits of the text in their order. -/
theorem slug_wellFormed (cs : List Char) :
    (∃ words, AreWords words ∧ slug cs = ['-'].intercalate words) ∧
      (slug cs).head? ≠ some '-' ∧ (slug cs).getLast? ≠ some '-' ∧
      ¬ ['-', '-'] <:+: slug cs ∧
      (IsAscii cs →
        (∀ c ∈ slug cs, c = '-' ∨ c.isLower = true ∨ c.isDigit = true) ∧
        lower (slug cs) = slug cs ∧
        slug (slug cs) = slug cs ∧
        (slug cs).filter (· != '-') = (cs.filter Char.isAlphanum).map Char.toLower) := by
  refine ⟨⟨_, areWords_alphanumericRuns _, rfl⟩, fun hhead => ?_, fun hlast => ?_,
    not_hyphens_infix_slug cs, fun h => ⟨fun c hc => ?_, lower_slug h, slug_slug h, filter_slug h⟩⟩
  · obtain ⟨rest, hrest⟩ := List.head?_eq_some_iff.mp hhead
    exact slug_ne_cons_hyphen cs rest hrest
  · obtain ⟨rest, hrest⟩ := List.getLast?_eq_some_iff.mp hlast
    exact slug_ne_append_hyphen cs rest hrest
  · rcases eq_toLower_of_mem_slug h hc with rfl | ⟨a, -, ha, rfl⟩
    · exact .inl rfl
    · exact .inr (isLower_or_isDigit_toLower ha)

/-- Capitals, blanks and signs in the middle and at both ends. -/
theorem slug_wellFormed_of_signs :
    slug "--Hello,  World! 2nd_Part--".toList = "hello-world-2nd-part".toList ∧
      slug "hello-world-2nd-part".toList = "hello-world-2nd-part".toList ∧
      "hello-world-2nd-part".toList.filter (· != '-') = "helloworld2ndpart".toList := by
  have hslug : slug "--Hello,  World! 2nd_Part--".toList = "hello-world-2nd-part".toList := by
    decide
  obtain ⟨-, -, hsame, hkept⟩ :=
    (slug_wellFormed "--Hello,  World! 2nd_Part--".toList).2.2.2.2 (by simp [IsAscii])
  rw [hslug] at hsame hkept
  exact ⟨hslug, hsame, hkept.trans (by decide)⟩

end Text

end Stencil
