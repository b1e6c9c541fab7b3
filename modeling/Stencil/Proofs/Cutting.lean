import Mathlib.Data.List.Infix
/-!
# Cutting and putting together

A text is cut at a character: the lines of a source, the words of a line, the parts of a slug. No
piece has the character. Pieces are put together with a character between any two, and this adds
nothing else; so without that character nothing but the pieces is left.
-/

namespace Stencil

variable {a c : Char} {cs part : List Char} {parts : List (List Char)}

/-- What is cut at the characters with a property has none of them in a piece. -/
theorem not_of_mem_splitOnP {p : Char → Bool} (h : part ∈ cs.splitOnP p) :
    ∀ c ∈ part, p c = false := by
  induction cs generalizing part with
  | nil =>
    rw [List.splitOnP_nil, List.mem_singleton] at h
    simp [h]
  | cons a cs ih =>
    obtain ⟨first, rest, hcut⟩ := List.exists_cons_of_ne_nil (List.splitOnP_ne_nil p cs)
    rw [List.splitOnP_cons_eq_if_modifyHead, hcut] at h
    rw [hcut] at ih
    split at h
    · rcases List.mem_cons.1 h with rfl | h
      · simp
      · exact ih h
    · next ha =>
      rcases List.mem_cons.1 h with rfl | h
      · exact List.forall_mem_cons.2 ⟨by simpa using ha, ih List.mem_cons_self⟩
      · exact ih (List.mem_cons_of_mem _ h)

theorem not_mem_of_mem_splitOn (h : part ∈ cs.splitOn c) : c ∉ part := by
  intro hc
  have hnot := not_of_mem_splitOnP h c hc
  simp at hnot

theorem mem_intercalate (h : a ∈ [c].intercalate parts) : a = c ∨ ∃ part ∈ parts, a ∈ part := by
  induction parts with
  | nil => cases h
  | cons p ps ih =>
    cases ps with
    | nil =>
      rw [List.intercalate_singleton] at h
      exact Or.inr ⟨p, List.mem_cons_self, h⟩
    | cons q qs =>
      rw [List.intercalate_cons_cons] at h
      rcases List.mem_append.1 h with h | h
      · rcases List.mem_append.1 h with h | h
        · exact Or.inr ⟨p, List.mem_cons_self, h⟩
        · exact Or.inl (List.mem_singleton.1 h)
      · rcases ih h with hsep | ⟨part, hpart, ha⟩
        · exact Or.inl hsep
        · exact Or.inr ⟨part, List.mem_cons_of_mem _ hpart, ha⟩

theorem within_intercalate (h : part ∈ parts) : part <:+: [c].intercalate parts := by
  induction parts with
  | nil => cases h
  | cons p ps ih =>
    cases ps with
    | nil =>
      rw [List.mem_singleton.1 h, List.intercalate_singleton]
    | cons q qs =>
      rw [List.intercalate_cons_cons]
      rcases List.mem_cons.1 h with rfl | h
      · rw [List.append_assoc]
        exact (List.prefix_append _ _).isInfix
      · exact (ih h).trans (List.suffix_append _ _).isInfix

/-- What stands between two blanks, or between two lines, stands together in the whole. -/
theorem within_of_mem_splitOn (h : part ∈ cs.splitOn c) : part <:+: cs := by
  have hwithin := within_intercalate (c := c) h
  rwa [List.intercalate_splitOn] at hwithin

/-- Without the character in between there is nothing but the pieces. -/
theorem filter_intercalate (h : ∀ part ∈ parts, c ∉ part) :
    ([c].intercalate parts).filter (fun a => a != c) = parts.flatten := by
  have hpart : ∀ part ∈ parts, part.filter (fun a => a != c) = part := by
    intro part hpart
    refine List.filter_eq_self.2 fun a ha => ?_
    rw [bne_iff_ne]
    rintro rfl
    exact h part hpart ha
  induction parts with
  | nil => rfl
  | cons part parts ih =>
    obtain ⟨hhead, htail⟩ := List.forall_mem_cons.1 hpart
    have hrest := ih (fun p hp => h p (List.mem_cons_of_mem _ hp)) htail
    cases parts with
    | nil => simpa using hhead
    | cons next parts =>
      rw [List.intercalate_cons_cons, List.filter_append, List.filter_append, hhead, hrest,
        List.filter_cons_of_neg (by simp), List.filter_nil, List.append_nil]
      rfl

end Stencil
