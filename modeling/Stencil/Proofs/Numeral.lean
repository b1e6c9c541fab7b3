import Stencil.Number.Numeral
import Mathlib.Data.List.TakeWhile
/-!
# Numerals that are shown

An integer is shown as its decimal digits, behind a sign if it is negative, and such a text is
read as the same integer. Nothing of the kind holds for every text that is read: blanks, a plus
sign and what follows the number are lost.
-/

namespace Stencil

namespace Text

theorem isBlank_of_isDigit {c : Char} (h : c.isDigit = true) : isBlank c = false := by
  have hc : 48 ≤ c.toNat ∧ c.toNat ≤ 57 := by
    rw [Char.isDigit, Bool.and_eq_true, decide_eq_true_eq, decide_eq_true_eq] at h
    exact ⟨UInt32.le_iff_toNat_le.1 h.1, UInt32.le_iff_toNat_le.1 h.2⟩
  unfold isBlank
  generalize c.toNat = n at hc
  simp only [Bool.or_eq_false_iff, Bool.and_eq_false_iff, decide_eq_false_iff_not,
    beq_eq_false_iff_ne]
  omega

theorem dropWhile_isBlank {cs : List Char} (h : ∀ c ∈ cs, isBlank c = false) :
    cs.dropWhile isBlank = cs := by
  cases cs with
  | nil => rfl
  | cons c cs => rw [List.dropWhile_cons, h c (by simp), if_neg Bool.false_ne_true]

/-- A text without blanks is its own trimmed text. -/
theorem trim_of_forall {cs : List Char} (h : ∀ c ∈ cs, isBlank c = false) : trim cs = cs := by
  rw [trim, dropWhile_isBlank h, trimEnd, dropWhile_isBlank, List.reverse_reverse]
  intro c hc
  exact h c (List.mem_reverse.1 hc)

end Text

namespace Number

theorem digitsValue_digitsOf (n : Nat) : digitsValue (Decimal.digitsOf n) = n := by
  rw [digitsValue, Decimal.digitsOf, ← Nat.ofDigitChars_eq_foldl, Nat.ofDigitChars_ten_toDigits]

theorem isDigit_of_mem_digitsOf {n : Nat} {c : Char} (h : c ∈ Decimal.digitsOf n) :
    c.isDigit = true :=
  Nat.isDigit_of_mem_toDigits (by decide) (by decide) h

theorem digitsOf_ne_nil {n : Nat} : Decimal.digitsOf n ≠ [] :=
  Nat.toDigits_ne_nil

theorem leadingDigits_digitsOf (n : Nat) :
    leadingDigits (Decimal.digitsOf n) = Decimal.digitsOf n := by
  rw [leadingDigits, List.takeWhile_eq_self_iff]
  exact fun c hc => isDigit_of_mem_digitsOf hc

theorem signed_digitsOf (n : Nat) : signed (Decimal.digitsOf n) = (false, Decimal.digitsOf n) := by
  have hd : ∀ c ∈ Decimal.digitsOf n, c.isDigit = true := fun c => isDigit_of_mem_digitsOf
  unfold signed
  split
  · next heq => simp [heq] at hd
  · next heq => simp [heq] at hd
  · rfl

theorem fit?_toInt (n : Int64) : fit? n.toInt = some n := by
  have hlo := n.minValue_le_toInt
  have hhi := n.toInt_le
  rw [fit?, if_pos ⟨hlo, hhi⟩, Int64.ofInt_toInt]

/-- **An integer is read as it is shown.** -/
theorem ofText?_display (n : Int64) : ofText? (int n).display.toList = some (int n) := by
  have hblank : ∀ m : Nat, ∀ c ∈ Decimal.digitsOf m, Text.isBlank c = false :=
    fun m c hc => Text.isBlank_of_isDigit (isDigit_of_mem_digitsOf hc)
  have hpoint : ∀ m : Nat, '.' ∉ Decimal.digitsOf m := by
    intro m hm
    have hd := isDigit_of_mem_digitsOf hm
    simp at hd
  rw [display, Decimal.ofInt]
  split
  -- a negative integer is its sign and the digits of its amount
  · next hneg =>
    have htext : ("-" ++ String.ofList (Decimal.digitsOf n.toInt.natAbs)).toList =
        '-' :: Decimal.digitsOf n.toInt.natAbs := by simp
    have htrim : Text.trim ('-' :: Decimal.digitsOf n.toInt.natAbs) =
        '-' :: Decimal.digitsOf n.toInt.natAbs :=
      Text.trim_of_forall (List.forall_mem_cons.2 ⟨by decide, hblank _⟩)
    have hvalue : -((n.toInt.natAbs : Nat) : Int) = n.toInt := by omega
    rw [htext, ofText?, htrim]
    simp only [signed, List.mem_cons, hpoint, or_false, leadingDigits_digitsOf]
    rw [if_neg (by decide), intOfDigits?, if_neg (by simp [digitsOf_ne_nil])]
    simp only [digitsValue_digitsOf, if_true, hvalue, fit?_toInt]
    rfl
  · next hpos =>
    have hvalue : ((n.toInt.toNat : Nat) : Int) = n.toInt := by omega
    rw [String.toList_ofList, ofText?, Text.trim_of_forall (hblank _), signed_digitsOf]
    simp only [hpoint, if_false, leadingDigits_digitsOf]
    rw [intOfDigits?, if_neg (by simp [digitsOf_ne_nil])]
    simp only [digitsValue_digitsOf, Bool.false_eq_true, if_false, hvalue, fit?_toInt]
    rfl

end Number

end Stencil
