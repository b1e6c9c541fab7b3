import Mathlib.Algebra.Field.Rat
import Mathlib.Data.Int.Cast.Lemmas
import Stencil.Proofs.Numeral
import Stencil.Render.Operator
/-!
# Arithmetic of integers

What the four operations make of two integers: the integer that is the exact result, where there is
one of 64 bits, and a floating-point number where there is none. Only a division by zero fails.
-/

namespace Stencil

namespace Number

variable {a b n : Int64} {exact : Int → Int → Int} {rounded : Float → Float → Float}

theorem fit?_eq_some_iff {i : Int} : fit? i = some n ↔ n.toInt = i := by
  constructor
  · intro h
    rw [fit?] at h
    split at h
    · next hrange =>
      cases h
      exact Int64.toInt_ofInt_of_le hrange.1 (Int.lt_of_le_sub_one hrange.2)
    · cases h
  · rintro rfl
    exact fit?_toInt n

/-- An operation on integers gives the exact result if it is one of 64 bits. -/
theorem lift_eq_int_iff : lift exact rounded (int a) (int b) = int n ↔
    n.toInt = exact a.toInt b.toInt := by
  rw [← fit?_eq_some_iff, lift]
  cases fit? (exact a.toInt b.toInt) <;> simp

theorem lift_eq_float (h : ∀ n : Int64, n.toInt ≠ exact a.toInt b.toInt) :
    lift exact rounded (int a) (int b) = float (rounded (floatOfInt a) (floatOfInt b)) := by
  rw [lift]
  cases hfit : fit? (exact a.toInt b.toInt) with
  | none => rfl
  | some n => exact absurd (fit?_eq_some_iff.1 hfit) (h n)

theorem toInt_eq_zero_iff : b.toInt = 0 ↔ b = 0 := by
  rw [← Int64.toInt_zero, Int64.toInt_inj]

theorem div?_eq_none_iff : div? (int a) (int b) = none ↔ b = 0 := by
  rw [div?, ← toInt_eq_zero_iff]
  split
  · simp [*]
  · split
    · split <;> simp [*]
    · simp [*]

/-- The quotient of integers is the integer that gives the dividend back, if there is one of 64
bits. The quotient of the least integer and `-1` is none of 64 bits. -/
theorem div?_eq_int_iff (hb : b ≠ 0) :
    div? (int a) (int b) = some (int n) ↔ n.toInt * b.toInt = a.toInt := by
  have hzero : b.toInt ≠ 0 := fun h => hb (toInt_eq_zero_iff.1 h)
  rw [div?, if_neg hzero]
  by_cases hmod : a.toInt % b.toInt = 0
  · have hdvd := Int.dvd_of_emod_eq_zero hmod
    rw [if_pos hmod, eq_comm (a := n.toInt * b.toInt),
      ← Int.ediv_eq_iff_eq_mul_left hzero hdvd, eq_comm (b := n.toInt), ← fit?_eq_some_iff]
    cases fit? (a.toInt / b.toInt) <;> simp
  · have hnot : n.toInt * b.toInt ≠ a.toInt := by
      intro h
      rw [← h, Int.mul_emod_left] at hmod
      exact hmod rfl
    rw [if_neg hmod]
    simp [hnot]

theorem div?_eq_float (hb : b ≠ 0) (h : ∀ n : Int64, n.toInt * b.toInt ≠ a.toInt) :
    div? (int a) (int b) = some (float (floatOfInt a / floatOfInt b)) := by
  have hzero : b.toInt ≠ 0 := fun hz => hb (toInt_eq_zero_iff.1 hz)
  rw [div?, if_neg hzero]
  by_cases hmod : a.toInt % b.toInt = 0
  · rw [if_pos hmod]
    cases hfit : fit? (a.toInt / b.toInt) with
    | none => rfl
    | some n =>
      have hvalue := fit?_eq_some_iff.1 hfit
      exact absurd (hvalue ▸ Int.ediv_mul_cancel (Int.dvd_of_emod_eq_zero hmod)) (h n)
  · rw [if_neg hmod]

/-- A number is the result `q`, if that is an integer of 64 bits, or else the floating-point number
`x` in its place. -/
structure IsResult (q : ℚ) (x : Float) (r : Number) : Prop where
  int_iff : ∀ n : Int64, r = .int n ↔ (n.toInt : ℚ) = q
  float : (∀ n : Int64, (n.toInt : ℚ) ≠ q) → r = .float x

end Number

namespace BinaryOp

open Number

/-- The exact result of an operation of arithmetic. -/
def result : BinaryOp → ℚ → ℚ → ℚ
  | add, x, y => x + y
  | sub, x, y => x - y
  | mul, x, y => x * y
  | div, x, y => x / y
  | _, _, _ => 0

/-- The floating-point result of an operation of arithmetic. -/
def rounded : BinaryOp → Float → Float → Float
  | add, x, y => x + y
  | sub, x, y => x - y
  | mul, x, y => x * y
  | div, x, y => x / y
  | _, _, _ => 0

variable {op : BinaryOp} {a b n : Int64}

theorem isResult_lift (op : BinaryOp) {f : Int → Int → Int}
    (hf : (f a.toInt b.toInt : ℚ) = op.result a.toInt b.toInt) :
    IsResult (op.result a.toInt b.toInt) (op.rounded (floatOfInt a) (floatOfInt b))
      (lift f op.rounded (.int a) (.int b)) where
  int_iff n := by rw [lift_eq_int_iff, ← hf, Int.cast_inj]
  float h := lift_eq_float fun n hn => h n (hf ▸ congrArg _ hn)

/-- Anything but a division by zero has a result. -/
theorem exists_isResult (hop : op ∈ [add, sub, mul, div]) (hzero : ¬(op = div ∧ b = 0)) :
    ∃ r, op.apply (.number (.int a)) (.number (.int b)) = .ok (.number r) ∧
      IsResult (op.result a.toInt b.toInt) (op.rounded (floatOfInt a) (floatOfInt b)) r := by
  simp only [List.mem_cons, List.not_mem_nil, or_false] at hop
  rcases hop with rfl | rfl | rfl | rfl
  · exact ⟨_, rfl, isResult_lift add (Int.cast_add _ _)⟩
  · exact ⟨_, rfl, isResult_lift sub (Int.cast_sub _ _)⟩
  · exact ⟨_, rfl, isResult_lift mul (Int.cast_mul _ _)⟩
  · have hb : b ≠ 0 := fun hb => hzero ⟨rfl, hb⟩
    obtain ⟨r, hr⟩ := Option.ne_none_iff_exists'.1 fun h => hb (div?_eq_none_iff.1 h)
    have happly : div.apply (.number (.int a)) (.number (.int b)) = .ok (.number r) := by
      rw [apply, calculated, hr]
    have hexact : ∀ n : Int64, (n.toInt : ℚ) = a.toInt / b.toInt ↔ n.toInt * b.toInt = a.toInt := by
      intro n
      rw [eq_div_iff (Int.cast_ne_zero.2 fun h => hb (toInt_eq_zero_iff.1 h)), ← Int.cast_mul,
        Int.cast_inj]
    refine ⟨r, happly, fun n => ?_, fun h => ?_⟩
    · rw [result, hexact, ← div?_eq_int_iff hb, hr, Option.some_inj]
    · have hfloat := div?_eq_float hb fun n hn => h n ((hexact n).2 hn)
      exact Option.some.inj (hr.symm.trans hfloat)

/-- **Arithmetic of integers is exact, or leaves the integers.** An operation on two integers fails
only by a division, and that exactly by zero. It gives an integer exactly where the exact result is
an integer of 64 bits, and then that integer. In every other case it gives the floating-point
result. -/
theorem apply_integers (hop : op ∈ [add, sub, mul, div]) (a b : Int64) :
    (∀ err, op.apply (.number (.int a)) (.number (.int b)) = .error err ↔
      op = div ∧ b = 0 ∧ err = .divisionByZero) ∧
    (∀ n : Int64, op.apply (.number (.int a)) (.number (.int b)) = .ok (.number (.int n)) ↔
      ¬(op = div ∧ b = 0) ∧ (n.toInt : ℚ) = op.result a.toInt b.toInt) ∧
    (¬(op = div ∧ b = 0) → (∀ n : Int64, (n.toInt : ℚ) ≠ op.result a.toInt b.toInt) →
      op.apply (.number (.int a)) (.number (.int b)) =
        .ok (.number (.float (op.rounded (floatOfInt a) (floatOfInt b))))) := by
  by_cases hzero : op = div ∧ b = 0
  · obtain ⟨rfl, rfl⟩ := hzero
    have hfail : div.apply (.number (.int a)) (.number (.int 0)) = .error .divisionByZero := by
      rw [apply, calculated, div?_eq_none_iff.2 rfl]
    rw [hfail]
    refine ⟨fun err => ?_, fun n => ?_, fun h => absurd ⟨rfl, rfl⟩ h⟩
    · simp [eq_comm]
    · simp
  · obtain ⟨r, happly, hresult⟩ := exists_isResult (a := a) hop hzero
    rw [happly]
    refine ⟨fun err => ?_, fun n => ?_, fun _ h => ?_⟩
    · simp only [reduceCtorEq, false_iff]
      exact fun h => hzero ⟨h.1, h.2.1⟩
    · rw [← hresult.int_iff]
      simp [hzero]
    · rw [hresult.float h]

/-- The least integer divided by `-1`, and a quotient that is exact. -/
theorem apply_integers_least :
    div ∈ [add, sub, mul, div] ∧
      div.apply (.number (.int (-9223372036854775808))) (.number (.int 9)) =
        .ok (.number (.float (floatOfInt (-9223372036854775808) / floatOfInt 9))) ∧
      div.apply (.number (.int (-9223372036854775808))) (.number (.int (-1))) =
        .ok (.number (.float (floatOfInt (-9223372036854775808) / floatOfInt (-1)))) ∧
      div.apply (.number (.int (-9223372036854775808))) (.number (.int 8)) =
        .ok (.number (.int (-1152921504606846976))) := by
  have hop : div ∈ [add, sub, mul, div] := by simp
  obtain ⟨-, -, hninth⟩ := apply_integers hop (-9223372036854775808) 9
  obtain ⟨-, -, hminus⟩ := apply_integers hop (-9223372036854775808) (-1)
  obtain ⟨-, hexact, -⟩ := apply_integers hop (-9223372036854775808) 8
  refine ⟨hop, hninth (by decide) fun n hn => ?_, hminus (by decide) fun n hn => ?_,
    (hexact _).2 ⟨by decide, ?_⟩⟩
  -- no multiple of nine
  · rw [result, eq_div_iff (by decide)] at hn
    have hmul : n.toInt * 9 = -9223372036854775808 := by exact_mod_cast hn
    omega
  -- one more than the greatest integer of 64 bits
  · rw [result, eq_div_iff (by decide)] at hn
    have hmul : n.toInt * -1 = -9223372036854775808 := by exact_mod_cast hn
    have hle := n.toInt_lt
    omega
  · rw [result]
    decide +kernel

end BinaryOp

end Stencil
