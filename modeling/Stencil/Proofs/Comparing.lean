import Mathlib.Data.Prod.Lex
import Stencil.Proofs.Rounding
import Stencil.Render.Operator
/-!
# Comparisons of numbers

What the six comparisons of two numbers have to do with each other. The order goes by the places of
numbers as floating-point numbers, equality of two integers by the integers. The two agree but for
integers that are blurred: different ones that become the same floating-point number. Of these none
is below, equal to or above the other, and each is both at most and at least the other.
-/

namespace Stencil

namespace Number

open Float.Model Float.Model.UnpackedFloat

variable {u v : UnpackedFloat} {i j : Int} {m n m' n' k k' : Nat} {a b c : Number}

/-! ## Places of floating-point numbers -/

/-- On the negative side the order is turned around. -/
theorem compare_neg (i j : Int) : compare (-i) (-j) = compare j i := by
  rcases lt_trichotomy i j with h | rfl | h
  · rw [Int.compare_eq_gt.2 h, Int.compare_eq_gt.2 (by omega)]
  · rw [Int.compare_eq_eq.2 rfl, Int.compare_eq_eq.2 rfl]
  · rw [Int.compare_eq_lt.2 h, Int.compare_eq_lt.2 (by omega)]

/-- Amounts are compared like the integers that they are. -/
theorem compare_cast (m n : Nat) : compare (m : Int) n = compare m n := by
  rcases lt_trichotomy m n with h | rfl | h
  · rw [Int.compare_eq_lt.2 (by omega), Nat.compare_eq_lt.2 h]
  · rw [Int.compare_eq_eq.2 rfl, Nat.compare_eq_eq.2 rfl]
  · rw [Int.compare_eq_gt.2 (by omega), Nat.compare_eq_gt.2 h]

/-- A comparison of pairs looks at the second parts only where the first ones are equal. -/
theorem compare_toLex {α β : Type} [LinearOrder α] [LinearOrder β] (a a' : α) (b b' : β) :
    compare (toLex (a, b)) (toLex (a', b')) = (compare a a').then (compare b b') := by
  rw [Prod.Lex.compare_def]
  rfl

/-- The place of a floating-point number among the others: its side of zero, its exponent, its
mantissa. Both zeros have one place. -/
def place : UnpackedFloat → Int ×ₗ Int ×ₗ Int
  | .infinity .negative => toLex (-2, toLex (0, 0))
  | .finite .negative m e _ => toLex (-1, toLex (-e, -m))
  | .zero _ | .notANumber => toLex (0, toLex (0, 0))
  | .finite .positive m e _ => toLex (1, toLex (e, m))
  | .infinity .positive => toLex (2, toLex (0, 0))

/-- Floating-point numbers are compared by their places. -/
theorem compare_eq_place (hu : u.isNaN = false) (hv : v.isNaN = false) :
    u.compare v = some (compare (place u) (place v)) := by
  rcases u with s | _ | s | ⟨s, m, e, hm⟩ <;> rcases v with s' | _ | s' | ⟨s', m', e', hm'⟩
  case finite.finite =>
    cases s <;> cases s'
    -- below zero the order is turned round
    · change some ((compare e e').then (compare m m')).swap = _
      simp only [place, compare_toLex, compare_neg, compare_cast, Ordering.swap_then,
        Int.compare_swap, Nat.compare_swap]
      rfl
    · rfl
    · rfl
    · change some ((compare e e').then (compare m m')) = _
      simp only [place, compare_toLex, compare_cast]
      rfl
  case infinity.infinity | infinity.zero | infinity.finite | zero.infinity | zero.zero |
      zero.finite | finite.infinity | finite.zero =>
    cases s <;> cases s' <;> rfl
  case infinity.notANumber | zero.notANumber | finite.notANumber => cases hv
  all_goals cases hu

/-! ## Whole numbers -/

/-- Of two whole numbers the one with the greater exponent is greater, whatever the mantissas are.
-/
theorem lt_of_exponent_lt (hlow' : 2 ^ 52 ≤ m') (hhigh : m < 2 ^ 53)
    (hvalue : m * 2 ^ k = n * 2 ^ 52) (hvalue' : m' * 2 ^ k' = n' * 2 ^ 52) (h : k < k') :
    n < n' := by
  refine Nat.lt_of_mul_lt_mul_right (a := 2 ^ 52) ?_
  calc n * 2 ^ 52 = m * 2 ^ k := hvalue.symm
    _ < 2 ^ 53 * 2 ^ k := Nat.mul_lt_mul_of_pos_right hhigh (Nat.two_pow_pos k)
    _ = 2 ^ 52 * 2 ^ (k + 1) := by ring
    _ ≤ m' * 2 ^ k' := Nat.mul_le_mul hlow' (Nat.pow_le_pow_right Nat.two_pos h)
    _ = n' * 2 ^ 52 := hvalue'

/-- Amounts of 53 bits are compared by their exponents first. -/
theorem compare_then (hlow : 2 ^ 52 ≤ m) (hhigh : m < 2 ^ 53) (hvalue : m * 2 ^ k = n * 2 ^ 52)
    (hlow' : 2 ^ 52 ≤ m') (hhigh' : m' < 2 ^ 53) (hvalue' : m' * 2 ^ k' = n' * 2 ^ 52) :
    (compare ((k : Int) - 52) (k' - 52)).then (compare m m') = compare n n' := by
  rcases Nat.lt_trichotomy k k' with h | rfl | h
  · have hn := lt_of_exponent_lt hlow' hhigh hvalue hvalue' h
    rw [Int.compare_eq_lt.2 (by omega), Nat.compare_eq_lt.2 hn]
    rfl
  · have hpos := Nat.two_pow_pos k
    rw [Int.compare_eq_eq.2 rfl]
    change compare m m' = _
    rcases Nat.lt_trichotomy m m' with h | rfl | h
    · have hmul := Nat.mul_lt_mul_of_pos_right h hpos
      rw [Nat.compare_eq_lt.2 h, Nat.compare_eq_lt.2 (by omega)]
    · rw [Nat.compare_eq_eq.2 rfl, Nat.compare_eq_eq.2 (by omega)]
    · have hmul := Nat.mul_lt_mul_of_pos_right h hpos
      rw [Nat.compare_eq_gt.2 h, Nat.compare_eq_gt.2 (by omega)]
  · have hn := lt_of_exponent_lt hlow hhigh' hvalue' hvalue h
    rw [Int.compare_eq_gt.2 (by omega), Nat.compare_eq_gt.2 hn]
    rfl

/-- A number with a mantissa is not zero. -/
theorem pos_of_value (hpos : 0 < m) (hvalue : m * 2 ^ k = n * 2 ^ 52) : 0 < n := by
  have hmul := Nat.mul_pos hpos (Nat.two_pow_pos k)
  omega

/-- A whole number is a number. -/
theorem IsWhole.isNaN (hu : IsWhole u i) : u.isNaN = false := by
  cases hu <;> rfl

/-- Whole numbers are compared as integers. -/
theorem IsWhole.compare_eq (hu : IsWhole u i) (hv : IsWhole v j) :
    u.compare v = some (compare i j) := by
  cases hu with
  | zero s =>
    cases hv with
    | zero s' => rfl
    | @finite s' m' k' n' hlow' hhigh' hvalue' hpos' =>
      have hn' := pos_of_value hpos' hvalue'
      cases s' with
      | negative => exact congrArg some (Int.compare_eq_gt.2 (by simp [Sign.apply, hn'])).symm
      | positive => exact congrArg some (Int.compare_eq_lt.2 (by simp [Sign.apply, hn'])).symm
  | @finite s m k n hlow hhigh hvalue hpos =>
    have hn := pos_of_value hpos hvalue
    cases hv with
    | zero s' =>
      cases s with
      | negative => exact congrArg some (Int.compare_eq_lt.2 (by simp [Sign.apply, hn])).symm
      | positive => exact congrArg some (Int.compare_eq_gt.2 (by simp [Sign.apply, hn])).symm
    | @finite s' m' k' n' hlow' hhigh' hvalue' hpos' =>
      have hn' := pos_of_value hpos' hvalue'
      -- of two numbers that are not zero, first the exponents are compared and then the fractions
      have hlex := compare_then hlow hhigh hvalue hlow' hhigh' hvalue'
      cases s <;> cases s'
      · change some ((compare ((k : Int) - 52) (k' - 52)).then (compare m m')).swap = _
        rw [hlex, Nat.compare_swap, ← compare_cast, ← compare_neg]
        rfl
      · exact congrArg some (Int.compare_eq_lt.2 (by simp only [Sign.apply]; omega)).symm
      · exact congrArg some (Int.compare_eq_gt.2 (by simp only [Sign.apply]; omega)).symm
      · change some ((compare ((k : Int) - 52) (k' - 52)).then (compare m m')) = _
        rw [hlex, ← compare_cast]
        rfl

/-! ## Numbers -/

/-- Whether a number is the one that is none. -/
def isNaN : Number → Bool
  | int _ => false
  | float x => x.isNaN

/-- The place of a number as a floating-point number. -/
def rank (a : Number) : Int ×ₗ Int ×ₗ Int :=
  place a.toFloat.toModel.unpack

/-- Two different integers that are the same floating-point number. -/
def Blurred : Number → Number → Prop
  | int m, int n => m ≠ n ∧ nearest m.toInt = nearest n.toInt
  | _, _ => False

/-- A number stays one as a floating-point number. -/
theorem isNaN_toFloat (ha : a.isNaN = false) : a.toFloat.toModel.unpack.isNaN = false := by
  cases a with
  | int n => exact (isWhole_floatOfInt n).isNaN
  | float x => exact ha

/-- The order of floating-point numbers is the order of their places. -/
theorem compare_rank (ha : a.isNaN = false) (hb : b.isNaN = false) :
    a.toFloat.toModel.unpack.compare b.toFloat.toModel.unpack =
      some (compare a.rank b.rank) :=
  compare_eq_place (isNaN_toFloat ha) (isNaN_toFloat hb)

/-- The same for the test that the program makes. -/
theorem toFloat_lt_iff (ha : a.isNaN = false) (hb : b.isNaN = false) :
    a.toFloat < b.toFloat ↔ a.rank < b.rank := by
  have hrank : some (compare a.rank b.rank) = some Ordering.lt ↔ a.rank < b.rank := by
    rw [Option.some_inj, compare_lt_iff_lt]
  rw [← hrank, ← compare_rank ha hb, ← beq_iff_eq (b := some Ordering.lt)]
  change decide (a.toFloat.toModel < b.toFloat.toModel) = true ↔ _
  rw [decide_eq_true_eq]
  rfl

/-- Equal floating-point numbers have one place, also the two zeros. -/
theorem toFloat_beq_iff (ha : a.isNaN = false) (hb : b.isNaN = false) :
    (a.toFloat == b.toFloat) = true ↔ a.rank = b.rank := by
  have hrank : some (compare a.rank b.rank) = some Ordering.eq ↔ a.rank = b.rank := by
    rw [Option.some_inj, compare_eq_iff_eq]
  rw [← hrank, ← compare_rank ha hb, ← beq_iff_eq (b := some Ordering.eq)]
  rfl

/-- **The order of numbers is that of their places.** -/
theorem compare?_eq (ha : a.isNaN = false) (hb : b.isNaN = false) :
    a.compare? b = some (compare a.rank b.rank) := by
  rw [compare?]
  simp only [toFloat_lt_iff ha hb, toFloat_beq_iff ha hb, toFloat_lt_iff hb ha]
  rcases lt_trichotomy a.rank b.rank with h | h | h
  · rw [if_pos h, compare_lt_iff_lt.2 h]
  · rw [h, if_neg (lt_irrefl _), if_pos rfl, compare_eq_iff_eq.2 rfl]
  · rw [if_neg h.not_gt, if_neg h.ne', if_pos h, compare_gt_iff_gt.2 h]

theorem compare_rank_int (m n : Int64) :
    compare (int m).rank (int n).rank = compare (nearest m.toInt) (nearest n.toInt) :=
  Option.some.inj ((compare_rank rfl rfl).symm.trans
    ((isWhole_floatOfInt m).compare_eq (isWhole_floatOfInt n)))

/-- Integers are ordered as they are rounded. -/
theorem rank_int_lt_iff {m n : Int64} :
    (int m).rank < (int n).rank ↔ nearest m.toInt < nearest n.toInt := by
  rw [← compare_lt_iff_lt, compare_rank_int, compare_lt_iff_lt]

/-- Integers that are rounded to the same number have one place. -/
theorem rank_int_eq_iff {m n : Int64} :
    (int m).rank = (int n).rank ↔ nearest m.toInt = nearest n.toInt := by
  rw [← compare_eq_iff_eq, compare_rank_int, compare_eq_iff_eq]

/-- Integers that are blurred have one place, though they differ. -/
theorem rank_eq_of_blurred (h : Blurred a b) : a.rank = b.rank := by
  rcases a with m | x <;> rcases b with n | y
  · exact rank_int_eq_iff.2 h.2
  all_goals cases h

/-- No integer is different from itself. -/
theorem not_blurred_self (a : Number) : ¬Blurred a a := by
  cases a with
  | int n => exact fun h => h.1 rfl
  | float x => exact id

theorem blurred_comm : Blurred a b ↔ Blurred b a := by
  rcases a with m | x <;> rcases b with n | y
  · exact and_congr ne_comm eq_comm
  all_goals rfl

/-- Numbers with one place are equal or blurred, never both. -/
theorem rank_eq_iff : a.rank = b.rank ↔ (a.rank = b.rank ∧ ¬Blurred a b) ∨ Blurred a b := by
  by_cases hblur : Blurred a b
  · simp [hblur, rank_eq_of_blurred hblur]
  · simp [hblur]

/-- Numbers are equal where they have one place, but for integers that are blurred. -/
theorem equal_iff (ha : a.isNaN = false) (hb : b.isNaN = false) :
    a.equal b = true ↔ a.rank = b.rank ∧ ¬Blurred a b := by
  rcases a with m | x <;> rcases b with n | y
  · change (m == n) = true ↔ _
    rw [beq_iff_eq, rank_int_eq_iff]
    constructor
    · rintro rfl
      exact ⟨rfl, fun h => h.1 rfl⟩
    · rintro ⟨heq, hnot⟩
      by_contra hne
      exact hnot ⟨hne, heq⟩
  all_goals
    rw [← toFloat_beq_iff ha hb]
    exact (and_iff_left (fun h => h)).symm

/-- Integers that are blurred have 54 bits or more. -/
theorem Blurred.le_natAbs {m n : Int64} (h : Blurred (int m) (int n)) :
    2 ^ 53 ≤ m.toInt.natAbs ∧ 2 ^ 53 ≤ n.toInt.natAbs := by
  obtain ⟨hne, heq⟩ := h
  constructor
  · by_contra hlt
    exact hne (Int64.toInt_inj.1 (eq_of_nearest_eq heq (by omega)))
  · by_contra hlt
    exact hne (Int64.toInt_inj.1 (eq_of_nearest_eq heq.symm (by omega))).symm

/-- The integers of a pair are compared as integers, unless they are blurred. -/
theorem rank_int_lt_iff_lt {m n : Int64} :
    (int m).rank < (int n).rank ↔ m.toInt < n.toInt ∧ ¬Blurred (int m) (int n) := by
  rw [rank_int_lt_iff]
  constructor
  · intro h
    refine ⟨?_, fun hblur => h.ne hblur.2⟩
    by_contra hle
    exact h.not_ge (nearest_mono (not_lt.1 hle))
  · rintro ⟨hlt, hnot⟩
    refine lt_of_le_of_ne (nearest_mono hlt.le) fun heq => hnot ⟨?_, heq⟩
    rintro rfl
    exact lt_irrefl _ hlt

end Number

namespace BinaryOp

open Number

variable {a b : Number}

/-- The operator gives `true` for these numbers. -/
def Holds (op : BinaryOp) (a b : Number) : Prop :=
  op.apply (.number a) (.number b) = .ok (.bool true)

/-- A comparison of two numbers gives a truth value. -/
theorem apply_order (op : BinaryOp) (hop : op = lt ∨ op = le ∨ op = gt ∨ op = ge)
    (ha : a.isNaN = false) (hb : b.isNaN = false) :
    op.apply (.number a) (.number b) = .ok (.bool (op.holds (compare a.rank b.rank))) := by
  have hcompared : op.apply (.number a) (.number b) = op.compared (.number a) (.number b) := by
    rcases hop with rfl | rfl | rfl | rfl <;> rfl
  rw [hcompared, compared, order?, compare?_eq ha hb]

/-- The order operators look at places; whether numbers are blurred is asked by equality alone. -/
theorem holds_lt_iff (ha : a.isNaN = false) (hb : b.isNaN = false) :
    lt.Holds a b ↔ a.rank < b.rank := by
  rw [Holds, apply_order lt (by simp) ha hb, ← compare_lt_iff_lt]
  simp [holds]

theorem holds_gt_iff (ha : a.isNaN = false) (hb : b.isNaN = false) :
    gt.Holds a b ↔ b.rank < a.rank := by
  rw [Holds, apply_order gt (by simp) ha hb, ← compare_gt_iff_gt]
  simp [holds]

theorem holds_le_iff (ha : a.isNaN = false) (hb : b.isNaN = false) :
    le.Holds a b ↔ a.rank ≤ b.rank := by
  rw [Holds, apply_order le (by simp) ha hb, ← compare_le_iff_le]
  simp [holds]

theorem holds_ge_iff (ha : a.isNaN = false) (hb : b.isNaN = false) :
    ge.Holds a b ↔ b.rank ≤ a.rank := by
  rw [Holds, apply_order ge (by simp) ha hb, ← compare_ge_iff_ge]
  simp [holds]

/-- Integers that are blurred are not equal, though neither is less than the other. -/
theorem holds_eq_iff (ha : a.isNaN = false) (hb : b.isNaN = false) :
    eq.Holds a b ↔ a.rank = b.rank ∧ ¬Blurred a b := by
  rw [← equal_iff ha hb, Holds]
  simp [apply, Value.equal]

/-- Inequality is what equality is not, also of what is no number. -/
theorem holds_ne_iff : ne.Holds a b ↔ ¬eq.Holds a b := by
  simp [Holds, apply]

/-- Numbers can always be compared. -/
theorem exists_apply_eq_bool {op : BinaryOp} (hop : op ∈ [lt, le, eq, ne, ge, gt])
    (ha : a.isNaN = false) (hb : b.isNaN = false) :
    ∃ r, op.apply (.number a) (.number b) = .ok (.bool r) := by
  simp only [List.mem_cons, List.not_mem_nil, or_false] at hop
  rcases hop with rfl | rfl | rfl | rfl | rfl | rfl
  · exact ⟨_, apply_order lt (by simp) ha hb⟩
  · exact ⟨_, apply_order le (by simp) ha hb⟩
  · exact ⟨_, rfl⟩
  · exact ⟨_, rfl⟩
  · exact ⟨_, apply_order ge (by simp) ha hb⟩
  · exact ⟨_, apply_order gt (by simp) ha hb⟩

/-- **Order and equality agree, but for integers that are blurred.** A comparison of two numbers
gives a truth value. No two of `<`, `==` and `>` hold, and one of them does unless the numbers are
different integers that are the same floating-point number; of such integers both `<=` and `>=`
hold. The order of integers that are not blurred is that of the integers, and no integer of less
than 54 bits is blurred. -/
theorem apply_numbers (ha : a.isNaN = false) (hb : b.isNaN = false) :
    (∀ op ∈ [lt, le, eq, ne, ge, gt], ∃ r, op.apply (.number a) (.number b) = .ok (.bool r)) ∧
    ¬(lt.Holds a b ∧ eq.Holds a b) ∧ ¬(eq.Holds a b ∧ gt.Holds a b) ∧
    ¬(lt.Holds a b ∧ gt.Holds a b) ∧
    (lt.Holds a b ∨ eq.Holds a b ∨ gt.Holds a b ↔ ¬Blurred a b) ∧
    (le.Holds a b ↔ lt.Holds a b ∨ eq.Holds a b ∨ Blurred a b) ∧
    (ge.Holds a b ↔ gt.Holds a b ∨ eq.Holds a b ∨ Blurred a b) ∧
    (ne.Holds a b ↔ ¬eq.Holds a b) ∧
    ∀ m n : Int64, a = .int m → b = .int n →
      (eq.Holds a b ↔ m = n) ∧
      (lt.Holds a b ↔ m.toInt < n.toInt ∧ ¬Blurred a b) ∧
      (gt.Holds a b ↔ n.toInt < m.toInt ∧ ¬Blurred a b) ∧
      (Blurred a b → 2 ^ 53 ≤ m.toInt.natAbs ∧ 2 ^ 53 ≤ n.toInt.natAbs) := by
  refine ⟨fun op hop => exists_apply_eq_bool hop ha hb, ?_⟩
  rw [holds_ne_iff, holds_lt_iff ha hb, holds_eq_iff ha hb, holds_gt_iff ha hb,
    holds_le_iff ha hb, holds_ge_iff ha hb]
  refine ⟨fun h => h.1.ne h.2.1, fun h => h.2.ne' h.1.1, fun h => h.1.asymm h.2, ?_, ?_, ?_,
    Iff.rfl, ?_⟩
  · constructor
    · rintro (h | h | h) hblur
      · exact h.ne (rank_eq_of_blurred hblur)
      · exact h.2 hblur
      · exact h.ne' (rank_eq_of_blurred hblur)
    · intro hnot
      rcases lt_trichotomy a.rank b.rank with h | h | h
      · exact .inl h
      · exact .inr (.inl ⟨h, hnot⟩)
      · exact .inr (.inr h)
  · rw [le_iff_lt_or_eq]
    exact or_congr_right rank_eq_iff
  · rw [le_iff_lt_or_eq, eq_comm (a := b.rank)]
    exact or_congr_right rank_eq_iff
  · rintro m n rfl rfl
    refine ⟨?_, rank_int_lt_iff_lt, ?_, Blurred.le_natAbs⟩
    · rw [← equal_iff rfl rfl]
      exact beq_iff_eq
    · rw [rank_int_lt_iff_lt, blurred_comm]

/-- An integer and a floating-point number, one of them above the other. -/
theorem apply_numbers_mixed :
    (int 3).isNaN = false ∧ (float 2.5).isNaN = false ∧ gt.Holds (int 3) (float 2.5) ∧
      ¬lt.Holds (int 3) (float 2.5) ∧ ¬eq.Holds (int 3) (float 2.5) ∧
      ge.Holds (int 3) (float 2.5) := by
  have hb : (float 2.5).isNaN = false := by decide +kernel
  have hcompare : (int 3).compare? (float 2.5) = some .gt := by decide +kernel
  have hgt : gt.Holds (int 3) (float 2.5) := by
    rw [Holds, apply, compared, order?, hcompare]
    rfl
  obtain ⟨-, -, heq, hlt, -, -, hge, -⟩ := apply_numbers (a := int 3) rfl hb
  exact ⟨rfl, hb, hgt, fun h => hlt ⟨h, hgt⟩, fun h => heq ⟨h, hgt⟩, hge.2 (.inl hgt)⟩

/-- Two integers next to each other, neither below, equal to nor above the other. -/
theorem apply_numbers_blurred :
    ¬∀ m n : Int64, m.toInt < n.toInt →
      lt.Holds (int m) (int n) ∨ eq.Holds (int m) (int n) ∨ gt.Holds (int m) (int n) := by
  intro h
  have hblur : Blurred (int 9007199254740992) (int 9007199254740993) := by
    refine ⟨by decide, ?_⟩
    decide +kernel
  have hrank := rank_eq_of_blurred hblur
  rcases h 9007199254740992 9007199254740993 (by decide) with h | h | h
  · exact ((holds_lt_iff rfl rfl).1 h).ne hrank
  · exact ((holds_eq_iff rfl rfl).1 h).2 hblur
  · exact ((holds_gt_iff rfl rfl).1 h).ne' hrank

end BinaryOp

end Stencil
