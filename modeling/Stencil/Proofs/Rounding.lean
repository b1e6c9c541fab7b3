import Mathlib
import Stencil.Number.Basic
/-!
# Integers as floating-point numbers

The floating-point number of an integer is the nearest whole number of 53 bits, and of two that are
equally near the one with an even last bit. Up to `2 ^ 53` it is the integer itself. Rounding keeps
the order of integers, but not that they differ: above `2 ^ 53` several integers become one number.
-/

namespace Stencil

namespace Number

open Float.Model Float.Model.UnpackedFloat

variable {i : Int} {k m n : Nat} {u : UnpackedFloat}

/-! ## Rounding -/

/-- The number of bits that an amount has beyond 53. -/
def excess (n : Nat) : Nat :=
  n.log2 - 52

/-- The quotient of `n` and `2 ^ k`, rounded to the nearest whole number and to an even one if two
are equally near. -/
def quotient (n k : Nat) : Nat :=
  if 2 * (n % 2 ^ k) < 2 ^ k ∨ 2 * (n % 2 ^ k) = 2 ^ k ∧ n / 2 ^ k % 2 = 0 then n / 2 ^ k
  else n / 2 ^ k + 1

/-- The amount that 53 bits can hold and that is nearest. -/
def nearestNat (n : Nat) : Nat :=
  quotient n (excess n) * 2 ^ excess n

/-- The same for an integer. -/
def nearest (i : Int) : Int :=
  if i < 0 then -nearestNat i.natAbs else nearestNat i.toNat

/-- Without bits to cut off nothing is rounded. -/
theorem quotient_zero (n : Nat) : quotient n 0 = n := by
  simp [quotient, Nat.mod_one]

/-- Rounding does not go below the quotient without its rest. -/
theorem le_quotient (n k : Nat) : n / 2 ^ k ≤ quotient n k := by
  rw [quotient]
  split <;> omega

/-- Rounding goes up by one at most. -/
theorem quotient_le (n k : Nat) : quotient n k ≤ n / 2 ^ k + 1 := by
  rw [quotient]
  split <;> omega

/-- For the same number of bits rounding keeps the order. -/
theorem quotient_mono (h : m ≤ n) (k : Nat) : quotient m k ≤ quotient n k := by
  have hdiv : m / 2 ^ k ≤ n / 2 ^ k := Nat.div_le_div_right h
  rcases hdiv.lt_or_eq with hlt | heq
  · exact (quotient_le m k).trans ((Nat.succ_le_of_lt hlt).trans (le_quotient n k))
  -- with one quotient for both it is the remainders that decide
  · have hmod : m % 2 ^ k ≤ n % 2 ^ k := by
      have hm := Nat.div_add_mod m (2 ^ k)
      have hn := Nat.div_add_mod n (2 ^ k)
      rw [heq] at hm
      omega
    rw [quotient, quotient, heq]
    split <;> split <;> omega

/-- An amount fits into 53 bits and those beyond. -/
theorem lt_two_pow_excess (n : Nat) : n < 2 ^ (53 + excess n) := by
  refine Nat.lt_log2_self.trans_le (Nat.pow_le_pow_right Nat.two_pos ?_)
  rw [excess]
  omega

/-- With 53 bits or more, all bits that are cut off are needed. -/
theorem two_pow_excess_le (h : 2 ^ 52 ≤ n) : 2 ^ (52 + excess n) ≤ n := by
  have hne : n ≠ 0 := by omega
  have hlog : 52 ≤ n.log2 := (Nat.le_log2 hne).2 h
  have heq : 52 + excess n = n.log2 := Nat.add_sub_of_le hlog
  rw [heq]
  exact Nat.log2_self_le hne

/-- An amount with bits beyond 53 has 53 bits. -/
theorem le_of_excess_ne_zero (h : excess n ≠ 0) : 2 ^ 52 ≤ n := by
  have hne : n ≠ 0 := by
    rintro rfl
    exact h rfl
  refine (Nat.le_log2 hne).1 ?_
  rw [excess] at h
  omega

/-- A greater amount has no fewer bits to cut off. -/
theorem excess_mono (h : m ≤ n) : excess m ≤ excess n := by
  rw [excess, excess, Nat.log2_eq_log_two, Nat.log2_eq_log_two]
  exact Nat.sub_le_sub_right (Nat.log_mono_right h) 52

/-- What is left of an amount has 53 bits again. -/
theorem le_quotient_excess (h : 2 ^ 52 ≤ n) : 2 ^ 52 ≤ quotient n (excess n) := by
  refine le_trans ?_ (le_quotient n _)
  rw [Nat.le_div_iff_mul_le (Nat.two_pow_pos _), ← Nat.pow_add]
  exact two_pow_excess_le h

/-- Rounding up can reach a power of two, which needs one bit more and has nothing in the others. -/
theorem quotient_excess_le (n : Nat) : quotient n (excess n) ≤ 2 ^ 53 := by
  have hlt : n / 2 ^ excess n < 2 ^ 53 := by
    rw [Nat.div_lt_iff_lt_mul (Nat.two_pow_pos _), ← Nat.pow_add]
    exact lt_two_pow_excess n
  exact (quotient_le n _).trans hlt

/-- Between amounts of the same length the quotients keep the order; between others a power of two
lies. -/
theorem nearestNat_mono (h : m ≤ n) : nearestNat m ≤ nearestNat n := by
  rw [nearestNat, nearestNat]
  rcases (excess_mono h).lt_or_eq with hlt | heq
  -- with more bits to drop, `n` is rounded to nothing below the next power of two above `m`
  · have hlow := le_quotient_excess (le_of_excess_ne_zero (n := n) (by omega))
    calc quotient m (excess m) * 2 ^ excess m ≤ 2 ^ 53 * 2 ^ excess m :=
          Nat.mul_le_mul_right _ (quotient_excess_le m)
      _ = 2 ^ 52 * 2 ^ (excess m + 1) := by ring
      _ ≤ quotient n (excess n) * 2 ^ excess n :=
          Nat.mul_le_mul hlow (Nat.pow_le_pow_right Nat.two_pos hlt)
  · rw [heq]
    exact Nat.mul_le_mul_right _ (quotient_mono h _)

/-- Up to `2 ^ 53` nothing is cut off. -/
theorem nearestNat_of_le (h : n ≤ 2 ^ 53) : nearestNat n = n := by
  rcases h.lt_or_eq with hlt | rfl
  · have hexcess : excess n = 0 := by
      by_contra hne
      have hle := two_pow_excess_le (le_of_excess_ne_zero hne)
      have hpow : 2 ^ 53 ≤ 2 ^ (52 + excess n) := Nat.pow_le_pow_right Nat.two_pos (by omega)
      omega
    rw [nearestNat, hexcess, quotient_zero, pow_zero, Nat.mul_one]
  · decide +kernel

/-- The greatest amount that an integer can have is rounded to itself. -/
theorem nearestNat_le (h : n ≤ 2 ^ 64) : nearestNat n ≤ 2 ^ 64 :=
  (nearestNat_mono h).trans_eq (by decide +kernel)

/-- **Rounding keeps the order.** -/
theorem nearest_mono {i j : Int} (h : i ≤ j) : nearest i ≤ nearest j := by
  rw [nearest, nearest]
  split
  · split
    · exact Int.neg_le_neg (Int.ofNat_le.2 (nearestNat_mono (by omega)))
    · omega
  · rw [if_neg (by omega)]
    exact Int.ofNat_le.2 (nearestNat_mono (by omega))

/-- Small integers are floating-point numbers. -/
theorem nearest_of_natAbs_le (h : i.natAbs ≤ 2 ^ 53) : nearest i = i := by
  rw [nearest]
  split
  · rw [nearestNat_of_le h]
    omega
  · rw [nearestNat_of_le (by omega)]
    omega

/-- Rounding is the same on both sides of zero. -/
theorem natAbs_nearest (i : Int) : (nearest i).natAbs = nearestNat i.natAbs := by
  rw [nearest]
  split
  · rw [Int.natAbs_neg, Int.natAbs_natCast]
  · rw [Int.natAbs_natCast]
    congr 1
    omega

example : nearest 9007199254740993 = 9007199254740992 := by decide +kernel
example : nearest (-9007199254740995) = -9007199254740996 := by decide +kernel

/-- An integer of at most 53 bits is the only one that is rounded to it. -/
theorem eq_of_nearest_eq {i j : Int} (h : nearest i = nearest j) (hi : i.natAbs < 2 ^ 53) :
    i = j := by
  have hj : j.natAbs ≤ 2 ^ 53 := by
    by_contra hlt
    have hnear := nearestNat_mono (Nat.le_of_not_le hlt)
    rw [← natAbs_nearest j, ← h, natAbs_nearest, nearestNat_of_le hi.le,
      nearestNat_of_le le_rfl] at hnear
    omega
  rw [← nearest_of_natAbs_le hi.le, h, nearest_of_natAbs_le hj]

/-! ## The rounding of floating-point numbers

The model of floating-point numbers rounds by shifting bit by bit and keeps account of what has
been shifted out. That is a division with the remainder as its account. -/

/-- The floating-point number is the integer: its mantissa has 53 bits, and its exponent counts from
the last of 52 bits behind the point. -/
inductive IsWhole : UnpackedFloat → Int → Prop
  | zero (s : Sign) : IsWhole (.zero s) 0
  | finite (s : Sign) {m k n : Nat} (hlow : 2 ^ 52 ≤ m) (hhigh : m < 2 ^ 53)
      (hvalue : m * 2 ^ k = n * 2 ^ 52) (hpos : 0 < m) :
      IsWhole (.finite s m (k - 52) hpos) (s.apply n)

/-- A shift by one bit moves that bit to the rest, whatever the rest was. -/
theorem shiftRightOne_exact (m : Nat) {rest unit : Nat} (h : rest < unit) :
    (ExtendedMantissa.ofMantissaAndAccuracy m (accuracyOfFraction rest unit)).shiftRightOne =
      .ofMantissaAndAccuracy (m / 2) (accuracyOfFraction (rest + unit * (m % 2)) (unit * 2)) := by
  rcases Nat.mod_two_eq_zero_or_one m with hbit | hbit <;> by_cases hrest : rest = 0
  · simp [hbit, hrest, accuracyOfFraction, ExtendedMantissa.ofMantissaAndAccuracy,
      ExtendedMantissa.shiftRightOne]
  -- something was dropped before and a zero bit goes: less than half
  · have hlt : compare (2 * rest) (unit * 2) = .lt := Nat.compare_eq_lt.2 (by omega)
    cases hc : compare (2 * rest) unit <;>
      simp [hbit, hrest, accuracyOfFraction, hlt, hc, ExtendedMantissa.ofMantissaAndAccuracy,
        ExtendedMantissa.shiftRightOne]
  -- a one bit goes and nothing before it: exactly half
  · have heq : compare (2 * unit) (unit * 2) = .eq := Nat.compare_eq_eq.2 (by omega)
    subst hrest
    simp [hbit, accuracyOfFraction, ExtendedMantissa.ofMantissaAndAccuracy,
      ExtendedMantissa.shiftRightOne, heq, Nat.ne_of_gt h]
  · have hsum : rest + unit ≠ 0 := by omega
    have hgt : compare (2 * (rest + unit)) (unit * 2) = .gt := Nat.compare_eq_gt.2 (by omega)
    cases hc : compare (2 * rest) unit <;>
      simp [hbit, hrest, accuracyOfFraction, ExtendedMantissa.ofMantissaAndAccuracy,
        ExtendedMantissa.shiftRightOne, hgt, hc]

/-- A shift is a division, and its account the remainder as a part of the divisor. -/
theorem ofMantissa_shift (n k : Nat) :
    (ExtendedMantissa.ofMantissaAndAccuracy n .exact >>> k) =
      .ofMantissaAndAccuracy (n / 2 ^ k) (accuracyOfFraction (n % 2 ^ k) (2 ^ k)) := by
  induction k with
  | zero =>
    rw [pow_zero, Nat.div_one, Nat.mod_one]
    rfl
  | succ k ih =>
    have hstep : (ExtendedMantissa.ofMantissaAndAccuracy n .exact >>> (k + 1)) =
      (ExtendedMantissa.ofMantissaAndAccuracy n .exact >>> k).shiftRightOne := rfl
    rw [hstep, ih, shiftRightOne_exact _ (Nat.mod_lt _ (Nat.two_pow_pos k)),
      Nat.div_div_eq_div_mul, ← Nat.mod_pow_succ, Nat.pow_succ]

theorem roundedMantissa_ofMantissa (m : Nat) (a : Accuracy) :
    (ExtendedMantissa.ofMantissaAndAccuracy m a).roundedMantissa = a.roundToNearestEven m := by
  rcases a with _ | _ | _ | _ <;> rfl

theorem mantissa_ofMantissa (m : Nat) (a : Accuracy) :
    (ExtendedMantissa.ofMantissaAndAccuracy m a).mantissa = m := by
  rcases a with _ | _ | _ | _ <;> rfl

/-- The rounding by the accuracy of what is cut off is that of the quotient. -/
theorem roundToNearestEven_fraction (n k : Nat) :
    (accuracyOfFraction (n % 2 ^ k) (2 ^ k)).roundToNearestEven (n / 2 ^ k) = quotient n k := by
  rw [accuracyOfFraction, quotient]
  have hpos := Nat.two_pow_pos k
  split
  · next h =>
    rw [h, if_pos (.inl hpos)]
    rfl
  · rcases Nat.lt_trichotomy (2 * (n % 2 ^ k)) (2 ^ k) with h | h | h
    · rw [Nat.compare_eq_lt.2 h, if_pos (.inl h)]
      rfl
    · rw [Nat.compare_eq_eq.2 h, h]
      change n / 2 ^ k + n / 2 ^ k % 2 = _
      split <;> omega
    · rw [Nat.compare_eq_gt.2 h, if_neg (by omega)]
      rfl

/-- Numbers of this size are never subnormal. -/
theorem targetExponent_eq {e : Int} (h : -1074 ≤ m.log2 + e - 52) :
    Format.binary64.targetExponent (totalExponent m e) = m.log2 + e - 52 := by
  simp only [Format.targetExponent, totalExponent, Format.mantissaBits, Format.minExponent]
  norm_num
  omega

/-- All bits beyond 53 are shifted out at once. -/
theorem shiftToTargetExponent_eq {e : Int} (h : -1074 ≤ m.log2 + e - 52) :
    shiftToTargetExponent .binary64 m e .exact =
      (.ofMantissaAndAccuracy (m / 2 ^ excess m)
        (accuracyOfFraction (m % 2 ^ excess m) (2 ^ excess m)), e + (excess m : Nat)) := by
  have hamount : ((m.log2 : Int) + e - 52 - e).toNat = excess m := by
    rw [excess]
    omega
  rw [shiftToTargetExponent, targetExponent_eq h, shiftToExponent]
  simp only [hamount, ofMantissa_shift]

/-- What is rounded is the nearest amount. If rounding carries into a 54th bit, that bit is dropped
in a second turn, and nothing is lost by it. -/
theorem roundWithAccuracy_eq (s : Sign) (hm : 2 ^ 52 ≤ m) {e : Int} (he : -1074 ≤ e) :
    ∃ m' k, ∃ hpos, roundWithAccuracy .binary64 s m e .exact = .finite s m' (e + (k : Nat)) hpos ∧
      2 ^ 52 ≤ m' ∧ m' < 2 ^ 53 ∧ m' * 2 ^ k = nearestNat m := by
  obtain ⟨q, hq⟩ : ∃ q, q = quotient m (excess m) := ⟨_, rfl⟩
  have hlow : 2 ^ 52 ≤ q := hq ▸ le_quotient_excess hm
  have hlog : 52 ≤ m.log2 := (Nat.le_log2 (by omega)).2 hm
  have hlogq : 52 ≤ q.log2 := (Nat.le_log2 (by omega)).2 hlow
  have hcarry : 2 ^ 52 ≤ q / 2 ^ excess q ∧ q / 2 ^ excess q < 2 ^ 53 ∧
      q / 2 ^ excess q * 2 ^ excess q = q := by
    rcases (hq ▸ quotient_excess_le m : q ≤ 2 ^ 53).lt_or_eq with hlt | rfl
    · have hnone : excess q = 0 := by
        rw [excess, (Nat.log2_eq_iff (by omega)).2 ⟨hlow, hlt⟩]
      rw [hnone]
      omega
    · decide +kernel
  obtain ⟨hlow', hhigh', hexact⟩ := hcarry
  have hpos : 0 < q / 2 ^ excess q := by omega
  refine ⟨q / 2 ^ excess q, excess m + excess q, hpos, ?_, hlow', hhigh', ?_⟩
  · have hfirst := shiftToTargetExponent_eq (m := m) (e := e) (by omega)
    have hsecond := shiftToTargetExponent_eq (m := q) (e := e + excess m) (by omega)
    rw [roundWithAccuracy, hfirst]
    simp only [roundedMantissa_ofMantissa, roundToNearestEven_fraction, ← hq, hsecond,
      mantissa_ofMantissa, dif_neg hpos.ne', Nat.cast_add, Int.add_assoc]
  · rw [nearestNat, ← hq, Nat.pow_add, Nat.mul_comm (2 ^ excess m), ← Nat.mul_assoc, hexact]

/-- A shift adds to the length. -/
theorem log2_mul_two_pow (h : n ≠ 0) (k : Nat) : (n * 2 ^ k).log2 = n.log2 + k := by
  have hpos := Nat.two_pow_pos k
  have hlow := Nat.mul_le_mul_right (2 ^ k) (Nat.log2_self_le h)
  have hhigh := Nat.mul_lt_mul_of_pos_right (Nat.lt_log2_self (n := n)) hpos
  rw [← Nat.pow_add] at hlow hhigh
  refine (Nat.log2_eq_iff (Nat.mul_ne_zero h hpos.ne')).2 ⟨hlow, ?_⟩
  rwa [Nat.add_right_comm]

/-- An amount is rounded to the nearest one with 53 bits. -/
theorem isWhole_round (s : Sign) (hn : 0 < n) :
    IsWhole (UnpackedFloat.round .binary64 s n 0) (s.apply (nearestNat n)) := by
  -- an amount of fewer bits is first filled up with zeros, `d` of them
  obtain ⟨d, hd⟩ : ∃ d, d = 52 - n.log2 := ⟨_, rfl⟩
  have hlog := log2_mul_two_pow hn.ne' d
  have hfull : 2 ^ 52 ≤ n * 2 ^ d :=
    (Nat.le_log2 (Nat.mul_pos hn (Nat.two_pow_pos d)).ne').1 (by omega)
  obtain ⟨m, k, hpos, hround, hlow, hhigh, hvalue⟩ :=
    roundWithAccuracy_eq s hfull (e := 0 - d) (by omega)
  have htarget := targetExponent_eq (m := n) (e := 0) (by omega)
  have hamount : (0 - ((n.log2 : Int) + 0 - 52)).toNat = d := by omega
  have hexponent : (0 - d : Int) + k = (k + (52 - d) : Nat) - 52 := by omega
  rw [UnpackedFloat.round, htarget, decreaseExponent]
  simp only [hamount, Nat.shiftLeft_eq]
  rw [hround]
  simp only [hexponent]
  refine .finite s hlow hhigh ?_ hpos
  rw [Nat.pow_add, ← Nat.mul_assoc, hvalue]
  rcases Nat.eq_zero_or_pos d with rfl | hd'
  · rw [pow_zero, Nat.mul_one, Nat.sub_zero]
  · have hlt : n < 2 ^ 52 := (Nat.log2_lt hn.ne').1 (by omega)
    have hlt' : n * 2 ^ d < 2 ^ 53 := (Nat.log2_lt (by omega)).1 (by omega)
    rw [nearestNat_of_le hlt'.le, nearestNat_of_le (by omega), Nat.mul_assoc, ← Nat.pow_add,
      Nat.add_sub_of_le (by omega)]

/-! ## The bits of whole numbers -/

/-- The sign is the first of the bits. -/
theorem sign_packComponents (s : Sign) (e : BitVec 11) (m : BitVec 52) :
    Sign.ofBitVec (unpackSign (packComponents .binary64 s e m)) = s := by
  simp only [unpackSign, packComponents, BitVec.extractLsb]
  rw [BitVec.extractLsb'_append_eq_of_le (by omega),
    BitVec.extractLsb'_append_eq_of_le (by omega)]
  cases s <;> rfl

/-- A mantissa of 53 bits is found again in the bits of a number. -/
theorem unpack_pack_finite (s : Sign) (hlow : 2 ^ 52 ≤ m) (hhigh : m < 2 ^ 53) (hk : k ≤ 64)
    (hpos : 0 < m) :
    (Float.Model.pack (.finite s m (k - 52) hpos)).unpack = .finite s m (k - 52) hpos := by
  have hlog : m.log2 = 52 := (Nat.log2_eq_iff hpos.ne').2 ⟨hlow, hhigh⟩
  have hbiased : ((k : Int) - 52 + Format.binary64.exponentBias +
      Format.binary64.mantissaBitsWithoutImplicit).toNat = k + 1023 := by
    change ((k : Int) - 52 + (1023 : Nat) + (52 : Nat)).toNat = _
    omega
  have hpack : UnpackedFloat.pack .binary64 (.finite s m (k - 52) hpos) =
      packComponents .binary64 s (BitVec.ofNat 11 (k + 1023)) (BitVec.ofNat 52 m) := by
    rw [UnpackedFloat.pack]
    simp only [hlog, hbiased]
    rw [if_neg (by omega), if_pos (show 52 + 1 = Format.binary64.mantissaBits from rfl)]
  have hexponent : (BitVec.ofNat 11 (k + 1023)).toNat = k + 1023 := by
    rw [BitVec.toNat_ofNat, Nat.mod_eq_of_lt (by omega)]
  have hmantissa : (1#1 ++ BitVec.ofNat 52 m).toNat = m := by
    rw [BitVec.toNat_append, ← Nat.shiftLeft_add_eq_or_of_lt (BitVec.isLt _), BitVec.toNat_ofNat]
    change 1 <<< 52 + m % 2 ^ 52 = m
    omega
  -- neither the exponent of zero and what is next to it, nor that of infinity
  have hne : ∀ b : BitVec 11, b.toNat = 0 ∨ b.toNat = 2047 → BitVec.ofNat 11 (k + 1023) ≠ b := by
    rintro b hb rfl
    omega
  have hones := hne (-1#11) (.inr rfl)
  have hzero := hne 0#11 (.inl rfl)
  change UnpackedFloat.unpack .binary64 (UnpackedFloat.pack .binary64 _) = _
  rw [hpack, UnpackedFloat.unpack]
  simp only [unpackMantissa_packComponents, unpackExponent_packComponents, sign_packComponents,
    if_neg hones, if_neg hzero, hmantissa, hexponent]
  have hbias : Format.binary64.exponentBias = 1023 := rfl
  simp only [hbias, UnpackedFloat.finite.injEq, true_and]
  omega

/-- Zero is found again, with its sign. -/
theorem unpack_pack_zero (s : Sign) : (Float.Model.pack (.zero s)).unpack = .zero s := by
  cases s <;> rfl

/-- So nothing is lost when a whole number is put into bits. -/
theorem IsWhole.unpack_pack (h : IsWhole u i) (hi : i.natAbs ≤ 2 ^ 64) :
    (Float.Model.pack u).unpack = u := by
  cases h with
  | zero s => exact unpack_pack_zero s
  | @finite s m k n hlow hhigh hvalue hpos =>
    have hn : n ≤ 2 ^ 64 := by cases s <;> simpa [Sign.apply] using hi
    have hle : 2 ^ 52 * 2 ^ k ≤ 2 ^ 52 * 2 ^ 64 := by
      calc 2 ^ 52 * 2 ^ k ≤ m * 2 ^ k := Nat.mul_le_mul_right _ hlow
        _ = 2 ^ 52 * n := by rw [hvalue, Nat.mul_comm]
        _ ≤ 2 ^ 52 * 2 ^ 64 := Nat.mul_le_mul_left _ hn
    have hk : k ≤ 64 :=
      (Nat.pow_le_pow_iff_right (by decide)).1 (Nat.le_of_mul_le_mul_left hle (by decide))
    exact unpack_pack_finite s hlow hhigh hk hpos

/-- The negative of a number is that of the integer. -/
theorem IsWhole.neg (h : IsWhole u i) : IsWhole u.neg (-i) := by
  cases h with
  | zero s => exact .zero (-s)
  | @finite s m k n hlow hhigh hvalue hpos =>
    have hs : -s.apply n = (-s).apply n := by
      cases s with
      | negative => exact Int.neg_neg _
      | positive => rfl
    exact hs ▸ .finite (-s) hlow hhigh hvalue hpos

/-- The conversion of an unsigned integer is this rounding. -/
theorem isWhole_toFloat (h : n < 2 ^ 64) :
    IsWhole n.toUInt64.toFloat.toModel.unpack (nearestNat n) := by
  have hn : n.toUInt64.toNat = n := UInt64.toNat_ofNat_of_lt' h
  change IsWhole (Float.Model.pack
    (UnpackedFloat.normalize .binary64 n.toUInt64.toNat 0 .positive)).unpack _
  rw [hn]
  rcases Nat.eq_zero_or_pos n with rfl | hpos
  · rw [nearestNat_of_le (Nat.zero_le _)]
    exact .zero .positive
  · have hwhole : IsWhole (UnpackedFloat.normalize .binary64 n 0 .positive) (nearestNat n) := by
      rw [UnpackedFloat.normalize, Int.compare_eq_gt.2 (by omega)]
      exact isWhole_round .positive hpos
    rw [hwhole.unpack_pack (by rw [Int.natAbs_natCast]; exact nearestNat_le h.le)]
    exact hwhole

/-- **The floating-point number of an integer is the nearest whole number.** -/
theorem isWhole_floatOfInt (i : Int64) :
    IsWhole (floatOfInt i).toModel.unpack (nearest i.toInt) := by
  have hlow := i.minValue_le_toInt
  have hhigh := i.toInt_le
  change -2 ^ 63 ≤ i.toInt at hlow
  change i.toInt ≤ 2 ^ 63 - 1 at hhigh
  rw [floatOfInt, nearest]
  split
  · have hwhole := (isWhole_toFloat (n := i.toInt.natAbs) (by omega)).neg
    change IsWhole (Float.Model.pack i.toInt.natAbs.toUInt64.toFloat.toModel.unpack.neg).unpack _
    rw [hwhole.unpack_pack]
    · exact hwhole
    · rw [Int.natAbs_neg, Int.natAbs_natCast]
      exact nearestNat_le (by omega)
  · exact isWhole_toFloat (by omega)

end Number

end Stencil
