import Mathlib.Algebra.Order.Field.Power
import Mathlib.Data.Int.Log
import Mathlib.Data.Rat.Floor
import Mathlib.Tactic.FieldSimp
import Mathlib.Tactic.Linarith
import Mathlib.Tactic.NormNum
import Mathlib.Tactic.Positivity
import Mathlib.Tactic.Ring
import Scrawl.Double

/-!
# Proofs/Double/Rounding — which quotients are read as a double

The numbers that are nearer to a double than to its neighbours form an interval around it, which
holds its ends when the mantissa is even (`ReadsAs`).  `ofRatio` gives the bits of that double for
every quotient in the interval (`ofRatio_eq`): the exponent comes from the binary logarithm of the
quotient (`exponentFor_eq`), and then a quotient of integers is rounded (`roundDiv_eq`).  Only below
a power of two the logarithm is one less, where rounding up to the power carries over.
-/

namespace Scrawl

/-- An integer power as a quotient of two natural ones. -/
theorem zpow_eq_div {b : ℚ} (hb : b ≠ 0) (e : ℤ) : b ^ e = b ^ e.toNat / b ^ (-e).toNat := by
  rw [← zpow_natCast, ← zpow_natCast, ← zpow_sub₀ hb]
  congr 1
  omega

namespace Double

theorem twoPow_pos (n : ℕ) : 0 < twoPow n := Nat.two_pow_pos n

theorem cast_twoPow (n : ℕ) : ((twoPow n : ℕ) : ℚ) = 2 ^ n := Nat.cast_pow 2 n

/-! ## Integers -/

/-- **No integer is nearer to a number**, and if it is odd, none is as near. -/
structure Nearest (q : ℚ) (n : ℕ) : Prop where
  low : n - 1 / 2 ≤ q
  high : q ≤ n + 1 / 2
  odd : n % 2 = 1 → n - 1 / 2 < q ∧ q < n + 1 / 2

theorem roundDiv_eq {num den n : ℕ} (hden : 0 < den) (h : Nearest (num / den) n) :
    roundDiv num den = n := by
  have hpos : (0 : ℚ) < den := Nat.cast_pos.mpr hden
  have hlow : 2 * (n * den) ≤ 2 * num + den := by
    have := (le_div_iff₀ hpos).mp h.low
    have : (2 * (n * den) : ℚ) ≤ 2 * num + den := by linarith
    exact_mod_cast this
  have hhigh : 2 * num ≤ 2 * (n * den) + den := by
    have := (div_le_iff₀ hpos).mp h.high
    have : (2 * num : ℚ) ≤ 2 * (n * den) + den := by linarith
    exact_mod_cast this
  have hodd : n % 2 = 1 → 2 * (n * den) ≠ 2 * num + den ∧ 2 * num ≠ 2 * (n * den) + den := by
    intro hn
    have h1 := (lt_div_iff₀ hpos).mp (h.odd hn).1
    have h2 := (div_lt_iff₀ hpos).mp (h.odd hn).2
    constructor <;> intro he <;> have := congrArg (Nat.cast (R := ℚ)) he <;> push_cast at this <;>
      linarith
  have hdiv : num / den * den + num % den = num := Nat.div_add_mod' num den
  have hmod : num % den < den := Nat.mod_lt num hden
  rw [roundDiv]
  generalize num / den = k at hdiv ⊢
  generalize num % den = r at hdiv hmod ⊢
  have hk : k ≤ n := by
    by_contra hlt
    have := Nat.mul_le_mul_right den (Nat.not_le.mp hlt)
    rw [Nat.succ_mul] at this
    omega
  have hn : n ≤ k + 1 := by
    by_contra hlt
    have := Nat.mul_le_mul_right den (Nat.not_le.mp hlt)
    rw [Nat.succ_mul, Nat.succ_mul] at this
    omega
  obtain rfl | rfl : n = k ∨ n = k + 1 := by omega
  · split_ifs <;> omega
  · rw [Nat.succ_mul k den] at hlow hhigh hodd
    split_ifs <;> omega

/-! ## The exponent -/

section Quotient

variable {num den : ℕ}

theorem scaled_div (num den : ℕ) (e : ℤ) :
    ((scaled num den e).1 : ℚ) / (scaled num den e).2 = num / den / 2 ^ e := by
  rw [scaled, zpow_eq_div two_ne_zero, Nat.cast_mul, Nat.cast_mul, cast_twoPow, cast_twoPow,
    div_div_div_eq]

/-- The quotient lies within a factor of two of the quotient of the leading bits. -/
theorem log_eq_or (hnum : 0 < num) (hden : 0 < den) :
    Int.log 2 (num / den : ℚ) = num.log2 - den.log2 - 1 ∨
      Int.log 2 (num / den : ℚ) = num.log2 - den.log2 := by
  have hd : (0 : ℚ) < den := Nat.cast_pos.mpr hden
  have hq : (0 : ℚ) < num / den := div_pos (Nat.cast_pos.mpr hnum) hd
  have hnum1 : (2 : ℚ) ^ num.log2 ≤ num := by exact_mod_cast Nat.log2_self_le hnum.ne'
  have hnum2 : (num : ℚ) < 2 ^ (num.log2 + 1) := by exact_mod_cast Nat.lt_log2_self
  have hden1 : (2 : ℚ) ^ den.log2 ≤ den := by exact_mod_cast Nat.log2_self_le hden.ne'
  have hden2 : (den : ℚ) < 2 ^ (den.log2 + 1) := by exact_mod_cast Nat.lt_log2_self
  have hlow : ((2 : ℕ) : ℚ) ^ (num.log2 - den.log2 - 1 : ℤ) ≤ num / den := by
    rw [Nat.cast_two, le_div_iff₀ hd]
    calc (2 : ℚ) ^ (num.log2 - den.log2 - 1 : ℤ) * den
        ≤ 2 ^ (num.log2 - den.log2 - 1 : ℤ) * 2 ^ (den.log2 + 1) := by
          have := hden2.le
          gcongr
      _ = 2 ^ num.log2 := by
          rw [← zpow_natCast, ← zpow_add₀ two_ne_zero, ← zpow_natCast]
          congr 1
          push_cast
          ring
      _ ≤ num := hnum1
  have hhigh : (num / den : ℚ) < ((2 : ℕ) : ℚ) ^ (num.log2 - den.log2 + 1 : ℤ) := by
    rw [Nat.cast_two, div_lt_iff₀ hd]
    calc (num : ℚ) < 2 ^ (num.log2 + 1) := hnum2
      _ = 2 ^ (num.log2 - den.log2 + 1 : ℤ) * 2 ^ den.log2 := by
          rw [← zpow_natCast, ← zpow_natCast, ← zpow_add₀ two_ne_zero]
          congr 1
          push_cast
          ring
      _ ≤ 2 ^ (num.log2 - den.log2 + 1 : ℤ) * den := by gcongr
  have h1 := (Int.zpow_le_iff_le_log (by decide) hq).mp hlow
  have h2 := (Int.lt_zpow_iff_log_lt (by decide) hq).mp hhigh
  omega

/-- **The exponent for a quotient** is its binary logarithm, but for the 52 bits behind the first
one, and not below the least one. -/
theorem exponentFor_eq (hnum : 0 < num) (hden : 0 < den) :
    exponentFor num den = max leastExponent (Int.log 2 (num / den : ℚ) - 52) := by
  have hq : (0 : ℚ) < num / den := div_pos (Nat.cast_pos.mpr hnum) (Nat.cast_pos.mpr hden)
  have htest (guess : ℤ) : (scaled num den guess).1 / (scaled num den guess).2 < twoPow 52 ↔
      Int.log 2 (num / den : ℚ) < guess + 52 := by
    have hpos : 0 < (scaled num den guess).2 := Nat.mul_pos hden (twoPow_pos _)
    rw [← Int.lt_zpow_iff_log_lt (by decide) hq, Nat.div_lt_iff_lt_mul hpos,
      ← Nat.cast_lt (α := ℚ), Nat.cast_mul, ← div_lt_iff₀ (Nat.cast_pos.mpr hpos), scaled_div,
      div_lt_iff₀ (by positivity), cast_twoPow, add_comm, zpow_add₀ (by norm_num)]
    norm_cast
  have h := log_eq_or hnum hden
  rw [exponentFor]
  dsimp only
  congr 1
  split_ifs with hlt
  · have := (htest _).mp hlt
    omega
  · have := (htest _).not.mp hlt
    omega

/-! ## The interval of a double -/

/-- **The mantissas and exponents of the positive finite doubles**: 53 bits, or fewer with the
least exponent. -/
structure Canonical (mantissa : ℕ) (exponent : ℤ) : Prop where
  pos : 0 < mantissa
  lt : mantissa < twoPow 53
  least : leastExponent ≤ exponent
  greatest : exponent ≤ 971
  full : mantissa < twoPow 52 → exponent = leastExponent

/-- The bits of a finite magnitude. -/
def bitsOf (mantissa : ℕ) (exponent : ℤ) : ℕ :=
  (exponent - leastExponent).toNat * twoPow 52 + mantissa

/-- **The numbers that are read as a double**: half a unit of its last place lies on either side,
but only a quarter below a power of two. -/
structure ReadsAs (q : ℚ) (mantissa : ℕ) (exponent : ℤ) : Prop extends
    Nearest (q / 2 ^ exponent) mantissa where
  below : mantissa = twoPow 52 → leastExponent < exponent →
    mantissa - 1 / 4 ≤ q / 2 ^ exponent

variable {m : ℕ} {e : ℤ}

theorem Canonical.bitsOf_lt (h : Canonical m e) : bitsOf m e < infinityBits := by
  have hm := h.lt
  have he := h.greatest
  have hshift : (e - leastExponent).toNat ≤ 2045 := by
    rw [leastExponent]
    omega
  have hbits := Nat.mul_le_mul_right (twoPow 52) hshift
  rw [bitsOf, infinityBits]
  change m < 2 ^ 53 at hm
  change _ + m < 2047 * 2 ^ 52
  change _ ≤ 2045 * 2 ^ 52 at hbits
  omega

/-- A quotient with the expected exponent is rounded to the expected mantissa. -/
theorem ofRatio_of_nearest (hnum : 0 < num) (hden : 0 < den) {k : ℕ}
    (he : exponentFor num den = e) (h : Nearest (num / den / 2 ^ e) k) :
    ofRatio num den = min infinityBits (bitsOf k e) := by
  have hpos : 0 < (scaled num den e).2 := Nat.mul_pos hden (twoPow_pos _)
  rw [ofRatio, if_neg hnum.ne', he]
  dsimp only
  rw [roundDiv_eq hpos ((scaled_div num den e).symm ▸ h), bitsOf]

/-- Rounding up to a power of two gives the bits of the next exponent. -/
theorem bitsOf_carry (he : leastExponent < e) :
    bitsOf (twoPow 53) (e - 1) = bitsOf (twoPow 52) e := by
  have hshift : (e - leastExponent).toNat = (e - 1 - leastExponent).toNat + 1 := by omega
  rw [bitsOf, bitsOf, hshift, Nat.succ_mul, show twoPow 53 = twoPow 52 + twoPow 52 from rfl,
    Nat.add_assoc]

/-- **Every quotient in the interval of a double has the bits of that double.** -/
theorem ofRatio_eq (hnum : 0 < num) (hden : 0 < den) (hc : Canonical m e)
    (h : ReadsAs (num / den) m e) : ofRatio num den = bitsOf m e := by
  have hq : (0 : ℚ) < num / den := div_pos (Nat.cast_pos.mpr hnum) (Nat.cast_pos.mpr hden)
  have hfinite : min infinityBits (bitsOf m e) = bitsOf m e := min_eq_right hc.bitsOf_lt.le
  have hlog (k : ℤ) : Int.log 2 (num / den : ℚ) < k + e ↔ (num / den / 2 ^ e : ℚ) < 2 ^ k := by
    have hunit : (0 : ℚ) < 2 ^ e := by positivity
    rw [← Int.lt_zpow_iff_log_lt (by decide) hq, Nat.cast_two, zpow_add₀ two_ne_zero,
      ← div_lt_iff₀ hunit]
  have h53 := hlog 53
  have h52 := hlog 52
  have h51 := hlog 51
  norm_num only at h51 h52 h53
  have hm : (m : ℚ) ≤ 9007199254740991 := by exact_mod_cast Nat.le_of_lt_succ hc.lt
  have hupper : Int.log 2 (num / den : ℚ) < 53 + e := by
    rw [h53]
    linarith [h.high]
  by_cases hcarry : m = twoPow 52 ∧ leastExponent < e ∧ (num / den / 2 ^ e : ℚ) < 4503599627370496
  · obtain ⟨rfl, hleast, hlt⟩ := hcarry
    have hbelow := h.below rfl hleast
    rw [cast_twoPow] at hbelow
    norm_num only at hbelow
    have hexponent : exponentFor num den = e - 1 := by
      have h1 := h52.mpr hlt
      have h2 := h51.not.mpr (by linarith)
      rw [exponentFor_eq hnum hden]
      omega
    rw [ofRatio_of_nearest hnum hden (k := twoPow 53) hexponent, bitsOf_carry hleast, hfinite]
    have hdouble : (num / den / 2 ^ (e - 1) : ℚ) = 2 * (num / den / 2 ^ e) := by
      rw [zpow_sub_one₀ two_ne_zero]
      field_simp
    refine ⟨?_, ?_, fun hodd => absurd hodd (by decide)⟩
    · rw [hdouble, cast_twoPow]
      norm_num only
      linarith
    · rw [hdouble, cast_twoPow]
      norm_num only
      linarith
  · have hexponent : exponentFor num den = e := by
      rw [exponentFor_eq hnum hden]
      rcases hc.least.eq_or_lt with rfl | hleast
      · omega
      have hlow : ¬ (num / den / 2 ^ e : ℚ) < 4503599627370496 := by
        intro hlt
        have hne : m ≠ twoPow 52 := fun hm => hcarry ⟨hm, hleast, hlt⟩
        have hfull : ¬ m < twoPow 52 := fun hm => hleast.ne' (hc.full hm)
        have : 4503599627370496 + 1 ≤ m := lt_of_le_of_ne (Nat.not_lt.mp hfull) (Ne.symm hne)
        have : (4503599627370496 + 1 : ℚ) ≤ m := by exact_mod_cast this
        linarith [h.low]
      have := h52.not.mpr hlow
      omega
    rw [ofRatio_of_nearest hnum hden hexponent h.toNearest, hfinite]

end Quotient

end Double

end Scrawl
