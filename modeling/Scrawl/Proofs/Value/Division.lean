import Mathlib.Data.Rat.Floor
import Mathlib.Tactic.FieldSimp
import Mathlib.Tactic.Linarith
import Scrawl.Value.Operator

/-!
# Proofs/Value/Division — integer division rounds toward zero

A quotient and a remainder **truncate** when they make up the dividend and the remainder is smaller
than the divisor, on the side of the dividend (`Truncates`).  Then the quotient is the exact one
rounded toward zero (`Truncates.quotient_eq`), so there is only one such pair.  The quotient of the
absolute values with a sign put to it, and what it leaves of the dividend, are that pair
(`Number.quotient_eq_tdiv`, `Number.remainder_eq_tmod`).  So division and remainder of integers
yield it, and fail for a zero divisor alone (`division_truncates`).
-/

namespace Scrawl

/-- **The integer next to a fraction on the side of zero.** -/
def towardZero (x : ℚ) : Int := if x < 0 then ⌈x⌉ else ⌊x⌋

/-- **A quotient and a remainder by truncated division.** -/
structure Truncates (a b q r : Int) : Prop where
  sum : a = b * q + r
  small : |r| < |b|
  sign : r = 0 ∨ r.sign = a.sign

namespace Truncates

variable {a b q r q' r' : Int}

theorem divisor_ne_zero (h : Truncates a b q r) : b ≠ 0 := by
  rintro rfl
  exact absurd h.small (by simp)

/-- The remainder is on the side of the dividend. -/
theorem remainder_nonneg (h : Truncates a b q r) (ha : 0 ≤ a) : 0 ≤ r := by
  obtain hr | hr := h.sign
  · exact hr.ge
  · rwa [← Int.sign_nonneg_iff, hr, Int.sign_nonneg_iff]

theorem remainder_nonpos (h : Truncates a b q r) (ha : a ≤ 0) : r ≤ 0 := by
  obtain hr | hr := h.sign
  · exact hr.le
  · rwa [← Int.sign_nonpos_iff, hr, Int.sign_nonpos_iff]

/-- The exact quotient is the quotient and a fraction. -/
theorem div_eq (h : Truncates a b q r) : (a / b : ℚ) = q + r / b := by
  have hb : (b : ℚ) ≠ 0 := Int.cast_ne_zero.mpr h.divisor_ne_zero
  rw [h.sum]
  push_cast
  field_simp

theorem abs_fraction_lt_one (h : Truncates a b q r) : |(r / b : ℚ)| < 1 := by
  have hb : (0 : ℚ) < |(b : ℚ)| := abs_pos.mpr (Int.cast_ne_zero.mpr h.divisor_ne_zero)
  rw [abs_div, div_lt_one hb]
  exact_mod_cast h.small

/-- The fraction is on the side of the exact quotient. -/
theorem fraction_nonneg (h : Truncates a b q r) (hq : (0 : ℚ) ≤ a / b) : (0 : ℚ) ≤ r / b := by
  obtain ⟨ha, hb⟩ | ⟨ha, hb⟩ := div_nonneg_iff.mp hq
  · exact div_nonneg (Int.cast_nonneg (h.remainder_nonneg (Int.cast_nonneg_iff.mp ha))) hb
  · exact div_nonneg_of_nonpos (Int.cast_nonpos.mpr (h.remainder_nonpos (Int.cast_nonpos.mp ha))) hb

theorem fraction_nonpos (h : Truncates a b q r) (hq : (a / b : ℚ) < 0) : (r / b : ℚ) ≤ 0 := by
  obtain ⟨ha, hb⟩ | ⟨ha, hb⟩ := div_neg_iff.mp hq
  · have hr := h.remainder_nonneg (Int.cast_pos.mp ha).le
    exact div_nonpos_of_nonneg_of_nonpos (Int.cast_nonneg hr) hb.le
  · have hr := h.remainder_nonpos (Int.cast_lt_zero.mp ha).le
    exact div_nonpos_of_nonpos_of_nonneg (Int.cast_nonpos.mpr hr) hb.le

/-- **The quotient is the exact one rounded toward zero.** -/
theorem quotient_eq (h : Truncates a b q r) : q = towardZero (a / b) := by
  obtain ⟨hlow, hhigh⟩ := abs_lt.mp h.abs_fraction_lt_one
  have hdiv := h.div_eq
  unfold towardZero
  split
  case isTrue hneg =>
    have hfraction := h.fraction_nonpos hneg
    refine (Int.ceil_eq_iff.mpr ⟨?_, ?_⟩).symm <;> linarith
  case isFalse hneg =>
    have hfraction := h.fraction_nonneg (not_lt.mp hneg)
    refine (Int.floor_eq_iff.mpr ⟨?_, ?_⟩).symm <;> linarith

/-- **There is only one truncated quotient and remainder.** -/
theorem unique (h : Truncates a b q r) (h' : Truncates a b q' r') : q' = q ∧ r' = r := by
  obtain rfl : q' = q := h'.quotient_eq.trans h.quotient_eq.symm
  exact ⟨rfl, Int.add_left_cancel (h'.sum.symm.trans h.sum)⟩

end Truncates

/-- Truncated division of the library truncates in this sense. -/
theorem truncates_tdiv_tmod (a : Int) {b : Int} (hb : b ≠ 0) :
    Truncates a b (a.tdiv b) (a.tmod b) where
  sum := (Int.mul_tdiv_add_tmod a b).symm
  small := by
    rw [Int.abs_eq_natAbs, Int.abs_eq_natAbs, Int.natAbs_tmod]
    exact_mod_cast Nat.mod_lt _ (Int.natAbs_pos.mpr hb)
  sign := by
    have hsign := Int.sign_tmod a b
    split at hsign
    case isTrue => exact .inl (Int.sign_eq_zero_iff_zero.mp hsign)
    case isFalse => exact .inr hsign

/-! ## The quotient of the absolute values

Neither of the two lemmas needs a divisor other than zero: both quotients are zero then. -/

namespace Number

/-- **The sign makes the quotient of the absolute values the truncated one**, whichever of the two
integers are negative.  A zero dividend is not, and its quotient is zero with either sign. -/
theorem quotient_eq_tdiv (a b : Int) : quotient a b = a.tdiv b := by
  unfold quotient
  cases a with
  | ofNat m =>
    have hm : ¬Int.ofNat m < 0 := Int.not_lt.mpr (Int.natCast_nonneg m)
    cases b with
    | ofNat n =>
      have hn : ¬Int.ofNat n < 0 := Int.not_lt.mpr (Int.natCast_nonneg n)
      rw [if_pos (iff_of_false hm hn)]
      rfl
    | negSucc n =>
      rw [if_neg fun h => hm (h.mpr (Int.negSucc_lt_zero n))]
      rfl
  | negSucc m =>
    have hm := Int.negSucc_lt_zero m
    cases b with
    | ofNat n =>
      have hn : ¬Int.ofNat n < 0 := Int.not_lt.mpr (Int.natCast_nonneg n)
      rw [if_neg fun h => hn (h.mp hm)]
      rfl
    | negSucc n =>
      rw [if_pos (iff_of_true hm (Int.negSucc_lt_zero n))]
      rfl

/-- **What the truncated quotient leaves is the truncated remainder.** -/
theorem remainder_eq_tmod (a b : Int) : remainder a b = a.tmod b := by
  rw [remainder, quotient_eq_tdiv, Int.tmod_def]

/-- **The quotient and the remainder truncate.** -/
theorem truncates (a : Int) {b : Int} (hb : b ≠ 0) :
    Truncates a b (quotient a b) (remainder a b) := by
  rw [quotient_eq_tdiv, remainder_eq_tmod]
  exact truncates_tdiv_tmod a hb

end Number

/-! ## The operators -/

/-- Division of integers, on its own or within an assignment. -/
theorem Value.apply_division {kind : Kind} (hk : kind = .divide ∨ kind = .assignDivide)
    (a b : Int) : Value.apply kind (.int a) (some (.int b)) =
      if b = 0 then .error .divisionByZero else .ok (.int (Number.quotient a b)) := by
  have hnumber : Value.apply kind (.int a) (some (.int b)) =
      if b == 0 then .error .divisionByZero else .ok (.int (Number.quotient a b)) := by
    obtain rfl | rfl := hk <;> rfl
  rw [hnumber]
  simp only [beq_iff_eq]

/-- The remainder of integers, on its own or within an assignment. -/
theorem Value.apply_remainder {kind : Kind} (hk : kind = .modulo ∨ kind = .assignModulo)
    (a b : Int) : Value.apply kind (.int a) (some (.int b)) =
      if b = 0 then .error .moduloByZero else .ok (.int (Number.remainder a b)) := by
  obtain rfl | rfl := hk <;> rfl

/-- **Integer division and remainder truncate.**  As an operator or within an assignment, both fail
for a zero divisor and for no other.  Otherwise they yield integers that make up the dividend, with
a remainder smaller than the divisor that is zero or of the sign of the dividend; the quotient is
the exact one rounded toward zero, and no other integers make up the dividend so. -/
theorem division_truncates (a b : Int) {division remainder : Kind}
    (hd : division = .divide ∨ division = .assignDivide)
    (hr : remainder = .modulo ∨ remainder = .assignModulo) :
    (Value.apply division (.int a) (some (.int b)) = .error .divisionByZero ↔ b = 0) ∧
    (Value.apply remainder (.int a) (some (.int b)) = .error .moduloByZero ↔ b = 0) ∧
    (b ≠ 0 → ∃ q r, Value.apply division (.int a) (some (.int b)) = .ok (.int q) ∧
      Value.apply remainder (.int a) (some (.int b)) = .ok (.int r) ∧
      Truncates a b q r ∧ q = towardZero (a / b) ∧
      ∀ q' r', Truncates a b q' r' → q' = q ∧ r' = r) := by
  rw [Value.apply_division hd, Value.apply_remainder hr]
  by_cases hb : b = 0
  · rw [if_pos hb, if_pos hb]
    exact ⟨iff_of_true rfl hb, iff_of_true rfl hb, (absurd hb ·)⟩
  · rw [if_neg hb, if_neg hb]
    have htruncates := Number.truncates a hb
    refine ⟨iff_of_false (by rintro ⟨⟩) hb, iff_of_false (by rintro ⟨⟩) hb, fun _ => ?_⟩
    exact ⟨_, _, rfl, rfl, htruncates, htruncates.quotient_eq, fun _ _ => htruncates.unique⟩

/-- A negative dividend, `-7 / 2` and `-7 % 2`, and a zero divisor. -/
theorem division_truncates_negative :
    Value.apply .divide (.int (-7)) (some (.int 2)) = .ok (.int (-3)) ∧
      Value.apply .assignModulo (.int (-7)) (some (.int 2)) = .ok (.int (-1)) ∧
      Truncates (-7) 2 (-3) (-1) ∧ towardZero ((-7 : Int) / (2 : Int)) = -3 ∧
      Value.apply .assignDivide (.int (-7)) (some (.int 0)) = .error .divisionByZero := by
  obtain ⟨-, -, hsome⟩ := division_truncates (-7) 2 (.inl rfl) (.inr rfl)
  obtain ⟨hzero, -⟩ := division_truncates (-7) 0 (.inr rfl) (.inl rfl)
  obtain ⟨q, r, hq, hr, htruncates, hround, -⟩ := hsome (by decide)
  obtain rfl : -3 = q := Value.int.inj (Except.ok.inj hq)
  obtain rfl : -1 = r := Value.int.inj (Except.ok.inj hr)
  exact ⟨hq, hr, htruncates, hround.symm, hzero.mpr rfl⟩

end Scrawl
