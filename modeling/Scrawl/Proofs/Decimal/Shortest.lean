import Scrawl.Decimal.Shortest
import Scrawl.Proofs.Double.Rounding

/-!
# Proofs/Decimal/Shortest — the digits that are written are read as the double

What `shortest` finds lies in the interval of the double (`shortest_readsAs`).  Every point that
`onGrid?` gives does, and with 17 digits the grid is so fine that one of the two neighbours of the
double has to.
-/

namespace Scrawl.Decimal

open Double

/-- The number that digits and an exponent stand for. -/
def Scientific.value (d : Scientific) : ℚ := d.digits * 10 ^ d.exponent

theorem tenPow_pos (n : ℕ) : 0 < tenPow n := Nat.pow_pos (by decide)

theorem cast_tenPow (n : ℕ) : ((tenPow n : ℕ) : ℚ) = 10 ^ n := Nat.cast_pow 10 n

theorem value_strip : ∀ (fuel : ℕ) (d : Scientific), (d.strip fuel).value = d.value
  | 0, _ => rfl
  | fuel + 1, d => by
      rw [Scientific.strip]
      split_ifs with h
      · obtain ⟨k, hk⟩ := Nat.dvd_of_mod_eq_zero h.2
        rw [value_strip, Scientific.value, Scientific.value, hk,
          Nat.mul_div_cancel_left k (by decide), zpow_add_one₀ (by norm_num)]
        push_cast
        ring
      · rfl

/-! ## Points of a grid -/

section Grid

variable {m : ℕ} {e place : ℤ}

/-- The test for a point of the grid, as `onGrid?` makes it. -/
def isInside (m : ℕ) (e place : ℤ) (n : ℕ) : Bool :=
  let (low, _, high) := quarters m e
  let fine := twoPow (e - 2).toNat * tenPow (-place).toNat
  let step := tenPow place.toNat * twoPow (2 - e).toNat
  if m % 2 = 0 then low * fine ≤ n * step && n * step ≤ high * fine
  else low * fine < n * step && n * step < high * fine

/-- The point of the grid at the double or below it. -/
def floorOn (m : ℕ) (e place : ℤ) : ℕ :=
  4 * m * (twoPow (e - 2).toNat * tenPow (-place).toNat) /
    (tenPow place.toNat * twoPow (2 - e).toNat)

theorem onGrid?_eq (m : ℕ) (e place : ℤ) : ∃ upper : Bool, onGrid? m e place =
    match isInside m e place (floorOn m e place), isInside m e place (floorOn m e place + 1) with
    | true, true =>
      some ⟨if upper then floorOn m e place + 1 else floorOn m e place, place⟩
    | true, false => some ⟨floorOn m e place, place⟩
    | false, true => some ⟨floorOn m e place + 1, place⟩
    | false, false => none :=
  ⟨_, rfl⟩

/-- A point that is given lies inside. -/
theorem isInside_of_onGrid? {d : Scientific} (h : onGrid? m e place = some d) :
    d.exponent = place ∧ isInside m e place d.digits := by
  obtain ⟨upper, heq⟩ := onGrid?_eq m e place
  rw [heq] at h
  split at h
  · rename_i h1 h2
    cases h
    cases upper
    · exact ⟨rfl, h1⟩
    · exact ⟨rfl, h2⟩
  · rename_i h1 _
    cases h
    exact ⟨rfl, h1⟩
  · rename_i _ h2
    cases h
    exact ⟨rfl, h2⟩
  · cases h

/-- A point is given if one of the two neighbours lies inside. -/
theorem exists_onGrid?_eq_some (h : isInside m e place (floorOn m e place) ∨
    isInside m e place (floorOn m e place + 1)) : ∃ d, onGrid? m e place = some d := by
  obtain ⟨upper, heq⟩ := onGrid?_eq m e place
  rw [heq]
  split
  · exact ⟨_, rfl⟩
  · exact ⟨_, rfl⟩
  · exact ⟨_, rfl⟩
  · rename_i h1 h2
    rw [h1, h2] at h
    simp at h

/-- The grid against quarters of the last place. -/
theorem step_div_fine (e place : ℤ) :
    ((tenPow place.toNat * twoPow (2 - e).toNat : ℕ) : ℚ) /
      (twoPow (e - 2).toNat * tenPow (-place).toNat : ℕ) = 4 * (10 ^ place / 2 ^ e) := by
  have htwo : (2 : ℚ) ^ (2 - e).toNat / 2 ^ (e - 2).toNat = 4 / 2 ^ e := by
    rw [← neg_sub 2 e, ← zpow_eq_div two_ne_zero, zpow_sub₀ two_ne_zero]
    norm_num
  push_cast
  rw [cast_tenPow, cast_tenPow, cast_twoPow, cast_twoPow, zpow_eq_div (by norm_num : (10 : ℚ) ≠ 0)]
  calc (10 : ℚ) ^ place.toNat * 2 ^ (2 - e).toNat / (2 ^ (e - 2).toNat * 10 ^ (-place).toNat)
      = 10 ^ place.toNat / 10 ^ (-place).toNat * (2 ^ (2 - e).toNat / 2 ^ (e - 2).toNat) := by
        field_simp
    _ = 4 * (10 ^ place.toNat / 10 ^ (-place).toNat / 2 ^ e) := by
        rw [htwo]
        ring

variable {a n : ℕ}

theorem mul_step (e place : ℤ) (n : ℕ) :
    ((n * (tenPow place.toNat * twoPow (2 - e).toNat) : ℕ) : ℚ) =
      4 * (n * 10 ^ place / 2 ^ e) * (twoPow (e - 2).toNat * tenPow (-place).toNat : ℕ) := by
  have hfine : ((twoPow (e - 2).toNat * tenPow (-place).toNat : ℕ) : ℚ) ≠ 0 :=
    Nat.cast_ne_zero.mpr (Nat.mul_pos (twoPow_pos _) (tenPow_pos _)).ne'
  have h := (div_eq_iff hfine).mp (step_div_fine e place)
  rw [Nat.cast_mul, h]
  ring

theorem le_step_iff : a * (twoPow (e - 2).toNat * tenPow (-place).toNat) ≤
    n * (tenPow place.toNat * twoPow (2 - e).toNat) ↔ (a : ℚ) ≤ 4 * (n * 10 ^ place / 2 ^ e) := by
  have hfine : (0 : ℚ) < (twoPow (e - 2).toNat * tenPow (-place).toNat : ℕ) :=
    Nat.cast_pos.mpr (Nat.mul_pos (twoPow_pos _) (tenPow_pos _))
  rw [← Nat.cast_le (α := ℚ), mul_step, Nat.cast_mul a, mul_le_mul_iff_left₀ hfine]

theorem step_le_iff : n * (tenPow place.toNat * twoPow (2 - e).toNat) ≤
      a * (twoPow (e - 2).toNat * tenPow (-place).toNat) ↔
    4 * (n * 10 ^ place / 2 ^ e) ≤ (a : ℚ) := by
  have hfine : (0 : ℚ) < (twoPow (e - 2).toNat * tenPow (-place).toNat : ℕ) :=
    Nat.cast_pos.mpr (Nat.mul_pos (twoPow_pos _) (tenPow_pos _))
  rw [← Nat.cast_le (α := ℚ), mul_step, Nat.cast_mul a, mul_le_mul_iff_left₀ hfine]

theorem quarters_eq (m : ℕ) (e : ℤ) : quarters m e =
    (4 * m - (if m = twoPow 52 ∧ leastExponent < e then 1 else 2), 4 * m, 4 * m + 2) := rfl

/-- **A point lies inside exactly if it is read as the double.** -/
theorem isInside_iff (hm : 0 < m) : isInside m e place n ↔ ReadsAs (n * 10 ^ place) m e := by
  have hlow {gap : ℕ} (hgap : gap ≤ 2) : ((4 * m - gap : ℕ) : ℚ) = 4 * m - gap := by
    rw [Nat.cast_sub (by omega)]
    push_cast
    rfl
  rw [isInside, quarters_eq]
  dsimp only
  by_cases heven : m % 2 = 0
  · rw [if_pos heven, Bool.and_eq_true, decide_eq_true_iff, decide_eq_true_iff, le_step_iff,
      step_le_iff, hlow (by split <;> omega)]
    push_cast
    split_ifs with hgap
    · refine ⟨fun ⟨h1, h2⟩ => ⟨⟨?_, ?_, fun hodd => by omega⟩, fun _ _ => ?_⟩, fun h => ⟨?_, ?_⟩⟩
      · linarith
      · linarith
      · linarith
      · linarith [h.below hgap.1 hgap.2]
      · linarith [h.high]
    · refine ⟨fun ⟨h1, h2⟩ => ⟨⟨?_, ?_, fun hodd => by omega⟩, fun h h' => absurd ⟨h, h'⟩ hgap⟩,
        fun h => ⟨?_, ?_⟩⟩
      · linarith
      · linarith
      · linarith [h.low]
      · linarith [h.high]
  · have hgap : ¬ (m = twoPow 52 ∧ leastExponent < e) := fun h => heven (h.1 ▸ rfl)
    rw [if_neg heven, if_neg hgap, Bool.and_eq_true, decide_eq_true_iff, decide_eq_true_iff,
      ← Nat.not_le, ← Nat.not_le, step_le_iff, le_step_iff, hlow le_rfl, not_le, not_le]
    push_cast
    refine ⟨fun ⟨h1, h2⟩ => ⟨⟨?_, ?_, fun _ => ⟨?_, ?_⟩⟩, fun h h' => absurd ⟨h, h'⟩ hgap⟩,
      fun h => ?_⟩
    · linarith
    · linarith
    · linarith
    · linarith
    · obtain ⟨h1, h2⟩ := h.odd (by omega)
      constructor <;> linarith

/-- The double lies between two neighbours on the grid. -/
theorem floorOn_spec (m : ℕ) (e place : ℤ) :
    (floorOn m e place * 10 ^ place / 2 ^ e : ℚ) ≤ m ∧
      (m : ℚ) < (floorOn m e place + 1 : ℕ) * 10 ^ place / 2 ^ e := by
  have hstep : 0 < tenPow place.toNat * twoPow (2 - e).toNat :=
    Nat.mul_pos (tenPow_pos _) (twoPow_pos _)
  have h1 := step_le_iff.mp (Nat.div_mul_le_self
    (4 * m * (twoPow (e - 2).toNat * tenPow (-place).toNat))
    (tenPow place.toNat * twoPow (2 - e).toNat))
  have h2 := step_le_iff.not.mp (Nat.not_le.mpr (Nat.lt_mul_of_div_lt (Nat.lt_succ_self
    (4 * m * (twoPow (e - 2).toNat * tenPow (-place).toNat) /
      (tenPow place.toNat * twoPow (2 - e).toNat))) hstep))
  rw [floorOn]
  rw [Nat.cast_mul, Nat.cast_ofNat] at h1 h2
  constructor <;> linarith

/-- **A grid with 17 digits is fine enough**: one of the neighbours of the double is read as it. -/
theorem exists_inside (hc : Canonical m e) (hplace : (10 : ℚ) ^ place ≤ m * 2 ^ e / 10 ^ 16) :
    isInside m e place (floorOn m e place) ∨ isInside m e place (floorOn m e place + 1) := by
  obtain ⟨hfloor, hceil⟩ := floorOn_spec m e place
  have hunit : (0 : ℚ) < 2 ^ e := by positivity
  have hgrid : (10 : ℚ) ^ place / 2 ^ e ≤ m / 10 ^ 16 := by
    rw [div_le_iff₀ hunit]
    linarith
  have hnext : ((floorOn m e place + 1 : ℕ) * 10 ^ place / 2 ^ e : ℚ) =
      floorOn m e place * 10 ^ place / 2 ^ e + 10 ^ place / 2 ^ e := by
    push_cast
    ring
  have hm : (m : ℚ) ≤ 9007199254740991 := by exact_mod_cast Nat.le_of_lt_succ hc.lt
  rw [isInside_iff hc.pos, isInside_iff hc.pos]
  rw [hnext] at hceil
  norm_num only at hgrid
  generalize hu : (floorOn m e place * 10 ^ place / 2 ^ e : ℚ) = u at hfloor hceil hnext
  generalize (10 : ℚ) ^ place / 2 ^ e = t at hgrid hceil hnext
  -- If the lower neighbour is too far below the double, the upper one is near enough.
  by_cases hgap : m = twoPow 52 ∧ leastExponent < e
  · have hm52 : (m : ℚ) = 4503599627370496 := by exact_mod_cast hgap.1
    have heven : ¬ m % 2 = 1 := by
      rw [hgap.1]
      decide
    by_cases hnear : (m : ℚ) - 1 / 4 ≤ u
    · refine .inl ⟨⟨?_, ?_, fun h => absurd h heven⟩, fun _ _ => ?_⟩ <;> rw [hu] <;> linarith
    · refine .inr ⟨⟨?_, ?_, fun h => absurd h heven⟩, fun _ _ => ?_⟩ <;> rw [hnext] <;> linarith
  · by_cases hnear : (m : ℚ) - 1 / 2 < u
    · refine .inl ⟨⟨?_, ?_, fun _ => ⟨?_, ?_⟩⟩, fun h h' => absurd ⟨h, h'⟩ hgap⟩ <;> rw [hu] <;>
        linarith
    · refine .inr ⟨⟨?_, ?_, fun _ => ⟨?_, ?_⟩⟩, fun h h' => absurd ⟨h, h'⟩ hgap⟩ <;> rw [hnext] <;>
        linarith

end Grid

/-! ## The number of digits before the point -/

/-- Powers of two bases, compared by a comparison of two of them. -/
theorem zpow_le_zpow_of_pow_le {a b : ℚ} (ha : 0 < a) (hb : 1 ≤ b) {p q : ℕ} (hp : p ≠ 0)
    (h : a ^ p ≤ b ^ q) {t k : ℤ} (ht : 0 ≤ t) (htk : q * t ≤ p * k) : a ^ t ≤ b ^ k := by
  have hpos : 0 < b := one_pos.trans_le hb
  rw [← pow_le_pow_iff_left₀ (by positivity) (by positivity) hp]
  calc (a ^ t) ^ p = (a ^ p) ^ t := by rw [← zpow_natCast, ← zpow_natCast, zpow_comm]
    _ ≤ (b ^ q) ^ t := zpow_le_zpow_left₀ ht (by positivity) h
    _ = b ^ (q * t : ℤ) := by rw [← zpow_natCast, zpow_mul]
    _ ≤ b ^ (p * k : ℤ) := zpow_le_zpow_right₀ hb htk
    _ = (b ^ k) ^ p := by rw [mul_comm, zpow_mul, zpow_natCast]

/-- The decimal exponent that is taken from a binary one is at most one too large. -/
theorem ten_zpow_le_two_zpow {k : ℤ} (hlow : -2000 ≤ k) (hhigh : k ≤ 2000) :
    (10 : ℚ) ^ ((k * 30103).fdiv 100000 - 1) ≤ 2 ^ k := by
  have hfdiv : 100000 * (k * 30103).fdiv 100000 ≤ k * 30103 := by
    rw [Int.fdiv_eq_ediv_of_nonneg _ (by decide)]
    exact Int.mul_ediv_self_le (by decide)
  generalize ht : (k * 30103).fdiv 100000 - 1 = t
  rcases le_or_gt 0 t with hpos | hneg
  · exact zpow_le_zpow_of_pow_le (p := 59) (q := 196) (by norm_num) (by norm_num) (by decide)
      (by norm_num) hpos (by omega)
  rcases le_or_gt 0 k with hk | hk
  · exact (zpow_le_one_of_nonpos₀ (by norm_num) hneg.le).trans (one_le_zpow₀ (by norm_num) hk)
  · have h : (2 : ℚ) ^ (-k) ≤ 10 ^ (-t) :=
      zpow_le_zpow_of_pow_le (p := 93) (q := 28) (by norm_num) (by norm_num) (by decide)
        (by norm_num) (by omega) (by omega)
    rwa [zpow_neg, zpow_neg, inv_le_inv₀ (by positivity) (by positivity)] at h

section Width

variable {num den : ℕ}

theorem below_iff (hden : 0 < den) (k : ℤ) :
    num * tenPow (-k).toNat < den * tenPow k.toNat ↔ (num / den : ℚ) < 10 ^ k := by
  have hd : (0 : ℚ) < den := Nat.cast_pos.mpr hden
  have hten : (0 : ℚ) < 10 ^ (-k).toNat := by positivity
  rw [← Nat.cast_lt (α := ℚ), Nat.cast_mul, Nat.cast_mul, cast_tenPow, cast_tenPow,
    zpow_eq_div (by norm_num), div_lt_div_iff₀ hd hten, mul_comm (den : ℚ)]

/-- **The width of a quotient is at most its number of digits before the point.** -/
theorem ten_zpow_decimalWidth_le (hnum : 0 < num) (hden : 0 < den)
    (hlow : -1999 ≤ Int.log 2 (num / den : ℚ)) (hhigh : Int.log 2 (num / den : ℚ) ≤ 2000) :
    (10 : ℚ) ^ (decimalWidth num den - 1) ≤ num / den := by
  have hq : (0 : ℚ) < num / den := div_pos (Nat.cast_pos.mpr hnum) (Nat.cast_pos.mpr hden)
  have hstart : (10 : ℚ) ^ ((((num.log2 : ℤ) - den.log2 - 1) * 30103).fdiv 100000 - 1) ≤
      num / den := by
    have hlog := log_eq_or hnum hden
    refine (ten_zpow_le_two_zpow (by omega) (by omega)).trans ?_
    have h := (Int.zpow_le_iff_le_log (b := 2) (by decide) hq).mpr
      (show (num.log2 : ℤ) - den.log2 - 1 ≤ _ by omega)
    exact_mod_cast h
  have hnot {k width : ℤ} (hk : width - 1 = k)
      (h : decide (num * tenPow (-k).toNat < den * tenPow k.toNat) = false) :
      (10 : ℚ) ^ (width - 1) ≤ num / den :=
    hk ▸ not_lt.mp ((below_iff hden k).not.mp (of_decide_eq_false h))
  rw [decimalWidth]
  generalize (((num.log2 : ℤ) - den.log2 - 1) * 30103).fdiv 100000 = start at hstart ⊢
  -- The width is the first candidate above the quotient, so the one before is not above it.
  simp only [List.find?_cons, List.find?_nil]
  split
  · exact hstart
  split
  · exact hnot (add_sub_cancel_right start 1) ‹_›
  split
  · refine hnot (k := start + 1) ?_ ‹_›
    rw [Option.getD_some]
    ring
  · refine hnot (k := start + 2) ?_ ‹_›
    rw [Option.getD_none]
    ring

end Width

/-! ## The shortest decimal -/

variable {m : ℕ} {e : ℤ}

/-- The numbers between the least and the greatest double. -/
theorem log_bounds (hc : Canonical m e) :
    -1074 ≤ Int.log 2 (m * 2 ^ e : ℚ) ∧ Int.log 2 (m * 2 ^ e : ℚ) ≤ 1024 := by
  have hm : (0 : ℚ) < m := Nat.cast_pos.mpr hc.pos
  have hq : (0 : ℚ) < m * 2 ^ e := by positivity
  have hone : (1 : ℚ) ≤ m := Nat.one_le_cast.mpr hc.pos
  have hlt : (m : ℚ) < 2 ^ (53 : ℤ) := by exact_mod_cast hc.lt
  have hunit : (0 : ℚ) < 2 ^ e := by positivity
  have hlow := (Int.zpow_le_iff_le_log (b := 2) (x := e) (by decide) hq).mp (by
    rw [Nat.cast_two]
    nlinarith)
  have hhigh := (Int.lt_zpow_iff_log_lt (b := 2) (x := 53 + e) (by decide) hq).mp (by
    rw [Nat.cast_two, zpow_add₀ two_ne_zero]
    exact mul_lt_mul_of_pos_right hlt hunit)
  have h1 := hc.least
  have h2 := hc.greatest
  rw [leastExponent] at h1
  omega

/-- **What is written is read as the double.** -/
theorem shortest_readsAs (hc : Canonical m e) : ReadsAs (shortest m e).value m e := by
  have hvalue : ((m * twoPow e.toNat : ℕ) : ℚ) / (twoPow (-e).toNat : ℕ) = m * 2 ^ e := by
    rw [Nat.cast_mul, cast_twoPow, cast_twoPow, zpow_eq_div two_ne_zero, mul_div_assoc]
  have hwidth := ten_zpow_decimalWidth_le (Nat.mul_pos hc.pos (twoPow_pos e.toNat))
    (twoPow_pos (-e).toNat)
  rw [hvalue] at hwidth
  obtain ⟨hlow, hhigh⟩ := log_bounds hc
  have hten := hwidth (by omega) (by omega)
  rw [shortest]
  generalize decimalWidth (m * twoPow e.toNat) (twoPow (-e).toNat) = width at hten
  have hplace : (10 : ℚ) ^ (width - (16 + 1 : ℕ)) ≤ m * 2 ^ e / 10 ^ 16 := by
    have hexponent : width - (16 + 1 : ℕ) + (16 : ℕ) = width - 1 := by omega
    rwa [le_div_iff₀ (by norm_num), ← zpow_natCast, ← zpow_add₀ (by norm_num), hexponent]
  cases hfound : (List.range 17).findSome? fun n : ℕ => onGrid? m e (width - (n + 1 : ℕ)) with
  | none =>
    obtain ⟨d, hd⟩ := exists_onGrid?_eq_some (exists_inside hc hplace)
    have hnone := List.findSome?_eq_none_iff.mp hfound 16 (by decide)
    rw [hd] at hnone
    cases hnone
  | some d =>
    obtain ⟨n, -, hn⟩ := List.exists_of_findSome?_eq_some hfound
    obtain ⟨hexponent, hinside⟩ := isInside_of_onGrid? hn
    rw [Option.getD_some, value_strip, Scientific.value, hexponent]
    exact (isInside_iff hc.pos).mp hinside

end Scrawl.Decimal
