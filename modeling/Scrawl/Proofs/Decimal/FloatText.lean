import Scrawl.Decimal.FloatText
import Scrawl.Proofs.Decimal.Digits
import Scrawl.Proofs.Decimal.Shortest
import Scrawl.Proofs.Double.Parts
import Scrawl.Proofs.Outcome

/-!
# Proofs/Decimal/FloatText — the text of a double is read as the double

The text of a decimal has digits before the point, digits behind it and an exponent, of which the
last two may be missing (`DecimalText`).  `Scientific.write` gives such a text, and `readDecimal?`
reads the number off it, though not always with the same digits.  The bits depend on the number
only (`Scientific.toBits_of_readsAs`), so the text of a double stands for it
(`exists_text_of_finite`).
-/

namespace Scrawl.Decimal

open Text Double

/-! ## The parts of a text -/

/-- **The text of a decimal in its parts.** -/
structure DecimalText where
  whole : List Char
  fraction : List Char
  /-- Whether the exponent is negative, and its digits. -/
  exponent : Option (Bool × List Char)

namespace DecimalText

/-- The fraction with its point. -/
def fractionText (t : DecimalText) : List Char :=
  if t.fraction = [] then [] else '.' :: t.fraction

/-- The exponent with its mark and its sign. -/
def exponentText (t : DecimalText) : List Char :=
  match t.exponent with
  | none => []
  | some (negative, digits) => 'e' :: (if negative then '-' else '+') :: digits

/-- The whole text. -/
def text (t : DecimalText) : List Char := t.whole ++ (t.fractionText ++ t.exponentText)

/-- The number in the exponent. -/
def power (t : DecimalText) : ℤ :=
  match t.exponent with
  | none => 0
  | some (negative, digits) => signed negative (digitsValue digits)

/-- What the text stands for. -/
def scientific (t : DecimalText) : Scientific :=
  ⟨digitsValue (t.whole ++ t.fraction), t.power - t.fraction.length⟩

/-- **A text that no number is written in another way than this**: a leading zero stands alone, and
something tells it from an integer. -/
structure Proper (t : DecimalText) : Prop where
  whole_ne_nil : t.whole ≠ []
  whole : ∀ c ∈ t.whole, c.isDigit
  fraction : ∀ c ∈ t.fraction, c.isDigit
  exponent : ∀ x ∈ t.exponent, x.2 ≠ [] ∧ ∀ c ∈ x.2, c.isDigit
  leading : t.whole = ['0'] ∨ t.whole.head? ≠ some '0'
  marked : t.fraction ≠ [] ∨ t.exponent ≠ none

variable {t : DecimalText}

theorem Proper.decimal_whole (h : t.Proper) : ∀ c ∈ t.whole, isDecimal c :=
  fun c hc => isDecimal_of_isDigit (h.whole c hc)

theorem Proper.decimal_fraction (h : t.Proper) : ∀ c ∈ t.fraction, isDecimal c :=
  fun c hc => isDecimal_of_isDigit (h.fraction c hc)

/-! ## Reading a text -/

theorem exponentText_stop : ∀ c ∈ t.exponentText.head?, ¬ isDecimal c := by
  rw [exponentText]
  split
  · nofun
  · rintro c ⟨⟩
    decide

theorem fractionText_stop : ∀ c ∈ (t.fractionText ++ t.exponentText).head?, ¬ isDecimal c := by
  rw [fractionText]
  split_ifs
  · exact exponentText_stop
  · rintro c ⟨⟩
    decide

theorem Proper.readExponent?_exponentText (h : t.Proper) :
    readExponent? t.exponentText = some t.power := by
  rw [exponentText, power]
  split
  · rfl
  · rename_i negative digits heq
    obtain ⟨hne, hdigits⟩ := h.exponent _ heq
    have hall : digits.all isDecimal := List.all_eq_true.mpr fun c hc =>
      isDecimal_of_isDigit (hdigits c hc)
    have hsign : splitSign ((if negative then '-' else '+') :: digits) = (negative, digits) := by
      cases negative <;> rfl
    rw [readExponent?, if_pos (.inl rfl), hsign]
    dsimp only
    rw [hall, Bool.and_true, if_pos (decide_eq_true hne)]

/-- **A text is read as what it stands for.** -/
theorem Proper.readDecimal?_text (h : t.Proper) : readDecimal? t.text = some t.scientific := by
  have hexponent := h.readExponent?_exponentText
  rw [readDecimal?, text, takeWhile_append_stop h.decimal_whole fractionText_stop,
    dropWhile_append_stop h.decimal_whole fractionText_stop, scientific]
  by_cases hnil : t.fraction = []
  · -- Without a fraction what follows is the exponent, which starts with no point.
    rw [fractionText, if_pos hnil, List.nil_append, hnil]
    generalize hrest : t.exponentText = rest at hexponent
    have hpoint : ∀ more, rest ≠ '.' :: more := by
      rintro more rfl
      rw [exponentText] at hrest
      split at hrest <;> cases hrest
    split
    · exact absurd rfl (hpoint _)
    · rw [if_neg fun hnil => h.whole_ne_nil hnil.1, hexponent, Option.map_some]
  · rw [fractionText, if_neg hnil, List.cons_append]
    split
    · rename_i more hmore
      obtain rfl := (List.cons.inj hmore).2
      rw [takeWhile_append_stop h.decimal_fraction exponentText_stop,
        dropWhile_append_stop h.decimal_fraction exponentText_stop,
        if_neg fun hnil => h.whole_ne_nil hnil.1, hexponent, Option.map_some]
    · rename_i hpoint
      exact absurd rfl (hpoint _)

end DecimalText

/-! ## Writing a number -/

section Writing

variable {n : ℕ} {point : ℤ}

/-- **A text for digits and an exponent**: it is proper and stands for their number. -/
structure DecimalText.Writes (t : DecimalText) (n : ℕ) (exponent : ℤ) : Prop where
  proper : t.Proper
  value : t.scientific.value = n * 10 ^ exponent

/-- All digits behind the point. -/
theorem writes_small (n : ℕ) (hpoint : point ≤ 0) :
    DecimalText.Writes ⟨['0'], List.replicate (-point).toNat '0' ++ Nat.toDigits 10 n, none⟩ n
      (point - (Nat.toDigits 10 n).length) := by
  refine ⟨⟨by simp, by simp, fun c hc => ?_, nofun, .inl rfl, .inl ?_⟩, ?_⟩
  · rcases List.mem_append.mp hc with hc | hc
    · exact (List.eq_of_mem_replicate hc) ▸ rfl
    · exact isDigit_of_mem_toDigits hc
  · exact List.append_ne_nil_of_right_ne_nil _ Nat.toDigits_ne_nil
  · have hexponent : (0 : ℤ) - (List.replicate (-point).toNat '0' ++ Nat.toDigits 10 n).length =
        point - (Nat.toDigits 10 n).length := by
      rw [List.length_append, List.length_replicate]
      omega
    rw [DecimalText.scientific, DecimalText.power, Scientific.value, hexponent,
      List.singleton_append, digitsValue_cons_zero, digitsValue_zeros_append, digitsValue_toDigits]

/-- The point among the digits. -/
theorem writes_middle (hn : 0 < n) (hpos : 0 < point)
    (hlt : point < (Nat.toDigits 10 n).length) :
    DecimalText.Writes ⟨(Nat.toDigits 10 n).take point.toNat, (Nat.toDigits 10 n).drop point.toNat,
      none⟩ n (point - (Nat.toDigits 10 n).length) := by
  obtain ⟨k, hk⟩ : ∃ k, point.toNat = k + 1 := ⟨point.toNat - 1, by omega⟩
  refine ⟨⟨?_, fun c hc => ?_, fun c hc => ?_, nofun, .inr ?_, .inl ?_⟩, ?_⟩
  · rw [hk]
    simp [Nat.toDigits_ne_nil]
  · exact isDigit_of_mem_toDigits (List.mem_of_mem_take hc)
  · exact isDigit_of_mem_toDigits (List.mem_of_mem_drop hc)
  · rw [hk, List.head?_take, if_neg (Nat.succ_ne_zero k)]
    exact head?_toDigits_ne hn
  · exact List.drop_eq_nil_iff.not.mpr (by omega)
  · have hexponent : (0 : ℤ) - ((Nat.toDigits 10 n).drop point.toNat).length =
        point - (Nat.toDigits 10 n).length := by
      rw [List.length_drop]
      omega
    rw [DecimalText.scientific, DecimalText.power, Scientific.value, hexponent,
      List.take_append_drop, digitsValue_toDigits]

/-- All digits before the point. -/
theorem writes_large (hn : 0 < n) (hle : ((Nat.toDigits 10 n).length : ℤ) ≤ point) :
    DecimalText.Writes ⟨Nat.toDigits 10 n ++
      List.replicate (point - (Nat.toDigits 10 n).length).toNat '0', ['0'], none⟩ n
      (point - (Nat.toDigits 10 n).length) := by
  refine ⟨⟨?_, fun c hc => ?_, by simp, nofun, .inr ?_, .inl (by simp)⟩, ?_⟩
  · exact List.append_ne_nil_of_left_ne_nil Nat.toDigits_ne_nil _
  · rcases List.mem_append.mp hc with hc | hc
    · exact isDigit_of_mem_toDigits hc
    · exact (List.eq_of_mem_replicate hc) ▸ rfl
  · rw [List.head?_append, Option.or_of_isSome (List.isSome_head?.mpr Nat.toDigits_ne_nil)]
    exact head?_toDigits_ne hn
  · obtain ⟨k, hk⟩ := Int.eq_ofNat_of_zero_le (Int.sub_nonneg.mpr hle)
    rw [DecimalText.scientific, DecimalText.power, Scientific.value, hk, Int.toNat_natCast,
      show (['0'] : List Char) = List.replicate 1 '0' from rfl, digitsValue_append_zeros,
      digitsValue_append_zeros, digitsValue_toDigits, List.length_replicate]
    have hlast : (10 : ℚ) ^ (0 - ((1 : ℕ) : ℤ)) = 1 / 10 := by norm_num
    rw [hlast, zpow_natCast]
    push_cast
    ring

/-- The point behind the first digit, and an exponent. -/
theorem writes_exponent (hn : 0 < n) (power : ℤ) :
    DecimalText.Writes ⟨(Nat.toDigits 10 n).take 1, (Nat.toDigits 10 n).drop 1,
      some (power < 0, List.replicate (2 - (Nat.toDigits 10 power.natAbs).length) '0' ++
        Nat.toDigits 10 power.natAbs)⟩ n (power + 1 - (Nat.toDigits 10 n).length) := by
  have hlength : 0 < (Nat.toDigits 10 n).length := Nat.length_toDigits_pos
  refine ⟨⟨?_, fun c hc => ?_, fun c hc => ?_, ?_, .inr ?_, .inr (by simp)⟩, ?_⟩
  · simp [Nat.toDigits_ne_nil]
  · exact isDigit_of_mem_toDigits (List.mem_of_mem_take hc)
  · exact isDigit_of_mem_toDigits (List.mem_of_mem_drop hc)
  · rintro x ⟨⟩
    refine ⟨List.append_ne_nil_of_right_ne_nil _ Nat.toDigits_ne_nil, fun c hc => ?_⟩
    rcases List.mem_append.mp hc with hc | hc
    · exact (List.eq_of_mem_replicate hc) ▸ rfl
    · exact isDigit_of_mem_toDigits hc
  · rw [List.head?_take, if_neg Nat.one_ne_zero]
    exact head?_toDigits_ne hn
  · have hexponent : power - ((Nat.toDigits 10 n).drop 1).length =
        power + 1 - (Nat.toDigits 10 n).length := by
      rw [List.length_drop]
      omega
    rw [DecimalText.scientific, DecimalText.power, Scientific.value, List.take_append_drop,
      digitsValue_toDigits]
    dsimp only
    rw [digitsValue_zeros_append, digitsValue_toDigits, signed_natAbs, hexponent]

/-- **A number is written as a proper text for it.** -/
theorem exists_text (d : Scientific) (hd : 0 < d.digits) : ∃ t : DecimalText,
    d.write = t.text ∧ t.Writes d.digits d.exponent := by
  have hexponent : d.exponent + (Nat.toDigits 10 d.digits).length -
      (Nat.toDigits 10 d.digits).length = d.exponent := add_sub_cancel_right _ _
  have hpower : d.exponent + (Nat.toDigits 10 d.digits).length - 1 + 1 -
      (Nat.toDigits 10 d.digits).length = d.exponent := by omega
  rw [Scientific.write]
  split_ifs with hpositional
  · rw [writePositional]
    split_ifs with hsmall hmiddle
    · refine ⟨_, ?_, hexponent ▸ writes_small d.digits hsmall⟩
      simp [DecimalText.text, DecimalText.fractionText, DecimalText.exponentText,
        Nat.toDigits_ne_nil]
    · have h := hexponent ▸ writes_middle hd (not_le.mp hsmall) hmiddle
      refine ⟨_, ?_, h⟩
      have hne := h.proper.marked.resolve_right (fun h => h rfl)
      simp only [DecimalText.text, DecimalText.fractionText, DecimalText.exponentText, if_neg hne,
        List.append_nil]
    · refine ⟨_, ?_, hexponent ▸ writes_large hd (not_lt.mp hmiddle)⟩
      simp [DecimalText.text, DecimalText.fractionText, DecimalText.exponentText]
  · refine ⟨_, ?_, hpower ▸ writes_exponent hd _⟩
    simp only [writeExponent, DecimalText.text, DecimalText.fractionText, DecimalText.exponentText,
      List.drop_eq_nil_iff, decide_eq_true_eq, List.append_assoc]

end Writing

/-! ## The bits of a number -/

variable {m : ℕ} {e : ℤ}

theorem Scientific.digits_pos_of_readsAs {d : Scientific} (hc : Canonical m e)
    (h : ReadsAs d.value m e) : 0 < d.digits := by
  by_contra hzero
  have hvalue : d.value = 0 := by
    rw [Scientific.value, Nat.eq_zero_of_not_pos hzero, Nat.cast_zero, zero_mul]
  have hlow := h.low
  have hm : (1 : ℚ) ≤ m := Nat.one_le_cast.mpr hc.pos
  rw [hvalue, zero_div] at hlow
  linarith

/-- The power of ten of the first digit of a number. -/
theorem Scientific.value_bounds {d : Scientific} (hd : 0 < d.digits) :
    (10 : ℚ) ^ (d.exponent + (Nat.toDigits 10 d.digits).length - 1) ≤ d.value ∧
      d.value < 10 ^ (d.exponent + (Nat.toDigits 10 d.digits).length) := by
  obtain ⟨k, hk⟩ := Nat.exists_eq_succ_of_ne_zero (Nat.length_toDigits_pos (b := 10)
    (n := d.digits)).ne'
  have hhigh : (d.digits : ℚ) < 10 ^ (k + 1) := by
    exact_mod_cast (Nat.length_toDigits_le_iff (by decide) k.succ_pos).mp hk.le
  have hlow : (10 : ℚ) ^ k ≤ d.digits := by
    rcases Nat.eq_zero_or_pos k with rfl | hpos
    · exact_mod_cast hd
    · have hlonger : ¬ (Nat.toDigits 10 d.digits).length ≤ k := by omega
      exact_mod_cast Nat.not_lt.mp ((Nat.length_toDigits_le_iff (by decide) hpos).not.mp hlonger)
  have hunit : (0 : ℚ) < 10 ^ d.exponent := by positivity
  rw [hk, Scientific.value, Nat.cast_succ, ← add_assoc, add_sub_cancel_right, add_assoc,
    zpow_add₀ (by norm_num), zpow_add₀ (by norm_num), mul_comm (d.digits : ℚ)]
  constructor
  · exact mul_le_mul_of_nonneg_left (by exact_mod_cast hlow) hunit.le
  · exact mul_lt_mul_of_pos_left (by exact_mod_cast hhigh) hunit

/-- Numbers that are read as a double lie between the two far powers of ten. -/
theorem Scientific.power_bounds {d : Scientific} (hc : Canonical m e) (h : ReadsAs d.value m e) :
    -farPower ≤ d.exponent + (Nat.toDigits 10 d.digits).length ∧
      d.exponent + (Nat.toDigits 10 d.digits).length ≤ farPower := by
  obtain ⟨hlow, hhigh⟩ := value_bounds (digits_pos_of_readsAs hc h)
  generalize d.exponent + ((Nat.toDigits 10 d.digits).length : ℤ) = power at hlow hhigh
  have hunit : (0 : ℚ) < 2 ^ e := by positivity
  have hfirst : (2 : ℚ) ^ (-1075 : ℤ) ≤ d.value := by
    have hone : (1 : ℚ) ≤ m := Nat.one_le_cast.mpr hc.pos
    calc (2 : ℚ) ^ (-1075 : ℤ) ≤ 2 ^ (e - 1) :=
          zpow_le_zpow_right₀ (by norm_num) (Int.sub_le_sub_right hc.least 1)
      _ = (1 - 1 / 2) * 2 ^ e := by
          rw [zpow_sub_one₀ two_ne_zero]
          ring
      _ ≤ (m - 1 / 2) * 2 ^ e := by gcongr
      _ ≤ d.value := (le_div_iff₀ hunit).mp h.low
  have hlast : d.value ≤ 2 ^ (1024 : ℤ) := by
    have hm : (m : ℚ) + 1 ≤ 2 ^ 53 := by exact_mod_cast hc.lt
    calc d.value ≤ (m + 1 / 2) * 2 ^ e := (div_le_iff₀ hunit).mp h.high
      _ ≤ 2 ^ 53 * 2 ^ e := by
          gcongr
          linarith
      _ = 2 ^ ((53 : ℕ) + e) := by rw [zpow_add₀ two_ne_zero, zpow_natCast]
      _ ≤ 2 ^ (1024 : ℤ) :=
          zpow_le_zpow_right₀ (by norm_num) (Int.add_le_add_left hc.greatest 53)
  have hfar : (2 : ℚ) ^ (1075 : ℤ) ≤ 10 ^ (400 : ℤ) :=
    zpow_le_zpow_of_pow_le (p := 3) (q := 1) (by norm_num) (by norm_num) (by decide) (by norm_num)
      (by decide) (by decide)
  have htwo : (2 : ℚ) ^ (1024 : ℤ) < 2 ^ (1075 : ℤ) := zpow_lt_zpow_right₀ (by norm_num) (by decide)
  rw [farPower]
  constructor
  · by_contra hlt
    have hten : (10 : ℚ) ^ power ≤ 10 ^ (-400 : ℤ) := zpow_le_zpow_right₀ (by norm_num) (by omega)
    have hinv : (10 : ℚ) ^ (-400 : ℤ) ≤ 2 ^ (-1075 : ℤ) := by
      rw [zpow_neg, zpow_neg]
      exact inv_anti₀ (by positivity) hfar
    exact absurd (hfirst.trans_lt hhigh) (not_lt.mpr (hten.trans hinv))
  · by_contra hlt
    have hten : (10 : ℚ) ^ (400 : ℤ) ≤ 10 ^ (power - 1) :=
      zpow_le_zpow_right₀ (by norm_num) (by omega)
    exact absurd (hten.trans (hlow.trans hlast)) (not_le.mpr (htwo.trans_le hfar))

/-- **The bits of a number in the interval of a double are those of the double.** -/
theorem Scientific.toBits_of_readsAs {d : Scientific} (hc : Canonical m e)
    (h : ReadsAs d.value m e) : d.toBits = bitsOf m e := by
  have hd := digits_pos_of_readsAs hc h
  obtain ⟨hlow, hhigh⟩ := power_bounds hc h
  have hratio : ((d.digits * tenPow d.exponent.toNat : ℕ) : ℚ) / (tenPow (-d.exponent).toNat : ℕ) =
      d.value := by
    rw [Nat.cast_mul, cast_tenPow, cast_tenPow, mul_div_assoc, ← zpow_eq_div (by norm_num),
      Scientific.value]
  rw [Scientific.toBits, if_neg, if_neg (not_lt.mpr hhigh)]
  · exact ofRatio_eq (Nat.mul_pos hd (tenPow_pos _)) (tenPow_pos _) hc (hratio ▸ h)
  · exact not_or.mpr ⟨hd.ne', not_lt.mpr hlow⟩

/-- The text of a magnitude gives its bits. -/
theorem exists_text_of_magnitude (h : m = 0 ∧ e = leastExponent ∨ Canonical m e) :
    ∃ t : DecimalText, t.Proper ∧ t.scientific.toBits = bitsOf m e ∧
      (if m = 0 then ['0', '.', '0'] else (shortest m e).write) = t.text := by
  rcases h with ⟨rfl, rfl⟩ | hc
  · exact ⟨⟨['0'], ['0'], none⟩, ⟨by simp, by simp, by simp, nofun, .inl rfl, .inl (by simp)⟩,
      rfl, rfl⟩
  · have hread := shortest_readsAs hc
    obtain ⟨t, htext, hwrites⟩ := exists_text _ (Scientific.digits_pos_of_readsAs hc hread)
    refine ⟨t, hwrites.proper, Scientific.toBits_of_readsAs hc ?_, ?_⟩
    · rwa [hwrites.value]
    · rw [if_neg hc.pos.ne', htext]

/-- **The text of a finite double stands for it.** -/
theorem exists_text_of_finite {x : Float} {negative : Bool} (h : decode x = .finite negative m e) :
    ∃ t : DecimalText, t.Proper ∧ ofMagnitude negative t.scientific.toBits = x ∧
      (writeFloat x).toList = if negative then '-' :: t.text else t.text := by
  have hparts : m = 0 ∧ e = leastExponent ∨ Canonical m e := by
    by_cases hm : m = 0
    · subst hm
      exact .inl ⟨rfl, eq_least_of_decode h⟩
    · exact .inr (canonical_of_decode h hm)
  obtain ⟨t, hproper, hbits, htext⟩ := exists_text_of_magnitude hparts
  refine ⟨t, hproper, ?_, ?_⟩
  · have hx := Parts.toFloat_decode x
    rwa [h, Parts.toFloat, ← hbits] at hx
  · rw [writeFloat, h]
    dsimp only
    rw [String.toList_ofList, htext]

end Scrawl.Decimal
