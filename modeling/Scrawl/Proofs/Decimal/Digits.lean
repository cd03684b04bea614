import Mathlib.Tactic.Ring
import Scrawl.Decimal.Numeral

/-!
# Proofs/Decimal/Digits — numbers and their ASCII digits

The digits that a number is written with stand for it (`digitsValue_toDigits`), and the first of
them is no zero unless the number is.  All of them are ASCII digits, which are decimal digits.
-/

namespace Scrawl

open Text

/-! ## ASCII digits -/

theorem Text.isDecimal_of_isDigit {c : Char} (h : c.isDigit) : isDecimal c := by
  have hrange : 0x30 ≤ c.toNat ∧ c.toNat < 0x30 + 10 := by
    rw [Char.isDigit, Bool.and_eq_true, decide_eq_true_iff, decide_eq_true_iff,
      ge_iff_le, UInt32.le_iff_toNat_le, UInt32.le_iff_toNat_le] at h
    exact ⟨h.1, Nat.lt_succ_of_le h.2⟩
  rw [isDecimal, digitValue?, zeros, List.findSome?_cons, if_pos hrange]
  rfl

namespace Decimal

variable {c : Char} {cs ds : List Char} {n : ℕ}

theorem digitValue?_digitChar (h : n < 10) : digitValue? n.digitChar = some n := by
  have hall : ∀ k : Fin 10, digitValue? k.val.digitChar = some k.val := by decide
  exact hall ⟨n, h⟩

/-! ## The number that digits stand for -/

/-- Digits go on from a number. -/
theorem foldl_digits (start : ℕ) : ∀ ds : List Char,
    ds.foldl (fun n c => 10 * n + (digitValue? c).getD 0) start =
      start * 10 ^ ds.length + digitsValue ds
  | [] => by simp [digitsValue]
  | d :: ds => by
      rw [digitsValue, List.foldl_cons, List.foldl_cons, foldl_digits _ ds, foldl_digits _ ds,
        List.length_cons]
      ring

/-- Digits in front of others count for more. -/
theorem digitsValue_append (cs ds : List Char) :
    digitsValue (cs ++ ds) = digitsValue cs * 10 ^ ds.length + digitsValue ds := by
  rw [digitsValue, List.foldl_append, foldl_digits]
  rfl

theorem digitsValue_digitChar (h : n < 10) : digitsValue [n.digitChar] = n := by
  rw [digitsValue, List.foldl_cons, List.foldl_nil, digitValue?_digitChar h, Nat.mul_zero,
    Nat.zero_add, Option.getD_some]

theorem digitsValue_cons_zero (cs : List Char) : digitsValue ('0' :: cs) = digitsValue cs := rfl

theorem digitsValue_zeros_append (k : ℕ) (cs : List Char) :
    digitsValue (List.replicate k '0' ++ cs) = digitsValue cs := by
  induction k with
  | zero => rfl
  | succ k ih => rw [List.replicate_succ, List.cons_append, digitsValue_cons_zero, ih]

theorem digitsValue_append_zeros (cs : List Char) (k : ℕ) :
    digitsValue (cs ++ List.replicate k '0') = digitsValue cs * 10 ^ k := by
  have hzeros : digitsValue (List.replicate k '0') = 0 := by
    rw [← List.append_nil (List.replicate k '0'), digitsValue_zeros_append]
    rfl
  rw [digitsValue_append, hzeros, List.length_replicate, Nat.add_zero]

theorem digitValue?_lt (h : digitValue? c = some n) : n < 10 := by
  obtain ⟨z, -, hz⟩ := List.exists_of_findSome?_eq_some h
  split at hz
  · cases hz
    omega
  · cases hz

theorem digitsValue_lt : ∀ cs : List Char, digitsValue cs < 10 ^ cs.length
  | [] => by decide
  | c :: cs => by
      have hc : (digitValue? c).getD 0 < 10 := by
        cases hd : digitValue? c with
        | none => decide
        | some n => exact digitValue?_lt hd
      have hcs := digitsValue_lt cs
      have hfirst : digitsValue [c] = (digitValue? c).getD 0 := by simp [digitsValue]
      rw [← List.singleton_append, digitsValue_append, hfirst, List.length_append,
        List.length_singleton, Nat.pow_add, Nat.pow_one]
      calc (digitValue? c).getD 0 * 10 ^ cs.length + digitsValue cs
          < ((digitValue? c).getD 0 + 1) * 10 ^ cs.length := by
            rw [Nat.add_mul, Nat.one_mul]
            omega
        _ ≤ 10 * 10 ^ cs.length := Nat.mul_le_mul_right _ hc

/-! ## The digits of a number -/

/-- **The digits of a number stand for it.** -/
theorem digitsValue_toDigits (n : ℕ) : digitsValue (Nat.toDigits 10 n) = n := by
  induction n using Nat.strongRecOn with
  | ind n ih =>
    rw [Nat.toDigits_eq_if (by decide)]
    split
    · exact digitsValue_digitChar ‹_›
    · rw [digitsValue_append, ih (n / 10) (by omega),
        digitsValue_digitChar (Nat.mod_lt n (by decide)), List.length_singleton]
      omega

/-- **A number with few digits is small.** -/
theorem lt_tenPow_of_length_toDigits {k : ℕ} (h : (Nat.toDigits 10 n).length ≤ k) :
    n < tenPow k :=
  calc n = digitsValue (Nat.toDigits 10 n) := (digitsValue_toDigits n).symm
    _ < 10 ^ (Nat.toDigits 10 n).length := digitsValue_lt _
    _ ≤ tenPow k := Nat.pow_le_pow_right (by decide) h

theorem isDigit_of_mem_toDigits (h : c ∈ Nat.toDigits 10 n) : c.isDigit :=
  Nat.isDigit_of_mem_toDigits (by decide) (by decide) h

/-- The first digit is no zero. -/
theorem head?_toDigits_ne (hn : 0 < n) : (Nat.toDigits 10 n).head? ≠ some '0' := by
  induction n using Nat.strongRecOn with
  | ind n ih =>
    rw [Nat.toDigits_eq_if (by decide)]
    split
    · rename_i hlt
      have hall : ∀ k : Fin 10, 0 < k.val → [k.val.digitChar].head? ≠ some '0' := by decide
      exact hall ⟨n, hlt⟩ hn
    · rw [List.head?_append, Option.or_of_isSome (List.isSome_head?.mpr Nat.toDigits_ne_nil)]
      exact ih (n / 10) (by omega) (by omega)

/-- Digits stand for a number that takes no more of them. -/
theorem length_toDigits_digitsValue {k : ℕ} (hk : 0 < k) (h : cs.length ≤ k) :
    (Nat.toDigits 10 (digitsValue cs)).length ≤ k :=
  (Nat.length_toDigits_le_iff (by decide) hk).mpr
    ((digitsValue_lt cs).trans_le (Nat.pow_le_pow_right (by decide) h))

theorem natAbs_signed (negative : Bool) (n : ℕ) : (signed negative n).natAbs = n := by
  rw [signed]
  split <;> omega

/-- **An integer that is read keeps within the digit limit.** -/
theorem length_toDigits_of_readInteger {text : String} {m : ℤ} (h : readInteger text = .ok m) :
    (Nat.toDigits 10 m.natAbs).length ≤ digitLimit := by
  unfold readInteger at h
  dsimp only at h
  split at h
  · cases h
  split at h
  · cases h
  split at h
  · cases h
    rw [natAbs_signed]
    exact length_toDigits_digitsValue (by decide) (not_lt.mp ‹_›)
  · cases h

/-- An integer is its sign and its absolute value. -/
theorem signed_natAbs (n : ℤ) : signed (n < 0) n.natAbs = n := by
  rcases lt_or_ge n 0 with h | h
  · rw [signed, if_pos (decide_eq_true h)]
    omega
  · rw [signed, if_neg (by simpa using h)]
    omega

/-- **The text of an integer**: its digits, behind a minus sign if it is negative. -/
theorem toList_toString (n : ℤ) :
    (toString n).toList = (if n < 0 then ['-'] else []) ++ Nat.toDigits 10 n.natAbs := by
  rw [Int.toString_eq_repr]
  cases n with
  | ofNat n => exact Nat.toList_repr
  | negSucc n =>
    rw [Int.repr, String.toList_append, Nat.toList_repr, if_pos (Int.negSucc_lt_zero n)]
    rfl

end Decimal

end Scrawl
