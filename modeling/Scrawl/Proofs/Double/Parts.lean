import Mathlib
import Scrawl.Proofs.Double.Rounding

/-!
# Proofs/Double/Parts — doubles from their parts

`decode` loses nothing: a double is its sign with the bits of its magnitude, for which the mantissa
and the exponent of a finite one are enough (`Parts.toFloat_decode`).  All nans are one.
-/

namespace Scrawl.Double

/-- The double with the given parts. -/
def Parts.toFloat : Parts → Float
  | .nan => ofMagnitude false nanBits
  | .infinite negative => ofMagnitude negative infinityBits
  | .finite negative mantissa exponent => ofMagnitude negative (bitsOf mantissa exponent)

section Bits

variable (x : Float)

/-- A double is given by its sign and the bits of its magnitude. -/
theorem ofMagnitude_toBits : ofMagnitude (x.toBits.toNat / twoPow 63 % 2 == 1)
    (x.toBits.toNat / twoPow 52 % twoPow 11 * twoPow 52 + x.toBits.toNat % twoPow 52) = x := by
  have hlt : x.toBits.toNat < 2 * 2 ^ 63 := x.toBits.toNat_lt
  have hbits : (if (x.toBits.toNat / 2 ^ 63 % 2 == 1) = true then
      2 ^ 63 + (x.toBits.toNat / 2 ^ 52 % 2 ^ 11 * 2 ^ 52 + x.toBits.toNat % 2 ^ 52)
      else x.toBits.toNat / 2 ^ 52 % 2 ^ 11 * 2 ^ 52 + x.toBits.toNat % 2 ^ 52) =
      x.toBits.toNat := by
    split_ifs with hsign
    · rw [beq_iff_eq] at hsign
      omega
    · rw [beq_iff_eq] at hsign
      omega
  exact (congrArg (Float.ofBits <| UInt64.ofNat ·) hbits).trans
    (by rw [UInt64.ofNat_toNat, Float.ofBits_toBits])

/-- **There is only one nan.** -/
theorem toBits_of_nan (hfield : x.toBits.toNat / twoPow 52 % twoPow 11 = 2047)
    (hfraction : x.toBits.toNat % twoPow 52 ≠ 0) : x.toBits = UInt64.ofNat nanBits := by
  refine UInt64.toBitVec_inj.mp (x.toModel.valid.eq_packedNaN ?_ fun hmantissa => hfraction ?_)
  · rw [Float.Model.UnpackedFloat.unpackExponent_def]
    refine BitVec.eq_of_toNat_eq ?_
    rw [BitVec.extractLsb'_toNat, Nat.shiftRight_eq_div_pow]
    exact hfield
  · rw [Float.Model.UnpackedFloat.unpackMantissa_def] at hmantissa
    have h := congrArg BitVec.toNat hmantissa
    rw [BitVec.extractLsb'_toNat, Nat.shiftRight_zero] at h
    exact h

end Bits

/-- The bits of a magnitude by its exponent field and its fraction. -/
theorem bitsOf_field {field : ℕ} (hfield : field ≠ 0) (fraction : ℕ) :
    bitsOf (twoPow 52 + fraction) (leastExponent + (field - 1 : ℕ)) =
      field * twoPow 52 + fraction := by
  have hshift : (leastExponent + (field - 1 : ℕ) - leastExponent).toNat = field - 1 := by omega
  obtain ⟨k, rfl⟩ := Nat.exists_eq_succ_of_ne_zero hfield
  rw [bitsOf, hshift, Nat.succ_sub_one, Nat.succ_mul, Nat.add_assoc]

/-- **A double is given by its parts.** -/
theorem Parts.toFloat_decode (x : Float) : (decode x).toFloat = x := by
  have hx := ofMagnitude_toBits x
  rw [decode, partsOfBits]
  split_ifs with hinfinite hzero hsubnormal
  · rwa [hinfinite, hzero, Nat.add_zero] at hx
  · rw [Parts.toFloat, ofMagnitude, if_neg Bool.false_ne_true, ← toBits_of_nan x hinfinite hzero,
      Float.ofBits_toBits]
  · rw [hsubnormal, Nat.zero_mul] at hx
    rwa [Parts.toFloat, bitsOf, sub_self, Int.toNat_zero, Nat.zero_mul]
  · rwa [Parts.toFloat, bitsOf_field hsubnormal]

theorem canonical_field {field fraction : ℕ} (hlt : field < 2047)
    (hfraction : fraction < twoPow 52) :
    Canonical (twoPow 52 + fraction) (leastExponent + (field - 1 : ℕ)) := by
  have h53 : twoPow 53 = twoPow 52 + twoPow 52 := rfl
  have hpos := twoPow_pos 52
  refine ⟨by omega, by omega, by omega, ?_, fun h => by omega⟩
  rw [leastExponent]
  omega

/-- **The parts of a finite double** that is not zero are canonical. -/
theorem canonical_of_decode {x : Float} {negative : Bool} {m : ℕ} {e : ℤ}
    (h : decode x = .finite negative m e) (hm : m ≠ 0) : Canonical m e := by
  have hfraction : x.toBits.toNat % twoPow 52 < twoPow 52 := Nat.mod_lt _ (twoPow_pos 52)
  have hfield : x.toBits.toNat / twoPow 52 % twoPow 11 < 2047 + 1 := Nat.mod_lt _ (twoPow_pos 11)
  rw [decode, partsOfBits] at h
  split_ifs at h with hinfinite hzero hsubnormal
  · obtain ⟨-, rfl, rfl⟩ := Parts.finite.inj h
    exact ⟨Nat.pos_of_ne_zero hm, hfraction.trans (by decide), le_rfl, by decide, fun _ => rfl⟩
  · obtain ⟨-, rfl, rfl⟩ := Parts.finite.inj h
    exact canonical_field (lt_of_le_of_ne (Nat.le_of_lt_succ hfield) hinfinite) hfraction

/-- Zero has the least exponent. -/
theorem eq_least_of_decode {x : Float} {negative : Bool} {e : ℤ}
    (h : decode x = .finite negative 0 e) : e = leastExponent := by
  rw [decode, partsOfBits] at h
  split_ifs at h with hinfinite hzero hsubnormal
  · exact (Parts.finite.inj h).2.2.symm
  · exact absurd (Parts.finite.inj h).2.1 (Nat.add_pos_left (twoPow_pos 52) _).ne'

end Scrawl.Double
