import Chip8.Decimal.Binary64
import Mathlib

/-!
# Whole numbers as doubles

A whole number of up to fifty-three bits is a double exactly, so cutting that double towards zero
gives the number back: `truncate?_ofInt`.

The bits of a finite double come back from it as they were written (`toBits_ofBits`), so its parts
can be read off them (`parts?_ofMagnitude`).

Any finite double, or single, has a value that is a rational number (`Parts.value`), and what
`Parts.truncate` finds is the whole number next to it towards zero (`Parts.truncate_eq`).
-/

namespace Chip8

namespace Binary64

open Float.Model Float.Model.UnpackedFloat

/-! ### Bits that come back -/

/-- The bits of a double come back as they were written, infinities and NaNs apart. -/
theorem toBits_ofBits {u : UInt64} (htop : u.toNat / hidden % 0x800 ≠ 0x7ff) :
    (Float.ofBits u).toBits = u := by
  have hexp : (@unpackExponent .binary64 u.toBitVec).toNat = u.toNat / hidden % 0x800 := by
    simp [unpackExponent, BitVec.extractLsb_toNat, Nat.shiftRight_eq_div_pow, hidden]
  have hnumber : ¬ @isNaNBits .binary64 u.toBitVec := by
    intro hnan
    have hall := (of_decide_eq_true hnan).1
    exact htop (hexp ▸ congrArg BitVec.toNat hall)
  have hpack := @pack_unpack .binary64 u.toBitVec (by decide)
  rw [if_neg hnumber] at hpack
  exact congrArg UInt64.ofBitVec hpack

theorem parts?_ofMagnitude {negative : Bool} {bits : Nat} (hlow : hidden ≤ bits)
    (hhigh : bits < infinityBits) :
    parts? (ofMagnitude negative bits) =
      some ⟨negative, bits % hidden + hidden, minExponent + ((bits / hidden : Nat) - 1)⟩ := by
  have hsign : ∃ s, (if negative then 0x8000000000000000 else 0) = s ∧
      s % 0x8000000000000000 = 0 ∧ s ≤ 0x8000000000000000 ∧
      (s / 0x8000000000000000 % 2 = 1 ↔ negative) := by
    cases negative <;> simp
  obtain ⟨s, hs, hzero, hle, hnegative⟩ := hsign
  unfold infinityBits hidden at *
  have htoNat : (UInt64.ofNat (bits + s)).toNat = bits + s := by
    rw [UInt64.toNat_ofNat']
    omega
  have hexp : (bits + s) / 0x10000000000000 % 0x800 = bits / 0x10000000000000 := by omega
  have hbits : (ofMagnitude negative bits).toBits = UInt64.ofNat (bits + s) := by
    rw [ofMagnitude, hs]
    refine toBits_ofBits ?_
    rw [htoNat, hidden, hexp]
    omega
  have htest : (bits + s).testBit 63 = negative := by
    rw [Nat.testBit_eq_decide_div_mod_eq, Bool.eq_iff_iff, decide_eq_true_iff, ← hnegative]
    omega
  rw [parts?]
  simp only [hbits, htoNat, htest, hidden, hexp]
  rw [if_neg (by omega), if_neg (by omega)]
  congr 3
  omega

/-! ### Whole numbers -/

/-- A whole number, moved up until it has fifty-three bits. -/
def wholeSignificand (n : Nat) : Nat := n * 2 ^ (52 - n.log2)

section Whole

variable {n : Nat} (h0 : n ≠ 0) (h : n < 2 ^ 53)

include h0 h

theorem log2_le : n.log2 ≤ 52 := by
  have := (Nat.log2_lt h0).2 h
  omega

theorem wholeSignificand_bounds :
    hidden ≤ wholeSignificand n ∧ wholeSignificand n < 2 * hidden := by
  have hpow : 2 ^ n.log2 * 2 ^ (52 - n.log2) = hidden := by
    rw [← pow_add, Nat.add_sub_cancel' (log2_le h0 h)]
    rfl
  have hlow : 2 ^ n.log2 ≤ n := Nat.log2_self_le h0
  have hhigh : n < 2 ^ (n.log2 + 1) := Nat.lt_log2_self
  rw [← hpow, ← mul_assoc, ← pow_succ']
  exact ⟨Nat.mul_le_mul_right _ hlow, Nat.mul_lt_mul_of_pos_right hhigh (by positivity)⟩

/-- No bit of a short whole number is rounded away. -/
theorem nearestBits_whole :
    nearestBits n 1 = (n.log2 + 1022) * hidden + wholeSignificand n := by
  have hlog := log2_le h0 h
  obtain ⟨hlow, hhigh⟩ := wholeSignificand_bounds h0 h
  have hscaled : scaled n 1 (n.log2 - 52) = (wholeSignificand n, 1) := by
    rw [scaled, wholeSignificand]
    split
    · have : n.log2 = 52 := by omega
      simp [this]
    · rw [show (-((n.log2 : Int) - 52)).toNat = 52 - n.log2 by omega]
      rfl
  have hround : divRoundEven (wholeSignificand n) 1 = wholeSignificand n := by
    simp [divRoundEven, Nat.mod_one]
  have hone : (1 : Nat).log2 = 0 := by decide
  have he : max minExponent ((n.log2 : Int) - 52) = n.log2 - 52 := by
    rw [minExponent]
    omega
  have hexp : ((n.log2 : Int) - 52 - minExponent).toNat = n.log2 + 1022 := by
    rw [minExponent]
    omega
  rw [nearestBits]
  simp only [hone, Nat.cast_zero, sub_zero, hscaled, Nat.div_one, hlow.not_gt, if_false, he,
    hround, hexp]
  refine min_eq_right ?_
  have : (n.log2 + 1022) * hidden ≤ 1074 * hidden := Nat.mul_le_mul_right _ (by omega)
  rw [infinityBits]
  omega

theorem parts?_nearest_whole (negative : Bool) :
    parts? (nearest negative n 1) = some ⟨negative, wholeSignificand n, n.log2 - 52⟩ := by
  have hlog := log2_le h0 h
  obtain ⟨hlow, hhigh⟩ := wholeSignificand_bounds h0 h
  have hle : (n.log2 + 1022) * hidden ≤ 1074 * hidden := Nat.mul_le_mul_right _ (by omega)
  rw [nearest, if_neg h0, nearestBits_whole h0 h, parts?_ofMagnitude (by omega)
    (by rw [infinityBits]; omega)]
  have hquot : ((n.log2 + 1022) * hidden + wholeSignificand n) / hidden = n.log2 + 1023 := by
    rw [hidden] at *
    omega
  have hrem : ((n.log2 + 1022) * hidden + wholeSignificand n) % hidden + hidden =
      wholeSignificand n := by
    rw [hidden] at *
    omega
  have hweight : minExponent + ((n.log2 + 1023 : Nat) - 1) = n.log2 - 52 := by
    rw [minExponent]
    omega
  rw [hquot, hrem, hweight]

end Whole

theorem truncate?_ofInt {n : Int} (h : n.natAbs < 2 ^ 53) : truncate? (ofInt n) = some n := by
  by_cases h0 : n.natAbs = 0
  · obtain rfl : n = 0 := by omega
    decide +kernel
  have hlog := log2_le h0 h
  have hdiv : wholeSignificand n.natAbs / Nat.pow 2 (52 - n.natAbs.log2) = n.natAbs :=
    Nat.mul_div_cancel _ (Nat.pow_pos two_pos)
  have hscaled : scaled (wholeSignificand n.natAbs) 1 (-((n.natAbs.log2 : Int) - 52)) =
      (wholeSignificand n.natAbs, Nat.pow 2 (52 - n.natAbs.log2)) := by
    rw [scaled, if_pos (by omega), one_mul,
      show (-((n.natAbs.log2 : Int) - 52)).toNat = 52 - n.natAbs.log2 by omega]
  rw [truncate?, ofInt, parts?_nearest_whole h0 h, Option.map_some, Option.some_inj,
    Parts.truncate]
  simp only [hscaled, hdiv]
  rcases lt_or_ge n 0 with hneg | hnonneg
  · rw [decide_eq_true hneg, if_pos rfl]
    omega
  · rw [decide_eq_false hnonneg.not_gt, if_neg Bool.false_ne_true]
    omega

/-! ### Towards zero -/

/-- What a finite double stands for. -/
def Parts.value (p : Parts) : ℚ := (if p.negative then -1 else 1) * p.significand * 2 ^ p.exponent

/-- The whole number next to a rational number towards zero. -/
def towardsZero (q : ℚ) : ℤ := if q < 0 then ⌈q⌉ else ⌊q⌋

theorem towardsZero_of_nonneg {q : ℚ} (h : 0 ≤ q) : towardsZero q = ⌊q⌋ := if_neg h.not_gt

theorem towardsZero_neg {q : ℚ} (h : 0 ≤ q) : towardsZero (-q) = -⌊q⌋ := by
  rcases h.eq_or_lt with rfl | hpos
  · rw [neg_zero, towardsZero_of_nonneg le_rfl, Int.floor_zero, neg_zero]
  · rw [towardsZero, if_pos (neg_lt_zero.2 hpos), Int.ceil_neg]

theorem scaled_eq (num den : Nat) (e : Int) :
    ((scaled num den e).1 / (scaled num den e).2 : ℚ) = num / den / 2 ^ e := by
  unfold scaled
  split
  next h =>
    obtain ⟨k, rfl⟩ := Int.eq_ofNat_of_zero_le h
    push_cast [Nat.pow_eq]
    rw [Int.toNat_natCast, zpow_natCast, div_div]
  next h =>
    obtain ⟨k, hk⟩ := Int.eq_ofNat_of_zero_le (show 0 ≤ -e by omega)
    obtain rfl : e = -(k : Int) := by omega
    push_cast [Nat.pow_eq]
    rw [neg_neg, Int.toNat_natCast, zpow_neg, zpow_natCast, div_inv_eq_mul]
    ring

theorem Parts.truncate_eq (p : Parts) : p.truncate = towardsZero p.value := by
  have hscaled := scaled_eq p.significand 1 (-p.exponent)
  rw [Nat.cast_one, div_one, zpow_neg, div_inv_eq_mul] at hscaled
  rw [Parts.truncate, Parts.value, mul_assoc, ← hscaled]
  obtain ⟨n, d⟩ := scaled p.significand 1 (-p.exponent)
  have hnonneg : (0 : ℚ) ≤ n / d := by positivity
  have hfloor : ⌊(n / d : ℚ)⌋ = (n / d : Nat) := by
    rw [Rat.floor_natCast_div_natCast, Int.natCast_div]
  cases p.negative with
  | false =>
    simp only [Bool.false_eq_true, if_false, one_mul, towardsZero_of_nonneg hnonneg, hfloor]
  | true => simp only [if_true, neg_one_mul, towardsZero_neg hnonneg, hfloor]

end Binary64

end Chip8
