import LocateMe.Lib.Decimal
import LocateMe.Lib.Replacement

/-!
# Distance labels

`Double.roundToSingleDigit` shows a distance in hundreds of metres, and from 950
metres on in kilometres with one decimal digit, from which `.0` is deleted as a
text. Distances are exact rationals here.

Results:
1. `readLength_roundToSingleDigit`: either way the label stands for the distance
   rounded to hundreds of metres.
2. `distance_labels`: labels are off by at most 50 metres and keep the order.
-/

namespace LocateMe

open Decimal

/-! ## 1. The label -/

/-- `String.replaceOccurance`. -/
def replaceOccurance (s target withString : String) : String :=
  String.ofList (Literal.replaceAll target.toList withString.toList s.toList)

/-- How a `Double` with one decimal digit is printed, below `10 ^ 16`. -/
def description (x : ℚ) : String :=
  let tenths := (rounded (x * 10)).natAbs
  (if x < 0 then "-" else "") ++ toString (tenths / 10) ++ "." ++ toString (tenths % 10)

/-- `Double.roundToSingleDigit`. -/
def roundToSingleDigit (d : ℚ) : String :=
  if 950 ≤ d then
    let km := d / 1000
    let divisor : ℚ := 10 ^ 1
    let roundedKm := rounded (km * divisor) / divisor
    replaceOccurance (description roundedKm ++ " km") ".0" ""
  else
    let roundedMeters := 100 * rounded (d / 100)
    toString roundedMeters ++ " m"

/-- The metres that a label stands for. -/
def readLength (label : String) : Option ℚ :=
  (readDecimal label.toList).bind fun (x, unit) =>
    if unit = [' ', 'm'] then some x
    else if unit = [' ', 'k', 'm'] then some (1000 * x)
    else none

namespace LabelLemmas

theorem not_mem_toDigits (n : ℕ) : '.' ∉ Nat.toDigits 10 n := by
  intro h
  cases Nat.isDigit_of_mem_toDigits (by decide) (by decide) h

/-- Hundreds of metres, not negative. -/
theorem exists_rounded {d : ℚ} (h : 0 ≤ d) : ∃ n : ℕ, rounded (d / 100) = n := by
  have hround : 0 ≤ rounded (d / 100) := by
    rw [rounded_of_nonneg (by positivity)]
    exact round_nonneg (by positivity)
  exact ⟨_, (Int.toNat_of_nonneg hround).symm⟩

theorem toList_description (n : ℕ) :
    (description ((n : ℚ) / 10)).toList =
      Nat.toDigits 10 (n / 10) ++ '.' :: Nat.toDigits 10 (n % 10) := by
  have htenths : rounded ((n : ℚ) / 10 * 10) = n := by
    rw [div_mul_cancel₀ _ (by norm_num), rounded_of_nonneg (Nat.cast_nonneg n), round_natCast]
  have hsign : ¬ (n : ℚ) / 10 < 0 := not_lt.mpr (by positivity)
  unfold description
  rw [htenths, if_neg hsign, Int.natAbs_natCast]
  simp

theorem readLength_m (n : ℕ) :
    readLength (toString (100 * (n : ℤ)) ++ " m") = some (100 * (n : ℚ)) := by
  have hlabel : (toString (100 * (n : ℤ)) ++ " m").toList =
      Nat.toDigits 10 (100 * n) ++ [' ', 'm'] := by
    have hcast : (100 * (n : ℤ)) = ((100 * n : ℕ) : ℤ) := by push_cast; rfl
    rw [hcast, String.toList_append]
    exact congrArg (· ++ [' ', 'm']) Nat.toList_repr
  unfold readLength
  rw [hlabel, readDecimal_nat _ rfl (by simp)]
  simp

/-- The label in kilometres, after `.0` is deleted from it. -/
theorem readLength_km (n : ℕ) :
    readLength (replaceOccurance (description ((n : ℚ) / 10) ++ " km") ".0" "") =
      some (100 * (n : ℚ)) := by
  have hlt : n % 10 < 10 := Nat.mod_lt n (by decide)
  have hsplit : (n : ℚ) = 10 * (n / 10 : ℕ) + (n % 10 : ℕ) := by
    exact_mod_cast (Nat.div_add_mod n 10).symm
  have hlabel : (description ((n : ℚ) / 10) ++ " km").toList =
      Nat.toDigits 10 (n / 10) ++ '.' :: (Nat.toDigits 10 (n % 10) ++ [' ', 'k', 'm']) := by
    rw [String.toList_append, toList_description, List.append_assoc]
    rfl
  have hdeleted : (replaceOccurance (description ((n : ℚ) / 10) ++ " km") ".0" "").toList =
      Nat.toDigits 10 (n / 10) ++
        Literal.replaceAll ['.', '0'] []
          ('.' :: (Nat.toDigits 10 (n % 10) ++ [' ', 'k', 'm'])) := by
    rw [replaceOccurance, hlabel, String.toList_ofList]
    exact Literal.replaceAll_append (not_mem_toDigits _) _
  unfold readLength
  rw [hdeleted]
  by_cases hzero : n % 10 = 0
  · -- `.0` is deleted, and the label is a whole number of kilometres
    rw [hzero, Nat.toDigits_zero]
    have hrest : Literal.replaceAll ['.', '0'] [] ('.' :: (['0'] ++ [' ', 'k', 'm'])) =
        [' ', 'k', 'm'] := by
      rw [← List.cons_append, Literal.replaceAll_target,
        Literal.replaceAll_of_not_mem (by decide), List.nil_append]
    rw [hrest, readDecimal_nat _ rfl (by simp)]
    rw [hzero] at hsplit
    simp [hsplit]
    ring
  · -- the digit behind the point stays
    have hrest : Literal.replaceAll ['.', '0'] []
        ('.' :: (Nat.toDigits 10 (n % 10) ++ [' ', 'k', 'm'])) =
        '.' :: (Nat.toDigits 10 (n % 10) ++ [' ', 'k', 'm']) := by
      have hnot : ['.', '0'].isPrefixOf
          ('.' :: (Nat.toDigits 10 (n % 10) ++ [' ', 'k', 'm'])) = false := by
        rw [Nat.toDigits_of_lt_base hlt]
        simp [List.isPrefixOf, hzero]
      rw [Literal.replaceAll_cons hnot, Literal.replaceAll_append (not_mem_toDigits _),
        Literal.replaceAll_of_not_mem (by decide)]
    rw [hrest, readDecimal_tenths _ hlt rfl]
    simp [hsplit]
    ring

end LabelLemmas

open LabelLemmas

/-! ## 2. What the label says -/

/-- In metres or in kilometres, the label is the distance rounded to hundreds of
metres. -/
theorem readLength_roundToSingleDigit {d : ℚ} (h : 0 ≤ d) :
    readLength (roundToSingleDigit d) = some (100 * (rounded (d / 100) : ℚ)) := by
  obtain ⟨n, hn⟩ := exists_rounded h
  unfold roundToSingleDigit
  split
  · have hkm : rounded (d / 1000 * 10 ^ 1) = n := by
      rw [← hn]
      congr 1
      ring
    dsimp only
    rw [hkm, hn, pow_one, Int.cast_natCast]
    exact readLength_km n
  · dsimp only
    rw [hn, Int.cast_natCast]
    exact readLength_m n

/-- Labels are accurate and monotone, also where the unit changes. -/
theorem distance_labels {d d' : ℚ} (h : 0 ≤ d) (hle : d ≤ d') :
    ∃ r r', readLength (roundToSingleDigit d) = some r ∧
      readLength (roundToSingleDigit d') = some r' ∧
      |r - d| ≤ 50 ∧ |r' - d'| ≤ 50 ∧ r ≤ r' := by
  have hoff : ∀ x : ℚ, |100 * (rounded (x / 100) : ℚ) - x| ≤ 50 := by
    intro x
    have hhalf := abs_sub_rounded_le (x / 100)
    calc |100 * (rounded (x / 100) : ℚ) - x| = |-(100 * (x / 100 - rounded (x / 100)))| := by
          ring_nf
      _ = 100 * |x / 100 - rounded (x / 100)| := by rw [abs_neg, abs_mul, abs_of_pos (by norm_num)]
      _ ≤ 50 := by linarith
  have hmono : (rounded (d / 100) : ℚ) ≤ rounded (d' / 100) := by
    exact_mod_cast rounded_mono (by linarith)
  exact ⟨_, _, readLength_roundToSingleDigit h, readLength_roundToSingleDigit (h.trans hle),
    hoff d, hoff d', by linarith⟩

theorem distance_labels_switch :
    ∃ r r', readLength (roundToSingleDigit 949) = some r ∧
      readLength (roundToSingleDigit 951) = some r' ∧
      |r - 949| ≤ 50 ∧ |r' - 951| ≤ 50 ∧ r ≤ r' :=
  distance_labels (by norm_num) (by norm_num)

end LocateMe
