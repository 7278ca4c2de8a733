import Mathlib

/-!
# Decimal numbers in texts

Rounding a rational to the nearest integer, ties away from zero, and reading a
number from the front of a text: digits, then perhaps a point and more digits.

Results:
1. `abs_sub_rounded_le`, `rounded_mono`: rounding moves by at most a half and keeps
   the order.
2. `readNat_toDigits`, `readDecimal_nat`, `readDecimal_tenths`: the number that was
   printed is read.
-/

namespace Decimal

/-! ## 1. Rounding -/

/-- The nearest integer; of two, the one farther from zero. -/
def rounded (x : ℚ) : ℤ := if 0 ≤ x then round x else -round (-x)

theorem rounded_of_nonneg {x : ℚ} (h : 0 ≤ x) : rounded x = round x := if_pos h

theorem abs_sub_rounded_le (x : ℚ) : |x - rounded x| ≤ 1 / 2 := by
  unfold rounded
  split
  · exact abs_sub_round x
  · have hneg : x - ((-round (-x) : ℤ) : ℚ) = -(-x - round (-x)) := by
      push_cast
      ring
    rw [hneg, abs_neg]
    exact abs_sub_round (-x)

theorem round_mono {x y : ℚ} (h : x ≤ y) : round x ≤ round y := by
  rw [round_eq, round_eq]
  exact Int.floor_mono (by linarith)

theorem round_nonneg {x : ℚ} (h : 0 ≤ x) : 0 ≤ round x := by
  simpa using round_mono h

theorem rounded_mono {x y : ℚ} (h : x ≤ y) : rounded x ≤ rounded y := by
  unfold rounded
  split
  · next hx =>
    rw [if_pos (hx.trans h)]
    exact round_mono h
  · next hx =>
    split
    · next hy =>
      have hx' : 0 ≤ round (-x) := round_nonneg (by linarith)
      have hy' : 0 ≤ round y := round_nonneg hy
      omega
    · next hy =>
      have hle : round (-y) ≤ round (-x) := round_mono (by linarith)
      omega

/-! ## 2. Reading -/

/-- The digits at the front of a text, as a number. -/
def readNat (s : List Char) : Option (ℕ × List Char) :=
  if s.takeWhile Char.isDigit = [] then none
  else some (Nat.ofDigitChars 10 (s.takeWhile Char.isDigit) 0, s.dropWhile Char.isDigit)

/-- A number at the front of a text, with a decimal fraction or without one. -/
def readDecimal (s : List Char) : Option (ℚ × List Char) :=
  (readNat s).bind fun (whole, rest) =>
    match rest with
    | '.' :: more =>
      (readNat more).map fun (fraction, unit) =>
        (whole + fraction / 10 ^ (more.length - unit.length), unit)
    | unit => some (whole, unit)

section

variable {rest : List Char}

theorem takeWhile_digits {ds : List Char} (hds : ∀ c ∈ ds, c.isDigit)
    (hrest : rest.takeWhile Char.isDigit = []) : (ds ++ rest).takeWhile Char.isDigit = ds := by
  rw [List.takeWhile_append_of_pos hds, hrest, List.append_nil]

theorem dropWhile_digits {ds : List Char} (hds : ∀ c ∈ ds, c.isDigit)
    (hrest : rest.takeWhile Char.isDigit = []) : (ds ++ rest).dropWhile Char.isDigit = rest := by
  have h := List.takeWhile_append_dropWhile (p := Char.isDigit) (l := ds ++ rest)
  rw [takeWhile_digits hds hrest] at h
  exact List.append_cancel_left h

theorem readNat_toDigits (n : ℕ) (hrest : rest.takeWhile Char.isDigit = []) :
    readNat (Nat.toDigits 10 n ++ rest) = some (n, rest) := by
  have hds : ∀ c ∈ Nat.toDigits 10 n, c.isDigit :=
    fun c hc => Nat.isDigit_of_mem_toDigits (by decide) (by decide) hc
  unfold readNat
  rw [takeWhile_digits hds hrest, dropWhile_digits hds hrest, if_neg Nat.toDigits_ne_nil,
    Nat.ofDigitChars_ten_toDigits]

/-- A number without a point. -/
theorem readDecimal_nat (n : ℕ) (hrest : rest.takeWhile Char.isDigit = [])
    (hpoint : rest.head? ≠ some '.') :
    readDecimal (Nat.toDigits 10 n ++ rest) = some ((n : ℚ), rest) := by
  unfold readDecimal
  rw [readNat_toDigits n hrest, Option.bind_some]
  dsimp only
  split
  · exact absurd rfl hpoint
  · rfl

/-- A number with one digit behind the point. -/
theorem readDecimal_tenths (n : ℕ) {d : ℕ} (hd : d < 10)
    (hrest : rest.takeWhile Char.isDigit = []) :
    readDecimal (Nat.toDigits 10 n ++ '.' :: (Nat.toDigits 10 d ++ rest)) =
      some ((n : ℚ) + d / 10, rest) := by
  have hlength : (Nat.toDigits 10 d ++ rest).length - rest.length = 1 := by
    rw [Nat.toDigits_of_lt_base hd, List.length_append, List.length_singleton,
      Nat.add_sub_cancel]
  unfold readDecimal
  rw [readNat_toDigits n rfl, Option.bind_some]
  show (readNat (Nat.toDigits 10 d ++ rest)).map _ = _
  rw [readNat_toDigits d hrest]
  show some ((n : ℚ) + d / 10 ^ ((Nat.toDigits 10 d ++ rest).length - rest.length), rest) = _
  rw [hlength, pow_one]

end

end Decimal
