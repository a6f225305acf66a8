import Mathlib.Data.List.Basic

/-!
# Decimal numerals

Decimal numerals as bytes: how a number is written, what a numeral is and what its value
is, and that a number reads back as it was written.  Leading zeros are allowed in a
numeral.
-/

namespace DecimalNumerals

/-- How a number is written. -/
def render (n : Nat) : List UInt8 :=
  (Nat.toDigits 10 n).map fun digit => UInt8.ofNat digit.toNat

/-- At least one digit, and nothing but digits. -/
def IsNumeral (numeral : List UInt8) : Prop :=
  numeral ≠ [] ∧ ∀ b ∈ numeral, 48 ≤ b ∧ b ≤ 57

instance IsNumeral.decidable (numeral : List UInt8) : Decidable (IsNumeral numeral) :=
  inferInstanceAs (Decidable (_ ∧ _))

/-- The number that digits stand for. -/
def value (numeral : List UInt8) : Nat :=
  Nat.ofDigitChars 10 (numeral.map fun b => Char.ofNat b.toNat) 0

theorem toNat_digit_range {n : Nat} {digit : Char} (member : digit ∈ Nat.toDigits 10 n) :
    48 ≤ digit.toNat ∧ digit.toNat ≤ 57 :=
  Char.isDigit_iff_toNat.mp (Nat.isDigit_of_mem_toDigits (by omega) (by omega) member)

theorem toNat_ofNat_digit {n : Nat} {digit : Char} (member : digit ∈ Nat.toDigits 10 n) :
    (UInt8.ofNat digit.toNat).toNat = digit.toNat := by
  have range := toNat_digit_range member
  exact UInt8.toNat_ofNat_of_lt' (by simp only [UInt8.size]; omega)

theorem isNumeral_render (n : Nat) : IsNumeral (render n) := by
  constructor
  · rw [render, ne_eq, List.map_eq_nil_iff]
    exact Nat.toDigits_ne_nil
  · intro b member
    obtain ⟨digit, inDigits, rfl⟩ := List.mem_map.mp member
    have range := toNat_digit_range inDigits
    rw [UInt8.le_iff_toNat_le, UInt8.le_iff_toNat_le, toNat_ofNat_digit inDigits]
    exact range

/-- A number reads back as it was written. -/
theorem value_render (n : Nat) : value (render n) = n := by
  have readBack : (render n).map (fun b => Char.ofNat b.toNat) = Nat.toDigits 10 n := by
    rw [render, List.map_map]
    nth_rewrite 2 [← List.map_id (Nat.toDigits 10 n)]
    apply List.map_congr_left
    intro digit member
    rw [Function.comp_apply, toNat_ofNat_digit member, Char.ofNat_toNat, id]
  rw [value, readBack, Nat.ofDigitChars_ten_toDigits]

theorem value_eq_foldl (numeral : List UInt8) :
    value numeral = numeral.foldl (fun sofar b => 10 * sofar + (b.toNat - 48)) 0 := by
  have small : ∀ b : UInt8, (Char.ofNat b.toNat).toNat = b.toNat := by
    intro b
    have bound := b.toNat_lt
    have valid : b.toNat.isValidChar := .inl (by omega)
    rw [Char.ofNat, dif_pos valid]
    rfl
  rw [value, Nat.ofDigitChars_eq_foldl, List.foldl_map]
  simp only [small]
  rfl

/-- Numerals with one blank between each two of them. -/
def spaced (numerals : List (List UInt8)) : List UInt8 :=
  [32].intercalate numerals

theorem not_mem_of_isNumeral {numeral : List UInt8} (isNumeral : IsNumeral numeral) :
    32 ∉ numeral := by
  intro member
  exact absurd (isNumeral.2 32 member).1 (by decide)

theorem splitOn_spaced {numerals : List (List UInt8)} (some : numerals ≠ [])
    (each : ∀ numeral ∈ numerals, IsNumeral numeral) : (spaced numerals).splitOn 32 = numerals :=
  List.splitOn_intercalate 32 (fun numeral member => not_mem_of_isNumeral (each numeral member))
    some

theorem spaced_splitOn (line : List UInt8) : spaced (line.splitOn 32) = line :=
  List.intercalate_splitOn 32

end DecimalNumerals
