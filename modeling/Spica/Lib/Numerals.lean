import Mathlib.Algebra.Ring.Nat
import Mathlib.Data.Char
import Mathlib.Data.List.Basic
import Mathlib.Data.List.Induction
import Spica.Lib.Scan

/-! # Numerals

Decimal numerals without a leading zero are those a number is written with, and numerals of a
fixed width in some base are read back as the number they were written for.
-/

namespace Numerals

variable {n base width a b : Nat} {c : Char} {ds : List Char}

/-! ## Decimals -/

/-- No leading zero, apart from the zero itself. -/
def Canonical (ds : List Char) : Prop := ds.head? = some '0' → ds = ['0']

instance : DecidablePred Canonical := fun ds =>
  inferInstanceAs (Decidable (ds.head? = some '0' → ds = ['0']))

theorem value_toDigits (n : Nat) : Nat.ofDigitChars 10 (Nat.toDigits 10 n) 0 = n :=
  Nat.ofDigitChars_toDigits (by decide) (by decide)

theorem toDigits_decimal (there : c ∈ Nat.toDigits 10 n) : c.isDigit = true :=
  Nat.isDigit_of_mem_toDigits (by decide) (by decide) there

theorem toDigits_canonical (n : Nat) : Canonical (Nat.toDigits 10 n) := by
  induction n using Nat.strongRecOn with
  | ind n ih =>
    by_cases small : n < 10
    · rw [Nat.toDigits_of_lt_base small]
      intro zero
      exact congrArg (fun c => [c]) (Option.some.inj zero)
    · intro zero
      have split := Nat.toDigits_of_base_le (b := 10) (by decide) (Nat.le_of_not_lt small)
      rw [split, List.head?_append_of_ne_nil _ Nat.toDigits_ne_nil] at zero
      have quotient := congrArg (Nat.ofDigitChars 10 · 0) (ih (n / 10) (by omega) zero)
      simp only [value_toDigits] at quotient
      have : n / 10 = 0 := quotient
      omega

theorem digitChar_value (digit : c.isDigit = true) :
    Nat.digitChar (c.toNat - '0'.toNat) = c ∧ c.toNat - '0'.toNat < 10 := by
  have range : 48 ≤ c.toNat ∧ c.toNat ≤ 57 := by
    simpa [Char.isDigit, UInt32.le_iff_toNat_le] using digit
  have zero : '0'.toNat = 48 := rfl
  have table : ∀ k < 10, Nat.digitChar k = Char.ofNat (48 + k) := by decide
  have small : c.toNat - '0'.toNat < 10 := by omega
  refine ⟨?_, small⟩
  rw [table _ small, zero, Nat.add_sub_cancel' range.1, Char.ofNat_toNat]

/-- A numeral without a leading zero is the one its value is written with. -/
theorem toDigits_value (some_ : ds ≠ []) (decimal : ∀ c ∈ ds, c.isDigit = true)
    (canonical : Canonical ds) : Nat.toDigits 10 (Nat.ofDigitChars 10 ds 0) = ds := by
  induction ds using List.reverseRecOn with
  | nil => exact absurd rfl some_
  | append_singleton init d ih =>
    obtain ⟨digit, small⟩ := digitChar_value (decimal d (by simp))
    rw [Nat.ofDigitChars_append, Nat.ofDigitChars_cons]
    show Nat.toDigits 10 (10 * Nat.ofDigitChars 10 init 0 + (d.toNat - '0'.toNat)) = _
    by_cases empty : init = []
    · subst empty
      show Nat.toDigits 10 (10 * 0 + (d.toNat - '0'.toNat)) = [d]
      rw [Nat.mul_zero, Nat.zero_add, Nat.toDigits_of_lt_base small, digit]
    · have leading : init.head? ≠ some '0' := by
        intro zero
        have all := canonical (by rw [List.head?_append_of_ne_nil _ empty, zero])
        cases init with
        | nil => exact empty rfl
        | cons c init => simp at all
      have written := ih empty (fun c there => decimal c (by simp [there]))
        fun zero => absurd zero leading
      have positive : 0 < Nat.ofDigitChars 10 init 0 := by
        refine Nat.pos_of_ne_zero fun zero => leading ?_
        rw [← written, zero]
        rfl
      rw [← Nat.toDigits_append_toDigits (by decide) positive small, written,
        Nat.toDigits_of_lt_base small, digit]

theorem toDigits_value_iff (some_ : ds ≠ []) (decimal : ∀ c ∈ ds, c.isDigit = true) :
    Nat.toDigits 10 (Nat.ofDigitChars 10 ds 0) = ds ↔ Canonical ds := by
  constructor
  · intro written
    rw [← written]
    exact toDigits_canonical _
  · exact toDigits_value some_ decimal

/-! ## Fixed width -/

/-- The digits of a number, `width` of them, the most significant first. -/
def digits (base width n : Nat) : List Nat :=
  (List.range width).map fun i => n / base ^ (width - 1 - i) % base

/-- The number some digits stand for. -/
def value (base : Nat) (ds : List Nat) : Nat := ds.foldl (fun n d => base * n + d) 0

theorem digits_succ (base width n : Nat) :
    digits base (width + 1) n = digits base width (n / base) ++ [n % base] := by
  rw [digits, digits, List.range_succ, List.map_append]
  congr 1
  · refine List.map_congr_left fun i there => ?_
    have inside : i < width := List.mem_range.mp there
    have exponent : width + 1 - 1 - i = (width - 1 - i) + 1 := by omega
    rw [exponent, Nat.pow_succ', ← Nat.div_div_eq_div_mul]
  · simp

theorem value_digits (base width n : Nat) : value base (digits base width n) = n % base ^ width := by
  induction width generalizing n with
  | zero => simp [digits, value, Nat.mod_one]
  | succ width ih =>
    have last : value base (digits base (width + 1) n) =
        base * value base (digits base width (n / base)) + n % base := by
      rw [digits_succ, value, List.foldl_append]
      rfl
    rw [last, ih, Nat.pow_succ', Nat.mod_mul, Nat.add_comm]

/-- Of two words of one length, what follows does not matter. -/
theorem append_lt_of_lt {xs ys zs ws : List Nat} (same : xs.length = ys.length) (less : xs < ys) :
    xs ++ zs < ys ++ ws := by
  induction xs generalizing ys with
  | nil =>
    obtain rfl := List.length_eq_zero_iff.mp same.symm
    exact absurd less (List.not_lt_nil _)
  | cons x xs ih =>
    cases ys with
    | nil => exact absurd less (List.not_lt_nil _)
    | cons y ys =>
      rw [List.cons_append, List.cons_append, List.cons_lt_cons_iff]
      rcases List.cons_lt_cons_iff.mp less with first | ⟨rfl, rest⟩
      · exact .inl first
      · exact .inr ⟨rfl, ih (Nat.succ.inj same) rest⟩

theorem length_digits (base width n : Nat) : (digits base width n).length = width := by
  simp [digits]

/-- Numerals of one width are ordered as their numbers. -/
theorem digits_lt_digits (small : b < base ^ width) (less : a < b) :
    digits base width a < digits base width b := by
  induction width generalizing a b with
  | zero =>
    rw [Nat.pow_zero] at small
    omega
  | succ width ih =>
    rw [digits_succ, digits_succ]
    rw [Nat.pow_succ'] at small
    rcases Nat.lt_or_ge (a / base) (b / base) with high | low
    · exact append_lt_of_lt (by rw [length_digits, length_digits])
        (ih (Nat.div_lt_of_lt_mul small) high)
    · have high : a / base = b / base := le_antisymm (Nat.div_le_div_right less.le) low
      have last : a % base < b % base := by
        have onA := Nat.div_add_mod a base
        have onB := Nat.div_add_mod b base
        rw [high] at onA
        omega
      rw [high, Scan.append_lt_append_iff]
      exact List.cons_lt_cons_iff.mpr (.inl last)

theorem digits_le_digits (smallA : a < base ^ width) (smallB : b < base ^ width) :
    digits base width a ≤ digits base width b ↔ a ≤ b := by
  constructor
  · intro le
    by_contra more
    exact absurd (digits_lt_digits smallA (not_le.mp more)) (not_lt.mpr le)
  · intro le
    rcases Nat.lt_or_eq_of_le le with less | rfl
    · exact (digits_lt_digits smallB less).le
    · exact le_rfl

end Numerals
