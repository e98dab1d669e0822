import ElixirReader.Decimal.Numeral
import ElixirReader.Proofs.Term.Texts
import Mathlib.Algebra.Order.Field.Power
import Mathlib.Algebra.Order.Ring.Rat
import Mathlib.Tactic.Linarith
import Mathlib.Tactic.NormNum

/-
  This file says what it is to write a decimal: digits on both
  sides of a point, and perhaps a power of ten behind them. It
  shows that such a text is read in one way only, how far the
  digits of a number reach to both sides, and that no text of
  an exponent is shorter than the one that is written.

  Key definitions include:
    * `IsDigits`
    * `DecimalText`
    * `DecimalText.chars`
    * `DecimalText.value`
    * `DecimalText.IsPlain`
    * `DecimalText.IsScientific`

  Main declarations:
    * `Numeral.unit_le_of_getLast?`
    * `Numeral.length_add_unit_le_of_head?`
    * `Numeral.exponent?_integerText`
    * `Numeral.length_integerText_lt`
    * `DecimalText.chars_inj`
-/

namespace ElixirReader

/- A text of decimal digits, of which there is one at least. -/
def IsDigits
    (cs : List Char) : Prop :=
  cs ≠ [] ∧ ∀ c ∈ cs, c.isDigit = true

instance
    (cs : List Char) :
    Decidable (IsDigits cs) :=
  decidable_of_iff (cs ≠ [] ∧ cs.all Char.isDigit = true)
    (and_congr_right fun _ => List.all_eq_true)

------------------------------------------------------------
-- Numbers of digits
------------------------------------------------------------

namespace Numeral

variable {c : Char}
variable {cs : List Char}

theorem digit_bounds
    (hDigit : c.isDigit = true) :
    c.toNat - '0'.toNat < 10 ∧
      (c ≠ '0' → 0 < c.toNat - '0'.toNat) := by
  have hRange := toNat_of_isDigit hDigit
  have hZero : '0'.toNat = 48 := rfl
  refine ⟨by omega, fun hOther => ?_⟩
  have hNot : c.toNat ≠ '0'.toNat :=
    fun hSame => hOther (Char.toNat_inj.mp hSame)
  omega

theorem digitsNumber_append
    (cs ds : List Char) :
    digitsNumber (cs ++ ds) =
      digitsNumber cs * 10 ^ ds.length + digitsNumber ds := by
  simp only [digitsNumber, ← Nat.ofDigitChars_eq_foldl,
    Nat.ofDigitChars_append]
  rw [Nat.ofDigitChars_eq_ofDigitChars_zero, Nat.mul_comm]

theorem digitsNumber_singleton
    (c : Char) :
    digitsNumber [c] = c.toNat - '0'.toNat := by
  simp [digitsNumber]

theorem digitsNumber_cons
    (c : Char)
    (cs : List Char) :
    digitsNumber (c :: cs) =
      (c.toNat - '0'.toNat) * 10 ^ cs.length
        + digitsNumber cs := by
  rw [← digitsNumber_singleton, ← digitsNumber_append]
  rfl

theorem digitsNumber_zeros
    (n : Nat) :
    digitsNumber (Decimal.zeros n) = 0 := by
  rw [Decimal.zeros, digitsNumber, ← Nat.ofDigitChars_eq_foldl,
    Nat.ofDigitChars_replicate_zero, Nat.mul_zero]

theorem digitsNumber_decimalDigits
    (n : Nat) :
    digitsNumber (decimalDigits n) = n := by
  rw [digitsNumber, ← Nat.ofDigitChars_eq_foldl]
  exact Nat.ofDigitChars_ten_toDigits

theorem digitsNumber_lt
    (hDigits : ∀ c ∈ cs, c.isDigit = true) :
    digitsNumber cs < 10 ^ cs.length := by
  induction cs with
  | nil => decide
  | cons c cs ih =>
      have hRest : digitsNumber cs < 10 ^ cs.length :=
        ih fun d hMember => hDigits d (List.mem_cons_of_mem c hMember)
      have hDigit : c.toNat - '0'.toNat < 10 :=
        (digit_bounds (hDigits c List.mem_cons_self)).1
      rw [digitsNumber_cons, List.length_cons, Nat.pow_succ]
      nlinarith

/- Digits without a zero in front of them. -/
theorem pow_le_digitsNumber
    (hDigits : IsDigits cs)
    (hFront : cs.head? ≠ some '0') :
    10 ^ (cs.length - 1) ≤ digitsNumber cs := by
  cases cs with
  | nil => exact absurd rfl hDigits.1
  | cons c cs =>
      have hFirst : 0 < c.toNat - '0'.toNat :=
        (digit_bounds (hDigits.2 c List.mem_cons_self)).2
          fun hZero => hFront (congrArg some hZero)
      rw [digitsNumber_cons]
      exact Nat.le_add_right_of_le (Nat.le_mul_of_pos_left _ hFirst)

/- Digits without a zero behind them. -/
theorem not_dvd_digitsNumber
    (hDigits : IsDigits cs)
    (hBack : cs.getLast? ≠ some '0') :
    ¬ 10 ∣ digitsNumber cs := by
  rcases List.eq_nil_or_concat' cs with rfl | ⟨ds, c, rfl⟩
  · exact absurd rfl hDigits.1
  · have hBounds := digit_bounds (hDigits.2 c (by simp))
    have hLast : 0 < c.toNat - '0'.toNat :=
      hBounds.2 fun hZero => hBack (by simp [hZero])
    rw [digitsNumber_append, digitsNumber_singleton,
      List.length_singleton]
    omega

/- No digits of a number are fewer than its decimal digits. -/
theorem length_decimalDigits_le
    (hDigits : IsDigits cs) :
    (decimalDigits (digitsNumber cs)).length ≤ cs.length :=
  (Nat.length_toDigits_le_iff (by decide)
    (List.length_pos_of_ne_nil hDigits.1)).mpr
      (digitsNumber_lt hDigits.2)

------------------------------------------------------------
-- Digits that are counted in units
------------------------------------------------------------

section Units

variable {ds : List Char}
variable {i j : Int}

/-
  The unit of digits without a zero behind them is the largest
  one in which their number can be counted.
-/
theorem unit_le_of_getLast?
    (hDigits : IsDigits ds)
    (hBack : ds.getLast? ≠ some '0')
    (hEq :
      (digitsNumber cs : ℚ) * 10 ^ i = digitsNumber ds * 10 ^ j) :
    i ≤ j := by
  -- In a larger unit, the number would be a multiple of ten.
  by_contra hLess
  obtain ⟨k, rfl⟩ : ∃ k : Nat, i = j + (k + 1 : Nat) :=
    ⟨(i - j - 1).toNat, by omega⟩
  have hUnit : (10 : ℚ) ^ j ≠ 0 := zpow_ne_zero j (by norm_num)
  rw [zpow_add₀ (by norm_num), zpow_natCast, mul_left_comm,
    mul_comm (digitsNumber ds : ℚ)] at hEq
  have hNumber : digitsNumber cs * 10 ^ (k + 1) = digitsNumber ds := by
    exact_mod_cast mul_left_cancel₀ hUnit hEq
  apply not_dvd_digitsNumber hDigits hBack
  rw [← hNumber]
  exact Dvd.dvd.mul_left (dvd_pow_self 10 k.succ_ne_zero) _

/-
  Digits without a zero in front of them do not reach farther
  to the front than any other digits of the same number.
-/
theorem length_add_unit_le_of_head?
    (hAll : ∀ c ∈ cs, c.isDigit = true)
    (hDigits : IsDigits ds)
    (hFront : ds.head? ≠ some '0')
    (hEq :
      (digitsNumber cs : ℚ) * 10 ^ i = digitsNumber ds * 10 ^ j) :
    ds.length + j ≤ cs.length + i := by
  have hTen : (0 : ℚ) < 10 := by norm_num
  have hLow : (10 : ℚ) ^ (ds.length - 1) ≤ digitsNumber ds := by
    exact_mod_cast pow_le_digitsNumber hDigits hFront
  have hHigh : (digitsNumber cs : ℚ) < 10 ^ cs.length := by
    exact_mod_cast digitsNumber_lt hAll
  have hPowers :
      (10 : ℚ) ^ ((ds.length - 1 : Nat) + j) <
        10 ^ (cs.length + i) :=
    calc (10 : ℚ) ^ ((ds.length - 1 : Nat) + j)
        = 10 ^ (ds.length - 1) * 10 ^ j := by
          rw [zpow_add₀ hTen.ne', zpow_natCast]
      _ ≤ digitsNumber ds * 10 ^ j :=
          mul_le_mul_of_nonneg_right hLow (zpow_pos hTen j).le
      _ = digitsNumber cs * 10 ^ i := hEq.symm
      _ < 10 ^ cs.length * 10 ^ i :=
          mul_lt_mul_of_pos_right hHigh (zpow_pos hTen i)
      _ = 10 ^ (cs.length + i) := by
          rw [zpow_add₀ hTen.ne', zpow_natCast]
  have hLess := (zpow_lt_zpow_iff_right₀ (by norm_num)).mp hPowers
  have hLength : 0 < ds.length :=
    List.length_pos_of_ne_nil hDigits.1
  omega

end Units

------------------------------------------------------------
-- Powers of ten
------------------------------------------------------------

theorem isDigits_decimalDigits
    (n : Nat) :
    IsDigits (decimalDigits n) :=
  ⟨Nat.toDigits_ne_nil, fun _ => isDigit_of_mem_decimalDigits⟩

/- An exponent that is written is read as what it is. -/
theorem exponent?_integerText
    (i : Int) :
    exponent? ('e' :: integerText i) = some i := by
  have hDigits := isDigits_decimalDigits i.natAbs
  have hRead : ∀ negative : Bool,
      exponentDigits? negative (decimalDigits i.natAbs) =
        some (if negative then -(i.natAbs : Int) else i.natAbs) := by
    intro negative
    rw [exponentDigits?, digitsNumber_decimalDigits]
    exact if_pos ⟨hDigits.1, List.all_eq_true.mpr hDigits.2⟩
  rw [exponent?, if_pos (Or.inl rfl), integerText]
  by_cases hNegative : i < 0
  · rw [if_pos hNegative]
    refine (hRead true).trans (congrArg some ?_)
    rw [if_pos rfl]
    omega
  · rw [if_neg hNegative]
    obtain ⟨c, cs, hList, hDigit⟩ := exists_decimalDigits i.natAbs
    have hSign :
        splitSign (decimalDigits i.natAbs) =
          (false, decimalDigits i.natAbs) := by
      rw [hList]
      unfold splitSign
      split
      · rename_i hMinus
        rw [(List.cons.inj hMinus).1] at hDigit
        cases hDigit
      · rename_i hPlus
        rw [(List.cons.inj hPlus).1] at hDigit
        cases hDigit
      · rfl
    rw [hSign]
    refine (hRead false).trans (congrArg some ?_)
    rw [if_neg Bool.false_ne_true]
    omega

theorem length_splitSign
    (cs : List Char) :
    (splitSign cs).2.length + (splitSign cs).1.toNat ≤
      cs.length := by
  unfold splitSign
  split <;> simp

variable {exponent : Int}

/- An exponent is read behind its mark, from digits. -/
theorem exponent?_cons_eq_some
    (hExponent : exponent? (c :: cs) = some exponent) :
    (c = 'e' ∨ c = 'E') ∧ IsDigits (splitSign cs).2 ∧
      exponent =
        if (splitSign cs).1 then
          -(digitsNumber (splitSign cs).2 : Int)
        else
          digitsNumber (splitSign cs).2 := by
  rw [exponent?, exponentDigits?] at hExponent
  split at hExponent
  · rename_i hMark
    split at hExponent
    · rename_i hDigits
      exact ⟨hMark, ⟨hDigits.1, List.all_eq_true.mp hDigits.2⟩,
        (Option.some.inj hExponent).symm⟩
    · cases hExponent
  · cases hExponent

theorem isDigit_head?_of_exponent?
    (hExponent : exponent? cs = some exponent) :
    ∀ c ∈ cs.head?, c.isDigit = false := by
  intro c hHead
  cases cs with
  | nil => cases hHead
  | cons d ds =>
      cases hHead
      rcases (exponent?_cons_eq_some hExponent).1 with rfl | rfl <;>
        rfl

theorem length_integerText
    (i : Int) :
    (integerText i).length =
      (decimalDigits i.natAbs).length + (decide (i < 0)).toNat := by
  unfold integerText
  by_cases hNegative : i < 0 <;> simp [hNegative]

/- What is written of an exponent is the shortest text of it. -/
theorem length_integerText_lt
    (hExponent : exponent? cs = some exponent)
    (hPower : cs ≠ []) :
    (integerText exponent).length < cs.length := by
  cases cs with
  | nil => exact absurd rfl hPower
  | cons c cs =>
      obtain ⟨_, hDigits, hValue⟩ :=
        exponent?_cons_eq_some hExponent
      have hLength := length_decimalDigits_le hDigits
      have hSign := length_splitSign cs
      have hAbs :
          exponent.natAbs = digitsNumber (splitSign cs).2 := by
        rw [hValue]
        split <;> simp
      have hNegative :
          (decide (exponent < 0)).toNat ≤
            (splitSign cs).1.toNat := by
        cases hMinus : (splitSign cs).1 with
        | true => exact Bool.toNat_le _
        | false => simp [hValue, hMinus]
      rw [length_integerText, hAbs, List.length_cons]
      omega

end Numeral

------------------------------------------------------------
-- Decimals as they are written
------------------------------------------------------------

/-
  A decimal as it is written: digits in front of a point,
  digits behind it, and a power of ten behind those. There is
  no power if its text is empty.
-/
structure DecimalText where
  whole : List Char
  fraction : List Char
  power : List Char
  exponent : Int
  isDigits_whole : IsDigits whole
  isDigits_fraction : IsDigits fraction
  exponent?_power : Numeral.exponent? power = some exponent

namespace DecimalText

open Numeral

def chars
    (w : DecimalText) : List Char :=
  w.whole ++ '.' :: (w.fraction ++ w.power)

/- The number that is denoted. -/
def value
    (w : DecimalText) : ℚ :=
  digitsNumber (w.whole ++ w.fraction) / 10 ^ w.fraction.length
    * 10 ^ w.exponent

def IsPlain
    (w : DecimalText) : Prop :=
  w.power = []

/- A power of ten, and a single digit in front of the point. -/
def IsScientific
    (w : DecimalText) : Prop :=
  w.power ≠ [] ∧ w.whole.length = 1

variable {w v : DecimalText}

/- A text can be read in one way only. -/
theorem chars_inj
    (hChars : w.chars = v.chars) :
    w = v := by
  have hPoint : ∀ cs : List Char,
      ∀ c ∈ ('.' :: cs).head?, c.isDigit = false := by
    intro cs c hHead
    cases hHead
    rfl
  obtain ⟨hWhole, hRest⟩ :=
    append_inj_of_all w.isDigits_whole.2 v.isDigits_whole.2
      (hPoint _) (hPoint _) hChars
  obtain ⟨hFraction, hPower⟩ :=
    append_inj_of_all w.isDigits_fraction.2 v.isDigits_fraction.2
      (isDigit_head?_of_exponent? w.exponent?_power)
      (isDigit_head?_of_exponent? v.exponent?_power)
      (List.cons.inj hRest).2
  have hExponent : some w.exponent = some v.exponent := by
    rw [← w.exponent?_power, hPower, v.exponent?_power]
  cases w
  cases v
  cases hWhole
  cases hFraction
  cases hPower
  cases hExponent
  rfl

theorem isDigits_append
    (w : DecimalText) :
    IsDigits (w.whole ++ w.fraction) := by
  refine ⟨by simp [w.isDigits_whole.1], fun c hMember => ?_⟩
  rcases List.mem_append.mp hMember with hWhole | hFraction
  · exact w.isDigits_whole.2 c hWhole
  · exact w.isDigits_fraction.2 c hFraction

theorem length_chars
    (w : DecimalText) :
    w.chars.length =
      w.whole.length + 1 + w.fraction.length + w.power.length := by
  simp only [chars, List.length_append, List.length_cons]
  omega

end DecimalText

end ElixirReader
