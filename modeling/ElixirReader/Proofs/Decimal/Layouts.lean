import ElixirReader.Proofs.Decimal.Texts
import Mathlib.Tactic.Ring

/-
  This file shows that a decimal is written with its value, in
  the shorter one of two forms: with as many zeros as it takes
  to reach the point, or with a power of ten. Costs are added
  up to choose one; they are the lengths of both forms. If the
  decimal has no zeros to spare, then no text in one of these
  forms is shorter that denotes the same number.

  Key definitions include:
    * `Decimal.value`
    * `Decimal.IsCanonical`

  Main declarations:
    * `Decimal.exists_parts_plain`
    * `Decimal.exists_plain`
    * `Decimal.exists_scientific`
    * `Decimal.isPlain_iff`
    * `Decimal.length_plain_le`
    * `Decimal.length_scientific_le`
    * `Decimal.layout_shortest`
-/

namespace ElixirReader

open Numeral

variable {d : Decimal}
variable {w : DecimalText}

------------------------------------------------------------
-- Values
------------------------------------------------------------

namespace Decimal

/- The digits behind `0.`, times ten to the power of the place. -/
def value
    (d : Decimal) : ℚ :=
  digitsNumber d.digits / 10 ^ d.digits.length * 10 ^ d.place

/-
  A decimal with no zeros in front of its digits and none
  behind them. Zero itself is one digit in front of the point.
-/
def IsCanonical
    (d : Decimal) : Prop :=
  d = ⟨['0'], 1⟩ ∨
    d.digits.head? ≠ some '0' ∧ d.digits.getLast? ≠ some '0'

instance
    (d : Decimal) :
    Decidable d.IsCanonical :=
  inferInstanceAs (Decidable (_ ∨ _))

end Decimal

theorem div_pow_mul_zpow
    (n k : Nat)
    (i : Int) :
    (n : ℚ) / 10 ^ k * 10 ^ i = n * 10 ^ (i - k) := by
  rw [zpow_sub₀ (by norm_num), zpow_natCast]
  ring

theorem Decimal.value_eq
    (d : Decimal) :
    d.value =
      digitsNumber d.digits * 10 ^ (d.place - d.digits.length) :=
  div_pow_mul_zpow _ _ _

theorem DecimalText.value_eq
    (w : DecimalText) :
    w.value =
      digitsNumber (w.whole ++ w.fraction)
        * 10 ^ (w.exponent - w.fraction.length) :=
  div_pow_mul_zpow _ _ _

------------------------------------------------------------
-- Both forms
------------------------------------------------------------

namespace Decimal

/-
  Any form of a decimal is its digits between zeros, with the
  point among them. The value depends on how many zeros there
  are behind the digits, and on where the point is.
-/
theorem exists_text
    {whole fraction power : List Char}
    {exponent : Int}
    {front back : Nat}
    (hDigits : IsDigits d.digits)
    (hWhole : whole ≠ [])
    (hFraction : fraction ≠ [])
    (hPower : exponent? power = some exponent)
    (hParts :
      whole ++ fraction = zeros front ++ d.digits ++ zeros back)
    (hPlace :
      exponent - fraction.length + back =
        d.place - d.digits.length) :
    ∃ w : DecimalText,
      w.chars = whole ++ '.' :: (fraction ++ power) ∧
        w.whole = whole ∧ w.power = power ∧ w.value = d.value := by
  have hAll : ∀ c ∈ whole ++ fraction, c.isDigit = true := by
    intro c hMember
    rw [hParts, List.mem_append, List.mem_append] at hMember
    rcases hMember with (hZero | hDigit) | hZero
    · rw [List.eq_of_mem_replicate hZero]
      rfl
    · exact hDigits.2 c hDigit
    · rw [List.eq_of_mem_replicate hZero]
      rfl
  have hLeft : IsDigits whole :=
    ⟨hWhole, fun c hMember => hAll c (List.mem_append_left _ hMember)⟩
  have hRight : IsDigits fraction :=
    ⟨hFraction,
      fun c hMember => hAll c (List.mem_append_right _ hMember)⟩
  refine ⟨⟨whole, fraction, power, exponent, hLeft, hRight, hPower⟩,
    rfl, rfl, rfl, ?_⟩
  rw [DecimalText.value_eq, value_eq, hParts, digitsNumber_append,
    digitsNumber_append, digitsNumber_zeros, digitsNumber_zeros,
    ← hPlace, zpow_add₀ (by norm_num), zpow_natCast, zeros,
    List.length_replicate]
  push_cast
  ring

/-
  Without a power, the point stands at its place in front of
  the digits, among them or behind them, and zeros fill what is
  between. There is a digit on either side of it.
-/
theorem exists_parts_plain
    (hDigits : d.digits ≠ []) :
    ∃ (whole fraction : List Char) (front back : Nat),
      d.plain = whole ++ '.' :: fraction ∧
        whole ++ fraction =
          zeros front ++ d.digits ++ zeros back ∧
        (whole.length : Int) = max 1 d.place ∧
        (fraction.length : Int) =
          max 1 (d.digits.length - d.place) ∧
        0 - (fraction.length : Int) + back =
          d.place - d.digits.length := by
  have hLength : 0 < d.digits.length :=
    List.length_pos_of_ne_nil hDigits
  unfold plain
  split
  case isTrue hPlace =>
    -- All digits are behind the point.
    refine ⟨['0'], zeros (-d.place).toNat ++ d.digits,
      (-d.place).toNat + 1, 0, rfl, ?_, ?_⟩
    · simp [zeros, List.replicate_succ]
    · simp only [zeros, List.length_append, List.length_replicate,
        List.length_singleton]
      omega
  case isFalse hPlace =>
    split
    case isTrue hInside =>
      -- The point is among the digits.
      refine ⟨d.digits.take d.place.toNat,
        d.digits.drop d.place.toNat, 0, 0, ?_, ?_, ?_⟩
      · exact List.append_assoc _ _ _
      · simp [zeros]
      · simp only [List.length_take, List.length_drop]
        omega
    case isFalse hBehind =>
      -- All digits are in front of the point.
      refine ⟨d.digits ++ zeros (d.place - d.digits.length).toNat,
        ['0'], 0, (d.place - d.digits.length).toNat + 1, rfl,
        ?_, ?_⟩
      · simp [zeros, List.replicate_succ']
      · simp only [zeros, List.length_append, List.length_replicate,
          List.length_singleton]
        omega

/- The form without a power has the value of the decimal. -/
theorem exists_plain
    (hDigits : IsDigits d.digits) :
    ∃ w : DecimalText,
      w.chars = d.plain ∧ w.IsPlain ∧ w.value = d.value := by
  obtain ⟨whole, fraction, front, back, hPlain, hParts, hWhole,
    hFraction, hPlace⟩ := exists_parts_plain hDigits.1
  have hNone : exponent? [] = some 0 := rfl
  obtain ⟨w, hChars, _, hPower, hValue⟩ :=
    exists_text hDigits (List.ne_nil_of_length_pos (by omega))
      (List.ne_nil_of_length_pos (by omega)) hNone hParts hPlace
  refine ⟨w, ?_, hPower, hValue⟩
  rw [hChars, hPlain, List.append_nil]

/- The form with a power has the value of the decimal, too. -/
theorem exists_scientific
    (hDigits : IsDigits d.digits) :
    ∃ w : DecimalText,
      w.chars = d.scientific ∧ w.IsScientific ∧
        w.value = d.value := by
  have hLength : 0 < d.digits.length :=
    List.length_pos_of_ne_nil hDigits.1
  have hForm :
      ∃ back,
        d.fraction ≠ [] ∧
          d.digits.take 1 ++ d.fraction =
            zeros 0 ++ d.digits ++ zeros back ∧
              d.place - 1 - (d.fraction.length : Int) + (back : Nat) =
                d.place - d.digits.length := by
    unfold fraction
    split
    · rename_i hOne
      refine ⟨1, by simp, ?_, ?_⟩
      · rw [List.take_of_length_le hOne]
        rfl
      · rw [List.length_singleton]
        omega
    · refine ⟨0, ?_, by simp [zeros, -List.drop_one], ?_⟩
      · apply List.ne_nil_of_length_pos
        rw [List.length_drop]
        omega
      · rw [List.length_drop]
        omega
  obtain ⟨back, hFraction, hParts, hPlace⟩ := hForm
  obtain ⟨w, hChars, hWhole, hPower, hValue⟩ :=
    exists_text hDigits (by simp [hDigits.1]) hFraction
      (exponent?_integerText (d.place - 1)) hParts hPlace
  refine ⟨w, ?_, ⟨by simp [hPower], ?_⟩, hValue⟩
  · simp [hChars, scientific]
  · rw [hWhole, List.length_take]
    omega

------------------------------------------------------------
-- Lengths
------------------------------------------------------------

theorem length_plain
    (hDigits : d.digits ≠ []) :
    (d.plain.length : Int) =
      max 1 d.place + 1 + max 1 (d.digits.length - d.place) := by
  obtain ⟨whole, fraction, front, back, hPlain, _, hWhole,
    hFraction, _⟩ := exists_parts_plain hDigits
  rw [hPlain, List.length_append, List.length_cons]
  omega

/- The cost of a power is what it adds to the digits. -/
theorem length_scientific
    (hDigits : d.digits ≠ []) :
    d.scientific.length = d.digits.length + d.powerCost := by
  have hLength : 0 < d.digits.length :=
    List.length_pos_of_ne_nil hDigits
  unfold scientific fraction powerCost
  simp only [List.length_append, List.length_take,
    List.length_singleton]
  by_cases hOne : d.digits.length = 1
  · rw [if_pos hOne.le, if_pos hOne, List.length_singleton]
    omega
  · rw [if_neg (by omega), if_neg hOne, List.length_drop]
    omega

theorem two_lt_powerCost
    (d : Decimal) :
    2 < d.powerCost := by
  have hLength : 0 < (decimalDigits (d.place - 1).natAbs).length :=
    Nat.length_toDigits_pos
  unfold powerCost
  rw [length_integerText]
  split <;> omega

/-
  The costs decide for the shorter form. Of two forms of one
  length a decimal below a tenth takes the power of ten, and
  all others do without it.
-/
theorem isPlain_iff
    (hDigits : d.digits ≠ []) :
    d.isPlain = true ↔
      d.plain.length < d.scientific.length ∨
        0 ≤ d.place ∧ d.plain.length = d.scientific.length := by
  have hLength : 0 < d.digits.length :=
    List.length_pos_of_ne_nil hDigits
  have hPlain := length_plain hDigits
  have hScientific := length_scientific hDigits
  have hCost := two_lt_powerCost d
  unfold isPlain
  split
  · rw [decide_eq_true_iff]
    omega
  · split
    · simp only [true_iff]
      omega
    · rw [decide_eq_true_iff]
      omega

/- Two forms of one length, above one and below a tenth. -/
example :
    layout ⟨['1'], 3⟩ = "100.0".toList ∧
      layout ⟨['1'], -3⟩ = "1.0e-4".toList := by
  decide

theorem length_layout_le
    (hDigits : d.digits ≠ []) :
    d.layout.length ≤ d.plain.length ∧
      d.layout.length ≤ d.scientific.length := by
  have hChoice := isPlain_iff hDigits
  unfold layout
  split
  · rename_i hPlain
    rw [hPlain] at hChoice
    have hShorter := hChoice.mp rfl
    omega
  · rename_i hPlain
    have hLonger := mt hChoice.mpr hPlain
    omega

end Decimal

------------------------------------------------------------
-- Texts of one value
------------------------------------------------------------

section Value

variable (hDigits : IsDigits d.digits)
variable (hValue : w.value = d.value)

include hDigits hValue

/- Digits behind the point cannot be left out of any text. -/
theorem DecimalText.exponent_sub_length_le
    (hBack : d.digits.getLast? ≠ some '0') :
    w.exponent - w.fraction.length ≤ d.place - d.digits.length := by
  rw [w.value_eq, d.value_eq] at hValue
  exact unit_le_of_getLast? hDigits hBack hValue

/- Nor can those in front of it. -/
theorem DecimalText.place_le
    (hFront : d.digits.head? ≠ some '0') :
    d.place ≤ w.whole.length + w.exponent := by
  rw [w.value_eq, d.value_eq] at hValue
  have hReach :=
    length_add_unit_le_of_head? w.isDigits_append.2 hDigits hFront
      hValue
  rw [List.length_append] at hReach
  omega

theorem DecimalText.length_add_exponent_le
    (hFront : w.whole.head? ≠ some '0') :
    w.whole.length + w.exponent ≤ d.place := by
  rw [w.value_eq, d.value_eq] at hValue
  have hHead : (w.whole ++ w.fraction).head? ≠ some '0' := by
    rwa [List.head?_append_of_ne_nil _ w.isDigits_whole.1]
  have hReach :=
    length_add_unit_le_of_head? hDigits.2 w.isDigits_append hHead
      hValue.symm
  rw [List.length_append] at hReach
  omega

end Value

namespace Decimal

section Shortest

variable (hDigits : IsDigits d.digits)
variable (hFront : d.digits.head? ≠ some '0')
variable (hBack : d.digits.getLast? ≠ some '0')
variable (hValue : w.value = d.value)

include hDigits hFront hBack hValue

theorem length_plain_le
    (hPlain : w.IsPlain) :
    d.plain.length ≤ w.chars.length := by
  have hExponent : w.exponent = 0 := by
    have hPower := w.exponent?_power
    rw [hPlain] at hPower
    exact (Option.some.inj hPower).symm
  have hForm := length_plain hDigits.1
  have hBehind :=
    DecimalText.exponent_sub_length_le hDigits hValue hBack
  have hAhead := DecimalText.place_le hDigits hValue hFront
  have hWhole := List.length_pos_of_ne_nil w.isDigits_whole.1
  have hFraction := List.length_pos_of_ne_nil w.isDigits_fraction.1
  rw [w.length_chars]
  omega

theorem length_scientific_le
    (hScientific : w.IsScientific)
    (hOther : w.whole.head? ≠ some '0') :
    d.scientific.length ≤ w.chars.length := by
  have hBehind :=
    DecimalText.exponent_sub_length_le hDigits hValue hBack
  have hAhead := DecimalText.place_le hDigits hValue hFront
  have hReach :=
    DecimalText.length_add_exponent_le hDigits hValue hOther
  have hOne := hScientific.2
  -- The first digits are at the same place, so the power is known.
  have hExponent : w.exponent = d.place - 1 := by omega
  have hPower :=
    length_integerText_lt w.exponent?_power hScientific.1
  have hFraction := List.length_pos_of_ne_nil w.isDigits_fraction.1
  rw [hExponent] at hPower
  rw [length_scientific hDigits.1, powerCost, w.length_chars]
  split <;> omega

end Shortest

/-
  A decimal is written with digits on both sides of a point,
  and with its value, however it is read. The text is as short
  as the shorter one of the form without a power of ten and the
  form with one. If the decimal has no zeros to spare, then no
  text of its value is shorter that has no power of ten, or has
  one behind a single digit other than zero.
-/
theorem layout_shortest
    (d : Decimal)
    (hDigits : IsDigits d.digits) :
    (∃ w : DecimalText, w.chars = d.layout) ∧
      (∀ w : DecimalText, w.chars = d.layout →
        w.value = d.value) ∧
      ((∃ w : DecimalText,
          w.chars = d.plain ∧ w.IsPlain ∧ w.value = d.value) ∧
        d.layout.length ≤ d.plain.length) ∧
      ((∃ w : DecimalText,
          w.chars = d.scientific ∧ w.IsScientific ∧
            w.value = d.value) ∧
        d.layout.length ≤ d.scientific.length) ∧
      (d.IsCanonical →
        ∀ w : DecimalText, w.value = d.value →
          w.IsPlain ∨ w.IsScientific ∧ w.whole ≠ ['0'] →
            d.layout.length ≤ w.chars.length) := by
  have hPlain := exists_plain hDigits
  have hScientific := exists_scientific hDigits
  obtain ⟨hShortPlain, hShortScientific⟩ :=
    length_layout_le hDigits.1
  have hLayout :
      ∃ w : DecimalText,
        w.chars = d.layout ∧ w.value = d.value := by
    unfold layout
    split
    · obtain ⟨w, hChars, _, hValue⟩ := hPlain
      exact ⟨w, hChars, hValue⟩
    · obtain ⟨w, hChars, _, hValue⟩ := hScientific
      exact ⟨w, hChars, hValue⟩
  obtain ⟨v, hChars, hValue⟩ := hLayout
  refine ⟨⟨v, hChars⟩, ?_, ⟨hPlain, hShortPlain⟩,
    ⟨hScientific, hShortScientific⟩, ?_⟩
  · intro w hSame
    rw [DecimalText.chars_inj (hSame.trans hChars.symm), hValue]
  · rintro hCanonical w hEqual hForm
    rcases hCanonical with rfl | ⟨hFront, hBack⟩
    · -- Zero has three characters, and no text has fewer.
      have hThree : (layout ⟨['0'], 1⟩).length = 3 := by decide
      have hWhole := List.length_pos_of_ne_nil w.isDigits_whole.1
      have hFraction :=
        List.length_pos_of_ne_nil w.isDigits_fraction.1
      rw [hThree, w.length_chars]
      omega
    · rcases hForm with hForm | ⟨hForm, hOther⟩
      · exact hShortPlain.trans
          (length_plain_le hDigits hFront hBack hEqual hForm)
      · apply hShortScientific.trans
        apply length_scientific_le hDigits hFront hBack hEqual hForm
        obtain ⟨c, hOne⟩ := List.length_eq_one_iff.mp hForm.2
        rw [hOne] at hOther ⊢
        rintro hZero
        cases hZero
        exact hOther rfl

/- The six zeros behind this point cost more than a power. -/
theorem layout_shortest_small :
    IsDigits ['1', '5'] ∧ IsCanonical ⟨['1', '5'], -6⟩ ∧
      layout ⟨['1', '5'], -6⟩ = "1.5e-7".toList ∧
      (∃ w : DecimalText,
        w.chars = "1.5e-7".toList ∧ w.value = 15 / 10 ^ 8) ∧
      (∀ w : DecimalText, w.value = 15 / 10 ^ 8 →
        w.IsPlain ∨ w.IsScientific ∧ w.whole ≠ ['0'] →
          6 ≤ w.chars.length) := by
  have hDigits : IsDigits ['1', '5'] := by decide
  have hCanonical : IsCanonical ⟨['1', '5'], -6⟩ := by decide
  have hLayout : layout ⟨['1', '5'], -6⟩ = "1.5e-7".toList := by
    decide
  have hValue : value ⟨['1', '5'], -6⟩ = 15 / 10 ^ 8 := by
    have hNumber : digitsNumber ['1', '5'] = 15 := by decide
    norm_num [value, hNumber]
  obtain ⟨⟨w, hChars⟩, hValues, _, _, hLeast⟩ :=
    layout_shortest ⟨['1', '5'], -6⟩ hDigits
  refine ⟨hDigits, hCanonical, hLayout,
    ⟨w, hChars.trans hLayout, (hValues w hChars).trans hValue⟩,
    ?_⟩
  intro v hSame hForm
  have hLength := hLeast hCanonical v (hSame.trans hValue.symm) hForm
  rwa [hLayout] at hLength

end Decimal

end ElixirReader
