import Mathlib.Data.Nat.Digits.Defs
import ElixirReader.Decimal.Numeral
import ElixirReader.Lexer.Transition

/-
  This file says which texts are integers in a base, and which
  number such a text stands for: underscores count for nothing,
  and the digits that are left are those of the number in that
  base. It shows that the text without its underscores is read
  as that number.

  Key definitions include:
    * `Radix.base`
    * `digitValue`
    * `IsNumeral`
    * `numeralDigits`
    * `numeralValue`

  Main declarations:
    * `digitsFrom?_of_digitValue_lt`
    * `IsNumeral.integer?_eq`
-/

namespace ElixirReader

open Transition

variable {r : Radix}
variable {c : Char}
variable {w : List Char}

------------------------------------------------------------
-- Digits
------------------------------------------------------------

def Radix.base : Radix → Nat
| .decimal => 10
| .binary => 2
| .octal => 8
| .hexadecimal => 16

/- The digits of all bases in order, in both cases. -/
def smallDigits : List Char :=
  "0123456789abcdef".toList

def largeDigits : List Char :=
  "0123456789ABCDEF".toList

/- The place of a digit among all digits; others have none below. -/
def digitValue
    (c : Char) : Nat :=
  min (smallDigits.idxOf c) (largeDigits.idxOf c)

theorem mem_digits_of_digitValue_lt
    (hDigit : digitValue c < r.base) :
    c ∈ smallDigits ++ largeDigits := by
  have hBase : r.base ≤ 16 := by
    cases r <;> decide
  have hLess : digitValue c < 16 := Nat.lt_of_lt_of_le hDigit hBase
  rw [List.mem_append]
  rcases min_lt_iff.mp hLess with hSmall | hLarge
  · exact .inl (List.idxOf_lt_length_iff.mp hSmall)
  · exact .inr (List.idxOf_lt_length_iff.mp hLarge)

/- What the digits of a base are to those who read them. -/
theorem of_digitValue_lt
    (hDigit : digitValue c < r.base) :
    isDigitOf r c = true ∧ c ≠ '_' ∧
      Numeral.digitValue? c = some (digitValue c) := by
  have hAll : (smallDigits ++ largeDigits).all (fun d =>
      (digitValue d < r.base → isDigitOf r d = true) ∧ d ≠ '_' ∧
        Numeral.digitValue? d = some (digitValue d)) = true := by
    cases r <;> decide
  have hThis := of_decide_eq_true
    (List.all_eq_true.mp hAll c (mem_digits_of_digitValue_lt hDigit))
  exact ⟨hThis.1 hDigit, hThis.2⟩

------------------------------------------------------------
-- Integers
------------------------------------------------------------

/-
  A text of digits of a base and underscores, with a digit in
  it. Without a mark in front of it, it starts with a digit.
-/
structure IsNumeral
    (r : Radix)
    (w : List Char) : Prop where
  parts : ∀ c ∈ w, c = '_' ∨ digitValue c < r.base
  digit : ∃ c ∈ w, c ≠ '_'
  starts : r = .decimal → w.head? ≠ some '_'

instance
    (r : Radix)
    (w : List Char) :
    Decidable (IsNumeral r w) :=
  decidable_of_iff
    (w.all (fun c => c = '_' ∨ digitValue c < r.base) = true ∧
      w.any (fun c => c ≠ '_') = true ∧
        (r = .decimal → w.head? ≠ some '_'))
    (by
      simp only [List.all_eq_true, List.any_eq_true, decide_eq_true_iff]
      exact ⟨fun h => ⟨h.1, h.2.1, h.2.2⟩,
        fun h => ⟨h.parts, h.digit, h.starts⟩⟩)

def numeralDigits
    (w : List Char) : List Char :=
  w.filter (· != '_')

/- The number whose digits a text has, the last one the least. -/
def numeralValue
    (r : Radix)
    (w : List Char) : Nat :=
  Nat.ofDigits r.base ((numeralDigits w).map digitValue).reverse

/- Digits that are read one by one are put behind the others. -/
theorem digitsFrom?_of_digitValue_lt
    (n : Nat)
    (hDigits : ∀ c ∈ w, digitValue c < r.base) :
    Numeral.digitsFrom? r.base n w =
      some (n * r.base ^ w.length +
        Nat.ofDigits r.base (w.map digitValue).reverse) := by
  induction w generalizing n with
  | nil => simp [Numeral.digitsFrom?]
  | cons c cs ih =>
      have hDigit := hDigits c List.mem_cons_self
      obtain ⟨_, hMark, hValue⟩ := of_digitValue_lt hDigit
      have hPush :
          Numeral.push? r.base n c =
            some (r.base * n + digitValue c) := by
        rw [Numeral.push?, hValue]
        exact if_pos hDigit
      rw [Numeral.digitsFrom?, if_neg hMark, hPush, Option.bind_some,
        ih _ fun d hMember => hDigits d (List.mem_cons_of_mem c hMember)]
      rw [List.map_cons, List.reverse_cons, Nat.ofDigits_append,
        Nat.ofDigits_singleton, List.length_reverse, List.length_map,
        List.length_cons, Nat.pow_succ]
      congr 1
      ring

theorem digitValue_lt_of_mem_numeralDigits
    (hParts : ∀ c ∈ w, c = '_' ∨ digitValue c < r.base)
    (hMember : c ∈ numeralDigits w) :
    digitValue c < r.base := by
  obtain ⟨hMember, hMark⟩ := List.mem_filter.mp hMember
  rcases hParts c hMember with rfl | hDigit
  · cases hMark
  · exact hDigit

/- The digits of an integer are read as its value. -/
theorem IsNumeral.integer?_eq
    (hNumeral : IsNumeral r w) :
    Numeral.integer? r.base (numeralDigits w) =
      some (numeralValue r w) := by
  have hDigits : ∀ c ∈ numeralDigits w, digitValue c < r.base :=
    fun _ => digitValue_lt_of_mem_numeralDigits hNumeral.parts
  have hFrom := digitsFrom?_of_digitValue_lt 0 hDigits
  rw [Nat.zero_mul, Nat.zero_add] at hFrom
  obtain ⟨d, hMember, hMark⟩ := hNumeral.digit
  have hSome : d ∈ numeralDigits w :=
    List.mem_filter.mpr ⟨hMember, by simpa using hMark⟩
  unfold numeralValue
  generalize numeralDigits w = ds at hDigits hFrom hSome ⊢
  cases ds with
  | nil => cases hSome
  | cons c cs =>
      have hDigit := hDigits c List.mem_cons_self
      have hOther : c ≠ '-' ∧ c ≠ '+' := by
        constructor <;> rintro rfl <;>
          exact absurd (mem_digits_of_digitValue_lt hDigit) (by decide)
      have hHead : c ≠ '_' := (of_digitValue_lt hDigit).2.1
      simp [Numeral.integer?, Numeral.natural?, Numeral.afterSign?,
        Numeral.digitsValue?, hOther, hFrom, hHead]

end ElixirReader
