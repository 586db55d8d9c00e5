import CodingLearners.Library.JsValue
import Mathlib.Tactic.Ring

/-!
# Decimal numerals

The number that a text of digits stands for, with its bounds by the length of
the text.
-/

namespace Js

/-- The number of a text of digits. -/
def decimalValue (s : JsString) : Nat := s.foldl (fun n u => 10 * n + (u.toNat - 48)) 0

/-- The text of a natural number. -/
def decimal (n : Nat) : JsString := (Nat.toDigits 10 n).map fun c => c.toNat.toUInt16

/-- Digits only. -/
def AllDigits (s : JsString) : Prop := ∀ u ∈ s, isDigit u = true

/-- A decimal number without leading zero. -/
structure IsNumeral (s : JsString) : Prop where
  digits : AllDigits s
  nonempty : s ≠ []
  noLeadingZero : s.head? ≠ some 48

instance (s : JsString) : Decidable (AllDigits s) :=
  List.decidableBAll (fun u => isDigit u = true) s

variable {s t : JsString} {u : UInt16}

theorem digit_bounds (h : isDigit u = true) : 48 ≤ u.toNat ∧ u.toNat ≤ 57 := by
  simpa [isDigit] using h

@[simp] theorem decimalValue_nil : decimalValue [] = 0 := rfl

theorem foldl_decimal (n : Nat) :
    s.foldl (fun n u => 10 * n + (u.toNat - 48)) n = n * 10 ^ s.length + decimalValue s := by
  induction s generalizing n with
  | nil => simp
  | cons u s ih =>
      have hfirst : decimalValue (u :: s) = (u.toNat - 48) * 10 ^ s.length + decimalValue s := by
        rw [decimalValue, List.foldl_cons, Nat.mul_zero, Nat.zero_add, ih]
      rw [List.foldl_cons, ih, hfirst, List.length_cons]
      ring

theorem decimalValue_append :
    decimalValue (s ++ t) = decimalValue s * 10 ^ t.length + decimalValue t := by
  rw [decimalValue, List.foldl_append]
  exact foldl_decimal _

theorem decimalValue_cons :
    decimalValue (u :: s) = (u.toNat - 48) * 10 ^ s.length + decimalValue s := by
  rw [decimalValue, List.foldl_cons, Nat.mul_zero, Nat.zero_add]
  exact foldl_decimal _

theorem decimalValue_lt (h : AllDigits s) : decimalValue s < 10 ^ s.length := by
  induction s with
  | nil => simp
  | cons u s ih =>
      have hu := digit_bounds (h u List.mem_cons_self)
      have hs := ih fun v hv => h v (List.mem_cons_of_mem u hv)
      have hle : (u.toNat - 48) * 10 ^ s.length ≤ 9 * 10 ^ s.length :=
        Nat.mul_le_mul_right _ (by omega)
      rw [decimalValue_cons, List.length_cons, pow_succ']
      omega

/-- Without leading zero the length of a numeral is that of its number. -/
theorem IsNumeral.le_decimalValue (h : IsNumeral s) : 10 ^ (s.length - 1) ≤ decimalValue s := by
  cases s with
  | nil => exact absurd rfl h.nonempty
  | cons u s =>
      have hu := digit_bounds (h.digits u List.mem_cons_self)
      have hne : u.toNat ≠ 48 := by
        intro hzero
        exact h.noLeadingZero (congrArg some (UInt16.toNat_inj.mp hzero))
      have hle : 1 * 10 ^ s.length ≤ (u.toNat - 48) * 10 ^ s.length :=
        Nat.mul_le_mul_right _ (by omega)
      rw [decimalValue_cons, List.length_cons, Nat.add_sub_cancel]
      omega

theorem IsNumeral.decimalValue_pos (h : IsNumeral s) : 1 ≤ decimalValue s :=
  (Nat.one_le_pow _ _ (by decide)).trans h.le_decimalValue

/-- A numeral has at most `n` digits exactly if its number is below `10 ^ n`. -/
theorem IsNumeral.length_le_iff (h : IsNumeral s) {n : Nat} :
    s.length ≤ n ↔ decimalValue s < 10 ^ n := by
  constructor
  · intro hle
    exact (decimalValue_lt h.digits).trans_le (Nat.pow_le_pow_right (by decide) hle)
  · intro hlt
    have hpow : 10 ^ (s.length - 1) < 10 ^ n := h.le_decimalValue.trans_lt hlt
    have hexp := (Nat.pow_lt_pow_iff_right (by decide)).mp hpow
    omega

/-- A text of digits is worth nothing only if it consists of zeros. -/
theorem decimalValue_eq_zero_iff (h : AllDigits s) : decimalValue s = 0 ↔ ∀ u ∈ s, u = 48 := by
  induction s with
  | nil => simp
  | cons u s ih =>
      have hu := digit_bounds (h u List.mem_cons_self)
      have hs := ih fun v hv => h v (List.mem_cons_of_mem u hv)
      have hpow : 0 < 10 ^ s.length := Nat.pow_pos (by decide)
      rw [decimalValue_cons, Nat.add_eq_zero_iff, hs, List.forall_mem_cons, Nat.mul_eq_zero]
      have hzero : u.toNat - 48 = 0 ∨ 10 ^ s.length = 0 ↔ u = 48 := by
        rw [← UInt16.toNat_inj]
        simp only [UInt16.reduceToNat]
        omega
      rw [hzero]

/-- Numbers that know decimal numerals alone; `Number("")` is zero. -/
def decimalNumbers : Numbers where
  Double := Option Nat
  decidableEq := inferInstance
  nan := none
  ofText s := if AllDigits s then some (decimalValue s) else none
  toText
    | none => units "NaN"
    | some n => decimal n
  add a b := do return (← a) + (← b)

end Js
