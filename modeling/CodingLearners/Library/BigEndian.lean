import Mathlib.Data.Nat.Digits.Lemmas

/-!
# Big-endian numbers

A byte string read as a number in base 256, the first byte the most significant
one, and the shortest byte string of a number. Printing what was read gives the
byte string back exactly when it does not start with a zero byte.
-/

namespace BigEndian

/-- The number of a byte string. -/
def value (bytes : List UInt8) : Nat := Nat.ofDigits 256 (bytes.map UInt8.toNat).reverse

/-- The shortest byte string of a number, without leading zeros. -/
def print (n : Nat) : List UInt8 := ((Nat.digits 256 n).map UInt8.ofNat).reverse

theorem map_toNat_print (n : Nat) :
    (print n).map UInt8.toNat = (Nat.digits 256 n).reverse := by
  rw [print, List.map_reverse, List.map_map]
  congr 1
  calc
    (Nat.digits 256 n).map (UInt8.toNat ∘ UInt8.ofNat)
        = (Nat.digits 256 n).map id := by
      apply List.map_congr_left
      intro digit hdigit
      have hlt : digit < 256 := Nat.digits_lt_base (by omega) hdigit
      exact UInt8.toNat_ofNat_of_lt hlt
    _ = Nat.digits 256 n := List.map_id _

@[simp] theorem value_print (n : Nat) : value (print n) = n := by
  rw [value, map_toNat_print, List.reverse_reverse, Nat.ofDigits_digits]

theorem print_eq_nil_iff {n : Nat} : print n = [] ↔ n = 0 := by
  rw [print, List.reverse_eq_nil_iff, List.map_eq_nil_iff, Nat.digits_eq_nil_iff_eq_zero]

theorem value_lt (bytes : List UInt8) : value bytes < 256 ^ bytes.length := by
  calc
    value bytes < 256 ^ ((bytes.map UInt8.toNat).reverse).length := by
      apply Nat.ofDigits_lt_base_pow_length (by omega)
      intro digit hdigit
      obtain ⟨byte, _, rfl⟩ := List.mem_map.mp (List.mem_reverse.mp hdigit)
      exact byte.toNat_lt
    _ = 256 ^ bytes.length := by rw [List.length_reverse, List.length_map]

/-- A number not above that of a byte string does not need more bytes. -/
theorem length_print_le {n : Nat} {bytes : List UInt8} (h : n ≤ value bytes) :
    (print n).length ≤ bytes.length := by
  rw [print, List.length_reverse, List.length_map]
  exact (Nat.digits_length_le_iff (by omega) n).mpr (Nat.lt_of_le_of_lt h (value_lt bytes))

theorem head_print_ne (n : Nat) : (print n).head? ≠ some 0 := by
  intro h
  have hdigits : (Nat.digits 256 n).getLast? = some 0 := by
    rw [← List.head?_reverse, ← map_toNat_print, List.head?_map, h]
    rfl
  have hne : Nat.digits 256 n ≠ [] := by
    intro hnil
    simp [hnil] at hdigits
  rw [List.getLast?_eq_getLast_of_ne_nil hne, Option.some.injEq] at hdigits
  exact Nat.getLast_digit_ne_zero 256 (Nat.digits_ne_nil_iff_ne_zero.mp hne) hdigits

/-- What is read is printed back, unless it starts with a zero byte. -/
theorem print_value {bytes : List UInt8} (h : bytes.head? ≠ some 0) :
    print (value bytes) = bytes := by
  have hdigits : Nat.digits 256 (value bytes) = (bytes.map UInt8.toNat).reverse := by
    apply Nat.digits_ofDigits 256 (by omega)
    · intro digit hdigit
      obtain ⟨byte, _, rfl⟩ := List.mem_map.mp (List.mem_reverse.mp hdigit)
      exact byte.toNat_lt
    · intro hne hlast
      rw [List.getLast_reverse] at hlast
      cases bytes with
      | nil => exact hne rfl
      | cons byte rest =>
          apply h
          rw [List.head?_cons, Option.some.injEq]
          exact UInt8.toNat_inj.mp hlast
  rw [print, hdigits, List.map_reverse, List.reverse_reverse, List.map_map]
  calc
    bytes.map (UInt8.ofNat ∘ UInt8.toNat) = bytes.map id := by
      apply List.map_congr_left
      intro byte _
      exact UInt8.ofNat_toNat
    _ = bytes := List.map_id _

end BigEndian
