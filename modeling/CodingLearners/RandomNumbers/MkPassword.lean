import CodingLearners.Library.Radix
import CodingLearners.Library.ScaledFloor
import Mathlib.Data.Nat.Basic

/-!
# The numbers and names of `mkpassword`

A random value of 32 bits is scaled to the numbers of ten decimal digits and to the
names of one letter and five letters or digits. The scaled number is cast to 32 bits
before it is printed, the scaled name fits.

## Implementation notes

What `read` leaves in the four bytes of a random value is a parameter, as is the value
of `rand`. A printed line is the list of its characters.
-/

namespace CodingLearners.RandomNumbers

open Radix ScaledFloor

def MAX_INT_VAL : UInt32 := 0xffffffff

def MAX_NUMS : Nat := 10

/-! ## The passwords -/

/-- The locals `max` and `min` of `main`. -/
structure PasswordRange where
  max : UInt64
  min : UInt32
  deriving DecidableEq, Repr

/-- One pass of the digit loop. -/
def PasswordRange.step (range : PasswordRange) : PasswordRange :=
  let max := range.max * 10
  let min := range.min * 10
  { max := max + (if max ≠ 0 then 9 else 8)
    min := min + (if min ≠ 0 then 0 else 1) }

def passwordRange : PasswordRange :=
  (List.range MAX_NUMS).foldl (fun range _ => range.step) { max := 0, min := 0 }

/-- `(unsigned int) (min + (val * max) / MAX_INT_VAL)`, the product in 64 bits. -/
def password (val : UInt32) : UInt32 :=
  (passwordRange.min.toUInt64 + val.toUInt64 * passwordRange.max / MAX_INT_VAL.toUInt64).toUInt32

/-- A number printed in a field of at least `width` characters. -/
def field (width : Nat) (number : Int) : List Char :=
  ((if number < 0 then ['-'] else []) ++ Nat.toDigits 10 number.natAbs).leftpad width ' '

/-- `%6d` -/
def signedField (width : Nat) (val : UInt32) : List Char :=
  field width ((val.toNat : Int).bmod 0x100000000)

/-- `%6u` -/
def unsignedField (width : Nat) (val : UInt32) : List Char := field width val.toNat

/-- The three passwords that `main` prints. -/
def passwordFields (rand devRandom devUrandom : UInt32) : List (List Char) :=
  [signedField 6 (password rand), unsignedField 6 (password devRandom),
    unsignedField 6 (password devUrandom)]

/-- The password of a random value in exact arithmetic. -/
def exactPassword (val : UInt32) : Nat :=
  passwordRange.min.toNat + scaled passwordRange.max.toNat 4294967295 val.toNat

theorem passwordRange_eq : passwordRange = { max := 8999999999, min := 1000000000 } := by
  decide

theorem exactPassword_eq (val : UInt32) :
    exactPassword val = 1000000000 + val.toNat * 8999999999 / 4294967295 := by
  rw [exactPassword, passwordRange_eq]
  rfl

/-- The exact password always has the intended number of digits. -/
theorem length_exactPassword (val : UInt32) :
    (Nat.toDigits 10 (exactPassword val)).length = MAX_NUMS := by
  have hval := val.toNat_lt
  have hle : ¬ (Nat.toDigits 10 (exactPassword val)).length ≤ 9 := by
    rw [Nat.length_toDigits_le_iff (by decide) (by decide), exactPassword_eq]
    omega
  have hge : (Nat.toDigits 10 (exactPassword val)).length ≤ 10 := by
    rw [Nat.length_toDigits_le_iff (by decide) (by decide), exactPassword_eq]
    omega
  rw [MAX_NUMS]
  omega

/-- The product is taken modulo `2^64` and the sum is cast to 32 bits. -/
theorem toNat_password (val : UInt32) :
    (password val).toNat =
      (1000000000 + val.toNat * 8999999999 % 18446744073709551616 / 4294967295) % 4294967296 := by
  have hval := val.toNat_lt
  rw [password, passwordRange_eq]
  simp only [UInt64.toNat_toUInt32, UInt64.toNat_add, UInt64.toNat_div, UInt64.toNat_mul,
    UInt32.toNat_toUInt64, MAX_INT_VAL, UInt32.reduceToNat, UInt64.reduceToNat, Nat.reducePow]
  omega

theorem toNat_password_of_le {val : UInt32} (h : val.toNat ≤ 1572419641) :
    (password val).toNat = exactPassword val := by
  have hproduct : val.toNat * 8999999999 % 18446744073709551616 = val.toNat * 8999999999 :=
    Nat.mod_eq_of_lt (by omega)
  rw [toNat_password, exactPassword_eq, hproduct]
  exact Nat.mod_eq_of_lt (by omega)

theorem le_exactPassword {val : UInt32} (h : 1572419641 < val.toNat) :
    4294967296 ≤ exactPassword val := by
  rw [exactPassword_eq]
  omega

/-- Nothing is lost exactly if the exact password fits into 32 bits. -/
theorem toNat_password_eq_iff (val : UInt32) :
    (password val).toNat = exactPassword val ↔ val.toNat ≤ 1572419641 := by
  constructor
  · intro h
    by_contra hlarge
    have hexact := le_exactPassword (Nat.lt_of_not_le hlarge)
    have hlt := (password val).toNat_lt
    omega
  · exact toNat_password_of_le

/-- Printed as a signed number, the exact password has to fit into 31 bits. -/
theorem bmod_password_eq_iff (val : UInt32) :
    ((password val).toNat : Int).bmod 0x100000000 = exactPassword val ↔
      val.toNat ≤ 547600526 := by
  constructor
  · intro h
    have hsigned := Int.bmod_lt (x := ((password val).toNat : Int)) (m := 0x100000000) (by decide)
    rw [h, exactPassword_eq] at hsigned
    omega
  · intro h
    have hfits : exactPassword val < 2147483648 := by
      rw [exactPassword_eq]
      omega
    rw [toNat_password_of_le (by omega)]
    exact Int.bmod_eq_of_le (by omega) (by omega)

theorem toDigits_injective {m n : Nat} (h : Nat.toDigits 10 m = Nat.toDigits 10 n) : m = n := by
  have hvalue := congrArg (fun text => Nat.ofDigitChars 10 text 0) h
  simpa only [Nat.ofDigitChars_ten_toDigits] using hvalue

theorem not_mem_toDigits {n : Nat} {c : Char} (h : c.isDigit = false) :
    c ∉ Nat.toDigits 10 n := by
  intro hmem
  rw [Nat.isDigit_of_mem_toDigits (by decide) (by decide) hmem] at h
  contradiction

/-- In a field that is not wider than a numeral only its own number prints it. -/
theorem field_eq_toDigits_iff {width n : Nat} {number : Int}
    (hwidth : width < (Nat.toDigits 10 n).length) :
    field width number = Nat.toDigits 10 n ↔ number = n := by
  constructor
  · intro h
    have hpad : field width number =
        (if number < 0 then ['-'] else []) ++ Nat.toDigits 10 number.natAbs := by
      rw [← h, field, List.length_leftpad] at hwidth
      rw [field, List.leftpad, Nat.sub_eq_zero_of_le (by omega)]
      rfl
    rw [hpad] at h
    split at h
    · exact absurd (h ▸ List.mem_append_left _ List.mem_cons_self) (not_mem_toDigits rfl)
    · have hvalue : number.natAbs = n := toDigits_injective h
      omega
  · rintro rfl
    rw [field, if_neg (by omega), List.nil_append, Int.natAbs_natCast, List.leftpad,
      Nat.sub_eq_zero_of_le hwidth.le]
    rfl

/-- The printed passwords are the exact ones exactly if these fit into 31 and 32 bits. -/
theorem passwordFields_exact_iff (rand devRandom devUrandom : UInt32) :
    (passwordFields rand devRandom devUrandom =
        [rand, devRandom, devUrandom].map (fun val => Nat.toDigits 10 (exactPassword val)) ∧
      ∀ text ∈ passwordFields rand devRandom devUrandom, text.length = MAX_NUMS) ↔
      rand.toNat ≤ 547600526 ∧ devRandom.toNat ≤ 1572419641 ∧ devUrandom.toNat ≤ 1572419641 := by
  have hwidth : ∀ val, 6 < (Nat.toDigits 10 (exactPassword val)).length := by
    intro val
    rw [length_exactPassword]
    decide
  have hfields : passwordFields rand devRandom devUrandom =
        [rand, devRandom, devUrandom].map (fun val => Nat.toDigits 10 (exactPassword val)) ↔
      rand.toNat ≤ 547600526 ∧ devRandom.toNat ≤ 1572419641 ∧ devUrandom.toNat ≤ 1572419641 := by
    simp only [passwordFields, List.map_cons, List.map_nil, List.cons.injEq, and_true,
      signedField, unsignedField, field_eq_toDigits_iff (hwidth _), bmod_password_eq_iff,
      Int.natCast_inj, toNat_password_eq_iff]
  rw [← hfields]
  constructor
  · exact And.left
  · intro h
    refine ⟨h, ?_⟩
    rw [h]
    simp [length_exactPassword]

/-- From 1572419642 on the exact password does not fit into 32 bits. -/
theorem passwordFields_wrapped :
    passwordFields 1572419642 1572419642 1572419642 =
        ["     0".toList, "     0".toList, "     0".toList] ∧
      ¬ (passwordFields 1572419642 1572419642 1572419642 =
          [1572419642, 1572419642, 1572419642].map
            (fun val => Nat.toDigits 10 (exactPassword val)) ∧
        ∀ text ∈ passwordFields 1572419642 1572419642 1572419642, text.length = MAX_NUMS) := by
  have hexact : Nat.toDigits 10 (exactPassword 1572419642) = "4294967296".toList := by
    decide +kernel
  have hfields : passwordFields 1572419642 1572419642 1572419642 =
      ["     0".toList, "     0".toList, "     0".toList] := by
    decide +kernel
  refine ⟨hfields, ?_⟩
  rintro ⟨heq, -⟩
  rw [hfields, List.map_cons, hexact] at heq
  exact absurd (List.cons.inj heq).1 (by decide +kernel)

/-! ## The names -/

/-- The `int` constant `26 * 36 * 36 * 36 * 36 * 36 - 1`, converted to 64 bits. -/
def alphnumMax : UInt64 := (26 * 36 * 36 * 36 * 36 * 36 - 1 : Int32).toInt64.toUInt64

def alphnumProduct (val : UInt32) : UInt64 := val.toUInt64 * alphnumMax

/-- `t >= 10 ? (t - 10 + 'a') : (t + '0')` -/
def alphnumChar (t : Nat) : UInt8 :=
  if 10 ≤ t then UInt8.ofNat (t - 10 + 97) else UInt8.ofNat (t + 48)

/-- The locals of `showalphnum` that its loop changes. -/
structure AlphnumLoop where
  s : List UInt8
  val : UInt32

/-- One pass of the loop of `showalphnum`. -/
def AlphnumLoop.step (state : AlphnumLoop) (ii : Nat) : AlphnumLoop :=
  let t := (state.val % 36).toNat
  { s := state.s.set (5 - ii) (alphnumChar t), val := state.val / 36 }

/-- The array that is printed with `%s`. -/
def alphnumArray (val : UInt32) : List UInt8 :=
  let val := (alphnumProduct val / MAX_INT_VAL.toUInt64).toUInt32
  let state := (List.range 5).foldl AlphnumLoop.step { s := List.replicate 7 0, val }
  state.s.set 0 (state.val + 97).toUInt8

/-- `%s` prints the characters before the first null. -/
def showalphnum (val : UInt32) : List UInt8 := (alphnumArray val).takeWhile (· != 0)

/-- What `main` prints, line by line. -/
def main (rand devRandom devUrandom devRandom' : UInt32) : List (List Char) :=
  ["max = ".toList ++ signedField 0 passwordRange.max.toUInt32] ++
    (["rand", "dev rand", "dev urand"].zipWith
      (fun source text => (source ++ " pass word create: ").toList ++ text)
      (passwordFields rand devRandom devUrandom)) ++
    [" dev rand alphnum is: ".toList ++ (showalphnum devRandom').map fun c => Char.ofNat c.toNat]

def isLetter (c : UInt8) : Bool := 97 ≤ c.toNat && c.toNat ≤ 122

def isAlphnumChar (c : UInt8) : Bool := isLetter c || (48 ≤ c.toNat && c.toNat ≤ 57)

/-- The digit that a character stands for in base 36. -/
def alphnumDigit (c : UInt8) : Nat := if isLetter c then c.toNat - 87 else c.toNat - 48

/-- A letter and five letters or digits. -/
def IsAlphnum : List UInt8 → Prop
  | [] => False
  | letter :: rest =>
      isLetter letter = true ∧ rest.length = 5 ∧ ∀ c ∈ rest, isAlphnumChar c = true

/-- The digits of a name, the letter `a` in front counted as zero. -/
def alphnumDigits : List UInt8 → List Nat
  | [] => []
  | letter :: rest => (letter.toNat - 97) :: rest.map alphnumDigit

/-- The number that a name stands for in base 36. -/
def alphnumNumber (name : List UInt8) : Nat := value 36 (alphnumDigits name)

/-- The order of names by their bytes. -/
def Precedes (name name' : List UInt8) : Prop :=
  List.Lex (fun c c' => c.toNat < c'.toNat) name name'

/-- The number of a random value, in exact arithmetic. -/
def exactAlphnum (val : UInt32) : Nat := scaled (26 * 36 ^ 5 - 1) (2 ^ 32 - 1) val.toNat

theorem alphnumChar_digit {t : Nat} (h : t < 36) :
    isAlphnumChar (alphnumChar t) = true ∧ alphnumDigit (alphnumChar t) = t := by
  revert t
  decide

theorem alphnumDigit_lt {c : UInt8} (h : isAlphnumChar c = true) : alphnumDigit c < 36 := by
  simp only [isAlphnumChar, isLetter, Bool.or_eq_true, Bool.and_eq_true, decide_eq_true_eq] at h
  simp only [alphnumDigit, isLetter, Bool.and_eq_true, decide_eq_true_eq]
  split <;> omega

theorem alphnumMax_eq : alphnumMax = 1572120575 := by decide

/-- The product of a random value fits into 64 bits. -/
theorem toNat_alphnumProduct (val : UInt32) :
    (alphnumProduct val).toNat = val.toNat * (26 * 36 ^ 5 - 1) := by
  have hval := val.toNat_lt
  calc (alphnumProduct val).toNat
      = val.toNat * (26 * 36 ^ 5 - 1) % 2 ^ 64 := by
        rw [alphnumProduct, alphnumMax_eq, UInt64.toNat_mul, UInt32.toNat_toUInt64]
        rfl
    _ = val.toNat * (26 * 36 ^ 5 - 1) := Nat.mod_eq_of_lt (by omega)

/-- The scaled value fits into the 32 bits of `val`. -/
theorem toNat_alphnumQuotient (val : UInt32) :
    (alphnumProduct val / MAX_INT_VAL.toUInt64).toUInt32.toNat = exactAlphnum val := by
  have hval := val.toNat_lt
  calc (alphnumProduct val / MAX_INT_VAL.toUInt64).toUInt32.toNat
      = exactAlphnum val % 2 ^ 32 := by
        rw [UInt64.toNat_toUInt32, UInt64.toNat_div, toNat_alphnumProduct]
        rfl
    _ = exactAlphnum val := by
        apply Nat.mod_eq_of_lt
        rw [exactAlphnum, scaled]
        omega

theorem exactAlphnum_lt (val : UInt32) : exactAlphnum val < 26 * 36 ^ 5 := by
  have hle := @scaled_le (26 * 36 ^ 5 - 1) _ _ (Nat.le_pred_of_lt val.toNat_lt)
  exact Nat.lt_of_le_pred (by decide) hle

theorem step_val (state : AlphnumLoop) (ii : Nat) :
    (state.step ii).val.toNat = state.val.toNat / 36 := by
  simp [AlphnumLoop.step]

/-- After `k` passes the last `k` places before the null hold the `k` lowest digits. -/
theorem loop_eq (val : UInt32) {k : Nat} (h : k ≤ 5) :
    let state := (List.range k).foldl AlphnumLoop.step { s := List.replicate 7 0, val }
    state.s = List.replicate (6 - k) 0 ++ (digits 36 k val.toNat).map alphnumChar ++ [0] ∧
      state.val.toNat = val.toNat / 36 ^ k := by
  induction k with
  | zero => simp [digits]
  | succ k ih =>
      obtain ⟨hs, hval⟩ := ih (by omega)
      rw [List.range_succ, List.foldl_append, List.foldl_cons, List.foldl_nil]
      generalize (List.range k).foldl AlphnumLoop.step
        { s := List.replicate 7 0, val } = state at hs hval ⊢
      constructor
      · have hzeros : List.replicate (6 - k) (0 : UInt8) = List.replicate (5 - k) 0 ++ [0] := by
          rw [← List.replicate_succ', show 6 - k = 5 - k + 1 by omega]
        have hdigit : (state.val % 36).toNat = val.toNat / 36 ^ k % 36 := by
          rw [UInt32.toNat_mod, hval]
          rfl
        calc (state.step k).s
            = (List.replicate (5 - k) 0 ++
                0 :: ((digits 36 k val.toNat).map alphnumChar ++ [0])).set
                (5 - k) (alphnumChar (val.toNat / 36 ^ k % 36)) := by
              rw [AlphnumLoop.step, hs, hzeros, hdigit]
              simp
          _ = List.replicate (6 - (k + 1)) 0 ++
                (digits 36 (k + 1) val.toNat).map alphnumChar ++ [0] := by
              rw [digits_succ_eq_cons, show 6 - (k + 1) = 5 - k by omega]
              simp
      · rw [step_val, hval, Nat.div_div_eq_div_mul, pow_succ]

theorem alphnumChar_ne_zero {c : UInt8} (h : isAlphnumChar c = true) : c ≠ 0 := by
  rintro rfl
  contradiction

theorem exactAlphnum_letter_le (val : UInt32) : exactAlphnum val / 36 ^ 5 ≤ 25 := by
  have hlt := exactAlphnum_lt val
  omega

theorem toNat_letter (val : UInt32) :
    (UInt8.ofNat (exactAlphnum val / 36 ^ 5 + 97)).toNat = exactAlphnum val / 36 ^ 5 + 97 := by
  have hle := exactAlphnum_letter_le val
  rw [UInt8.toNat_ofNat']
  exact Nat.mod_eq_of_lt (by omega)

theorem mem_alphnumChars {val : UInt32} {c : UInt8}
    (hc : c ∈ (digits 36 5 (exactAlphnum val)).map alphnumChar) : isAlphnumChar c = true := by
  obtain ⟨t, ht, rfl⟩ := List.mem_map.mp hc
  exact (alphnumChar_digit (digits_lt (by decide) t ht)).1

theorem alphnumArray_eq (val : UInt32) :
    alphnumArray val = UInt8.ofNat (exactAlphnum val / 36 ^ 5 + 97) ::
      (digits 36 5 (exactAlphnum val)).map alphnumChar ++ [0] := by
  obtain ⟨hs, hval⟩ := loop_eq (alphnumProduct val / MAX_INT_VAL.toUInt64).toUInt32 (k := 5)
    (Nat.le_refl 5)
  rw [toNat_alphnumQuotient] at hs hval
  have hletter : ∀ high : UInt32, high.toNat = exactAlphnum val / 36 ^ 5 →
      (high + 97).toUInt8 = UInt8.ofNat (exactAlphnum val / 36 ^ 5 + 97) := by
    intro high hhigh
    have hle := exactAlphnum_letter_le val
    apply UInt8.toNat_inj.mp
    rw [toNat_letter, UInt32.toNat_toUInt8, UInt32.toNat_add, hhigh]
    simp only [UInt32.reduceToNat]
    omega
  simp only [alphnumArray, hs, hletter _ hval]
  rfl

/-- The name of a random value: the letter of the highest digit, then the five below. -/
theorem showalphnum_eq (val : UInt32) :
    showalphnum val = UInt8.ofNat (exactAlphnum val / 36 ^ 5 + 97) ::
      (digits 36 5 (exactAlphnum val)).map alphnumChar := by
  have hne : ∀ c ∈ UInt8.ofNat (exactAlphnum val / 36 ^ 5 + 97) ::
      (digits 36 5 (exactAlphnum val)).map alphnumChar, (c != 0) = true := by
    intro c hc
    rw [bne_iff_ne]
    rcases List.mem_cons.mp hc with rfl | hc
    · rintro hzero
      have hletter := toNat_letter val
      rw [hzero, UInt8.toNat_zero] at hletter
      omega
    · exact alphnumChar_ne_zero (mem_alphnumChars hc)
  rw [showalphnum, alphnumArray_eq, List.takeWhile_append_of_pos hne]
  simp

theorem isAlphnum_showalphnum (val : UInt32) : IsAlphnum (showalphnum val) := by
  rw [showalphnum_eq]
  refine ⟨?_, by simp, fun c => mem_alphnumChars⟩
  have hle := exactAlphnum_letter_le val
  simp only [isLetter, toNat_letter, Bool.and_eq_true, decide_eq_true_eq]
  omega

theorem alphnumNumber_showalphnum (val : UInt32) :
    alphnumNumber (showalphnum val) = exactAlphnum val := by
  have hdigits : ((digits 36 5 (exactAlphnum val)).map alphnumChar).map alphnumDigit =
      digits 36 5 (exactAlphnum val) := by
    rw [List.map_map]
    calc (digits 36 5 (exactAlphnum val)).map (alphnumDigit ∘ alphnumChar)
        = (digits 36 5 (exactAlphnum val)).map id := by
          apply List.map_congr_left
          intro t ht
          exact (alphnumChar_digit (digits_lt (by decide) t ht)).2
      _ = digits 36 5 (exactAlphnum val) := List.map_id _
  calc alphnumNumber (showalphnum val)
      = value 36 (exactAlphnum val / 36 ^ 5 :: digits 36 5 (exactAlphnum val)) := by
        rw [showalphnum_eq, alphnumNumber, alphnumDigits, hdigits, toNat_letter,
          Nat.add_sub_cancel]
    _ = exactAlphnum val % 36 ^ 5 + 36 ^ 5 * (exactAlphnum val / 36 ^ 5) := by
        rw [value_cons, value_digits, length_digits]
    _ = exactAlphnum val := Nat.mod_add_div _ _

theorem isLetter_bounds {c : UInt8} (h : isLetter c = true) : 97 ≤ c.toNat ∧ c.toNat ≤ 122 := by
  simpa [isLetter] using h

theorem alphnumDigit_lt_iff {c c' : UInt8} (h : isAlphnumChar c = true)
    (h' : isAlphnumChar c' = true) : alphnumDigit c < alphnumDigit c' ↔ c.toNat < c'.toNat := by
  simp only [isAlphnumChar, isLetter, Bool.or_eq_true, Bool.and_eq_true,
    decide_eq_true_eq] at h h'
  simp only [alphnumDigit, isLetter, Bool.and_eq_true, decide_eq_true_eq]
  split <;> split <;> omega

theorem alphnumChar_alphnumDigit {c : UInt8} (h : isAlphnumChar c = true) :
    alphnumChar (alphnumDigit c) = c := by
  have hc := c.toNat_lt
  simp only [isAlphnumChar, isLetter, Bool.or_eq_true, Bool.and_eq_true, decide_eq_true_eq] at h
  apply UInt8.toNat_inj.mp
  simp only [alphnumChar, alphnumDigit, isLetter, Bool.and_eq_true, decide_eq_true_eq]
  split <;> split <;> rw [UInt8.toNat_ofNat'] <;> omega

section Names

variable {name name' : List UInt8}

theorem length_alphnumDigits (h : IsAlphnum name) : (alphnumDigits name).length = 6 := by
  cases name with
  | nil => exact h.elim
  | cons letter rest => simp [alphnumDigits, h.2.1]

theorem alphnumDigits_lt (h : IsAlphnum name) : ∀ d ∈ alphnumDigits name, d < 36 := by
  cases name with
  | nil => exact h.elim
  | cons letter rest =>
      have hletter := isLetter_bounds h.1
      rw [alphnumDigits, List.forall_mem_cons]
      refine ⟨by omega, ?_⟩
      intro d hd
      obtain ⟨c, hc, rfl⟩ := List.mem_map.mp hd
      exact alphnumDigit_lt (h.2.2 c hc)

/-- A name stands for a number below `26 * 36 ^ 5`. -/
theorem alphnumNumber_le (h : IsAlphnum name) : alphnumNumber name ≤ 26 * 36 ^ 5 - 1 := by
  have hdigits := alphnumDigits_lt h
  cases name with
  | nil => exact h.elim
  | cons letter rest =>
      have hletter := isLetter_bounds h.1
      have hrest := value_lt (by omega) fun d hd => hdigits d (List.mem_cons_of_mem _ hd)
      rw [alphnumNumber, alphnumDigits, value_cons]
      rw [List.length_map, h.2.1] at hrest ⊢
      omega

theorem precedes_of_lex (h : IsAlphnum name) (h' : IsAlphnum name')
    (hlex : List.Lex (· < ·) (alphnumDigits name) (alphnumDigits name')) :
    Precedes name name' := by
  cases name with
  | nil => exact h.elim
  | cons letter rest =>
      cases name' with
      | nil => exact h'.elim
      | cons letter' rest' =>
          have hletter := isLetter_bounds h.1
          have hletter' := isLetter_bounds h'.1
          rcases List.cons_lex_cons_iff.mp hlex with hlt | ⟨heq, hrest⟩
          · exact .rel (by omega)
          · have hsame : letter = letter' := UInt8.toNat_inj.mp (by omega)
            rw [hsame]
            apply List.Lex.cons
            apply lex_of_lex_map _ _ hrest
            · intro c hc c' hc'
              exact (alphnumDigit_lt_iff (h.2.2 c hc) (h'.2.2 c' hc')).mp
            · intro c hc c' hc' hdigit
              rw [← alphnumChar_alphnumDigit (h.2.2 c hc), hdigit,
                alphnumChar_alphnumDigit (h'.2.2 c' hc')]

theorem map_alphnumChar {rest : List UInt8} (h : ∀ c ∈ rest, isAlphnumChar c = true) :
    (rest.map alphnumDigit).map alphnumChar = rest := by
  rw [List.map_map]
  calc rest.map (alphnumChar ∘ alphnumDigit) = rest.map id := by
        apply List.map_congr_left
        intro c hc
        exact alphnumChar_alphnumDigit (h c hc)
    _ = rest := List.map_id _

/-- A name is determined by its digits. -/
theorem eq_of_alphnumDigits (h : IsAlphnum name) (h' : IsAlphnum name')
    (heq : alphnumDigits name = alphnumDigits name') : name = name' := by
  cases name with
  | nil => exact h.elim
  | cons letter rest =>
      cases name' with
      | nil => exact h'.elim
      | cons letter' rest' =>
          have hletter := isLetter_bounds h.1
          have hletter' := isLetter_bounds h'.1
          rw [alphnumDigits, alphnumDigits, List.cons.injEq] at heq
          have hsame : letter = letter' := UInt8.toNat_inj.mp (by omega)
          rw [hsame, ← map_alphnumChar h.2.2, heq.2, map_alphnumChar h'.2.2]

theorem eq_or_precedes (h : IsAlphnum name) (h' : IsAlphnum name')
    (hle : alphnumNumber name ≤ alphnumNumber name') : name = name' ∨ Precedes name name' := by
  have hlength : (alphnumDigits name).length = (alphnumDigits name').length := by
    rw [length_alphnumDigits h, length_alphnumDigits h']
  rcases eq_or_lex_of_value_le (by omega) (alphnumDigits_lt h') hlength hle with heq | hlex
  · exact Or.inl (eq_of_alphnumDigits h h' heq)
  · exact Or.inr (precedes_of_lex h h' hlex)

theorem alphnumNumber_injective (h : IsAlphnum name) (h' : IsAlphnum name')
    (heq : alphnumNumber name = alphnumNumber name') : name = name' := by
  have hlength : (alphnumDigits name).length = (alphnumDigits name').length := by
    rw [length_alphnumDigits h, length_alphnumDigits h']
  exact eq_of_alphnumDigits h h'
    (value_injective (by omega) (alphnumDigits_lt h) (alphnumDigits_lt h') hlength heq)

end Names

/-- Every random value gives a name, which stands for the scaled value; no step overflows, a
larger value gives no earlier name, and every name is given by some value. -/
theorem showalphnum_correct :
    (∀ v : UInt32, IsAlphnum (showalphnum v) ∧
      alphnumNumber (showalphnum v) = v.toNat * (26 * 36 ^ 5 - 1) / (2 ^ 32 - 1)) ∧
    (∀ v : UInt32, alphnumMax.toNat = 26 * 36 ^ 5 - 1 ∧
      (alphnumProduct v).toNat = v.toNat * (26 * 36 ^ 5 - 1) ∧
      (alphnumProduct v / MAX_INT_VAL.toUInt64).toUInt32.toNat =
        v.toNat * (26 * 36 ^ 5 - 1) / (2 ^ 32 - 1)) ∧
    (∀ v w : UInt32, v ≤ w →
      showalphnum v = showalphnum w ∨ Precedes (showalphnum v) (showalphnum w)) ∧
    ∀ name, IsAlphnum name → ∃ v, showalphnum v = name := by
  refine ⟨?_, ?_, ?_, ?_⟩
  · intro v
    exact ⟨isAlphnum_showalphnum v, alphnumNumber_showalphnum v⟩
  · intro v
    exact ⟨by rw [alphnumMax_eq]; rfl, toNat_alphnumProduct v, toNat_alphnumQuotient v⟩
  · intro v w hle
    apply eq_or_precedes (isAlphnum_showalphnum v) (isAlphnum_showalphnum w)
    rw [alphnumNumber_showalphnum, alphnumNumber_showalphnum]
    exact scaled_monotone _ _ (UInt32.le_iff_toNat_le.mp hle)
  · intro name hname
    obtain ⟨v, hv, hscaled⟩ :=
      @scaled_surjective _ (2 ^ 32 - 1) (by decide) _ (alphnumNumber_le hname)
    refine ⟨UInt32.ofNat v, ?_⟩
    apply alphnumNumber_injective (isAlphnum_showalphnum _) hname
    rw [alphnumNumber_showalphnum, exactAlphnum,
      UInt32.toNat_ofNat_of_lt' (Nat.lt_succ_of_le hv), hscaled]

/-- The first two values give the same name, and some value gives the last name. -/
theorem showalphnum_correct_ends :
    (showalphnum 0 = showalphnum 1 ∨ Precedes (showalphnum 0) (showalphnum 1)) ∧
      ∃ v, showalphnum v = [122, 122, 122, 122, 122, 122] :=
  ⟨showalphnum_correct.2.2.1 0 1 (by decide),
    showalphnum_correct.2.2.2 _ ⟨rfl, rfl, List.all_eq_true.mp rfl⟩⟩

end CodingLearners.RandomNumbers
