import Mathlib.Data.List.Basic

/-!
# Base64

The encoding of bytes in six-bit digits, in the standard and in the URL-safe
alphabet, with and without padding.
-/

namespace Base64

/-- A digit in the standard alphabet. -/
def char (digit : Nat) : UInt8 :=
  if digit < 26 then UInt8.ofNat (65 + digit)
  else if digit < 52 then UInt8.ofNat (71 + digit)
  else if digit < 62 then UInt8.ofNat (digit - 4)
  else if digit = 62 then 43
  else 47

/-- A digit in the URL-safe alphabet. -/
def urlChar (digit : Nat) : UInt8 :=
  if digit = 62 then 45 else if digit = 63 then 95 else char digit

/-- The digits of bytes. -/
def digits : List UInt8 → List Nat
  | [] => []
  | [a] => [a.toNat / 4, a.toNat % 4 * 16]
  | [a, b] => [a.toNat / 4, a.toNat % 4 * 16 + b.toNat / 16, b.toNat % 16 * 4]
  | a :: b :: c :: rest =>
      [a.toNat / 4, a.toNat % 4 * 16 + b.toNat / 16, b.toNat % 16 * 4 + c.toNat / 64,
        c.toNat % 64] ++ digits rest

/-- The number of `=` behind the digits. -/
def padding (data : List UInt8) : Nat := (3 - data.length % 3) % 3

/-- The standard encoding. -/
def encode (data : List UInt8) : List UInt8 :=
  (digits data).map char ++ List.replicate (padding data) 61

/-- The digit of a character of the standard alphabet. -/
def digit (c : UInt8) : Nat :=
  if 97 ≤ c.toNat then c.toNat - 71
  else if 65 ≤ c.toNat then c.toNat - 65
  else if 48 ≤ c.toNat then c.toNat + 4
  else if c = 43 then 62
  else 63

/-- The bytes of digits. -/
def bytes : List Nat → List UInt8
  | a :: b :: c :: d :: rest =>
      [UInt8.ofNat (a * 4 + b / 16), UInt8.ofNat (b % 16 * 16 + c / 4),
        UInt8.ofNat (c % 4 * 64 + d)] ++ bytes rest
  | [a, b, c] => [UInt8.ofNat (a * 4 + b / 16), UInt8.ofNat (b % 16 * 16 + c / 4)]
  | [a, b] => [UInt8.ofNat (a * 4 + b / 16)]
  | _ => []

/-- What a standard encoding encodes. -/
def decode (text : List UInt8) : List UInt8 :=
  bytes ((text.filter fun c => decide (c ≠ 61)).map digit)

/-! ## Digits -/

theorem digits_induction {motive : List UInt8 → Prop} (nil : motive []) (one : ∀ a, motive [a])
    (two : ∀ a b, motive [a, b])
    (more : ∀ a b c rest, motive rest → motive (a :: b :: c :: rest)) (data : List UInt8) :
    motive data := by
  induction data using digits.induct with
  | case1 => exact nil
  | case2 a => exact one a
  | case3 a b => exact two a b
  | case4 a b c rest ih => exact more a b c rest ih

theorem digits_lt {data : List UInt8} : ∀ d ∈ digits data, d < 64 := by
  induction data using digits_induction with
  | nil => simp [digits]
  | one a =>
      have ha := a.toNat_lt
      simp only [digits, List.mem_cons, List.not_mem_nil, or_false]
      omega
  | two a b =>
      have ha := a.toNat_lt
      have hb := b.toNat_lt
      simp only [digits, List.mem_cons, List.not_mem_nil, or_false]
      omega
  | more a b c rest ih =>
      have ha := a.toNat_lt
      have hb := b.toNat_lt
      have hc := c.toNat_lt
      intro d hd
      rcases List.mem_append.mp hd with hd | hd
      · simp only [List.mem_cons, List.not_mem_nil, or_false] at hd
        omega
      · exact ih d hd

theorem length_digits (data : List UInt8) :
    ((digits data).length + padding data) % 4 = 0 := by
  induction data using digits_induction with
  | nil => rfl
  | one a => simp [digits, padding]
  | two a b => simp [digits, padding]
  | more a b c rest ih =>
      have hpadding : padding (a :: b :: c :: rest) = padding rest := by
        simp [padding, Nat.add_assoc]
      rw [hpadding]
      simp only [digits, List.length_append, List.length_cons, List.length_nil]
      omega

theorem padding_lt (data : List UInt8) : padding data < 4 := by
  unfold padding
  omega

theorem bytes_digits (data : List UInt8) : bytes (digits data) = data := by
  induction data using digits_induction with
  | nil => rfl
  | one a =>
      have ha := a.toNat_lt
      have h₁ : a.toNat / 4 * 4 + a.toNat % 4 * 16 / 16 = a.toNat := by omega
      simp only [digits, bytes, h₁, UInt8.ofNat_toNat]
  | two a b =>
      have hb := b.toNat_lt
      have h₁ : a.toNat / 4 * 4 + (a.toNat % 4 * 16 + b.toNat / 16) / 16 = a.toNat := by omega
      have h₂ : (a.toNat % 4 * 16 + b.toNat / 16) % 16 * 16 + b.toNat % 16 * 4 / 4 = b.toNat := by
        omega
      simp only [digits, bytes, h₁, h₂, UInt8.ofNat_toNat]
  | more a b c rest ih =>
      have hb := b.toNat_lt
      have hc := c.toNat_lt
      have h₁ : a.toNat / 4 * 4 + (a.toNat % 4 * 16 + b.toNat / 16) / 16 = a.toNat := by omega
      have h₂ : (a.toNat % 4 * 16 + b.toNat / 16) % 16 * 16 +
          (b.toNat % 16 * 4 + c.toNat / 64) / 4 = b.toNat := by omega
      have h₃ : (b.toNat % 16 * 4 + c.toNat / 64) % 4 * 64 + c.toNat % 64 = c.toNat := by omega
      simp only [digits, List.cons_append, List.nil_append, bytes, h₁, h₂, h₃, ih,
        UInt8.ofNat_toNat]

/-! ## Characters -/

theorem digit_char {d : Nat} (h : d < 64) : digit (char d) = d ∧ char d ≠ 61 := by
  have hall : ∀ d : Fin 64, digit (char d) = d ∧ char d ≠ 61 := by decide
  exact hall ⟨d, h⟩

theorem decode_encode (data : List UInt8) : decode (encode data) = data := by
  have hfilter : (encode data).filter (fun c => decide (c ≠ 61)) = (digits data).map char := by
    rw [encode, List.filter_append, List.filter_eq_self.mpr, List.filter_eq_nil_iff.mpr,
      List.append_nil]
    · intro c hc
      simp [(List.mem_replicate.mp hc).2]
    · intro c hc
      obtain ⟨d, hd, rfl⟩ := List.mem_map.mp hc
      simpa using (digit_char (digits_lt d hd)).2
  have hdigits : ((digits data).map char).map digit = digits data := by
    rw [List.map_map]
    exact (List.map_congr_left fun d hd => (digit_char (digits_lt d hd)).1).trans (List.map_id _)
  rw [decode, hfilter, hdigits, bytes_digits]

theorem encode_injective {data data' : List UInt8} (h : encode data = encode data') :
    data = data' := by
  rw [← decode_encode data, h, decode_encode]

end Base64
