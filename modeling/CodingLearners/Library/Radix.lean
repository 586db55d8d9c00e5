import Mathlib.Data.Nat.Digits.Defs
import Mathlib.Data.Nat.Digits.Lemmas

/-!
# Numerals of a fixed width

A number is written with a fixed count of digits, the highest first. Writing and
reading are inverse to each other, and numerals of one width are ordered as their
numbers are.
-/

namespace Radix

/-- The number that a list of digits stands for. -/
def value (base : Nat) (digits : List Nat) : Nat := Nat.ofDigits base digits.reverse

/-- The `width` lowest digits of a number. -/
def digits (base : Nat) : Nat → Nat → List Nat
  | 0, _ => []
  | width + 1, n => digits base width (n / base) ++ [n % base]

variable {base : Nat} {ds es : List Nat}

@[simp] theorem value_nil : value base [] = 0 := rfl

theorem value_cons (d : Nat) (ds : List Nat) :
    value base (d :: ds) = value base ds + base ^ ds.length * d :=
  Nat.ofDigits_reverse_cons ds d

theorem value_concat (ds : List Nat) (d : Nat) :
    value base (ds ++ [d]) = d + base * value base ds := by
  simp [value, Nat.ofDigits_cons]

@[simp] theorem length_digits (base width n : Nat) : (digits base width n).length = width := by
  induction width generalizing n with
  | zero => rfl
  | succ width ih => simp [digits, ih]

theorem digits_lt (hbase : 0 < base) {width n : Nat} : ∀ d ∈ digits base width n, d < base := by
  induction width generalizing n with
  | zero => simp [digits]
  | succ width ih =>
      intro d hd
      rcases List.mem_append.mp hd with hd | hd
      · exact ih d hd
      · rw [List.mem_singleton.mp hd]
        exact Nat.mod_lt n hbase

theorem value_digits (base width n : Nat) :
    value base (digits base width n) = n % base ^ width := by
  induction width generalizing n with
  | zero => simp [digits, Nat.mod_one]
  | succ width ih =>
      calc value base (digits base (width + 1) n)
          = n % base + base * (n / base % base ^ width) := by rw [digits, value_concat, ih]
        _ = n % base ^ (width + 1) := by rw [pow_succ', Nat.mod_mul]

/-- One digit more is one higher digit in front. -/
theorem digits_succ_eq_cons (base width n : Nat) :
    digits base (width + 1) n = n / base ^ width % base :: digits base width n := by
  induction width generalizing n with
  | zero => simp [digits]
  | succ width ih =>
      calc digits base (width + 1 + 1) n
          = digits base (width + 1) (n / base) ++ [n % base] := rfl
        _ = n / base / base ^ width % base :: digits base (width + 1) n := by
          rw [ih, List.cons_append, digits]
        _ = n / base ^ (width + 1) % base :: digits base (width + 1) n := by
          rw [Nat.div_div_eq_div_mul, pow_succ']

theorem value_lt (hbase : 1 < base) (hds : ∀ d ∈ ds, d < base) :
    value base ds < base ^ ds.length := by
  rw [value, ← List.length_reverse]
  exact Nat.ofDigits_lt_base_pow_length hbase fun d hd => hds d (List.mem_reverse.mp hd)

/-- Between numerals of one width the order is that of the first digit that differs. -/
theorem value_lt_of_lex (hbase : 1 < base) (hds : ∀ d ∈ ds, d < base)
    (hlength : ds.length = es.length) (hlex : List.Lex (· < ·) ds es) :
    value base ds < value base es := by
  induction hlex with
  | nil => simp at hlength
  | cons _ ih =>
      have hlength' := Nat.succ.inj hlength
      have hrest := ih (fun e he => hds e (List.mem_cons_of_mem _ he)) hlength'
      rw [value_cons, value_cons, hlength']
      omega
  | @rel d ds e es hlt =>
      have hlength' : ds.length = es.length := Nat.succ.inj hlength
      have hrest := value_lt hbase fun e he => hds e (List.mem_cons_of_mem d he)
      calc value base (d :: ds) = value base ds + base ^ ds.length * d := value_cons d ds
        _ < base ^ ds.length + base ^ ds.length * d := by omega
        _ = base ^ ds.length * (d + 1) := by rw [Nat.mul_succ, Nat.add_comm]
        _ ≤ base ^ es.length * e := by
          rw [hlength']
          exact Nat.mul_le_mul_left _ hlt
        _ ≤ value base es + base ^ es.length * e := Nat.le_add_left _ _
        _ = value base (e :: es) := (value_cons e es).symm

/-- Two numerals of one width are equal or differ in a first digit. -/
theorem lex_trichotomy (hlength : ds.length = es.length) :
    List.Lex (· < ·) ds es ∨ ds = es ∨ List.Lex (· < ·) es ds := by
  induction ds generalizing es with
  | nil => exact Or.inr (Or.inl (List.length_eq_zero_iff.mp hlength.symm).symm)
  | cons d ds ih =>
      cases es with
      | nil => simp at hlength
      | cons e es =>
          rcases Nat.lt_trichotomy d e with hlt | rfl | hgt
          · exact Or.inl (.rel hlt)
          · rcases ih (Nat.succ.inj hlength) with h | rfl | h
            · exact Or.inl (.cons h)
            · exact Or.inr (Or.inl rfl)
            · exact Or.inr (Or.inr (.cons h))
          · exact Or.inr (Or.inr (.rel hgt))

theorem eq_or_lex_of_value_le (hbase : 1 < base) (hes : ∀ e ∈ es, e < base)
    (hlength : ds.length = es.length) (hle : value base ds ≤ value base es) :
    ds = es ∨ List.Lex (· < ·) ds es := by
  rcases lex_trichotomy hlength with h | h | h
  · exact Or.inr h
  · exact Or.inl h
  · have hlt := value_lt_of_lex hbase hes hlength.symm h
    omega

theorem value_injective (hbase : 1 < base) (hds : ∀ d ∈ ds, d < base)
    (hes : ∀ e ∈ es, e < base) (hlength : ds.length = es.length)
    (h : value base ds = value base es) : ds = es := by
  apply List.reverse_injective
  apply Nat.ofDigits_inj_of_len_eq hbase
  · rw [List.length_reverse, List.length_reverse, hlength]
  · exact fun d hd => hds d (List.mem_reverse.mp hd)
  · exact fun e he => hes e (List.mem_reverse.mp he)
  · exact h

/-- Symbols that are ordered as their digits are carry the order over to their lists. -/
theorem lex_of_lex_map {α : Type*} {digit : α → Nat} {before : α → α → Prop} {s t : List α}
    (hbefore : ∀ a ∈ s, ∀ b ∈ t, digit a < digit b → before a b)
    (hinj : ∀ a ∈ s, ∀ b ∈ t, digit a = digit b → a = b)
    (hlex : List.Lex (· < ·) (s.map digit) (t.map digit)) : List.Lex before s t := by
  induction s generalizing t with
  | nil =>
      cases t with
      | nil => contradiction
      | cons b t => exact .nil
  | cons a s ih =>
      cases t with
      | nil => contradiction
      | cons b t =>
          rcases List.cons_lex_cons_iff.mp hlex with hlt | ⟨heq, hrest⟩
          · exact .rel (hbefore a List.mem_cons_self b List.mem_cons_self hlt)
          · rw [hinj a List.mem_cons_self b List.mem_cons_self heq]
            apply List.Lex.cons
            apply ih _ _ hrest
            · intro a' ha' b' hb'
              exact hbefore a' (List.mem_cons_of_mem a ha') b' (List.mem_cons_of_mem b hb')
            · intro a' ha' b' hb'
              exact hinj a' (List.mem_cons_of_mem a ha') b' (List.mem_cons_of_mem b hb')

end Radix
