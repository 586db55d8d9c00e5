import Mathlib.Data.List.DropRight
import Mathlib.Data.List.Infix

/-!
# JavaScript strings

A string is the list of its UTF-16 code units, so that `length`, `substring`
and `slice` are `List.length`, `List.take` and `List.drop`. The searches
return the position that JavaScript returns, and `none` for `-1`.
-/

namespace Js

/-- A JavaScript string. -/
abbrev JsString := List UInt16

/-- A literal of characters below U+10000. -/
def units (literal : String) : JsString := literal.toList.map fun c => c.toNat.toUInt16

section Search

variable {α : Type*} [DecidableEq α]

/-- The first position at which `pat` occurs. -/
def indexOf (pat : List α) : List α → Option Nat
  | [] => if pat <+: [] then some 0 else none
  | a :: rest => if pat <+: a :: rest then some 0 else (indexOf pat rest).map (· + 1)

/-- The last position at which `pat` occurs. -/
def lastIndexOf (pat : List α) : List α → Option Nat
  | [] => if pat <+: [] then some 0 else none
  | a :: rest =>
      match lastIndexOf pat rest with
      | some i => some (i + 1)
      | none => if pat <+: a :: rest then some 0 else none

variable {pat s : List α} {i : Nat}

theorem indexOf_eq_none_iff : indexOf pat s = none ↔ ¬ pat <:+: s := by
  induction s with
  | nil => simp [indexOf]
  | cons a rest ih =>
      by_cases h : pat <+: a :: rest
      · simp [indexOf, h, h.isInfix]
      · simp [indexOf, h, ih, List.infix_cons_iff]

theorem lastIndexOf_eq_none_iff : lastIndexOf pat s = none ↔ ¬ pat <:+: s := by
  induction s with
  | nil => simp [lastIndexOf]
  | cons a rest ih =>
      cases hrest : lastIndexOf pat rest with
      | none => simp [lastIndexOf, hrest, List.infix_cons_iff, ih.mp hrest]
      | some i =>
          have hinfix : pat <:+: rest := by
            by_contra h
            simp [ih.mpr h] at hrest
          simp [lastIndexOf, hrest, List.infix_cons_iff, hinfix]

theorem indexOf_eq_some_iff :
    indexOf pat s = some i ↔
      i ≤ s.length ∧ pat <+: s.drop i ∧ ∀ j < i, ¬ pat <+: s.drop j := by
  induction s generalizing i with
  | nil =>
      simp only [indexOf, List.length_nil, Nat.le_zero, List.drop_nil]
      split
      · rename_i h
        constructor
        · rintro ⟨⟩
          simp [h]
        · rintro ⟨rfl, -, -⟩
          rfl
      · rename_i h
        simp [h]
  | cons a rest ih =>
      by_cases h : pat <+: a :: rest
      · simp only [indexOf, h, if_true, Option.some.injEq]
        constructor
        · rintro rfl
          simp [h]
        · rintro ⟨-, -, hfirst⟩
          by_contra hne
          exact hfirst 0 (by omega) h
      · simp only [indexOf, h, if_false, Option.map_eq_some_iff, ih]
        constructor
        · rintro ⟨i, ⟨hle, hat, hfirst⟩, rfl⟩
          refine ⟨by simpa using hle, hat, fun j hj => ?_⟩
          cases j with
          | zero => exact h
          | succ j => exact hfirst j (by omega)
        · rintro ⟨hle, hat, hfirst⟩
          cases i with
          | zero => exact absurd hat h
          | succ i =>
              exact ⟨i, ⟨by simpa using hle, hat, fun j hj => hfirst (j + 1) (by omega)⟩, rfl⟩

theorem lastIndexOf_eq_some_iff :
    lastIndexOf pat s = some i ↔
      i ≤ s.length ∧ pat <+: s.drop i ∧ ∀ j ≤ s.length, i < j → ¬ pat <+: s.drop j := by
  induction s generalizing i with
  | nil =>
      simp only [lastIndexOf, List.length_nil, Nat.le_zero, List.drop_nil]
      split
      · rename_i h
        constructor
        · rintro ⟨⟩
          simp [h]
        · rintro ⟨rfl, -, -⟩
          rfl
      · rename_i h
        simp [h]
  | cons a rest ih =>
      cases hrest : lastIndexOf pat rest with
      | none =>
          have hnone := lastIndexOf_eq_none_iff.mp hrest
          have hlater : ∀ j, ¬ pat <+: rest.drop j := fun j hj =>
            hnone (hj.isInfix.trans (List.drop_suffix j rest).isInfix)
          simp only [lastIndexOf, hrest]
          cases i with
          | zero =>
              simp only [List.drop_zero, Nat.zero_le, true_and]
              refine ⟨fun h => ⟨by by_contra hn; simp [hn] at h, fun j _ hj => ?_⟩,
                fun h => by simp [h.1]⟩
              cases j with
              | zero => omega
              | succ j => exact hlater j
          | succ i =>
              simp only [List.drop_succ_cons]
              refine ⟨fun h => by split at h <;> simp at h, fun h => absurd h.2.1 (hlater i)⟩
      | some last =>
          obtain ⟨hle, hat, hlast⟩ := ih.mp hrest
          simp only [lastIndexOf, hrest, Option.some.injEq]
          constructor
          · rintro rfl
            refine ⟨by simpa using hle, hat, fun j hj hlt => ?_⟩
            cases j with
            | zero => omega
            | succ j => exact hlast j (by simpa using hj) (by omega)
          · rintro ⟨hle', hat', hlast'⟩
            by_contra hne
            cases Nat.lt_or_gt_of_ne hne with
            | inl hlt =>
                cases i with
                | zero => omega
                | succ i => exact hlast i (by simpa using hle') (by omega) hat'
            | inr hgt => exact hlast' (last + 1) (by simpa using hle) hgt hat

/-- The string around its first occurrence of `pat`. -/
theorem indexOf_split (h : indexOf pat s = some i) :
    s = s.take i ++ (pat ++ s.drop (i + pat.length)) := by
  obtain ⟨after, hafter⟩ := (indexOf_eq_some_iff.mp h).2.1
  have hdrop : s.drop (i + pat.length) = after := by
    rw [← List.drop_drop, ← hafter, List.drop_left]
  rw [hdrop, hafter, List.take_append_drop]

/-- Cutting at the first occurrence of one unit. -/
theorem take_indexOf_singleton {a : α} :
    (match indexOf [a] s with
      | some i => s.take i
      | none => s) = s.takeWhile (· ≠ a) := by
  induction s with
  | nil => simp [indexOf]
  | cons b rest ih =>
      by_cases hb : a = b
      · simp [indexOf, hb]
      · have hb' : ¬ b = a := fun h => hb h.symm
        simp only [indexOf, List.cons_prefix_cons, hb, false_and, if_false]
        cases h : indexOf [a] rest <;> simp [h] at ih <;> simp [hb', ← ih]

/-- A unit is found where it first stands. -/
theorem indexOf_append_cons {a : α} (h : a ∉ s) (t : List α) :
    indexOf [a] (s ++ a :: t) = some s.length := by
  induction s with
  | nil => simp [indexOf]
  | cons b s ih =>
      rw [List.mem_cons, not_or] at h
      rw [List.cons_append, indexOf, if_neg (by simp [h.1]), ih h.2]
      rfl

theorem indexOf_of_notMem {a : α} (h : a ∉ s) : indexOf [a] s = none := by
  rw [indexOf_eq_none_iff, List.singleton_infix_iff]
  exact h

end Search

/-- `WhiteSpace` and `LineTerminator`. -/
def isSpace (u : UInt16) : Bool :=
  [0x9, 0xA, 0xB, 0xC, 0xD, 0x20, 0xA0, 0x1680, 0x2028, 0x2029, 0x202F, 0x205F, 0x3000,
    0xFEFF].contains u || decide (0x2000 ≤ u ∧ u ≤ 0x200A)

def trim (s : JsString) : JsString := (s.dropWhile isSpace).rdropWhile isSpace

/-- `!s.trim()` -/
def blank (s : JsString) : Bool := (trim s).isEmpty

theorem blank_eq_all (s : JsString) : blank s = s.all isSpace := by
  rw [Bool.eq_iff_iff, blank, List.isEmpty_iff, trim, List.rdropWhile_eq_nil_iff,
    List.all_eq_true]
  constructor
  · intro h u hu
    rw [← List.takeWhile_append_dropWhile (p := isSpace) (l := s), List.mem_append] at hu
    cases hu with
    | inl hu => exact List.mem_takeWhile_imp hu
    | inr hu => exact h u hu
  · exact fun h u hu => h u (List.dropWhile_suffix isSpace |>.subset hu)

/-- The units of a decimal numeral are digits. -/
theorem mem_decimal {number : Nat} {u : UInt16}
    (hu : u ∈ (Nat.toDigits 10 number).map fun c => c.toNat.toUInt16) :
    48 ≤ u.toNat ∧ u.toNat ≤ 57 := by
  obtain ⟨c, hc, rfl⟩ := List.mem_map.mp hu
  have hdigit := Nat.isDigit_of_mem_toDigits (by omega) (by omega) hc
  simp only [Char.isDigit, ge_iff_le, Bool.and_eq_true, decide_eq_true_eq] at hdigit
  have hlow : 48 ≤ c.toNat := hdigit.1
  have hhigh : c.toNat ≤ 57 := hdigit.2
  rw [Nat.toUInt16_eq, UInt16.toNat_ofNat', Nat.mod_eq_of_lt (by omega)]
  exact ⟨hlow, hhigh⟩

end Js
