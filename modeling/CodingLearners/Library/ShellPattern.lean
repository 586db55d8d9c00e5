import Mathlib.Data.List.Infix

/-!
# Patterns of the shell

The patterns of a parameter expansion, with literals, `?` and `*`, and the four
expansions that cut off the shortest or longest prefix or suffix that a pattern
matches. Each cut is determined by the split at which it is made.
-/

namespace ShellPattern

variable {α : Type*} {text a b : List α} {c : α}

/-- The first occurrence of a character. -/
theorem length_le_of_first {a' r : List α} (h : a' ++ c :: r = a ++ c :: b) (hc : c ∉ a) :
    a.length ≤ a'.length := by
  rcases List.append_eq_append_iff.mp h with ⟨t, rfl, ht⟩ | ⟨t, rfl, _⟩
  · cases t with
    | nil => simp
    | cons x t =>
        rw [List.cons_append, List.cons.injEq] at ht
        exact absurd (by simp [ht.1]) hc
  · simp

/-- The last occurrence of a character. -/
theorem length_le_of_last {a' r : List α} (h : a' ++ c :: r = a ++ c :: b) (hc : c ∉ b) :
    a'.length ≤ a.length := by
  rcases List.append_eq_append_iff.mp h with ⟨t, rfl, _⟩ | ⟨t, rfl, ht⟩
  · simp
  · cases t with
    | nil => simp
    | cons x t =>
        rw [List.cons_append, List.cons.injEq] at ht
        exact absurd (by simp [ht.2]) hc

theorem eq_append_cons_last (h : c ∈ text) : ∃ a b, text = a ++ c :: b ∧ c ∉ b := by
  obtain ⟨a, b, htext, ha⟩ := List.eq_append_cons_of_mem (List.mem_reverse.mpr h)
  refine ⟨b.reverse, a.reverse, ?_, by simpa using ha⟩
  rw [← List.reverse_reverse text, htext]
  simp

/-- The last occurrence of a character before another one. -/
theorem eq_append_cons_any (a : List α) (c y : α) (b : List α) :
    ∃ a' y' b', a ++ c :: y :: b = a' ++ c :: y' :: b' ∧ c ∉ (y' :: b').dropLast := by
  have hne : a ++ c :: y :: b ≠ [] := by simp
  have hmem : c ∈ (a ++ c :: y :: b).dropLast := by
    rw [List.dropLast_append_of_ne_nil (by simp)]
    simp
  obtain ⟨a', t, hdrop, ht⟩ := eq_append_cons_last hmem
  have htext : a ++ c :: y :: b = a' ++ c :: (t ++ [(a ++ c :: y :: b).getLast hne]) := by
    calc
      a ++ c :: y :: b = (a ++ c :: y :: b).dropLast ++ [(a ++ c :: y :: b).getLast hne] :=
        (List.dropLast_append_getLast hne).symm
      _ = _ := by simp [hdrop]
  cases hlast : t ++ [(a ++ c :: y :: b).getLast hne] with
  | nil => simp at hlast
  | cons y' b' =>
      refine ⟨a', y', b', hlast ▸ htext, ?_⟩
      rw [← hlast]
      simpa using ht

variable [DecidableEq α]

/-- A part of a pattern: a literal, `?` or `*`. -/
inductive Item (α : Type*)
  | lit (a : α)
  | any
  | many

open Item

/-- The pattern matches the whole text. -/
def accepts : List (Item α) → List α → Bool
  | [], text => text.isEmpty
  | lit a :: pattern, text =>
      match text with
      | [] => false
      | b :: rest => decide (a = b) && accepts pattern rest
  | any :: pattern, text =>
      match text with
      | [] => false
      | _ :: rest => accepts pattern rest
  | many :: pattern, text => text.tails.any (accepts pattern)

/-- `${text#pattern}` -/
def cutShortestPrefix (pattern : List (Item α)) (text : List α) : List α :=
  match (List.range (text.length + 1)).find? fun k => accepts pattern (text.take k) with
  | some k => text.drop k
  | none => text

/-- `${text##pattern}` -/
def cutLongestPrefix (pattern : List (Item α)) (text : List α) : List α :=
  match (List.range (text.length + 1)).reverse.find? fun k => accepts pattern (text.take k) with
  | some k => text.drop k
  | none => text

/-- `${text%pattern}` -/
def cutShortestSuffix (pattern : List (Item α)) (text : List α) : List α :=
  match (List.range (text.length + 1)).reverse.find? fun k => accepts pattern (text.drop k) with
  | some k => text.take k
  | none => text

/-- `${text%%pattern}` -/
def cutLongestSuffix (pattern : List (Item α)) (text : List α) : List α :=
  match (List.range (text.length + 1)).find? fun k => accepts pattern (text.drop k) with
  | some k => text.take k
  | none => text

/-! ## What a pattern matches -/

variable {pattern : List (Item α)}

@[simp] theorem accepts_nil : accepts ([] : List (Item α)) text = true ↔ text = [] := by
  simp [accepts]

@[simp] theorem accepts_lit :
    accepts (lit c :: pattern) text = true ↔
      ∃ rest, text = c :: rest ∧ accepts pattern rest = true := by
  cases text with
  | nil => simp [accepts]
  | cons b rest =>
      simp only [accepts, Bool.and_eq_true, decide_eq_true_eq, List.cons.injEq]
      constructor
      · rintro ⟨rfl, h⟩
        exact ⟨rest, ⟨rfl, rfl⟩, h⟩
      · rintro ⟨_, ⟨rfl, rfl⟩, h⟩
        exact ⟨rfl, h⟩

@[simp] theorem accepts_any :
    accepts (any :: pattern) text = true ↔
      ∃ c rest, text = c :: rest ∧ accepts pattern rest = true := by
  cases text with
  | nil => simp [accepts]
  | cons b rest => simp [accepts]

@[simp] theorem accepts_many :
    accepts (many :: pattern) text = true ↔
      ∃ front rest, text = front ++ rest ∧ accepts pattern rest = true := by
  simp only [accepts, List.any_eq_true, List.mem_tails]
  constructor
  · rintro ⟨rest, ⟨front, rfl⟩, h⟩
    exact ⟨front, rest, rfl, h⟩
  · rintro ⟨front, rest, rfl, h⟩
    exact ⟨rest, ⟨front, rfl⟩, h⟩

/-! ## Where a cut is made -/

theorem find?_range_reverse {n k : Nat} {q : Nat → Bool} (hk : k < n) (hq : q k = true)
    (hmax : ∀ j, k < j → j < n → q j = false) : (List.range n).reverse.find? q = some k := by
  induction n with
  | zero => omega
  | succ n ih =>
      rw [List.range_succ, List.reverse_append, List.reverse_singleton, List.singleton_append]
      rcases Nat.lt_or_eq_of_le (Nat.le_of_lt_succ hk) with hlt | rfl
      · rw [List.find?_cons_of_neg (by simp [hmax n hlt (Nat.lt_succ_self n)])]
        exact ih hlt fun j hj hn => hmax j hj (Nat.lt_succ_of_lt hn)
      · exact List.find?_cons_of_pos hq

/-- The shortest prefix: no shorter one matches. -/
theorem cutShortestPrefix_eq (hmatch : accepts pattern a = true)
    (hmin : ∀ a' b', a' ++ b' = a ++ b → accepts pattern a' = true → a.length ≤ a'.length) :
    cutShortestPrefix pattern (a ++ b) = b := by
  have hfind : (List.range ((a ++ b).length + 1)).find?
      (fun k => accepts pattern ((a ++ b).take k)) = some a.length := by
    rw [List.find?_range_eq_some]
    refine ⟨by simpa using hmatch, List.mem_range.mpr (by rw [List.length_append]; omega),
      fun j hj => ?_⟩
    by_contra hnot
    have hle := hmin _ _ (List.take_append_drop j (a ++ b)) (by simpa using hnot)
    rw [List.length_take] at hle
    omega
  rw [cutShortestPrefix, hfind]
  simp

/-- The longest prefix: no longer one matches. -/
theorem cutLongestPrefix_eq (hmatch : accepts pattern a = true)
    (hmax : ∀ a' b', a' ++ b' = a ++ b → accepts pattern a' = true → a'.length ≤ a.length) :
    cutLongestPrefix pattern (a ++ b) = b := by
  have hfind : (List.range ((a ++ b).length + 1)).reverse.find?
      (fun k => accepts pattern ((a ++ b).take k)) = some a.length := by
    apply find?_range_reverse
    · rw [List.length_append]
      omega
    · simpa using hmatch
    · intro j hj hn
      by_contra hnot
      have hle := hmax _ _ (List.take_append_drop j (a ++ b)) (by simpa using hnot)
      rw [List.length_take] at hle
      omega
  rw [cutLongestPrefix, hfind]
  simp

/-- The shortest suffix: no shorter one matches. -/
theorem cutShortestSuffix_eq (hmatch : accepts pattern b = true)
    (hmin : ∀ a' b', a' ++ b' = a ++ b → accepts pattern b' = true → a'.length ≤ a.length) :
    cutShortestSuffix pattern (a ++ b) = a := by
  have hfind : (List.range ((a ++ b).length + 1)).reverse.find?
      (fun k => accepts pattern ((a ++ b).drop k)) = some a.length := by
    apply find?_range_reverse
    · rw [List.length_append]
      omega
    · simpa using hmatch
    · intro j hj hn
      by_contra hnot
      have hle := hmin _ _ (List.take_append_drop j (a ++ b)) (by simpa using hnot)
      rw [List.length_take] at hle
      omega
  rw [cutShortestSuffix, hfind]
  simp

/-- The longest suffix: no longer one matches. -/
theorem cutLongestSuffix_eq (hmatch : accepts pattern b = true)
    (hmax : ∀ a' b', a' ++ b' = a ++ b → accepts pattern b' = true → a.length ≤ a'.length) :
    cutLongestSuffix pattern (a ++ b) = a := by
  have hfind : (List.range ((a ++ b).length + 1)).find?
      (fun k => accepts pattern ((a ++ b).drop k)) = some a.length := by
    rw [List.find?_range_eq_some]
    refine ⟨by simpa using hmatch, List.mem_range.mpr (by rw [List.length_append]; omega),
      fun j hj => ?_⟩
    by_contra hnot
    have hle := hmax _ _ (List.take_append_drop j (a ++ b)) (by simpa using hnot)
    rw [List.length_take] at hle
    omega
  rw [cutLongestSuffix, hfind]
  simp

/-- Where no prefix matches nothing is cut off. -/
theorem cutPrefix_none (hnone : ∀ a b, a ++ b = text → accepts pattern a = false) :
    cutShortestPrefix pattern text = text ∧ cutLongestPrefix pattern text = text := by
  have hall : ∀ k, accepts pattern (text.take k) = false := fun k =>
    hnone _ _ (List.take_append_drop k text)
  have hfind : ∀ positions : List Nat,
      positions.find? (fun k => accepts pattern (text.take k)) = none := by
    intro positions
    simp [hall]
  constructor
  · rw [cutShortestPrefix, hfind]
  · rw [cutLongestPrefix, hfind]

/-- Where no suffix matches nothing is cut off. -/
theorem cutSuffix_none (hnone : ∀ a b, a ++ b = text → accepts pattern b = false) :
    cutShortestSuffix pattern text = text ∧ cutLongestSuffix pattern text = text := by
  have hall : ∀ k, accepts pattern (text.drop k) = false := fun k =>
    hnone _ _ (List.take_append_drop k text)
  have hfind : ∀ positions : List Nat,
      positions.find? (fun k => accepts pattern (text.drop k)) = none := by
    intro positions
    simp [hall]
  constructor
  · rw [cutShortestSuffix, hfind]
  · rw [cutLongestSuffix, hfind]

theorem cutLongestSuffix_prefix : cutLongestSuffix pattern text <+: text := by
  unfold cutLongestSuffix
  split
  · exact List.take_prefix _ _
  · exact List.prefix_rfl

/-! ## Cuts at a character -/

/-- `*c` accepts what ends in the character. -/
theorem accepts_many_lit :
    accepts [many, lit c] text = true ↔ ∃ front, text = front ++ [c] := by
  simp only [accepts_many, accepts_lit, accepts_nil]
  constructor
  · rintro ⟨front, _, rfl, _, rfl, rfl⟩
    exact ⟨front, rfl⟩
  · rintro ⟨front, rfl⟩
    exact ⟨front, [c], rfl, [], rfl, rfl⟩

/-- `c*` accepts what begins with the character. -/
theorem accepts_lit_many :
    accepts [lit c, many] text = true ↔ ∃ rest, text = c :: rest := by
  simp

/-- `${text#*c}` -/
theorem cutShortestPrefix_char (hc : c ∉ a) :
    cutShortestPrefix [many, lit c] (a ++ c :: b) = b := by
  have htext : a ++ c :: b = (a ++ [c]) ++ b := by simp
  rw [htext]
  apply cutShortestPrefix_eq (by simp)
  intro a' b' happend hmatch
  obtain ⟨front, rfl⟩ := accepts_many_lit.mp hmatch
  have hle : a.length ≤ front.length := length_le_of_first (by simpa using happend) hc
  simpa using hle

/-- `${text##*c}` -/
theorem cutLongestPrefix_char (hc : c ∉ b) :
    cutLongestPrefix [many, lit c] (a ++ c :: b) = b := by
  have htext : a ++ c :: b = (a ++ [c]) ++ b := by simp
  rw [htext]
  apply cutLongestPrefix_eq (by simp)
  intro a' b' happend hmatch
  obtain ⟨front, rfl⟩ := accepts_many_lit.mp hmatch
  have hle : front.length ≤ a.length := length_le_of_last (by simpa using happend) hc
  simpa using hle

/-- `${text%c*}` -/
theorem cutShortestSuffix_char (hc : c ∉ b) :
    cutShortestSuffix [lit c, many] (a ++ c :: b) = a := by
  apply cutShortestSuffix_eq (by simp)
  intro a' b' happend hmatch
  obtain ⟨rest, rfl⟩ := accepts_lit_many.mp hmatch
  exact length_le_of_last happend hc

/-- `${text%%c*}` -/
theorem cutLongestSuffix_char (hc : c ∉ a) :
    cutLongestSuffix [lit c, many] (a ++ c :: b) = a := by
  apply cutLongestSuffix_eq (by simp)
  intro a' b' happend hmatch
  obtain ⟨rest, rfl⟩ := accepts_lit_many.mp hmatch
  exact length_le_of_first happend hc

/-- Without the character nothing is cut off in front. -/
theorem cutPrefix_of_not_mem (hc : c ∉ text) :
    cutShortestPrefix [many, lit c] text = text ∧ cutLongestPrefix [many, lit c] text = text := by
  apply cutPrefix_none
  rintro a b rfl
  rw [Bool.eq_false_iff]
  intro hmatch
  obtain ⟨front, rfl⟩ := accepts_many_lit.mp hmatch
  simp at hc

/-- Without the character nothing is cut off behind. -/
theorem cutSuffix_of_not_mem (hc : c ∉ text) :
    cutShortestSuffix [lit c, many] text = text ∧ cutLongestSuffix [lit c, many] text = text := by
  apply cutSuffix_none
  rintro a b rfl
  rw [Bool.eq_false_iff]
  intro hmatch
  obtain ⟨rest, rfl⟩ := accepts_lit_many.mp hmatch
  simp at hc

/-- What stands before the first occurrence is kept. -/
theorem cutLongestSuffix_char_append {front : List α} (hfront : c ∉ front) (rest : List α) :
    cutLongestSuffix [lit c, many] (front ++ rest) =
      front ++ cutLongestSuffix [lit c, many] rest := by
  by_cases hc : c ∈ rest
  · obtain ⟨a, b, rfl, ha⟩ := List.eq_append_cons_of_mem hc
    have hfirst : c ∉ front ++ a := by simp [hfront, ha]
    rw [← List.append_assoc, cutLongestSuffix_char hfirst, cutLongestSuffix_char ha]
  · have hnone : c ∉ front ++ rest := by simp [hfront, hc]
    rw [(cutSuffix_of_not_mem hnone).2, (cutSuffix_of_not_mem hc).2]

/-- What is kept does not have the character. -/
theorem not_mem_cutLongestSuffix_char : c ∉ cutLongestSuffix [lit c, many] text := by
  by_cases hc : c ∈ text
  · obtain ⟨a, b, rfl, ha⟩ := List.eq_append_cons_of_mem hc
    rwa [cutLongestSuffix_char ha]
  · rwa [(cutSuffix_of_not_mem hc).2]

/-- `${text#*cc}` -/
theorem cutShortestPrefix_double (hc : c ∉ a) :
    cutShortestPrefix [many, lit c, lit c] (a ++ c :: c :: b) = b := by
  have htext : a ++ c :: c :: b = (a ++ [c, c]) ++ b := by simp
  rw [htext]
  apply cutShortestPrefix_eq (by simp)
  intro a' b' happend hmatch
  simp only [accepts_many, accepts_lit, accepts_nil] at hmatch
  obtain ⟨front, _, rfl, _, rfl, _, rfl, rfl⟩ := hmatch
  have hle : a.length ≤ front.length :=
    length_le_of_first (b := c :: b) (r := c :: b') (by simpa using happend) hc
  simpa using hle

/-- `${text#*c?}` -/
theorem cutShortestPrefix_any {y : α} (hc : c ∉ a) :
    cutShortestPrefix [many, lit c, any] (a ++ c :: y :: b) = b := by
  have htext : a ++ c :: y :: b = (a ++ [c, y]) ++ b := by simp
  have hmatch : accepts [many, lit c, any] (a ++ [c, y]) = true := by
    simpa using ⟨a, y, rfl⟩
  rw [htext]
  apply cutShortestPrefix_eq hmatch
  intro a' b' happend hmatch
  simp only [accepts_many, accepts_lit, accepts_any, accepts_nil] at hmatch
  obtain ⟨front, _, rfl, _, rfl, y', _, rfl, rfl⟩ := hmatch
  have hle : a.length ≤ front.length :=
    length_le_of_first (b := y :: b) (r := y' :: b') (by simpa using happend) hc
  simpa using hle

/-- `${text%c?*}` -/
theorem cutShortestSuffix_any {y : α} (hc : c ∉ (y :: b).dropLast) :
    cutShortestSuffix [lit c, any, many] (a ++ c :: y :: b) = a := by
  apply cutShortestSuffix_eq (by simp)
  intro a' b' happend hmatch
  simp only [accepts_lit, accepts_any, accepts_many, accepts_nil] at hmatch
  obtain ⟨_, rfl, y', rest, rfl, _⟩ := hmatch
  rcases List.append_eq_append_iff.mp happend with ⟨t, rfl, _⟩ | ⟨t, rfl, ht⟩
  · simp
  · cases t with
    | nil => simp
    | cons x t =>
        rw [List.cons_append, List.cons.injEq] at ht
        rw [ht.2, List.dropLast_append_of_ne_nil (by simp)] at hc
        simp at hc

/-- What stands before the text is kept. -/
theorem cutShortestSuffix_any_append (front a b : List α) (c y : α) :
    cutShortestSuffix [lit c, any, many] (front ++ (a ++ c :: y :: b)) =
      front ++ cutShortestSuffix [lit c, any, many] (a ++ c :: y :: b) := by
  obtain ⟨a', y', b', htext, hc⟩ := eq_append_cons_any a c y b
  rw [htext, ← List.append_assoc, cutShortestSuffix_any hc, cutShortestSuffix_any hc]

/-- What stands before the text is cut off. -/
theorem cutLongestPrefix_char_append (front a b : List α) (c : α) :
    cutLongestPrefix [many, lit c] (front ++ (a ++ c :: b)) =
      cutLongestPrefix [many, lit c] (a ++ c :: b) := by
  obtain ⟨a', b', htext, hc⟩ := eq_append_cons_last (show c ∈ a ++ c :: b by simp)
  rw [htext, ← List.append_assoc, cutLongestPrefix_char hc, cutLongestPrefix_char hc]

end ShellPattern
