import Mathlib.Data.List.Count

/-!
# Literals between quotes

In a literal a doubled quote stands for one quote, as in SQL; the first quote
that is not doubled ends it.
-/

namespace QuotedLiteral

variable {α : Type*} [DecidableEq α] (quote : α)

/-- A text with its quotes doubled. -/
def escape (text : List α) : List α :=
  text.flatMap fun c => if c = quote then [quote, quote] else [c]

/-- What stands behind an opening quote: the value of the literal and what
follows its closing quote, or `none` if the literal is not closed. -/
def read : List α → Option (List α × List α)
  | [] => none
  | c :: text =>
      if c = quote then
        match text with
        | [] => some ([], [])
        | d :: after =>
            if d = quote then (read after).map fun (value, rest) => (quote :: value, rest)
            else some ([], d :: after)
      else (read text).map fun (value, rest) => (c :: value, rest)

variable {quote}

theorem escape_cons (c : α) (text : List α) :
    escape quote (c :: text) = (if c = quote then [quote, quote] else [c]) ++ escape quote text :=
  List.flatMap_cons

theorem read_cons {c : α} (hc : c ≠ quote) (text : List α) :
    read quote (c :: text) = (read quote text).map fun (value, rest) => (c :: value, rest) := by
  cases text <;> simp [read, hc]

theorem length_escape (text : List α) :
    (escape quote text).length = text.length + text.count quote := by
  induction text with
  | nil => rfl
  | cons c text ih =>
      rw [escape_cons, List.length_append, ih, List.length_cons, List.count_cons]
      by_cases hc : c = quote
      · simp only [hc, if_true, List.length_cons, List.length_nil, beq_self_eq_true]
        omega
      · simp only [hc, if_false, List.length_singleton, beq_iff_eq]
        omega

theorem escape_of_notMem {text : List α} (h : quote ∉ text) : escape quote text = text := by
  induction text with
  | nil => rfl
  | cons c text ih =>
      rw [List.mem_cons, not_or] at h
      rw [escape_cons, if_neg (Ne.symm h.1), ih h.2, List.singleton_append]

theorem mem_escape {c : α} {text : List α} (h : c ∈ text) : c ∈ escape quote text := by
  refine List.mem_flatMap.mpr ⟨c, h, ?_⟩
  split
  · next hc => simp [hc]
  · exact List.mem_singleton_self c

/-- An escaped text is read back, if no quote follows. -/
theorem read_escape (value : List α) {rest : List α} (hrest : rest.head? ≠ some quote) :
    read quote (escape quote value ++ quote :: rest) = some (value, rest) := by
  induction value with
  | nil =>
      cases rest with
      | nil => simp [escape, read]
      | cons d rest =>
          have hd : d ≠ quote := fun h => hrest (by rw [h, List.head?_cons])
          simp [escape, read, hd]
  | cons c value ih =>
      rw [escape_cons, List.append_assoc]
      by_cases hc : c = quote
      · simp [hc, read, ih]
      · simp [hc, read_cons, ih]

/-- What is read was escaped. -/
theorem read_sound {text value rest : List α} (h : read quote text = some (value, rest)) :
    text = escape quote value ++ quote :: rest ∧ rest.head? ≠ some quote := by
  fun_induction read quote text generalizing value with
  | case1 => cases h
  | case2 =>
      cases h
      simp [escape]
  | case3 after ih =>
      obtain ⟨⟨value', rest'⟩, hread, heq⟩ := Option.map_eq_some_iff.mp h
      cases heq
      obtain ⟨htext, hhead⟩ := ih hread
      exact ⟨by simp [escape_cons, htext], hhead⟩
  | case4 d after hd =>
      cases h
      simpa [escape] using hd
  | case5 c text hc ih =>
      obtain ⟨⟨value', rest'⟩, hread, heq⟩ := Option.map_eq_some_iff.mp h
      cases heq
      obtain ⟨htext, hhead⟩ := ih hread
      exact ⟨by simp [escape_cons, hc, htext], hhead⟩

theorem read_eq_some_iff {text value rest : List α} :
    read quote text = some (value, rest) ↔
      text = escape quote value ++ quote :: rest ∧ rest.head? ≠ some quote :=
  ⟨read_sound, fun ⟨htext, hrest⟩ => htext ▸ read_escape value hrest⟩

/-- A text that is put between quotes is a literal of a value of its own length
only if it has no quote. -/
theorem read_append_quote_iff {text value rest : List α} (hlength : value.length = text.length) :
    read quote (text ++ [quote]) = some (value, rest) ↔
      value = text ∧ rest = [] ∧ quote ∉ text := by
  rw [read_eq_some_iff]
  constructor
  · rintro ⟨htext, -⟩
    have hlengths := congrArg List.length htext
    simp only [List.length_append, length_escape, List.length_cons, List.length_nil] at hlengths
    have hcount : value.count quote = 0 := by omega
    have hrest : rest = [] := List.eq_nil_of_length_eq_zero (by omega)
    have hnot : quote ∉ value := List.count_eq_zero.mp hcount
    rw [hrest, escape_of_notMem hnot] at htext
    obtain rfl := List.append_cancel_right htext
    exact ⟨rfl, hrest, hnot⟩
  · rintro ⟨rfl, rfl, hnot⟩
    exact ⟨by rw [escape_of_notMem hnot], by simp⟩

end QuotedLiteral
