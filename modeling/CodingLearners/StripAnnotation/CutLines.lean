import CodingLearners.StripAnnotation.Literals

/-!
# What is kept of a line that is cut

A pair of delimiters is cut out of its line, and the end of a docstring off the
line on which it closes. Both cuts end in a slice that leaves out the last
character of what is kept.
-/

namespace CodingLearners.StripAnnotation

open Js

/-- A docstring up to the delimiter at `p`, if that closes it. -/
def cutDocstring (mode : Mode) (q : Delimiter) (p : Nat) (line : JsString) :
    Option (JsString × JsString) :=
  match mode with
  | .doc q₀ => if closedBy q₀ q then some ([], line.drop (p + 3)) else none
  | _ => none

/-- The text before and behind what the handler cuts out of a line, if it cuts:
a pair of delimiters, or a docstring up to the delimiter that closes it. -/
def cutOut (t : Tool) (line : JsString) : Option (JsString × JsString) :=
  match found line with
  | none => none
  | some (q, p) =>
      if isAnnot line then cutDocstring t.mode q p line
      else if assigned t.lasttail (line.take p) || t.mode.isValue then none
      else if repeated q p line then
        some (line.take p, line.drop ((lastIndexOf (quotes q) line).getD 0 + 3))
      else cutDocstring t.mode q p line

theorem cutDocstring_eq_some {mode : Mode} {q : Delimiter} {p : Nat}
    {line before after : JsString} (h : cutDocstring mode q p line = some (before, after)) :
    (∃ q₀, mode = .doc q₀ ∧ closedBy q₀ q = true) ∧ before = [] ∧ after = line.drop (p + 3) := by
  cases mode with
  | doc q₀ =>
      rw [cutDocstring] at h
      split at h
      · rename_i hclosed
        obtain ⟨rfl, rfl⟩ := Prod.mk.inj (Option.some.inj h)
        exact ⟨⟨q₀, rfl, hclosed⟩, rfl, rfl⟩
      · contradiction
  | top => contradiction
  | value q₀ => contradiction

theorem blank_append (s rest : JsString) : blank (s ++ rest) = (blank s && blank rest) := by
  rw [blank_eq_all, blank_eq_all, blank_eq_all, List.all_append]

theorem blank_dropLast {s : JsString} (h : blank s = true) : blank s.dropLast = true := by
  rw [blank_eq_all, List.all_eq_true] at h ⊢
  intro u hu
  exact h u (List.mem_of_mem_dropLast hu)

/-- Without its last character a text is written the same only if there was
none, or if all of the line is blank. -/
theorem unlessBlank_dropLast_iff (before after : JsString) :
    unlessBlank (before ++ after.dropLast) = unlessBlank (before ++ after) ↔
      after = [] ∨ blank (before ++ after) = true := by
  constructor
  · intro heq
    by_contra hnot
    obtain ⟨hne, hblank⟩ := not_or.mp hnot
    rw [unlessBlank, unlessBlank, if_neg hblank] at heq
    split at heq
    · simp at heq
    · have hlength := congrArg List.length (List.append_cancel_left (Option.some.inj heq))
      have hpos := List.length_pos_iff.mpr hne
      rw [List.length_dropLast] at hlength
      omega
  · rintro (rfl | hblank)
    · rfl
    · rw [blank_append, Bool.and_eq_true] at hblank
      have hcut : blank (before ++ after.dropLast) = true := by
        rw [blank_append, hblank.1, blank_dropLast hblank.2]
        rfl
      simp [unlessBlank, hcut, blank_append, hblank]

theorem cutPair_eq {q : Delimiter} {p j : Nat} {line : JsString}
    (hj : lastIndexOf (quotes q) line = some j) :
    cutPair q p line = line.take p ++ (line.drop (j + 3)).dropLast := by
  simp only [cutPair, cutSameLine, hj, Option.getD_some, sliceToLast]
  split
  · rename_i hend
    simp [hend]
  · rfl

theorem cutClosing_eq (p : Nat) (line : JsString) :
    cutClosing p line = unlessBlank (line.drop (p + 3)).dropLast := by
  rw [cutClosing, sliceToLast]
  split
  · rename_i hend
    simp [hend, unlessBlank, blank_eq_all]
  · rfl

theorem blank_of_found {line : JsString} {f : Delimiter × Nat} (h : found line = some f) :
    blank line = false :=
  blank_of_indexOf (found_spec h).2.1

/-- A line that is cut is written without the last character of its rest; nothing
is written of a comment line. -/
theorem output_cutOut {t : Tool} {line before after : JsString}
    (h : cutOut t line = some (before, after)) :
    if isAnnot line then before = [] ∧ output t line = none
    else output t line = unlessBlank (before ++ after.dropLast) := by
  rw [cutOut] at h
  cases hfound : found line with
  | none => simp [hfound] at h
  | some f =>
      obtain ⟨q, p⟩ := f
      have hblank := blank_of_found hfound
      simp only [hfound] at h
      cases ha : isAnnot line with
      | true =>
          rw [ha, if_pos rfl] at h
          obtain ⟨-, rfl, -⟩ := cutDocstring_eq_some h
          simp [output, hblank, ha]
      | false =>
          simp only [ha, Bool.false_eq_true, if_false] at h ⊢
          split_ifs at h with hvalue hrep
          · obtain ⟨-, -, j, hj, -⟩ := found_spec hfound
            obtain ⟨rfl, rfl⟩ := Prod.mk.inj (Option.some.inj h)
            simp [output, hblank, ha, hfound, hvalue, hrep, cutPair_eq hj, hj]
          · obtain ⟨⟨q₀, hmode, hclosed⟩, rfl, rfl⟩ := cutDocstring_eq_some h
            rw [hmode] at hvalue
            simp only [output, hblank, ha, hfound, hmode, if_neg hvalue, hrep, hclosed, if_true,
              cutClosing_eq, Bool.or_self, Bool.false_eq_true, if_false, List.nil_append]

/-- Any other line is written as it stands or not at all. -/
theorem output_uncut {t : Tool} {line : JsString} (h : cutOut t line = none) :
    output t line = none ∨ output t line = some line := by
  rw [output]
  cases hskip : blank line || isAnnot line with
  | true => exact Or.inl rfl
  | false =>
      rw [Bool.or_eq_false_iff] at hskip
      rw [cutOut] at h
      cases hfound : found line with
      | none => cases hdoc : t.mode.isDoc <;> simp
      | some f =>
          obtain ⟨q, p⟩ := f
          simp only [hfound, hskip.2, Bool.false_eq_true, if_false] at h ⊢
          cases hvalue : assigned t.lasttail (line.take p) || t.mode.isValue with
          | true => exact Or.inr rfl
          | false =>
              cases hrep : repeated q p line with
              | true => simp [hvalue, hrep] at h
              | false =>
                  simp only [hvalue, hrep, Bool.false_eq_true, if_false] at h ⊢
                  cases hmode : t.mode with
                  | doc q₀ =>
                      cases hclosed : closedBy q₀ q with
                      | true => simp [cutDocstring, hmode, hclosed] at h
                      | false => exact Or.inr (by simp [hclosed])
                  | top => cases blank (line.take p) <;> simp
                  | value q₀ => cases blank (line.take p) <;> simp

/-- After any lines, a line that is cut is written with the whole text before and
behind what is cut out exactly if nothing stands behind, or nothing but blanks
is left. -/
theorem rest_kept_iff {earlier : List JsString} {line before after : JsString}
    (h : cutOut (view (stateAfter initialState earlier)) line = some (before, after)) :
    (stripLine (stateAfter initialState earlier) line).2 = unlessBlank (before ++ after) ↔
      after = [] ∨ blank (before ++ after) = true := by
  rw [(stripLine_refines (stateAfter_sound earlier) line).2.2]
  have hout := output_cutOut h
  change output _ line = _ ↔ _
  cases ha : isAnnot line with
  | true =>
      simp only [ha, if_true] at hout
      obtain ⟨rfl, hnone⟩ := hout
      rw [hnone, unlessBlank, List.nil_append]
      constructor
      · intro heq
        split at heq
        · exact Or.inr ‹_›
        · simp at heq
      · rintro (rfl | hblank)
        · rfl
        · rw [if_pos hblank]
  | false =>
      simp only [ha, Bool.false_eq_true, if_false] at hout
      rw [hout]
      exact unlessBlank_dropLast_iff before after

/-- A pair at the end of a line of code is cut out and nothing is lost. -/
theorem rest_kept_pair :
    (stripLine initialState (units "x = 1 '''a'''")).2 = some (units "x = 1 ") := by
  have hcut : cutOut (view (stateAfter initialState [])) (units "x = 1 '''a'''") =
      some (units "x = 1 ", []) := by decide
  exact (rest_kept_iff hcut).mpr (Or.inl rfl)

/-- Behind a pair and behind the end of a docstring the last character is lost. -/
theorem last_character_lost :
    cutOut (view (stateAfter initialState [])) (units "'''a''' x = 12") =
        some ([], units " x = 12") ∧
      (stripLine (stateAfter initialState []) (units "'''a''' x = 12")).2 =
        some (units " x = 1") ∧
    cutOut (view (stateAfter initialState [units "'''a"])) (units "b'''; y = 34") =
        some ([], units "; y = 34") ∧
      (stripLine (stateAfter initialState [units "'''a"]) (units "b'''; y = 34")).2 =
        some (units "; y = 3") := by
  decide

end CodingLearners.StripAnnotation
