import CodingLearners.StripAnnotation.LineMachine

/-!
# Literals over several lines

The lines of a triple-quoted literal, and what the handler finds on them when
they hold no other delimiters.
-/

namespace CodingLearners.StripAnnotation

open Js

/-- A triple-quoted literal over several lines, from its opening delimiter to its
closing one. Further delimiters in between (escaped ones) are not excluded. -/
structure MultiLine where
  q : Delimiter
  before : JsString
  after : JsString
  body : List JsString
  text : JsString
  rest : JsString

namespace MultiLine

variable (lit : MultiLine)

def opening : JsString := lit.before ++ quotes lit.q ++ lit.after

def closing : JsString := lit.text ++ quotes lit.q ++ lit.rest

/-- The lines after the opening one. -/
def later : List JsString := lit.body ++ [lit.closing]

def lines : List JsString := lit.opening :: lit.later

end MultiLine

/-! ## Delimiters and comments on a line -/

theorem quotes_length (q : Delimiter) : (quotes q).length = 3 := by cases q <;> rfl

theorem occurs_bound {q : Delimiter} {line : JsString} {i : Nat}
    (h : quotes q <+: line.drop i) : i + 3 ≤ line.length := by
  have := h.length_le
  rw [quotes_length, List.length_drop] at this
  omega

def Delimiter.other : Delimiter → Delimiter
  | .single => .double
  | .double => .single

theorem found_of_indexOf {q : Delimiter} {line : JsString} {p : Nat}
    (h : indexOf (quotes q) line = some p) (hother : ¬ quotes q.other <:+: line) :
    found line = some (q, p) := by
  cases q with
  | single => simp [found, h]
  | double =>
      have hnone : indexOf (quotes .single) line = none := indexOf_eq_none_iff.mpr hother
      simp [found, h, hnone]

theorem found_none {q : Delimiter} {line : JsString} (h : ¬ quotes q <:+: line)
    (hother : ¬ quotes q.other <:+: line) : found line = none := by
  have h := indexOf_eq_none_iff.mpr h
  have hother := indexOf_eq_none_iff.mpr hother
  cases q <;> simp [found, Delimiter.other] at h hother ⊢ <;> simp [h, hother]

/-- A line with a delimiter is not blank. -/
theorem blank_of_indexOf {q : Delimiter} {line : JsString} {p : Nat}
    (h : indexOf (quotes q) line = some p) : blank line = false := by
  by_contra hblank
  rw [indexOf_quotes_blank (by simpa using hblank) q] at h
  contradiction

/-- The delimiter of the literal is on its lines only where it opens and closes it. -/
structure Delimited (lit : MultiLine) : Prop where
  first : indexOf (quotes lit.q) lit.opening = some lit.before.length
  last : lastIndexOf (quotes lit.q) lit.opening = some lit.before.length
  body_free : ∀ line ∈ lit.body, ¬ quotes lit.q <:+: line
  closes : indexOf (quotes lit.q) lit.closing = some lit.text.length

/-- The lines of the literal hold no delimiter but its own two. -/
structure Plain (lit : MultiLine) : Prop extends Delimited lit where
  others : ∀ line ∈ lit.lines, ¬ quotes lit.q.other <:+: line

namespace Plain

variable {lit : MultiLine} (h : Plain lit)
include h

theorem found_opening : found lit.opening = some (lit.q, lit.before.length) :=
  found_of_indexOf h.first (h.others _ List.mem_cons_self)

theorem repeated_opening : repeated lit.q lit.before.length lit.opening = false := by
  simp [repeated, h.last]

theorem found_body {line : JsString} (hline : line ∈ lit.body) : found line = none := by
  apply found_none (h.body_free line hline)
  apply h.others
  exact List.mem_cons_of_mem _ (List.mem_append_left _ hline)

theorem found_closing : found lit.closing = some (lit.q, lit.text.length) := by
  apply found_of_indexOf h.closes
  apply h.others
  exact List.mem_cons_of_mem _ (List.mem_append_right _ List.mem_cons_self)

end Plain

theorem take_opening (lit : MultiLine) : lit.opening.take lit.before.length = lit.before := by
  rw [MultiLine.opening, List.append_assoc, List.take_left]

theorem take_closing (lit : MultiLine) : lit.closing.take lit.text.length = lit.text := by
  rw [MultiLine.closing, List.append_assoc, List.take_left]

theorem nextMode_none (t : Tool) {line : JsString} (h : found line = none) :
    nextMode t line = t.mode := by
  simp [nextMode, h]

theorem blank_cons (u : UInt16) (rest : JsString) :
    blank (u :: rest) = (isSpace u && blank rest) := by
  rw [blank_eq_all, blank_eq_all, List.all_cons]

theorem isAnnot_cons (u : UInt16) (rest : JsString) :
    isAnnot (u :: rest) = (u == 35 || isSpace u && isAnnot rest) := by
  have hsharp : units "#" = [35] := rfl
  by_cases hu : u = 35
  · simp [isAnnot, hsharp, indexOf, hu, blank_eq_all]
  · have hu' : ¬ 35 = u := fun h => hu h.symm
    cases h : indexOf [35] rest <;>
      simp [isAnnot, hsharp, indexOf, hu, hu', h, blank_cons]

theorem isAnnot_append {s : JsString} (hs : blank s = true) (rest : JsString) :
    isAnnot (s ++ rest) = isAnnot rest := by
  induction s with
  | nil => rfl
  | cons u s ih =>
      rw [blank_cons, Bool.and_eq_true] at hs
      have hu : (u == 35) = false := by
        by_contra h
        rw [Bool.not_eq_false, beq_iff_eq] at h
        rw [h] at hs
        exact absurd hs.1 (by decide)
      rw [List.cons_append, isAnnot_cons, hu, hs.1, ih hs.2]
      rfl

/-- A line with a delimiter in front is not a comment. -/
theorem isAnnot_quotes {s : JsString} (hs : blank s = true) (q : Delimiter) (rest : JsString) :
    isAnnot (s ++ quotes q ++ rest) = false := by
  rw [List.append_assoc, isAnnot_append hs]
  have hsingle : isSpace 39 = false := by decide
  have hdouble : isSpace 34 = false := by decide
  cases q
  · change isAnnot (39 :: _) = false
    simp [isAnnot_cons, hsingle]
  · change isAnnot (34 :: _) = false
    simp [isAnnot_cons, hdouble]

theorem endsInTail_blank {s : JsString} (hs : blank s = true) : endsInTail s = false := by
  have htrim : trim s = [] := List.isEmpty_iff.mp hs
  simp [endsInTail, htrim]

end CodingLearners.StripAnnotation
