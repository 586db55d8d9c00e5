import CodingLearners.StripAnnotation.StripPython

/-!
# What the handler does to a line

Between two lines the handler is at top level, in a string that it removes, or
in a string that it keeps. The machine below says what becomes of a line in
each of these modes, and the handler refines it.
-/

namespace CodingLearners.StripAnnotation

open Js

/-- Where the handler takes itself to be: outside, in a docstring, in a value. -/
inductive Mode
  | top
  | doc (q : Delimiter)
  | value (q : Delimiter)
  deriving DecidableEq, Repr

def Mode.isDoc : Mode → Bool
  | .doc _ => true
  | _ => false

def Mode.isValue : Mode → Bool
  | .value _ => true
  | _ => false

/-- The mode, and whether the last line that counts was written and ends in one
of the five characters. -/
structure Tool where
  mode : Mode
  lasttail : Bool
  deriving DecidableEq, Repr

def topLevel : Tool := ⟨.top, false⟩

/-- The first delimiter that the handler finds: single quotes before double ones. -/
def found (line : JsString) : Option (Delimiter × Nat) :=
  match indexOf (quotes .single) line with
  | some i => some (.single, i)
  | none => (indexOf (quotes .double) line).map fun i => (.double, i)

/-- The delimiter occurs again further on in the line. -/
def repeated (q : Delimiter) (p : Nat) (line : JsString) : Bool :=
  decide (lastIndexOf (quotes q) line ≠ some p)

/-- A string opened by `q` is closed by `q'`: double quotes by either delimiter. -/
def closedBy : Delimiter → Delimiter → Bool
  | .double, _ => true
  | .single, q' => q' == .single

def unlessBlank (line : JsString) : Option JsString := if blank line then none else some line

/-- The line without the strings between the first and the last delimiter. -/
def cutPair (q : Delimiter) (p : Nat) (line : JsString) : JsString :=
  cutSameLine line p ((lastIndexOf (quotes q) line).getD 0)

/-- What is written of the line on which a docstring ends. -/
def cutClosing (p : Nat) (line : JsString) : Option JsString :=
  if p + 3 = line.length then none else unlessBlank (sliceToLast line (p + 3))

/-- What is written for a line. -/
def output (t : Tool) (line : JsString) : Option JsString :=
  if blank line || isAnnot line then none
  else
    match found line with
    | none => if t.mode.isDoc then none else some line
    | some (q, p) =>
        if assigned t.lasttail (line.take p) || t.mode.isValue then some line
        else if repeated q p line then unlessBlank (cutPair q p line)
        else
          match t.mode with
          | .doc q₀ => if closedBy q₀ q then cutClosing p line else some line
          | _ => if blank (line.take p) then none else some line

/-- The mode after a line. The delimiters of a comment line still close a
string, and a value string in which a pair is found counts as a docstring. -/
def nextMode (t : Tool) (line : JsString) : Mode :=
  match found line, isAnnot line, t.mode with
  | none, _, m => m
  | some _, true, .top => .top
  | some (q, _), true, .doc q₀ => if closedBy q₀ q then .top else .doc q₀
  | some (q, _), true, .value q₀ => if closedBy q₀ q then .top else .value q₀
  | some (q, p), false, m =>
      let isValue := assigned t.lasttail (line.take p)
      match repeated q p line, m with
      | true, .value q₀ => .doc q₀
      | true, m => m
      | false, .top => if isValue then .value q else if blank (line.take p) then .doc q else .top
      | false, .doc q₀ =>
          if closedBy q₀ q then .top else if isValue then .value q₀ else .doc q₀
      | false, .value q₀ => if closedBy q₀ q then .top else .value q₀

def toolStep (t : Tool) (line : JsString) : Tool × Option JsString :=
  (⟨nextMode t line, if blank line then t.lasttail else (output t line).any endsInTail⟩,
    output t line)

/-! ## The handler refines the machine -/

/-- `mutilleaved` is only set inside of a string. -/
def Sound (σ : StripState) : Prop := σ.mutilleaved = true → σ.multianflag = true

/-- The flags, read as a mode. -/
def view (σ : StripState) : Tool :=
  ⟨if σ.multianflag then (if σ.mutilleaved then .value σ.multisign else .doc σ.multisign) else .top,
    σ.lasttailassign⟩

theorem indexOf_blank {pat line : JsString} (hpat : ∃ u ∈ pat, isSpace u = false)
    (h : blank line = true) : indexOf pat line = none := by
  rw [indexOf_eq_none_iff]
  rintro hinfix
  obtain ⟨u, hu, hspace⟩ := hpat
  rw [blank_eq_all, List.all_eq_true] at h
  have := h u (List.IsInfix.subset hinfix hu)
  rw [hspace] at this
  contradiction

theorem isAnnot_blank {line : JsString} (h : blank line = true) : isAnnot line = false := by
  have hnone : indexOf (units "#") line = none := indexOf_blank ⟨35, by decide, by decide⟩ h
  simp [isAnnot, hnone]

theorem indexOf_quotes_blank {line : JsString} (h : blank line = true) (q : Delimiter) :
    indexOf (quotes q) line = none := by
  refine indexOf_blank ?_ h
  cases q
  · exact ⟨39, by decide, by decide⟩
  · exact ⟨34, by decide, by decide⟩

/-- The last occurrence is not before the first one. -/
theorem le_lastIndexOf {pat line : JsString} {i : Nat} (h : indexOf pat line = some i) :
    ∃ j, lastIndexOf pat line = some j ∧ i ≤ j := by
  obtain ⟨hi, hat, -⟩ := indexOf_eq_some_iff.mp h
  cases hlast : lastIndexOf pat line with
  | none =>
      refine absurd ?_ (lastIndexOf_eq_none_iff.mp hlast)
      exact hat.isInfix.trans (List.drop_suffix i line).isInfix
  | some j =>
      refine ⟨j, rfl, ?_⟩
      by_contra hlt
      exact (lastIndexOf_eq_some_iff.mp hlast).2.2 i hi (by omega) hat

/-- What is to be shown of the handler on one line. -/
def Refines (σ : StripState) (line : JsString) : Prop :=
  Sound (stripLine σ line).1 ∧ view (stripLine σ line).1 = (toolStep (view σ) line).1 ∧
    (stripLine σ line).2 = (toolStep (view σ) line).2

theorem refines_blank {σ : StripState} (hσ : Sound σ) {line : JsString}
    (hblank : blank line = true) : Refines σ line := by
  obtain ⟨multi, sign, leaved, tail⟩ := σ
  have h2 := indexOf_quotes_blank hblank .single
  have h3 := indexOf_quotes_blank hblank .double
  have ha := isAnnot_blank hblank
  cases multi <;> cases leaved <;> simp [Sound] at hσ <;>
    simp [Refines, stripLine, toolStep, nextMode, output, found, hblank, h2, h3, ha, view, Sound]

theorem refines_annot {σ : StripState} (hσ : Sound σ) {line : JsString}
    (hblank : blank line = false) (ha : isAnnot line = true) : Refines σ line := by
  obtain ⟨multi, sign, leaved, tail⟩ := σ
  cases h2 : indexOf (quotes .single) line <;> cases h3 : indexOf (quotes .double) line <;>
    cases multi <;> cases leaved <;> simp [Sound] at hσ <;> cases sign <;>
    simp [Refines, stripLine, toolStep, nextMode, output, found, hblank, h2, h3, ha, view, Sound,
      closedBy]

theorem refines_plain {σ : StripState} (hσ : Sound σ) {line : JsString}
    (hblank : blank line = false) (ha : isAnnot line = false) (hfound : found line = none) :
    Refines σ line := by
  obtain ⟨multi, sign, leaved, tail⟩ := σ
  cases h2 : indexOf (quotes .single) line with
  | some i => simp [found, h2] at hfound
  | none =>
      cases h3 : indexOf (quotes .double) line with
      | some i => simp [found, h2, h3] at hfound
      | none =>
          cases multi <;> cases leaved <;> simp [Sound] at hσ <;>
            simp [Refines, stripLine, toolStep, nextMode, output, found, hblank, h2, h3, ha, view,
              Sound, Mode.isDoc]

/-- Where the delimiter that is found first and last occurs. -/
theorem found_spec {line : JsString} {q : Delimiter} {p : Nat} (h : found line = some (q, p)) :
    indexOf (quotes .single) line = (if q = .single then some p else none) ∧
      indexOf (quotes q) line = some p ∧ ∃ j, lastIndexOf (quotes q) line = some j ∧ p ≤ j := by
  have hwhere : indexOf (quotes .single) line = (if q = .single then some p else none) ∧
      indexOf (quotes q) line = some p := by
    cases h2 : indexOf (quotes .single) line <;> cases h3 : indexOf (quotes .double) line <;>
      simp [found, h2, h3] at h <;> obtain ⟨rfl, rfl⟩ := h <;> simp [h2, h3]
  exact ⟨hwhere.1, hwhere.2, le_lastIndexOf hwhere.2⟩

theorem refines_pair {σ : StripState} (hσ : Sound σ) {line : JsString}
    (hblank : blank line = false) (ha : isAnnot line = false) {q : Delimiter} {p : Nat}
    (hfound : found line = some (q, p)) (hrep : repeated q p line = true) : Refines σ line := by
  obtain ⟨hsingle, hfirst, j, hj, hle⟩ := found_spec hfound
  have hne : j ≠ p := by simpa [repeated, hj] using hrep
  have hpos : 0 < j := by omega
  obtain ⟨multi, sign, leaved, tail⟩ := σ
  have hcut : cutPair q p line = cutSameLine line p j := by simp [cutPair, hj]
  cases q <;> simp at hsingle <;>
  cases hv : assigned tail (line.take p) <;> cases multi <;> cases leaved <;>
    simp [Sound] at hσ <;> cases hc : blank (cutSameLine line p j) <;>
    simp [Refines, stripLine, toolStep, nextMode, output, found, hblank, hsingle, hfirst, ha, view,
      Sound, hrep, hj, hne, hpos, hv, unlessBlank, hcut, hc, Mode.isValue]

theorem refines_delimiter {σ : StripState} (hσ : Sound σ) {line : JsString}
    (hblank : blank line = false) (ha : isAnnot line = false) {q : Delimiter} {p : Nat}
    (hfound : found line = some (q, p)) (hrep : repeated q p line = false) : Refines σ line := by
  obtain ⟨hsingle, hfirst, -⟩ := found_spec hfound
  have hj : lastIndexOf (quotes q) line = some p := by simpa [repeated] using hrep
  obtain ⟨multi, sign, leaved, tail⟩ := σ
  cases multi with
  | false =>
      have hleaved : leaved = false := by simpa [Sound] using hσ
      cases q <;> simp at hsingle <;> cases hv : assigned tail (line.take p) <;>
        cases hb : blank (line.take p) <;>
        simp [Refines, stripLine, toolStep, nextMode, output, found, hblank, hsingle, hfirst, ha,
          view, Sound, hrep, hj, hv, hb, hleaved, Mode.isValue]
  | true =>
      cases q <;> simp at hsingle <;> cases hv : assigned tail (line.take p) <;>
        cases leaved <;> cases sign <;> by_cases hend : p + 3 = line.length <;>
        cases hr : blank (sliceToLast line (p + 3)) <;>
        simp [Refines, stripLine, toolStep, nextMode, output, found, hblank, hsingle, hfirst, ha,
          view, Sound, hrep, hj, hv, hend, hr, unlessBlank, cutClosing, closedBy, Mode.isValue]

/-- The handler does to a line what the machine does, and keeps `mutilleaved` in order. -/
theorem stripLine_refines {σ : StripState} (hσ : Sound σ) (line : JsString) : Refines σ line := by
  cases hblank : blank line with
  | true => exact refines_blank hσ hblank
  | false =>
      cases ha : isAnnot line with
      | true => exact refines_annot hσ hblank ha
      | false =>
          cases hfound : found line with
          | none => exact refines_plain hσ hblank ha hfound
          | some f =>
              cases hrep : repeated f.1 f.2 line with
              | true => exact refines_pair hσ hblank ha hfound hrep
              | false => exact refines_delimiter hσ hblank ha hfound hrep

/-! ## Runs of the machine -/

def toolAfter (t : Tool) (lines : List JsString) : Tool :=
  Runs.run (fun t line => (toolStep t line).1) t lines

def toolWritten : Tool → List JsString → List (Option JsString)
  | _, [] => []
  | t, line :: rest => (toolStep t line).2 :: toolWritten (toolStep t line).1 rest

theorem sound_initialState : Sound initialState := by simp [Sound, initialState]

theorem stripLine_sound {σ : StripState} (hσ : Sound σ) (line : JsString) :
    Sound (stripLine σ line).1 :=
  (stripLine_refines hσ line).1

/-- After every sequence of lines, `mutilleaved` is only set inside of a string. -/
theorem stateAfter_sound (lines : List JsString) : Sound (stateAfter initialState lines) :=
  Runs.run_invariant Sound (fun _ line hσ => stripLine_sound hσ line) sound_initialState lines

/-- At every line boundary, also in front of the first line, a string is kept as a value only
while a string is open. -/
theorem mutilleaved_imp_multianflag (lines : List JsString) (k : Nat)
    (hleaved : (stateAfter initialState (lines.take k)).mutilleaved = true) :
    (stateAfter initialState (lines.take k)).multianflag = true :=
  stateAfter_sound (lines.take k) hleaved

/-- Behind the line on which a value begins. -/
theorem mutilleaved_imp_multianflag_value :
    (stateAfter initialState ([units "x = '''a", units "b'''"].take 1)).multianflag = true :=
  mutilleaved_imp_multianflag [units "x = '''a", units "b'''"] 1 (by decide)

/-- The handler writes what the machine writes. -/
theorem written_eq {σ : StripState} (hσ : Sound σ) (lines : List JsString) :
    written σ lines = toolWritten (view σ) lines := by
  induction lines generalizing σ with
  | nil => rfl
  | cons line rest ih =>
      obtain ⟨hsound, hview, hout⟩ := stripLine_refines hσ line
      rw [written, toolWritten, ih hsound, hview, hout]

theorem view_stateAfter {σ : StripState} (hσ : Sound σ) (lines : List JsString) :
    view (stateAfter σ lines) = toolAfter (view σ) lines := by
  induction lines generalizing σ with
  | nil => rfl
  | cons line rest ih =>
      obtain ⟨hsound, hview, -⟩ := stripLine_refines hσ line
      rw [toolAfter, Runs.run_cons, ← hview]
      exact ih hsound

end CodingLearners.StripAnnotation
