import CodingLearners.StripAnnotation.Docstrings
import CodingLearners.StripAnnotation.PythonLines
import CodingLearners.StripAnnotation.ValueStrings

/-!
# Values in a source

The handler and the reader of Python go over a source together. Where the mode
of the handler is the region of the source, a line is treated as what it is.
-/

namespace CodingLearners.StripAnnotation

open Js

/-- Where Python is in a source, and where the handler is. -/
structure Reading where
  lexer : Lexer
  state : StripState

def Reading.start : Reading := ⟨sourceStart, initialState⟩

def Reading.step (r : Reading) (line : JsString) : Reading :=
  ⟨r.lexer.next line, (stripLine r.state line).1⟩

/-- A line with a part of a value is written as it stands, and a line of code
behind a value is not dropped. -/
def Intact (r : Reading) (line : JsString) : Prop :=
  ((r.lexer.scan line).hasValue = true → (stripLine r.state line).2 = some line) ∧
    (r.lexer.closedValue = true → (r.lexer.scan line).hasCode = true →
      (stripLine r.state line).2 ≠ none)

/-- What is required of a line in the mode in which the handler receives it. -/
def Spared (r : Reading) (line : JsString) : Prop :=
  ((r.lexer.scan line).hasValue = true → Keeps (view r.state) line) ∧
    (r.lexer.closedValue = true → (r.lexer.scan line).hasCode = true →
      ¬ Drops (view r.state) line)

theorem intact_iff_spared {r : Reading} (hr : Sound r.state) (line : JsString) :
    Intact r line ↔ Spared r line := by
  obtain ⟨-, -, hout⟩ := stripLine_refines hr line
  change (stripLine r.state line).2 = output (view r.state) line at hout
  rw [Intact, Spared, hout, output_eq_some_iff, Ne, output_eq_none_iff]

instance (t : Tool) (line : JsString) : Decidable (Keeps t line) :=
  decidable_of_iff _ (output_eq_some_iff t line)

instance (t : Tool) (line : JsString) : Decidable (Drops t line) :=
  decidable_of_iff _ (output_eq_none_iff t line)

/-! ## Lines whose delimiters are taken for what they are -/

/-- The mode in which the handler ought to be. -/
def Lexer.mode (L : Lexer) : Mode :=
  match L.region with
  | .literal q true => .value q
  | .literal q false => .doc q
  | _ => .top

/-- Inside of a string that is not a docstring. -/
def Region.inString : Region → Bool
  | .text _ => true
  | .literal _ value => value
  | _ => false

/-- A line that begins inside of a string is neither blank nor has a `#` in
front; and a line with a delimiter ends in the region which the handler expects
behind it, is kept if a value is on it, and not dropped if code is on it. -/
def Understood (L : Lexer) (lasttail : Bool) (line : JsString) : Prop :=
  (L.region.inString = true → blank line = false ∧ isAnnot line = false) ∧
    ((found line).isSome = true →
      (L.next line).mode = nextMode ⟨L.mode, lasttail⟩ line ∧
        ((L.scan line).hasValue = true → Keeps ⟨L.mode, lasttail⟩ line) ∧
        ((L.scan line).hasCode = true → ¬ Drops ⟨L.mode, lasttail⟩ line))

instance (L : Lexer) (lasttail : Bool) (line : JsString) :
    Decidable (Understood L lasttail line) :=
  inferInstanceAs (Decidable (_ ∧ _))

theorem not_infix_of_found {line : JsString} (h : found line = none) (q : Delimiter) :
    ¬ quotes q <:+: line := by
  rw [← indexOf_eq_none_iff]
  cases h2 : indexOf (quotes .single) line <;> cases h3 : indexOf (quotes .double) line <;>
    simp [found, h2, h3] at h
  cases q
  · exact h2
  · exact h3

theorem Lexer.mode_of_region {L : Lexer} (h : L.region.isLiteral = false) : L.mode = .top := by
  cases hr : L.region <;> simp [hr, Region.isLiteral, Lexer.mode] at h ⊢

theorem Scan.endRegion_isLiteral (s : Scan) : s.endRegion.isLiteral = s.region.isLiteral := by
  cases hr : s.region with
  | text q =>
      simp only [Scan.endRegion, hr]
      split_ifs <;> rfl
  | _ => simp only [Scan.endRegion, hr]

theorem Lexer.next_mode_of_literal {L : Lexer} {line : JsString} {q : Delimiter} {value : Bool}
    (h : (L.scan line).region = .literal q value) :
    (L.next line).mode = if value then .value q else .doc q := by
  have hend : (L.next line).region = .literal q value := by
    change (L.scan line).endRegion = _
    simp only [Scan.endRegion, h]
  rw [Lexer.mode, hend]
  cases value <;> rfl

/-- Without a delimiter a line ends in the mode in which it begins. -/
theorem Lexer.next_mode_of_found {L : Lexer} {line : JsString} (h : found line = none) :
    (L.next line).mode = L.mode := by
  have hfree := not_infix_of_found h
  cases hr : L.region with
  | literal q value =>
      obtain ⟨hregion, -⟩ := Scan.line_literal (s := L.start) hr (hfree q)
      rw [Lexer.next_mode_of_literal hregion, Lexer.mode, hr]
      cases value <;> rfl
  | _ =>
      have hlit : L.region.isLiteral = false := by
        rw [hr]
        rfl
      obtain ⟨hregion, -⟩ := Scan.line_free (s := L.start) hlit hfree
      have hend : (L.next line).region.isLiteral = false := by
        change (L.scan line).endRegion.isLiteral = false
        rw [Scan.endRegion_isLiteral]
        exact hregion
      rw [Lexer.mode_of_region hlit, Lexer.mode_of_region hend]

/-- A line of code without a delimiter is kept. -/
theorem keeps_code {lasttail : Bool} {line : JsString} (hfound : found line = none)
    (hblank : blank line = false) (hannot : isAnnot line = false) :
    Keeps ⟨.top, lasttail⟩ line := by
  refine ⟨hblank, hannot, ?_⟩
  rw [hfound]
  rfl

theorem not_drops_of_keeps {t : Tool} {line : JsString} (h : Keeps t line) : ¬ Drops t line := by
  intro hdrops
  have hsome := (output_eq_some_iff t line).mpr h
  rw [(output_eq_none_iff t line).mpr hdrops] at hsome
  contradiction

/-- A line with code or a part of a value, but without a delimiter, is kept. -/
theorem keeps_of_found {L : Lexer} (lasttail : Bool) {line : JsString} (hfound : found line = none)
    (hinside : L.region.inString = true → blank line = false ∧ isAnnot line = false)
    (hused : (L.scan line).hasValue = true ∨ (L.scan line).hasCode = true) :
    Keeps ⟨L.mode, lasttail⟩ line := by
  have hfree := not_infix_of_found hfound
  cases hr : L.region with
  | literal q value =>
      obtain ⟨-, hcode, hvalue⟩ := Scan.line_literal (s := L.start) hr (hfree q)
      have hstart : L.start.hasValue = value := by
        simp only [Lexer.start, hr, Region.isValue]
      rw [hstart] at hvalue
      cases hused with
      | inl hused =>
          obtain rfl : value = true := hvalue.symm.trans hused
          rw [Lexer.mode, hr]
          apply keeps_value.mpr
          apply hinside
          rw [hr]
          rfl
      | inr hused => exact absurd (hcode.symm.trans hused) (by simp [Lexer.start])
  | text q =>
      obtain ⟨hblank, hannot⟩ := hinside (by rw [hr]; rfl)
      rw [Lexer.mode, hr]
      exact keeps_code hfound hblank hannot
  | code =>
      rw [Lexer.mode, hr]
      apply keeps_code hfound
      · by_contra hblank
        rw [Bool.not_eq_false] at hblank
        rw [Lexer.scan_blank hr hblank] at hused
        simp [Lexer.start, hr, Region.isValue] at hused
      · by_contra hannot
        rw [Bool.not_eq_false] at hannot
        obtain ⟨hcode, hvalue⟩ := Lexer.scan_annot hr hannot
        simp [hcode, hvalue] at hused

/-! ## Opening lines that are understood -/

theorem aloneOnLine_of_tail {before : JsString} (h : endsInTail before = true) :
    aloneOnLine before = false := by
  have hprefixes : ∀ s ∈ literalPrefixes, s.getLast?.any (units "=[(,\x7b").contains = false := by
    decide
  cases halone : aloneOnLine before with
  | false => rfl
  | true =>
      have hnone := hprefixes _ (List.contains_iff_mem.mp halone)
      cases hlast : (trim before).getLast? with
      | none => simp [endsInTail, hlast] at h
      | some tailc =>
          rw [hlast] at hnone
          simp only [endsInTail, hlast] at h
          exact absurd (h.symm.trans hnone) (by decide)

theorem aloneOnLine_of_blank {before : JsString} (h : blank before = true) :
    aloneOnLine before = true := by
  have htrim : trim before = [] := List.isEmpty_iff.mp h
  rw [aloneOnLine, htrim]
  rfl

/-- From the opening delimiter on, the opening line has no further one. -/
theorem opening_last {lit : MultiLine} (hlit : Delimited lit) (k : Nat) (hk : 0 < k) :
    ¬ quotes lit.q <+: (quotes lit.q ++ lit.after).drop k := by
  intro hprefix
  have hdrop : (quotes lit.q ++ lit.after).drop k = lit.opening.drop (lit.before.length + k) := by
    rw [MultiLine.opening, List.append_assoc, ← List.drop_drop, List.drop_left]
  rw [hdrop] at hprefix
  have hbound := occurs_bound hprefix
  exact (lastIndexOf_eq_some_iff.mp hlit.last).2.2 _ (by omega) (by omega) hprefix

/-- A value behind one of the five characters, with neither quotes nor a `#` in front. -/
theorem understood_value {L : Lexer} (hcode : L.region = .code) {lit : ValueLiteral}
    (hplain : Plain lit.toMultiLine) (hfront : ∀ u ∈ lit.before, quoteOf u = none ∧ u ≠ 35)
    (lasttail : Bool) : Understood L lasttail lit.opening := by
  have hmode : L.mode = .top := by rw [Lexer.mode, hcode]
  obtain ⟨s, hs, hbefore, hline⟩ :=
    Scan.line_plain (Lexer.start_inCode hcode) hfront (quotes lit.q ++ lit.after)
  have hvalue : s.opensValue = true := by
    have hsame : s.before = lit.before := hbefore
    rw [Scan.opensValue, hsame, aloneOnLine_of_tail lit.before_tail, Bool.not_false, Bool.or_true]
  have hregion : (L.scan lit.opening).region = .literal lit.q true := by
    rw [Lexer.scan, MultiLine.opening, List.append_assoc, hline, ← hvalue]
    exact (Scan.line_opens hs ⟨_, rfl⟩ (opening_last hplain.toDelimited)).1
  refine ⟨fun h => ?_, fun _ => ?_⟩
  · rw [hcode] at h
    contradiction
  · rw [hmode, nextMode_value hplain, Lexer.next_mode_of_literal hregion]
    exact ⟨rfl, fun _ => keeps_opening hplain _,
      fun _ => not_drops_of_keeps (keeps_opening hplain _)⟩

/-- A docstring where a statement begins. -/
theorem understood_docstring {L : Lexer} (hcode : L.region = .code) (hdepth : L.depth = 0)
    (hcontinued : L.continued = false) {doc : Docstring} (hplain : Plain doc.toMultiLine) :
    Understood L false doc.opening := by
  have hmode : L.mode = .top := by rw [Lexer.mode, hcode]
  have hread : (L.start.read doc.before).InCode := ⟨hcode, rfl, rfl⟩
  have hvalue : (L.start.read doc.before).opensValue = false := by
    have halone := aloneOnLine_of_blank doc.before_blank
    simp [Scan.opensValue, Scan.read, Lexer.start, hdepth, hcontinued, halone]
  have hscan : L.scan doc.opening =
      (L.start.read doc.before).line (quotes doc.q ++ doc.after) := by
    rw [Lexer.scan, MultiLine.opening, List.append_assoc]
    exact Scan.line_blank (Lexer.start_inCode hcode) doc.before_blank _
  obtain ⟨hregion, hnocode, hnovalue⟩ :=
    Scan.line_opens hread ⟨_, rfl⟩ (opening_last hplain.toDelimited)
  rw [← hscan, hvalue] at hregion hnocode hnovalue
  refine ⟨fun h => ?_, fun _ => ⟨?_, fun h => ?_, fun h => ?_⟩⟩
  · rw [hcode] at h
    contradiction
  · rw [hmode, Lexer.next_mode_of_literal hregion]
    exact (nextMode_doc hplain).symm
  · rw [hnovalue] at h
    simp [Lexer.start, hcode, Region.isValue] at h
  · rw [hnocode] at h
    simp at h

/-! ## Whole sources -/

/-- The handler is in the mode of the region that the source is in. -/
structure Reading.Agrees (r : Reading) : Prop where
  sound : Sound r.state
  mode : (view r.state).mode = r.lexer.mode

/-- A line that is understood leaves the two in agreement, and what matters on it is spared. -/
theorem Understood.step {r : Reading} {line : JsString} (hr : r.Agrees)
    (h : Understood r.lexer r.state.lasttailassign line) :
    (r.step line).Agrees ∧ Intact r line := by
  obtain ⟨hsound, hmode⟩ := hr
  obtain ⟨hinside, hdelimiter⟩ := h
  obtain ⟨hsound', hview, -⟩ := stripLine_refines hsound line
  have hstate : view r.state = ⟨r.lexer.mode, r.state.lasttailassign⟩ := by
    rw [← hmode]
    rfl
  have hnext : (view (stripLine r.state line).1).mode =
      nextMode ⟨r.lexer.mode, r.state.lasttailassign⟩ line := by
    rw [hview, hstate]
    rfl
  rw [intact_iff_spared hsound, Spared, hstate]
  cases hfound : found line with
  | none =>
      have hkeeps := keeps_of_found r.state.lasttailassign hfound hinside
      refine ⟨⟨hsound', ?_⟩, fun hvalue => hkeeps (Or.inl hvalue), fun _ hcode => ?_⟩
      · calc (view (stripLine r.state line).1).mode
            = r.lexer.mode := by rw [hnext, nextMode_none _ hfound]
          _ = (r.lexer.next line).mode := (Lexer.next_mode_of_found hfound).symm
      · exact not_drops_of_keeps (hkeeps (Or.inr hcode))
  | some f =>
      obtain ⟨hagrees, hvalue, hcode⟩ := hdelimiter (by rw [hfound]; rfl)
      exact ⟨⟨hsound', hnext.trans hagrees.symm⟩, hvalue, fun _ => hcode⟩

end CodingLearners.StripAnnotation
