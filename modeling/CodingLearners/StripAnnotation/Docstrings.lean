import CodingLearners.StripAnnotation.Literals

/-!
# Docstrings

Which lines the machine drops, and what that says about a string that stands
alone as a statement: when all of its lines go, and when the machine is back at
top level behind it.
-/

namespace CodingLearners.StripAnnotation

open Js

/-- A string with its delimiter first on a line, closed at the end of a later line. -/
structure Docstring extends MultiLine where
  before_blank : blank before = true
  at_end : rest = []
  delimited : Delimited toMultiLine

/-! ## Lines that are dropped -/

/-- A blank line, a comment, a line inside of a docstring, or one on which
nothing is left besides the docstring. -/
def Drops (t : Tool) (line : JsString) : Prop :=
  blank line = true ∨ isAnnot line = true ∨
    match found line with
    | none => t.mode.isDoc = true
    | some (q, p) =>
        assigned t.lasttail (line.take p) = false ∧ t.mode.isValue = false ∧
          if repeated q p line then blank (cutPair q p line) = true
          else
            match t.mode with
            | .doc q₀ => closedBy q₀ q = true ∧
                (p + 3 = line.length ∨ blank (sliceToLast line (p + 3)) = true)
            | _ => blank (line.take p) = true

/-- Every line is of a kind that is dropped in the mode which the lines before
it lead to, and the last one leads to top level. -/
def DroppedFrom : Tool → List JsString → Prop
  | t, [] => t = topLevel
  | t, line :: rest =>
      Drops t line ∧ DroppedFrom ⟨nextMode t line, blank line && t.lasttail⟩ rest

theorem unlessBlank_eq_none_iff {line : JsString} :
    unlessBlank line = none ↔ blank line = true := by
  cases h : blank line <;> simp [unlessBlank, h]

theorem cutClosing_eq_none_iff {p : Nat} {line : JsString} :
    cutClosing p line = none ↔
      p + 3 = line.length ∨ blank (sliceToLast line (p + 3)) = true := by
  by_cases h : p + 3 = line.length <;> simp [cutClosing, h, unlessBlank_eq_none_iff]

theorem output_eq_none_iff (t : Tool) (line : JsString) :
    output t line = none ↔ Drops t line := by
  rw [output, Drops]
  cases blank line with
  | true => simp
  | false =>
      cases isAnnot line with
      | true => simp
      | false =>
          cases hfound : found line with
          | none => cases t.mode.isDoc <;> simp
          | some f =>
              cases hv : assigned t.lasttail (line.take f.2) with
              | true => simp [hv]
              | false =>
                  cases hrep : repeated f.1 f.2 line with
                  | true =>
                      cases t.mode <;> simp [Mode.isValue, hv, hrep, unlessBlank_eq_none_iff]
                  | false =>
                      cases t.mode with
                      | top => simp [Mode.isValue, hv, hrep]
                      | value q₀ => simp [Mode.isValue, hv]
                      | doc q₀ =>
                          cases hc : closedBy q₀ f.1 <;>
                            simp [Mode.isValue, hv, hrep, hc, cutClosing_eq_none_iff]

theorem toolStep_dropped {t : Tool} {line : JsString} (h : Drops t line) :
    toolStep t line = (⟨nextMode t line, blank line && t.lasttail⟩, none) := by
  have hout := (output_eq_none_iff t line).mpr h
  cases hb : blank line <;> simp [toolStep, hout, hb]

/-- At top level is where a plain line is written and a line of single quotes is
taken for a docstring. -/
theorem topLevel_of_toolWritten {t : Tool}
    (h : ∀ rest, toolWritten t rest = toolWritten topLevel rest) : t = topLevel := by
  have hout : ∀ line, output t line = output topLevel line := by
    intro line
    have := h [line]
    simpa [toolWritten, toolStep] using this
  obtain ⟨mode, lasttail⟩ := t
  cases mode with
  | doc q =>
      have := hout (units "x")
      have htop : output topLevel (units "x") = some (units "x") := by decide
      have hdoc : output ⟨.doc q, lasttail⟩ (units "x") = none := by
        apply (output_eq_none_iff _ _).mpr
        exact Or.inr (Or.inr rfl)
      rw [htop, hdoc] at this
      contradiction
  | top =>
      cases lasttail with
      | false => rfl
      | true => exact absurd (hout (quotes .single)) (by decide)
  | value q =>
      have := hout (quotes .single)
      have htop : output topLevel (quotes .single) = none := by decide
      have hvalue : output ⟨.value q, lasttail⟩ (quotes .single) ≠ none := by
        rw [Ne, output_eq_none_iff]
        rintro (hb | ha | ⟨-, hv, -⟩)
        · exact absurd hb (by decide)
        · exact absurd ha (by decide)
        · contradiction
      exact absurd (this.trans htop) hvalue

/-- The machine drops the lines and ends at top level exactly if each of them is dropped. -/
theorem toolWritten_dropped_iff (t : Tool) (lines : List JsString) :
    toolWritten t lines = lines.map (fun _ => none) ∧ toolAfter t lines = topLevel ↔
      DroppedFrom t lines := by
  induction lines generalizing t with
  | nil => simp [toolWritten, toolAfter, DroppedFrom]
  | cons line rest ih =>
      rw [toolWritten, List.map_cons, List.cons.injEq, toolAfter, Runs.run_cons, DroppedFrom]
      constructor
      · rintro ⟨⟨hout, hrest⟩, hafter⟩
        have hdrops := (output_eq_none_iff t line).mp hout
        rw [toolStep_dropped hdrops] at hrest hafter
        exact ⟨hdrops, (ih _).mp ⟨hrest, hafter⟩⟩
      · rintro ⟨hdrops, hrest⟩
        rw [toolStep_dropped hdrops]
        exact ⟨⟨rfl, ((ih _).mpr hrest).1⟩, ((ih _).mpr hrest).2⟩

/-! ## Docstrings without any other delimiter -/

/-- The lines of the text are dropped one by one. -/
theorem droppedFrom_doc {q : Delimiter} {body : List JsString} {last : JsString}
    (hbody : ∀ line ∈ body, found line = none) :
    DroppedFrom ⟨.doc q, false⟩ (body ++ [last]) ↔ DroppedFrom ⟨.doc q, false⟩ [last] := by
  induction body with
  | nil => rfl
  | cons line body ih =>
      rw [List.forall_mem_cons] at hbody
      have hdrops : Drops ⟨.doc q, false⟩ line := by
        right
        right
        rw [hbody.1]
        rfl
      rw [List.cons_append, DroppedFrom, nextMode_none _ hbody.1, Bool.and_false, ih hbody.2]
      exact and_iff_right hdrops

theorem Docstring.closing_eq (doc : Docstring) : doc.closing = doc.text ++ quotes doc.q := by
  rw [MultiLine.closing, doc.at_end, List.append_nil]

/-- Nothing is behind the closing delimiter, so it is the last one of its line. -/
theorem repeated_closing (doc : Docstring) :
    repeated doc.q doc.text.length doc.closing = false := by
  obtain ⟨j, hj, hle⟩ := le_lastIndexOf doc.delimited.closes
  have hbound := occurs_bound (lastIndexOf_eq_some_iff.mp hj).2.1
  rw [doc.closing_eq, List.length_append, quotes_length] at hbound
  have heq : j = doc.text.length := by omega
  simp [repeated, hj, heq]

theorem assigned_blank {before : JsString} (h : blank before = true) :
    assigned false before = false := by
  rw [assigned, endsInTail_blank h, Bool.and_false, Bool.or_false]

theorem nextMode_doc {doc : Docstring} (hplain : Plain doc.toMultiLine) :
    nextMode topLevel doc.opening = .doc doc.q := by
  have hannot : isAnnot doc.opening = false := isAnnot_quotes doc.before_blank doc.q doc.after
  simp only [nextMode, topLevel, hplain.found_opening, hannot, hplain.repeated_opening,
    take_opening, assigned_blank doc.before_blank, doc.before_blank]
  rfl

theorem droppedFrom_opening {doc : Docstring} (hplain : Plain doc.toMultiLine) :
    DroppedFrom topLevel doc.lines ↔ DroppedFrom ⟨.doc doc.q, false⟩ doc.later := by
  have hdrops : Drops topLevel doc.opening := by
    right
    right
    simp only [hplain.found_opening, hplain.repeated_opening, take_opening]
    exact ⟨assigned_blank doc.before_blank, rfl, doc.before_blank⟩
  rw [MultiLine.lines, DroppedFrom, nextMode_doc hplain, blank_of_indexOf hplain.first,
    Bool.false_and]
  exact and_iff_right hdrops

theorem droppedFrom_closing {doc : Docstring} (hplain : Plain doc.toMultiLine) :
    DroppedFrom ⟨.doc doc.q, false⟩ [doc.closing] ↔
      isAnnot doc.closing = true ∨ endsInTail doc.text = false := by
  have hassigned : assigned false (doc.closing.take doc.text.length) = endsInTail doc.text := by
    rw [take_closing, assigned, Bool.and_false, Bool.false_or]
  have hend : doc.text.length + 3 = doc.closing.length := by
    rw [doc.closing_eq, List.length_append, quotes_length]
  have hown : closedBy doc.q doc.q = true := by cases doc.q <;> rfl
  have hblank := blank_of_indexOf hplain.closes
  have hdrops : Drops ⟨.doc doc.q, false⟩ doc.closing ↔
      isAnnot doc.closing = true ∨ endsInTail doc.text = false := by
    rw [Drops, hplain.found_closing, ← hassigned]
    simp [hblank, Mode.isValue, repeated_closing, hown, hend]
  have hnext : nextMode ⟨.doc doc.q, false⟩ doc.closing = .top := by
    cases ha : isAnnot doc.closing <;>
      simp [nextMode, hplain.found_closing, ha, repeated_closing, hown]
  rw [DroppedFrom, hdrops, hnext, Bool.and_false]
  exact and_iff_left rfl

theorem droppedFrom_plain {doc : Docstring} (hplain : Plain doc.toMultiLine) :
    DroppedFrom topLevel doc.lines ↔
      isAnnot doc.closing = true ∨ endsInTail doc.text = false := by
  calc DroppedFrom topLevel doc.lines
      ↔ DroppedFrom ⟨.doc doc.q, false⟩ doc.later := droppedFrom_opening hplain
    _ ↔ DroppedFrom ⟨.doc doc.q, false⟩ [doc.closing] :=
        droppedFrom_doc fun _ => hplain.found_body
    _ ↔ _ := droppedFrom_closing hplain

/-! ## Docstrings in a file -/

/-- The last line that is code. -/
def previousCode (earlier : List JsString) : Option JsString :=
  earlier.reverse.find? fun line => !blank line && !isAnnot line

/-- A line of code that does not end in one of the five characters leaves no
value to be expected. -/
theorem lasttail_of_previousCode {earlier : List JsString}
    (h : ∀ line ∈ previousCode earlier, endsInTail line = false ∧ found line = none) :
    (toolAfter topLevel earlier).lasttail = false := by
  induction earlier using List.reverseRecOn with
  | nil => rfl
  | append_singleton earlier line ih =>
      rw [toolAfter, Runs.run_append]
      change (toolStep (toolAfter topLevel earlier) line).1.lasttail = false
      rw [previousCode, List.reverse_append, List.reverse_singleton, List.singleton_append,
        List.find?_cons] at h
      cases hb : blank line with
      | true =>
          rw [hb] at h
          simpa [toolStep, hb] using ih h
      | false =>
          cases ha : isAnnot line with
          | true => simp [toolStep, hb, output, ha]
          | false =>
              rw [hb, ha] at h
              obtain ⟨htail, hfound⟩ := h line rfl
              cases hd : (toolAfter topLevel earlier).mode.isDoc <;>
                simp [toolStep, output, hb, ha, hfound, hd, htail]

/-- No line of the docstring is written, and the lines behind it are processed
as at the beginning of a file. -/
def Removed (earlier : List JsString) (doc : Docstring) : Prop :=
  written (stateAfter initialState earlier) doc.lines = doc.lines.map (fun _ => none) ∧
    ∀ rest, written (stateAfter initialState (earlier ++ doc.lines)) rest =
      written initialState rest

theorem removed_iff_toolWritten (earlier : List JsString) (doc : Docstring) :
    Removed earlier doc ↔
      toolWritten (view (stateAfter initialState earlier)) doc.lines =
          doc.lines.map (fun _ => none) ∧
        toolAfter (view (stateAfter initialState earlier)) doc.lines = topLevel := by
  have hafter : toolAfter (view (stateAfter initialState earlier)) doc.lines =
      view (stateAfter initialState (earlier ++ doc.lines)) := by
    rw [view_stateAfter sound_initialState, view_stateAfter sound_initialState, toolAfter,
      toolAfter, toolAfter, Runs.run_append]
  have hview : view initialState = topLevel := rfl
  rw [Removed, hafter, written_eq (stateAfter_sound earlier)]
  simp only [written_eq (stateAfter_sound (earlier ++ doc.lines)),
    written_eq sound_initialState, hview]
  refine and_congr_right fun _ => ⟨topLevel_of_toolWritten, fun heq rest => ?_⟩
  rw [heq]

/-- After any lines, the docstring is removed exactly if each of its lines is of
a kind that is dropped and the last one leads to top level; and at top level,
where no other delimiters are on its lines, exactly if its closing line starts
with `#` or the text on that line does not end in one of the five characters. -/
theorem removed_iff (earlier : List JsString) (doc : Docstring) :
    (Removed earlier doc ↔ DroppedFrom (view (stateAfter initialState earlier)) doc.lines) ∧
    ((view (stateAfter initialState earlier)).mode = .top →
      (∀ line ∈ previousCode earlier, endsInTail line = false ∧ found line = none) →
      Plain doc.toMultiLine →
      (Removed earlier doc ↔
        isAnnot doc.closing = true ∨ endsInTail doc.text = false)) := by
  have hexact : Removed earlier doc ↔
      DroppedFrom (view (stateAfter initialState earlier)) doc.lines := by
    rw [removed_iff_toolWritten]
    exact toolWritten_dropped_iff _ _
  refine ⟨hexact, fun hmode hcode hplain => ?_⟩
  have htail : (view (stateAfter initialState earlier)).lasttail = false := by
    rw [view_stateAfter sound_initialState]
    exact lasttail_of_previousCode hcode
  have htop : view (stateAfter initialState earlier) = topLevel := by
    rw [topLevel, ← hmode, ← htail]
  rw [hexact, htop, droppedFrom_plain hplain]

/-- A docstring over two lines, with the given text before its end. -/
def twoLines (text : JsString)
    (closes : indexOf (quotes .double) (text ++ quotes .double) = some text.length) :
    Docstring where
  q := .double
  before := units "  "
  after := units "Text"
  body := []
  text := text
  rest := []
  before_blank := by decide
  at_end := rfl
  delimited := by
    have hopening : indexOf (quotes .double) (units "  \"\"\"Text") = some 2 ∧
        lastIndexOf (quotes .double) (units "  \"\"\"Text") = some 2 := by decide
    refine ⟨hopening.1, hopening.2, by simp, ?_⟩
    simpa [MultiLine.closing] using closes

/-- The closing line is written where the text on it ends in a comma. -/
theorem comma_closing_written :
    ¬ Removed [units "def f(a):"] (twoLines (units "more, ") (by decide)) := by
  rintro ⟨hlines, -⟩
  revert hlines
  decide

theorem removed_iff_twoLines :
    Removed [units "def f(a):"] (twoLines (units "more. ") (by decide)) :=
  ((removed_iff _ _).2 (by decide) (by decide) ⟨(twoLines _ _).delimited, by decide⟩).mpr
    (by decide)

end CodingLearners.StripAnnotation
