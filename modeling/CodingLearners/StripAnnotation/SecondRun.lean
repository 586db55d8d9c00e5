import CodingLearners.StripAnnotation.CutLines
import CodingLearners.StripAnnotation.ValueStrings

/-!
# Running the tool on its own output

A second run reads what the first one writes, so the two tools are followed
side by side over the lines of the source: the second one moves whenever the
first one writes. The output stays the same exactly if each written line is of
a kind that the second tool keeps in the mode in which it meets it.
-/

namespace CodingLearners.StripAnnotation

open Js

/-- The line is not written, or what is written of it is kept by the second tool. -/
def Settled (t t' : Tool) (line : JsString) : Prop :=
  blank line = true ∨ isAnnot line = true ∨
    match cutOut t line with
    | some (before, after) =>
        blank (before ++ after.dropLast) = true ∨ Keeps t' (before ++ after.dropLast)
    | none => Keeps t line → Keeps t' line

theorem settled_iff (t t' : Tool) (line : JsString) :
    Settled t t' line ↔ ∀ w, output t line = some w → Keeps t' w := by
  rw [Settled]
  cases hblank : blank line with
  | true => simp [output, hblank]
  | false =>
      cases ha : isAnnot line with
      | true => simp [output, ha]
      | false =>
          cases hcut : cutOut t line with
          | none =>
              rw [← output_eq_some_iff t line]
              rcases output_uncut hcut with hnone | hsame
              · simp [hnone]
              · simp [hsame]
          | some c =>
              have hout := output_cutOut (show cutOut t line = some (c.1, c.2) from hcut)
              rw [ha] at hout
              cases hrest : blank (c.1 ++ c.2.dropLast) <;> simp_all [unlessBlank]

/-- Both tools after a line of the source. -/
def rerunStep (r : Tool × Tool) (line : JsString) : Tool × Tool :=
  ((toolStep r.1 line).1,
    match (toolStep r.1 line).2 with
    | none => r.2
    | some w => (toolStep r.2 w).1)

/-- Each line is settled for the tools to which the lines before it lead. -/
def SettledFrom (r : Tool × Tool) (lines : List JsString) : Prop :=
  Runs.Steps rerunStep (fun r line => Settled r.1 r.2 line) r lines

theorem keptFrom_written_iff (t t' : Tool) (lines : List JsString) :
    KeptFrom t' ((toolWritten t lines).filterMap id) ↔ SettledFrom (t, t') lines := by
  induction lines generalizing t t' with
  | nil => simp [toolWritten, KeptFrom, SettledFrom]
  | cons line rest ih =>
      rw [toolWritten, SettledFrom, Runs.steps_cons, settled_iff]
      change KeptFrom t' ((output t line :: _).filterMap id) ↔ _
      cases hout : output t line with
      | none =>
          have hstep : rerunStep (t, t') line = ((toolStep t line).1, t') := by
            simp [rerunStep, toolStep, hout]
          rw [hstep, List.filterMap_cons_none rfl, ih]
          simp [SettledFrom]
      | some w =>
          have hstep : rerunStep (t, t') line = ((toolStep t line).1, (toolStep t' w).1) := by
            simp [rerunStep, toolStep, hout]
          change KeptFrom t' (w :: (toolWritten (toolStep t line).1 rest).filterMap id) ↔ _
          rw [hstep, KeptFrom]
          simp only [Option.some.injEq, forall_eq']
          constructor
          · rintro ⟨hkeeps, hrest⟩
            rw [toolStep_kept hkeeps]
            exact ⟨hkeeps, (ih _ _).mp hrest⟩
          · rintro ⟨hkeeps, hrest⟩
            rw [toolStep_kept hkeeps] at hrest
            exact ⟨hkeeps, (ih _ _).mpr hrest⟩

/-- As many optional values as there are in the end are all there. -/
theorem filterMap_id_eq_iff {α : Type*} {outs : List (Option α)} {xs : List α}
    (hlength : outs.length = xs.length) : outs.filterMap id = xs ↔ outs = xs.map some := by
  constructor
  · rintro rfl
    induction outs with
    | nil => rfl
    | cons out rest ih =>
        have hle := List.length_filterMap_le id rest
        cases out with
        | none =>
            change rest.length + 1 = (rest.filterMap id).length at hlength
            omega
        | some x =>
            change rest.length + 1 = (rest.filterMap id).length + 1 at hlength
            exact congrArg (some x :: ·) (ih (by omega))
  · rintro rfl
    simp

theorem toolWritten_length (t : Tool) (lines : List JsString) :
    (toolWritten t lines).length = lines.length := by
  induction lines generalizing t with
  | nil => rfl
  | cons line rest ih => simp [toolWritten, ih]

theorem strip_eq (lines : List JsString) :
    strip lines = (toolWritten topLevel lines).filterMap id := by
  rw [strip, written_eq sound_initialState]
  rfl

theorem strip_eq_self_iff (lines : List JsString) :
    strip lines = lines ↔ KeptFrom topLevel lines := by
  rw [strip_eq, filterMap_id_eq_iff (toolWritten_length _ _), toolWritten_eq_iff]

/-! ## Sources on which the two runs agree -/

/-- A line that leaves the modes of the two runs in step. -/
def Tidy (t : Tool) (line : JsString) : Prop :=
  match found line with
  | none => True
  | some (q, p) =>
      if isAnnot line then t.mode.isValue = false
      else
        match cutOut t line with
        | some (before, after) =>
            blank (before ++ after.dropLast) = true ∨
              isAnnot (before ++ after.dropLast) = false ∧
                found (before ++ after.dropLast) = none
        | none =>
            match t.mode with
            | .top => True
            | .doc _ => repeated q p line = true ∨
                assigned t.lasttail (line.take p) = false ∧ blank (line.take p) = false
            | .value _ => repeated q p line = false

/-- The second tool is where the first one is, but knows of no docstrings. -/
structure InStep (t t' : Tool) : Prop where
  top : t.mode.isValue = false → t'.mode = .top
  value : t.mode.isValue = true → t'.mode = t.mode
  lasttail : t.lasttail = true → t'.lasttail = true

theorem assigned_mono {lasttail lasttail' : Bool} (h : lasttail = true → lasttail' = true)
    {stleft : JsString} (hassigned : assigned lasttail stleft = true) :
    assigned lasttail' stleft = true := by
  rw [assigned, Bool.or_eq_true, Bool.and_eq_true] at hassigned ⊢
  exact hassigned.imp_left (And.imp_right h)

/-- The line is settled, and the two tools are in step behind it. -/
def StaysInStep (t t' : Tool) (line : JsString) : Prop :=
  Settled t t' line ∧ InStep (rerunStep (t, t') line).1 (rerunStep (t, t') line).2

/-- A line of which nothing is written moves the first tool only. -/
theorem stays_skipped {t t' : Tool} {line : JsString} (hstep : InStep t t')
    (hout : output t line = none)
    (hmode : nextMode t line = t.mode ∨
      (nextMode t line).isValue = false ∧ t.mode.isValue = false) : StaysInStep t t' line := by
  refine ⟨(settled_iff t t' line).mpr (by simp [hout]), ?_⟩
  have hsecond : (rerunStep (t, t') line).2 = t' := by simp [rerunStep, toolStep, hout]
  rw [hsecond]
  change InStep
    ⟨nextMode t line, if blank line then t.lasttail else (output t line).any endsInTail⟩ t'
  refine ⟨fun hnext => ?_, fun hnext => ?_, fun htail => ?_⟩
  · apply hstep.top
    rcases hmode with hsame | ⟨-, hvalue⟩
    · rwa [hsame] at hnext
    · exact hvalue
  · rcases hmode with hsame | ⟨hnot, -⟩
    · rw [hsame] at hnext ⊢
      exact hstep.value hnext
    · rw [hnot] at hnext
      contradiction
  · apply hstep.lasttail
    exact And.right (by simpa [hout] using htail)

/-- A line of which something is written moves both tools. -/
theorem stays_written {t t' : Tool} {line w : JsString} (hblank : blank line = false)
    (hout : output t line = some w) (hkeeps : Keeps t' w)
    (htop : (nextMode t line).isValue = false → nextMode t' w = .top)
    (hvalue : (nextMode t line).isValue = true → nextMode t' w = nextMode t line) :
    StaysInStep t t' line := by
  refine ⟨(settled_iff t t' line).mpr (by simpa [hout] using hkeeps), ?_⟩
  have hfirst : (rerunStep (t, t') line).1 = ⟨nextMode t line, endsInTail w⟩ := by
    simp [rerunStep, toolStep, hout, hblank]
  have hsecond : (rerunStep (t, t') line).2 = ⟨nextMode t' w, endsInTail w⟩ := by
    simp [rerunStep, toolStep_kept hkeeps, show (toolStep t line).2 = some w from hout]
  rw [hfirst, hsecond]
  exact ⟨htop, hvalue, id⟩

theorem tidy_none {t t' : Tool} {line : JsString} (hstep : InStep t t')
    (hfound : found line = none) : StaysInStep t t' line := by
  have hnext := nextMode_none t hfound
  cases hskip : blank line || isAnnot line with
  | true => exact stays_skipped hstep (by simp [output, hskip]) (Or.inl hnext)
  | false =>
      obtain ⟨hblank, hannot⟩ := Bool.or_eq_false_iff.mp hskip
      cases hdoc : t.mode.isDoc with
      | true => exact stays_skipped hstep (by simp [output, hfound, hdoc]) (Or.inl hnext)
      | false =>
          have hnext' := nextMode_none t' hfound
          have hdoc' : t'.mode.isDoc = false := by
            cases hvalue : t.mode.isValue with
            | true => rw [hstep.value hvalue, hdoc]
            | false =>
                rw [hstep.top hvalue]
                rfl
          apply stays_written hblank (w := line)
          · simp [output, hskip, hfound, hdoc]
          · simpa [Keeps, hfound, hblank, hannot] using hdoc'
          · intro hvalue
            rw [hnext'.trans (hstep.top (by rwa [hnext] at hvalue))]
          · intro hvalue
            rw [hnext', hstep.value (by rwa [hnext] at hvalue), hnext]

/-- Behind a line that is cut, as before it, the tool is not in a value. -/
theorem nextMode_cut {t : Tool} {line : JsString} {q : Delimiter} {p : Nat}
    {c : JsString × JsString} (hfound : found line = some (q, p)) (hannot : isAnnot line = false)
    (hcut : cutOut t line = some c) :
    (nextMode t line).isValue = false ∧ t.mode.isValue = false := by
  simp only [cutOut, hfound, hannot, Bool.false_eq_true, if_false] at hcut
  split_ifs at hcut with hvalue hrep
  · rw [Bool.or_eq_true, not_or, Bool.not_eq_true, Bool.not_eq_true] at hvalue
    have hmode := hvalue.2
    cases hm : t.mode <;> simp_all [nextMode, Mode.isValue]
  · have hdoc : cutDocstring t.mode q p line = some (c.1, c.2) := hcut
    obtain ⟨⟨q₀, hmode, hclosed⟩, -, -⟩ := cutDocstring_eq_some hdoc
    simp [nextMode, hfound, hannot, hrep, hmode, hclosed, Mode.isValue]

/-- What is written of a line that is cut is a line of code without delimiter. -/
theorem tidy_cut {t t' : Tool} {line before after : JsString} {q : Delimiter} {p : Nat}
    (hstep : InStep t t') (hfound : found line = some (q, p)) (hannot : isAnnot line = false)
    (hcut : cutOut t line = some (before, after))
    (hrest : blank (before ++ after.dropLast) = true ∨
      isAnnot (before ++ after.dropLast) = false ∧ found (before ++ after.dropLast) = none) :
    StaysInStep t t' line := by
  have hmodes := nextMode_cut hfound hannot hcut
  have hout := output_cutOut hcut
  simp only [hannot, Bool.false_eq_true, if_false] at hout
  cases hblank : blank (before ++ after.dropLast) with
  | true => exact stays_skipped hstep (by simp [hout, unlessBlank, hblank]) (Or.inr hmodes)
  | false =>
      obtain ⟨hcode, hnone⟩ := hrest.resolve_left (by simp [hblank])
      have htop := hstep.top hmodes.2
      have hnext := (nextMode_none t' hnone).trans htop
      apply stays_written (blank_of_found hfound) (w := before ++ after.dropLast)
      · simp [hout, unlessBlank, hblank]
      · simp [Keeps, hblank, hcode, hnone, htop, Mode.isDoc]
      · exact fun _ => hnext
      · intro hvalue
        rw [hmodes.1] at hvalue
        contradiction

theorem assigned_of_text {lasttail : Bool} {stleft : JsString} (h : blank stleft = false) :
    assigned lasttail stleft = endsInTail stleft := by
  simp [assigned, h]

/-- A value that the first tool finds outside of values, the second finds at top level. -/
theorem tidy_assigned {t t' : Tool} {line : JsString} {q : Delimiter} {p : Nat}
    (hstep : InStep t t') (hfound : found line = some (q, p)) (hannot : isAnnot line = false)
    (hassigned : assigned t.lasttail (line.take p) = true)
    (hmode : t.mode = .top ∨ t.mode.isValue = false ∧ repeated q p line = true) :
    StaysInStep t t' line := by
  have hblank := blank_of_found hfound
  have htop : t'.mode = .top := by
    apply hstep.top
    rcases hmode with htop | ⟨hvalue, -⟩
    · rw [htop]
      rfl
    · exact hvalue
  have hassigned' := assigned_mono hstep.lasttail hassigned
  have hnext' : nextMode t' line = if repeated q p line then .top else .value q := by
    simp only [nextMode, hfound, hannot, htop, hassigned', if_true]
    cases repeated q p line <;> rfl
  apply stays_written hblank (w := line)
  · simp [output, hblank, hannot, hfound, hassigned]
  · simp [Keeps, hblank, hannot, hfound, hassigned']
  · intro hvalue
    rw [hnext']
    rcases hmode with htop | ⟨-, hrep⟩
    · cases hrep : repeated q p line with
      | true => rfl
      | false => simp [nextMode, hfound, hannot, htop, hrep, hassigned, Mode.isValue] at hvalue
    · rw [hrep, if_pos rfl]
  · intro hvalue
    rw [hnext']
    rcases hmode with htop | ⟨hnot, hrep⟩
    · cases hrep : repeated q p line <;>
        simp_all [nextMode, Mode.isValue]
    · cases hm : t.mode <;> simp_all [nextMode, Mode.isValue]

/-- A single delimiter behind other text is written by both tools. -/
theorem tidy_behind_text {t t' : Tool} {line : JsString} {q : Delimiter} {p : Nat}
    (hstep : InStep t t') (hfound : found line = some (q, p)) (hannot : isAnnot line = false)
    (hassigned : assigned t.lasttail (line.take p) = false) (hrep : repeated q p line = false)
    (htext : blank (line.take p) = false)
    (hmode : match t.mode with
      | .top => True
      | .doc q₀ => closedBy q₀ q = false
      | .value _ => False) : StaysInStep t t' line := by
  have hblank := blank_of_found hfound
  have hassigned' : assigned t'.lasttail (line.take p) = false := by
    rw [assigned_of_text htext] at hassigned ⊢
    exact hassigned
  have htop : t'.mode = .top := by
    apply hstep.top
    cases hm : t.mode with
    | value q₀ => simp [hm] at hmode
    | top => rfl
    | doc q₀ => rfl
  have hnext : (nextMode t line).isValue = false := by
    cases hm : t.mode <;> simp_all [nextMode, Mode.isValue]
  apply stays_written hblank (w := line)
  · cases hm : t.mode <;> simp_all [output, Mode.isValue]
  · simp [Keeps, hblank, hannot, hfound, htop, hrep, htext]
  · intro _
    simp [nextMode, hfound, hannot, htop, hrep, hassigned', htext]
  · intro hvalue
    rw [hnext] at hvalue
    contradiction

/-- Within a value both tools write the line and look for the same end. -/
theorem tidy_value {t t' : Tool} {line : JsString} {q q₀ : Delimiter} {p : Nat}
    (hstep : InStep t t') (hfound : found line = some (q, p)) (hannot : isAnnot line = false)
    (hmode : t.mode = .value q₀) (hrep : repeated q p line = false) :
    StaysInStep t t' line := by
  have hblank := blank_of_found hfound
  have hsame : t'.mode = .value q₀ := by
    rw [← hmode]
    exact hstep.value (by rw [hmode]; rfl)
  have hnext : nextMode t line = nextMode t' line := by
    simp only [nextMode, hfound, hannot, hmode, hsame, hrep]
  apply stays_written hblank (w := line)
  · simp [output, hblank, hannot, hfound, hmode, Mode.isValue]
  · simp [Keeps, hblank, hannot, hfound, hsame, Mode.isValue]
  · intro hvalue
    rw [← hnext]
    simp only [nextMode, hfound, hannot, hmode, hrep] at hvalue ⊢
    cases hclosed : closedBy q₀ q <;> simp_all [Mode.isValue]
  · exact fun _ => hnext.symm

theorem tidy_uncut {t t' : Tool} {line : JsString} {q : Delimiter} {p : Nat}
    (hstep : InStep t t') (hfound : found line = some (q, p)) (hannot : isAnnot line = false)
    (hcut : cutOut t line = none)
    (htidy : match t.mode with
      | .top => True
      | .doc _ => repeated q p line = true ∨
          assigned t.lasttail (line.take p) = false ∧ blank (line.take p) = false
      | .value _ => repeated q p line = false) :
    StaysInStep t t' line := by
  have hblank := blank_of_found hfound
  cases hmode : t.mode with
  | top =>
      cases hassigned : assigned t.lasttail (line.take p) with
      | true => exact tidy_assigned hstep hfound hannot hassigned (Or.inl hmode)
      | false =>
          have hrep : repeated q p line = false := by
            simpa [cutOut, hfound, hannot, hassigned, hmode, Mode.isValue, cutDocstring] using hcut
          cases htext : blank (line.take p) with
          | true =>
              apply stays_skipped hstep
              · simp [output, hblank, hannot, hfound, hassigned, hrep, hmode, htext, Mode.isValue]
              · simp [nextMode, hfound, hannot, hassigned, hrep, hmode, htext, Mode.isValue]
          | false =>
              exact tidy_behind_text hstep hfound hannot hassigned hrep htext (by simp [hmode])
  | doc q₀ =>
      simp only [hmode] at htidy
      cases hassigned : assigned t.lasttail (line.take p) with
      | true =>
          have hrep : repeated q p line = true := by simpa [hassigned] using htidy
          exact tidy_assigned hstep hfound hannot hassigned (Or.inr ⟨by rw [hmode]; rfl, hrep⟩)
      | false =>
          have hcut' : repeated q p line = false ∧ closedBy q₀ q = false := by
            cases hrep : repeated q p line <;> cases hclosed : closedBy q₀ q <;>
              simp [cutOut, hfound, hannot, hassigned, hmode, hrep, hclosed, Mode.isValue,
                cutDocstring] at hcut ⊢
          have htext : blank (line.take p) = false := by simpa [hcut'.1, hassigned] using htidy
          exact tidy_behind_text hstep hfound hannot hassigned hcut'.1 htext
            (by simpa [hmode] using hcut'.2)
  | value q₀ =>
      exact tidy_value hstep hfound hannot hmode (by simpa [hmode] using htidy)

theorem tidy_step {t t' : Tool} {line : JsString} (hstep : InStep t t') (htidy : Tidy t line) :
    StaysInStep t t' line := by
  cases hfound : found line with
  | none => exact tidy_none hstep hfound
  | some f =>
      obtain ⟨q, p⟩ := f
      rw [Tidy, hfound] at htidy
      cases hannot : isAnnot line with
      | true =>
          have hvalue : t.mode.isValue = false := by simpa [hannot] using htidy
          have hout : output t line = none := by simp [output, hannot]
          apply stays_skipped hstep hout
          right
          refine ⟨?_, hvalue⟩
          cases hmode : t.mode with
          | top => simp [nextMode, hfound, hannot, hmode, Mode.isValue]
          | doc q₀ =>
              simp only [nextMode, hfound, hannot, hmode]
              cases closedBy q₀ q <;> rfl
          | value q₀ => simp [hmode, Mode.isValue] at hvalue
      | false =>
          simp only [hannot, Bool.false_eq_true, if_false] at htidy
          cases hcut : cutOut t line with
          | none => exact tidy_uncut hstep hfound hannot hcut (by simpa only [hcut] using htidy)
          | some c =>
              exact tidy_cut hstep hfound hannot hcut (by simpa only [hcut] using htidy)

theorem settledFrom_of_tidy {t t' : Tool} (hstep : InStep t t') {lines : List JsString}
    (htidy : Runs.Steps (fun t line => (toolStep t line).1) Tidy t lines) :
    SettledFrom (t, t') lines := by
  induction lines generalizing t t' with
  | nil => trivial
  | cons line rest ih =>
      obtain ⟨hsettled, hnext⟩ := tidy_step hstep htidy.1
      exact ⟨hsettled, ih hnext htidy.2⟩

/-- The tool writes its own output again exactly if each line of the source is
settled for the two tools that the lines before it lead to; and a source of tidy
lines is of this kind. -/
theorem strip_strip_iff (lines : List JsString) :
    (strip (strip lines) = strip lines ↔ SettledFrom (topLevel, topLevel) lines) ∧
    (Runs.Steps (fun t line => (toolStep t line).1) Tidy topLevel lines →
      strip (strip lines) = strip lines) := by
  have hexact : strip (strip lines) = strip lines ↔ SettledFrom (topLevel, topLevel) lines := by
    rw [strip_eq_self_iff, strip_eq]
    exact keptFrom_written_iff topLevel topLevel lines
  refine ⟨hexact, fun htidy => hexact.mpr ?_⟩
  have hstart : InStep topLevel topLevel := ⟨fun _ => rfl, fun _ => rfl, id⟩
  exact settledFrom_of_tidy hstart htidy

/-- The rest of a line that is cut is a comment, which the second run removes. -/
theorem rest_removed :
    strip [units "'''a''' # b."] = [units " # b"] ∧
      strip (strip [units "'''a''' # b."]) = [] := by
  decide

end CodingLearners.StripAnnotation
