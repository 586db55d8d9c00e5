import CodingLearners.StripAnnotation.Literals

/-!
# Multi-line strings that are values

Which lines the machine writes as they stand, and what that says about a
literal that is opened behind one of the five characters.
-/

namespace CodingLearners.StripAnnotation

open Js

/-- A literal that is opened behind one of the five characters. -/
structure ValueLiteral extends MultiLine where
  before_tail : endsInTail before = true
  /-- The line it is opened on is not a comment. -/
  opening_code : isAnnot (before ++ quotes q ++ after) = false

/-! ## Lines that are written as they stand -/

/-- A line that is no comment and not blank, and either code, or in a value, or
with a delimiter that makes or leaves it a value. -/
def Keeps (t : Tool) (line : JsString) : Prop :=
  blank line = false ∧ isAnnot line = false ∧
    match found line with
    | none => t.mode.isDoc = false
    | some (q, p) =>
        assigned t.lasttail (line.take p) = true ∨ t.mode.isValue = true ∨
          repeated q p line = false ∧
            match t.mode with
            | .doc q₀ => closedBy q₀ q = false
            | _ => blank (line.take p) = false

/-- Every line is of a kind that is kept in the mode which the lines before it
lead to. -/
def KeptFrom : Tool → List JsString → Prop
  | _, [] => True
  | t, line :: rest => Keeps t line ∧ KeptFrom ⟨nextMode t line, endsInTail line⟩ rest

/-- A line that is cut is shorter than it was. -/
theorem sliceToLast_ne {line : JsString} {n : Nat} (s : JsString) (hs : s.length < n)
    (hn : n ≤ line.length) : s ++ sliceToLast line n ≠ line := by
  intro heq
  have := congrArg List.length heq
  simp only [sliceToLast, List.length_append, List.length_dropLast, List.length_drop] at this
  omega

theorem unlessBlank_ne {cut line : JsString} (h : cut ≠ line) : unlessBlank cut ≠ some line := by
  rw [unlessBlank]
  split
  · simp
  · simpa using h

theorem cutPair_ne {line : JsString} {q : Delimiter} {p : Nat} (hfound : found line = some (q, p))
    (hrep : repeated q p line = true) : cutPair q p line ≠ line := by
  obtain ⟨-, -, j, hj, hle⟩ := found_spec hfound
  have hne : j ≠ p := by simpa [repeated, hj] using hrep
  have hbound := occurs_bound (lastIndexOf_eq_some_iff.mp hj).2.1
  have htake : (line.take p).length = p := by
    rw [List.length_take]
    omega
  simp only [cutPair, cutSameLine, hj, Option.getD_some]
  split
  · intro heq
    have := congrArg List.length heq
    omega
  · exact sliceToLast_ne _ (by omega) (by omega)

theorem cutClosing_ne {line : JsString} {q : Delimiter} {p : Nat}
    (hfound : found line = some (q, p)) : cutClosing p line ≠ some line := by
  have hbound := occurs_bound (indexOf_eq_some_iff.mp (found_spec hfound).2.1).2.1
  rw [cutClosing]
  split
  · simp
  · apply unlessBlank_ne
    have hne : [] ++ sliceToLast line (p + 3) ≠ line := sliceToLast_ne [] (by simp) (by omega)
    simpa using hne

theorem output_eq_some_iff (t : Tool) (line : JsString) :
    output t line = some line ↔ Keeps t line := by
  rw [output, Keeps]
  cases hblank : blank line with
  | true => simp
  | false =>
      cases ha : isAnnot line with
      | true => simp
      | false =>
          cases hfound : found line with
          | none => cases t.mode.isDoc <;> simp
          | some f =>
              obtain ⟨q, p⟩ := f
              have hpair := fun h => unlessBlank_ne (cutPair_ne hfound h)
              have hclosing := cutClosing_ne hfound
              cases hv : assigned t.lasttail (line.take p) with
              | true => simp [hv]
              | false =>
                  cases hrep : repeated q p line with
                  | true => cases hm : t.mode <;> simp [Mode.isValue, hv, hrep, hpair hrep]
                  | false =>
                      cases hm : t.mode with
                      | doc q₀ =>
                          cases hc : closedBy q₀ q <;>
                            simp [Mode.isValue, hv, hrep, hc, hclosing]
                      | top => simp [Mode.isValue, hv, hrep]
                      | value q₀ => simp [Mode.isValue, hv]

theorem toolStep_kept {t : Tool} {line : JsString} (h : Keeps t line) :
    toolStep t line = (⟨nextMode t line, endsInTail line⟩, some line) := by
  have hout := (output_eq_some_iff t line).mpr h
  simp [toolStep, hout, h.1]

/-- The machine writes the lines as they stand exactly if each of them is kept. -/
theorem toolWritten_eq_iff (t : Tool) (lines : List JsString) :
    toolWritten t lines = lines.map some ↔ KeptFrom t lines := by
  induction lines generalizing t with
  | nil => simp [toolWritten, KeptFrom]
  | cons line rest ih =>
      rw [toolWritten, List.map_cons, List.cons.injEq, KeptFrom]
      constructor
      · rintro ⟨hout, hrest⟩
        have hkeeps := (output_eq_some_iff t line).mp hout
        rw [toolStep_kept hkeeps] at hrest
        exact ⟨hkeeps, (ih _).mp hrest⟩
      · rintro ⟨hkeeps, hrest⟩
        rw [toolStep_kept hkeeps]
        exact ⟨rfl, (ih _).mpr hrest⟩

/-! ## Literals without any other delimiter -/

theorem keeps_value {q : Delimiter} {lasttail : Bool} {line : JsString} :
    Keeps ⟨.value q, lasttail⟩ line ↔ blank line = false ∧ isAnnot line = false := by
  rw [Keeps]
  cases found line <;> simp [Mode.isDoc, Mode.isValue]

/-- In a value string only blank lines and comment lines are lost. -/
theorem keptFrom_value {q : Delimiter} {lasttail : Bool} {body : List JsString} {last : JsString}
    (hbody : ∀ line ∈ body, found line = none) :
    KeptFrom ⟨.value q, lasttail⟩ (body ++ [last]) ↔
      ∀ line ∈ body ++ [last], blank line = false ∧ isAnnot line = false := by
  induction body generalizing lasttail with
  | nil => simp [KeptFrom, keeps_value]
  | cons line body ih =>
      rw [List.forall_mem_cons] at hbody
      rw [List.cons_append, KeptFrom, keeps_value, nextMode_none _ hbody.1, ih hbody.2,
        List.forall_mem_cons]

/-- What the handler writes for the lines of the literal are the lines themselves. -/
def Verbatim (earlier : List JsString) (lit : ValueLiteral) : Prop :=
  written (stateAfter initialState earlier) lit.lines = lit.lines.map some

instance (earlier : List JsString) (lit : ValueLiteral) : Decidable (Verbatim earlier lit) :=
  inferInstanceAs (Decidable (_ = _))

theorem assigned_opening (lit : ValueLiteral) (lasttail : Bool) :
    assigned lasttail (lit.opening.take lit.before.length) = true := by
  rw [take_opening, assigned, lit.before_tail, Bool.or_true]

theorem keeps_opening {lit : ValueLiteral} (hplain : Plain lit.toMultiLine) (lasttail : Bool) :
    Keeps ⟨.top, lasttail⟩ lit.opening := by
  refine ⟨blank_of_indexOf hplain.first, lit.opening_code, ?_⟩
  rw [hplain.found_opening]
  exact Or.inl (assigned_opening lit lasttail)

theorem nextMode_value {lit : ValueLiteral} (hplain : Plain lit.toMultiLine) (lasttail : Bool) :
    nextMode ⟨.top, lasttail⟩ lit.opening = .value lit.q := by
  have hcode : isAnnot lit.opening = false := lit.opening_code
  simp only [nextMode, hplain.found_opening, hcode, hplain.repeated_opening,
    assigned_opening lit lasttail, if_true]

theorem keptFrom_plain {lasttail : Bool} {lit : ValueLiteral} (hplain : Plain lit.toMultiLine) :
    KeptFrom ⟨.top, lasttail⟩ lit.lines ↔
      ∀ line ∈ lit.later, blank line = false ∧ isAnnot line = false := by
  rw [MultiLine.lines, KeptFrom, nextMode_value hplain, MultiLine.later,
    and_iff_right (keeps_opening hplain lasttail)]
  exact keptFrom_value fun line => hplain.found_body

/-- After any lines, the literal is written as it stands exactly if each of its
lines is of a kind that is kept; and at top level, where no other delimiters
are on its lines, exactly if none of the lines after the opening one is blank
or has a `#` in front. -/
theorem verbatim_iff (earlier : List JsString) (lit : ValueLiteral) :
    (Verbatim earlier lit ↔ KeptFrom (view (stateAfter initialState earlier)) lit.lines) ∧
    ((view (stateAfter initialState earlier)).mode = .top → Plain lit.toMultiLine →
      (Verbatim earlier lit ↔
        ∀ line ∈ lit.later, blank line = false ∧ isAnnot line = false)) := by
  have hexact : Verbatim earlier lit ↔
      KeptFrom (view (stateAfter initialState earlier)) lit.lines := by
    rw [Verbatim, written_eq (stateAfter_sound earlier)]
    exact toolWritten_eq_iff _ _
  refine ⟨hexact, fun hmode hplain => ?_⟩
  rw [hexact, ← keptFrom_plain hplain, ← hmode]

/-- `x = """a`, then the given line, then `b"""`. -/
def threeLines (line : JsString) : ValueLiteral where
  q := .double
  before := units "x = "
  after := units "a"
  body := [line]
  text := units "b"
  rest := []
  before_tail := by decide
  opening_code := by decide

/-- The blank line of a value is lost. -/
theorem blank_line_lost : ¬ Verbatim [] (threeLines []) := by decide

theorem verbatim_iff_textLine : Verbatim [] (threeLines (units "c")) :=
  ((verbatim_iff [] (threeLines (units "c"))).2 rfl
    ⟨⟨by decide, by decide, by decide, by decide⟩, by decide⟩).mpr (by decide)

end CodingLearners.StripAnnotation
