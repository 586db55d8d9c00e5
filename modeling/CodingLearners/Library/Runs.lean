import Mathlib.Data.List.Basic
import Mathlib.Data.List.Induction

/-!
# Runs of a deterministic machine over a list of inputs

Everything a machine cannot foresee is an input of its step, so a run is a
left fold. `Steps` says that each input meets a condition in the state that
receives it. The rules below turn facts about one step into facts about
every state a run reaches.
-/

namespace Runs

variable {σ ι : Type*} (step : σ → ι → σ)

/-- The state reached from `s` after all inputs have been consumed in order. -/
def run (s : σ) (inputs : List ι) : σ := inputs.foldl step s

@[simp] theorem run_nil (s : σ) : run step s [] = s := rfl

@[simp] theorem run_cons (s : σ) (i : ι) (rest : List ι) :
    run step s (i :: rest) = run step (step s i) rest := rfl

theorem run_append (s : σ) (first second : List ι) :
    run step s (first ++ second) = run step (run step s first) second := by
  simp [run, List.foldl_append]

/-- Every input meets `P` in the state in which the machine receives it. -/
def Steps (P : σ → ι → Prop) : σ → List ι → Prop
  | _, [] => True
  | s, i :: rest => P s i ∧ Steps P (step s i) rest

instance Steps.decidable (P : σ → ι → Prop) [∀ s i, Decidable (P s i)] :
    ∀ s inputs, Decidable (Steps step P s inputs)
  | _, [] => isTrue trivial
  | s, i :: rest =>
      have := Steps.decidable P (step s i) rest
      inferInstanceAs (Decidable (P s i ∧ Steps step P (step s i) rest))

@[simp] theorem steps_nil (P : σ → ι → Prop) (s : σ) : Steps step P s [] := trivial

@[simp] theorem steps_cons (P : σ → ι → Prop) (s : σ) (i : ι) (rest : List ι) :
    Steps step P s (i :: rest) ↔ P s i ∧ Steps step P (step s i) rest := Iff.rfl

theorem steps_append (P : σ → ι → Prop) (s : σ) (first second : List ι) :
    Steps step P s (first ++ second) ↔
      Steps step P s first ∧ Steps step P (run step s first) second := by
  induction first generalizing s with
  | nil => simp
  | cons i rest ih => simp [ih, and_assoc]

/-- The run rule: what every admissible step preserves holds after the run. -/
theorem Steps.invariant {step : σ → ι → σ} {P : σ → ι → Prop} {Inv : σ → Prop}
    (hstep : ∀ s i, Inv s → P s i → Inv (step s i)) {s : σ} {inputs : List ι}
    (hs : Steps step P s inputs) (h0 : Inv s) : Inv (run step s inputs) := by
  induction inputs generalizing s with
  | nil => exact h0
  | cons i rest ih => exact ih hs.2 (hstep s i h0 hs.1)

/-- The run rule for what depends on the inputs so far. -/
theorem Steps.history {step : σ → ι → σ} {P : σ → ι → Prop} {s : σ} (Inv : List ι → σ → Prop)
    (hstep : ∀ past i, Inv past (run step s past) → P (run step s past) i →
      Inv (past ++ [i]) (run step s (past ++ [i]))) {inputs : List ι}
    (hs : Steps step P s inputs) (h0 : Inv [] s) : Inv inputs (run step s inputs) := by
  induction inputs using List.reverseRecOn with
  | nil => exact h0
  | append_singleton past i ih =>
      obtain ⟨hpast, hi, -⟩ := (steps_append step P s past [i]).mp hs
      exact hstep past i (ih hpast) hi

/-- What an invariant and a condition give for one step, they give for every step. -/
theorem Steps.imp {step : σ → ι → σ} {P Q : σ → ι → Prop} (Inv : σ → Prop)
    (hstep : ∀ s i, Inv s → P s i → Inv (step s i) ∧ Q s i) {s : σ} {inputs : List ι}
    (hs : Steps step P s inputs) (h0 : Inv s) : Steps step Q s inputs := by
  induction inputs generalizing s with
  | nil => trivial
  | cons i rest ih =>
      obtain ⟨hnext, hq⟩ := hstep s i h0 hs.1
      exact ⟨hq, ih hs.2 hnext⟩

/-- Two conditions that agree wherever an invariant holds hold for the same
runs, if a step that meets the first keeps the invariant. -/
theorem steps_congr {step : σ → ι → σ} {P Q : σ → ι → Prop} (Inv : σ → Prop)
    (hiff : ∀ s i, Inv s → (P s i ↔ Q s i)) (hkeep : ∀ s i, Inv s → P s i → Inv (step s i))
    {s : σ} (h0 : Inv s) (inputs : List ι) : Steps step P s inputs ↔ Steps step Q s inputs := by
  constructor
  · intro hs
    exact Steps.imp Inv (fun s i h hp => ⟨hkeep s i h hp, (hiff s i h).mp hp⟩) hs h0
  · intro hs
    have hboth := fun s i h hq => (hiff s i h).mpr hq
    exact Steps.imp Inv (fun s i h hq => ⟨hkeep s i h (hboth s i h hq), hboth s i h hq⟩) hs h0

/-- The run rule without a condition on the inputs. -/
theorem run_invariant {step : σ → ι → σ} (Inv : σ → Prop)
    (hstep : ∀ s i, Inv s → Inv (step s i)) {s : σ} (h0 : Inv s) (inputs : List ι) :
    Inv (run step s inputs) := by
  induction inputs generalizing s with
  | nil => exact h0
  | cons i rest ih => exact ih (hstep s i h0)

/-- What every step keeps holds after the whole run if it holds after a part. -/
theorem run_of_prefix {step : σ → ι → σ} {P : σ → Prop} (hstable : ∀ s i, P s → P (step s i))
    {s : σ} {first inputs : List ι} (hfirst : first <+: inputs) (h : P (run step s first)) :
    P (run step s inputs) := by
  obtain ⟨rest, rfl⟩ := hfirst
  rw [run_append]
  exact run_invariant P hstable h rest

/-- The steps of a run, one by one. -/
theorem steps_of_prefixes {step : σ → ι → σ} {P : σ → ι → Prop} {s : σ} {inputs : List ι}
    (h : ∀ first i, first ++ [i] <+: inputs → P (run step s first) i) :
    Steps step P s inputs := by
  induction inputs generalizing s with
  | nil => trivial
  | cons i rest ih =>
      refine ⟨h [] i ⟨rest, rfl⟩, ih fun first j hfirst => ?_⟩
      exact h (i :: first) j (List.cons_prefix_cons.mpr ⟨rfl, hfirst⟩)

/-- Some input meets `P` in the state in which the machine receives it. -/
def Occurs (P : σ → ι → Prop) : σ → List ι → Prop
  | _, [] => False
  | s, i :: rest => P s i ∨ Occurs P (step s i) rest

@[simp] theorem occurs_nil (P : σ → ι → Prop) (s : σ) : ¬ Occurs step P s [] := id

@[simp] theorem occurs_cons (P : σ → ι → Prop) (s : σ) (i : ι) (rest : List ι) :
    Occurs step P s (i :: rest) ↔ P s i ∨ Occurs step P (step s i) rest := Iff.rfl

theorem occurs_append (P : σ → ι → Prop) (s : σ) (first second : List ι) :
    Occurs step P s (first ++ second) ↔
      Occurs step P s first ∨ Occurs step P (run step s first) second := by
  induction first generalizing s with
  | nil => simp
  | cons i rest ih => simp [ih, or_assoc]

/-- Where it occurs. -/
theorem Occurs.exists {step : σ → ι → σ} {P : σ → ι → Prop} {s : σ} {inputs : List ι}
    (h : Occurs step P s inputs) :
    ∃ first i rest, inputs = first ++ i :: rest ∧ P (run step s first) i := by
  induction inputs generalizing s with
  | nil => exact h.elim
  | cons j inputs ih =>
      rcases h with h | h
      · exact ⟨[], j, inputs, rfl, h⟩
      · obtain ⟨first, i, rest, rfl, hi⟩ := ih h
        exact ⟨j :: first, i, rest, rfl, hi⟩

theorem occurs_concat (P : σ → ι → Prop) (s : σ) (past : List ι) (i : ι) :
    Occurs step P s (past ++ [i]) ↔ Occurs step P s past ∨ P (run step s past) i := by
  simp [occurs_append]

/-- A run and the run without some of its inputs stay related, if the inputs
that stay keep the relation, and those that are left out do so as long as a
condition holds after them. -/
theorem run_filter {step : σ → ι → σ} {R : σ → σ → Prop} {keep : ι → Bool} (Good : σ → Prop)
    (hkeep : ∀ s s' i, R s s' → keep i = true → R (step s i) (step s' i))
    (hskip : ∀ s s' i, R s s' → keep i = false → Good (step s i) → R (step s i) s')
    {s s' : σ} {inputs : List ι} (hgood : ∀ first, first <+: inputs → Good (run step s first))
    (h0 : R s s') : R (run step s inputs) (run step s' (inputs.filter keep)) := by
  induction inputs generalizing s s' with
  | nil => exact h0
  | cons i rest ih =>
      have hrest : ∀ first, first <+: rest → Good (run step (step s i) first) := fun first hfirst =>
        hgood (i :: first) (List.cons_prefix_cons.mpr ⟨rfl, hfirst⟩)
      cases hi : keep i with
      | true =>
          rw [List.filter_cons_of_pos hi]
          exact ih hrest (hkeep s s' i h0 hi)
      | false =>
          rw [List.filter_cons_of_neg (by simp [hi])]
          exact ih hrest (hskip s s' i h0 hi (hgood [i] ⟨rest, rfl⟩))

/-- A property holds in every state of a run exactly when every step meets a
condition, provided that the condition is exactly what one step needs. -/
theorem always_iff_steps {step : σ → ι → σ} {P : σ → ι → Prop} (Inv : σ → Prop) {Good : σ → Prop}
    (hkeep : ∀ s i, Inv s → Inv (step s i))
    (hexact : ∀ s i, Inv s → Good s → (Good (step s i) ↔ P s i))
    {s : σ} (h0 : Inv s) (hgood : Good s) (inputs : List ι) :
    (∀ first, first <+: inputs → Good (run step s first)) ↔ Steps step P s inputs := by
  induction inputs generalizing s with
  | nil =>
      constructor
      · intro _
        trivial
      · intro _ first hfirst
        rw [List.prefix_nil.mp hfirst]
        exact hgood
  | cons i rest ih =>
      constructor
      · intro h
        have hnext : Good (step s i) := h [i] ⟨rest, rfl⟩
        refine ⟨(hexact s i h0 hgood).mp hnext, ?_⟩
        apply (ih (hkeep s i h0) hnext).mp
        intro first hfirst
        exact h (i :: first) (List.cons_prefix_cons.mpr ⟨rfl, hfirst⟩)
      · rintro ⟨hp, hrest⟩ first hfirst
        cases first with
        | nil => exact hgood
        | cons j first =>
            obtain ⟨rfl, hpre⟩ := List.cons_prefix_cons.mp hfirst
            exact (ih (hkeep s j h0) ((hexact s j h0 hgood).mpr hp)).mpr hrest first hpre

end Runs
