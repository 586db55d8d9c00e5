import Mathlib.Data.List.Basic

/-!
# One pass over a list that may drop elements

A pass visits the elements from left to right, threads a state through the
visits, and keeps, replaces or drops the element it visits. This is what a
loop by index computes that deletes the current element and steps its index
and its bound back by one.
-/

namespace IndexedPass

variable {σ α : Type*}

/-- Visit each element once; `none` drops it, `some` keeps its new value. -/
def pass (visit : σ → α → σ × Option α) : σ → List α → σ × List α
  | s, [] => (s, [])
  | s, a :: rest =>
      let seen := visit s a
      let later := pass visit seen.1 rest
      (later.1, seen.2.toList ++ later.2)

variable {visit : σ → α → σ × Option α}

@[simp] theorem pass_nil (s : σ) : pass visit s [] = (s, []) := rfl

theorem pass_keep {s s' : σ} {a b : α} (h : visit s a = (s', some b)) (rest : List α) :
    pass visit s (a :: rest) = ((pass visit s' rest).1, b :: (pass visit s' rest).2) := by
  simp [pass, h]

theorem pass_drop {s s' : σ} {a : α} (h : visit s a = (s', none)) (rest : List α) :
    pass visit s (a :: rest) = pass visit s' rest := by
  simp [pass, h]

/-- The pass rule. The invariant speaks about the state and about the whole
list as it stands between two visits: the survivors of the visits already
made, followed by the elements still to be visited. -/
theorem pass_invariant (Inv : σ → List α → Prop) (s : σ) (items : List α)
    (hstep : ∀ s done a todo, a ∈ items → Inv s (done ++ a :: todo) →
      Inv (visit s a).1 (done ++ ((visit s a).2.toList ++ todo)))
    (h : Inv s items) : Inv (pass visit s items).1 (pass visit s items).2 := by
  suffices ∀ rest s done, (∀ a ∈ rest, a ∈ items) → Inv s (done ++ rest) →
      Inv (pass visit s rest).1 (done ++ (pass visit s rest).2) from
    this items s [] (fun _ ha => ha) h
  intro rest
  induction rest with
  | nil =>
      intro s done _ hinv
      exact hinv
  | cons a rest ih =>
      intro s done hmem hinv
      have hseen := hstep s done a rest (hmem a (by simp)) hinv
      rw [← List.append_assoc] at hseen
      have hlater := ih (visit s a).1 _ (fun b hb => hmem b (by simp [hb])) hseen
      rwa [List.append_assoc] at hlater

/-- What no visit shrinks and the visit of one element makes grow, the pass makes grow. -/
theorem pass_lt (measure : σ → Nat) (hmono : ∀ s b, measure s ≤ measure (visit s b).1) {a : α}
    (hgrow : ∀ s, measure s < measure (visit s a).1) (s : σ) {items : List α} (ha : a ∈ items) :
    measure s < measure (pass visit s items).1 := by
  have hpass : ∀ rest s, measure s ≤ measure (pass visit s rest).1 := by
    intro rest
    induction rest with
    | nil => exact fun s => Nat.le_refl _
    | cons b rest ih => exact fun s => Nat.le_trans (hmono s b) (ih _)
  induction items generalizing s with
  | nil => cases ha
  | cons b rest ih =>
      cases List.mem_cons.mp ha with
      | inl hfirst => exact Nat.lt_of_lt_of_le (hfirst ▸ hgrow s) (hpass rest _)
      | inr hlater => exact Nat.lt_of_le_of_lt (hmono s b) (ih _ hlater)

/-- What each visit adds to an observation of the state, the pass adds in order. -/
theorem pass_observe {β : Type*} (observe : σ → List β) (added : α → List β) (s : σ)
    (items : List α) (hadd : ∀ s, ∀ a ∈ items, observe (visit s a).1 = observe s ++ added a) :
    observe (pass visit s items).1 = observe s ++ items.flatMap added := by
  induction items generalizing s with
  | nil => simp
  | cons a rest ih =>
      have hrest := ih (visit s a).1 (fun s b hb => hadd s b (List.mem_cons_of_mem a hb))
      rw [pass, hrest, hadd s a List.mem_cons_self, List.flatMap_cons, List.append_assoc]

section Keyed

variable {κ : Type*} (key : α → κ) (ok : σ → α → Prop)

/-- What visits of other elements leave alone, a pass over other elements does. -/
theorem pass_frame (hframe : ∀ s a b, key b ≠ key a → (ok (visit s a).1 b ↔ ok s b))
    (s : σ) (items : List α) (b : α) (hb : key b ∉ items.map key) :
    ok (pass visit s items).1 b ↔ ok s b := by
  induction items generalizing s with
  | nil => rfl
  | cons a rest ih =>
      simp only [List.map_cons, List.mem_cons, not_or] at hb
      exact (ih (visit s a).1 hb.2).trans (hframe s a b hb.1)

/-- Every survivor of a pass is in order exactly when every visit went as `P`
says, if a visit decides about its own element only. -/
theorem pass_forall_iff (P : α → Prop) (s : σ) (items : List α)
    (hkey : ∀ s a b, (visit s a).2 = some b → key b = key a)
    (hframe : ∀ s a b, key b ≠ key a → (ok (visit s a).1 b ↔ ok s b))
    (hown : ∀ a ∈ items, ∀ s, ok s a →
      ((∀ b, (visit s a).2 = some b → ok (visit s a).1 b) ↔ P a))
    (hnodup : (items.map key).Nodup) (hok : ∀ a ∈ items, ok s a) :
    (∀ b ∈ (pass visit s items).2, ok (pass visit s items).1 b) ↔ ∀ a ∈ items, P a := by
  induction items generalizing s with
  | nil => simp
  | cons a rest ih =>
      rw [List.map_cons, List.nodup_cons] at hnodup
      have hrest : ∀ b ∈ rest, ok (visit s a).1 b := by
        intro b hb
        refine (hframe s a b ?_).mpr (hok b (by simp [hb]))
        rintro heq
        exact hnodup.1 (List.mem_map.mpr ⟨b, hb, heq⟩)
      have hlater := ih (visit s a).1 (fun b hb => hown b (by simp [hb])) hnodup.2 hrest
      have hfirst : (∀ b, (visit s a).2 = some b → ok (pass visit (visit s a).1 rest).1 b) ↔
          P a := by
        rw [← hown a (by simp) s (hok a (by simp))]
        refine forall_congr' fun b => imp_congr_right fun hb => ?_
        exact pass_frame key ok hframe _ rest b (hkey s a b hb ▸ hnodup.1)
      simp only [pass, List.mem_append, Option.mem_toList, or_imp, forall_and,
        List.forall_mem_cons, hlater, hfirst]

end Keyed

/-- A pass whose visits decide by the element alone what is dropped keeps the others in order. -/
theorem pass_filter {removes : α → Bool} {after : α → α} {next : σ → α → σ}
    (h : ∀ s a, visit s a = (next s a, if removes a = true then none else some (after a)))
    (s : σ) (items : List α) :
    pass visit s items =
      (items.foldl next s, (items.filter fun a => !removes a).map after) := by
  induction items generalizing s with
  | nil => rfl
  | cons a rest ih =>
      cases hremoves : removes a with
      | true => simp [pass, h, hremoves, ih]
      | false => simp [pass, h, hremoves, ih]

/-- Two lists that grow together. -/
theorem foldl_append_pair {α β γ : Type*} (f : α → List β) (g : α → List γ)
    (s : List β × List γ) (items : List α) :
    items.foldl (fun s a => (s.1 ++ f a, s.2 ++ g a)) s =
      (s.1 ++ items.flatMap f, s.2 ++ items.flatMap g) := by
  induction items generalizing s with
  | nil => simp
  | cons a rest ih => simp [ih]

/-- A pass whose visits never drop an element and never change one. -/
theorem pass_read (hread : ∀ s a, (visit s a).2 = some a) (s : σ) (items : List α) :
    pass visit s items = (items.foldl (fun s a => (visit s a).1) s, items) := by
  induction items generalizing s with
  | nil => rfl
  | cons a rest ih => simp [pass, hread, ih]

end IndexedPass
