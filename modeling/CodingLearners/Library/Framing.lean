import Mathlib.Data.List.Basic

/-!
# Streams of labelled items

A stream carries items of numbered frames and items of no frame. It is unbroken
if between two items of a frame there are only items of this frame.
-/

namespace Framing

variable {κ : Type*}

/-- Between two items of one frame the stream has items of this frame only. -/
def Unbroken (labels : List (Option κ)) : Prop :=
  ∀ (i j l : Nat) (k : κ), i < j → j < l → labels[i]? = some (some k) → labels[l]? = some (some k) →
    labels[j]? = some (some k)

/-- The items of the frame are all at the end of the stream, if there are any. -/
def AtEnd (k : κ) (labels : List (Option κ)) : Prop :=
  ∃ before n, labels = before ++ List.replicate n (some k) ∧ some k ∉ before

theorem unbroken_nil : Unbroken ([] : List (Option κ)) := by
  intro i j l k _ _ hi _
  simp at hi

theorem Unbroken.of_append {first second : List (Option κ)} (h : Unbroken (first ++ second)) :
    Unbroken first := by
  intro i j l k hij hjl hi hl
  have hlen : l < first.length := (List.getElem?_eq_some_iff.mp hl).1
  have hwhole : ∀ p, p ≤ l → (first ++ second)[p]? = first[p]? := by
    intro p hp
    exact List.getElem?_append_left (by omega)
  rw [← hwhole j (by omega)]
  apply h i j l k hij hjl
  · rwa [hwhole i (by omega)]
  · rwa [hwhole l (Nat.le_refl l)]

/-- Items of no frame do not come between two items of one frame at the end. -/
theorem Unbroken.append_none {labels : List (Option κ)} (h : Unbroken labels) (n : Nat) :
    Unbroken (labels ++ List.replicate n none) := by
  intro i j l k hij hjl hi hl
  have hlen : l < labels.length := by
    by_contra hge
    rw [List.getElem?_append_right (by omega), List.getElem?_replicate] at hl
    split at hl <;> simp at hl
  rw [List.getElem?_append_left (by omega)] at hi hl ⊢
  exact h i j l k hij hjl hi hl

/-- A frame of which there is nothing yet may follow. -/
theorem Unbroken.append_fresh {labels : List (Option κ)} (h : Unbroken labels) {k : κ}
    (hfresh : some k ∉ labels) (n : Nat) : Unbroken (labels ++ List.replicate n (some k)) := by
  intro i j l k' hij hjl hi hl
  by_cases hlen : l < labels.length
  · rw [List.getElem?_append_left (by omega)] at hi hl ⊢
    exact h i j l k' hij hjl hi hl
  · rw [List.getElem?_append_right (by omega), List.getElem?_replicate] at hl
    split at hl
    · next hn =>
      obtain rfl : k = k' := by simpa using hl
      have hstart : labels.length ≤ i := by
        by_contra hlt
        rw [List.getElem?_append_left (by omega)] at hi
        exact hfresh (List.mem_of_getElem? hi)
      rw [List.getElem?_append_right (by omega), List.getElem?_replicate, if_pos (by omega)]
    · cases hl

theorem atEnd_fresh {labels : List (Option κ)} {k : κ} (hfresh : some k ∉ labels) (n : Nat) :
    AtEnd k (labels ++ List.replicate n (some k)) :=
  ⟨labels, n, rfl, hfresh⟩

theorem AtEnd.append {labels : List (Option κ)} {k : κ} (h : AtEnd k labels) (n : Nat) :
    AtEnd k (labels ++ List.replicate n (some k)) := by
  obtain ⟨before, m, rfl, hbefore⟩ := h
  exact ⟨before, m + n, by rw [List.append_assoc, List.replicate_append_replicate], hbefore⟩

/-- The frame at the end of the stream may go on. -/
theorem Unbroken.append_atEnd {labels : List (Option κ)} (h : Unbroken labels) {k : κ}
    (hend : AtEnd k labels) (n : Nat) : Unbroken (labels ++ List.replicate n (some k)) := by
  obtain ⟨before, m, rfl, hbefore⟩ := hend
  rw [List.append_assoc, List.replicate_append_replicate]
  exact h.of_append.append_fresh hbefore (m + n)

end Framing
