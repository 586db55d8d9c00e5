import Mathlib.Data.List.Basic

/-!
# Checks and later acts

A collection grows by entries of a log, the latest entry first. A check that
finds nothing is an entry of the log as well. Whether there is something to be
found when the act follows is told by the entries since the check.
-/

namespace CheckThenAct

variable {ε α : Type*} [DecidableEq ε]

/-- The entries that are later than a mark. -/
def since (mark : ε) (log : List ε) : List ε := log.takeWhile fun e => decide (e ≠ mark)

@[simp] theorem since_mark (mark : ε) (log : List ε) : since mark (mark :: log) = [] := by
  simp [since]

theorem since_cons {mark e : ε} (h : e ≠ mark) (log : List ε) :
    since mark (e :: log) = e :: since mark log := by
  simp [since, h]

variable (added : ε → Option α)

/-- Something with the property is in the collection exactly if it was added
since the mark. -/
def Tracks (mark : ε) (log : List ε) (items : List α) (P : α → Prop) : Prop :=
  (∃ a ∈ items, P a) ↔ ∃ e ∈ since mark log, ∃ a ∈ added e, P a

variable {added} {mark : ε} {log : List ε} {items : List α} {P : α → Prop}

/-- A check that finds nothing starts to track. -/
theorem tracks_mark (h : ¬ ∃ a ∈ items, P a) : Tracks added mark (mark :: log) items P := by
  rw [Tracks, since_mark]
  exact iff_of_false h (by simp)

/-- A later entry, with what it adds, keeps the track. -/
theorem Tracks.cons (h : Tracks added mark log items P) {e : ε} (hne : e ≠ mark) :
    Tracks added mark (e :: log) (items ++ (added e).toList) P := by
  unfold Tracks at h ⊢
  have hitems : (∃ b ∈ items ++ (added e).toList, P b) ↔
      (∃ b ∈ items, P b) ∨ ∃ a ∈ added e, P a := by
    simp [or_and_right, exists_or]
  rw [hitems, h, since_cons hne]
  simp [or_comm]

end CheckThenAct
