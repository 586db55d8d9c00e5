import Mathlib.Data.List.Basic
import Mathlib.Data.List.Count
import Mathlib.Data.List.Induction
import Mathlib.Data.List.Nodup

/-!
# Ledgers of acquired and released resources

A ledger is the chronological list of the acquisitions and releases of named
resources. It is in order when no resource is acquired while it is held and
none is released while it is not. The names may be used again after a release.
-/

namespace Ledger

variable {α : Type*} [DecidableEq α]

/-- One entry: a resource is handed out, or given back. -/
inductive Entry (α : Type*)
  | acquire (a : α)
  | release (a : α)
  deriving DecidableEq

/-- The effect of one entry on the held resources, in order of acquisition;
`none` when the entry is out of order. -/
def post : Option (List α) → Entry α → Option (List α)
  | none, _ => none
  | some held, .acquire a => if a ∈ held then none else some (held ++ [a])
  | some held, .release a => if a ∈ held then some (held.erase a) else none

/-- The resources held after the whole ledger, or `none` for a ledger in which
something is released twice or acquired while held. -/
def held (ledger : List (Entry α)) : Option (List α) := ledger.foldl post (some [])

@[simp] theorem held_nil : held ([] : List (Entry α)) = some [] := rfl

theorem held_append (first second : List (Entry α)) :
    held (first ++ second) = second.foldl post (held first) := by
  simp [held, List.foldl_append]

theorem held_acquire {ledger : List (Entry α)} {l : List α} (h : held ledger = some l)
    {a : α} (ha : a ∉ l) : held (ledger ++ [.acquire a]) = some (l ++ [a]) := by
  simp [held_append, h, post, ha]

theorem held_release {ledger : List (Entry α)} {done todo : List α} {a : α}
    (h : held ledger = some (done ++ a :: todo)) (ha : a ∉ done) :
    held (ledger ++ [.release a]) = some (done ++ todo) := by
  simp [held_append, h, post, List.erase_append_right _ ha]

theorem held_release_head {ledger : List (Entry α)} {a : α} {rest : List α}
    (h : held ledger = some (a :: rest)) : held (ledger ++ [.release a]) = some rest := by
  simp [held_append, h, post]

private theorem foldl_post_none (ledger : List (Entry α)) :
    ledger.foldl post none = none := by
  induction ledger with
  | nil => rfl
  | cons e rest ih => simpa [post] using ih

/-- Every prefix of a ledger in order is in order. -/
theorem held_of_append {first second : List (Entry α)} {l : List α}
    (h : held (first ++ second) = some l) : ∃ m, held first = some m := by
  rw [held_append] at h
  cases hf : held first with
  | none =>
      rw [hf, foldl_post_none] at h
      cases h
  | some m => exact ⟨m, rfl⟩

/-- A ledger in order holds each resource at most once. -/
theorem held_nodup {ledger : List (Entry α)} {l : List α} (h : held ledger = some l) :
    l.Nodup := by
  induction ledger using List.reverseRecOn generalizing l with
  | nil =>
      cases h
      exact List.nodup_nil
  | append_singleton ledger e ih =>
      obtain ⟨m, hm⟩ := held_of_append h
      have hnodup := ih hm
      rw [held_append, hm] at h
      cases e with
      | acquire a =>
          by_cases ha : a ∈ m
          · simp [post, ha] at h
          · have hl : m ++ [a] = l := by simpa [post, ha] using h
            rw [← hl]
            exact List.nodup_append.mpr ⟨hnodup, List.nodup_singleton a, by
              intro x hx y hy
              rintro rfl
              exact ha (List.mem_singleton.mp hy ▸ hx)⟩
      | release a =>
          by_cases ha : a ∈ m
          · have hl : m.erase a = l := by simpa [post, ha] using h
            exact hl ▸ hnodup.erase a
          · simp [post, ha] at h

/-- In a ledger in order a resource has been acquired as often as it has been
released, and once more while it is held. -/
theorem count_acquire {ledger : List (Entry α)} {l : List α} (h : held ledger = some l)
    (a : α) : ledger.count (.acquire a) = ledger.count (.release a) + l.count a := by
  induction ledger using List.reverseRecOn generalizing l with
  | nil =>
      cases h
      rfl
  | append_singleton ledger e ih =>
      obtain ⟨m, hm⟩ := held_of_append h
      have hcount := ih hm
      rw [held_append, hm] at h
      cases e with
      | acquire b =>
          by_cases hb : b ∈ m
          · simp [post, hb] at h
          · have hl : m ++ [b] = l := by simpa [post, hb] using h
            simp [List.count_append, ← hl, hcount, List.count_cons]
            omega
      | release b =>
          by_cases hb : b ∈ m
          · have hl : m.erase b = l := by simpa [post, hb] using h
            have hpos : 0 < m.count b := List.count_pos_iff.mpr hb
            by_cases hab : b = a
            · subst hab
              simp [List.count_append, ← hl, hcount, List.count_erase_self]
              omega
            · simp [List.count_append, ← hl, hcount, List.count_erase_of_ne (Ne.symm hab), hab]
          · simp [post, hb] at h

/-- A ledger that ends with nothing held has released every resource exactly as
often as it was acquired. -/
theorem count_release_of_settled {ledger : List (Entry α)} (h : held ledger = some [])
    (a : α) : ledger.count (.release a) = ledger.count (.acquire a) := by
  simpa using (count_acquire h a).symm

end Ledger
