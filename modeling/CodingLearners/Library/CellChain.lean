import Mathlib.Data.List.Nodup
import Mathlib.Logic.Function.Basic

/-!
# Chains of cells in a memory

A memory maps addresses to the cells that are allocated; a cell holds a value
and the address of the next cell. A segment is what following the next fields
from one pointer to another passes through, with the addresses in order. The
rules say what storing, linking and unlinking a cell do to a chain.
-/

namespace CellChain

variable {A V : Type*}

/-- One cell: its value and its link; `none` is the null pointer. -/
structure Cell (A V : Type*) where
  value : V
  next : Option A
  deriving DecidableEq

/-- The allocated cells. -/
abbrev Memory (A V : Type*) := A → Option (Cell A V)

/-- From `p`, the links lead through exactly `cells` and end at `q`. -/
def Segment (mem : Memory A V) : Option A → List (A × V) → Option A → Prop
  | p, [], q => p = q
  | p, cell :: rest, q =>
      p = some cell.1 ∧ ∃ n, mem cell.1 = some ⟨cell.2, n⟩ ∧ Segment mem n rest q

/-- The addresses that a list of cells occupies. -/
def addresses (cells : List (A × V)) : List A := cells.map Prod.fst

/-- A chain ends with a null link and passes through each address once. -/
structure IsChain (mem : Memory A V) (p : Option A) (cells : List (A × V)) : Prop where
  segment : Segment mem p cells none
  nodup : (addresses cells).Nodup

@[simp] theorem addresses_append (xs ys : List (A × V)) :
    addresses (xs ++ ys) = addresses xs ++ addresses ys := List.map_append

@[simp] theorem addresses_cons (cell : A × V) (rest : List (A × V)) :
    addresses (cell :: rest) = cell.1 :: addresses rest := rfl

variable {mem : Memory A V} {p q : Option A} {a b : A} {v w : V}

@[simp] theorem segment_nil : Segment mem p [] q ↔ p = q := Iff.rfl

theorem segment_cons {rest : List (A × V)} : Segment mem p ((a, v) :: rest) q ↔
    p = some a ∧ ∃ n, mem a = some ⟨v, n⟩ ∧ Segment mem n rest q := Iff.rfl

/-- A segment can be cut between any two of its cells. -/
theorem segment_append {xs ys : List (A × V)} :
    Segment mem p (xs ++ ys) q ↔ ∃ m, Segment mem p xs m ∧ Segment mem m ys q := by
  induction xs generalizing p with
  | nil => simp
  | cons cell xs ih =>
      obtain ⟨a, v⟩ := cell
      simp only [List.cons_append, segment_cons, ih]
      constructor
      · rintro ⟨hp, n, hn, m, hxs, hys⟩
        exact ⟨m, ⟨hp, n, hn, hxs⟩, hys⟩
      · rintro ⟨m, ⟨hp, n, hn, hxs⟩, hys⟩
        exact ⟨hp, n, hn, m, hxs, hys⟩

/-- The pointer at the start of a segment that ends in null is its first address. -/
theorem Segment.start {cells : List (A × V)} (h : Segment mem p cells none) :
    p = (addresses cells).head? := by
  cases cells with
  | nil => exact h
  | cons cell rest => exact h.1

/-- The cell in the middle of a segment, its link and what follows it. -/
theorem Segment.lookup {xs ys : List (A × V)} (h : Segment mem p (xs ++ (a, v) :: ys) q) :
    Segment mem p xs (some a) ∧ ∃ n, mem a = some ⟨v, n⟩ ∧ Segment mem n ys q := by
  obtain ⟨m, hxs, hrest⟩ := segment_append.mp h
  obtain ⟨rfl, hys⟩ := segment_cons.mp hrest
  exact ⟨hxs, hys⟩

/-- The address of a chain's cell is allocated, so a free address is not in it. -/
theorem Segment.not_mem_of_free {cells : List (A × V)} (h : Segment mem p cells q)
    (hfree : mem b = none) : b ∉ addresses cells := by
  intro hb
  obtain ⟨⟨a, v⟩, hmem, rfl⟩ := List.mem_map.mp hb
  obtain ⟨xs, ys, rfl⟩ := List.append_of_mem hmem
  obtain ⟨_, n, hcell, _⟩ := h.lookup
  exact absurd (hcell.symm.trans hfree) (by simp)

/-- The links determine what they lead through. -/
theorem Segment.unique {xs ys : List (A × V)} (hxs : Segment mem p xs none)
    (hys : Segment mem p ys none) : xs = ys := by
  induction xs generalizing p ys with
  | nil =>
      obtain rfl : p = none := hxs
      cases ys with
      | nil => rfl
      | cons cell ys => cases hys.1
  | cons cell xs ih =>
      obtain ⟨a, v⟩ := cell
      obtain ⟨rfl, n, hn, hxs⟩ := hxs
      cases ys with
      | nil => cases hys
      | cons cell' ys =>
          obtain ⟨a', v'⟩ := cell'
          obtain ⟨heq, n', hn', hys⟩ := hys
          cases heq
          cases hn.symm.trans hn'
          rw [ih hxs hys]

section Update

variable [DecidableEq A]

/-- Frame rule: a store outside a segment leaves it as it is. -/
theorem Segment.frame {cells : List (A × V)} (h : Segment mem p cells q)
    (hout : b ∉ addresses cells) (c : Option (Cell A V)) :
    Segment (Function.update mem b c) p cells q := by
  induction cells generalizing p with
  | nil => exact h
  | cons cell rest ih =>
      obtain ⟨a, v⟩ := cell
      simp only [addresses_cons, List.mem_cons, not_or] at hout
      obtain ⟨hp, n, hn, hrest⟩ := h
      refine ⟨hp, n, ?_, ih hrest hout.2⟩
      rw [Function.update_of_ne (Ne.symm hout.1)]
      exact hn

variable {xs ys : List (A × V)} {n : Option A}

/-- Storing a value into a cell of a chain. -/
theorem IsChain.store (h : IsChain mem p (xs ++ (a, v) :: ys)) (ha : mem a = some ⟨v, n⟩) (w : V) :
    IsChain (Function.update mem a (some ⟨w, n⟩)) p (xs ++ (a, w) :: ys) := by
  have hnodup := h.nodup
  obtain ⟨hxs, n', hn', hys⟩ := h.segment.lookup
  obtain rfl : n' = n := by simpa [ha] using hn'.symm
  rw [addresses_append, addresses_cons, List.nodup_append', List.nodup_cons] at hnodup
  obtain ⟨_, ⟨hays, _⟩, hdisj⟩ := hnodup
  refine ⟨?_, by simpa using h.nodup⟩
  rw [segment_append]
  refine ⟨some a, hxs.frame (fun hmem => hdisj hmem (by simp)) _, rfl, n', by simp, ?_⟩
  exact hys.frame hays _

/-- Linking a free cell behind a cell of a chain. -/
theorem IsChain.link (h : IsChain mem p (xs ++ (a, v) :: ys)) (ha : mem a = some ⟨v, n⟩)
    (hfree : mem b = none) (w : V) :
    IsChain (Function.update (Function.update mem b (some ⟨w, n⟩)) a (some ⟨v, some b⟩)) p
      (xs ++ (a, v) :: (b, w) :: ys) := by
  have hout := h.segment.not_mem_of_free hfree
  have hnodup := h.nodup
  obtain ⟨hxs, n', hn', hys⟩ := h.segment.lookup
  obtain rfl : n' = n := by simpa [ha] using hn'.symm
  have hba : b ≠ a := fun hba => by simp [hba, ha] at hfree
  rw [addresses_append, addresses_cons, List.nodup_append', List.nodup_cons] at hnodup
  simp only [addresses_append, addresses_cons, List.mem_append, List.mem_cons, not_or] at hout
  obtain ⟨hndxs, ⟨hays, hndys⟩, hdisj⟩ := hnodup
  constructor
  · rw [segment_append]
    refine ⟨some a, ?_, rfl, some b, by simp, rfl, n', by simp [hba], ?_⟩
    · exact (hxs.frame hout.1 _).frame (fun hmem => hdisj hmem (by simp)) _
    · exact (hys.frame hout.2.2 _).frame hays _
  · simp only [addresses_append, addresses_cons, List.nodup_append', List.nodup_cons,
      List.mem_cons, not_or, List.disjoint_cons_right]
    exact ⟨hndxs, ⟨⟨Ne.symm hba, hays⟩, hout.2.2, hndys⟩,
      (List.disjoint_cons_right.mp hdisj).1, hout.1, (List.disjoint_cons_right.mp hdisj).2⟩

/-- Unlinking and freeing the cell behind a cell of a chain. -/
theorem IsChain.unlink (h : IsChain mem p (xs ++ (a, v) :: (b, w) :: ys))
    (hb : mem b = some ⟨w, n⟩) :
    IsChain (Function.update (Function.update mem a (some ⟨v, n⟩)) b none) p
      (xs ++ (a, v) :: ys) := by
  have hnodup := h.nodup
  obtain ⟨hxs, m, hm, hrest⟩ := h.segment.lookup
  obtain ⟨rfl, n', hn', hys⟩ := segment_cons.mp hrest
  obtain rfl : n' = n := by simpa [hb] using hn'.symm
  simp only [addresses_append, addresses_cons, List.nodup_append', List.nodup_cons,
    List.mem_cons, not_or, List.disjoint_cons_right] at hnodup
  obtain ⟨hndxs, ⟨⟨hab, hays⟩, hbys, hndys⟩, haxs, hbxs, hdisj⟩ := hnodup
  constructor
  · rw [segment_append]
    refine ⟨some a, ?_, rfl, n', by simp [hab], ?_⟩
    · exact (hxs.frame haxs _).frame hbxs _
    · exact (hys.frame hays _).frame hbys _
  · simp only [addresses_append, addresses_cons, List.nodup_append', List.nodup_cons,
      List.disjoint_cons_right]
    exact ⟨hndxs, ⟨hays, hndys⟩, haxs, hdisj⟩

/-- Since the memory was `base`, the chain has been allocated, and nothing else has
changed. -/
structure Owns (base mem : Memory A V) (p : Option A) (cells : List (A × V)) : Prop where
  chain : IsChain mem p cells
  outside : ∀ a, a ∉ addresses cells → mem a = base a
  fresh : ∀ a ∈ addresses cells, base a = none

section Owns

variable {base : Memory A V}

theorem Owns.store (h : Owns base mem p (xs ++ (a, v) :: ys)) (ha : mem a = some ⟨v, n⟩) (w : V) :
    Owns base (Function.update mem a (some ⟨w, n⟩)) p (xs ++ (a, w) :: ys) := by
  refine ⟨h.chain.store ha w, fun c hc => ?_, by simpa using h.fresh⟩
  have hca : c ≠ a := by
    rintro rfl
    simp at hc
  rw [Function.update_of_ne hca]
  exact h.outside c (by simpa using hc)

theorem Owns.link (h : Owns base mem p (xs ++ (a, v) :: ys)) (ha : mem a = some ⟨v, n⟩)
    (hfree : mem b = none) (w : V) :
    Owns base (Function.update (Function.update mem b (some ⟨w, n⟩)) a (some ⟨v, some b⟩)) p
      (xs ++ (a, v) :: (b, w) :: ys) := by
  have hout := h.chain.segment.not_mem_of_free hfree
  refine ⟨h.chain.link ha hfree w, fun c hc => ?_, fun c hc => ?_⟩
  · simp only [addresses_append, addresses_cons, List.mem_append, List.mem_cons, not_or] at hc
    rw [Function.update_of_ne hc.2.1, Function.update_of_ne hc.2.2.1]
    refine h.outside c ?_
    simp only [addresses_append, addresses_cons, List.mem_append, List.mem_cons, not_or]
    exact ⟨hc.1, hc.2.1, hc.2.2.2⟩
  · by_cases hcb : c = b
    · subst hcb
      rw [← h.outside c hout, hfree]
    · refine h.fresh c ?_
      simp only [addresses_append, addresses_cons, List.mem_append, List.mem_cons] at hc ⊢
      tauto

theorem Owns.unlink (h : Owns base mem p (xs ++ (a, v) :: (b, w) :: ys))
    (hb : mem b = some ⟨w, n⟩) :
    Owns base (Function.update (Function.update mem a (some ⟨v, n⟩)) b none) p
      (xs ++ (a, v) :: ys) := by
  refine ⟨h.chain.unlink hb, fun c hc => ?_, fun c hc => h.fresh c ?_⟩
  · by_cases hcb : c = b
    · subst hcb
      rw [Function.update_self, h.fresh c (by simp)]
    · simp only [addresses_append, addresses_cons, List.mem_append, List.mem_cons, not_or] at hc
      rw [Function.update_of_ne hcb, Function.update_of_ne hc.2.1]
      refine h.outside c ?_
      simp only [addresses_append, addresses_cons, List.mem_append, List.mem_cons, not_or]
      exact ⟨hc.1, hc.2.1, hcb, hc.2.2⟩
  · simp only [addresses_append, addresses_cons, List.mem_append, List.mem_cons] at hc ⊢
    tauto

/-- Freeing the first cell leaves the rest of the chain. -/
theorem Owns.release (h : Owns base mem p ((a, v) :: ys)) (ha : mem a = some ⟨v, n⟩) :
    Owns base (Function.update mem a none) n ys := by
  have hnodup := h.chain.nodup
  obtain ⟨-, n', hn', hys⟩ := h.chain.segment
  obtain rfl : n' = n := by simpa [ha] using hn'.symm
  rw [addresses_cons, List.nodup_cons] at hnodup
  refine ⟨⟨hys.frame hnodup.1 _, hnodup.2⟩, fun c hc => ?_, fun c hc => ?_⟩
  · by_cases hca : c = a
    · subst hca
      rw [Function.update_self, h.fresh c (by simp)]
    · rw [Function.update_of_ne hca]
      exact h.outside c (by simp [hca, hc])
  · exact h.fresh c (List.mem_cons_of_mem _ hc)

omit [DecidableEq A] in
/-- An empty chain has nothing allocated. -/
theorem Owns.eq_base (h : Owns base mem p []) : mem = base :=
  funext fun a => h.outside a (by simp [addresses])

end Owns

end Update

end CellChain
