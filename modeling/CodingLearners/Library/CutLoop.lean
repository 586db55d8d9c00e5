import Mathlib.Data.List.Basic

/-!
# Cutting a list into blocks

A loop that takes `size` elements off the front, and tests after the cut
whether there was more before it, visits the blocks of the list: all full but
the last one, and never an empty one after the first.
-/

namespace CutLoop

variable {α σ : Type*} {size : Nat}

/-- `do { leng = s.length; body(s.slice(0, size)); s = s.slice(size); } while (leng > size)`
on a result that `body` extends or gives up; `fuel` bounds the turns after the first. -/
def cutLoop (size : Nat) (body : σ → List α → Option σ) (fuel : Nat) (s : List α) (acc : σ) :
    Option σ :=
  match body acc (s.take size) with
  | none => none
  | some acc' =>
      if s.length > size then
        match fuel with
        | 0 => none
        | fuel + 1 => cutLoop size body fuel (s.drop size) acc'
      else some acc'

/-- The blocks that the loop visits. -/
def blocksUpTo (size : Nat) : Nat → List α → List (List α)
  | 0, s => [s]
  | fuel + 1, s =>
      if s.length > size then s.take size :: blocksUpTo size fuel (s.drop size) else [s]

def blocks (size : Nat) (s : List α) : List (List α) := blocksUpTo size s.length s

theorem blocksUpTo_eq (hsize : 0 < size) {fuel : Nat} {s : List α} (h : s.length ≤ fuel) :
    blocksUpTo size fuel s = blocks size s := by
  suffices ∀ fuel' (s : List α), s.length ≤ fuel → s.length ≤ fuel' →
      blocksUpTo size fuel s = blocksUpTo size fuel' s from this s.length s h (Nat.le_refl _)
  clear h
  induction fuel with
  | zero =>
      intro fuel' s h _
      cases fuel' with
      | zero => rfl
      | succ fuel' => simp [blocksUpTo, show ¬ size < s.length by omega]
  | succ fuel ih =>
      intro fuel' s h h'
      cases fuel' with
      | zero => simp [blocksUpTo, show ¬ size < s.length by omega]
      | succ fuel' =>
          simp only [blocksUpTo]
          split
          · rw [ih fuel' (s.drop size) (by rw [List.length_drop]; omega)
              (by rw [List.length_drop]; omega)]
          · rfl

theorem blocks_of_lt (hsize : 0 < size) {s : List α} (h : size < s.length) :
    blocks size s = s.take size :: blocks size (s.drop size) := by
  rw [blocks, ← Nat.sub_add_cancel (Nat.zero_lt_of_lt h), blocksUpTo, if_pos h,
    blocksUpTo_eq hsize (by rw [List.length_drop]; omega)]

theorem blocks_of_le {s : List α} (h : s.length ≤ size) : blocks size s = [s] := by
  cases s with
  | nil => rfl
  | cons a rest =>
      simp only [List.length_cons] at h
      simp [blocks, blocksUpTo, show ¬ size < rest.length + 1 by omega]

/-- The block rule: a property of the blocks of every list, by the cuts. -/
theorem blocks_induction (hsize : 0 < size) {motive : List α → List (List α) → Prop}
    (last : ∀ s, s.length ≤ size → motive s [s])
    (cut : ∀ s, size < s.length → motive (s.drop size) (blocks size (s.drop size)) →
      motive s (s.take size :: blocks size (s.drop size))) (s : List α) :
    motive s (blocks size s) := by
  induction hn : s.length using Nat.strongRecOn generalizing s with
  | ind n ih =>
      by_cases h : size < s.length
      · rw [blocks_of_lt hsize h]
        exact cut s h (ih _ (by rw [List.length_drop]; omega) _ rfl)
      · rw [blocks_of_le (by omega)]
        exact last s (by omega)

theorem blocks_flatten (hsize : 0 < size) (s : List α) : (blocks size s).flatten = s :=
  blocks_induction (motive := fun s bs => bs.flatten = s) hsize
    (fun s _ => by simp) (fun s _ ih => by rw [List.flatten_cons, ih, List.take_append_drop]) s

theorem length_le_of_mem_blocks (hsize : 0 < size) (s : List α) :
    ∀ block ∈ blocks size s, block.length ≤ size :=
  blocks_induction (motive := fun _ bs => ∀ block ∈ bs, block.length ≤ size) hsize
    (fun s h => by simpa using h)
    (fun s _ ih => by simpa only [List.forall_mem_cons] using
      ⟨by rw [List.length_take]; omega, ih⟩) s

/-- Full blocks, put together, are cut into the same blocks. -/
theorem blocks_flatten_full (hsize : 0 < size) {bs : List (List α)} (hne : bs ≠ [])
    (h : ∀ block ∈ bs, block.length = size) : blocks size bs.flatten = bs := by
  induction bs with
  | nil => contradiction
  | cons block rest ih =>
      rw [List.forall_mem_cons] at h
      cases rest with
      | nil =>
          rw [List.flatten_cons, List.flatten_nil, List.append_nil]
          exact blocks_of_le (Nat.le_of_eq h.1)
      | cons next rest =>
          have hnext := h.2 next (by simp)
          have hlong : size < (block :: next :: rest).flatten.length := by
            simp only [List.flatten_cons, List.length_append]
            omega
          have htail := ih (by simp) h.2
          rw [blocks_of_lt hsize hlong, List.flatten_cons, List.take_left' h.1,
            List.drop_left' h.1, htail]

/-- The loop folds its body over the blocks. -/
theorem cutLoop_eq_foldlM (hsize : 0 < size) (body : σ → List α → Option σ) {fuel : Nat}
    {s : List α} (h : s.length ≤ fuel) (acc : σ) :
    cutLoop size body fuel s acc = (blocks size s).foldlM body acc := by
  induction fuel generalizing s acc with
  | zero =>
      obtain rfl := List.length_eq_zero_iff.mp (Nat.le_zero.mp h)
      rw [cutLoop, blocks_of_le (by simp)]
      cases hbody : body acc [] <;> simp [hbody]
  | succ fuel ih =>
      rw [cutLoop]
      by_cases hlt : size < s.length
      · rw [blocks_of_lt hsize hlt, List.foldlM_cons]
        cases hbody : body acc (s.take size) with
        | none => rfl
        | some acc' =>
            simp only [hlt, if_true]
            rw [ih (by rw [List.length_drop]; omega)]
            rfl
      · rw [blocks_of_le (by omega), List.take_of_length_le (by omega)]
        cases hbody : body acc s <;> simp [hbody, hlt]

/-- A body that appends what a block is mapped to. -/
theorem foldlM_append (f : List α → Option (List α)) (bs : List (List α)) (acc : List α) :
    bs.foldlM (fun out block => (f block).map (out ++ ·)) acc =
      (bs.mapM f).map fun parts => acc ++ parts.flatten := by
  induction bs generalizing acc with
  | nil => simp
  | cons block rest ih =>
      cases hblock : f block with
      | none => simp [List.mapM_cons, hblock]
      | some part =>
          cases hrest : rest.mapM f with
          | none => simp [List.mapM_cons, hblock, ih, hrest]
          | some parts => simp [List.mapM_cons, hblock, ih, hrest]

end CutLoop
