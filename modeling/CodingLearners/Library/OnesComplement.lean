import Mathlib.Algebra.Order.BigOperators.Group.List
import Mathlib.Algebra.Order.Ring.Nat

/-!
# One's complement sums

Words from zero to the greatest word `m` are added with the carry brought around
to the low end. A sum of words is their common sum, cut down by multiples of `m`.
-/

namespace OnesComplement

/-- The sum of two words with the carry around the end. -/
def add (m a b : Nat) : Nat := if a + b ≤ m then a + b else a + b - m

/-- The word of a common sum; it is zero only if the sum is. -/
def reduce (m total : Nat) : Nat := if total = 0 then 0 else (total - 1) % m + 1

def sum (m : Nat) (words : List Nat) : Nat := words.foldl (add m) 0

def complement (m a : Nat) : Nat := m - a

variable {m : Nat}

theorem reduce_of_le {word : Nat} (h : word ≤ m) : reduce m word = word := by
  rw [reduce]
  split
  · next hzero => exact hzero.symm
  · next hpos =>
    rw [Nat.mod_eq_of_lt (by omega)]
    omega

theorem reduce_le (hm : 0 < m) (total : Nat) : reduce m total ≤ m := by
  rw [reduce]
  split
  · exact Nat.zero_le m
  · exact Nat.mod_lt _ hm

/-- A total above zero is a word above zero and a multiple of the greatest word. -/
theorem exists_reduce {total : Nat} (hpos : total ≠ 0) :
    ∃ carries, total = m * carries + reduce m total := by
  refine ⟨(total - 1) / m, ?_⟩
  have hdiv := Nat.div_add_mod (total - 1) m
  rw [reduce, if_neg hpos]
  omega

theorem reduce_mul_add {word : Nat} (carries : Nat) (hpos : 0 < word) (hle : word ≤ m) :
    reduce m (m * carries + word) = word := by
  have hmod : (m * carries + word - 1) % m = word - 1 := by
    rw [Nat.add_sub_assoc hpos, Nat.mul_add_mod, Nat.mod_eq_of_lt (by omega)]
  rw [reduce, if_neg (by omega), hmod]
  omega

/-- One more word. -/
theorem add_reduce (hm : 0 < m) {word : Nat} (hword : word ≤ m) (total : Nat) :
    add m (reduce m total) word = reduce m (total + word) := by
  by_cases hzero : total = 0
  · rw [hzero, Nat.zero_add, reduce_of_le hword, reduce_of_le (Nat.zero_le m), add,
      Nat.zero_add, if_pos hword]
  · obtain ⟨carries, htotal⟩ := exists_reduce (m := m) hzero
    have hpos : 0 < reduce m total := by
      rw [reduce, if_neg hzero]
      exact Nat.succ_pos _
    have hle := reduce_le hm total
    rw [add]
    split
    · next hsmall =>
      have hsum : total + word = m * carries + (reduce m total + word) := by omega
      rw [hsum, reduce_mul_add carries (by omega) hsmall]
    · next hbig =>
      have hsum : total + word = m * (carries + 1) + (reduce m total + word - m) := by
        rw [Nat.mul_succ]
        omega
      rw [hsum, reduce_mul_add (carries + 1) (by omega) (by omega)]

theorem sum_eq_reduce (hm : 0 < m) {words : List Nat} (h : ∀ word ∈ words, word ≤ m) :
    sum m words = reduce m words.sum := by
  have hfold : ∀ total, words.foldl (add m) (reduce m total) = reduce m (total + words.sum) := by
    induction words with
    | nil => simp
    | cons word words ih =>
        intro total
        have hrest := ih fun w hw => h w (List.mem_cons_of_mem word hw)
        rw [List.foldl_cons, add_reduce hm (h word List.mem_cons_self), hrest, List.sum_cons,
          Nat.add_assoc]
  calc sum m words
      = words.foldl (add m) (reduce m 0) := rfl
    _ = reduce m words.sum := by rw [hfold, Nat.zero_add]

/-- With the complement of the sum as one more word the sum is the greatest word. -/
theorem reduce_add_complement (hm : 0 < m) (total : Nat) :
    reduce m (total + complement m (reduce m total)) = m := by
  by_cases hzero : total = 0
  · rw [hzero, reduce_of_le (Nat.zero_le m), complement, Nat.sub_zero, Nat.zero_add,
      reduce_of_le (Nat.le_refl m)]
  · obtain ⟨carries, htotal⟩ := exists_reduce (m := m) hzero
    have hle := reduce_le hm total
    have hsum : total + complement m (reduce m total) = m * carries + m := by
      rw [complement]
      omega
    rw [hsum, reduce_mul_add carries hm (Nat.le_refl m)]

/-- The complement of the sum that has the complement in it is zero. -/
theorem complement_reduce_add_complement (hm : 0 < m) (total : Nat) :
    complement m (reduce m (total + complement m (reduce m total))) = 0 := by
  rw [reduce_add_complement hm, complement, Nat.sub_self]

end OnesComplement
