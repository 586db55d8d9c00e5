import Mathlib.Data.List.Nodup
import Mathlib.Data.List.Perm.Subperm
import Mathlib.Data.Nat.Factorial.Basic
import Mathlib.Data.Int.CardIntervalMod

/-!
# Drawing without replacement by one number

Each draw takes the remainder by the length of what is left as its position and
goes on with the quotient. The arrangements of a given length are numbered by the
remainders modulo their count.
-/

namespace Draws

variable {α : Type*}

/-- `n` draws from `pool`, with the number `x`. -/
def draw : Nat → Nat → List α → List α
  | 0, _, _ => []
  | n + 1, x, pool =>
      let i := x % pool.length
      pool[i]?.toList ++ draw n (x / pool.length) (pool.eraseIdx i)

variable {n x : Nat} {pool : List α}

theorem draw_succ (h : x % pool.length < pool.length) :
    draw (n + 1) x pool =
      pool[x % pool.length] ::
        draw n (x / pool.length) (pool.eraseIdx (x % pool.length)) := by
  rw [draw]
  simp [List.getElem?_eq_getElem h]

theorem length_draw (h : n ≤ pool.length) (x : Nat) : (draw n x pool).length = n := by
  induction n generalizing x pool with
  | zero => rfl
  | succ n ih =>
      have hlt := Nat.mod_lt x (show 0 < pool.length by omega)
      rw [draw_succ hlt, List.length_cons, ih]
      rw [List.length_eraseIdx_of_lt hlt]
      omega

/-- What is drawn stood in the pool, and is drawn once. -/
theorem draw_subperm (n x : Nat) (pool : List α) : (draw n x pool).Subperm pool := by
  induction n generalizing x pool with
  | zero => exact List.nil_subperm
  | succ n ih =>
      by_cases hlt : x % pool.length < pool.length
      · rw [draw_succ hlt]
        exact ((List.subperm_cons _).mpr (ih _ _)).trans
          (List.getElem_cons_eraseIdx_perm hlt).subperm
      · rw [draw, List.getElem?_eq_none (Nat.le_of_not_lt hlt)]
        exact (ih _ _).trans (List.eraseIdx_sublist _ _).subperm

theorem nodup_draw (h : pool.Nodup) (n x : Nat) : (draw n x pool).Nodup := by
  obtain ⟨l, hperm, hsub⟩ := draw_subperm n x pool
  exact hperm.nodup_iff.mp (h.sublist hsub)

theorem add_mul_inj {m a a' b b' : Nat} (ha : a < m) (ha' : a' < m) :
    a + m * b = a' + m * b' ↔ a = a' ∧ b = b' := by
  constructor
  · intro h
    have hmod := congrArg (· % m) h
    have hdiv := congrArg (· / m) h
    simpa [Nat.mod_eq_of_lt ha, Nat.mod_eq_of_lt ha', Nat.div_eq_of_lt ha, Nat.div_eq_of_lt ha',
      Nat.add_mul_div_left _ _ (Nat.zero_lt_of_lt ha)] using And.intro hmod hdiv
  · rintro ⟨rfl, rfl⟩
    rfl

/-- The same is drawn exactly by the numbers with the same remainder modulo the count
of arrangements. -/
theorem draw_eq_iff (hnodup : pool.Nodup) (hn : n ≤ pool.length) (x y : Nat) :
    draw n x pool = draw n y pool ↔ x ≡ y [MOD pool.length.descFactorial n] := by
  induction n generalizing x y pool with
  | zero => simp [draw, Nat.ModEq, Nat.mod_one]
  | succ n ih =>
      have hpos : 0 < pool.length := by omega
      obtain ⟨k, hk⟩ : ∃ k, pool.length = k + 1 := ⟨pool.length - 1, by omega⟩
      have hx := Nat.mod_lt x hpos
      have hy := Nat.mod_lt y hpos
      rw [draw_succ hx, draw_succ hy, List.cons.injEq, hnodup.getElem_inj_iff]
      have hmod : x ≡ y [MOD pool.length.descFactorial (n + 1)] ↔
          x % pool.length = y % pool.length ∧
            x / pool.length ≡ y / pool.length [MOD k.descFactorial n] := by
        rw [hk] at hx hy ⊢
        rw [Nat.ModEq, Nat.succ_descFactorial_succ, Nat.mod_mul, Nat.mod_mul, add_mul_inj hx hy]
        rfl
      rw [hmod]
      refine and_congr_right fun hsame => ?_
      have hlen : (pool.eraseIdx (x % pool.length)).length = k := by
        rw [List.length_eraseIdx_of_lt hx]
        omega
      rw [← hsame, ih (hnodup.eraseIdx _) (by omega), hlen]

/-- Every arrangement is drawn. -/
theorem exists_draw (hnodup : pool.Nodup) {w : List α} (hw : w.Nodup) (hsub : w ⊆ pool) :
    ∃ x < pool.length.descFactorial w.length, draw w.length x pool = w := by
  induction w generalizing pool with
  | nil => exact ⟨0, by simp, rfl⟩
  | cons a w ih =>
      rw [List.nodup_cons] at hw
      rw [List.cons_subset] at hsub
      obtain ⟨i, hi, rfl⟩ := List.getElem_of_mem hsub.1
      obtain ⟨k, hk⟩ : ∃ k, pool.length = k + 1 := ⟨pool.length - 1, by omega⟩
      have hrest : w ⊆ pool.eraseIdx i := by
        intro b hb
        obtain ⟨j, hj, rfl⟩ := List.getElem_of_mem (hsub.2 hb)
        refine List.mem_eraseIdx_iff_getElem.mpr ⟨j, hj, ?_, rfl⟩
        rintro rfl
        exact hw.1 hb
      have hlen : (pool.eraseIdx i).length = k := by
        rw [List.length_eraseIdx_of_lt hi]
        omega
      obtain ⟨q, hq, hdraw⟩ := ih (hnodup.eraseIdx i) hw.2 hrest
      rw [hlen] at hq
      have hmod : (i + pool.length * q) % pool.length = i := by
        rw [Nat.add_mul_mod_self_left, Nat.mod_eq_of_lt hi]
      have hdiv : (i + pool.length * q) / pool.length = q := by
        rw [Nat.add_mul_div_left _ _ (Nat.zero_lt_of_lt hi), Nat.div_eq_of_lt hi, Nat.zero_add]
      refine ⟨i + pool.length * q, ?_, ?_⟩
      · rw [List.length_cons, hk, Nat.succ_descFactorial_succ]
        calc i + (k + 1) * q < (k + 1) * (q + 1) := by
              rw [Nat.mul_succ]
              omega
          _ ≤ (k + 1) * k.descFactorial w.length := Nat.mul_le_mul_left _ hq
      · rw [List.length_cons, draw_succ (by rw [hmod]; exact hi)]
        simp only [hmod, hdiv, hdraw]

/-- Each arrangement is drawn by as many numbers below `bound` as fit, or one more. -/
theorem count_draw [DecidableEq α] (hnodup : pool.Nodup) {w : List α} (hw : w.Nodup)
    (hsub : w ⊆ pool) (bound : Nat) :
    bound.count (fun x => draw w.length x pool = w) =
        bound / pool.length.descFactorial w.length ∨
      bound.count (fun x => draw w.length x pool = w) =
        bound / pool.length.descFactorial w.length + 1 := by
  obtain ⟨x, hx, hdraw⟩ := exists_draw hnodup hw hsub
  have hlen : w.length ≤ pool.length := (hw.subperm hsub).length_le
  have hpos : 0 < pool.length.descFactorial w.length := Nat.zero_lt_of_lt hx
  have hsame : ∀ y, draw w.length y pool = w ↔ y ≡ x [MOD pool.length.descFactorial w.length] := by
    intro y
    rw [← draw_eq_iff hnodup hlen y x, hdraw]
  simp only [hsame]
  rw [Nat.count_modEq_card _ hpos]
  split
  · exact .inr rfl
  · exact .inl rfl

end Draws
