import Mathlib.Data.List.Nodup
import Mathlib.Logic.Function.Basic

/-!
# Numbered tickets

Tickets are issued into a pool with growing serial numbers, and holders take
them out of it. Each ticket has one holder at most.
-/

namespace Tickets

variable {τ ι : Type*} (serial : τ → Nat)

/-- The tickets in the pool and those of the holders are all different, and all
have been issued. -/
structure Apart (pool : List τ) (issued : Nat) (holds : ι → Option τ) : Prop where
  distinct : (pool.map serial).Nodup
  pool_lt : ∀ t ∈ pool, serial t < issued
  held_lt : ∀ {i t}, t ∈ holds i → serial t < issued
  held_gone : ∀ {i t}, t ∈ holds i → serial t ∉ pool.map serial
  alone : ∀ {i j t u}, t ∈ holds i → u ∈ holds j → serial t = serial u → i = j

variable {serial} {pool before after : List τ} {issued : Nat} {holds holds' : ι → Option τ}

/-- Holders may drop their tickets. -/
theorem Apart.mono (h : Apart serial pool issued holds)
    (hle : ∀ i, ∀ t ∈ holds' i, t ∈ holds i) : Apart serial pool issued holds' where
  distinct := h.distinct
  pool_lt := h.pool_lt
  held_lt ht := h.held_lt (hle _ _ ht)
  held_gone ht := h.held_gone (hle _ _ ht)
  alone ht hu := h.alone (hle _ _ ht) (hle _ _ hu)

/-- Tickets may be thrown away. -/
theorem Apart.sublist (h : Apart serial pool issued holds) {pool' : List τ}
    (hsub : pool'.Sublist pool) : Apart serial pool' issued holds where
  distinct := h.distinct.sublist (hsub.map serial)
  pool_lt t ht := h.pool_lt t (hsub.subset ht)
  held_lt := h.held_lt
  held_gone ht hmem := h.held_gone ht ((hsub.map serial).subset hmem)
  alone := h.alone

/-- The next ticket is issued. -/
theorem Apart.issue (h : Apart serial pool issued holds) (ticket : τ)
    (hticket : serial ticket = issued) :
    Apart serial (pool ++ [ticket]) (issued + 1) holds where
  distinct := by
    rw [List.map_append, List.nodup_append]
    refine ⟨h.distinct, by simp, ?_⟩
    intro n hn m hm
    obtain ⟨t, ht, rfl⟩ := List.mem_map.mp hn
    have hlt := h.pool_lt t ht
    simp only [List.map_cons, List.map_nil, List.mem_singleton] at hm
    omega
  pool_lt := by
    intro t ht
    rcases List.mem_append.mp ht with ht | ht
    · have hlt := h.pool_lt t ht
      omega
    · rw [List.mem_singleton.mp ht]
      omega
  held_lt ht := Nat.lt_succ_of_lt (h.held_lt ht)
  held_gone := by
    intro i t ht hmem
    have hlt := h.held_lt ht
    rw [List.map_append, List.mem_append] at hmem
    rcases hmem with hmem | hmem
    · exact h.held_gone ht hmem
    · simp only [List.map_cons, List.map_nil, List.mem_singleton] at hmem
      omega
  alone := h.alone

variable [DecidableEq ι] {ticket : τ}

/-- A ticket is taken out of the pool. -/
theorem Apart.take (h : Apart serial (before ++ ticket :: after) issued holds) (i : ι) :
    Apart serial (before ++ after) issued (Function.update holds i (some ticket)) := by
  have hticket : ticket ∈ before ++ ticket :: after := by simp
  have hmap := h.distinct
  rw [List.map_append, List.map_cons, List.nodup_middle, ← List.map_append,
    List.nodup_cons] at hmap
  have hother : ∀ {j t}, t ∈ holds j → serial t ≠ serial ticket := by
    intro j t ht heq
    exact h.held_gone ht (heq ▸ List.mem_map_of_mem hticket)
  have hcases : ∀ {j t}, t ∈ Function.update holds i (some ticket) j →
      (j = i ∧ t = ticket) ∨ t ∈ holds j := by
    intro j t ht
    by_cases heq : j = i
    · subst heq
      rw [Function.update_self] at ht
      exact Or.inl ⟨rfl, (Option.mem_some_iff.mp ht).symm⟩
    · rw [Function.update_of_ne heq] at ht
      exact Or.inr ht
  have hsub : (before ++ after).Sublist (before ++ ticket :: after) :=
    (List.sublist_cons_self ticket after).append_left before
  have hrest := h.sublist hsub
  refine ⟨hmap.2, hrest.pool_lt, ?_, ?_, ?_⟩
  · intro j t ht
    rcases hcases ht with ⟨_, rfl⟩ | ht
    · exact h.pool_lt _ hticket
    · exact h.held_lt ht
  · intro j t ht
    rcases hcases ht with ⟨_, rfl⟩ | ht
    · exact hmap.1
    · exact hrest.held_gone ht
  · intro j k t u ht hu heq
    rcases hcases ht with ⟨hj, ht'⟩ | ht' <;> rcases hcases hu with ⟨hk, hu'⟩ | hu'
    · rw [hj, hk]
    · exact absurd heq.symm (ht' ▸ hother hu')
    · exact absurd heq (hu' ▸ hother ht')
    · exact h.alone ht' hu' heq

end Tickets
