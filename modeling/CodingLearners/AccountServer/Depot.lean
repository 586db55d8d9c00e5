import CodingLearners.AccountServer.Invitations
import CodingLearners.Library.Draws

/-!
# The depot

The codes stand in the depot in the order in which they were issued, twelve at
most. A code leaves it when a request takes it, or as one of the two oldest when
a login brings two new ones. The code itself numbers an arrangement of letters.
-/

namespace CodingLearners.AccountServer

open Js

/-! ## Codes -/

/-- The letters of `randInvite6Create`. -/
def possible : JsString := units "ADEGHNQRTYadehnty3457"

/-- Six different letters of `possible`. -/
structure IsCode (code : JsString) : Prop where
  length : code.length = 6
  nodup : code.Nodup
  letters : code ⊆ possible

theorem inviteChars_eq_draw (n ss : Nat) (letters : JsString) :
    inviteChars n ss letters = Draws.draw n ss letters := by
  induction n generalizing ss letters with
  | zero => rfl
  | succ n ih => rw [inviteChars, Draws.draw, ih]

theorem randInvite6Create_eq_draw (ss : Nat) :
    randInvite6Create ss = Draws.draw 6 ss possible := inviteChars_eq_draw 6 ss _

theorem possible_nodup : possible.Nodup := by decide

theorem isCode_randInvite6Create (ss : Nat) : IsCode (randInvite6Create ss) := by
  rw [randInvite6Create_eq_draw]
  exact ⟨Draws.length_draw (by decide) ss, Draws.nodup_draw possible_nodup 6 ss,
    (Draws.draw_subperm 6 ss possible).subset⟩

/-- Of the 2³² numbers that four random octets can be, each code comes from 109 or
from 110, and nothing but codes comes from any. -/
theorem randInvite6Create_even (code : JsString) :
    (IsCode code →
      (2 ^ 32).count (fun ss => randInvite6Create ss = code) = 109 ∨
        (2 ^ 32).count (fun ss => randInvite6Create ss = code) = 110) ∧
    (¬ IsCode code → (2 ^ 32).count (fun ss => randInvite6Create ss = code) = 0) := by
  constructor
  · intro h
    have hcount := Draws.count_draw possible_nodup h.nodup h.letters (2 ^ 32)
    have hlength : possible.length = 21 := rfl
    have harrangements : (2 ^ 32) / Nat.descFactorial 21 6 = 109 := by decide
    rw [h.length, hlength, harrangements] at hcount
    simpa only [randInvite6Create_eq_draw] using hcount
  · intro h
    rw [Nat.count_iff_forall_not]
    rintro ss - rfl
    exact h (isCode_randInvite6Create ss)

/-! ## The order of the codes -/

/-- The depot holds twelve codes at most, in the order in which they were issued;
and a code that has been issued is in the depot, or was taken by a request, or is
older than all codes of the depot. -/
structure InOrder (σ : Server) : Prop where
  size : σ.iauthdepot.length ≤ 12
  order : (σ.iauthdepot.map Invitation.serial).Pairwise (· < ·)
  issued : ∀ e ∈ σ.iauthdepot, e.serial < σ.pushed
  codes : ∀ e ∈ σ.iauthdepot, IsCode e.code
  accounted : ∀ n < σ.pushed, n ∈ σ.iauthdepot.map Invitation.serial ∨
    (∃ id, ∃ e ∈ σ.taken id, e.serial = n) ∨ ∀ e ∈ σ.iauthdepot, n < e.serial

variable {σ σ' : Server} {out : Outside} {act : Act}

/-- A code that a request has taken stays with it. -/
theorem Move.taken_le (hmove : Move out σ act σ') {id : Nat} {e : Invitation}
    (he : e ∈ σ.taken id) : e ∈ σ'.taken id := by
  refine hmove.keeps (P := fun task => e ∈ task.bind Task.taken) ?_ he
  intro task task' hnext h
  cases hnext <;> simp_all [Task.taken]

/-- Codes that leave the depot to a request. -/
theorem InOrder.take (h : InOrder σ) (hmove : Move out σ act σ')
    (hsub : σ'.iauthdepot.Sublist σ.iauthdepot) (hpushed : σ'.pushed = σ.pushed)
    (htaken : ∀ e ∈ σ.iauthdepot, e ∈ σ'.iauthdepot ∨ ∃ id, e ∈ σ'.taken id) : InOrder σ' where
  size := hsub.length_le.trans h.size
  order := h.order.sublist (hsub.map Invitation.serial)
  issued e he := hpushed ▸ h.issued e (hsub.subset he)
  codes e he := h.codes e (hsub.subset he)
  accounted n hn := by
    rcases h.accounted n (hpushed ▸ hn) with hin | ⟨id, e, he, hserial⟩ | hold
    · obtain ⟨e, he, rfl⟩ := List.mem_map.mp hin
      rcases htaken e he with hstays | ⟨id, hgone⟩
      · exact .inl (List.mem_map_of_mem hstays)
      · exact .inr (.inl ⟨id, e, hgone, rfl⟩)
    · exact .inr (.inl ⟨id, e, hmove.taken_le he, hserial⟩)
    · exact .inr (.inr fun e he => hold e (hsub.subset he))

/-- The two oldest codes go if there are more than ten. -/
theorem InOrder.shift (h : InOrder σ) :
    let depot := if σ.iauthdepot.length > 10 then σ.iauthdepot.drop 2 else σ.iauthdepot
    depot.length ≤ 10 ∧ depot.Sublist σ.iauthdepot ∧
      ∀ e ∈ σ.iauthdepot, e ∈ depot ∨ ∀ e' ∈ depot, e.serial < e'.serial := by
  have hsize := h.size
  intro depot
  have hdepot : depot = if σ.iauthdepot.length > 10 then σ.iauthdepot.drop 2
    else σ.iauthdepot := rfl
  split at hdepot
  · rw [hdepot]
    refine ⟨by rw [List.length_drop]; omega, List.drop_sublist 2 _, ?_⟩
    intro e he
    have hsplit := h.order
    rw [← List.take_append_drop 2 σ.iauthdepot] at he hsplit
    rw [List.map_append, List.pairwise_append] at hsplit
    rcases List.mem_append.mp he with he | he
    · exact .inr fun e' he' => hsplit.2.2 _ (List.mem_map_of_mem he) _ (List.mem_map_of_mem he')
    · exact .inl he
  · rw [hdepot]
    exact ⟨by omega, List.Sublist.refl _, fun e he => .inl he⟩

/-- The two codes that `pushInvites` adds. -/
def newInvites (σ : Server) (random : Random) : List Invitation :=
  [⟨σ.pushed, randInvite6Create random.ss1⟩, ⟨σ.pushed + 1, randInvite6Create random.ss2⟩]

theorem newInvites_spec {random : Random} {e : Invitation} (he : e ∈ newInvites σ random) :
    (e.serial = σ.pushed ∨ e.serial = σ.pushed + 1) ∧ IsCode e.code := by
  simp only [newInvites, List.mem_cons, List.not_mem_nil, or_false] at he
  rcases he with rfl | rfl
  · exact ⟨.inl rfl, isCode_randInvite6Create _⟩
  · exact ⟨.inr rfl, isCode_randInvite6Create _⟩

/-- What is older than the depot and has been issued is older than the next depot. -/
theorem older_append {depot : List Invitation} {random : Random} {n : Nat}
    (hold : ∀ e ∈ depot, n < e.serial) (hissued : n < σ.pushed) :
    ∀ e ∈ depot ++ newInvites σ random, n < e.serial := by
  intro e he
  rcases List.mem_append.mp he with he | he
  · exact hold e he
  · rcases (newInvites_spec he).1 with hserial | hserial
    · rwa [hserial]
    · rw [hserial]
      exact Nat.lt_succ_of_lt hissued

theorem InOrder.pushInvites (h : InOrder σ) (random : Random) :
    InOrder (pushInvites σ random) := by
  obtain ⟨hlen, hsub, hgone⟩ := h.shift
  set depot := if σ.iauthdepot.length > 10 then σ.iauthdepot.drop 2 else σ.iauthdepot with hdepot
  have hnew : (AccountServer.pushInvites σ random).iauthdepot = depot ++ newInvites σ random := rfl
  have hpushed : (AccountServer.pushInvites σ random).pushed = σ.pushed + 2 := rfl
  have hold : ∀ e ∈ depot, e.serial < σ.pushed := fun e he => h.issued e (hsub.subset he)
  constructor
  · rw [hnew, List.length_append]
    exact Nat.add_le_add_right hlen 2
  · rw [hnew, List.map_append, List.pairwise_append]
    refine ⟨h.order.sublist (hsub.map _), by simp [newInvites], ?_⟩
    intro n hn m hm
    obtain ⟨e, he, rfl⟩ := List.mem_map.mp hn
    obtain ⟨e', he', rfl⟩ := List.mem_map.mp hm
    have hlt := hold e he
    have hserial := (newInvites_spec he').1
    omega
  · intro e he
    rw [hnew, List.mem_append] at he
    rw [hpushed]
    rcases he with he | he
    · exact Nat.lt_add_right 2 (hold e he)
    · have hserial := (newInvites_spec he).1
      omega
  · intro e he
    rw [hnew, List.mem_append] at he
    rcases he with he | he
    · exact h.codes e (hsub.subset he)
    · exact (newInvites_spec he).2
  · intro n hn
    rw [hpushed] at hn
    rw [hnew]
    by_cases hissued : n < σ.pushed
    · rcases h.accounted n hissued with hin | htaken | hgone'
      · obtain ⟨e, he, rfl⟩ := List.mem_map.mp hin
        rcases hgone e he with hstays | holder
        · exact .inl (List.mem_map_of_mem (List.mem_append_left _ hstays))
        · exact .inr (.inr (older_append holder hissued))
      · exact .inr (.inl htaken)
      · exact .inr (.inr (older_append (fun e he => hgone' e (hsub.subset he)) hissued))
    · refine .inl (List.mem_map.mpr ?_)
      have hcases : n = σ.pushed ∨ n = σ.pushed + 1 := by omega
      rcases hcases with rfl | rfl
      · exact ⟨_, List.mem_append_right _ List.mem_cons_self, rfl⟩
      · exact ⟨_, List.mem_append_right _ (List.mem_cons_of_mem _ List.mem_cons_self), rfl⟩

/-- An act that leaves the depot alone. -/
theorem InOrder.keep (h : InOrder σ) (hmove : Move out σ act σ')
    (hdepot : σ'.iauthdepot = σ.iauthdepot) (hpushed : σ'.pushed = σ.pushed) : InOrder σ' :=
  h.take hmove (hdepot ▸ List.Sublist.refl _) hpushed fun _ he => .inl (hdepot ▸ he)

theorem InOrder.move (h : InOrder σ) (hmove : Move out σ act σ') : InOrder σ' := by
  have hmove' := hmove
  cases hmove with
  | @take id random query before after entry htask hdepot =>
      have hsub : (before ++ after).Sublist σ.iauthdepot := by
        rw [hdepot]
        exact (List.Sublist.refl before).append (List.sublist_cons_self entry after)
      refine h.take hmove' hsub rfl ?_
      intro e he
      rw [hdepot, List.mem_append, List.mem_cons] at he
      rcases he with he | rfl | he
      · exact .inl (List.mem_append_left _ he)
      · exact .inr ⟨id, by simp [Server.taken, Server.proceed, Task.taken]⟩
      · exact .inl (List.mem_append_right _ he)
  | @welcome id random name password rows htask =>
      have hlogin : Move out σ (.callback id random)
          (σ.proceed id (.ucenter name password .ended)) := Move.login rfl htask
      have hended := h.keep hlogin rfl rfl
      exact hended.pushInvites random
  | _ => exact h.keep hmove' rfl rfl

/-- In every interleaving of the requests, the depot is in order. -/
theorem depot_in_order (out : Outside) (rows₀ : List Row) (schedule : List Act) :
    InOrder (serverAfter out rows₀ schedule) := by
  refine Runs.run_invariant InOrder (fun σ act h => h.move (serverStep_move σ act)) ?_ schedule
  constructor
  · simp [Server.start]
  · simp [Server.start]
  · simp [Server.start]
  · simp [Server.start]
  · simp [Server.start]

end CodingLearners.AccountServer
