import CodingLearners.AccountServer.Routes
import CodingLearners.Library.Tickets

/-!
# The invitation codes

A code leaves the depot before the name is looked up. If the name is found, the
request is refused and its code is gone. That is the only way in which a
refused request can be noticed in the depot, and no code lets two requests
through.
-/

namespace CodingLearners.AccountServer

open Js

/-! ## One request for each code -/

/-- The code that a request has taken. -/
def Task.taken : Task → Option Invitation
  | .accountnewa _ (.selectName taken) => taken
  | .accountnewa _ (.selectedName _ taken) => taken
  | .accountnewa _ (.insert _ taken) => taken
  | .accountnewa _ (.inserted taken) => taken
  | .accountnewa _ (.refused taken) => taken
  | _ => none

/-- The code that the request of a number has taken. -/
def Server.taken (σ : Server) (id : Nat) : Option Invitation := (σ.tasks id).bind Task.taken

/-- Every code is in the depot once or has been taken by one request. -/
def CodesApart (σ : Server) : Prop :=
  Tickets.Apart Invitation.serial σ.iauthdepot σ.pushed σ.taken

/-- A row was inserted for a request that has ended with the insertion. -/
def InsertionsEnded (σ : Server) : Prop :=
  ∀ id row taken, .insert id row taken ∈ σ.executed →
    ∃ query, σ.tasks id = some (.accountnewa query (.inserted taken))

variable {σ σ' : Server} {out : Outside} {id : Nat} {task : Task} {act : Act}

theorem taken_proceed (σ : Server) (id : Nat) (task : Task) :
    (σ.proceed id task).taken = Function.update σ.taken id task.taken := by
  funext id'
  by_cases heq : id' = id
  · subst heq
    simp [Server.taken, Server.proceed]
  · simp [Server.taken, Server.proceed, heq]

/-- A request that proceeds with nothing new leaves the codes apart. -/
theorem CodesApart.proceed (h : CodesApart σ) (hle : ∀ e ∈ task.taken, e ∈ σ.taken id) :
    CodesApart (σ.proceed id task) := by
  have hmono : ∀ id', ∀ e ∈ Function.update σ.taken id task.taken id', e ∈ σ.taken id' := by
    intro id' e he
    by_cases heq : id' = id
    · subst heq
      rw [Function.update_self] at he
      exact hle e he
    · rwa [Function.update_of_ne heq] at he
  rw [CodesApart, taken_proceed]
  exact Tickets.Apart.mono h hmono

/-- The shifts and pushes of a login leave the codes apart. -/
theorem CodesApart.pushInvites (h : CodesApart σ) (random : Random) :
    CodesApart (pushInvites σ random) := by
  have hold : Tickets.Apart Invitation.serial
      (if σ.iauthdepot.length > 10 then σ.iauthdepot.drop 2 else σ.iauthdepot)
      σ.pushed σ.taken := by
    split
    · exact Tickets.Apart.sublist h (List.drop_sublist 2 σ.iauthdepot)
    · exact h
  have hfirst := hold.issue ⟨σ.pushed, randInvite6Create random.ss1⟩ rfl
  have hsecond := hfirst.issue ⟨σ.pushed + 1, randInvite6Create random.ss2⟩ rfl
  rw [List.append_assoc] at hsecond
  exact hsecond

/-- The codes stay apart. -/
theorem CodesApart.move (h : CodesApart σ) (hmove : Move out σ act σ') : CodesApart σ' := by
  cases hmove with
  | stay => exact h
  | arrive hact hnew harrived => exact h.proceed (by cases harrived <;> simp [Task.taken])
  | create htask => exact h.proceed (by simp [Task.taken])
  | selectAll htask => exact h.proceed (by simp [Task.taken])
  | selectName htask => exact h.proceed (by simp [Server.taken, htask, Task.taken])
  | insert hrunning htask => exact h.proceed (by simp [Server.taken, htask, Task.taken])
  | checkfuser htask => exact h.proceed (by simp [Task.taken])
  | firstAccount htask => exact h.proceed (by simp [Task.taken])
  | @take id random query before after entry htask hdepot =>
      rw [CodesApart, hdepot] at h
      have htake := h.take id
      rwa [← show Task.taken (.accountnewa query (.selectName (some entry))) = some entry from rfl,
        ← taken_proceed] at htake
  | refuseCode htask => exact h.proceed (by simp [Task.taken])
  | refuseName hrunning htask => exact h.proceed (by simp [Server.taken, htask, Task.taken])
  | accept htask => exact h.proceed (by simp [Server.taken, htask, Task.taken])
  | login hact htask => exact h.proceed (by simp [Task.taken])
  | @welcome id random name password rows htask =>
      have hended : CodesApart (σ.proceed id (.ucenter name password .ended)) :=
        h.proceed (by simp [Task.taken])
      exact hended.pushInvites random
  | crash htask => exact h

/-- The requests with a row stay ended. -/
theorem InsertionsEnded.move (h : InsertionsEnded σ) (hmove : Move out σ act σ') :
    InsertionsEnded σ' := by
  have hkeep : ∀ id row taken, .insert id row taken ∈ σ.executed →
      ∃ query, σ'.tasks id = some (.accountnewa query (.inserted taken)) := by
    intro id row taken hmem
    refine hmove.keeps (P := fun task => ∃ query,
      task = some (.accountnewa query (.inserted taken))) ?_ (h id row taken hmem)
    rintro task task' hnext ⟨query, rfl⟩
    nomatch hnext
  cases hmove with
  | @insert id query row taken hrunning htask =>
      intro id' row' taken' hmem
      rcases List.mem_cons.mp hmem with heq | hmem
      · injection heq with hid hrow htaken
        subst hid htaken
        exact ⟨query, Function.update_self _ _ _⟩
      · exact hkeep id' row' taken' hmem
  | selectAll htask =>
      intro id row taken hmem
      exact hkeep id row taken (by simpa using hmem)
  | selectName htask =>
      intro id row taken hmem
      exact hkeep id row taken (by simpa using hmem)
  | _ => exact hkeep

/-! ## Requests that are refused -/

/-- The request has been refused. -/
def Refused (σ : Server) (q : Nat) : Prop :=
  ∃ query taken, σ.tasks q = some (.accountnewa query (.refused taken))

/-- The code that is gone when an act refuses a name. -/
def lostCode (σ : Server) : Act → Option Invitation
  | .callback id _ =>
      match σ.tasks id with
      | some (.accountnewa _ (.selectedName true taken)) => if σ.crashed then none else taken
      | _ => none
  | _ => none

/-- The schedule without the acts of a request. -/
def without (q : Nat) (schedule : List Act) : List Act :=
  schedule.filter fun act => decide (act.id ≠ q)

/-- A request that has neither taken a code nor got to its insertion. -/
def Unnoticed : Option Task → Prop
  | some (.accountnewa _ (.selectName taken)) => taken = none
  | some (.accountnewa _ (.selectedName _ taken)) => taken = none
  | some (.accountnewa _ (.refused taken)) => taken = none
  | some (.accountnewa _ (.insert _ _)) => False
  | some (.accountnewa _ (.inserted _)) => False
  | some (.ucenter _ _ _) => False
  | _ => True

/-- A request that will not be refused. -/
def Accepted : Option Task → Prop
  | some (.accountnewa _ (.insert _ _)) => True
  | some (.accountnewa _ (.inserted _)) => True
  | some (.ucenter _ _ _) => True
  | _ => False

theorem Next.noticed {task : Option Task} {task' : Task} (hnext : Next task task')
    (h : ¬ Unnoticed task) : ¬ Unnoticed (some task') := by
  cases hnext <;> simp_all [Unnoticed]

theorem Next.accepted {task : Option Task} {task' : Task} (hnext : Next task task')
    (h : Accepted task) : Accepted (some task') := by
  cases hnext <;> simp_all [Accepted]

/-- The server differs from another only in what concerns one request. -/
structure Without (q : Nat) (σ σ' : Server) : Prop where
  rows : σ'.rows = σ.rows
  depot : σ'.iauthdepot = σ.iauthdepot
  pushed : σ'.pushed = σ.pushed
  crashed : σ'.crashed = σ.crashed
  tasks : ∀ {id}, id ≠ q → σ'.tasks id = σ.tasks id

section Comparison

variable {q : Nat} {τ : Server}

theorem Without.refl (q : Nat) (σ : Server) : Without q σ σ := ⟨rfl, rfl, rfl, rfl, fun _ => rfl⟩

/-- The same happens to the same request in both. -/
theorem Without.proceed (h : Without q σ τ) (id : Nat) (task : Task) :
    Without q (σ.proceed id task) (τ.proceed id task) where
  rows := h.rows
  depot := h.depot
  pushed := h.pushed
  crashed := h.crashed
  tasks := by
    intro id' hid
    by_cases heq : id' = id
    · subst heq
      simp [Server.proceed]
    · simp [Server.proceed, heq, h.tasks hid]

/-- What happens to the request itself is not compared. -/
theorem Without.proceed_self (h : Without q σ τ) (task : Task) :
    Without q (σ.proceed q task) τ where
  rows := h.rows
  depot := h.depot
  pushed := h.pushed
  crashed := h.crashed
  tasks := by
    intro id hid
    rw [h.tasks hid]
    exact (Function.update_of_ne hid _ _).symm

theorem Without.pushInvites (h : Without q σ τ) (random : Random) :
    Without q (pushInvites σ random) (pushInvites τ random) where
  rows := h.rows
  depot := by simp only [AccountServer.pushInvites, h.depot, h.pushed]
  pushed := by simp only [AccountServer.pushInvites, h.pushed]
  crashed := h.crashed
  tasks := h.tasks

theorem Without.execute (h : Without q σ τ) (hid : id ≠ q) :
    Without q (execute out σ id) (execute out τ id) := by
  unfold AccountServer.execute
  rw [h.tasks hid, h.rows]
  split
  · exact h.proceed id _
  · exact ⟨h.rows, h.depot, h.pushed, h.crashed, (h.proceed id _).tasks⟩
  · exact ⟨h.rows, h.depot, h.pushed, h.crashed, (h.proceed id _).tasks⟩
  · exact ⟨rfl, h.depot, h.pushed, h.crashed, (h.proceed id _).tasks⟩
  · exact h.proceed id _
  · exact h.proceed id _
  · exact h

theorem Without.callback (h : Without q σ τ) (hid : id ≠ q) (random : Random) :
    Without q (callback out σ id random) (callback out τ id random) := by
  unfold AccountServer.callback
  rw [h.tasks hid]
  split
  · exact h.proceed id _
  · unfold checkvalidinvite
    rw [h.depot]
    split
    · exact h.proceed id _
    · split
      · exact ⟨h.rows, rfl, h.pushed, h.crashed, (h.proceed id _).tasks⟩
      · exact h.proceed id _
  · unfold checkaccount
    split
    · exact h.proceed id _
    · exact h.proceed id _
  · exact h.proceed id _
  · split
    · exact ⟨h.rows, h.depot, h.pushed, rfl, h.tasks⟩
    · dsimp only
      split
      · exact (h.proceed id _).pushInvites random
      · exact h.proceed id _
  · exact h

/-- An act for another request. -/
theorem Without.keep (h : Without q σ τ) (hact : act.id ≠ q) :
    Without q (serverStep out σ act) (serverStep out τ act) := by
  unfold serverStep
  rw [h.crashed]
  split
  · exact h
  · cases act with
    | accountnewa id body =>
        have hid : id ≠ q := hact
        dsimp only
        rw [h.tasks hid]
        split
        · exact h
        · unfold accountnewa
          split
          · exact h.proceed id _
          · exact h.proceed id _
    | ucenter id name password =>
        have hid : id ≠ q := hact
        dsimp only
        rw [h.tasks hid]
        split
        · exact h
        · unfold ucenter
          split
          · exact h.proceed id _
          · exact h.proceed id _
    | execute id => exact h.execute hact
    | callback id random => exact h.callback hact random

/-- An act of the request itself, as long as it stays unnoticed. -/
theorem Without.skip (h : Without q σ τ) (hmove : Move out σ act σ') (hact : act.id = q)
    (hafter : Unnoticed (σ'.tasks q)) : Without q σ' τ := by
  subst hact
  cases hmove with
  | stay => exact h
  | arrive hact => exact hact ▸ h.proceed_self _
  | create htask => exact h.proceed_self _
  | selectAll htask =>
      exact ⟨h.rows, h.depot, h.pushed, h.crashed, (h.proceed_self _).tasks⟩
  | selectName htask =>
      exact ⟨h.rows, h.depot, h.pushed, h.crashed, (h.proceed_self _).tasks⟩
  | insert hrunning htask => simp [Server.proceed, Act.id, Unnoticed] at hafter
  | checkfuser htask => exact h.proceed_self _
  | firstAccount htask => exact h.proceed_self _
  | take htask hdepot => simp [Server.proceed, Act.id, Unnoticed] at hafter
  | refuseCode htask => exact h.proceed_self _
  | refuseName hrunning htask => exact h.proceed_self _
  | accept htask => exact h.proceed_self _
  | login hact htask => exact hact ▸ h.proceed_self _
  | welcome htask =>
      simp [Server.proceed, AccountServer.pushInvites, Act.id, Unnoticed] at hafter
  | crash htask => simp [Act.id, htask, Unnoticed] at hafter

/-- As long as a request stays unnoticed, the server is as it would be without it. -/
theorem without_of_unnoticed {rows₀ : List Row} {schedule : List Act}
    (h : ∀ first, first <+: schedule → Unnoticed ((serverAfter out rows₀ first).tasks q)) :
    Without q (serverAfter out rows₀ schedule) (serverAfter out rows₀ (without q schedule)) := by
  refine Runs.run_filter (fun σ => Unnoticed (σ.tasks q)) ?_ ?_ h (Without.refl q _)
  · intro σ τ act h hkeep
    exact h.keep (by simpa using hkeep)
  · intro σ τ act h hkeep hafter
    exact h.skip (serverStep_move σ act) (by simpa using hkeep) hafter

/-- A request that is noticed has taken a code, or will not be refused. -/
theorem Move.noticed (hmove : Move out σ act σ') (hact : act.id = q)
    (hbefore : Unnoticed (σ.tasks q)) (hafter : ¬ Unnoticed (σ'.tasks q)) :
    σ'.iauthdepot.length + 1 = σ.iauthdepot.length ∨ Accepted (σ'.tasks q) := by
  subst hact
  cases hmove with
  | stay => exact absurd hbefore hafter
  | arrive hact hnew harrived =>
      subst hact
      cases harrived <;> simp [Server.proceed, Unnoticed, Accepted] at hafter ⊢
  | take htask hdepot => exact Or.inl (by simp [hdepot, Nat.add_assoc])
  | accept htask => exact Or.inr (by simp [Server.proceed, Act.id, Accepted])
  | insert hrunning htask => exact Or.inr (by simp [Server.proceed, Act.id, Accepted])
  | login hact htask => exact Or.inr (by simp [Server.proceed, hact, Accepted])
  | welcome htask => exact Or.inr (by simp [Server.proceed, pushInvites, Act.id, Accepted])
  | crash htask => exact absurd hbefore hafter
  | selectName htask => simp_all [Server.proceed, Act.id, Unnoticed]
  | refuseName hrunning htask => simp_all [Server.proceed, Act.id, Unnoticed]
  | _ => simp [Server.proceed, Act.id, Unnoticed] at hafter

end Comparison

/-- No request has been refused with its code gone. -/
def NothingLost (σ : Server) : Prop :=
  ∀ q query e, σ.tasks q ≠ some (.accountnewa query (.refused (some e)))

theorem NothingLost.proceed (h : NothingLost σ)
    (hnot : ∀ query e, task ≠ .accountnewa query (.refused (some e))) :
    NothingLost (σ.proceed id task) := by
  intro q query e
  by_cases heq : q = id
  · subst heq
    simpa [Server.proceed] using hnot query e
  · simpa [Server.proceed, heq] using h q query e

theorem NothingLost.move (h : NothingLost σ) (hmove : Move out σ act σ')
    (hkeep : lostCode σ act = none) : NothingLost σ' := by
  cases hmove with
  | stay => exact h
  | arrive hact hnew harrived => exact h.proceed (by cases harrived <;> simp)
  | @refuseName id random query taken hrunning htask =>
      have hnone : taken = none := by simpa [lostCode, htask, hrunning] using hkeep
      exact h.proceed (by simp [hnone])
  | crash htask => exact h
  | _ => exact h.proceed (by simp)

/-- The request whose code is lost by an act is refused by it. -/
theorem lostCode_eq_some (out : Outside) {e : Invitation} (hlost : lostCode σ act = some e) :
    ∃ query, σ.tasks act.id = some (.accountnewa query (.selectedName true (some e))) ∧
      (serverStep out σ act).tasks act.id = some (.accountnewa query (.refused (some e))) := by
  unfold lostCode at hlost
  split at hlost
  · split at hlost
    · next id random query taken htask =>
      cases hrunning : σ.crashed with
      | true => simp [hrunning] at hlost
      | false =>
          simp only [hrunning, Bool.false_eq_true, if_false] at hlost
          subst hlost
          refine ⟨query, htask, ?_⟩
          simp [serverStep, hrunning, callback, htask, checkaccount, Server.proceed, Act.id]
    · cases hlost
  · cases hlost

theorem Refused.step {q : Nat} (h : Refused σ q) (act : Act) :
    Refused (serverStep out σ act) q := by
  refine (serverStep_move σ act).keeps (P := fun task => ∃ query taken,
    task = some (.accountnewa query (.refused taken))) ?_ h
  rintro task task' hnext ⟨query, taken, rfl⟩
  nomatch hnext

/-! ## The depot -/

theorem serverAfter_concat (out : Outside) (rows₀ : List Row) (first : List Act) (act : Act) :
    serverAfter out rows₀ (first ++ [act]) = serverStep out (serverAfter out rows₀ first) act := by
  simp [serverAfter, Runs.run_append]

/-- A request that is refused and has left the depot alone at every moment has
not been noticed at any. -/
theorem unnoticed_of_depot {rows₀ : List Row} {schedule : List Act} {q : Nat}
    (hrefused : Refused (serverAfter out rows₀ schedule) q)
    (hdepot : ∀ first, first <+: schedule → (serverAfter out rows₀ first).iauthdepot =
      (serverAfter out rows₀ (without q first)).iauthdepot)
    {first : List Act} (hfirst : first <+: schedule) :
    Unnoticed ((serverAfter out rows₀ first).tasks q) := by
  have hall : ∀ p, p <+: first → Unnoticed ((serverAfter out rows₀ p).tasks q) := by
    induction first using List.reverseRecOn with
    | nil =>
        intro p hp
        rw [List.prefix_nil.mp hp]
        trivial
    | append_singleton first act ih =>
        have hbefore := ih ((List.prefix_append first [act]).trans hfirst)
        intro p hp
        rcases List.prefix_concat_iff.mp hp with rfl | hp
        · by_contra hafter
          have hmove : Move out _ act (serverStep out (serverAfter out rows₀ first) act) :=
            serverStep_move _ act
          rw [← serverAfter_concat] at hmove
          have hunnoticed := hbefore first (List.prefix_refl first)
          have hact : act.id = q := by
            by_contra hne
            rcases hmove.next with hsame | ⟨task, _, hsome⟩
            · exact hafter (hsame ▸ hunnoticed)
            · rw [hsome, Function.update_of_ne (Ne.symm hne)] at hafter
              exact hafter hunnoticed
          rcases hmove.noticed hact hunnoticed hafter with hlength | haccepted
          · have hsame := (without_of_unnoticed hbefore).depot
            have hwithout : without q (first ++ [act]) = without q first := by
              simp [without, hact]
            have hlast := hdepot (first ++ [act]) hfirst
            rw [hwithout, hsame] at hlast
            rw [hlast] at hlength
            omega
          · obtain ⟨query, taken, hlast⟩ := hrefused
            have hend : Accepted ((serverAfter out rows₀ schedule).tasks q) :=
              Runs.run_of_prefix (fun σ act h => (serverStep_move σ act).keeps Next.accepted h)
                hfirst haccepted
            rw [hlast] at hend
            exact hend
        · exact hbefore p hp
  exact hall first (List.prefix_refl first)

/-- No two requests insert an account with one code. -/
theorem inserted_once (out : Outside) (rows₀ : List Row) (schedule : List Act)
    {i j : Nat} {row row' : Row} {e e' : Invitation}
    (hi : .insert i row (some e) ∈ (serverAfter out rows₀ schedule).executed)
    (hj : .insert j row' (some e') ∈ (serverAfter out rows₀ schedule).executed)
    (hserial : e.serial = e'.serial) : i = j := by
  have hapart : CodesApart (serverAfter out rows₀ schedule) :=
    Runs.run_invariant CodesApart (fun σ act h => h.move (serverStep_move σ act))
      ⟨by simp [Server.start], by simp [Server.start], by simp [Server.start, Server.taken],
        by simp [Server.start, Server.taken], by simp [Server.start, Server.taken]⟩ schedule
  have hended : InsertionsEnded (serverAfter out rows₀ schedule) :=
    Runs.run_invariant InsertionsEnded (fun σ act h => h.move (serverStep_move σ act))
      (by simp [InsertionsEnded, Server.start]) schedule
  have htaken : ∀ {i row e},
      .insert i row (some e) ∈ (serverAfter out rows₀ schedule).executed →
      e ∈ (serverAfter out rows₀ schedule).taken i := by
    intro i row e hmem
    obtain ⟨query, htask⟩ := hended i row (some e) hmem
    simp [Server.taken, htask, Task.taken]
  exact hapart.alone (htaken hi) (htaken hj) hserial

/-- Where no refused request shows in the depot, no code is lost. -/
theorem keeps_of_unaffected {out : Outside} {rows₀ : List Row} {schedule : List Act}
    (hdepot : ∀ q, Refused (serverAfter out rows₀ schedule) q → ∀ first, first <+: schedule →
      (serverAfter out rows₀ first).iauthdepot =
        (serverAfter out rows₀ (without q first)).iauthdepot) :
    Runs.Steps (serverStep out) (fun σ act => lostCode σ act = none) (Server.start rows₀)
      schedule := by
  apply Runs.steps_of_prefixes
  intro first act hfirst
  by_contra hlost
  obtain ⟨e, hlost⟩ := Option.ne_none_iff_exists'.mp hlost
  obtain ⟨query, htask, hrefused⟩ := lostCode_eq_some out hlost
  have hlast : Refused (serverAfter out rows₀ schedule) act.id := by
    refine Runs.run_of_prefix (P := fun σ => Refused σ act.id)
      (fun σ act h => Refused.step h act) hfirst ?_
    rw [Runs.run_append]
    exact ⟨query, some e, hrefused⟩
  have hbefore : Unnoticed ((serverAfter out rows₀ first).tasks act.id) :=
    unnoticed_of_depot hlast (hdepot act.id hlast) ((List.prefix_append first [act]).trans hfirst)
  have hnone : Unnoticed (some (.accountnewa query (.selectedName true (some e)))) :=
    htask ▸ hbefore
  simp [Unnoticed] at hnone

/-- Where no code is lost, a refused request has never taken one. -/
theorem unnoticed_of_keeps {out : Outside} {rows₀ : List Row} {schedule : List Act}
    (hkeeps : Runs.Steps (serverStep out) (fun σ act => lostCode σ act = none)
      (Server.start rows₀) schedule) {q : Nat}
    (hrefused : Refused (serverAfter out rows₀ schedule) q) {first : List Act}
    (hfirst : first <+: schedule) : Unnoticed ((serverAfter out rows₀ first).tasks q) := by
  have hlost : NothingLost (serverAfter out rows₀ schedule) :=
    Runs.Steps.invariant (fun σ act h hkeep => h.move (serverStep_move σ act) hkeep) hkeeps
      (by simp [NothingLost, Server.start])
  have hlast : Unnoticed ((serverAfter out rows₀ schedule).tasks q) := by
    obtain ⟨query, taken, htask⟩ := hrefused
    rw [htask]
    cases taken with
    | none => rfl
    | some e => exact absurd htask (hlost q query e)
  by_contra hnoticed
  exact Runs.run_of_prefix (P := fun σ => ¬ Unnoticed (σ.tasks q))
    (fun σ act h => (serverStep_move σ act).keeps (P := fun task => ¬ Unnoticed task)
      Next.noticed h) hfirst hnoticed hlast

/-- In every run of the server, whatever the order of its acts: no two requests
insert an account with one code, and the refused requests leave the depot as it
would be without them at every moment if and only if no name is refused to a
request that has taken a code. -/
theorem depot_unaffected_iff (out : Outside) (rows₀ : List Row) (schedule : List Act) :
    (∀ i j row row' e e',
      .insert i row (some e) ∈ (serverAfter out rows₀ schedule).executed →
      .insert j row' (some e') ∈ (serverAfter out rows₀ schedule).executed →
      e.serial = e'.serial → i = j) ∧
    ((∀ q, Refused (serverAfter out rows₀ schedule) q → ∀ first, first <+: schedule →
      (serverAfter out rows₀ first).iauthdepot =
        (serverAfter out rows₀ (without q first)).iauthdepot) ↔
    Runs.Steps (serverStep out) (fun σ act => lostCode σ act = none) (Server.start rows₀)
      schedule) := by
  constructor
  · intro i j row row' e e' hi hj
    exact inserted_once out rows₀ schedule hi hj
  constructor
  · exact keeps_of_unaffected
  · intro hkeeps q hrefused first hfirst
    have hall : ∀ p, p <+: first → Unnoticed ((serverAfter out rows₀ p).tasks q) :=
      fun p hp => unnoticed_of_keeps hkeeps hrefused (hp.trans hfirst)
    exact (without_of_unnoticed hall).depot.symm

/-- The account `a` with the password `p`. -/
def known : Row := newRow plain ⟨[0x61], [0x70], none⟩ (units "00000000")

/-- `a` logs in and gets two codes; then `a` is to be created once more, with
one of them. -/
def wasted : List Act :=
  [.ucenter 0 (some [0x61]) (some [0x70]), .execute 0, .callback 0 ⟨[], 0, 1⟩, .execute 0,
    .callback 0 ⟨[], 0, 1⟩,
    .accountnewa 1 ⟨some [0x61], some [0x70], some (units "ADEGHN")⟩, .execute 1,
    .callback 1 ⟨[], 0, 0⟩, .execute 1, .callback 1 ⟨[], 0, 0⟩, .execute 1,
    .callback 1 ⟨[], 0, 0⟩]

/-- The name exists already, and the code is gone with the refusal. -/
theorem code_wasted : ¬ ∀ q, Refused (serverAfter plain [known] wasted) q →
    (serverAfter plain [known] wasted).iauthdepot =
      (serverAfter plain [known] (without q wasted)).iauthdepot := by
  intro h
  have htask : (serverAfter plain [known] wasted).tasks 1 = some (.accountnewa
      ⟨[0x61], [0x70], some (units "ADEGHN")⟩ (.refused (some ⟨0, units "ADEGHN"⟩))) := by
    decide +kernel
  have hdepot := h 1 ⟨_, _, htask⟩
  revert hdepot
  decide +kernel

end CodingLearners.AccountServer
