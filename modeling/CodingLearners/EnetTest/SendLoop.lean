import CodingLearners.Library.Runs
import Mathlib.Data.List.Count

/-!
# The send budget of `test_udp`

The loop of `test_udp` waits for its sockets and sends on those that are due and
writable. Each successful send takes one from `send_max`, which is compared with zero
only after all sockets have had their turn.

## Implementation notes

The clock, the results of the select and those of the sends are inputs. Receiving does
not touch the variables of the send loop and is left out. `send_max` is an integer
without bound.
-/

namespace CodingLearners.EnetTest

open Runs

/-- `sock[8]` with the addresses that were found, after all sockets have been opened. -/
structure Sockets where
  ipcnt : Nat
  /-- `sock[ii] != ENET_SOCKET_NULL` -/
  isOpen : Nat → Bool
  fits : ipcnt ≤ 8

/-- The loop that opens the sockets, with the results of creating and binding them. -/
def openSockets (found : Nat) (created bound : Nat → Bool) : Sockets where
  ipcnt := if 8 < found then 8 else found
  isOpen ii := created ii && bound ii
  fits := by
    split <;> omega

/-- What `enet_socketset_select` returns: `-1`, or the sockets that are writable; for these
the result of `enet_socket_send` follows. -/
inductive SelectResult
  | failed
  | ready (writable : Nat → Bool) (sent : Nat → Int)

/-- One select, with the time that is read before it if the outer loop begins. -/
structure Turn where
  time : Nat
  select : SelectResult

/-- The locals of the loop. -/
structure State where
  sendMax : Int
  /-- `sendflg[ii] != 0` -/
  sendflg : Nat → Bool
  /-- Inside of the loop that repeats a failed select. -/
  selecting : Bool
  /-- The results printed as `socket send success`. -/
  successes : List Int

def start : State :=
  { sendMax := 10, sendflg := fun _ => false, selecting := false, successes := [] }

/-- The outer loop has ended. -/
def State.ended (state : State) : Bool := !state.selecting && state.sendMax == 0

variable (sockets : Sockets)

/-- Every two seconds all open sockets become due. -/
def checkTime (time : Nat) (state : State) : State :=
  if 2000 ≤ time then
    { state with
      sendflg := fun ii =>
        (decide (ii < sockets.ipcnt) && sockets.isOpen ii) || state.sendflg ii }
  else state

/-- `ENET_SOCKETSET_CHECK(writeset, sock[ii])`, for a set that holds the sockets that are due. -/
def inWriteset (writable : Nat → Bool) (state : State) (ii : Nat) : Bool :=
  sockets.isOpen ii && state.sendflg ii && writable ii

/-- The turn of the socket `ii`, of which the select has found `inSet`. -/
def sendOne (inSet : Nat → Bool) (sent : Nat → Int) (state : State) (ii : Nat) : State :=
  if inSet ii = true then
    let state := { state with sendflg := Function.update state.sendflg ii false }
    if sent ii ≤ 0 then state
    else { state with sendMax := state.sendMax - 1, successes := state.successes ++ [sent ii] }
  else state

/-- The turns of the first `k` sockets. -/
def sendFirst (inSet : Nat → Bool) (sent : Nat → Int) (k : Nat) (state : State) : State :=
  (List.range k).foldl (sendOne inSet sent) state

/-- The state in which a select is made. -/
def due (state : State) (turn : Turn) : State :=
  if state.selecting = true then state else checkTime sockets turn.time state

/-- One select and what follows it. -/
def step (state : State) (turn : Turn) : State :=
  if state.ended = true then state
  else
    let state := due sockets state turn
    match turn.select with
    | .failed => { state with selecting := true }
    | .ready writable sent =>
        { sendFirst (inWriteset sockets writable state) sent sockets.ipcnt state with
          selecting := false }

/-- Among the first `k` sockets those on which a send succeeds. -/
def succeeding (inSet : Nat → Bool) (sent : Nat → Int) (k : Nat) : List Nat :=
  (List.range k).filter fun ii => inSet ii && decide (0 < sent ii)

/-- The sockets that are open, due and writable and on which the send succeeds. -/
def sending (state : State) (turn : Turn) : List Nat :=
  match turn.select with
  | .failed => []
  | .ready writable sent =>
      succeeding (inWriteset sockets writable (due sockets state turn)) sent sockets.ipcnt

/-- The budget in a turn when the first `k` sockets have been dealt with. -/
def sendMaxAfter (state : State) (turn : Turn) (k : Nat) : Int :=
  match turn.select with
  | .failed => state.sendMax
  | .ready writable sent =>
      (sendFirst (inWriteset sockets writable (due sockets state turn)) sent k
        (due sockets state turn)).sendMax

/-- The sends that succeed in this turn do not exceed the budget that is left. -/
def Affordable (state : State) (turn : Turn) : Prop :=
  state.ended = true ∨ ((sending sockets state turn).length : Int) ≤ state.sendMax

theorem sendFirst_succ (inSet : Nat → Bool) (sent : Nat → Int) (k : Nat) (state : State) :
    sendFirst inSet sent (k + 1) state =
      sendOne inSet sent (sendFirst inSet sent k state) k := by
  rw [sendFirst, List.range_succ, List.foldl_append, List.foldl_cons, List.foldl_nil, sendFirst]

section Sends

variable (inSet : Nat → Bool) (sent : Nat → Int) (k : Nat) (state : State)

theorem length_succeeding_succ :
    (succeeding inSet sent (k + 1)).length =
      (succeeding inSet sent k).length + if inSet k = true ∧ 0 < sent k then 1 else 0 := by
  rw [succeeding, List.range_succ, List.filter_append, List.length_append, succeeding]
  split <;> simp_all

/-- The budget after the first sockets, and the successful sends that it has paid for. -/
theorem sendFirst_budget :
    (sendFirst inSet sent k state).sendMax =
        state.sendMax - (succeeding inSet sent k).length ∧
      (sendFirst inSet sent k state).successes.length =
        state.successes.length + (succeeding inSet sent k).length := by
  induction k with
  | zero => simp [sendFirst, succeeding]
  | succ k ih =>
      obtain ⟨hmax, hlength⟩ := ih
      rw [sendFirst_succ, length_succeeding_succ, sendOne]
      by_cases hset : inSet k = true
      · rw [if_pos hset]
        by_cases hsent : sent k ≤ 0
        · rw [if_pos hsent, if_neg (by omega)]
          exact ⟨hmax, hlength⟩
        · rw [if_neg hsent, if_pos ⟨hset, by omega⟩]
          simp only [hmax, List.length_append, hlength, List.length_singleton]
          omega
      · rw [if_neg hset, if_neg (fun h => hset h.1)]
        exact ⟨hmax, hlength⟩

end Sends

variable {sockets} {state : State} {turn : Turn}

theorem due_eq : (due sockets state turn).sendMax = state.sendMax ∧
    (due sockets state turn).successes = state.successes := by
  rw [due]
  split
  · exact ⟨rfl, rfl⟩
  · rw [checkTime]
    split <;> exact ⟨rfl, rfl⟩

/-- What one turn does to the budget. -/
theorem step_budget (h : state.ended = false) :
    (step sockets state turn).sendMax = state.sendMax - (sending sockets state turn).length ∧
      (step sockets state turn).successes.length =
        state.successes.length + (sending sockets state turn).length := by
  obtain ⟨hmax, hsuccesses⟩ := @due_eq sockets state turn
  rw [step, if_neg (by simp [h]), sending]
  cases turn.select with
  | failed => simp [hmax, hsuccesses]
  | ready writable sent =>
      obtain ⟨hlast, hlength⟩ := sendFirst_budget
        (inWriteset sockets writable (due sockets state turn)) sent sockets.ipcnt
        (due sockets state turn)
      rw [hmax] at hlast
      rw [hsuccesses] at hlength
      exact ⟨hlast, hlength⟩

theorem step_ended (h : state.ended = true) : step sockets state turn = state := if_pos h

/-- Within a turn the budget is never below what the turn leaves. -/
theorem sendMax_le_sendFirst (inSet : Nat → Bool) (sent : Nat → Int) {k n : Nat} (hle : k ≤ n) :
    (sendFirst inSet sent n state).sendMax ≤ (sendFirst inSet sent k state).sendMax := by
  induction hle with
  | refl => exact Int.le_refl _
  | step hle ih =>
      rw [sendFirst_succ, sendOne]
      split
      · dsimp only
        split
        · exact ih
        · simp only
          omega
      · exact ih

/-! ## Runs -/

/-- The budget and the successful sends together are ten. -/
def Accounted (state : State) : Prop := state.sendMax + state.successes.length = 10

theorem accounted_step (h : Accounted state) : Accounted (step sockets state turn) := by
  cases hended : state.ended with
  | true => rwa [step_ended hended]
  | false =>
      obtain ⟨hmax, hlength⟩ := @step_budget sockets state turn hended
      rw [Accounted] at h ⊢
      omega

/-- The budget is not negative, and once ten sends have succeeded the loop has ended as
soon as it is asked. -/
def InBudget (state : State) : Prop :=
  0 ≤ state.sendMax ∧
    (state.selecting = false → 10 ≤ state.successes.length → state.ended = true)

theorem inBudget_iff (h : Accounted state) : InBudget state ↔ 0 ≤ state.sendMax := by
  constructor
  · exact And.left
  · intro hle
    refine ⟨hle, ?_⟩
    intro hselecting hten
    rw [Accounted] at h
    have hzero : state.sendMax = 0 := by omega
    simp [State.ended, hselecting, hzero]

theorem inBudget_step_iff (h : Accounted state) (hgood : InBudget state) :
    InBudget (step sockets state turn) ↔ Affordable sockets state turn := by
  rw [inBudget_iff (accounted_step h), Affordable]
  cases hended : state.ended with
  | true =>
      rw [step_ended hended]
      simpa using hgood.1
  | false =>
      rw [(step_budget hended).1]
      simp

theorem step_sendMax_le (h : state.ended = false) {k : Nat} (hk : k ≤ sockets.ipcnt) :
    (step sockets state turn).sendMax ≤ sendMaxAfter sockets state turn k := by
  rw [step, if_neg (by simp [h]), sendMaxAfter]
  cases turn.select with
  | failed => exact Int.le_of_eq due_eq.1
  | ready writable sent => exact sendMax_le_sendFirst _ _ hk

theorem sends_inBudget_iff (sockets : Sockets) (turns : List Turn) :
    (∀ first, first <+: turns → InBudget (run (step sockets) start first)) ↔
      Steps (step sockets) (Affordable sockets) start turns := by
  apply always_iff_steps Accounted
  · intro state turn
    exact accounted_step
  · intro state turn
    exact inBudget_step_iff
  · rfl
  · have hstart : Accounted start := rfl
    exact (inBudget_iff hstart).mpr (by decide)

/-- The budget never becomes negative, within a turn or after it, and the loop ends as soon
as ten sends have succeeded, exactly if no turn brings more successful sends than the budget
has left. -/
theorem always_inBudget_iff (sockets : Sockets) (turns : List Turn) :
    ((∀ first, first <+: turns → InBudget (run (step sockets) start first)) ∧
      ∀ first turn k, first ++ [turn] <+: turns →
        (run (step sockets) start first).ended = false → k ≤ sockets.ipcnt →
        0 ≤ sendMaxAfter sockets (run (step sockets) start first) turn k) ↔
      Steps (step sockets) (Affordable sockets) start turns := by
  rw [← sends_inBudget_iff]
  constructor
  · exact And.left
  · intro h
    refine ⟨h, ?_⟩
    intro first turn k hfirst hended hk
    have hnext := (h _ hfirst).1
    rw [run_append] at hnext
    exact Int.le_trans hnext (step_sendMax_le hended hk)

/-- The budget is a multiple of `n`, and not used up while a select is repeated. -/
structure LastsFor (n : Nat) (state : State) : Prop where
  dvd : (n : Int) ∣ state.sendMax
  nonneg : 0 ≤ state.sendMax
  pending : state.selecting = true → state.sendMax ≠ 0

/-- Either no send succeeds, or `n` do. -/
def Together (sockets : Sockets) (n : Nat) (state : State) (turn : Turn) : Prop :=
  (sending sockets state turn).length = 0 ∨ (sending sockets state turn).length = n

theorem LastsFor.pos {n : Nat} (h : LastsFor n state) (hended : state.ended = false) :
    0 < state.sendMax := by
  have hne : state.sendMax ≠ 0 := by
    intro hzero
    cases hselecting : state.selecting with
    | true => exact h.pending hselecting hzero
    | false => simp [State.ended, hselecting, hzero] at hended
  have hnonneg := h.nonneg
  omega

theorem LastsFor.affordable {n : Nat} (h : LastsFor n state)
    (htogether : Together sockets n state turn) : Affordable sockets state turn := by
  cases hended : state.ended with
  | true => exact Or.inl hended
  | false =>
      have hle := Int.le_of_dvd (h.pos hended) h.dvd
      have hnonneg := h.nonneg
      rcases htogether with hlength | hlength
      · exact Or.inr (by omega)
      · exact Or.inr (by omega)

theorem LastsFor.step {n : Nat} (h : LastsFor n state)
    (htogether : Together sockets n state turn) : LastsFor n (step sockets state turn) := by
  have haffordable := h.affordable htogether
  cases hended : state.ended with
  | true => rwa [step_ended hended]
  | false =>
      have hmax := (@step_budget sockets state turn hended).1
      have hle : ((sending sockets state turn).length : Int) ≤ state.sendMax := by
        simpa [Affordable, hended] using haffordable
      refine ⟨?_, by omega, ?_⟩
      · rw [hmax]
        apply Int.dvd_sub h.dvd
        rcases htogether with hlength | hlength <;> simp [hlength]
      · -- only a failed select is repeated, and it pays for nothing
        intro hselecting
        have hnone : sending sockets state turn = [] := by
          rw [EnetTest.step, if_neg (by simp [hended])] at hselecting
          cases hselect : turn.select with
          | ready writable sent => simp [hselect] at hselecting
          | failed => simp [sending, hselect]
        have hpos := h.pos hended
        rw [hmax, hnone, List.length_nil]
        omega

/-- Where the sends succeed `n` at a time, for a divisor of ten, the budget is never
overspent. -/
theorem affordable_together {n : Nat} (hn : n ∣ 10) {turns : List Turn}
    (h : Steps (step sockets) (Together sockets n) start turns) :
    Steps (step sockets) (Affordable sockets) start turns := by
  refine Steps.imp (LastsFor n) ?_ h ?_
  · intro state turn hlasts htogether
    exact ⟨hlasts.step htogether, hlasts.affordable htogether⟩
  · refine ⟨Int.natCast_dvd_natCast.mpr hn, by decide, ?_⟩
    intro hselecting
    cases hselecting

/-- One socket never overspends it. -/
theorem affordable_one (hone : sockets.ipcnt ≤ 1) (turns : List Turn) :
    Steps (step sockets) (Affordable sockets) start turns := by
  have htogether (state : State) (turn : Turn) : Together sockets 1 state turn := by
    rw [Together, sending]
    cases turn.select with
    | failed => exact Or.inl rfl
    | ready writable sent =>
        have hle : (succeeding (inWriteset sockets writable (due sockets state turn)) sent
            sockets.ipcnt).length ≤ sockets.ipcnt := by
          rw [succeeding]
          exact Nat.le_trans (List.length_filter_le _ _) (Nat.le_of_eq List.length_range)
        dsimp only
        omega
  have hall : Steps (step sockets) (Together sockets 1) start turns :=
    steps_of_prefixes fun first turn _ => htogether _ turn
  exact affordable_together (by decide) hall

/-- Three sockets on which every send succeeds. -/
def threeSockets : Sockets := openSockets 3 (fun _ => true) fun _ => true

def allSent : Turn := { time := 2000, select := .ready (fun _ => true) fun _ => 19 }

/-- They step over zero: after four turns twelve sends have succeeded and the loop goes on. -/
theorem threeSockets_overspend :
    (run (step threeSockets) start (List.replicate 4 allSent)).sendMax = -2 ∧
      (run (step threeSockets) start (List.replicate 4 allSent)).successes.length = 12 ∧
      (run (step threeSockets) start (List.replicate 4 allSent)).ended = false ∧
      ¬ InBudget (run (step threeSockets) start (List.replicate 4 allSent)) := by
  have hmax : (run (step threeSockets) start (List.replicate 4 allSent)).sendMax = -2 := by
    decide +kernel
  refine ⟨hmax, by decide +kernel, by decide +kernel, ?_⟩
  intro h
  have hle := h.1
  rw [hmax] at hle
  contradiction

end CodingLearners.EnetTest
