import CodingLearners.TcpServer.Turn
import Mathlib.Data.List.Nodup

/-!
# Identities of clients

The record allocated for a client names it in the trace. Records are never
handed out twice, so what the trace says about one client is not mixed up with
what it says about another, also after a client has been removed.
-/

namespace CodingLearners.TcpServer

variable {ctx : EtContextData} {r : Round} {σ₀ : ServerState}

/-- The record an action is about. -/
def Event.record? : Event → Option Nat
  | .calloc record => some record
  | .free record => some record
  | .recv record _ => some record
  | .send record _ _ => some record
  | _ => none

/-- The records of the list are pairwise distinct, and neither the list nor the
trace mentions a record that is still to be allocated. -/
structure Identified (σ : ServerState) : Prop where
  nodup : (σ.clients.nodes.map TcpSocketClient.record).Nodup
  clients : ∀ c ∈ σ.clients.nodes, c.record < σ.records
  trace : ∀ e ∈ σ.trace, ∀ record, e.record? = some record → record < σ.records

theorem Identified.put {σ : ServerState} (h : Identified σ) (nodes : List TcpSocketClient)
    (events : List Event)
    (hnodes : (nodes.map TcpSocketClient.record).Sublist
      (σ.clients.nodes.map TcpSocketClient.record))
    (hevents : ∀ e ∈ events, ∀ record, e.record? = some record → record < σ.records) :
    Identified (σ.put nodes (σ.trace ++ events)) := by
  refine ⟨h.nodup.sublist hnodes, ?_, ?_⟩
  · intro c hc
    obtain ⟨d, hd, heq⟩ := List.mem_map.mp
      (hnodes.subset (List.mem_map.mpr ⟨c, hc, rfl⟩))
    exact heq ▸ h.clients d hd
  · intro e he
    cases List.mem_append.mp he with
    | inl he => exact h.trace e he
    | inr he => exact hevents e he

/-- Actions about clients of the list mention allocated records. -/
theorem Identified.mem {σ : ServerState} (h : Identified σ) {done todo : List TcpSocketClient}
    {c : TcpSocketClient} (hnodes : σ.clients.nodes = done ++ c :: todo) :
    c.record < σ.records :=
  h.clients c (by rw [hnodes]; simp)

/-- The other clients of the list have other records. -/
theorem Identified.distinct {σ : ServerState} (h : Identified σ) {done todo : List TcpSocketClient}
    {c : TcpSocketClient} (hnodes : σ.clients.nodes = done ++ c :: todo) {d : TcpSocketClient}
    (hd : d ∈ done ∨ d ∈ todo) : d.record ≠ c.record := by
  intro heq
  have hnodup := h.nodup
  rw [hnodes, List.map_append, List.map_cons, List.nodup_append, List.nodup_cons] at hnodup
  cases hd with
  | inl hd => exact hnodup.2.2 _ (List.mem_map.mpr ⟨d, hd, rfl⟩) _ List.mem_cons_self heq
  | inr hd => exact hnodup.2.1.1 (heq ▸ List.mem_map.mpr ⟨d, hd, rfl⟩)

/-- No action so far is about the record that is allocated next. -/
theorem Identified.fresh {σ : ServerState} (h : Identified σ) :
    ∀ e ∈ σ.trace, e.record? ≠ some σ.records :=
  fun e he hrec => absurd (h.trace e he _ hrec) (Nat.lt_irrefl _)

/-- A record names one client of the list. -/
theorem Identified.eq_of_record {σ : ServerState} (h : Identified σ) {c d : TcpSocketClient}
    (hc : c ∈ σ.clients.nodes) (hd : d ∈ σ.clients.nodes) (heq : d.record = c.record) : d = c :=
  List.inj_on_of_nodup_map h.nodup hd hc heq

theorem Identified.accept {σ : ServerState} {r : Round} (h : Identified σ) :
    Identified (acceptClient r σ).1 := by
  rcases acceptClient_cases r σ with hsame | ⟨phase, _, hlog⟩ | ⟨joined, hjoined, hnew⟩
  · rwa [hsame]
  · rw [hlog]
    have hput := h.put _ [.accept r.connectfd] (List.Sublist.refl _)
      (by simp [Event.record?])
    exact ⟨hput.nodup, hput.clients, hput.trace⟩
  · rw [hnew]
    have hmem : ∀ c ∈ joined, c.record = σ.records := by
      rcases hjoined with rfl | ⟨rfl, _⟩ <;> simp
    constructor
    · rw [List.map_append, List.nodup_append]
      refine ⟨h.nodup, ?_, ?_⟩
      · rcases hjoined with rfl | ⟨rfl, _⟩ <;> simp
      · intro record hold record' hnew heq
        obtain ⟨c, hc, rfl⟩ := List.mem_map.mp hold
        obtain ⟨d, hd, rfl⟩ := List.mem_map.mp hnew
        have := h.clients c hc
        have := hmem d hd
        omega
    · intro c hc
      cases List.mem_append.mp hc with
      | inl hc => exact Nat.lt_succ_of_lt (h.clients c hc)
      | inr hc => exact (hmem c hc).symm ▸ Nat.lt_succ_self _
    · intro e he record hrec
      cases List.mem_append.mp he with
      | inl he => exact Nat.lt_succ_of_lt (h.trace e he record hrec)
      | inr he =>
          simp only [List.mem_cons, List.not_mem_nil, or_false] at he
          rcases he with rfl | rfl
          · cases hrec
          · obtain rfl := Option.some.inj hrec
            exact Nat.lt_succ_self _

theorem pendingVisit_record {buff : Nat → UInt8} {trace : List Event} {c c' : TcpSocketClient}
    (h : (pendingVisit buff r trace c).2 = some c') :
    c'.record = c.record ∧ c'.socketFd = c.socketFd := by
  unfold pendingVisit at h
  dsimp only at h
  split at h <;> obtain rfl := Option.some.inj h <;> exact ⟨rfl, rfl⟩

/-- Every act keeps the identities. -/
theorem Identified.act {σ σ' : ServerState} (h₀ : Identified σ₀)
    (hact : Act ctx r σ₀ σ σ') (h : Identified σ) : Identified σ' := by
  cases hact with
  | accept => exact h₀.accept
  | @drop _ done c todo hnodes =>
      apply h.put _ _
      · rw [hnodes]
        simp
      · simp [Event.record?, h.mem hnodes]
  | echo hnodes _ _ =>
      apply h.put _ _ (by rw [hnodes])
      simp [Event.record?, h.mem hnodes]
  | @pending _ done c todo hnodes _ =>
      rw [pendingVisit]
      dsimp only
      apply h.put _ _
      · rw [hnodes]
        split <;> simp
      · simp [Event.record?, h.mem hnodes]
  | timer t => exact ⟨h.nodup, h.clients, h.trace⟩
  | rewrite _ =>
      have hput := h.put σ.clients.nodes
        [.sprintf (increment σ.autoSendNumber)] (List.Sublist.refl _)
        (by simp [Event.record?])
      exact ⟨hput.nodup, hput.clients, hput.trace⟩
  | @frame _ done c todo hnodes _ _ hidle =>
      have hc := h.mem hnodes
      unfold autoSendVisit closeClient
      simp only [hidle, if_true]
      split
      · rw [List.append_assoc]
        apply h.put _ _
        · rw [hnodes]
          simp
        · simp [Event.record?, hc]
      · split <;>
        · apply h.put _ _
          · rw [hnodes]
            simp
          · simp [Event.record?, hc]

theorem Identified.step (h : Identified σ₀) : Identified (serverStep ctx σ₀ r) := by
  rcases serverStep_cases ctx σ₀ r with ⟨_, hsame⟩ | ⟨_, _, hdown⟩ | ⟨_, _, hacts⟩
  · rwa [hsame]
  · rw [shutdown_eq] at hdown
    rw [← Except.ok.inj hdown]
    have hput := h.put [] (.close σ₀.listenfd ::
      σ₀.clients.nodes.flatMap fun c => [.close c.socketFd, .free c.record]) (by simp) (by
        intro e he record hrec
        simp only [List.mem_cons, List.mem_flatMap, List.not_mem_nil, or_false] at he
        rcases he with rfl | ⟨c, hc, rfl | rfl⟩
        · cases hrec
        · cases hrec
        · obtain rfl := Option.some.inj hrec
          exact h.clients c hc)
    exact ⟨hput.nodup, hput.clients, hput.trace⟩
  · exact acts_invariant (fun _ _ hact => Identified.act h hact) hacts h

theorem startUp_identified (copy : ServerCopy) (unset : Option TcpSocketClient) (now : Int)
    (setup : Setup) : Identified (startUp copy unset now setup) := by
  cases setup <;> constructor <;> simp [startUp, Event.record?]

end CodingLearners.TcpServer
