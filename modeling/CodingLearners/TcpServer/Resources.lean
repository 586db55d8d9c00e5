import CodingLearners.Library.Ledger
import CodingLearners.TcpServer.Turn

/-!
# Descriptors and records of the server

The trace of the thread, read as two ledgers, tells which descriptors are open
and which records are allocated. The client list is held against them: it is
in step with both ledgers at every loop head, and both are settled when the
thread has finished.
-/

namespace CodingLearners.TcpServer

open Ledger Relation

def descriptorEntry : Event → Option (Entry Int)
  | .socket fd => some (.acquire fd)
  | .accept fd => some (.acquire fd)
  | .close fd => some (.release fd)
  | _ => none

def recordEntry : Event → Option (Entry Nat)
  | .calloc record => some (.acquire record)
  | .free record => some (.release record)
  | _ => none

/-- The descriptors the kernel has handed out and not yet got back. -/
def openDescriptors (trace : List Event) : Option (List Int) :=
  held (trace.filterMap descriptorEntry)

/-- The records that are allocated. -/
def liveRecords (trace : List Event) : Option (List Nat) :=
  held (trace.filterMap recordEntry)

/-- The allocations of a round succeed, and `accept` returns no descriptor that
is already open. -/
def Admissible (σ : ServerState) (r : Round) : Prop :=
  r.callocOk = true ∧ r.mallocOk = true ∧ r.connectfd ∉ (openDescriptors σ.trace).getD []

instance (σ : ServerState) (r : Round) : Decidable (Admissible σ r) :=
  inferInstanceAs (Decidable (_ ∧ _ ∧ _))

/-- What the client list says at a loop head. -/
structure AtLoopHead (σ : ServerState) : Prop where
  /-- The listening descriptor and those of the clients, in order of acceptance,
  are exactly the open ones. -/
  descriptors : openDescriptors σ.trace =
    some (σ.listenfd :: σ.clients.nodes.map TcpSocketClient.socketFd)
  /-- The records of the clients, in order of acceptance, are exactly the live ones. -/
  records : liveRecords σ.trace = some (σ.clients.nodes.map TcpSocketClient.record)
  /-- The record in a node is the one made for the descriptor it holds. -/
  linked : ∀ c ∈ σ.clients.nodes,
    [Event.accept c.socketFd, Event.calloc c.record] <:+: σ.trace
  /-- No record of the list will be handed out again. -/
  allocated : ∀ c ∈ σ.clients.nodes, c.record < σ.records

/-- What is left when the thread has finished. -/
structure AfterThread (σ : ServerState) : Prop where
  empty : σ.clients.nodes = []
  descriptors : openDescriptors σ.trace = some []
  records : liveRecords σ.trace = some []

/-- The invariant of the thread. -/
def Accounted (σ : ServerState) : Prop :=
  match σ.phase with
  | .serving => AtLoopHead σ
  | .finished => AfterThread σ
  | .exited => True
  | .crashed => False

section Entries

variable (trace : List Event)

private theorem openDescriptors_append (events : List Event) :
    openDescriptors (trace ++ events) =
      (events.filterMap descriptorEntry).foldl post (openDescriptors trace) := by
  rw [openDescriptors, List.filterMap_append, held_append]
  rfl

private theorem liveRecords_append (events : List Event) :
    liveRecords (trace ++ events) =
      (events.filterMap recordEntry).foldl post (liveRecords trace) := by
  rw [liveRecords, List.filterMap_append, held_append]
  rfl

theorem count_release_descriptor (fd : Int) :
    (trace.filterMap descriptorEntry).count (.release fd) = trace.count (.close fd) := by
  induction trace with
  | nil => rfl
  | cons e trace ih => cases e <;> simp [descriptorEntry, List.filterMap_cons, List.count_cons, ih]

theorem count_acquire_descriptor (fd : Int) :
    (trace.filterMap descriptorEntry).count (.acquire fd) =
      trace.count (.socket fd) + trace.count (.accept fd) := by
  induction trace with
  | nil => rfl
  | cons e trace ih =>
      cases e <;> simp [descriptorEntry, List.filterMap_cons, List.count_cons, ih] <;> omega

theorem count_release_record (record : Nat) :
    (trace.filterMap recordEntry).count (.release record) = trace.count (.free record) := by
  induction trace with
  | nil => rfl
  | cons e trace ih => cases e <;> simp [recordEntry, List.filterMap_cons, List.count_cons, ih]

theorem count_acquire_record (record : Nat) :
    (trace.filterMap recordEntry).count (.acquire record) = trace.count (.calloc record) := by
  induction trace with
  | nil => rfl
  | cons e trace ih => cases e <;> simp [recordEntry, List.filterMap_cons, List.count_cons, ih]

end Entries

/-- The clients of a list at a loop head are pairwise distinct in both respects. -/
theorem AtLoopHead.nodup {σ : ServerState} (h : AtLoopHead σ) :
    (σ.clients.nodes.map TcpSocketClient.socketFd).Nodup ∧
      (σ.clients.nodes.map TcpSocketClient.record).Nodup :=
  ⟨(List.nodup_cons.mp (held_nodup h.descriptors)).2, held_nodup h.records⟩

/-- Logging actions that concern no descriptor and no record, and changing what
is still to be sent to the clients, keeps the account. -/
theorem AtLoopHead.log {σ : ServerState} (h : AtLoopHead σ) (nodes : List TcpSocketClient)
    (events : List Event)
    (hnodes : nodes.map (fun c => (c.socketFd, c.record)) =
      σ.clients.nodes.map fun c => (c.socketFd, c.record))
    (hd : events.filterMap descriptorEntry = []) (hr : events.filterMap recordEntry = []) :
    AtLoopHead (σ.put nodes (σ.trace ++ events)) := by
  have hfds : nodes.map TcpSocketClient.socketFd =
      σ.clients.nodes.map TcpSocketClient.socketFd := by
    simpa [List.map_map, Function.comp_def] using congrArg (List.map Prod.fst) hnodes
  have hrecords : nodes.map TcpSocketClient.record =
      σ.clients.nodes.map TcpSocketClient.record := by
    simpa [List.map_map, Function.comp_def] using congrArg (List.map Prod.snd) hnodes
  have hsame : ∀ c ∈ nodes, ∃ d ∈ σ.clients.nodes,
      d.socketFd = c.socketFd ∧ d.record = c.record := by
    intro c hc
    have hmem : (c.socketFd, c.record) ∈
        σ.clients.nodes.map fun c => (c.socketFd, c.record) := by
      rw [← hnodes]
      exact List.mem_map.mpr ⟨c, hc, rfl⟩
    obtain ⟨d, hd, heq⟩ := List.mem_map.mp hmem
    exact ⟨d, hd, congrArg Prod.fst heq, congrArg Prod.snd heq⟩
  constructor
  · simp [openDescriptors_append, hd, h.descriptors, hfds]
  · simp [liveRecords_append, hr, h.records, hrecords]
  · intro c hc
    obtain ⟨d, hd, hfd, hrec⟩ := hsame c hc
    rw [← hfd, ← hrec]
    exact (h.linked d hd).trans (List.prefix_append _ _).isInfix
  · intro c hc
    obtain ⟨d, hd, _, hrec⟩ := hsame c hc
    rw [← hrec]
    exact h.allocated d hd

/-- Closing a client, freeing its record and deleting its node keeps the account. -/
theorem AtLoopHead.drop {σ : ServerState} (h : AtLoopHead σ)
    {done todo : List TcpSocketClient} {c : TcpSocketClient}
    (hnodes : σ.clients.nodes = done ++ c :: todo) :
    AtLoopHead (σ.put (done ++ todo) (closeClient σ.trace c)) := by
  have hsub : ∀ d ∈ done ++ todo, d ∈ σ.clients.nodes := by
    intro d hd
    rw [hnodes]
    cases List.mem_append.mp hd with
    | inl hd => exact List.mem_append_left _ hd
    | inr hd => exact List.mem_append_right _ (List.mem_cons_of_mem _ hd)
  obtain ⟨hfds, hrecords⟩ := h.nodup
  have hfd : c.socketFd ∉ σ.listenfd :: done.map TcpSocketClient.socketFd := by
    have := held_nodup h.descriptors
    rw [hnodes, List.map_append, List.map_cons, ← List.cons_append, List.nodup_append] at this
    intro hmem
    exact this.2.2 _ hmem _ (List.mem_cons_self) rfl
  have hrec : c.record ∉ done.map TcpSocketClient.record := by
    rw [hnodes, List.map_append, List.map_cons, List.nodup_append] at hrecords
    intro hmem
    exact hrecords.2.2 _ hmem _ (List.mem_cons_self) rfl
  constructor
  · have hopen := h.descriptors
    rw [hnodes, List.map_append, List.map_cons, ← List.cons_append] at hopen
    have := held_release hopen hfd
    simpa [closeClient, openDescriptors, descriptorEntry, List.filterMap_cons] using this
  · have hlive := h.records
    rw [hnodes, List.map_append, List.map_cons] at hlive
    have := held_release hlive hrec
    simpa [closeClient, liveRecords, recordEntry, List.filterMap_cons] using this
  · intro d hd
    exact (h.linked d (hsub d hd)).trans (List.prefix_append _ _).isInfix
  · intro d hd
    exact h.allocated d (hsub d hd)

/-- A client that was accepted and whose allocations succeed joins the list and
both ledgers. -/
theorem AtLoopHead.join {σ : ServerState} (h : AtLoopHead σ) {fd : Int}
    (hfresh : fd ∉ (openDescriptors σ.trace).getD []) :
    AtLoopHead { σ with
      clients := { σ.clients with nodes := σ.clients.nodes ++ [⟨σ.records, fd, 0, 0⟩] }
      records := σ.records + 1
      trace := σ.trace ++ [.accept fd, .calloc σ.records] } := by
  rw [h.descriptors, Option.getD_some] at hfresh
  have hrec : σ.records ∉ σ.clients.nodes.map TcpSocketClient.record := by
    intro hmem
    obtain ⟨c, hc, heq⟩ := List.mem_map.mp hmem
    exact absurd (h.allocated c hc) (by omega)
  constructor
  · have := held_acquire h.descriptors hfresh
    simpa [openDescriptors, descriptorEntry, List.filterMap_cons] using this
  · have := held_acquire h.records hrec
    simpa [liveRecords, recordEntry, List.filterMap_cons] using this
  · intro c hc
    cases List.mem_append.mp hc with
    | inl hc => exact (h.linked c hc).trans (List.prefix_append _ _).isInfix
    | inr hc =>
        obtain rfl := List.mem_singleton.mp hc
        exact ⟨σ.trace, [], by simp⟩
  · intro c hc
    cases List.mem_append.mp hc with
    | inl hc => exact Nat.lt_succ_of_lt (h.allocated c hc)
    | inr hc =>
        obtain rfl := List.mem_singleton.mp hc
        exact Nat.lt_succ_self _

/-- The states in the course of a turn. -/
def InTurn (σ : ServerState) : Prop :=
  (σ.phase = .serving ∧ AtLoopHead σ) ∨ σ.phase = .exited

private theorem InTurn.keep {σ σ' : ServerState} (h : InTurn σ) (hphase : σ'.phase = σ.phase)
    (hhead : AtLoopHead σ → AtLoopHead σ') : InTurn σ' := by
  rcases h with ⟨hserving, h⟩ | hexited
  · exact Or.inl ⟨hphase.trans hserving, hhead h⟩
  · exact Or.inr (hphase.trans hexited)

private theorem InTurn.accept {σ : ServerState} {r : Round} (hadm : Admissible σ r)
    (hphase : σ.phase = .serving) (h : AtLoopHead σ) : InTurn (acceptClient r σ).1 := by
  obtain ⟨hcalloc, hmalloc, hfresh⟩ := hadm
  rcases acceptClient_cases r σ with hsame | ⟨phase, hcase, hlog⟩ | ⟨joined, hjoined, hnew⟩
  · rw [hsame]
    exact Or.inl ⟨hphase, h⟩
  · rcases hcase with rfl | ⟨_, hfails⟩
    · rw [hlog]
      exact Or.inr rfl
    · exact absurd hcalloc (by simp [hfails])
  · rcases hjoined with rfl | ⟨_, hfails⟩
    · rw [hnew]
      exact Or.inl ⟨hphase, h.join hfresh⟩
    · exact absurd hmalloc (by simp [hfails])

/-- Every act keeps the account. -/
theorem InTurn.act {ctx : EtContextData} {r : Round} {σ₀ σ σ' : ServerState}
    (hadm : Admissible σ₀ r) (hphase : σ₀.phase = .serving) (h₀ : AtLoopHead σ₀)
    (hact : Act ctx r σ₀ σ σ') (h : InTurn σ) : InTurn σ' := by
  cases hact with
  | accept => exact InTurn.accept hadm hphase h₀
  | drop hnodes => exact h.keep rfl fun h => h.drop hnodes
  | echo hnodes _ _ =>
      refine h.keep rfl fun h => h.log _ _ (by rw [hnodes]) ?_ ?_
      · simp [descriptorEntry, List.filterMap_cons]
      · simp [recordEntry, List.filterMap_cons]
  | @pending _ done c todo hnodes _ =>
      refine h.keep rfl fun h => ?_
      rw [pendingVisit]
      dsimp only
      apply h.log _ _
      · rw [hnodes]
        split <;> simp
      · simp [descriptorEntry, List.filterMap_cons]
      · simp [recordEntry, List.filterMap_cons]
  | timer t =>
      refine h.keep rfl fun h => ?_
      exact ⟨h.descriptors, h.records, h.linked, h.allocated⟩
  | rewrite _ =>
      refine h.keep rfl fun h => ?_
      have hlog := h.log _ [.sprintf (increment σ.autoSendNumber)] rfl
        rfl rfl
      exact ⟨hlog.descriptors, hlog.records, hlog.linked, hlog.allocated⟩
  | @frame _ done c todo hnodes _ _ hidle =>
      refine h.keep rfl fun h => ?_
      rw [autoSendVisit]
      simp only [hidle, if_true]
      split
      · -- the frame is logged, then the client is closed
        have hlog := h.log σ.clients.nodes [.send c.record .autoSend
          (tcpSendn (bytesFrom σ.autoSendBuff 0 (sendSizePer ctx))
            (r.autoSend c.socketFd)).accepted] rfl rfl rfl
        exact AtLoopHead.drop hlog hnodes
      · split
        · refine h.log _ _ ?_ rfl rfl
          rw [hnodes]
          simp
        · refine h.log _ _ ?_ rfl rfl
          rw [hnodes]
          simp

/-- Closing and freeing everything that is open and live settles both ledgers. -/
private theorem closeAll_settled (nodes : List TcpSocketClient) (trace : List Event)
    (hd : openDescriptors trace = some (nodes.map TcpSocketClient.socketFd))
    (hr : liveRecords trace = some (nodes.map TcpSocketClient.record)) :
    openDescriptors (trace ++ nodes.flatMap fun c => [.close c.socketFd, .free c.record]) =
        some [] ∧
      liveRecords (trace ++ nodes.flatMap fun c => [.close c.socketFd, .free c.record]) =
        some [] := by
  induction nodes generalizing trace with
  | nil => simpa using ⟨hd, hr⟩
  | cons c nodes ih =>
      have hd' := held_release_head hd
      have hr' := held_release_head hr
      have hrest := ih (trace ++ [.close c.socketFd, .free c.record])
        (by simpa [openDescriptors, descriptorEntry, List.filterMap_cons] using hd')
        (by simpa [liveRecords, recordEntry, List.filterMap_cons] using hr')
      simpa using hrest

/-- Shutting down settles both ledgers. -/
theorem AtLoopHead.shutdown {σ σ' : ServerState} (h : AtLoopHead σ)
    (hσ' : shutdown σ = .ok σ') : σ'.phase = .finished ∧ AfterThread σ' := by
  rw [shutdown_eq] at hσ'
  obtain rfl := Except.ok.inj hσ'
  have hlisten := held_release_head h.descriptors
  have hclosed := closeAll_settled σ.clients.nodes (σ.trace ++ [.close σ.listenfd])
    (by simpa [openDescriptors, descriptorEntry, List.filterMap_cons] using hlisten)
    (by simpa [liveRecords, recordEntry, List.filterMap_cons] using h.records)
  refine ⟨rfl, rfl, ?_, ?_⟩
  · simpa using hclosed.1
  · simpa using hclosed.2

/-- Every step of the thread keeps the invariant. -/
theorem Accounted.step {ctx : EtContextData} {σ : ServerState} {r : Round}
    (h : Accounted σ) (hadm : Admissible σ r) : Accounted (serverStep ctx σ r) := by
  rcases serverStep_cases ctx σ r with ⟨_, hsame⟩ | ⟨hphase, _, hdown⟩ | ⟨hphase, _, hacts⟩
  · rwa [hsame]
  · simp only [Accounted, hphase] at h
    obtain ⟨hfinished, hafter⟩ := h.shutdown hdown
    simpa only [Accounted, hfinished] using hafter
  · simp only [Accounted, hphase] at h
    have hturn : InTurn (serverStep ctx σ r) :=
      acts_invariant (fun _ _ hact => InTurn.act hadm hphase h hact) hacts (Or.inl ⟨hphase, h⟩)
    rcases hturn with ⟨hserving, hhead⟩ | hexited
    · simpa only [Accounted, hserving] using hhead
    · simp only [Accounted, hexited]

theorem startUp_accounted (copy : ServerCopy) (unset : Option TcpSocketClient) (now : Int)
    (setup : Setup) : Accounted (startUp copy unset now setup) := by
  cases setup with
  | socketFailed => exact ⟨rfl, rfl, rfl⟩
  | bindFailed fd =>
      exact ⟨rfl, by simp [startUp, openDescriptors, descriptorEntry, held, post], rfl⟩
  | listenFailed fd =>
      exact ⟨rfl, by simp [startUp, openDescriptors, descriptorEntry, held, post], rfl⟩
  | listening fd => exact ⟨rfl, rfl, by simp [startUp], by simp [startUp]⟩

/-- A run of the thread whose allocations succeed never faults; at each loop
head the list is in step with the open descriptors and the live records; and a
thread that has finished has closed every descriptor and freed every record as
often as it was handed out, and leaves nothing for `et_destroy_context` to free. -/
theorem clients_accounted (ctx : EtContextData) (copy : ServerCopy)
    (unset : Option TcpSocketClient) (now : Int) (setup : Setup) (rounds : List Round)
    (hadm : Runs.Steps (serverStep ctx) Admissible (startUp copy unset now setup) rounds) :
    let σ := startSvrThread ctx (startUp copy unset now setup) rounds
    σ.phase ≠ .crashed ∧
    (σ.phase = .serving → AtLoopHead σ ∧
      (σ.clients.nodes.map TcpSocketClient.socketFd).Nodup ∧
      (σ.clients.nodes.map TcpSocketClient.record).Nodup) ∧
    (σ.phase = .finished → AfterThread σ ∧
      (∀ fd, σ.trace.count (.close fd) =
        σ.trace.count (.socket fd) + σ.trace.count (.accept fd)) ∧
      (∀ record, σ.trace.count (.free record) = σ.trace.count (.calloc record)) ∧
      etDestroyContext σ = σ.trace) := by
  intro σ
  have h : Accounted σ := Runs.Steps.invariant (fun _ _ h hadm => h.step hadm) hadm
    (startUp_accounted copy unset now setup)
  refine ⟨?_, ?_, ?_⟩
  · intro hphase
    simp only [Accounted, hphase] at h
  · intro hphase
    simp only [Accounted, hphase] at h
    exact ⟨h, h.nodup⟩
  · intro hphase
    simp only [Accounted, hphase] at h
    refine ⟨h, ?_, ?_, ?_⟩
    · intro fd
      have := count_release_of_settled h.descriptors fd
      rwa [count_release_descriptor, count_acquire_descriptor] at this
    · intro record
      have := count_release_of_settled h.records record
      rwa [count_release_record, count_acquire_record] at this
    · simp [etDestroyContext, h.empty]

/-- Two clients connect, the first of them has an exceptional condition, and the
thread is stopped. -/
def exceptionThenStop : List Round :=
  [{ Round.quiet with
      select := .ready (fun fd => fd == 3) (fun _ => false) (fun _ => false)
      connectfd := 5 },
    { Round.quiet with
      select := .ready (fun fd => fd == 3) (fun _ => false) (fun _ => false)
      connectfd := 6 },
    { Round.quiet with
      select := .ready (fun _ => false) (fun _ => false) (fun fd => fd == 5) },
    { Round.quiet with stop := true }]

theorem clients_accounted_exceptionThenStop :
    let σ := startSvrThread ⟨0, 1024⟩ (startUp .tcpEchoServer none 0 (.listening 3))
      exceptionThenStop
    AfterThread σ ∧ etDestroyContext σ = σ.trace := by
  have h := (clients_accounted ⟨0, 1024⟩ .tcpEchoServer none 0 (.listening 3) exceptionThenStop
    (by decide)).2.2 (by decide)
  exact ⟨h.1, h.2.2.2⟩

end CodingLearners.TcpServer
