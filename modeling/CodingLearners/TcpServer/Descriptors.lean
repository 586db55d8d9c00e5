import CodingLearners.TcpServer.Turn

/-!
# The descriptors that `accept` returns

A turn keeps its descriptors if each one that stood in the list or was
accepted is closed in the turn or stands in the list after it. Descriptors are
counted, so that nothing has to be assumed about the kernel's numbering.
-/

namespace CodingLearners.TcpServer

open IndexedPass Relation

/-- `FD_SETSIZE` -/
def fdSetsize : Int := 1024

/-- How often a descriptor stands in a list of clients. -/
def countFd (fd : Int) (nodes : List TcpSocketClient) : Nat :=
  (nodes.map TcpSocketClient.socketFd).count fd

/-- From one state of list and trace to another, each descriptor that stood in
the list or was accepted has been closed or still stands in the list. -/
def Balanced (trace₀ : List Event) (nodes₀ : List TcpSocketClient) (trace : List Event)
    (nodes : List TcpSocketClient) : Prop :=
  ∃ log, trace = trace₀ ++ log ∧
    ∀ fd, countFd fd nodes₀ + log.count (.accept fd) = log.count (.close fd) + countFd fd nodes

/-- Every descriptor of the list is inside an `fd_set`. -/
def InsideFdSet (σ : ServerState) : Prop := ∀ c ∈ σ.clients.nodes, c.socketFd < fdSetsize

/-- A turn loses no descriptor, unless the process exits, and the list holds
only descriptors that an `fd_set` has room for, after the accept branch as well
as at the next loop head. -/
def KeepsDescriptors (ctx : EtContextData) (σ : ServerState) (r : Round) : Prop :=
  σ.phase = .serving → r.stop = false →
    ((serverStep ctx σ r).phase ≠ .exited →
      Balanced σ.trace σ.clients.nodes (serverStep ctx σ r).trace
        (serverStep ctx σ r).clients.nodes) ∧
    (∀ σ' flag, serveReady r σ = .ok (σ', flag) → InsideFdSet σ') ∧
    InsideFdSet (serverStep ctx σ r)

/-- `select` has found the listening socket readable. -/
def ListenReady (r : Round) (σ : ServerState) : Prop :=
  match r.select with
  | .ready readfds _ _ => fdIsset (fdSets σ).readfds readfds σ.listenfd = true
  | _ => False

/-- In the turn `accept` returns a descriptor, which is made non-blocking. -/
def Accepts (r : Round) (σ : ServerState) : Prop :=
  σ.phase = .serving ∧ r.stop = false ∧ ListenReady r σ ∧ 0 ≤ r.connectfd ∧ r.fcntlOk = true

/-- If a descriptor is accepted, both allocations for it succeed and it is
smaller than `FD_SETSIZE`. -/
def AcceptedInto (σ : ServerState) (r : Round) : Prop :=
  Accepts r σ → r.callocOk = true ∧ r.mallocOk = true ∧ r.connectfd < fdSetsize

instance (r : Round) (σ : ServerState) : Decidable (ListenReady r σ) :=
  match h : r.select with
  | .failed _ => isFalse (by simp [ListenReady, h])
  | .timeout => isFalse (by simp [ListenReady, h])
  | .ready readfds _ _ =>
      decidable_of_iff (fdIsset (fdSets σ).readfds readfds σ.listenfd = true)
        (by simp [ListenReady, h])

instance (r : Round) (σ : ServerState) : Decidable (Accepts r σ) :=
  inferInstanceAs (Decidable (_ ∧ _ ∧ _ ∧ _ ∧ _))

instance (σ : ServerState) (r : Round) : Decidable (AcceptedInto σ r) :=
  inferInstanceAs (Decidable (_ → _))

/-- The same where nothing was accepted: what has left the list was closed. -/
def Closes (trace₀ : List Event) (nodes₀ : List TcpSocketClient) (trace : List Event)
    (nodes : List TcpSocketClient) : Prop :=
  ∃ log, trace = trace₀ ++ log ∧ ∀ fd, Event.accept fd ∉ log ∧
    countFd fd nodes₀ = log.count (.close fd) + countFd fd nodes

section Balance

variable {trace₀ trace : List Event} {nodes₀ nodes : List TcpSocketClient}

@[simp] theorem countFd_append (fd : Int) (xs ys : List TcpSocketClient) :
    countFd fd (xs ++ ys) = countFd fd xs + countFd fd ys := by
  simp [countFd]

theorem Closes.refl (trace : List Event) (nodes : List TcpSocketClient) :
    Closes trace nodes trace nodes := ⟨[], by simp, by simp⟩

theorem Closes.trans {trace₁ : List Event} {nodes₁ : List TcpSocketClient}
    (h₁ : Closes trace₀ nodes₀ trace₁ nodes₁) (h₂ : Closes trace₁ nodes₁ trace nodes) :
    Closes trace₀ nodes₀ trace nodes := by
  obtain ⟨log₁, rfl, hcount₁⟩ := h₁
  obtain ⟨log₂, rfl, hcount₂⟩ := h₂
  refine ⟨log₁ ++ log₂, List.append_assoc _ _ _, fun fd => ⟨?_, ?_⟩⟩
  · rw [List.mem_append]
    exact not_or.mpr ⟨(hcount₁ fd).1, (hcount₂ fd).1⟩
  · have h₁ := (hcount₁ fd).2
    have h₂ := (hcount₂ fd).2
    rw [List.count_append]
    omega

/-- What was balanced before stays so, whatever is closed later. -/
theorem Balanced.closes {trace₁ : List Event} {nodes₁ : List TcpSocketClient}
    (h₂ : Closes trace₁ nodes₁ trace nodes) :
    Balanced trace₀ nodes₀ trace₁ nodes₁ → Balanced trace₀ nodes₀ trace nodes := by
  rintro ⟨log₁, rfl, hcount₁⟩
  obtain ⟨log₂, rfl, hcount₂⟩ := h₂
  refine ⟨log₁ ++ log₂, List.append_assoc _ _ _, fun fd => ?_⟩
  have h₁ := hcount₁ fd
  obtain ⟨hnone, h₂⟩ := hcount₂ fd
  rw [List.count_append, List.count_append, List.count_eq_zero_of_not_mem hnone]
  omega

/-- No descriptor comes into the list by closing. -/
theorem Closes.inside {σ σ' : ServerState}
    (h : Closes σ.trace σ.clients.nodes σ'.trace σ'.clients.nodes) (hinside : InsideFdSet σ) :
    InsideFdSet σ' := by
  obtain ⟨log, _, hcount⟩ := h
  intro c hc
  have hpos' : 0 < countFd c.socketFd σ'.clients.nodes :=
    List.count_pos_iff.mpr (List.mem_map.mpr ⟨c, hc, rfl⟩)
  have hpos : 0 < countFd c.socketFd σ.clients.nodes := by
    have := (hcount c.socketFd).2
    omega
  obtain ⟨d, hd, hfd⟩ := List.mem_map.mp (List.count_pos_iff.mp hpos)
  exact hfd ▸ hinside d hd

/-- A visit that closes the client exactly if it drops it. -/
def VisitCloses
    (visit : List Event → TcpSocketClient → List Event × Option TcpSocketClient) : Prop :=
  ∀ trace c, Closes trace [c] (visit trace c).1 (visit trace c).2.toList

/-- A loop of such visits loses no descriptor. -/
theorem pass_closes
    {visit : List Event → TcpSocketClient → List Event × Option TcpSocketClient}
    (hvisit : VisitCloses visit) (trace : List Event) (nodes : List TcpSocketClient) :
    Closes trace nodes (pass visit trace nodes).1 (pass visit trace nodes).2 := by
  refine pass_invariant (fun trace' nodes' => Closes trace nodes trace' nodes') trace nodes ?_
    (Closes.refl _ _)
  intro trace' done c todo _ hinv
  refine hinv.trans ?_
  obtain ⟨log, hlog, hcount⟩ := hvisit trace' c
  refine ⟨log, hlog, fun fd => ⟨(hcount fd).1, ?_⟩⟩
  have hfd := (hcount fd).2
  have hcons : countFd fd (c :: todo) = countFd fd [c] + countFd fd todo :=
    countFd_append fd [c] todo
  simp only [countFd_append, hcons]
  omega

theorem closeClient_closes (trace : List Event) (c : TcpSocketClient) :
    Closes trace [c] (closeClient trace c) [] := by
  refine ⟨_, rfl, fun fd => ⟨by simp, ?_⟩⟩
  by_cases hfd : c.socketFd = fd <;> simp [countFd, hfd]

/-- Logging what is neither accepted nor closed. -/
theorem Closes.log {c c' : TcpSocketClient} (hfd : c'.socketFd = c.socketFd)
    {events : List Event} (hevents : ∀ fd, Event.accept fd ∉ events ∧ Event.close fd ∉ events) :
    Closes trace [c] (trace ++ events) [c'] := by
  refine ⟨events, rfl, fun fd => ⟨(hevents fd).1, ?_⟩⟩
  rw [List.count_eq_zero_of_not_mem (hevents fd).2]
  simp [countFd, hfd]

theorem selectErrorVisit_closes : VisitCloses selectErrorVisit := by
  intro trace c
  rw [selectErrorVisit]
  split
  · exact closeClient_closes trace c
  · exact Closes.refl _ _

theorem clientEventVisit_closes (buff : Nat → UInt8) (r : Round) (sets : FdSets)
    (readfds writefds exceptfds : Int → Bool) :
    VisitCloses (clientEventVisit buff r sets readfds writefds exceptfds) := by
  intro trace c
  unfold clientEventVisit readVisit pendingVisit
  dsimp only
  split
  · exact closeClient_closes trace c
  split
  · split
    · exact closeClient_closes trace c
    split
    · exact Closes.log rfl (by simp)
    · exact Closes.refl _ _
  split
  · split
    · exact Closes.log rfl (by simp)
    · exact Closes.log rfl (by simp)
  · exact Closes.refl _ _

theorem autoSendVisit_closes (buff : Nat → UInt8) (sendSizePer : Nat) (r : Round) :
    VisitCloses (autoSendVisit buff sendSizePer r) := by
  intro trace c
  unfold autoSendVisit
  dsimp only
  split
  · split
    · exact (Closes.log rfl (by simp)).trans (closeClient_closes _ c)
    split
    · exact Closes.log rfl (by simp)
    · exact Closes.log rfl (by simp)
  · exact Closes.refl _ _

end Balance

/-! ## One turn -/

section Turn

variable {ctx : EtContextData} {r : Round} {σ : ServerState}

/-- The loop that starts new frames only closes. -/
theorem startFrames_closes (σ : ServerState) :
    Closes σ.trace σ.clients.nodes (σ.startFrames ctx r).trace
      (σ.startFrames ctx r).clients.nodes :=
  pass_closes (autoSendVisit_closes _ _ r) _ _

/-- The timer part of a turn only closes. -/
theorem serveTimer_closes {σ' : ServerState} (htimer : serveTimer ctx r σ = .ok σ') :
    Closes σ.trace σ.clients.nodes σ'.trace σ'.clients.nodes ∧ σ'.phase = σ.phase := by
  obtain ⟨σ'', hσ'', htimed⟩ := serveTimer_timed ctx r σ
  obtain rfl := Except.ok.inj (htimer.symm.trans hσ'')
  cases htimed with
  | notDue hdue => exact ⟨Closes.refl _ _, rfl⟩
  | off hdue hcycle => exact ⟨Closes.refl _ _, rfl⟩
  | busy hdue hcycle hbusy => exact ⟨startFrames_closes { σ with autoSendLasttm := r.clock.2 }, rfl⟩
  | frame hdue hcycle hidle =>
      let σ₁ := nextFrame { σ with autoSendLasttm := r.clock.2 }
      have hnumber : Closes σ.trace σ.clients.nodes σ₁.trace σ₁.clients.nodes :=
        ⟨_, rfl, fun fd => ⟨by simp, by simp [σ₁, nextFrame]⟩⟩
      exact ⟨hnumber.trans (startFrames_closes σ₁), rfl⟩

/-- Where nobody connects, the part of a turn before the timer only closes. -/
theorem serveReady_closes (hlisten : ¬ ListenReady r σ) :
    ∃ σ', serveReady r σ = .ok (σ', false) ∧
      Closes σ.trace σ.clients.nodes σ'.trace σ'.clients.nodes ∧ σ'.phase = σ.phase := by
  obtain ⟨result, hready, hselected⟩ := serveReady_selected r σ
  cases hselected with
  | quiet hselect => exact ⟨σ, hready, Closes.refl _ _, rfl⟩
  | selectError hselect => exact ⟨_, hready, pass_closes selectErrorVisit_closes _ _, rfl⟩
  | accept hselect haccept =>
      simp only [ListenReady, hselect] at hlisten
      exact absurd haccept hlisten
  | events hselect hnone =>
      exact ⟨_, hready, pass_closes (clientEventVisit_closes _ r _ _ _ _) _ _, rfl⟩

theorem serveReady_accepts (hlisten : ListenReady r σ) :
    serveReady r σ = .ok (acceptClient r σ) := by
  obtain ⟨result, hready, hselected⟩ := serveReady_selected r σ
  cases hselected with
  | quiet hselect =>
      rcases hselect with hselect | hselect <;> simp [ListenReady, hselect] at hlisten
  | selectError hselect => simp [ListenReady, hselect] at hlisten
  | accept hselect haccept => exact hready
  | events hselect hnone =>
      simp only [ListenReady, hselect] at hlisten
      rw [hnone] at hlisten
      contradiction

/-- A descriptor that was accepted but not put into the list is lost. -/
theorem not_balanced_of_lost {trace trace' events : List Event}
    {nodes nodes' : List TcpSocketClient} (fd : Int) (haccept : events.count (.accept fd) = 1)
    (hclose : Event.close fd ∉ events) (h : Closes (trace ++ events) nodes trace' nodes') :
    ¬ Balanced trace nodes trace' nodes' := by
  obtain ⟨log, rfl, hcount⟩ := h
  rintro ⟨log', hlog, hcount'⟩
  rw [List.append_assoc] at hlog
  obtain rfl := List.append_cancel_left hlog
  have h₁ := (hcount fd).2
  have h₂ := hcount' fd
  rw [List.count_append, List.count_append, haccept, List.count_eq_zero_of_not_mem hclose] at h₂
  omega

/-- Where nobody connects, descriptors are only closed. -/
theorem keepsDescriptors_of_idle (hinside : InsideFdSet σ) (hphase : σ.phase = .serving)
    (hstop : r.stop = false) (hlisten : ¬ ListenReady r σ) : KeepsDescriptors ctx σ r := by
  obtain ⟨σ₁, hready, hcloses, _⟩ := serveReady_closes (r := r) hlisten
  obtain ⟨hcloses', _⟩ := serveTimer_closes (serverStep_parts hphase hstop hready)
  refine fun _ _ => ⟨fun _ => ?_, ?_, ?_⟩
  · exact Balanced.closes (hcloses.trans hcloses') ⟨[], by simp, by simp⟩
  · intro σ' flag hready'
    rw [hready] at hready'
    obtain ⟨rfl, _⟩ := Prod.mk.inj (Except.ok.inj hready')
    exact hcloses.inside hinside
  · exact (hcloses.trans hcloses').inside hinside

/-- Where the accept branch ends the turn, its state is the next one. -/
theorem keepsDescriptors_continue_iff (hphase : σ.phase = .serving) (hstop : r.stop = false)
    (hlisten : ListenReady r σ) {σ₁ : ServerState} (haccept : acceptClient r σ = (σ₁, true))
    (hinside : InsideFdSet σ₁) :
    KeepsDescriptors ctx σ r ↔ (σ₁.phase ≠ .exited →
      Balanced σ.trace σ.clients.nodes σ₁.trace σ₁.clients.nodes) := by
  have hready := serveReady_accepts hlisten
  rw [haccept] at hready
  simp only [KeepsDescriptors, hphase, hstop, true_imp_iff]
  rw [serverStep_continue hphase hstop hready, hready]
  constructor
  · exact And.left
  · intro hbalanced
    refine ⟨hbalanced, ?_, hinside⟩
    rintro σ' flag ⟨⟩
    exact hinside

/-- Where both the descriptor and a record for it are there, it depends on `SL_Add`. -/
theorem keepsDescriptors_added_iff (hinside : InsideFdSet σ) (hphase : σ.phase = .serving)
    (hstop : r.stop = false) (hlisten : ListenReady r σ)
    (haccept : acceptClient r σ = ({ σ with
      clients := (slAdd σ.clients ⟨σ.records, r.connectfd, 0, 0⟩ r.mallocOk).2
      records := σ.records + 1
      trace := σ.trace ++ [.accept r.connectfd] ++ [.calloc σ.records] }, false)) :
    KeepsDescriptors ctx σ r ↔ r.mallocOk = true ∧ r.connectfd < fdSetsize := by
  have hready := serveReady_accepts hlisten
  rw [haccept] at hready
  obtain ⟨hcloses, hphase'⟩ := serveTimer_closes (serverStep_parts hphase hstop hready)
  rw [List.append_assoc] at hcloses
  simp only [KeepsDescriptors, hphase, hstop, true_imp_iff, hready, Except.ok.injEq]
  cases hmalloc : r.mallocOk with
  | false =>
      -- the return code of `SL_Add` is not looked at
      refine iff_of_false (fun h => ?_) (by simp)
      rw [slAdd, if_neg (by simp [hmalloc])] at hcloses
      refine not_balanced_of_lost r.connectfd (by simp) (by simp) hcloses (h.1 ?_)
      rw [hphase']
      simp [hphase]
  | true =>
      simp only [slAdd, hmalloc, if_true, slAddAfter_eq] at hcloses ⊢
      rw [true_and]
      constructor
      · rintro ⟨_, h, _⟩
        exact h _ _ rfl ⟨σ.records, r.connectfd, 0, 0⟩ (by simp)
      · intro hsmall
        have hinside' : ∀ c ∈ σ.clients.nodes ++ [⟨σ.records, r.connectfd, 0, 0⟩],
            c.socketFd < fdSetsize := by
          intro c hc
          rcases List.mem_append.mp hc with hc | hc
          · exact hinside c hc
          · rw [List.mem_singleton.mp hc]
            exact hsmall
        refine ⟨fun _ => Balanced.closes hcloses ⟨_, rfl, fun fd => ?_⟩, ?_, ?_⟩
        · by_cases heq : r.connectfd = fd <;> simp [countFd, heq]
        · rintro σ' flag ⟨⟩
          exact hinside'
        · exact Closes.inside (σ := { σ with
            clients := { σ.clients with nodes := _ }, trace := _ }) hcloses hinside'

/-- A turn keeps its descriptors exactly when what it accepts gets into the list
and is small enough. -/
theorem keepsDescriptors_iff (hinside : InsideFdSet σ) :
    KeepsDescriptors ctx σ r ↔ AcceptedInto σ r := by
  by_cases hserving : σ.phase = .serving ∧ r.stop = false
  swap
  · refine iff_of_true (fun hphase hstop => absurd ⟨hphase, hstop⟩ hserving) fun haccepts => ?_
    exact absurd ⟨haccepts.1, haccepts.2.1⟩ hserving
  obtain ⟨hphase, hstop⟩ := hserving
  simp only [AcceptedInto, Accepts, hphase, hstop, true_and]
  by_cases hlisten : ListenReady r σ
  swap
  · exact iff_of_true (keepsDescriptors_of_idle hinside hphase hstop hlisten)
      fun h => absurd h.1 hlisten
  by_cases hfd : r.connectfd < 0
  · have haccept : acceptClient r σ = (σ, true) := by simp [acceptClient, hfd]
    rw [keepsDescriptors_continue_iff hphase hstop hlisten haccept hinside]
    exact iff_of_true (fun _ => ⟨[], by simp, by simp⟩) fun h => absurd h.2.1 (by omega)
  have hfd' : 0 ≤ r.connectfd := Int.not_lt.mp hfd
  cases hfcntl : r.fcntlOk with
  | false =>
      have haccept : acceptClient r σ =
          ({ σ with phase := .exited, trace := σ.trace ++ [.accept r.connectfd] }, true) := by
        simp [acceptClient, hfd, hfcntl]
      rw [keepsDescriptors_continue_iff hphase hstop hlisten haccept hinside]
      exact iff_of_true (fun h => absurd rfl h) (by simp)
  | true =>
      cases hcalloc : r.callocOk with
      | false =>
          -- `continue` without a `close`
          have haccept : acceptClient r σ =
              ({ σ with trace := σ.trace ++ [.accept r.connectfd] }, true) := by
            simp [acceptClient, hfd, hfcntl, hcalloc]
          rw [keepsDescriptors_continue_iff hphase hstop hlisten haccept hinside]
          refine iff_of_false (fun h => ?_) (by simp [hlisten, hfd'])
          exact not_balanced_of_lost r.connectfd (by simp) (by simp) (Closes.refl _ _)
            (h (by simp [hphase]))
      | true =>
          have haccept : acceptClient r σ = ({ σ with
              clients := (slAdd σ.clients ⟨σ.records, r.connectfd, 0, 0⟩ r.mallocOk).2
              records := σ.records + 1
              trace := σ.trace ++ [.accept r.connectfd] ++ [.calloc σ.records] }, false) := by
            simp [acceptClient, hfd, hfcntl, hcalloc]
          rw [keepsDescriptors_added_iff hinside hphase hstop hlisten haccept]
          simp [hlisten, hfd']

end Turn

/-- Every turn of a run of the server keeps its descriptors, if and only if
every descriptor that is accepted gets into the list and is smaller than
`FD_SETSIZE`. -/
theorem descriptors_kept_iff (ctx : EtContextData) (copy : ServerCopy)
    (unset : Option TcpSocketClient) (now : Int) (setup : Setup) (rounds : List Round) :
    Runs.Steps (serverStep ctx) (KeepsDescriptors ctx) (startUp copy unset now setup) rounds ↔
    Runs.Steps (serverStep ctx) AcceptedInto (startUp copy unset now setup) rounds := by
  refine Runs.steps_congr InsideFdSet (fun σ r h => keepsDescriptors_iff h) ?_ ?_ rounds
  · intro σ r hinside hkeeps
    by_cases hserving : σ.phase = .serving ∧ r.stop = false
    · exact (hkeeps hserving.1 hserving.2).2.2
    · rcases serverStep_cases ctx σ r with ⟨_, hsame⟩ | ⟨_, _, hdown⟩ | ⟨hphase, hstop, _⟩
      · rwa [hsame]
      · rw [shutdown_eq] at hdown
        rw [← Except.ok.inj hdown]
        simp [InsideFdSet]
      · exact absurd ⟨hphase, hstop⟩ hserving
  · cases setup <;> simp [InsideFdSet, startUp]

/-- A client connects while `calloc` fails. -/
def callocFails : Round :=
  { Round.quiet with
    select := .ready (fun fd => fd == 3) (fun _ => false) (fun _ => false)
    connectfd := 5
    callocOk := false }

/-- Its descriptor is neither closed nor kept; and with all allocations in order
the descriptor 1024 gets into the list. -/
theorem descriptor_lost :
    let σ := startUp .tcpEchoServer none 0 (.listening 3)
    let σ' := serverStep ⟨0, 0⟩ σ callocFails
    let σ'' := serverStep ⟨0, 0⟩ σ { callocFails with connectfd := 1024, callocOk := true }
    σ'.phase = .serving ∧ σ'.trace = [.socket 3, .accept 5] ∧ σ'.clients.nodes = [] ∧
      ¬ KeepsDescriptors ⟨0, 0⟩ σ callocFails ∧
      σ''.clients.nodes.map TcpSocketClient.socketFd = [1024] ∧ ¬ InsideFdSet σ'' := by
  refine ⟨by decide, by decide, by decide, ?_, by decide, fun h => ?_⟩
  · rw [keepsDescriptors_iff (by simp [InsideFdSet, startUp])]
    decide
  · exact absurd (h ⟨0, 1024, 0, 0⟩ (by decide)) (by decide)

end CodingLearners.TcpServer
