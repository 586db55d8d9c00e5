import CodingLearners.TcpServer.Identity
import Mathlib.Data.List.TakeDrop

/-!
# The echo of the server without auto-send

With `local_server_auto_send_cycle = 0` the only bytes for a client are the
echoes of its own blocks. They are complete in every state of a run exactly
when every echo was accepted whole: what `send` leaves over is not remembered.
-/

namespace CodingLearners.TcpServer

open IndexedPass Relation

/-- The concatenation of the blocks that `tcp_recvn` returned for a client. -/
def blocksOf (record : Nat) (trace : List Event) : List UInt8 :=
  trace.flatMap fun
    | .recv record' block => if record' = record then block else []
    | _ => []

/-- The bytes handed to the kernel for a client, from whatever place in the loop. -/
def sentTo (record : Nat) (trace : List Event) : List UInt8 :=
  trace.flatMap fun
    | .send record' _ accepted => if record' = record then accepted else []
    | _ => []

/-- The bytes the server remembers as still to be sent to a client. -/
def stillPending (buff : Nat → UInt8) (c : TcpSocketClient) : List UInt8 :=
  bytesFrom buff c.needWritePtr c.needWriteSize.toNat

/-- Nothing a client has sent is lost or duplicated: the bytes handed over so
far and those remembered for later are its blocks in order. -/
def EchoComplete (buff : Nat → UInt8) (trace : List Event) (c : TcpSocketClient) : Prop :=
  sentTo c.record trace ++ stillPending buff c = blocksOf c.record trace

instance (buff : Nat → UInt8) (trace : List Event) (c : TcpSocketClient) :
    Decidable (EchoComplete buff trace c) :=
  inferInstanceAs (Decidable (_ = _))

/-- Every connected client has its echo. -/
def EchoFaithful (σ : ServerState) : Prop :=
  ∀ c ∈ σ.clients.nodes, EchoComplete σ.autoSendBuff σ.trace c

/-- The outcomes of `send` accept the whole block of the client, before the
first `EAGAIN`, zero or hard error. -/
def WholeBlockAccepted (r : Round) (c : TcpSocketClient) : Prop :=
  (tcpRecvn recvBuffLen (r.recv c.socketFd)).buff.length ≤ capacity (r.send c.socketFd)

/-- Every echo of the turn is accepted whole. -/
def EchoesAccepted (σ : ServerState) (r : Round) : Prop :=
  σ.phase = .serving → r.stop = false →
    ∀ c ∈ σ.clients.nodes, Echoes r σ c → WholeBlockAccepted r c

instance (σ : ServerState) (r : Round) : Decidable (EchoesAccepted σ r) := by
  unfold EchoesAccepted WholeBlockAccepted
  infer_instance

section Trace

variable (record : Nat) (trace : List Event)

@[simp] theorem blocksOf_append (events : List Event) :
    blocksOf record (trace ++ events) = blocksOf record trace ++ blocksOf record events :=
  List.flatMap_append

@[simp] theorem sentTo_append (events : List Event) :
    sentTo record (trace ++ events) = sentTo record trace ++ sentTo record events :=
  List.flatMap_append

/-- Actions that name no record, or another one, say nothing about a client. -/
theorem trace_silent {events : List Event}
    (h : ∀ e ∈ events, e.record? ≠ some record) :
    blocksOf record events = [] ∧ sentTo record events = [] := by
  constructor <;>
  · apply List.flatMap_eq_nil_iff.mpr
    intro e he
    have hne := h e he
    cases e <;> simp_all [Event.record?]

end Trace

/-- What is logged about other clients leaves the echo of a client as it is. -/
theorem EchoComplete.frame {buff : Nat → UInt8} {trace events : List Event}
    {c : TcpSocketClient} (h : ∀ e ∈ events, e.record? ≠ some c.record) :
    EchoComplete buff (trace ++ events) c ↔ EchoComplete buff trace c := by
  obtain ⟨hblocks, hsent⟩ := trace_silent c.record h
  simp only [EchoComplete, blocksOf_append, sentTo_append, hblocks, hsent, List.append_nil]

@[simp] theorem stillPending_idle {buff : Nat → UInt8} {c : TcpSocketClient}
    (h : c.needWriteSize = 0) : stillPending buff c = [] := by
  simp [stillPending, bytesFrom, h]

section Turn

variable {ctx : EtContextData} {r : Round} {σ σ₀ : ServerState}

theorem NoPending.step (hcycle : ctx.localServerAutoSendCycle = 0) (h : NoPending σ) :
    NoPending (serverStep ctx σ r) := by
  apply serverStep_forall_clients
  · intro record fd
    rfl
  · intro buff trace c hidle c' hc'
    rw [pendingVisit_idle hidle] at hc'
    obtain rfl := Option.some.inj hc'
    exact hidle
  · intro buff trace c hne
    exact absurd hcycle hne
  · exact h

/-! ## One turn -/

/-- Without auto-send a turn is what it does before the timer. -/
theorem serverStep_of_ready (hcycle : ctx.localServerAutoSendCycle = 0)
    (hphase : σ.phase = .serving) (hstop : r.stop = false) {σ' : ServerState} {flag : Bool}
    (hready : serveReady r σ = .ok (σ', flag)) :
    (serverStep ctx σ r).clients = σ'.clients ∧ (serverStep ctx σ r).trace = σ'.trace ∧
      (serverStep ctx σ r).autoSendBuff = σ'.autoSendBuff := by
  cases flag with
  | true => simp [serverStep_continue hphase hstop hready]
  | false =>
      obtain ⟨σ'', hσ'', htimed⟩ := serveTimer_timed ctx r σ'
      rw [Except.ok.inj ((serverStep_parts hphase hstop hready).symm.trans hσ'')]
      cases htimed with
      | notDue hdue => exact ⟨rfl, rfl, rfl⟩
      | off hdue hcycle => exact ⟨rfl, rfl, rfl⟩
      | busy hdue hon hbusy => exact absurd hcycle hon
      | frame hdue hon hidle => exact absurd hcycle hon

/-- The visit of a client decides about its echo exactly as the outcomes of
`send` accept its block. -/
theorem clientEventVisit_echo {readfds writefds exceptfds : Int → Bool} (buff : Nat → UInt8)
    (hselect : r.select = .ready readfds writefds exceptfds)
    (hlisten : fdIsset (fdSets σ).readfds readfds σ.listenfd = false)
    {c : TcpSocketClient} (hidle : c.needWriteSize = 0) {trace : List Event}
    (hok : EchoComplete buff trace c) :
    (∀ c', (clientEventVisit buff r (fdSets σ) readfds writefds exceptfds trace c).2 = some c' →
      EchoComplete buff
        (clientEventVisit buff r (fdSets σ) readfds writefds exceptfds trace c).1 c') ↔
    (Echoes r σ c → WholeBlockAccepted r c) := by
  have hechoes : Echoes r σ c ↔ c.socketFd > 0 ∧
      fdIsset (fdSets σ).exceptfds exceptfds c.socketFd = false ∧
      fdIsset (fdSets σ).readfds readfds c.socketFd = true ∧
      0 < (tcpRecvn recvBuffLen (r.recv c.socketFd)).ret := by
    simp only [Echoes, Served, hselect, hlisten, true_and]
  rw [hechoes]
  unfold clientEventVisit
  dsimp only
  by_cases hexcept : c.socketFd > 0 ∧ fdIsset (fdSets σ).exceptfds exceptfds c.socketFd = true
  · simp only [hexcept, and_self, if_true]
    simp
  rw [if_neg hexcept]
  by_cases hread : c.socketFd > 0 ∧ fdIsset (fdSets σ).readfds readfds c.socketFd = true
  · have hexcept' : fdIsset (fdSets σ).exceptfds exceptfds c.socketFd = false := by
      simpa [hread.1] using hexcept
    rw [if_pos hread]
    simp only [hread.1, hread.2, hexcept', true_and]
    rw [readVisit]
    dsimp only
    split
    · next herr => simp [show ¬ 0 < (tcpRecvn recvBuffLen (r.recv c.socketFd)).ret by omega]
    split
    · next hgot =>
        -- the block and its echo are logged; nothing is remembered of the rest
        have hsent : sentTo c.record trace = blocksOf c.record trace := by
          simpa [EchoComplete, hidle] using hok
        simp only [hgot, true_imp_iff, WholeBlockAccepted, Option.some.injEq, forall_eq',
          EchoComplete, stillPending_idle hidle, List.append_nil, sentTo_append,
          blocksOf_append, hsent, tcpSendn_accepted]
        simp [sentTo, blocksOf]
    · next hnot => simpa [hnot] using hok
  rw [if_neg hread]
  have hno : ¬ (c.socketFd > 0 ∧ fdIsset (fdSets σ).exceptfds exceptfds c.socketFd = false ∧
      fdIsset (fdSets σ).readfds readfds c.socketFd = true ∧
      0 < (tcpRecvn recvBuffLen (r.recv c.socketFd)).ret) := fun h => hread ⟨h.1, h.2.2.1⟩
  simp only [hno, false_imp_iff, iff_true]
  split
  · rw [pendingVisit_idle hidle]
    simpa [EchoComplete, sentTo, blocksOf] using hok
  · simpa using hok

/-- A visit is about the visited client only. -/
theorem clientEventVisit_frame (buff : Nat → UInt8) (sets : FdSets)
    (readfds writefds exceptfds : Int → Bool) (trace : List Event)
    (c d : TcpSocketClient) (hne : d.record ≠ c.record) :
    EchoComplete buff (clientEventVisit buff r sets readfds writefds exceptfds trace c).1 d ↔
      EchoComplete buff trace d := by
  have hne' : c.record ≠ d.record := Ne.symm hne
  rw [clientEventVisit, readVisit, pendingVisit, closeClient]
  dsimp only
  split
  · exact EchoComplete.frame (by simp [Event.record?, hne'])
  split
  · split
    · exact EchoComplete.frame (by simp [Event.record?, hne'])
    split
    · exact EchoComplete.frame (by simp [Event.record?, hne'])
    · rfl
  split
  · exact EchoComplete.frame (by simp [Event.record?, hne'])
  · rfl

theorem clientEventVisit_record (buff : Nat → UInt8) (sets : FdSets)
    (readfds writefds exceptfds : Int → Bool) (trace : List Event) (c c' : TcpSocketClient)
    (h : (clientEventVisit buff r sets readfds writefds exceptfds trace c).2 = some c') :
    c'.record = c.record := by
  unfold clientEventVisit readVisit at h
  dsimp only at h
  split at h
  · cases h
  split at h
  · split at h
    · cases h
    split at h <;> obtain rfl := Option.some.inj h <;> rfl
  split at h
  · exact (pendingVisit_record h).1
  · obtain rfl := Option.some.inj h
    rfl

/-- Closing clients keeps the echo of all others. -/
theorem selectErrorVisit_echo (hgood : EchoFaithful σ) :
    ∀ c ∈ (pass selectErrorVisit σ.trace σ.clients.nodes).2,
      EchoComplete σ.autoSendBuff (pass selectErrorVisit σ.trace σ.clients.nodes).1 c := by
  refine pass_invariant (fun trace nodes => ∀ c ∈ nodes, EchoComplete σ.autoSendBuff trace c)
    σ.trace σ.clients.nodes ?_ hgood
  intro trace done c todo _ hall d hd
  unfold selectErrorVisit at hd ⊢
  by_cases hfd : c.socketFd > 0
  · rw [if_pos hfd] at hd ⊢
    have hmem : d ∈ done ++ c :: todo := by
      cases List.mem_append.mp hd with
      | inl hd => simp [hd]
      | inr hd => simp [show d ∈ todo by simpa using hd]
    simpa [closeClient, EchoComplete, blocksOf, sentTo] using hall d hmem
  · rw [if_neg hfd] at hd ⊢
    exact hall d (by simpa using hd)

/-- A client that has just been accepted has its echo: nothing was received. -/
theorem acceptClient_echo (hid : Identified σ) (hgood : EchoFaithful σ) :
    EchoFaithful (acceptClient r σ).1 := by
  obtain ⟨phase, records, joined, events, hgrown, hjoined, hevents⟩ := acceptClient_grows r σ
  rw [hgrown]
  have hquiet : ∀ record, blocksOf record events = [] ∧ sentTo record events = [] := by
    intro record
    constructor <;>
    · apply List.flatMap_eq_nil_iff.mpr
      intro e he
      rcases hevents e he with rfl | rfl <;> rfl
  intro c hc
  change EchoComplete σ.autoSendBuff (σ.trace ++ events) c
  rw [EchoComplete, sentTo_append, blocksOf_append, (hquiet _).1, (hquiet _).2, List.append_nil,
    List.append_nil]
  cases List.mem_append.mp hc with
  | inl hc => exact hgood c hc
  | inr hc =>
      obtain rfl := hjoined c hc
      obtain ⟨hblocks, hsent⟩ := trace_silent σ.records hid.fresh
      rw [hblocks, hsent]
      rfl

/-- The echoes after a turn are those of the state before the timer. -/
theorem echoFaithful_of_ready (hcycle : ctx.localServerAutoSendCycle = 0)
    (hphase : σ.phase = .serving) (hstop : r.stop = false) {σ' : ServerState} {flag : Bool}
    (hready : serveReady r σ = .ok (σ', flag)) :
    EchoFaithful (serverStep ctx σ r) ↔ EchoFaithful σ' := by
  obtain ⟨hclients, htrace, hbuff⟩ := serverStep_of_ready hcycle hphase hstop hready
  simp only [EchoFaithful, hclients, htrace, hbuff]

/-- A turn in which nothing is echoed has nothing to accept. -/
theorem echoesAccepted_of_none (h : ∀ c, ¬ Echoes r σ c) : EchoesAccepted σ r :=
  fun _ _ c _ hc => absurd hc (h c)

/-- One step keeps every echo complete exactly when its echoes are accepted. -/
theorem echoFaithful_step (hcycle : ctx.localServerAutoSendCycle = 0) (hid : Identified σ)
    (hidle : NoPending σ) (hgood : EchoFaithful σ) :
    EchoFaithful (serverStep ctx σ r) ↔ EchoesAccepted σ r := by
  by_cases hphase : σ.phase = .serving
  swap
  · have hsame : serverStep ctx σ r = σ := by
      rw [serverStep]
      split
      · contradiction
      · rfl
    rw [hsame]
    exact ⟨fun _ h => absurd h hphase, fun _ => hgood⟩
  cases hstop : r.stop with
  | true =>
      have hdown : EchoFaithful (serverStep ctx σ r) := by
        simp [serverStep, hphase, hstop, shutdown_eq, EchoFaithful]
      exact ⟨fun _ _ h => absurd h (by simp [hstop]), fun _ => hdown⟩
  | false =>
      obtain ⟨result, hready, hselected⟩ := serveReady_selected r σ
      rw [echoFaithful_of_ready hcycle hphase hstop hready]
      cases hselected with
      | quiet hselect =>
          have haccepted : EchoesAccepted σ r := echoesAccepted_of_none (by
            rcases hselect with hselect | hselect <;> simp [Echoes, hselect])
          exact ⟨fun _ => haccepted, fun _ => hgood⟩
      | selectError hselect =>
          have haccepted : EchoesAccepted σ r := echoesAccepted_of_none (by simp [Echoes, hselect])
          exact ⟨fun _ => haccepted, fun _ => selectErrorVisit_echo hgood⟩
      | accept hselect hlisten =>
          have haccepted : EchoesAccepted σ r :=
            echoesAccepted_of_none (by simp [Echoes, Served, hselect, hlisten])
          exact ⟨fun _ => haccepted, fun _ => acceptClient_echo hid hgood⟩
      | @events readfds writefds exceptfds hselect hlisten =>
          have hexact := pass_forall_iff TcpSocketClient.record
            (EchoComplete σ.autoSendBuff) (fun c => Echoes r σ c → WholeBlockAccepted r c)
            σ.trace σ.clients.nodes
            (clientEventVisit_record σ.autoSendBuff (fdSets σ) readfds writefds exceptfds)
            (clientEventVisit_frame σ.autoSendBuff (fdSets σ) readfds writefds exceptfds)
            (fun c hc trace hok =>
              clientEventVisit_echo σ.autoSendBuff hselect hlisten (hidle c hc) hok)
            hid.nodup hgood
          exact hexact.trans ⟨fun h _ _ => h, fun h => h hphase hstop⟩

end Turn

/-- In a run without auto-send, every client that is connected has received, or
is remembered to be still owed, exactly its own blocks in every state of the
run, if and only if the outcomes of `send` accept every echo whole. -/
theorem echo_faithful_iff (ctx : EtContextData) (hcycle : ctx.localServerAutoSendCycle = 0)
    (copy : ServerCopy) (unset : Option TcpSocketClient) (now : Int) (setup : Setup)
    (rounds : List Round) :
    (∀ first, first <+: rounds →
      EchoFaithful (startSvrThread ctx (startUp copy unset now setup) first)) ↔
    Runs.Steps (serverStep ctx) EchoesAccepted (startUp copy unset now setup) rounds := by
  refine Runs.always_iff_steps (fun σ => Identified σ ∧ NoPending σ)
    (fun σ r h => ⟨h.1.step, h.2.step hcycle⟩)
    (fun σ r h hgood => echoFaithful_step hcycle h.1 h.2 hgood) ?_ ?_ rounds
  · refine ⟨startUp_identified copy unset now setup, ?_⟩
    cases setup <;> simp [NoPending, startUp]
  · cases setup <;> simp [EchoFaithful, startUp]

/-- The server without auto-send. -/
def echoOnly : EtContextData := ⟨0, 1024⟩

/-- A client connects; of its first block `send` takes one byte of two and then
would block; its second block is echoed whole. -/
def shortEcho : List Round :=
  [{ Round.quiet with
      select := .ready (fun fd => fd == 3) (fun _ => false) (fun _ => false)
      connectfd := 5 },
    { Round.quiet with
      select := .ready (fun fd => fd == 5) (fun _ => false) (fun _ => false)
      recv := fun _ => [.data [97, 98], .eagain]
      send := fun _ => [.sent 1, .eagain] },
    { Round.quiet with
      select := .ready (fun fd => fd == 5) (fun _ => false) (fun _ => false)
      recv := fun _ => [.data [99, 100], .eagain]
      send := fun _ => [.sent 2] }]

/-- The client stays connected and is sent `acd` for `abcd`. -/
theorem echo_loses_rest :
    let σ := startSvrThread echoOnly (startUp .tcpEchoServer none 0 (.listening 3)) shortEcho
    σ.clients.nodes = [⟨0, 5, 0, 0⟩] ∧ sentTo 0 σ.trace = [97, 99, 100] ∧
      blocksOf 0 σ.trace = [97, 98, 99, 100] ∧ ¬ EchoFaithful σ := by
  refine ⟨by decide, by decide, by decide, ?_⟩
  intro h
  exact absurd (h ⟨0, 5, 0, 0⟩ (by decide)) (by decide)

/-- The same run up to its last round, with the second copy of the server: the
first short echo already is a step that does not meet the condition. -/
theorem echo_faithful_iff_shortEcho :
    ¬ ∀ first, first <+: shortEcho → EchoFaithful
      (startSvrThread echoOnly (startUp .tcpServerTstUltrasonic none 0 (.listening 3)) first) :=
  fun h => absurd ((echo_faithful_iff echoOnly rfl _ none 0 (.listening 3) shortEcho).mp h)
    (by decide)

end CodingLearners.TcpServer
