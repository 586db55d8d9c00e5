import CodingLearners.TcpServer.Interleaving

/-!
# Sessions of the server

What the trace says about one record is a session: the allocation, then blocks that are
received, each with the echo of a front part of it, and the frames of the auto-send; last of
all the record is freed. So nothing is received for, or sent to, a client that has been
closed, and no client is echoed what another has sent, in whatever order the clients come
and go.
-/

namespace CodingLearners.TcpServer

open IndexedPass Relation

/-- What the server does with a client that it has in its list. -/
inductive Exchange
  | echo (block : List UInt8) (accepted : Nat)
  | pending (bytes : List UInt8)
  | autoSend (bytes : List UInt8)

def Exchange.events (record : Nat) : Exchange → List Event
  | echo block accepted => [.recv record block, .send record .echo (block.take accepted)]
  | pending bytes => [.send record .pending bytes]
  | autoSend bytes => [.send record .autoSend bytes]

/-- Without auto-send there are no frames, and no rests of frames. -/
def Exchange.Allowed (ctx : EtContextData) : Exchange → Prop
  | echo _ _ => True
  | pending bytes => ctx.localServerAutoSendCycle = 0 → bytes = []
  | autoSend _ => ctx.localServerAutoSendCycle ≠ 0

/-- The events about a record. -/
def eventsOf (record : Nat) (trace : List Event) : List Event :=
  trace.filter fun e => e.record? = some record

def session (record : Nat) (exchanges : List Exchange) : List Event :=
  .calloc record :: exchanges.flatMap (Exchange.events record)

/-- The events about a record are a session, with the free at its end only if the client
has left the list. -/
def InSession (ctx : EtContextData) (nodes : List TcpSocketClient) (trace : List Event)
    (record : Nat) : Prop :=
  ∃ exchanges : List Exchange, (∀ x ∈ exchanges, x.Allowed ctx) ∧
    (eventsOf record trace = session record exchanges ∨
      eventsOf record trace = session record exchanges ++ [.free record] ∧
        record ∉ nodes.map TcpSocketClient.record)

/-- Every record that was allocated has its session. -/
def Sessions (ctx : EtContextData) (σ : ServerState) : Prop :=
  ∀ record < σ.records, InSession ctx σ.clients.nodes σ.trace record

variable {ctx : EtContextData} {r : Round} {σ₀ σ : ServerState} {record : Nat}
  {nodes nodes' : List TcpSocketClient} {trace events : List Event}

/-! ## One record -/

theorem eventsOf_append (record : Nat) (trace events : List Event) :
    eventsOf record (trace ++ events) = eventsOf record trace ++ eventsOf record events :=
  List.filter_append ..

theorem eventsOf_other (h : ∀ e ∈ events, e.record? ≠ some record) :
    eventsOf record events = [] := by
  rw [eventsOf, List.filter_eq_nil_iff]
  simpa using h

theorem eventsOf_events (record : Nat) (x : Exchange) :
    eventsOf record (x.events record) = x.events record := by
  cases x <;> simp [eventsOf, Exchange.events, Event.record?]

theorem session_concat (record : Nat) (exchanges : List Exchange) (x : Exchange) :
    session record (exchanges ++ [x]) = session record exchanges ++ x.events record := by
  simp [session]

/-- Events about others say nothing about a record, also when clients leave the list. -/
theorem InSession.frame (h : InSession ctx nodes trace record)
    (hother : ∀ e ∈ events, e.record? ≠ some record)
    (hnodes : record ∈ nodes'.map TcpSocketClient.record →
      record ∈ nodes.map TcpSocketClient.record) :
    InSession ctx nodes' (trace ++ events) record := by
  obtain ⟨exchanges, hallowed, h⟩ := h
  refine ⟨exchanges, hallowed, ?_⟩
  rw [eventsOf_append, eventsOf_other hother, List.append_nil]
  exact h.imp_right (And.imp_right (mt hnodes))

section Member

variable (h : InSession ctx nodes trace record)
  (hmem : record ∈ nodes.map TcpSocketClient.record)

include h hmem

/-- A client of the list goes on with its session. -/
theorem InSession.exchange (nodes' : List TcpSocketClient) {x : Exchange} (hx : x.Allowed ctx) :
    InSession ctx nodes' (trace ++ x.events record) record := by
  obtain ⟨exchanges, hallowed, htrace | ⟨-, hgone⟩⟩ := h
  · refine ⟨exchanges ++ [x], ?_, Or.inl ?_⟩
    · simpa [or_imp, forall_and] using ⟨hallowed, hx⟩
    · rw [eventsOf_append, eventsOf_events, htrace, session_concat]
  · exact absurd hmem hgone

/-- A client of the list is closed and freed, once. -/
theorem InSession.leave (nodes' : List TcpSocketClient) (fd : Int)
    (hgone : record ∉ nodes'.map TcpSocketClient.record) :
    InSession ctx nodes' (trace ++ [.close fd, .free record]) record := by
  obtain ⟨exchanges, hallowed, htrace | ⟨-, hgone'⟩⟩ := h
  · refine ⟨exchanges, hallowed, Or.inr ⟨?_, hgone⟩⟩
    rw [eventsOf_append, htrace]
    simp [eventsOf, Event.record?]
  · exact absurd hmem hgone'

end Member

/-! ## All records -/

/-- A visit keeps the sessions of the clients that are not visited. -/
theorem Sessions.visited (h : Sessions ctx σ) {done todo : List TcpSocketClient}
    {c : TcpSocketClient} (hnodes : σ.clients.nodes = done ++ c :: todo)
    (kept : Option TcpSocketClient) (hkept : ∀ d ∈ kept, d.record = c.record)
    (hevents : ∀ e ∈ events, ∀ record, e.record? = some record → record = c.record)
    (hown : InSession ctx (done ++ (kept.toList ++ todo)) (σ.trace ++ events) c.record) :
    Sessions ctx (σ.put (done ++ (kept.toList ++ todo)) (σ.trace ++ events)) := by
  intro record hrecord
  by_cases heq : record = c.record
  · rw [heq]
    exact hown
  · apply (h record hrecord).frame
    · exact fun e he hrec => heq (hevents e he record hrec)
    · rw [hnodes, put_nodes]
      simp only [List.map_append, List.map_cons, List.mem_append, List.mem_cons]
      rintro (hdone | hvisited | htodo)
      · exact Or.inl hdone
      · obtain ⟨d, hd, hrec⟩ := List.mem_map.mp hvisited
        exact absurd (hrec ▸ hkept d (Option.mem_toList.mp hd)) heq
      · exact Or.inr (Or.inr htodo)

/-- Taking a client in begins its session, if its record was allocated. -/
theorem Sessions.accept (hid : Identified σ) (h : Sessions ctx σ) :
    Sessions ctx (acceptClient r σ).1 := by
  have hother : ∀ record, ∀ e ∈ [Event.accept r.connectfd], e.record? ≠ some record := by
    simp [Event.record?]
  rcases acceptClient_cases r σ with hsame | ⟨phase, _, hlog⟩ | ⟨joined, hjoined, hnew⟩
  · rwa [hsame]
  · rw [hlog]
    exact fun record hrecord => (h record hrecord).frame (hother record) id
  · rw [hnew]
    intro record hrecord
    by_cases hfresh : record = σ.records
    · refine ⟨[], by simp, Or.inl ?_⟩
      change eventsOf record (σ.trace ++ [.accept r.connectfd, .calloc σ.records]) = _
      rw [hfresh, eventsOf_append, eventsOf_other hid.fresh]
      simp [eventsOf, Event.record?, session]
    · have hold : record < σ.records := Nat.lt_of_le_of_ne (Nat.le_of_lt_succ hrecord) hfresh
      apply (h record hold).frame
      · simpa [Event.record?] using Ne.symm hfresh
      · intro hmem
        change record ∈ (σ.clients.nodes ++ joined).map _ at hmem
        rw [List.map_append, List.mem_append] at hmem
        rcases hmem with hmem | hmem
        · exact hmem
        · rcases hjoined with rfl | ⟨rfl, _⟩
          · exact absurd (List.mem_singleton.mp hmem) hfresh
          · simp at hmem

theorem record_mem {done todo : List TcpSocketClient} {c : TcpSocketClient}
    (hnodes : σ.clients.nodes = done ++ c :: todo) :
    c.record ∈ σ.clients.nodes.map TcpSocketClient.record := by
  rw [hnodes]
  simp

/-- A client that is not kept has left the list. -/
theorem Identified.left (hid : Identified σ) {done todo : List TcpSocketClient}
    {c : TcpSocketClient} (hnodes : σ.clients.nodes = done ++ c :: todo) :
    c.record ∉ (done ++ todo).map TcpSocketClient.record := by
  intro hmem
  obtain ⟨d, hd, heq⟩ := List.mem_map.mp hmem
  exact hid.distinct hnodes (List.mem_append.mp hd) heq

/-- The loop that starts new frames goes on with the session of the client, or ends it. -/
theorem Sessions.frame (h : Sessions ctx σ) (hid : Identified σ)
    {done todo : List TcpSocketClient} {c : TcpSocketClient}
    (hnodes : σ.clients.nodes = done ++ c :: todo)
    (hcycle : ctx.localServerAutoSendCycle ≠ 0) (hidle : c.needWriteSize = 0) (size : Nat) :
    Sessions ctx (σ.put
      (done ++ ((autoSendVisit σ.autoSendBuff size r σ.trace c).2.toList ++ todo))
      (autoSendVisit σ.autoSendBuff size r σ.trace c).1) := by
  have hmem := record_mem hnodes
  have hown := h c.record (hid.mem hnodes)
  simp only [autoSendVisit, hidle, if_true]
  have hsent : ∀ nodes', InSession ctx nodes' (σ.trace ++ [.send c.record .autoSend
      (tcpSendn (bytesFrom σ.autoSendBuff 0 size) (r.autoSend c.socketFd)).accepted])
      c.record := fun nodes' =>
    hown.exchange hmem nodes' (x := .autoSend _) hcycle
  split
  · rw [closeClient, List.append_assoc]
    apply h.visited hnodes none (by simp) (by simp [Event.record?])
    have hclosed := (hsent σ.clients.nodes).leave hmem (done ++ todo) c.socketFd (hid.left hnodes)
    rwa [List.append_assoc] at hclosed
  · split
    · exact h.visited hnodes (some _) (by simp) (by simp [Event.record?]) (hsent _)
    · exact h.visited hnodes (some c) (by simp) (by simp [Event.record?]) (hsent _)

theorem NoPending.act (hcycle : ctx.localServerAutoSendCycle = 0) (h₀ : NoPending σ₀)
    {σ σ' : ServerState} (hact : Act ctx r σ₀ σ σ') (h : NoPending σ) : NoPending σ' := by
  apply hact.forall_clients _ _ _ h₀ h
  · intro record fd
    rfl
  · intro buff trace c hidle c' hc'
    rw [pendingVisit_idle hidle] at hc'
    obtain rfl := Option.some.inj hc'
    exact hidle
  · exact fun _ _ _ hne => absurd hcycle hne

/-- Every act of a turn keeps the sessions. -/
theorem Sessions.act (hid₀ : Identified σ₀) (h₀ : Sessions ctx σ₀) {σ σ' : ServerState}
    (hact : Act ctx r σ₀ σ σ') (hid : Identified σ)
    (hquiet : ctx.localServerAutoSendCycle = 0 → NoPending σ) (h : Sessions ctx σ) :
    Sessions ctx σ' := by
  cases hact with
  | accept => exact h₀.accept hid₀
  | @drop _ done c todo hnodes =>
      apply h.visited hnodes none (by simp) (by simp [Event.record?])
      exact (h c.record (hid.mem hnodes)).leave (record_mem hnodes) _ _ (hid.left hnodes)
  | @echo _ done c todo hnodes hmem hechoes =>
      rw [tcpSendn_accepted]
      apply h.visited hnodes (some c) (by simp) (by simp [Event.record?])
      exact (h c.record (hid.mem hnodes)).exchange (record_mem hnodes) _ (x := .echo _ _) trivial
  | @pending _ done c todo hnodes hwrites =>
      apply h.visited hnodes _ (fun d hd => (pendingVisit_record hd).1) (by simp [Event.record?])
      apply (h c.record (hid.mem hnodes)).exchange (record_mem hnodes) _ (x := .pending _)
      intro hcycle
      have hidle : c.needWriteSize = 0 := hquiet hcycle c (by rw [hnodes]; simp)
      simp [tcpSendn_accepted, bytesFrom, hidle]
  | timer t => exact h
  | rewrite _ => exact fun record hrecord => (h record hrecord).frame (by simp [Event.record?]) id
  | frame hnodes hcycle _ hidle => exact h.frame hid hnodes hcycle hidle _

/-- What follows the main loop ends the session of every client that is left. -/
theorem Sessions.shutdown (hid : Identified σ) (h : Sessions ctx σ) (hrecord : record < σ.records) :
    InSession ctx [] (σ.trace ++ .close σ.listenfd ::
      σ.clients.nodes.flatMap fun c => [.close c.socketFd, .free c.record]) record := by
  have hown := h record hrecord
  have hothers : ∀ nodes : List TcpSocketClient, (∀ d ∈ nodes, d.record ≠ record) →
      ∀ e ∈ nodes.flatMap (fun c => [Event.close c.socketFd, Event.free c.record]),
        e.record? ≠ some record := by
    intro nodes hne e he
    obtain ⟨d, hd, he⟩ := List.mem_flatMap.mp he
    simp only [List.mem_cons, List.not_mem_nil, or_false] at he
    rcases he with rfl | rfl
    · simp [Event.record?]
    · simpa [Event.record?] using hne d hd
  by_cases hmem : record ∈ σ.clients.nodes.map TcpSocketClient.record
  · obtain ⟨c, hc, rfl⟩ := List.mem_map.mp hmem
    obtain ⟨done, todo, hnodes⟩ := List.append_of_mem hc
    have hbefore : InSession ctx σ.clients.nodes (σ.trace ++ .close σ.listenfd ::
        done.flatMap fun c => [.close c.socketFd, .free c.record]) c.record := by
      apply hown.frame _ id
      rw [List.forall_mem_cons]
      exact ⟨by simp [Event.record?],
        hothers done fun d hd => hid.distinct hnodes (Or.inl hd)⟩
    have hclosed := hbefore.leave hmem [] c.socketFd (by simp)
    have hafter : InSession ctx [] _ c.record := hclosed.frame
      (hothers todo fun d hd => hid.distinct hnodes (Or.inr hd)) id
    rw [hnodes]
    simpa using hafter
  · apply hown.frame _ (by simp)
    rw [List.forall_mem_cons]
    refine ⟨by simp [Event.record?], hothers _ fun d hd heq => ?_⟩
    exact hmem (List.mem_map.mpr ⟨d, hd, heq⟩)

/-- What is known of the server at a loop head. -/
structure AtHead (ctx : EtContextData) (σ : ServerState) : Prop where
  identified : Identified σ
  quiet : ctx.localServerAutoSendCycle = 0 → NoPending σ
  sessions : Sessions ctx σ

theorem AtHead.step (h : AtHead ctx σ) : AtHead ctx (serverStep ctx σ r) := by
  refine ⟨h.identified.step, fun hcycle => (h.quiet hcycle).step hcycle, ?_⟩
  rcases serverStep_cases ctx σ r with ⟨_, hsame⟩ | ⟨_, _, hdown⟩ | ⟨_, _, hacts⟩
  · rw [hsame]
    exact h.sessions
  · rw [shutdown_eq] at hdown
    rw [← Except.ok.inj hdown]
    exact fun record hrecord => h.sessions.shutdown h.identified hrecord
  · refine (acts_invariant (fun σ₁ σ₂ hact (h₁ : AtHead ctx σ₁) => ?_) hacts h).sessions
    exact {
      identified := h.identified.act hact h₁.identified
      quiet := fun hcycle => (h.quiet hcycle).act hcycle hact (h₁.quiet hcycle)
      sessions := h.sessions.act h.identified hact h₁.identified h₁.quiet h₁.sessions }

/-! ## The bytes of a session -/

theorem flatMap_eventsOf {f : Event → List UInt8}
    (h : ∀ e, e.record? ≠ some record → f e = []) (trace : List Event) :
    (eventsOf record trace).flatMap f = trace.flatMap f := by
  induction trace with
  | nil => rfl
  | cons e trace ih =>
      rw [eventsOf, List.filter_cons, List.flatMap_cons, ← ih]
      by_cases hrec : e.record? = some record
      · rw [if_pos (by simpa using hrec), List.flatMap_cons, eventsOf]
      · rw [if_neg (by simpa using hrec), h e hrec, List.nil_append, eventsOf]

/-- The bytes of a client are those of the events about its record. -/
theorem bytes_eventsOf (record : Nat) (trace : List Event) :
    echoedTo record (eventsOf record trace) = echoedTo record trace ∧
      blocksOf record (eventsOf record trace) = blocksOf record trace ∧
      sentTo record (eventsOf record trace) = sentTo record trace := by
  refine ⟨flatMap_eventsOf (fun e he => ?_) trace, flatMap_eventsOf (fun e he => ?_) trace,
    flatMap_eventsOf (fun e he => ?_) trace⟩
  · cases e with
    | send record' site accepted =>
        have hne : record' ≠ record := fun heq => he (congrArg some heq)
        cases site <;> simp [hne]
    | _ => rfl
  · cases e with
    | recv record' block => exact if_neg fun heq => he (congrArg some heq)
    | _ => rfl
  · cases e with
    | send record' site accepted => exact if_neg fun heq => he (congrArg some heq)
    | _ => rfl

/-- Of every block a front part is echoed. -/
theorem echoed_sublist (record : Nat) (exchanges : List Exchange) :
    (echoedTo record (session record exchanges)).Sublist
      (blocksOf record (session record exchanges)) := by
  induction exchanges using List.reverseRecOn with
  | nil => exact List.Sublist.slnil
  | append_singleton exchanges x ih =>
      rw [session_concat, echoedTo_append, blocksOf_append]
      apply ih.append
      cases x with
      | echo block accepted =>
          simpa [Exchange.events, echoedTo, blocksOf] using List.take_sublist accepted block
      | pending bytes => simp [Exchange.events, echoedTo, blocksOf]
      | autoSend bytes => simp [Exchange.events, echoedTo, blocksOf]

/-- Without auto-send a session has nothing but echoes. -/
theorem sent_eq_echoed (hcycle : ctx.localServerAutoSendCycle = 0) {exchanges : List Exchange}
    (hallowed : ∀ x ∈ exchanges, x.Allowed ctx) :
    sentTo record (session record exchanges) = echoedTo record (session record exchanges) := by
  induction exchanges using List.reverseRecOn with
  | nil => rfl
  | append_singleton exchanges x ih =>
      rw [session_concat, sentTo_append, echoedTo_append,
        ih fun y hy => hallowed y (List.mem_append_left _ hy)]
      congr 1
      have hx := hallowed x (by simp)
      cases x with
      | echo block accepted => simp [Exchange.events, echoedTo, sentTo]
      | pending bytes => simp [Exchange.events, echoedTo, sentTo, hx hcycle]
      | autoSend bytes => exact absurd hcycle hx

/-- In every state of a run the events about a record are one session, which the server does
not take up again once it has freed the record. What the client was echoed is, block by block,
the front of what it has sent itself, and without auto-send it is sent nothing else. -/
theorem client_isolated (ctx : EtContextData) (copy : ServerCopy)
    (unset : Option TcpSocketClient) (now : Int) (setup : Setup) (rounds : List Round)
    (record : Nat) :
    let σ := startSvrThread ctx (startUp copy unset now setup) rounds
    (eventsOf record σ.trace = [] ∨ InSession ctx σ.clients.nodes σ.trace record) ∧
      (echoedTo record σ.trace).Sublist (blocksOf record σ.trace) ∧
      (ctx.localServerAutoSendCycle = 0 →
        sentTo record σ.trace = echoedTo record σ.trace) := by
  intro σ
  have hstart : AtHead ctx (startUp copy unset now setup) := by
    refine ⟨startUp_identified copy unset now setup, fun _ => ?_, ?_⟩
    · cases setup <;> simp [NoPending, startUp]
    · cases setup <;> simp [Sessions, startUp]
  have hhead : AtHead ctx σ := Runs.run_invariant _ (fun _ _ h => h.step) hstart rounds
  obtain ⟨hechoed, hblocks, hsent⟩ := bytes_eventsOf record σ.trace
  rw [← hechoed, ← hblocks, ← hsent]
  by_cases hrecord : record < σ.records
  · have hown := hhead.sessions record hrecord
    refine ⟨Or.inr hown, ?_⟩
    obtain ⟨exchanges, hallowed, htrace | ⟨htrace, -⟩⟩ := hown
    · rw [htrace]
      exact ⟨echoed_sublist record exchanges, fun hcycle => sent_eq_echoed hcycle hallowed⟩
    · rw [htrace, echoedTo_append, blocksOf_append, sentTo_append]
      simp only [echoedTo, blocksOf, sentTo, List.flatMap_cons, List.flatMap_nil, List.append_nil]
      exact ⟨echoed_sublist record exchanges, fun hcycle => sent_eq_echoed hcycle hallowed⟩
  · have hnone : eventsOf record σ.trace = [] := eventsOf_other fun e he hrec =>
      hrecord (hhead.identified.trace e he record hrec)
    rw [hnone]
    exact ⟨Or.inl rfl, List.Sublist.slnil, fun _ => rfl⟩

end CodingLearners.TcpServer
