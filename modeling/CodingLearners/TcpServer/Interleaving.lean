import CodingLearners.Library.Framing
import CodingLearners.TcpServer.AutoSend
import CodingLearners.TcpServer.Echo
import CodingLearners.TcpServer.FrameBounds

/-!
# Echoes between the bytes of a frame

The branches that write to a client are the echo, the pending write and the
auto-send. The last two are kept apart by `need_write_size`, which the echo
does not look at. Between the bytes of a frame nothing else is sent exactly
when no client that still waits for the rest of a frame is echoed anything.
-/

namespace CodingLearners.TcpServer

open IndexedPass Relation Framing

/-- The bytes that a client was echoed. -/
def echoedTo (record : Nat) (trace : List Event) : List UInt8 :=
  trace.flatMap fun
    | .send record' .echo accepted => if record' = record then accepted else []
    | _ => []

/-- The frame that each byte an action hands over belongs to, after `k` frames. -/
def labelStep (record : Nat) : Nat × List (Option Nat) → Event → Nat × List (Option Nat)
  | (k, labels), .send record' .echo accepted =>
      if record' = record then (k, labels ++ List.replicate accepted.length none) else (k, labels)
  | (k, labels), .send record' .pending accepted =>
      if record' = record then (k, labels ++ List.replicate accepted.length (some k))
      else (k, labels)
  | (k, labels), .send record' .autoSend accepted =>
      if record' = record then (k + 1, labels ++ List.replicate accepted.length (some (k + 1)))
      else (k, labels)
  | s, _ => s

/-- How many frames a client was started, and for each byte it was sent the
number of its frame; the bytes of an echo belong to none. -/
def stream (record : Nat) (trace : List Event) : Nat × List (Option Nat) :=
  trace.foldl (labelStep record) (0, [])

/-- In this turn no client that waits for the rest of a frame is echoed anything,
and after it every client's stream has its frames in one piece each. -/
def NothingBetween (ctx : EtContextData) (σ : ServerState) (r : Round) : Prop :=
  (∀ c ∈ σ.clients.nodes, 0 < c.needWriteSize →
    echoedTo c.record (serverStep ctx σ r).trace = echoedTo c.record σ.trace) ∧
  ∀ record, Unbroken (stream record (serverStep ctx σ r).trace).2

/-- Of the echo for a client that waits for the rest of a frame, `send` accepts
nothing before the first `EAGAIN`, zero or hard error. -/
def EchoHeldBack (σ : ServerState) (r : Round) : Prop :=
  σ.phase = .serving → r.stop = false →
    ∀ c ∈ σ.clients.nodes, 0 < c.needWriteSize → Echoes r σ c → capacity (r.send c.socketFd) = 0

instance (σ : ServerState) (r : Round) : Decidable (EchoHeldBack σ r) := by
  unfold EchoHeldBack
  infer_instance

variable {ctx : EtContextData} {r : Round} {σ₀ σ : ServerState}

/-! ## What an act echoes -/

@[simp] theorem echoedTo_append (record : Nat) (trace events : List Event) :
    echoedTo record (trace ++ events) = echoedTo record trace ++ echoedTo record events :=
  List.flatMap_append

/-- The action hands no bytes to anybody. -/
def Silent (e : Event) : Prop :=
  match e with
  | .send _ _ _ => False
  | _ => True

theorem echoedTo_silent (record : Nat) {events : List Event} (h : ∀ e ∈ events, Silent e) :
    echoedTo record events = [] := by
  apply List.flatMap_eq_nil_iff.mpr
  intro e he
  have hsilent := h e he
  cases e with
  | send record' site accepted => cases hsilent
  | _ => rfl

/-- What follows the main loop hands no bytes to anybody. -/
theorem shutdown_silent (nodes : List TcpSocketClient) (fd : Int) :
    ∀ e ∈ (Event.close fd :: nodes.flatMap fun c => [.close c.socketFd, .free c.record]),
      Silent e := by
  intro e he
  simp only [List.mem_cons, List.mem_flatMap, List.not_mem_nil, or_false] at he
  rcases he with rfl | ⟨c, _, rfl | rfl⟩ <;> trivial

/-- Taking a client in hands no bytes to anybody. -/
theorem acceptClient_silent {e : Event} {fd : Int} {record : Nat}
    (h : e = .accept fd ∨ e = .calloc record) : Silent e := by
  rcases h with rfl | rfl <;> trivial

/-- The echo of a client's block in the turn `r`. -/
def echoOf (r : Round) (c : TcpSocketClient) : SendCall :=
  tcpSendn (tcpRecvn recvBuffLen (r.recv c.socketFd)).buff (r.send c.socketFd)

/-- An act adds to the trace, and what it echoes is the echo of a readable client. -/
theorem Act.echoedTo {σ' : ServerState} (hact : Act ctx r σ₀ σ σ') (record : Nat) :
    TcpServer.echoedTo record σ'.trace = TcpServer.echoedTo record σ.trace ∨
    ∃ c ∈ σ₀.clients.nodes, c.record = record ∧ Echoes r σ₀ c ∧
      TcpServer.echoedTo record σ'.trace =
        TcpServer.echoedTo record σ.trace ++ (echoOf r c).accepted := by
  cases hact with
  | accept =>
      obtain ⟨phase, records, joined, events, hgrown, _, hevents⟩ := acceptClient_grows r σ₀
      left
      rw [hgrown, put_trace, echoedTo_append, echoedTo_silent record
        fun e he => acceptClient_silent (hevents e he), List.append_nil]
  | drop _ => simp [closeClient, TcpServer.echoedTo]
  | @echo _ done c todo _ hmem hechoes =>
      by_cases heq : c.record = record
      · right
        exact ⟨c, hmem, heq, hechoes, by simp [TcpServer.echoedTo, heq, echoOf]⟩
      · left
        simp [TcpServer.echoedTo, heq]
  | pending _ _ => simp [pendingVisit, TcpServer.echoedTo]
  | timer t => exact Or.inl rfl
  | rewrite _ => simp [nextFrame, TcpServer.echoedTo]
  | frame _ _ _ hidle =>
      left
      simp only [autoSendVisit, hidle, if_true]
      split
      · simp [closeClient, TcpServer.echoedTo]
      · split <;> simp [TcpServer.echoedTo]

/-- A turn that holds back the echo of a waiting client echoes it nothing. -/
theorem echoedTo_heldBack (hid : Identified σ) (hheld : EchoHeldBack σ r) {c : TcpSocketClient}
    (hc : c ∈ σ.clients.nodes) (hwaits : 0 < c.needWriteSize) :
    echoedTo c.record (serverStep ctx σ r).trace = echoedTo c.record σ.trace := by
  rcases serverStep_cases ctx σ r with ⟨_, hsame⟩ | ⟨_, _, hdown⟩ | ⟨hphase, hstop, hacts⟩
  · rw [hsame]
  · rw [shutdown_eq] at hdown
    rw [← Except.ok.inj hdown, put_trace, echoedTo_append,
      echoedTo_silent _ (shutdown_silent _ _), List.append_nil]
  · have hact : ∀ σ₁ σ₂, Act ctx r σ σ₁ σ₂ →
        echoedTo c.record σ₁.trace = echoedTo c.record σ.trace →
        echoedTo c.record σ₂.trace = echoedTo c.record σ.trace := by
      intro σ₁ σ₂ hact hsame
      rcases hact.echoedTo c.record with hnone | ⟨d, hd, hrecord, hechoes, hsome⟩
      · rw [hnone, hsame]
      · obtain rfl := hid.eq_of_record hc hd hrecord
        have hcap := hheld hphase hstop d hd hwaits hechoes
        rw [hsome, hsame, echoOf, tcpSendn_accepted, hcap, List.take_zero, List.append_nil]
    exact acts_invariant hact hacts rfl

/-- A visit takes no echo back. -/
theorem clientEventVisit_echoedTo_le (buff : Nat → UInt8) (sets : FdSets)
    (readfds writefds exceptfds : Int → Bool) (record : Nat) (trace : List Event)
    (d : TcpSocketClient) :
    (echoedTo record trace).length ≤
      (echoedTo record
        (clientEventVisit buff r sets readfds writefds exceptfds trace d).1).length := by
  rw [clientEventVisit, readVisit, pendingVisit, closeClient]
  dsimp only
  split
  · simp
  split
  · split
    · simp
    split <;> simp
  split <;> simp

/-- Otherwise the echo of the client is in the trace after the turn. -/
theorem echoedTo_grows (hphase : σ.phase = .serving) (hstop : r.stop = false)
    {c : TcpSocketClient} (hc : c ∈ σ.clients.nodes) (hechoes : Echoes r σ c)
    (hcap : 0 < capacity (r.send c.socketFd)) :
    (echoedTo c.record σ.trace).length <
      (echoedTo c.record (serverStep ctx σ r).trace).length := by
  obtain ⟨result, hready, hselected⟩ := serveReady_selected r σ
  rw [Echoes] at hechoes
  cases hselected with
  | quiet hselect => rcases hselect with hselect | hselect <;> simp [hselect] at hechoes
  | selectError hselect => simp [hselect] at hechoes
  | accept hselect haccept => simp [hselect, Served, haccept] at hechoes
  | @events readfds writefds exceptfds hselect hnone =>
      simp only [hselect] at hechoes
      obtain ⟨hlisten, hfd, hexcept, hread, hgot⟩ := hechoes
      let visit := clientEventVisit σ.autoSendBuff r (fdSets σ) readfds writefds exceptfds
      let seen := pass visit σ.trace σ.clients.nodes
      have hpass : (echoedTo c.record σ.trace).length < (echoedTo c.record seen.1).length := by
        apply pass_lt (fun trace => (echoedTo c.record trace).length) _ _ σ.trace hc
        · exact fun trace d => clientEventVisit_echoedTo_le _ _ _ _ _ c.record trace d
        · intro trace
          have hblock := tcpRecvn_ret recvBuffLen (r.recv c.socketFd)
          have hnot : ¬ (tcpRecvn recvBuffLen (r.recv c.socketFd)).ret < 0 := by omega
          simp only [visit, clientEventVisit, hfd, hexcept, hread, readVisit, hnot, hgot,
            Bool.false_eq_true, and_false, and_self, if_false, if_true, echoedTo_append,
            List.length_append]
          simp [echoedTo, tcpSendn_accepted]
          omega
      obtain ⟨σ', hσ', hacts⟩ := serveTimer_acts ctx r σ hready
      obtain rfl := Except.ok.inj (hσ'.symm.trans (serverStep_parts hphase hstop hready))
      have hmono : ∀ σ₁ σ₂, Act ctx r σ σ₁ σ₂ →
          (echoedTo c.record seen.1).length ≤ (echoedTo c.record σ₁.trace).length →
          (echoedTo c.record seen.1).length ≤ (echoedTo c.record σ₂.trace).length := by
        intro σ₁ σ₂ hact hle
        rcases hact.echoedTo c.record with hnone | ⟨d, _, _, _, hsome⟩
        · rwa [hnone]
        · rw [hsome, List.length_append]
          exact Nat.le_add_right_of_le hle
      calc (echoedTo c.record σ.trace).length
          < (echoedTo c.record seen.1).length := hpass
        _ ≤ (echoedTo c.record (serverStep ctx σ r).trace).length :=
            acts_invariant hmono hacts (Nat.le_refl _)

/-! ## The streams -/

theorem stream_append (record : Nat) (trace events : List Event) :
    stream record (trace ++ events) = events.foldl (labelStep record) (stream record trace) :=
  List.foldl_append

/-- What hands no bytes to this client leaves its stream alone. -/
theorem stream_other (record : Nat) (trace : List Event) {events : List Event}
    (h : ∀ e ∈ events, Silent e ∨ e.record? ≠ some record) :
    stream record (trace ++ events) = stream record trace := by
  rw [stream_append]
  generalize stream record trace = s
  induction events with
  | nil => rfl
  | cons e events ih =>
      have hsame : labelStep record s e = s := by
        obtain ⟨k, labels⟩ := s
        have he := h e (by simp)
        cases e with
        | send record' site accepted =>
            have hne : record' ≠ record := by simpa [Silent, Event.record?] using he
            cases site <;> simp [labelStep, hne]
        | _ => rfl
      rw [List.foldl_cons, hsame]
      exact ih fun e' he' => h e' (by simp [he'])

/-- The stream has its frames in one piece each, and knows no later frames. -/
structure Tidy (s : Nat × List (Option Nat)) : Prop where
  unbroken : Unbroken s.2
  known : ∀ k, some k ∈ s.2 → k ≤ s.1

section Tidy

variable {k : Nat} {labels : List (Option Nat)}

theorem Tidy.echo (h : Tidy (k, labels)) (n : Nat) :
    Tidy (k, labels ++ List.replicate n none) := by
  refine ⟨h.unbroken.append_none n, ?_⟩
  intro k' hk'
  rcases List.mem_append.mp hk' with hk' | hk'
  · exact h.known k' hk'
  · cases List.eq_of_mem_replicate hk'

theorem Tidy.goOn (h : Tidy (k, labels)) (hend : AtEnd k labels) (n : Nat) :
    Tidy (k, labels ++ List.replicate n (some k)) := by
  refine ⟨h.unbroken.append_atEnd hend n, ?_⟩
  intro k' hk'
  rcases List.mem_append.mp hk' with hk' | hk'
  · exact h.known k' hk'
  · obtain rfl := Option.some.inj (List.eq_of_mem_replicate hk')
    exact Nat.le_refl _

theorem Tidy.fresh (h : Tidy (k, labels)) : some (k + 1) ∉ labels := by
  intro hmem
  have := h.known (k + 1) hmem
  omega

theorem Tidy.start (h : Tidy (k, labels)) (n : Nat) :
    Tidy (k + 1, labels ++ List.replicate n (some (k + 1))) := by
  refine ⟨h.unbroken.append_fresh h.fresh n, ?_⟩
  intro k' hk'
  rcases List.mem_append.mp hk' with hk' | hk'
  · exact Nat.le_succ_of_le (h.known k' hk')
  · obtain rfl := Option.some.inj (List.eq_of_mem_replicate hk')
    exact Nat.le_refl _

end Tidy

/-- Every stream is tidy, and a client that waits for the rest of its newest
frame has been sent nothing since. -/
structure StreamsTidy (σ : ServerState) : Prop where
  tidy : ∀ record, Tidy (stream record σ.trace)
  waits : ∀ c ∈ σ.clients.nodes, 0 < c.needWriteSize →
    AtEnd (stream c.record σ.trace).1 (stream c.record σ.trace).2

/-- Actions that hand over no bytes keep the streams, whichever clients leave
the list or join it without a frame. -/
theorem StreamsTidy.silent (h : StreamsTidy σ) (nodes : List TcpSocketClient)
    (events : List Event) (hevents : ∀ e ∈ events, Silent e)
    (hnodes : ∀ c ∈ nodes, c ∈ σ.clients.nodes ∨ c.needWriteSize = 0) :
    StreamsTidy (σ.put nodes (σ.trace ++ events)) := by
  have hsame : ∀ record, stream record (σ.trace ++ events) = stream record σ.trace :=
    fun record => stream_other record σ.trace fun e he => Or.inl (hevents e he)
  constructor
  · intro record
    rw [put_trace, hsame]
    exact h.tidy record
  · intro c hc hwaits
    rw [put_trace, hsame]
    rcases hnodes c hc with hold | hidle
    · exact h.waits c hold hwaits
    · omega

/-- Handing bytes to one client: only its own stream has to be looked at. -/
theorem StreamsTidy.send (h : StreamsTidy σ) (hid : Identified σ)
    {done todo : List TcpSocketClient} {c : TcpSocketClient}
    (hnodes : σ.clients.nodes = done ++ c :: todo) (kept : Option TcpSocketClient)
    (hkept : ∀ d ∈ kept, d.record = c.record) {events : List Event}
    (hevents : ∀ e ∈ events, Silent e ∨ e.record? = some c.record)
    (htidy : Tidy (stream c.record (σ.trace ++ events)))
    (hwaits : ∀ d ∈ kept, 0 < d.needWriteSize →
      AtEnd (stream c.record (σ.trace ++ events)).1 (stream c.record (σ.trace ++ events)).2) :
    StreamsTidy (σ.put (done ++ (kept.toList ++ todo)) (σ.trace ++ events)) := by
  have hother : ∀ record, record ≠ c.record →
      stream record (σ.trace ++ events) = stream record σ.trace := by
    intro record hne
    apply stream_other
    intro e he
    rcases hevents e he with hsilent | hrecord
    · exact Or.inl hsilent
    · exact Or.inr fun heq => hne (Option.some.inj (heq.symm.trans hrecord))
  constructor
  · intro record
    by_cases heq : record = c.record
    · rwa [put_trace, heq]
    · rw [put_trace, hother record heq]
      exact h.tidy record
  · intro d hd hpos
    rw [put_nodes, List.mem_append, List.mem_append, Option.mem_toList] at hd
    rw [put_trace]
    rcases hd with hd | hd | hd
    · rw [hother d.record (hid.distinct hnodes (Or.inl hd))]
      exact h.waits d (by rw [hnodes]; simp [hd]) hpos
    · rw [hkept d hd]
      exact hwaits d hd hpos
    · rw [hother d.record (hid.distinct hnodes (Or.inr hd))]
      exact h.waits d (by rw [hnodes]; simp [hd]) hpos

section Acts

variable {done todo : List TcpSocketClient} {c : TcpSocketClient}

/-- An echo of nothing, or for a client that waits for nothing. -/
theorem StreamsTidy.echo (h : StreamsTidy σ) (hid : Identified σ)
    (hnodes : σ.clients.nodes = done ++ c :: todo) (block accepted : List UInt8)
    (hheld : 0 < c.needWriteSize → accepted = []) :
    StreamsTidy (σ.put (done ++ c :: todo)
      (σ.trace ++ [.recv c.record block, .send c.record .echo accepted])) := by
  have hmem : c ∈ σ.clients.nodes := by rw [hnodes]; simp
  have htidy := h.tidy c.record
  have hwaits := h.waits c hmem
  have hstream : stream c.record
      (σ.trace ++ [.recv c.record block, .send c.record .echo accepted]) =
      ((stream c.record σ.trace).1,
        (stream c.record σ.trace).2 ++ List.replicate accepted.length none) := by
    rw [stream_append]
    simp [labelStep]
  apply h.send hid hnodes (some c) (by simp) (by simp [Silent, Event.record?])
  · rw [hstream]
    exact htidy.echo accepted.length
  · intro d hd hpos
    obtain rfl := Option.some.inj hd
    rw [hstream, hheld hpos]
    simpa using hwaits hpos

/-- Going on with a frame. -/
theorem StreamsTidy.pending (h : StreamsTidy σ) (hid : Identified σ) {size : Nat}
    (hnodes : σ.clients.nodes = done ++ c :: todo) (hrest : RestOfFrame size c) :
    StreamsTidy (σ.put
      (done ++ ((pendingVisit σ.autoSendBuff r σ.trace c).2.toList ++ todo))
      (pendingVisit σ.autoSendBuff r σ.trace c).1) := by
  have hmem : c ∈ σ.clients.nodes := by rw [hnodes]; simp
  have htidy := h.tidy c.record
  have hstream : ∀ accepted, stream c.record (σ.trace ++ [.send c.record .pending accepted]) =
      ((stream c.record σ.trace).1, (stream c.record σ.trace).2 ++
        List.replicate accepted.length (some (stream c.record σ.trace).1)) := by
    intro accepted
    rw [stream_append]
    simp [labelStep]
  rcases hrest with hidle | ⟨hpos, _⟩
  · rw [pendingVisit_idle hidle]
    apply h.send hid hnodes (some c) (by simp) (by simp [Event.record?])
    · rw [hstream]
      simpa using htidy
    · intro d hd hwaits
      obtain rfl := Option.some.inj hd
      omega
  · have hend := h.waits c hmem hpos
    apply h.send hid hnodes _ _ (by simp [Event.record?])
    · rw [hstream]
      exact htidy.goOn hend _
    · intro d _ _
      rw [hstream]
      exact hend.append _
    · intro d hd
      exact (pendingVisit_record hd).1

/-- Starting a frame. -/
theorem StreamsTidy.frame (h : StreamsTidy σ) (hid : Identified σ) (size : Nat)
    (hnodes : σ.clients.nodes = done ++ c :: todo) (hidle : c.needWriteSize = 0) :
    StreamsTidy (σ.put
      (done ++ ((autoSendVisit σ.autoSendBuff size r σ.trace c).2.toList ++ todo))
      (autoSendVisit σ.autoSendBuff size r σ.trace c).1) := by
  have htidy := h.tidy c.record
  have hstream : ∀ accepted, ∀ events, (∀ e ∈ events, Silent e) →
      stream c.record (σ.trace ++ (.send c.record .autoSend accepted :: events)) =
      ((stream c.record σ.trace).1 + 1, (stream c.record σ.trace).2 ++
        List.replicate accepted.length (some ((stream c.record σ.trace).1 + 1))) := by
    intro accepted events hevents
    rw [List.append_cons, stream_other _ _ fun e he => Or.inl (hevents e he), stream_append]
    simp [labelStep]
  unfold autoSendVisit closeClient
  simp only [hidle, if_true]
  split
  · rw [List.append_assoc]
    apply h.send hid hnodes none (by simp) (by simp [Silent, Event.record?])
    · rw [List.singleton_append, hstream _ _ (by simp [Silent])]
      exact htidy.start _
    · simp
  · split
    · apply h.send hid hnodes (some _) (by simp) (by simp [Event.record?])
      · rw [hstream _ _ (by simp)]
        exact htidy.start _
      · intro d _ _
        rw [hstream _ _ (by simp)]
        exact atEnd_fresh htidy.fresh _
    · apply h.send hid hnodes (some c) (by simp) (by simp [Event.record?])
      · rw [hstream _ _ (by simp)]
        exact htidy.start _
      · intro d hd hwaits
        obtain rfl := Option.some.inj hd
        omega

end Acts

/-- Every act of a turn that holds back the echoes of waiting clients. -/
theorem StreamsTidy.act (hphase : σ₀.phase = .serving) (hstop : r.stop = false)
    (hheld : EchoHeldBack σ₀ r) (h₀ : StreamsTidy σ₀) (hid₀ : Identified σ₀)
    (hrests₀ : RestsOfFrames (sendSizePer ctx) σ₀) {σ σ' : ServerState}
    (hact : Act ctx r σ₀ σ σ')
    (h : Identified σ ∧ RestsOfFrames (sendSizePer ctx) σ ∧ StreamsTidy σ) :
    Identified σ' ∧ RestsOfFrames (sendSizePer ctx) σ' ∧ StreamsTidy σ' := by
  obtain ⟨hid, hrests, h⟩ := h
  refine ⟨Identified.act hid₀ hact hid, hrests₀.act hact hrests, ?_⟩
  cases hact with
  | accept =>
      obtain ⟨phase, records, joined, events, hgrown, hjoined, hevents⟩ := acceptClient_grows r σ₀
      have hput := h₀.silent (σ₀.clients.nodes ++ joined) events
        (fun e he => acceptClient_silent (hevents e he)) (by
          intro c hc
          cases List.mem_append.mp hc with
          | inl hc => exact Or.inl hc
          | inr hc =>
              rw [hjoined c hc]
              exact Or.inr rfl)
      rw [hgrown]
      exact ⟨hput.tidy, hput.waits⟩
  | drop hnodes =>
      apply h.silent _ _ (by simp [Silent])
      intro d hd
      left
      rw [hnodes]
      rcases List.mem_append.mp hd with hd | hd <;> simp [hd]
  | echo hnodes hmem hechoes =>
      apply h.echo hid hnodes
      intro hpos
      rw [tcpSendn_accepted, hheld hphase hstop _ hmem hpos hechoes, List.take_zero]
  | pending hnodes _ => exact h.pending hid hnodes (hrests _ (by rw [hnodes]; simp))
  | timer t => exact ⟨h.tidy, h.waits⟩
  | rewrite _ =>
      have hput := h.silent σ.clients.nodes [.sprintf (increment σ.autoSendNumber)]
        (by simp [Silent]) fun c hc => Or.inl hc
      exact ⟨hput.tidy, hput.waits⟩
  | frame hnodes _ _ hidle => exact h.frame hid _ hnodes hidle

theorem StreamsTidy.step (hid : Identified σ) (hrests : RestsOfFrames (sendSizePer ctx) σ)
    (h : StreamsTidy σ) (hheld : EchoHeldBack σ r) : StreamsTidy (serverStep ctx σ r) := by
  rcases serverStep_cases ctx σ r with ⟨_, hsame⟩ | ⟨_, _, hdown⟩ | ⟨hphase, hstop, hacts⟩
  · rwa [hsame]
  · rw [shutdown_eq] at hdown
    rw [← Except.ok.inj hdown]
    have hput := h.silent [] _ (shutdown_silent σ.clients.nodes σ.listenfd) (by simp)
    exact ⟨hput.tidy, hput.waits⟩
  · exact (acts_invariant
      (fun _ _ hact => StreamsTidy.act hphase hstop hheld h hid hrests hact) hacts
      ⟨hid, hrests, h⟩).2.2

theorem startUp_streamsTidy (copy : ServerCopy) (unset : Option TcpSocketClient) (now : Int)
    (setup : Setup) : StreamsTidy (startUp copy unset now setup) := by
  have hnone : ∀ record, stream record (startUp copy unset now setup).trace = (0, []) := by
    intro record
    cases setup <;> rfl
  constructor
  · intro record
    rw [hnone]
    exact ⟨unbroken_nil, by simp⟩
  · cases setup <;> simp [startUp]

/-- In a run nothing is ever sent between the first and the last byte of a frame,
and no echo goes to a client that waits for the rest of one, if and only if in
every turn `send` accepts nothing of the echoes for such clients. -/
theorem nothing_between_iff (ctx : EtContextData) (copy : ServerCopy)
    (unset : Option TcpSocketClient) (now : Int) (setup : Setup) (rounds : List Round) :
    Runs.Steps (serverStep ctx) (NothingBetween ctx) (startUp copy unset now setup) rounds ↔
    Runs.Steps (serverStep ctx) EchoHeldBack (startUp copy unset now setup) rounds := by
  have hid := startUp_identified copy unset now setup
  constructor
  · intro h
    apply Runs.Steps.imp Identified _ h hid
    intro σ r hid hbetween
    refine ⟨hid.step, ?_⟩
    intro hphase hstop c hc hwaits hechoes
    by_contra hcap
    have hgrows := @echoedTo_grows ctx r σ hphase hstop c hc hechoes (Nat.pos_of_ne_zero hcap)
    rw [hbetween.1 c hc hwaits] at hgrows
    exact Nat.lt_irrefl _ hgrows
  · intro h
    apply Runs.Steps.imp
      (fun σ => Identified σ ∧ RestsOfFrames (sendSizePer ctx) σ ∧ StreamsTidy σ) _ h
      ⟨hid, startUp_restsOfFrames _ copy unset now setup, startUp_streamsTidy copy unset now setup⟩
    rintro σ r ⟨hid, hrests, htidy⟩ hheld
    have hnext := htidy.step hid hrests hheld
    refine ⟨⟨hid.step, hrests.step, hnext⟩, ?_, fun record => (hnext.tidy record).unbroken⟩
    intro c hc hwaits
    exact echoedTo_heldBack hid hheld hc hwaits

/-- A client is sent one byte of a frame of three; a block of its own arrives
and is echoed before the other two. -/
def echoInsideFrame : List Round :=
  [accepting 5, timerRound fun _ => [.sent 1, .eagain],
    { Round.quiet with
      select := .ready (fun fd => fd == 5) (fun _ => true) (fun _ => false)
      recv := fun _ => [.data [97], .eagain]
      send := fun _ => [.sent 1] },
    drainRound]

/-- The echo stands between the first and the second byte of the frame. -/
theorem echo_inside_frame :
    let σ := startSvrThread shortFrames (startUp .tcpEchoServer none 0 (.listening 3))
      echoInsideFrame
    (stream 0 σ.trace).2 = [some 1, none, some 1, some 1] ∧
      ¬ Unbroken (stream 0 σ.trace).2 := by
  have hstream : (stream 0 (startSvrThread shortFrames
      (startUp .tcpEchoServer none 0 (.listening 3)) echoInsideFrame).trace).2 =
      [some 1, none, some 1, some 1] := by decide
  refine ⟨hstream, ?_⟩
  intro h
  rw [hstream] at h
  have hmiddle := h 0 1 2 1 (by decide) (by decide) rfl rfl
  cases hmiddle

end CodingLearners.TcpServer
