import CodingLearners.TcpServer.Echo

/-!
# What `recv` takes from the sockets

`tcp_recvn` reads until the socket is empty or its buffer is full, and the
outcome that ends its loop decides whether it reports what it has read. Beside
the server stands what `recv` has taken for each client.
-/

namespace CodingLearners.TcpServer

open IndexedPass

/-- The bytes that a script delivers before it stops the receiving loop, were
the buffer large enough. -/
def offered : List RecvOutcome → List UInt8
  | .data (b :: bytes) :: script => b :: bytes ++ offered script
  | .eintr :: script => offered script
  | _ => []

/-- The outcome at which a script stops the receiving loop is the end of the
stream or a hard error. -/
def endsStream : List RecvOutcome → Bool
  | .data (_ :: _) :: script => endsStream script
  | .data [] :: _ => true
  | .eintr :: script => endsStream script
  | .failed :: _ => true
  | _ => false

private theorem tcpRecvnFrom_spec (n : Nat) (script : List RecvOutcome) (got : List UInt8)
    (hgot : got.length ≤ n) :
    tcpRecvnFrom n script got =
      ⟨if endsStream script = true ∧ got.length + (offered script).length < n then -1
        else (min (got.length + (offered script).length) n : Nat),
        got ++ (offered script).take (n - got.length)⟩ := by
  induction script generalizing got with
  | nil => simp [tcpRecvnFrom, offered, endsStream, hgot]
  | cons outcome script ih =>
      by_cases hleft : n - got.length > 0
      · have hlt : got.length < n := by omega
        cases outcome with
        | eintr =>
            simp only [tcpRecvnFrom, hleft, if_true, offered, endsStream]
            exact ih got hgot
        | eagain => simp [tcpRecvnFrom, hleft, offered, endsStream, hgot]
        | failed => simp [tcpRecvnFrom, hleft, offered, endsStream, hlt]
        | data bytes =>
            cases bytes with
            | nil => simp [tcpRecvnFrom, hleft, offered, endsStream, hlt]
            | cons b bytes =>
                have hnext := ih (got ++ (b :: bytes).take (n - got.length)) (by
                  simp only [List.length_append, List.length_take]
                  omega)
                simp only [tcpRecvnFrom, hleft, if_true, reduceCtorEq, if_false, hnext, offered,
                  endsStream, List.length_append, List.take_append, List.append_assoc]
                by_cases hfit : (b :: bytes).length ≤ n - got.length
                · simp only [List.take_of_length_le hfit, Nat.add_assoc, Nat.sub_add_eq]
                · have htake : ((b :: bytes).take (n - got.length)).length = n - got.length := by
                    rw [List.length_take]
                    omega
                  have h1 : ¬ got.length + (n - got.length) + (offered script).length < n := by
                    omega
                  have h2 : ¬ got.length + ((b :: bytes).length + (offered script).length) < n := by
                    omega
                  have h3 : min (got.length + (n - got.length) + (offered script).length) n =
                      min (got.length + ((b :: bytes).length + (offered script).length)) n := by
                    omega
                  have h4 : n - (got.length + (n - got.length)) = 0 := by omega
                  have h5 : n - got.length - (b :: bytes).length = 0 := by omega
                  simp only [htake, h1, h2, h3, h4, h5, and_false, if_false]
      · have hfull : got.length = n := by omega
        simp [tcpRecvnFrom, hfull]

/-- One call of `tcp_recvn`: what it has taken is the front of what was
delivered, and it reports its length unless the stream ended or failed before
the buffer was full. -/
theorem tcpRecvn_spec (n : Nat) (script : List RecvOutcome) :
    tcpRecvn n script =
      ⟨if endsStream script = true ∧ (offered script).length < n then -1
        else (min (offered script).length n : Nat), (offered script).take n⟩ := by
  have h := tcpRecvnFrom_spec n script [] (Nat.zero_le _)
  simpa [tcpRecvn] using h

/-- What the call reports to its caller of what it has taken. -/
def reported (call : RecvCall) : List UInt8 := if 0 < call.ret then call.buff else []

/-- A call reports all it has taken exactly if it took nothing, or filled the
buffer, or met neither the end of the stream nor a hard error. -/
theorem reported_iff (n : Nat) (script : List RecvOutcome) :
    reported (tcpRecvn n script) = (tcpRecvn n script).buff ↔
      (endsStream script = true → offered script = [] ∨ n ≤ (offered script).length) := by
  rw [reported, tcpRecvn_spec]
  by_cases hfail : endsStream script = true ∧ (offered script).length < n
  · have hneg : ¬ (0 : Int) < -1 := by omega
    rw [if_pos hfail, if_neg hneg, List.take_of_length_le (Nat.le_of_lt hfail.2)]
    constructor
    · intro hnil _
      exact Or.inl hnil.symm
    · intro h
      rcases h hfail.1 with hnil | hlong
      · exact hnil.symm
      · omega
  · have hgood : endsStream script = true → offered script = [] ∨ n ≤ (offered script).length :=
      fun hends => Or.inr (Nat.le_of_not_lt fun hlt => hfail ⟨hends, hlt⟩)
    refine iff_of_true ?_ hgood
    simp only [hfail, if_false]
    split
    · rfl
    · next hzero =>
      symm
      rw [← List.length_eq_zero_iff, List.length_take]
      omega

/-! ## The server and what it has taken -/

/-- In the turn `r` from `σ` the client's socket is read. -/
def Reads (r : Round) (σ : ServerState) (c : TcpSocketClient) : Prop :=
  match r.select with
  | .ready readfds _ exceptfds =>
      fdIsset (fdSets σ).readfds readfds σ.listenfd = false ∧ c.socketFd > 0 ∧
        fdIsset (fdSets σ).exceptfds exceptfds c.socketFd = false ∧
        fdIsset (fdSets σ).readfds readfds c.socketFd = true
  | _ => False

instance (r : Round) (σ : ServerState) (c : TcpSocketClient) : Decidable (Reads r σ c) :=
  match h : r.select with
  | .failed _ => isFalse (by simp [Reads, h])
  | .timeout => isFalse (by simp [Reads, h])
  | .ready readfds _ exceptfds =>
      decidable_of_iff (fdIsset (fdSets σ).readfds readfds σ.listenfd = false ∧ c.socketFd > 0 ∧
        fdIsset (fdSets σ).exceptfds exceptfds c.socketFd = false ∧
        fdIsset (fdSets σ).readfds readfds c.socketFd = true) (by simp [Reads, h])

/-- What `tcp_recvn` does with the client's socket in the turn `r`. -/
def recvCall (r : Round) (c : TcpSocketClient) : RecvCall :=
  tcpRecvn recvBuffLen (r.recv c.socketFd)

/-- The bytes that `recv` takes for a record in the turn `r` from `σ`. -/
def takenIn (r : Round) (σ : ServerState) (record : Nat) : List UInt8 :=
  if σ.phase = .serving ∧ r.stop = false then
    σ.clients.nodes.flatMap fun c =>
      if c.record = record ∧ Reads r σ c then (recvCall r c).buff else []
  else []

/-- The server, with the bytes that `recv` has taken for each record. -/
structure Receiving where
  server : ServerState
  taken : Nat → List UInt8

def receivingStep (ctx : EtContextData) (s : Receiving) (r : Round) : Receiving :=
  ⟨serverStep ctx s.server r, fun record => s.taken record ++ takenIn r s.server record⟩

/-- Every byte that was taken from a socket has been reported to the loop, in
a block that the loop then echoes. -/
def AllReported (s : Receiving) : Prop :=
  ∀ record, blocksOf record s.server.trace = s.taken record

/-- No socket that is read in the turn ends or fails behind bytes that do not
fill the buffer. -/
def EndsEmpty (s : Receiving) (r : Round) : Prop :=
  s.server.phase = .serving → r.stop = false →
    ∀ c ∈ s.server.clients.nodes, Reads r s.server c → endsStream (r.recv c.socketFd) = true →
      offered (r.recv c.socketFd) = [] ∨ recvBuffLen ≤ (offered (r.recv c.socketFd)).length

instance (s : Receiving) (r : Round) : Decidable (EndsEmpty s r) :=
  inferInstanceAs (Decidable (_ → _ → _))

section Turn

variable {ctx : EtContextData} {r : Round} {σ : ServerState}

/-- What a visit of a client reports for a record. -/
def reportedFor (record : Nat) (r : Round) (σ : ServerState) (c : TcpSocketClient) : List UInt8 :=
  if c.record = record ∧ Reads r σ c then reported (recvCall r c) else []

/-- Events of other kinds than `recv` are no blocks. -/
theorem blocksOf_log (record : Nat) (trace : List Event) {events : List Event}
    (h : ∀ e ∈ events, ∀ record' block, e ≠ .recv record' block) :
    blocksOf record (trace ++ events) = blocksOf record trace := by
  have hnone : blocksOf record events = [] := by
    apply List.flatMap_eq_nil_iff.mpr
    intro e he
    cases e with
    | recv record' block => exact absurd rfl (h _ he record' block)
    | _ => rfl
  rw [blocksOf_append, hnone, List.append_nil]

theorem clientEventVisit_blocks {readfds writefds exceptfds : Int → Bool} (buff : Nat → UInt8)
    (hselect : r.select = .ready readfds writefds exceptfds)
    (hlisten : fdIsset (fdSets σ).readfds readfds σ.listenfd = false) (record : Nat)
    (trace : List Event) (c : TcpSocketClient) :
    blocksOf record
        (clientEventVisit buff r (fdSets σ) readfds writefds exceptfds trace c).1 =
      blocksOf record trace ++ reportedFor record r σ c := by
  have hreads : Reads r σ c ↔ c.socketFd > 0 ∧
      fdIsset (fdSets σ).exceptfds exceptfds c.socketFd = false ∧
      fdIsset (fdSets σ).readfds readfds c.socketFd = true := by
    simp only [Reads, hselect, hlisten, true_and]
  rw [clientEventVisit, reportedFor]
  simp only [hreads]
  by_cases hexcept : c.socketFd > 0 ∧ fdIsset (fdSets σ).exceptfds exceptfds c.socketFd = true
  · rw [if_pos hexcept, if_neg (by simp [hexcept.2]), List.append_nil]
    exact blocksOf_log record trace (by simp)
  rw [if_neg hexcept]
  by_cases hread : c.socketFd > 0 ∧ fdIsset (fdSets σ).readfds readfds c.socketFd = true
  · have hexcept' : fdIsset (fdSets σ).exceptfds exceptfds c.socketFd = false := by
      simpa [hread.1] using hexcept
    simp only [hread.1, hread.2, hexcept', true_and, and_true, and_self, if_true]
    rw [readVisit, reported, recvCall]
    dsimp only
    by_cases herr : (tcpRecvn recvBuffLen (r.recv c.socketFd)).ret < 0
    · have hnot : ¬ 0 < (tcpRecvn recvBuffLen (r.recv c.socketFd)).ret := by omega
      rw [if_pos herr, if_neg hnot, ite_self, List.append_nil]
      exact blocksOf_log record trace (by simp)
    rw [if_neg herr]
    by_cases hgot : (tcpRecvn recvBuffLen (r.recv c.socketFd)).ret > 0
    · rw [if_pos hgot, if_pos hgot, blocksOf_append]
      simp [blocksOf]
    · rw [if_neg hgot, if_neg hgot, ite_self, List.append_nil]
  · have hno : ¬ (c.record = record ∧ c.socketFd > 0 ∧
        fdIsset (fdSets σ).exceptfds exceptfds c.socketFd = false ∧
        fdIsset (fdSets σ).readfds readfds c.socketFd = true) := fun h => hread ⟨h.2.1, h.2.2.2⟩
    rw [if_neg hread, if_neg hno, List.append_nil]
    split
    · exact blocksOf_log record trace (by simp)
    · rfl

/-- Nothing that a turn does outside the loop over the ready clients is a block. -/
theorem pass_blocks {visit : List Event → TcpSocketClient → List Event × Option TcpSocketClient}
    (hvisit : ∀ trace c, ∃ events, (visit trace c).1 = trace ++ events ∧
      ∀ e ∈ events, ∀ record block, e ≠ .recv record block)
    (record : Nat) (trace : List Event) (nodes : List TcpSocketClient) :
    blocksOf record (pass visit trace nodes).1 = blocksOf record trace := by
  have hpass := pass_observe (blocksOf record) (fun _ => []) trace nodes (by
    intro trace c _
    obtain ⟨events, hevents, hnone⟩ := hvisit trace c
    rw [hevents, blocksOf_log record trace hnone, List.append_nil])
  rw [hpass, List.flatMap_eq_nil_iff.mpr fun _ _ => rfl, List.append_nil]

/-- The loop that starts new frames receives nothing. -/
theorem startFrames_blocks (record : Nat) (σ : ServerState) :
    blocksOf record (σ.startFrames ctx r).trace = blocksOf record σ.trace := by
  rw [ServerState.startFrames, put_trace]
  apply pass_blocks
  intro trace c
  rw [autoSendVisit]
  dsimp only
  split
  · split
    · exact ⟨_, List.append_assoc _ _ _, by simp⟩
    · split <;> exact ⟨_, rfl, by simp⟩
  · exact ⟨[], (List.append_nil _).symm, by simp⟩

/-- The timer part of a turn receives nothing. -/
theorem serveTimer_blocks {σ' : ServerState} (htimer : serveTimer ctx r σ = .ok σ')
    (record : Nat) : blocksOf record σ'.trace = blocksOf record σ.trace := by
  obtain ⟨σ'', hσ'', htimed⟩ := serveTimer_timed ctx r σ
  obtain rfl := Except.ok.inj (htimer.symm.trans hσ'')
  cases htimed with
  | notDue hdue => rfl
  | off hdue hcycle => rfl
  | busy hdue hcycle hbusy => exact startFrames_blocks record _
  | frame hdue hcycle hidle =>
      rw [startFrames_blocks]
      exact blocksOf_log record _ (by simp)

/-- The part of a turn before the timer receives what the readable clients report. -/
theorem serveReady_blocks {σ' : ServerState} {flag : Bool}
    (hready : serveReady r σ = .ok (σ', flag)) (record : Nat) :
    blocksOf record σ'.trace =
      blocksOf record σ.trace ++ σ.clients.nodes.flatMap (reportedFor record r σ) := by
  have hsilent : (∀ c, ¬ Reads r σ c) →
      σ.clients.nodes.flatMap (reportedFor record r σ) = [] := by
    intro hnone
    apply List.flatMap_eq_nil_iff.mpr
    intro c _
    rw [reportedFor, if_neg fun h => hnone c h.2]
  obtain ⟨result, hresult, hselected⟩ := serveReady_selected r σ
  obtain rfl := Except.ok.inj (hready.symm.trans hresult)
  generalize hpair : (σ', flag) = result at hselected
  cases hselected with
  | quiet hselect =>
      cases hpair
      rw [hsilent (by rcases hselect with hselect | hselect <;> simp [Reads, hselect]),
        List.append_nil]
  | selectError hselect =>
      cases hpair
      rw [hsilent (by simp [Reads, hselect]), List.append_nil, put_trace]
      apply pass_blocks
      intro trace c
      rw [selectErrorVisit]
      split
      · exact ⟨_, rfl, by simp⟩
      · exact ⟨[], (List.append_nil _).symm, by simp⟩
  | accept hselect hlisten =>
      have hstate : (acceptClient r σ).1 = σ' := by rw [← hpair]
      rw [hsilent (by simp [Reads, hselect, hlisten]), List.append_nil, ← hstate]
      obtain ⟨phase, records, joined, events, hgrown, _, hevents⟩ := acceptClient_grows r σ
      rw [hgrown]
      apply blocksOf_log
      intro e he
      rcases hevents e he with rfl | rfl <;> simp
  | events hselect hlisten =>
      cases hpair
      rw [put_trace]
      apply pass_observe
      intro trace c _
      exact clientEventVisit_blocks _ hselect hlisten record trace c

/-- One step of the thread, seen as blocks. -/
theorem serverStep_blocks (record : Nat) :
    blocksOf record (serverStep ctx σ r).trace = blocksOf record σ.trace ++
      if σ.phase = .serving ∧ r.stop = false then
        σ.clients.nodes.flatMap (reportedFor record r σ) else [] := by
  by_cases hphase : σ.phase = .serving
  swap
  · have hsame : serverStep ctx σ r = σ := by
      rw [serverStep]
      split
      · contradiction
      · rfl
    rw [hsame, if_neg fun h => hphase h.1, List.append_nil]
  cases hstop : r.stop with
  | true =>
      simp only [serverStep, hphase, hstop, if_true, shutdown_eq, put_trace, reduceCtorEq,
        and_false, if_false, List.append_nil]
      apply blocksOf_log
      intro e he
      simp only [List.mem_cons, List.mem_flatMap, List.not_mem_nil, or_false] at he
      rcases he with rfl | ⟨c, _, rfl | rfl⟩ <;> simp
  | false =>
      obtain ⟨σ₁, flag, hready, _⟩ := serveReady_acts ctx r σ
      rw [if_pos ⟨hphase, rfl⟩, ← serveReady_blocks hready record]
      cases flag with
      | true => rw [serverStep_continue hphase hstop hready]
      | false => exact serveTimer_blocks (serverStep_parts hphase hstop hready) record

/-- A call reports all it has taken or nothing. -/
theorem reported_length_le (call : RecvCall) : (reported call).length ≤ call.buff.length := by
  rw [reported]
  split <;> simp

/-- Everything that is taken in a turn is reported exactly when each client's
call reports what it takes. -/
theorem reported_all_iff (nodes : List TcpSocketClient) :
    (∀ record, nodes.flatMap (reportedFor record r σ) = nodes.flatMap fun c =>
      if c.record = record ∧ Reads r σ c then (recvCall r c).buff else []) ↔
    ∀ c ∈ nodes, Reads r σ c → reported (recvCall r c) = (recvCall r c).buff := by
  constructor
  · intro hall c hc hreads
    -- a call that reports less than it takes cannot be made up for by another
    have hle : ∀ items : List TcpSocketClient,
        (items.flatMap (reportedFor c.record r σ)).length ≤
          (items.flatMap fun d => if d.record = c.record ∧ Reads r σ d then
            (recvCall r d).buff else []).length := by
      intro items
      induction items with
      | nil => exact Nat.le_refl _
      | cons d items ih =>
          simp only [List.flatMap_cons, List.length_append, reportedFor]
          have hd := reported_length_le (recvCall r d)
          by_cases hown : d.record = c.record ∧ Reads r σ d
          · rw [if_pos hown, if_pos hown]
            omega
          · rw [if_neg hown, if_neg hown]
            omega
    obtain ⟨before, after, rfl⟩ := List.append_of_mem hc
    have hlen := congrArg List.length (hall c.record)
    simp only [List.flatMap_append, List.flatMap_cons, List.length_append] at hlen
    have hbefore := hle before
    have hafter := hle after
    have hown := reported_length_le (recvCall r c)
    simp only [reportedFor, hreads, and_self, if_true] at hlen hbefore hafter
    have heq : (reported (recvCall r c)).length = (recvCall r c).buff.length := by omega
    rw [reported] at heq ⊢
    split
    · rfl
    · next hret =>
      rw [if_neg hret] at heq
      exact (List.length_eq_zero_iff.mp heq.symm).symm
  · intro hall record
    apply List.flatMap_congr
    intro c hc
    rw [reportedFor]
    split
    · next h => exact hall c hc h.2
    · rfl

/-- One step leaves nothing unreported exactly when no stream ends behind bytes. -/
theorem allReported_step {s : Receiving} (h : AllReported s) (r : Round) :
    AllReported (receivingStep ctx s r) ↔ EndsEmpty s r := by
  have hstep : AllReported (receivingStep ctx s r) ↔ ∀ record,
      (if s.server.phase = .serving ∧ r.stop = false then
        s.server.clients.nodes.flatMap (reportedFor record r s.server) else []) =
      takenIn r s.server record := by
    apply forall_congr'
    intro record
    rw [receivingStep, serverStep_blocks, h record]
    exact List.append_right_inj _
  rw [hstep, EndsEmpty]
  simp only [takenIn]
  by_cases hserving : s.server.phase = .serving ∧ r.stop = false
  · simp only [hserving, and_self, if_true, forall_const]
    rw [reported_all_iff]
    simp only [recvCall, reported_iff]
  · simp only [hserving, if_false]
    exact iff_of_true (fun _ => trivial) fun hphase hstop => absurd ⟨hphase, hstop⟩ hserving

end Turn

/-- In every state of a run of the server every byte that `recv` has taken from
a client's socket has been reported by `tcp_recvn`, if and only if in no turn
a stream ends or fails behind bytes that do not fill the buffer. -/
theorem all_reported_iff (ctx : EtContextData) (copy : ServerCopy)
    (unset : Option TcpSocketClient) (now : Int) (setup : Setup) (rounds : List Round) :
    (∀ first, first <+: rounds → AllReported
      (Runs.run (receivingStep ctx) ⟨startUp copy unset now setup, fun _ => []⟩ first)) ↔
    Runs.Steps (receivingStep ctx) EndsEmpty ⟨startUp copy unset now setup, fun _ => []⟩
      rounds := by
  have hexact : ∀ (s : Receiving) (r : Round), True → AllReported s →
      (AllReported (receivingStep ctx s r) ↔ EndsEmpty s r) := fun s r _ h => allReported_step h r
  refine Runs.always_iff_steps (fun _ => True) (fun _ _ _ => trivial) hexact trivial ?_ rounds
  intro record
  cases setup <;> rfl

/-- A client connects, sends one byte and closes its side before the turn in
which the server reads. -/
def sendAndClose : List Round :=
  [{ Round.quiet with
      select := .ready (fun fd => fd == 3) (fun _ => false) (fun _ => false)
      connectfd := 5 },
    { Round.quiet with
      select := .ready (fun fd => fd == 5) (fun _ => false) (fun _ => false)
      recv := fun _ => [.data [97], .data []] }]

/-- The byte is taken from the socket, and the connection is closed without it
having been reported or echoed. -/
theorem last_byte_discarded :
    let s := Runs.run (receivingStep ⟨0, 0⟩)
      ⟨startUp .tcpEchoServer none 0 (.listening 3), fun _ => []⟩ sendAndClose
    s.taken 0 = [97] ∧ blocksOf 0 s.server.trace = [] ∧ sentTo 0 s.server.trace = [] ∧
      ¬ AllReported s := by
  refine ⟨by decide, by decide, by decide, fun h => ?_⟩
  exact absurd (h 0) (by decide)

end CodingLearners.TcpServer
