import CodingLearners.TcpServer.Server
import Mathlib.Logic.Relation

/-!
# What one turn of the server can do

The loops over the client list never fault and are passes over the sequence of
clients. A turn is therefore a sequence of acts, each of which touches one
client or the shared buffer, and an invariant of the server needs one argument
for each act.
-/

namespace CodingLearners.TcpServer

open IndexedPass Relation

/-- The server with other clients in its list and another trace. -/
def ServerState.put (σ : ServerState) (nodes : List TcpSocketClient)
    (trace : List Event) : ServerState :=
  { σ with clients := { σ.clients with nodes := nodes }, trace := trace }

section Put

variable (σ : ServerState) (nodes : List TcpSocketClient) (trace : List Event)

@[simp] theorem put_phase : (σ.put nodes trace).phase = σ.phase := rfl
@[simp] theorem put_listenfd : (σ.put nodes trace).listenfd = σ.listenfd := rfl
@[simp] theorem put_nodes : (σ.put nodes trace).clients.nodes = nodes := rfl
@[simp] theorem put_autoSendBuff : (σ.put nodes trace).autoSendBuff = σ.autoSendBuff := rfl
@[simp] theorem put_autoSendNumber :
    (σ.put nodes trace).autoSendNumber = σ.autoSendNumber := rfl
@[simp] theorem put_records : (σ.put nodes trace).records = σ.records := rfl
@[simp] theorem put_trace : (σ.put nodes trace).trace = trace := rfl

end Put

/-! ## The loops are passes -/

section Loops

variable {τ : Type*} (visit : τ → TcpSocketClient → τ × Option TcpSocketClient)
  (deleted : τ → Option TcpSocketClient → τ)

/-- The visit with the note of the deletion that it leads to. -/
def noted (s : τ) (c : TcpSocketClient) : τ × Option TcpSocketClient :=
  match visit s c with
  | (s', some c') => (s', some c')
  | (s', none) => (deleted s' (some c), none)

theorem noted_ignore : noted visit (fun s _ => s) = visit := by
  funext s c
  rw [noted]
  rcases hv : visit s c with ⟨s', _ | c'⟩ <;> rfl

/-- The loop with `i - 1` clients behind it: whatever the visits delete, it
reaches each remaining client, and `SL_Delete(i)` removes the one just visited. -/
theorem forClients_eq_pass (head : Option TcpSocketClient) (todo done : List TcpSocketClient)
    (s : τ) (fuel : Nat) (hfuel : todo.length ≤ fuel) :
    forClients visit deleted fuel ((done.length + todo.length : Nat) + 1) (done.length + 1)
        ⟨head, done ++ todo⟩ s =
      .ok (⟨head, done ++ (pass (noted visit deleted) s todo).2⟩,
        (pass (noted visit deleted) s todo).1) := by
  induction todo generalizing done s fuel with
  | nil => cases fuel <;> simp [forClients]
  | cons c todo ih =>
      cases fuel with
      | zero => simp at hfuel
      | succ fuel =>
          have hlt : (done.length : Int) + 1 < (done.length + (c :: todo).length : Nat) + 1 := by
            simp only [List.length_cons]
            omega
          simp only [forClients, hlt, if_true, slGethandle_mid]
          rcases hv : visit s c with ⟨s', _ | c'⟩
          · -- the client was freed: the same index now holds the next one
            have hsize : ((done.length + (c :: todo).length : Nat) : Int) + 1 - 1 =
                (done.length + todo.length : Nat) + 1 := by
              simp only [List.length_cons]
              omega
            have hi : (done.length : Int) + 1 - 1 + 1 = done.length + 1 := by omega
            have hnoted : noted visit deleted s c = (deleted s' (some c), none) := by
              rw [noted, hv]
            simp only [slDeleteAt_walk done c todo 0 (done.length + 1) (by omega), hsize, hi,
              pass_drop hnoted]
            exact ih done _ fuel (by simpa using hfuel)
          · have hsize : ((done.length + (c :: todo).length : Nat) : Int) + 1 =
                ((done ++ [c']).length + todo.length : Nat) + 1 := by
              simp only [List.length_cons, List.length_append, List.length_nil]
              omega
            have hi : (done.length : Int) + 1 + 1 = (done ++ [c']).length + 1 := by simp
            have hnoted : noted visit deleted s c = (s', some c') := by
              rw [noted, hv]
            have h := ih (done ++ [c']) s' fuel (by simpa using hfuel)
            simp only [store_mid, hsize, hi, pass_keep hnoted]
            simpa using h

/-- The loop over the whole list. -/
theorem forClients_whole (list : SList TcpSocketClient) (s : τ) :
    forClients visit deleted (slSize list).toNat (slSize list) 1 list s =
      .ok ({ list with nodes := (pass (noted visit deleted) s list.nodes).2 },
        (pass (noted visit deleted) s list.nodes).1) := by
  have h := forClients_eq_pass visit deleted list.head list.nodes [] s (slSize list).toNat
    (by rw [slSize_eq]; omega)
  simpa using h

theorem forEachClient_eq_pass (list : SList TcpSocketClient) (s : τ) :
    forEachClient visit list s =
      .ok ({ list with nodes := (pass visit s list.nodes).2 }, (pass visit s list.nodes).1) := by
  rw [forEachClient, forClients_whole, noted_ignore]

end Loops

theorem visitClients_eq_pass (σ : ServerState)
    (visit : List Event → TcpSocketClient → List Event × Option TcpSocketClient) :
    σ.visitClients visit = .ok (σ.put (pass visit σ.trace σ.clients.nodes).2
      (pass visit σ.trace σ.clients.nodes).1) := by
  simp only [ServerState.visitClients, forEachClient_eq_pass]
  rfl

/-- The sets that the clients are put into before `select`. -/
def fdSets (σ : ServerState) : FdSets :=
  σ.clients.nodes.foldl (fun sets c => (fdSetVisit sets c).1) ⟨[σ.listenfd], [], []⟩

theorem serveReady_eq (r : Round) (σ : ServerState) :
    serveReady r σ = serveSelected r (fdSets σ) σ := by
  have hread : ∀ sets c, (fdSetVisit sets c).2 = some c := by
    intro sets c
    rw [fdSetVisit]
    split <;> rfl
  simp only [serveReady, forEachClient_eq_pass, pass_read hread, fdSets]

/-- What `select` leads to before the timer: nothing, a new client, or a loop over the
clients. -/
inductive Selected (r : Round) (σ : ServerState) : ServerState × Bool → Prop
  | quiet (hselect : r.select = .failed true ∨ r.select = .timeout) : Selected r σ (σ, false)
  | selectError (hselect : r.select = .failed false) :
      Selected r σ (σ.put (pass selectErrorVisit σ.trace σ.clients.nodes).2
        (pass selectErrorVisit σ.trace σ.clients.nodes).1, false)
  | accept {readfds writefds exceptfds : Int → Bool}
      (hselect : r.select = .ready readfds writefds exceptfds)
      (hlisten : fdIsset (fdSets σ).readfds readfds σ.listenfd = true) :
      Selected r σ (acceptClient r σ)
  | events {readfds writefds exceptfds : Int → Bool}
      (hselect : r.select = .ready readfds writefds exceptfds)
      (hlisten : fdIsset (fdSets σ).readfds readfds σ.listenfd = false) :
      Selected r σ (σ.put
        (pass (clientEventVisit σ.autoSendBuff r (fdSets σ) readfds writefds exceptfds) σ.trace
          σ.clients.nodes).2
        (pass (clientEventVisit σ.autoSendBuff r (fdSets σ) readfds writefds exceptfds) σ.trace
          σ.clients.nodes).1, false)

/-- The part of a turn before the timer does one of these. -/
theorem serveReady_selected (r : Round) (σ : ServerState) :
    ∃ result, serveReady r σ = .ok result ∧ Selected r σ result := by
  rw [serveReady_eq, serveSelected]
  cases hselect : r.select with
  | failed eintr =>
      cases eintr with
      | true => exact ⟨_, rfl, .quiet (.inl hselect)⟩
      | false =>
          simp only [visitClients_eq_pass]
          exact ⟨_, rfl, .selectError hselect⟩
  | timeout => exact ⟨_, rfl, .quiet (.inr hselect)⟩
  | ready readfds writefds exceptfds =>
      cases hlisten : fdIsset (fdSets σ).readfds readfds σ.listenfd with
      | true => exact ⟨_, if_pos hlisten, .accept hselect hlisten⟩
      | false =>
          refine ⟨_, ?_, .events hselect hlisten⟩
          simp only [hlisten, Bool.false_eq_true, if_false, visitClients_eq_pass]
          rfl

/-- The search loop finds a client without a pending frame if there is one. -/
theorem aliveVisit_pass (nodes : List TcpSocketClient) (found : Bool) :
    (pass aliveVisit found nodes).1 = (found || nodes.any fun c => c.needWriteSize == 0) := by
  induction nodes generalizing found with
  | nil => simp
  | cons c nodes ih =>
      have hkeep : aliveVisit found c = (found || c.needWriteSize == 0, some c) := rfl
      rw [pass_keep hkeep]
      simp only [ih, List.any_cons, Bool.or_assoc]

/-- The server after the loop that starts new frames. -/
def ServerState.startFrames (ctx : EtContextData) (r : Round) (σ : ServerState) : ServerState :=
  σ.put (pass (autoSendVisit σ.autoSendBuff (sendSizePer ctx) r) σ.trace σ.clients.nodes).2
    (pass (autoSendVisit σ.autoSendBuff (sendSizePer ctx) r) σ.trace σ.clients.nodes).1

/-- What the timer leads to: nothing, a new time alone, or the loop over the clients, with
the next number in the buffer if some client can take a frame. -/
inductive Timed (ctx : EtContextData) (r : Round) (σ : ServerState) : ServerState → Prop
  | notDue (hdue : timerDue ctx r σ = false) : Timed ctx r σ σ
  | off (hdue : timerDue ctx r σ = true) (hcycle : ctx.localServerAutoSendCycle = 0) :
      Timed ctx r σ { σ with autoSendLasttm := r.clock.2 }
  | busy (hdue : timerDue ctx r σ = true) (hcycle : ctx.localServerAutoSendCycle ≠ 0)
      (hbusy : ∀ c ∈ σ.clients.nodes, c.needWriteSize ≠ 0) :
      Timed ctx r σ ({ σ with autoSendLasttm := r.clock.2 }.startFrames ctx r)
  | frame (hdue : timerDue ctx r σ = true) (hcycle : ctx.localServerAutoSendCycle ≠ 0)
      (hidle : ∃ c ∈ σ.clients.nodes, c.needWriteSize = 0) :
      Timed ctx r σ ((nextFrame { σ with autoSendLasttm := r.clock.2 }).startFrames ctx r)

/-- The timer part of a turn does one of these. -/
theorem serveTimer_timed (ctx : EtContextData) (r : Round) (σ : ServerState) :
    ∃ σ', serveTimer ctx r σ = .ok σ' ∧ Timed ctx r σ σ' := by
  rw [serveTimer]
  cases hdue : timerDue ctx r σ with
  | false => exact ⟨σ, rfl, .notDue hdue⟩
  | true =>
      rw [if_pos rfl]
      dsimp only
      by_cases hcycle : ctx.localServerAutoSendCycle = 0
      · rw [if_neg (not_not_intro hcycle)]
        exact ⟨_, rfl, .off hdue hcycle⟩
      · rw [if_pos hcycle]
        simp only [autoSendClients, forEachClient_eq_pass, aliveVisit_pass, Bool.false_or,
          visitClients_eq_pass]
        split
        · next halive => exact ⟨_, rfl, .frame hdue hcycle (by simpa using halive)⟩
        · next hbusy => exact ⟨_, rfl, .busy hdue hcycle (by simpa using hbusy)⟩

/-- What `accept` leads to: nothing, a descriptor without a record (because the
process exits or an allocation fails), or a record, which the list takes up if
its node could be allocated. -/
theorem acceptClient_cases (r : Round) (σ : ServerState) :
    (acceptClient r σ).1 = σ ∨
    (∃ phase, (phase = .exited ∨ phase = σ.phase ∧ r.callocOk = false) ∧
      (acceptClient r σ).1 =
        { σ with phase := phase, trace := σ.trace ++ [.accept r.connectfd] }) ∨
    (∃ joined, (joined = [⟨σ.records, r.connectfd, 0, 0⟩] ∨ joined = [] ∧ r.mallocOk = false) ∧
      (acceptClient r σ).1 =
        { σ with
          clients := { σ.clients with nodes := σ.clients.nodes ++ joined }
          records := σ.records + 1
          trace := σ.trace ++ [.accept r.connectfd, .calloc σ.records] }) := by
  rw [acceptClient]
  by_cases hfd : r.connectfd < 0
  · simp [hfd]
  by_cases hfcntl : r.fcntlOk = false
  · refine Or.inr (Or.inl ⟨.exited, Or.inl rfl, ?_⟩)
    simp [hfd, hfcntl]
  by_cases hcalloc : r.callocOk = false
  · refine Or.inr (Or.inl ⟨σ.phase, Or.inr ⟨rfl, hcalloc⟩, ?_⟩)
    simp [hfd, hfcntl, hcalloc]
  · right
    right
    by_cases hmalloc : r.mallocOk = true
    · exact ⟨_, Or.inl rfl, by simp [hfd, hfcntl, hcalloc, hmalloc, slAdd]⟩
    · exact ⟨[], Or.inr ⟨rfl, by simpa using hmalloc⟩,
        by simp [hfd, hfcntl, hcalloc, hmalloc, slAdd]⟩

/-- Whatever becomes of a new connection, the list grows at most by its client, and
the trace by the actions that took it in. -/
theorem acceptClient_grows (r : Round) (σ : ServerState) :
    ∃ phase records joined events,
      (acceptClient r σ).1 = { σ.put (σ.clients.nodes ++ joined) (σ.trace ++ events) with
        phase := phase
        records := records } ∧
      (∀ c ∈ joined, c = ⟨σ.records, r.connectfd, 0, 0⟩) ∧
      ∀ e ∈ events, e = .accept r.connectfd ∨ e = .calloc σ.records := by
  rcases acceptClient_cases r σ with hsame | ⟨phase, _, hlog⟩ | ⟨joined, hjoined, hnew⟩
  · refine ⟨σ.phase, σ.records, [], [], ?_, by simp, by simp⟩
    rw [hsame, List.append_nil, List.append_nil]
    rfl
  · refine ⟨phase, σ.records, [], [.accept r.connectfd], ?_, by simp, by simp⟩
    rw [hlog, List.append_nil]
    rfl
  · refine ⟨σ.phase, σ.records + 1, joined, _, hnew, ?_, by simp⟩
    rcases hjoined with rfl | ⟨rfl, _⟩ <;> simp

/-! ## The acts of a turn -/

/-- In the turn `r` from `σ₀` the client takes the branch of the pending write. -/
def WritesPending (r : Round) (σ₀ : ServerState) (c : TcpSocketClient) : Prop :=
  c ∈ σ₀.clients.nodes ∧
    match r.select with
    | .ready readfds writefds exceptfds =>
        fdIsset (fdSets σ₀).readfds readfds σ₀.listenfd = false ∧ c.socketFd > 0 ∧
        fdIsset (fdSets σ₀).exceptfds exceptfds c.socketFd = false ∧
        fdIsset (fdSets σ₀).readfds readfds c.socketFd = false ∧
        fdIsset (fdSets σ₀).writefds writefds c.socketFd = true
    | _ => False

instance (r : Round) (σ₀ : ServerState) (c : TcpSocketClient) :
    Decidable (WritesPending r σ₀ c) := by
  rw [WritesPending]
  split <;> infer_instance

/-- The client, and not the listening socket, is served with a block. -/
def Served (r : Round) (σ : ServerState) (c : TcpSocketClient) (readfds exceptfds : Int → Bool) :
    Prop :=
  fdIsset (fdSets σ).readfds readfds σ.listenfd = false ∧ c.socketFd > 0 ∧
    fdIsset (fdSets σ).exceptfds exceptfds c.socketFd = false ∧
    fdIsset (fdSets σ).readfds readfds c.socketFd = true ∧
    0 < (tcpRecvn recvBuffLen (r.recv c.socketFd)).ret

instance (r : Round) (σ : ServerState) (c : TcpSocketClient) (readfds exceptfds : Int → Bool) :
    Decidable (Served r σ c readfds exceptfds) :=
  inferInstanceAs (Decidable (_ ∧ _ ∧ _ ∧ _ ∧ _))

/-- In the turn `r` from `σ` a block of the client is received and echoed. -/
def Echoes (r : Round) (σ : ServerState) (c : TcpSocketClient) : Prop :=
  match r.select with
  | .ready readfds _ exceptfds => Served r σ c readfds exceptfds
  | _ => False

instance (r : Round) (σ : ServerState) (c : TcpSocketClient) : Decidable (Echoes r σ c) :=
  match h : r.select with
  | .failed _ => isFalse (by simp [Echoes, h])
  | .timeout => isFalse (by simp [Echoes, h])
  | .ready readfds _ exceptfds =>
      decidable_of_iff (Served r σ c readfds exceptfds) (by simp [Echoes, h])

/-- The server at the timer part of the turn `r` from `σ₀`, if that part runs. -/
def timerState (ctx : EtContextData) (r : Round) (σ₀ : ServerState) : Option ServerState :=
  match serveReady r σ₀ with
  | .ok (σ, false) =>
      if timerDue ctx r σ = true then some { σ with autoSendLasttm := r.clock.2 } else none
  | _ => none

/-- The turn `r` from `σ₀` writes the next number into the buffer, in state `σ`. -/
def Rewrites (ctx : EtContextData) (r : Round) (σ₀ σ : ServerState) : Prop :=
  timerState ctx r σ₀ = some σ ∧ ctx.localServerAutoSendCycle ≠ 0 ∧
    ∃ c ∈ σ.clients.nodes, c.needWriteSize = 0

/-- The buffer holds the current number. -/
def Written (σ : ServerState) : Prop :=
  ∃ buff, σ.autoSendBuff = sprintf buff σ.autoSendNumber

/-- The acts of the turn `r` that starts in `σ₀`. -/
inductive Act (ctx : EtContextData) (r : Round) (σ₀ : ServerState) :
    ServerState → ServerState → Prop
  | accept : Act ctx r σ₀ σ₀ (acceptClient r σ₀).1
  | drop {σ done c todo} (hnodes : σ.clients.nodes = done ++ c :: todo) :
      Act ctx r σ₀ σ (σ.put (done ++ todo) (closeClient σ.trace c))
  | echo {σ done c todo} (hnodes : σ.clients.nodes = done ++ c :: todo)
      (hmem : c ∈ σ₀.clients.nodes) (hechoes : Echoes r σ₀ c) :
      Act ctx r σ₀ σ (σ.put (done ++ c :: todo)
        (σ.trace ++ [.recv c.record (tcpRecvn recvBuffLen (r.recv c.socketFd)).buff,
          .send c.record .echo (tcpSendn (tcpRecvn recvBuffLen (r.recv c.socketFd)).buff
            (r.send c.socketFd)).accepted]))
  | pending {σ done c todo} (hnodes : σ.clients.nodes = done ++ c :: todo)
      (hwrites : WritesPending r σ₀ c) :
      Act ctx r σ₀ σ (σ.put
        (done ++ ((pendingVisit σ.autoSendBuff r σ.trace c).2.toList ++ todo))
        (pendingVisit σ.autoSendBuff r σ.trace c).1)
  | timer {σ} (t : Int) : Act ctx r σ₀ σ { σ with autoSendLasttm := t }
  | rewrite {σ} (h : Rewrites ctx r σ₀ σ) : Act ctx r σ₀ σ (nextFrame σ)
  | frame {σ done c todo} (hnodes : σ.clients.nodes = done ++ c :: todo)
      (hcycle : ctx.localServerAutoSendCycle ≠ 0) (hwritten : Written σ)
      (hidle : c.needWriteSize = 0) :
      Act ctx r σ₀ σ (σ.put
        (done ++ ((autoSendVisit σ.autoSendBuff (sendSizePer ctx) r σ.trace c).2.toList ++ todo))
        (autoSendVisit σ.autoSendBuff (sendSizePer ctx) r σ.trace c).1)

variable {ctx : EtContextData} {r : Round} {σ₀ : ServerState}

/-- What every act keeps, a sequence of acts keeps. -/
theorem acts_invariant {Inv : ServerState → Prop} {σ σ' : ServerState}
    (hact : ∀ σ σ', Act ctx r σ₀ σ σ' → Inv σ → Inv σ')
    (hacts : ReflTransGen (Act ctx r σ₀) σ σ') (h : Inv σ) : Inv σ' := by
  induction hacts with
  | refl => exact h
  | tail _ hstep ih => exact hact _ _ hstep ih

/-- A loop whose every visit does nothing or is an act is a sequence of acts. -/
theorem pass_acts {σ : ServerState}
    {visit : List Event → TcpSocketClient → List Event × Option TcpSocketClient}
    (hvisit : ∀ trace done c todo, c ∈ σ.clients.nodes →
      visit trace c = (trace, some c) ∨
      Act ctx r σ₀ (σ.put (done ++ c :: todo) trace)
        (σ.put (done ++ ((visit trace c).2.toList ++ todo)) (visit trace c).1)) :
    ReflTransGen (Act ctx r σ₀) σ (σ.put (pass visit σ.trace σ.clients.nodes).2
      (pass visit σ.trace σ.clients.nodes).1) := by
  refine pass_invariant (fun trace nodes => ReflTransGen (Act ctx r σ₀) σ (σ.put nodes trace))
    σ.trace σ.clients.nodes ?_ ReflTransGen.refl
  intro trace done c todo hc hreach
  cases hvisit trace done c todo hc with
  | inl hsame =>
      rw [hsame]
      exact hreach
  | inr hact => exact hreach.tail hact

variable (ctx r σ₀)

theorem selectErrorVisit_acts (σ : ServerState) :
    ReflTransGen (Act ctx r σ₀) σ (σ.put (pass selectErrorVisit σ.trace σ.clients.nodes).2
      (pass selectErrorVisit σ.trace σ.clients.nodes).1) := by
  apply pass_acts
  intro trace done c todo _
  rw [selectErrorVisit]
  split
  · exact Or.inr (Act.drop rfl)
  · exact Or.inl rfl

theorem clientEventVisit_acts {readfds writefds exceptfds : Int → Bool}
    (hselect : r.select = .ready readfds writefds exceptfds)
    (hlisten : fdIsset (fdSets σ₀).readfds readfds σ₀.listenfd = false) :
    ReflTransGen (Act ctx r σ₀) σ₀ (σ₀.put
      (pass (clientEventVisit σ₀.autoSendBuff r (fdSets σ₀) readfds writefds exceptfds) σ₀.trace
        σ₀.clients.nodes).2
      (pass (clientEventVisit σ₀.autoSendBuff r (fdSets σ₀) readfds writefds exceptfds) σ₀.trace
        σ₀.clients.nodes).1) := by
  apply pass_acts
  intro trace done c todo hc
  unfold clientEventVisit
  dsimp only
  by_cases hexcept : c.socketFd > 0 ∧ fdIsset (fdSets σ₀).exceptfds exceptfds c.socketFd = true
  · rw [if_pos hexcept]
    exact Or.inr (Act.drop rfl)
  rw [if_neg hexcept]
  by_cases hread : c.socketFd > 0 ∧ fdIsset (fdSets σ₀).readfds readfds c.socketFd = true
  · rw [if_pos hread]
    rw [readVisit]
    dsimp only
    split
    · exact Or.inr (Act.drop rfl)
    · split
      · next hgot =>
        have hechoes : Echoes r σ₀ c := by
          simp only [Echoes, Served, hselect]
          simp only [hread.1, true_and, Bool.not_eq_true] at hexcept
          exact ⟨hlisten, hread.1, hexcept, hread.2, hgot⟩
        exact Or.inr (Act.echo (σ := σ₀.put (done ++ c :: todo) trace) rfl hc hechoes)
      · exact Or.inl rfl
  rw [if_neg hread]
  by_cases hwrite : c.socketFd > 0 ∧ fdIsset (fdSets σ₀).writefds writefds c.socketFd = true
  · rw [if_pos hwrite]
    have hfd := hwrite.1
    have hpending : WritesPending r σ₀ c := by
      simp only [WritesPending, hselect]
      simp only [hfd, true_and, Bool.not_eq_true] at hexcept hread
      exact ⟨hc, hlisten, hfd, hexcept, hread, hwrite.2⟩
    exact Or.inr (Act.pending (σ := σ₀.put (done ++ c :: todo) trace) rfl hpending)
  · rw [if_neg hwrite]
    exact Or.inl rfl

/-- The part of a turn before the timer is a sequence of acts. -/
theorem serveReady_acts : ∃ σ flag, serveReady r σ₀ = .ok (σ, flag) ∧
    ReflTransGen (Act ctx r σ₀) σ₀ σ := by
  obtain ⟨result, hready, hselected⟩ := serveReady_selected r σ₀
  refine ⟨result.1, result.2, hready, ?_⟩
  cases hselected with
  | quiet hselect => exact ReflTransGen.refl
  | selectError hselect => exact selectErrorVisit_acts ctx r σ₀ σ₀
  | accept hselect hlisten => exact ReflTransGen.single Act.accept
  | events hselect hlisten => exact clientEventVisit_acts ctx r σ₀ hselect hlisten

/-- The loop that starts new frames is a sequence of acts: it only starts them
once the next number has been written. -/
theorem startFrames_acts (σ : ServerState) (hcycle : ctx.localServerAutoSendCycle ≠ 0)
    (hwritten : Written σ ∨ ∀ c ∈ σ.clients.nodes, c.needWriteSize ≠ 0) :
    ReflTransGen (Act ctx r σ₀) σ (σ.startFrames ctx r) := by
  apply pass_acts
  intro trace done c todo hc
  by_cases hidle : c.needWriteSize = 0
  · rcases hwritten with hwritten | hbusy
    · exact Or.inr (Act.frame (σ := σ.put (done ++ c :: todo) trace) rfl hcycle hwritten hidle)
    · exact absurd hidle (hbusy c hc)
  · exact Or.inl (by simp only [autoSendVisit, hidle, if_false])

/-- The timer part of a turn is a sequence of acts. -/
theorem serveTimer_acts {σ : ServerState} (hready : serveReady r σ₀ = .ok (σ, false)) :
    ∃ σ', serveTimer ctx r σ = .ok σ' ∧ ReflTransGen (Act ctx r σ₀) σ σ' := by
  obtain ⟨σ', hσ', htimed⟩ := serveTimer_timed ctx r σ
  refine ⟨σ', hσ', ?_⟩
  have hclock : ReflTransGen (Act ctx r σ₀) σ { σ with autoSendLasttm := r.clock.2 } :=
    ReflTransGen.single (Act.timer r.clock.2)
  cases htimed with
  | notDue hdue => exact ReflTransGen.refl
  | off hdue hcycle => exact hclock
  | busy hdue hcycle hbusy =>
      exact hclock.trans (startFrames_acts ctx r σ₀ _ hcycle (Or.inr hbusy))
  | frame hdue hcycle hidle =>
      have htimer : timerState ctx r σ₀ = some { σ with autoSendLasttm := r.clock.2 } := by
        simp only [timerState, hready, hdue, if_true]
      exact (hclock.tail (Act.rewrite ⟨htimer, hcycle, hidle⟩)).trans
        (startFrames_acts ctx r σ₀ _ hcycle (Or.inl ⟨_, rfl⟩))

/-- The body of the loop never faults and is a sequence of acts. -/
theorem serveTurn_acts :
    ∃ σ', serveTurn ctx r σ₀ = .ok σ' ∧ ReflTransGen (Act ctx r σ₀) σ₀ σ' := by
  obtain ⟨σ, flag, hready, hacts⟩ := serveReady_acts ctx r σ₀
  rw [serveTurn]
  rw [hready]
  cases flag with
  | true => exact ⟨σ, rfl, hacts⟩
  | false =>
      obtain ⟨σ', hσ', hacts'⟩ := serveTimer_acts ctx r σ₀ hready
      exact ⟨σ', hσ', hacts.trans hacts'⟩

variable {ctx r σ₀}

/-- A turn whose first part ends it. -/
theorem serverStep_continue (hphase : σ₀.phase = .serving) (hstop : r.stop = false)
    {σ : ServerState} (hready : serveReady r σ₀ = .ok (σ, true)) : serverStep ctx σ₀ r = σ := by
  simp [serverStep, hphase, hstop, serveTurn, hready]

/-- A turn from its two parts. -/
theorem serverStep_parts (hphase : σ₀.phase = .serving) (hstop : r.stop = false)
    {σ : ServerState} (hready : serveReady r σ₀ = .ok (σ, false)) :
    serveTimer ctx r σ = .ok (serverStep ctx σ₀ r) := by
  obtain ⟨σ', htimer, _⟩ := serveTimer_timed ctx r σ
  have hstep : serverStep ctx σ₀ r = σ' := by
    simp [serverStep, hphase, hstop, serveTurn, hready, htimer]
  rw [hstep, htimer]

/-- What follows the main loop closes and frees every client. -/
theorem shutdown_eq (σ : ServerState) :
    shutdown σ = .ok { σ.put [] (σ.trace ++ .close σ.listenfd ::
      σ.clients.nodes.flatMap fun c => [.close c.socketFd, .free c.record]) with
        phase := .finished } := by
  have hpass : ∀ nodes trace, pass shutdownVisit trace nodes =
      (trace ++ nodes.flatMap fun c => [Event.close c.socketFd, .free c.record], []) := by
    intro nodes
    induction nodes with
    | nil => simp
    | cons c nodes ih =>
        intro trace
        have hdrop : shutdownVisit trace c = (closeClient trace c, none) := rfl
        rw [pass_drop hdrop, ih]
        simp [closeClient]
  simp only [shutdown, visitClients_eq_pass, hpass]
  simp [ServerState.put]

/-- Every step of the thread: it does nothing once it has left the loop, it
shuts down on the stop flag, and otherwise its turn is a sequence of acts. -/
theorem serverStep_cases (ctx : EtContextData) (σ : ServerState) (r : Round) :
    (σ.phase ≠ .serving ∧ serverStep ctx σ r = σ) ∨
    (σ.phase = .serving ∧ r.stop = true ∧ shutdown σ = .ok (serverStep ctx σ r)) ∨
    (σ.phase = .serving ∧ r.stop = false ∧
      ReflTransGen (Act ctx r σ) σ (serverStep ctx σ r)) := by
  by_cases hphase : σ.phase = .serving
  · right
    cases hstop : r.stop with
    | true =>
        refine Or.inl ⟨hphase, rfl, ?_⟩
        simp only [serverStep, hphase, hstop, if_true, shutdown_eq]
    | false =>
        obtain ⟨σ', hσ', hacts⟩ := serveTurn_acts ctx r σ
        refine Or.inr ⟨hphase, rfl, ?_⟩
        simpa [serverStep, hphase, hstop, hσ'] using hacts
  · left
    refine ⟨hphase, ?_⟩
    rw [serverStep]
    split
    · contradiction
    · rfl

/-! ## What holds of each client by itself -/

section EachClient

variable {P : TcpSocketClient → Prop}

/-- A visit that keeps at most a client with the property leaves no other in the list. -/
theorem forall_visited {done todo : List TcpSocketClient} {a : TcpSocketClient}
    {c : Option TcpSocketClient} (h : ∀ d ∈ done ++ a :: todo, P d) (hkept : ∀ d ∈ c, P d) :
    ∀ d ∈ done ++ (c.toList ++ todo), P d := by
  intro d hd
  rw [List.mem_append, List.mem_append, Option.mem_toList] at hd
  rcases hd with hd | hd | hd
  · exact h d (List.mem_append_left _ hd)
  · exact hkept d hd
  · exact h d (List.mem_append_right _ (List.mem_cons_of_mem a hd))

/-- A property of single clients that holds of a new one, and that the two
visits which write to a record keep, is kept by every act. -/
theorem Act.forall_clients (hnew : ∀ record fd, P ⟨record, fd, 0, 0⟩)
    (hpending : ∀ buff trace c, P c → ∀ c' ∈ (pendingVisit buff r trace c).2, P c')
    (hframe : ∀ buff trace c, ctx.localServerAutoSendCycle ≠ 0 → P c →
      ∀ c' ∈ (autoSendVisit buff (sendSizePer ctx) r trace c).2, P c')
    (h₀ : ∀ c ∈ σ₀.clients.nodes, P c) {σ σ' : ServerState} (hact : Act ctx r σ₀ σ σ')
    (h : ∀ c ∈ σ.clients.nodes, P c) : ∀ c ∈ σ'.clients.nodes, P c := by
  cases hact with
  | accept =>
      obtain ⟨phase, records, joined, events, hgrown, hjoined, _⟩ := acceptClient_grows r σ₀
      rw [hgrown]
      intro c hc
      cases List.mem_append.mp hc with
      | inl hc => exact h₀ c hc
      | inr hc =>
          rw [hjoined c hc]
          apply hnew
  | drop hnodes =>
      rw [hnodes] at h
      exact forall_visited (c := none) h (by simp)
  | echo hnodes _ _ =>
      rw [put_nodes, ← hnodes]
      exact h
  | pending hnodes _ =>
      rw [hnodes] at h
      apply forall_visited h
      apply hpending
      apply h
      simp
  | timer t => exact h
  | rewrite _ => exact h
  | frame hnodes hcycle _ _ =>
      rw [hnodes] at h
      apply forall_visited h
      apply hframe _ _ _ hcycle
      apply h
      simp

/-- Such a property holds in every state that a turn passes through, and after it. -/
theorem serverStep_forall_clients (hnew : ∀ record fd, P ⟨record, fd, 0, 0⟩)
    (hpending : ∀ buff trace c, P c → ∀ c' ∈ (pendingVisit buff r trace c).2, P c')
    (hframe : ∀ buff trace c, ctx.localServerAutoSendCycle ≠ 0 → P c →
      ∀ c' ∈ (autoSendVisit buff (sendSizePer ctx) r trace c).2, P c')
    (h₀ : ∀ c ∈ σ₀.clients.nodes, P c) : ∀ c ∈ (serverStep ctx σ₀ r).clients.nodes, P c := by
  rcases serverStep_cases ctx σ₀ r with ⟨_, hsame⟩ | ⟨_, _, hdown⟩ | ⟨_, _, hacts⟩
  · rwa [hsame]
  · rw [shutdown_eq] at hdown
    rw [← Except.ok.inj hdown]
    simp
  · exact acts_invariant (fun _ _ hact => hact.forall_clients hnew hpending hframe h₀) hacts h₀

end EachClient

/-! ## Clients without a pending frame -/

/-- No client waits for the rest of a frame. -/
def NoPending (σ : ServerState) : Prop := ∀ c ∈ σ.clients.nodes, c.needWriteSize = 0

/-- A pending write of nothing sends nothing and changes nothing. -/
theorem pendingVisit_idle {buff : Nat → UInt8} {r : Round} {trace : List Event}
    {c : TcpSocketClient} (h : c.needWriteSize = 0) :
    pendingVisit buff r trace c = (trace ++ [.send c.record .pending []], some c) := by
  obtain ⟨record, fd, size, ptr⟩ := c
  obtain rfl : size = 0 := h
  simp [pendingVisit, bytesFrom, tcpSendn_spec]

end CodingLearners.TcpServer
