import CodingLearners.TcpServer.Identity

/-!
# The frames of the auto-send

The trace is replayed to find, for each client, the frames it was sent and for
each frame the content of `auto_send_buff` at the moment the frame was started.
A frame keeps to that version as long as no number is written over a part of
the buffer that a client is still to be sent.
-/

namespace CodingLearners.TcpServer

open IndexedPass Relation

/-! ## Frames, as the trace tells them -/

/-- A frame: the buffer when it was started and the bytes delivered of it. -/
structure Frame where
  version : Nat → UInt8
  bytes : List UInt8

/-- The effect of one action on the buffer and on the frames of a client, the
newest frame first. -/
def replayStep (record : Nat) :
    (Nat → UInt8) × List Frame → Event → (Nat → UInt8) × List Frame
  | (buff, frames), .sprintf number => (sprintf buff number, frames)
  | (buff, frames), .send record' .autoSend accepted =>
      if record' = record then (buff, ⟨buff, accepted⟩ :: frames) else (buff, frames)
  | (buff, frame :: frames), .send record' .pending accepted =>
      if record' = record then
        (buff, { frame with bytes := frame.bytes ++ accepted } :: frames)
      else (buff, frame :: frames)
  | s, _ => s

/-- The buffer and the frames of a client after the actions of the trace. -/
def replay (init : Nat → UInt8) (record : Nat) (trace : List Event) :
    (Nat → UInt8) × List Frame :=
  trace.foldl (replayStep record) (init, [])

/-- Every frame consists of the first bytes of its own version, and every frame
but the newest of all of them. -/
def OneVersionEach (size : Nat) (frames : List Frame) : Prop :=
  (∀ f ∈ frames, f.bytes.length ≤ size ∧ f.bytes = bytesFrom f.version 0 f.bytes.length) ∧
    ∀ f ∈ frames.tail, f.bytes.length = size

/-- The frames of every client, connected or not, keep to one version each. -/
def FramesUniform (ctx : EtContextData) (init : Nat → UInt8) (trace : List Event) : Prop :=
  ∀ record, OneVersionEach (sendSizePer ctx) (replay init record trace).2

/-! ## The condition -/

/-- The text of the next number, its terminating null included, puts another byte at
this position than the buffer holds there. -/
def overwritten (buff : Nat → UInt8) (number : Int) (position : Nat) : Bool :=
  match (decimalText (increment number) ++ [0])[position]? with
  | none => false
  | some byte => buff position != byte

/-- None of the bytes that a client is still to be sent is overwritten when the
next number is written. -/
def Untouched (buff : Nat → UInt8) (number : Int) (size : Nat) (c : TcpSocketClient) : Prop :=
  ∀ position < size, c.needWritePtr ≤ position → overwritten buff number position = false

/-- The outcomes of `send` for a pending frame do not end in a hard error after
a part of what is pending was accepted. -/
def CleanFailure (r : Round) (c : TcpSocketClient) : Prop :=
  endsInFailure (r.send c.socketFd) = true →
    capacity (r.send c.socketFd) = 0 ∨ c.needWriteSize ≤ capacity (r.send c.socketFd)

/-- If the next number is written in this state, because some client has no
pending frame, then no pending frame reaches into the bytes that change. -/
def RewriteSafe (ctx : EtContextData) (σ : ServerState) : Prop :=
  ctx.localServerAutoSendCycle ≠ 0 → (∃ c ∈ σ.clients.nodes, c.needWriteSize = 0) →
    ∀ c ∈ σ.clients.nodes, c.needWriteSize ≠ 0 →
      Untouched σ.autoSendBuff σ.autoSendNumber (sendSizePer ctx) c

/-- In the turn no pending write fails halfway, and where the turn writes the
next number it touches no pending frame. -/
def FramesSafe (ctx : EtContextData) (σ : ServerState) (r : Round) : Prop :=
  σ.phase = .serving → r.stop = false →
    (∀ c ∈ σ.clients.nodes, WritesPending r σ c → CleanFailure r c) ∧
    ∀ σ' ∈ timerState ctx r σ, RewriteSafe ctx σ'

instance (buff : Nat → UInt8) (number : Int) (size : Nat) (c : TcpSocketClient) :
    Decidable (Untouched buff number size c) :=
  inferInstanceAs (Decidable (∀ position < size, _ → _))

instance (r : Round) (c : TcpSocketClient) : Decidable (CleanFailure r c) :=
  inferInstanceAs (Decidable (_ → _))

instance (ctx : EtContextData) (σ : ServerState) : Decidable (RewriteSafe ctx σ) :=
  inferInstanceAs (Decidable (_ → _ → _))

instance (ctx : EtContextData) (σ : ServerState) (r : Round) : Decidable (FramesSafe ctx σ r) :=
  inferInstanceAs (Decidable (_ → _ → _ ∧ _))

section Replay

variable (init : Nat → UInt8) (record : Nat) (trace : List Event)

theorem replay_append (events : List Event) :
    replay init record (trace ++ events) =
      events.foldl (replayStep record) (replay init record trace) :=
  List.foldl_append

/-- What is sent to others, or echoed, is no part of a client's frames. -/
theorem replay_silent {events : List Event}
    (h : ∀ e ∈ events, ∀ s, replayStep record s e = s) :
    replay init record (trace ++ events) = replay init record trace := by
  rw [replay_append]
  induction events with
  | nil => rfl
  | cons e events ih =>
      rw [List.foldl_cons, h e (by simp)]
      exact ih fun e' he' => h e' (by simp [he'])

theorem replayStep_other {e : Event} (h : e.record? ≠ some record)
    (hsprintf : ∀ number, e ≠ .sprintf number) (s : (Nat → UInt8) × List Frame) :
    replayStep record s e = s := by
  obtain ⟨buff, frames⟩ := s
  cases e with
  | send record' site accepted =>
      have hne : record' ≠ record := fun heq => h (by simp [Event.record?, heq])
      cases site <;> cases frames <;> simp [replayStep, hne]
  | sprintf number => exact absurd rfl (hsprintf number)
  | socket fd => cases frames <;> rfl
  | accept fd => cases frames <;> rfl
  | close fd => cases frames <;> rfl
  | calloc record' => cases frames <;> rfl
  | free record' => cases frames <;> rfl
  | recv record' block => cases frames <;> rfl

/-- A client that the trace does not mention has no frames. -/
theorem replay_new (h : ∀ e ∈ trace, e.record? ≠ some record) :
    (replay init record trace).2 = [] := by
  induction trace generalizing init with
  | nil => rfl
  | cons e trace ih =>
      have hfirst : ∃ buff, replayStep record (init, []) e = (buff, []) := by
        have hne := h e (by simp)
        cases e with
        | send record' site accepted =>
            have hne' : record' ≠ record := fun heq => hne (by simp [Event.record?, heq])
            cases site <;> simp [replayStep, hne']
        | sprintf number => exact ⟨_, rfl⟩
        | _ => exact ⟨init, rfl⟩
      obtain ⟨buff, hbuff⟩ := hfirst
      have hrest := ih buff fun e' he' => h e' (by simp [he'])
      simpa only [replay, List.foldl_cons, hbuff] using hrest

end Replay

/-! ## The buffer -/

theorem bytesFrom_add (buff : Nat → UInt8) (offset m n : Nat) :
    bytesFrom buff offset (m + n) = bytesFrom buff offset m ++ bytesFrom buff (offset + m) n := by
  simp only [bytesFrom, List.range_add, List.map_append, List.map_map]
  congr 1
  exact List.map_congr_left fun j _ => by simp [Nat.add_assoc]

theorem bytesFrom_congr {buff buff' : Nat → UInt8} {offset len : Nat}
    (h : ∀ j, offset ≤ j → j < offset + len → buff j = buff' j) :
    bytesFrom buff offset len = bytesFrom buff' offset len :=
  List.map_congr_left fun j hj => h _ (by omega) (by
    have := List.mem_range.mp hj
    omega)

theorem bytesFrom_take (buff : Nat → UInt8) (offset len k : Nat) :
    (bytesFrom buff offset len).take k = bytesFrom buff offset (min k len) := by
  simp [bytesFrom, ← List.map_take, List.take_range]

@[simp] theorem bytesFrom_length (buff : Nat → UInt8) (offset len : Nat) :
    (bytesFrom buff offset len).length = len := by
  simp [bytesFrom]

/-- The bytes that follow in its own version complete a frame further. -/
theorem OneVersionEach.grow {size : Nat} {f : Frame} {frames : List Frame}
    (h : OneVersionEach size (f :: frames)) {buff : Nat → UInt8}
    (hversion : ∀ j, f.bytes.length ≤ j → j < size → buff j = f.version j) {k : Nat}
    (hk : f.bytes.length + k ≤ size) :
    OneVersionEach size
      ({ f with bytes := f.bytes ++ bytesFrom buff f.bytes.length k } :: frames) := by
  refine ⟨?_, h.2⟩
  intro g hg
  rcases List.mem_cons.mp hg with rfl | hg
  · have hbytes := (h.1 f List.mem_cons_self).2
    have hnext : bytesFrom buff f.bytes.length k = bytesFrom f.version f.bytes.length k :=
      bytesFrom_congr fun j h1 h2 => hversion j h1 (by omega)
    simp only [List.length_append, bytesFrom_length]
    refine ⟨hk, ?_⟩
    rw [bytesFrom_add, Nat.zero_add, ← hbytes, hnext]
  · exact h.1 g (List.mem_cons_of_mem _ hg)

/-- A new frame may follow a complete one. -/
theorem OneVersionEach.start {size : Nat} {frames : List Frame} (h : OneVersionEach size frames)
    (hcomplete : ∀ f ∈ frames.head?, f.bytes.length = size) (buff : Nat → UInt8) {k : Nat}
    (hk : k ≤ size) : OneVersionEach size (⟨buff, bytesFrom buff 0 k⟩ :: frames) := by
  constructor
  · intro g hg
    rcases List.mem_cons.mp hg with rfl | hg
    · simpa using hk
    · exact h.1 g hg
  · intro g hg
    cases frames with
    | nil => cases hg
    | cons f frames =>
        rcases List.mem_cons.mp hg with rfl | hg
        · exact hcomplete g rfl
        · exact h.2 g hg

/-- Writing the next number changes the overwritten positions only. -/
theorem sprintf_next {buff : Nat → UInt8} {number : Int} {position : Nat}
    (h : overwritten buff number position = false) :
    sprintf buff (increment number) position = buff position := by
  simp only [overwritten] at h
  simp only [sprintf, memcpy, List.getD_eq_getElem?_getD]
  split at h
  · next hnone => simp [hnone]
  · next byte hbyte =>
    have hheld : buff position = byte := by simpa using h
    simp [hbyte, hheld]

/-! ## The invariant -/

/-- What a client's record says about its newest frame: it is complete, or the
record names the part still to be sent, which the buffer holds unchanged. -/
def NewestFrame (size : Nat) (buff : Nat → UInt8) (frames : List Frame)
    (c : TcpSocketClient) : Prop :=
  if c.needWriteSize = 0 then ∀ f ∈ frames.head?, f.bytes.length = size
  else ∃ f ∈ frames.head?, f.bytes.length = c.needWritePtr ∧
    c.needWriteSize = size - c.needWritePtr ∧ c.needWritePtr < size ∧
    ∀ j, c.needWritePtr ≤ j → j < size → buff j = f.version j

structure FramesKept (size : Nat) (init : Nat → UInt8) (σ : ServerState) : Prop where
  /-- The trace tells the content of the buffer. -/
  buffer : ∀ record, (replay init record σ.trace).1 = σ.autoSendBuff
  uniform : ∀ record, OneVersionEach size (replay init record σ.trace).2
  newest : ∀ c ∈ σ.clients.nodes,
    NewestFrame size σ.autoSendBuff (replay init c.record σ.trace).2 c

section Acts

variable {ctx : EtContextData} {r : Round} {σ₀ σ : ServerState} {init : Nat → UInt8}
  {size : Nat}

/-- Actions that are no part of any frame keep the frames, whichever clients
leave the list or join it without a frame. -/
theorem FramesKept.silent (h : FramesKept size init σ) (nodes : List TcpSocketClient)
    (events : List Event) (hevents : ∀ e ∈ events, ∀ record s, replayStep record s e = s)
    (hnodes : ∀ c ∈ nodes, c ∈ σ.clients.nodes ∨
      c.needWriteSize = 0 ∧ (replay init c.record σ.trace).2 = []) :
    FramesKept size init (σ.put nodes (σ.trace ++ events)) := by
  have hsame : ∀ record, replay init record (σ.trace ++ events) = replay init record σ.trace :=
    fun record => replay_silent init record σ.trace fun e he s => hevents e he record s
  constructor
  · intro record
    rw [put_trace, hsame]
    exact h.buffer record
  · intro record
    rw [put_trace, hsame]
    exact h.uniform record
  · intro c hc
    rw [put_trace, hsame]
    rcases hnodes c hc with hc | ⟨hidle, hnone⟩
    · exact h.newest c hc
    · simp [NewestFrame, hidle, hnone]

/-- Sending a part of a frame to one client: the frames of the others are as
they were, so only those of this client have to be looked at. -/
theorem FramesKept.send (h : FramesKept size init σ) (hid : Identified σ)
    {done todo : List TcpSocketClient} {c : TcpSocketClient}
    (hnodes : σ.clients.nodes = done ++ c :: todo) (kept : Option TcpSocketClient)
    (hkept : ∀ d ∈ kept, d.record = c.record) (site : SendSite) (accepted : List UInt8)
    (huniform : OneVersionEach size
      (replayStep c.record (replay init c.record σ.trace) (.send c.record site accepted)).2)
    (hnewest : ∀ d ∈ kept, NewestFrame size σ.autoSendBuff
      (replayStep c.record (replay init c.record σ.trace) (.send c.record site accepted)).2 d) :
    FramesKept size init (σ.put (done ++ (kept.toList ++ todo))
      (σ.trace ++ [.send c.record site accepted])) := by
  have hother : ∀ record, record ≠ c.record →
      replay init record (σ.trace ++ [.send c.record site accepted]) =
        replay init record σ.trace := by
    intro record hne
    apply replay_silent init record σ.trace
    intro e he s
    obtain rfl := List.mem_singleton.mp he
    exact replayStep_other record (by simpa [Event.record?] using Ne.symm hne) (by simp) s
  have hself : replay init c.record (σ.trace ++ [.send c.record site accepted]) =
      replayStep c.record (replay init c.record σ.trace) (.send c.record site accepted) :=
    replay_append init c.record σ.trace _
  refine ⟨?_, ?_, ?_⟩
  · intro record
    by_cases heq : record = c.record
    · subst heq
      rw [put_trace, hself]
      have hbuffer := h.buffer c.record
      generalize replay init c.record σ.trace = s at hbuffer
      obtain ⟨buff, frames⟩ := s
      cases site <;> cases frames <;> simpa [replayStep] using hbuffer
    · rw [put_trace, hother record heq]
      exact h.buffer record
  · intro record
    by_cases heq : record = c.record
    · subst heq
      rw [put_trace, hself]
      exact huniform
    · rw [put_trace, hother record heq]
      exact h.uniform record
  · intro d hd
    rw [put_nodes, List.mem_append, List.mem_append] at hd
    rw [put_trace]
    rcases hd with hd | hd | hd
    · rw [hother d.record (hid.distinct hnodes (Or.inl hd))]
      exact h.newest d (by rw [hnodes]; simp [hd])
    · have hmem : d ∈ kept := by simpa using hd
      rw [hkept d hmem, hself]
      exact hnewest d hmem
    · rw [hother d.record (hid.distinct hnodes (Or.inr hd))]
      exact h.newest d (by rw [hnodes]; simp [hd])

/-- Sending from the buffer: a prefix of what is offered is accepted, and unless
the call fails it reports how long that prefix is. -/
theorem tcpSendn_bytesFrom (buff : Nat → UInt8) (offset len : Nat) (script : List SendOutcome) :
    tcpSendn (bytesFrom buff offset len) script =
      ⟨if endsInFailure script = true ∧ capacity script < len then -1
        else (min (capacity script) len : Nat),
        bytesFrom buff offset (min (capacity script) len)⟩ := by
  rw [tcpSendn_spec, bytesFrom_take, bytesFrom_length]

/-- The record of a client for which `n` bytes of its newest frame have been accepted. -/
theorem newestFrame_cons {buff : Nat → UInt8} {f : Frame} {frames : List Frame}
    {c : TcpSocketClient} {n : Nat} (hlen : f.bytes.length = n) (hle : n ≤ size)
    (hsize : c.needWriteSize = size - n) (hptr : n < size → c.needWritePtr = n)
    (hversion : ∀ j, n ≤ j → j < size → buff j = f.version j) :
    NewestFrame size buff (f :: frames) c := by
  rw [NewestFrame]
  split
  · next hdone =>
    intro g hg
    obtain rfl := Option.some.inj hg
    omega
  · next hmore =>
    have hlt : n < size := by omega
    have hn := hptr hlt
    refine ⟨f, rfl, ?_, ?_, ?_, ?_⟩
    · rw [hlen, hn]
    · rw [hn, hsize]
    · rwa [hn]
    · intro j h1 h2
      exact hversion j (hn ▸ h1) h2

/-- Further `k` bytes of a pending frame are accepted. -/
theorem FramesKept.continued (h : FramesKept size init σ) (hid : Identified σ)
    {done todo : List TcpSocketClient} {c : TcpSocketClient}
    (hnodes : σ.clients.nodes = done ++ c :: todo) (hpending : c.needWriteSize ≠ 0) {k : Nat}
    (hk : c.needWritePtr + k ≤ size) {c' : TcpSocketClient} (hrecord : c'.record = c.record)
    (hsize : c'.needWriteSize = c.needWriteSize - k)
    (hptr : c'.needWritePtr = c.needWritePtr + k) :
    FramesKept size init (σ.put (done ++ ((some c').toList ++ todo))
      (σ.trace ++ [.send c.record .pending (bytesFrom σ.autoSendBuff c.needWritePtr k)])) := by
  have hmem : c ∈ σ.clients.nodes := by rw [hnodes]; simp
  have hnewest := h.newest c hmem
  rw [NewestFrame, if_neg hpending] at hnewest
  obtain ⟨f, hf, hlen, hrest, hlt, hversion⟩ := hnewest
  have huniform := h.uniform c.record
  generalize hs : replay init c.record σ.trace = s at hf huniform
  obtain ⟨buff, frames⟩ := s
  obtain ⟨frames, rfl⟩ : ∃ fs, frames = f :: fs := by
    cases frames with
    | nil => cases hf
    | cons g fs => exact ⟨fs, by rw [Option.some.inj hf]⟩
  apply h.send hid hnodes (some c') (by simpa using hrecord) _ _
  · rw [hs]
    have hnext := @OneVersionEach.grow _ _ _ huniform σ.autoSendBuff (hlen ▸ hversion) k (by omega)
    rw [hlen] at hnext
    simpa [replayStep] using hnext
  · intro d hd
    obtain rfl := Option.some.inj hd
    rw [hs]
    have hgrown : NewestFrame size σ.autoSendBuff
        ({ f with bytes := f.bytes ++ bytesFrom σ.autoSendBuff c.needWritePtr k } :: frames)
        c' := by
      refine newestFrame_cons (n := c.needWritePtr + k) ?_ hk (by omega) (fun _ => hptr) ?_
      · simp only [List.length_append, bytesFrom_length, hlen]
      · intro j h1 h2
        exact hversion j (by omega) h2
    simpa [replayStep] using hgrown

/-- Going on with a pending frame. -/
theorem FramesKept.pending (h : FramesKept size init σ) (hid : Identified σ)
    {done todo : List TcpSocketClient} {c : TcpSocketClient}
    (hnodes : σ.clients.nodes = done ++ c :: todo) (hclean : CleanFailure r c) :
    FramesKept size init (σ.put
      (done ++ ((pendingVisit σ.autoSendBuff r σ.trace c).2.toList ++ todo))
      (pendingVisit σ.autoSendBuff r σ.trace c).1) := by
  have hmem : c ∈ σ.clients.nodes := by rw [hnodes]; simp
  by_cases hidle : c.needWriteSize = 0
  · rw [pendingVisit_idle hidle]
    refine h.silent _ _ ?_ fun d hd => Or.inl (by rw [hnodes]; simpa using hd)
    intro e he record s
    obtain rfl := List.mem_singleton.mp he
    obtain ⟨buff, frames⟩ := s
    cases frames <;> simp [replayStep]
  have hnewest := h.newest c hmem
  rw [NewestFrame, if_neg hidle] at hnewest
  obtain ⟨f, hf, hlen, hsize, hlt, hversion⟩ := hnewest
  have hn : c.needWriteSize.toNat = size - c.needWritePtr := by omega
  rw [pendingVisit]
  dsimp only
  rw [hn, tcpSendn_bytesFrom]
  set cap := capacity (r.send c.socketFd) with hcap
  by_cases hfail : endsInFailure (r.send c.socketFd) = true ∧ cap < size - c.needWritePtr
  · -- a hard error, before anything was accepted
    have hcap0 : cap = 0 := by
      cases hclean hfail.1 with
      | inl h0 => exact h0
      | inr hle => omega
    simp only [hfail, and_self, if_true]
    rw [hcap0, Nat.zero_min]
    exact h.continued (k := 0) hid hnodes hidle (by omega) rfl (by simp) rfl
  · have hret : ¬ ((min cap (size - c.needWritePtr) : Nat) : Int) < 0 := by omega
    simp only [hfail, hret, if_false, Int.toNat_natCast]
    exact h.continued hid hnodes hidle (by omega) rfl rfl rfl

/-- The first `k` bytes of a new frame are accepted; the client may be closed after that. -/
theorem FramesKept.started (h : FramesKept size init σ) (hid : Identified σ)
    {done todo : List TcpSocketClient} {c : TcpSocketClient}
    (hnodes : σ.clients.nodes = done ++ c :: todo)
    (hidle : c.needWriteSize = 0) {k : Nat} (hk : k ≤ size) (kept : Option TcpSocketClient)
    (hkept : ∀ d ∈ kept, d.record = c.record ∧ d.needWriteSize = size - k ∧
      (k < size → d.needWritePtr = k)) :
    FramesKept size init (σ.put (done ++ (kept.toList ++ todo))
      (σ.trace ++ [.send c.record .autoSend (bytesFrom σ.autoSendBuff 0 k)])) := by
  have hnewest := h.newest c (by rw [hnodes]; simp)
  rw [NewestFrame, if_pos hidle] at hnewest
  have huniform := h.uniform c.record
  have hbuffer := h.buffer c.record
  generalize hs : replay init c.record σ.trace = s at hnewest huniform hbuffer
  obtain ⟨buff, frames⟩ := s
  obtain rfl : buff = σ.autoSendBuff := hbuffer
  apply h.send hid hnodes kept (fun d hd => (hkept d hd).1) _ _
  · rw [hs]
    simpa [replayStep] using huniform.start hnewest σ.autoSendBuff hk
  · intro d hd
    obtain ⟨-, hsize, hptr⟩ := hkept d hd
    rw [hs]
    have hstarted : NewestFrame size σ.autoSendBuff
        (⟨σ.autoSendBuff, bytesFrom σ.autoSendBuff 0 k⟩ :: frames) d :=
      newestFrame_cons (bytesFrom_length σ.autoSendBuff 0 k) hk hsize hptr fun _ _ _ => rfl
    simpa [replayStep] using hstarted

/-- Starting a frame. -/
theorem FramesKept.frame (h : FramesKept size init σ) (hid : Identified σ)
    {done todo : List TcpSocketClient} {c : TcpSocketClient}
    (hnodes : σ.clients.nodes = done ++ c :: todo) (hidle : c.needWriteSize = 0) :
    FramesKept size init (σ.put
      (done ++ ((autoSendVisit σ.autoSendBuff size r σ.trace c).2.toList ++ todo))
      (autoSendVisit σ.autoSendBuff size r σ.trace c).1) := by
  rw [autoSendVisit]
  simp only [hidle, if_true, tcpSendn_bytesFrom]
  set cap := capacity (r.autoSend c.socketFd) with hcap
  have hk : min cap size ≤ size := Nat.min_le_right cap size
  by_cases hfail : endsInFailure (r.autoSend c.socketFd) = true ∧ cap < size
  · -- the client is closed in the middle of the frame
    have hret : (-1 : Int) < 0 := by omega
    simp only [hfail, and_self, if_true, hret]
    have hsent := h.started hid hnodes hidle hk none (by simp)
    refine hsent.silent _ [.close c.socketFd, .free c.record] ?_ fun d hd => Or.inl hd
    intro e he record s
    rcases List.mem_pair.mp he with rfl | rfl <;> obtain ⟨buff, frames⟩ := s <;>
      cases frames <;> rfl
  · have hret : ¬ ((min cap size : Nat) : Int) < 0 := by omega
    simp only [hfail, hret, if_false]
    split
    · next hshort =>
      apply h.started hid hnodes hidle hk (some _)
      intro d hd
      obtain rfl := Option.some.inj hd
      exact ⟨rfl, rfl, fun _ => rfl⟩
    · next hfull =>
      apply h.started hid hnodes hidle hk (some c)
      intro d hd
      obtain rfl := Option.some.inj hd
      exact ⟨rfl, by omega, fun hlt => by omega⟩

/-- Writing the next number where no client is still to be sent a part of it. -/
theorem FramesKept.rewrite (h : FramesKept size init σ)
    (hsafe : ∀ c ∈ σ.clients.nodes, c.needWriteSize ≠ 0 →
      Untouched σ.autoSendBuff σ.autoSendNumber size c) :
    FramesKept size init (nextFrame σ) := by
  have hreplay : ∀ record, replay init record (nextFrame σ).trace =
      ((nextFrame σ).autoSendBuff, (replay init record σ.trace).2) := by
    intro record
    have hbuffer := h.buffer record
    rw [show (nextFrame σ).trace = σ.trace ++ [.sprintf (increment σ.autoSendNumber)] from rfl,
      replay_append]
    generalize replay init record σ.trace = s at hbuffer
    obtain ⟨buff, frames⟩ := s
    obtain rfl : buff = σ.autoSendBuff := hbuffer
    cases frames <;> rfl
  refine ⟨fun record => by rw [hreplay], ?_, ?_⟩
  · intro record
    rw [hreplay]
    exact h.uniform record
  · intro c hc
    have hnewest := h.newest c hc
    rw [hreplay]
    by_cases hidle : c.needWriteSize = 0
    · simpa only [NewestFrame, if_pos hidle] using hnewest
    · simp only [NewestFrame, if_neg hidle] at hnewest ⊢
      obtain ⟨f, hf, hlen, hsize, hlt, hversion⟩ := hnewest
      refine ⟨f, hf, hlen, hsize, hlt, fun j h1 h2 => ?_⟩
      rw [← hversion j h1 h2]
      exact sprintf_next (hsafe c hc hidle j h2 h1)

/-- Every act of a safe turn keeps the frames. -/
theorem FramesKept.act (hphase : σ₀.phase = .serving) (hstop : r.stop = false)
    (hsafe : FramesSafe ctx σ₀ r) (h₀ : FramesKept (sendSizePer ctx) init σ₀)
    (hid₀ : Identified σ₀) {σ σ' : ServerState} (hact : Act ctx r σ₀ σ σ')
    (h : Identified σ ∧ FramesKept (sendSizePer ctx) init σ) :
    Identified σ' ∧ FramesKept (sendSizePer ctx) init σ' := by
  refine ⟨Identified.act hid₀ hact h.1, ?_⟩
  obtain ⟨hid, h⟩ := h
  obtain ⟨hclean, hrewrites⟩ := hsafe hphase hstop
  cases hact with
  | accept =>
      obtain ⟨phase, records, joined, events, hgrown, hjoined, hevents⟩ := acceptClient_grows r σ₀
      have hput := h₀.silent (σ₀.clients.nodes ++ joined) events
        (fun e he record s => by rcases hevents e he with rfl | rfl <;> simp [replayStep]) (by
          intro c hc
          cases List.mem_append.mp hc with
          | inl hc => exact Or.inl hc
          | inr hc =>
              obtain rfl := hjoined c hc
              exact Or.inr ⟨rfl, replay_new init _ _ hid₀.fresh⟩)
      rw [hgrown]
      exact ⟨hput.buffer, hput.uniform, hput.newest⟩
  | @drop _ done c todo hnodes =>
      apply h.silent _ [.close c.socketFd, .free c.record] (by simp [replayStep])
      intro d hd
      apply Or.inl
      rw [hnodes]
      rcases List.mem_append.mp hd with hd | hd <;> simp [hd]
  | echo hnodes _ _ =>
      refine h.silent _ _ (by simp [replayStep]) fun d hd => Or.inl (by rw [hnodes]; exact hd)
  | pending hnodes hwrites => exact h.pending hid hnodes (hclean _ hwrites.1 hwrites)
  | timer t => exact ⟨h.buffer, h.uniform, h.newest⟩
  | rewrite hrewrite =>
      exact h.rewrite (hrewrites _ hrewrite.1 hrewrite.2.1 hrewrite.2.2)
  | frame hnodes _ _ hidle => exact h.frame hid hnodes hidle

/-- A safe step keeps the frames. -/
theorem FramesKept.step (hid : Identified σ) (h : FramesKept (sendSizePer ctx) init σ)
    (hsafe : FramesSafe ctx σ r) : FramesKept (sendSizePer ctx) init (serverStep ctx σ r) := by
  rcases serverStep_cases ctx σ r with ⟨_, hsame⟩ | ⟨_, _, hdown⟩ | ⟨hphase, hstop, hacts⟩
  · rwa [hsame]
  · rw [shutdown_eq] at hdown
    rw [← Except.ok.inj hdown]
    have hput := h.silent [] (.close σ.listenfd ::
      σ.clients.nodes.flatMap fun c => [.close c.socketFd, .free c.record]) (by
        intro e he record s
        simp only [List.mem_cons, List.mem_flatMap, List.not_mem_nil, or_false] at he
        obtain ⟨buff, frames⟩ := s
        rcases he with rfl | ⟨c, _, rfl | rfl⟩ <;> cases frames <;> rfl) (by simp)
    exact ⟨hput.buffer, hput.uniform, hput.newest⟩
  · exact (acts_invariant (fun _ _ hact => FramesKept.act hphase hstop hsafe h hid hact) hacts
      ⟨hid, h⟩).2

end Acts

theorem startUp_framesKept (copy : ServerCopy) (unset : Option TcpSocketClient) (now : Int)
    (fd : Int) (size : Nat) :
    FramesKept size (initialBuff copy) (startUp copy unset now (.listening fd)) := by
  refine ⟨fun _ => rfl, ?_, by simp [startUp]⟩
  intro record
  simp [startUp, replay, replayStep, OneVersionEach]

instance (size : Nat) (frames : List Frame) : Decidable (OneVersionEach size frames) :=
  inferInstanceAs (Decidable (_ ∧ _))

/-- In every run whose steps are safe, every frame that any client is sent
consists of the bytes that `auto_send_buff` held when the frame was started. -/
theorem frames_uniform (ctx : EtContextData) (copy : ServerCopy)
    (unset : Option TcpSocketClient) (now fd : Int) (rounds : List Round)
    (hsafe : Runs.Steps (serverStep ctx) (FramesSafe ctx)
      (startUp copy unset now (.listening fd)) rounds) :
    FramesUniform ctx (initialBuff copy)
      (startSvrThread ctx (startUp copy unset now (.listening fd)) rounds).trace := by
  have hinv : ∀ (σ : ServerState) (r : Round),
      Identified σ ∧ FramesKept (sendSizePer ctx) (initialBuff copy) σ → FramesSafe ctx σ r →
      Identified (serverStep ctx σ r) ∧
        FramesKept (sendSizePer ctx) (initialBuff copy) (serverStep ctx σ r) :=
    fun σ r h hsafe => ⟨h.1.step, h.2.step h.1 hsafe⟩
  exact (Runs.Steps.invariant hinv hsafe ⟨startUp_identified copy unset now (.listening fd),
    startUp_framesKept copy unset now fd (sendSizePer ctx)⟩).2.uniform

/-- Frames of three bytes. -/
def shortFrames : EtContextData := ⟨1000, 3⟩

/-- The listening socket is readable and `accept` returns a descriptor. -/
def accepting (fd : Int) : Round :=
  { Round.quiet with
    select := .ready (fun fd' => fd' == 3) (fun _ => false) (fun _ => false)
    connectfd := fd }

/-- The timer is due, and `send` answers each client from these scripts. -/
def timerRound (autoSend : Int → List SendOutcome) : Round :=
  { Round.quiet with autoSend := autoSend }

/-- The clients with pending frames are writable and everything is accepted. -/
def drainRound : Round :=
  { Round.quiet with
    select := .ready (fun _ => false) (fun _ => true) (fun _ => false)
    send := fun _ => [.sent 3] }

/-- Two clients; the first is sent one byte of its first frame and the rest
after the other client has been sent the next one. -/
theorem frames_uniform_shortWrite :
    FramesUniform shortFrames (initialBuff .tcpEchoServer)
      (startSvrThread shortFrames (startUp .tcpEchoServer none 0 (.listening 3))
        [accepting 5, accepting 6,
          timerRound fun fd => if fd = 5 then [.sent 1, .eagain] else [.sent 3],
          timerRound fun _ => [.sent 3], drainRound]).trace :=
  frames_uniform shortFrames .tcpEchoServer none 0 3 _ (by decide)

/-- The same with nine in the buffer when the first client is held up. -/
def nineThenTen : List Round :=
  [accepting 5, accepting 6] ++ List.replicate 8 (timerRound fun _ => [.sent 3]) ++
    [timerRound fun fd => if fd = 5 then [.sent 1, .eagain] else [.sent 3],
      timerRound fun _ => [.sent 3], drainRound]

/-- The first client is sent the `9` of the ninth frame and the last two bytes
of the tenth one. -/
theorem frame_mixes_versions :
    let σ := startSvrThread shortFrames (startUp .tcpEchoServer none 0 (.listening 3)) nineThenTen
    let frames := (replay (initialBuff .tcpEchoServer) 0 σ.trace).2
    frames.head?.map Frame.bytes = some [57, 48, 0] ∧
      (frames.head?.map fun f => bytesFrom f.version 0 3) = some [57, 0, 50] ∧
      ¬ FramesUniform shortFrames (initialBuff .tcpEchoServer) σ.trace := by
  refine ⟨by decide, by decide, fun h => ?_⟩
  exact absurd (h 0) (by decide)

end CodingLearners.TcpServer
