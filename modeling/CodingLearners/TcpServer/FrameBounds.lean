import CodingLearners.TcpServer.Turn

/-!
# Pending frames stay inside the buffer

A client waits for nothing, or its pointer and its size name the rest of one
frame. The two branches that write these fields both take them from a result of
`tcp_sendn`, which never reports more bytes than it was given.
-/

namespace CodingLearners.TcpServer

open Relation

/-- One call of `send`: where its bytes start, how many it offers, and how many
of them the kernel takes. -/
structure SendAttempt where
  offset : Nat
  offered : Nat
  taken : Nat
  deriving DecidableEq, Repr

/-- The calls of `send` in the loop of `tcp_sendn`, after `sum` of `len` bytes. -/
def sendAttemptsFrom (len : Nat) : List SendOutcome → Nat → List SendAttempt
  | [], sum => if sum < len then [⟨sum, len - sum, 0⟩] else []
  | outcome :: script, sum =>
      if sum < len then
        match outcome with
        | .eintr => ⟨sum, len - sum, 0⟩ :: sendAttemptsFrom len script sum
        | .eagain => [⟨sum, len - sum, 0⟩]
        | .failed => [⟨sum, len - sum, 0⟩]
        | .sent n =>
            let sendLen := min n (len - sum)
            if sendLen = 0 then [⟨sum, len - sum, 0⟩]
            else ⟨sum, len - sum, sendLen⟩ :: sendAttemptsFrom len script (sum + sendLen)
      else []

/-- The calls of `send` in `tcp_sendn(fd, buf, len)`. -/
def sendAttempts (len : Nat) (script : List SendOutcome) : List SendAttempt :=
  sendAttemptsFrom len script 0

private theorem tcpSendnFrom_attempts (buf : List UInt8) (script : List SendOutcome) (sum : Nat)
    (accepted : List UInt8) :
    (tcpSendnFrom buf script sum accepted).accepted =
      accepted ++ (sendAttemptsFrom buf.length script sum).flatMap
        fun attempt => (buf.drop attempt.offset).take attempt.taken := by
  induction script generalizing sum accepted with
  | nil =>
      rw [tcpSendnFrom, sendAttemptsFrom]
      split <;> simp
  | cons outcome script ih =>
      rw [tcpSendnFrom.eq_def, sendAttemptsFrom.eq_def]
      dsimp only
      by_cases hlt : sum < buf.length
      · rw [if_pos hlt, if_pos hlt]
        cases outcome with
        | eintr => simpa using ih sum accepted
        | eagain => simp
        | failed => simp
        | sent n =>
            dsimp only
            by_cases hzero : min n (buf.length - sum) = 0
            · rw [if_pos hzero, if_pos hzero]
              simp
            · rw [if_neg hzero, if_neg hzero, ih]
              simp
      · rw [if_neg hlt, if_neg hlt]
        simp

/-- The bytes that `tcp_sendn` hands over are those its calls of `send` hand over. -/
theorem tcpSendn_attempts (buf : List UInt8) (script : List SendOutcome) :
    (tcpSendn buf script).accepted =
      (sendAttempts buf.length script).flatMap
        fun attempt => (buf.drop attempt.offset).take attempt.taken := by
  simpa [tcpSendn, sendAttempts] using tcpSendnFrom_attempts buf script 0 []

/-- Whatever the kernel answers, every call offers bytes up to the end of the
buffer that `tcp_sendn` was given, and no further. -/
theorem sendAttempts_end (len : Nat) (script : List SendOutcome) :
    ∀ attempt ∈ sendAttempts len script, attempt.offset + attempt.offered = len := by
  suffices ∀ sum, ∀ attempt ∈ sendAttemptsFrom len script sum,
      attempt.offset + attempt.offered = len from this 0
  induction script with
  | nil =>
      intro sum attempt h
      rw [sendAttemptsFrom] at h
      split at h
      · rw [List.mem_singleton.mp h]
        dsimp only
        omega
      · cases h
  | cons outcome script ih =>
      intro sum attempt h
      rw [sendAttemptsFrom.eq_def] at h
      dsimp only at h
      by_cases hlt : sum < len
      · rw [if_pos hlt] at h
        have hfirst : sum + (len - sum) = len := by omega
        cases outcome with
        | eintr =>
            rcases List.mem_cons.mp h with rfl | h
            · exact hfirst
            · exact ih sum attempt h
        | eagain => rwa [List.mem_singleton.mp h]
        | failed => rwa [List.mem_singleton.mp h]
        | sent n =>
            dsimp only at h
            split at h
            · rwa [List.mem_singleton.mp h]
            · rcases List.mem_cons.mp h with rfl | h
              · exact hfirst
              · exact ih _ attempt h
      · rw [if_neg hlt] at h
        cases h

theorem sendAttempts_zero (script : List SendOutcome) : sendAttempts 0 script = [] := by
  cases script <;> rfl

/-- The client waits for nothing, or for the rest of a frame of this size. -/
def RestOfFrame (size : Nat) (c : TcpSocketClient) : Prop :=
  c.needWriteSize = 0 ∨
    0 < c.needWriteSize ∧ c.needWriteSize ≤ size ∧ (c.needWritePtr : Int) = size - c.needWriteSize

theorem sendSizePer_le (ctx : EtContextData) : sendSizePer ctx ≤ sizeofAutoSendBuff := by
  rw [sendSizePer]
  split
  · omega
  · exact Nat.le_refl _

/-- `tcp_sendn` reports an error or a count between nothing and all it was given. -/
theorem tcpSendn_ret_range (buff : Nat → UInt8) (offset len : Nat) (script : List SendOutcome) :
    (tcpSendn (bytesFrom buff offset len) script).ret ≤ len := by
  rw [tcpSendn_spec]
  dsimp only
  split
  · omega
  · rw [bytesFrom, List.length_map, List.length_range]
    omega

variable {ctx : EtContextData} {r : Round} {σ₀ : ServerState}

/-- Going on with a frame: both fields move by what was accepted. -/
theorem RestOfFrame.pending {size : Nat} {buff : Nat → UInt8} {trace : List Event}
    {c : TcpSocketClient} (h : RestOfFrame size c) :
    ∀ c' ∈ (pendingVisit buff r trace c).2, RestOfFrame size c' := by
  intro c' hc'
  rcases h with hidle | ⟨hpos, hsize, hptr⟩
  · rw [pendingVisit_idle hidle] at hc'
    obtain rfl := Option.some.inj hc'
    exact Or.inl hidle
  · have hret := tcpSendn_ret_range buff c.needWritePtr c.needWriteSize.toNat
      (r.send c.socketFd)
    simp only [pendingVisit] at hc'
    split at hc'
    · obtain rfl := Option.some.inj hc'
      exact Or.inr ⟨hpos, hsize, hptr⟩
    · obtain rfl := Option.some.inj hc'
      simp only [RestOfFrame]
      omega

/-- Starting a frame: what is left of it ends where the frame ends. -/
theorem RestOfFrame.frame {size : Nat} {buff : Nat → UInt8} {trace : List Event}
    {c : TcpSocketClient} (h : RestOfFrame size c) :
    ∀ c' ∈ (autoSendVisit buff size r trace c).2, RestOfFrame size c' := by
  intro c' hc'
  have hret := tcpSendn_ret_range buff 0 size (r.autoSend c.socketFd)
  simp only [autoSendVisit] at hc'
  split at hc'
  · split at hc'
    · cases hc'
    · split at hc'
      · obtain rfl := Option.some.inj hc'
        simp only [RestOfFrame]
        omega
      · obtain rfl := Option.some.inj hc'
        exact h
  · obtain rfl := Option.some.inj hc'
    exact h

theorem restOfFrame_new (size : Nat) (record : Nat) (fd : Int) :
    RestOfFrame size ⟨record, fd, 0, 0⟩ := Or.inl rfl

/-- Every client waits for nothing or for the rest of a frame of this size. -/
def RestsOfFrames (size : Nat) (σ : ServerState) : Prop :=
  ∀ c ∈ σ.clients.nodes, RestOfFrame size c

theorem RestsOfFrames.act {σ σ' : ServerState} (h₀ : RestsOfFrames (sendSizePer ctx) σ₀)
    (hact : Act ctx r σ₀ σ σ') (h : RestsOfFrames (sendSizePer ctx) σ) :
    RestsOfFrames (sendSizePer ctx) σ' := by
  apply hact.forall_clients (restOfFrame_new _) _ _ h₀ h
  · intro buff trace c hc
    exact hc.pending
  · intro buff trace c _ hc
    exact hc.frame

theorem RestsOfFrames.step (h : RestsOfFrames (sendSizePer ctx) σ₀) :
    RestsOfFrames (sendSizePer ctx) (serverStep ctx σ₀ r) := by
  apply serverStep_forall_clients (restOfFrame_new _) _ _ h
  · intro buff trace c hc
    exact hc.pending
  · intro buff trace c _ hc
    exact hc.frame

theorem startUp_restsOfFrames (size : Nat) (copy : ServerCopy) (unset : Option TcpSocketClient)
    (now : Int) (setup : Setup) : RestsOfFrames size (startUp copy unset now setup) := by
  cases setup <;> simp [RestsOfFrames, startUp]

/-- In every state that a run reaches, between two turns or inside one, every
client waits for nothing or for the rest of one frame, and whatever the kernel
answers, a call of `send` for this rest or for a new frame offers only bytes of
`auto_send_buff`. -/
theorem frames_inside_buffer (ctx : EtContextData) (copy : ServerCopy)
    (unset : Option TcpSocketClient) (now : Int) (setup : Setup) (rounds : List Round) (r : Round)
    (σ : ServerState)
    (hreach : ReflTransGen (Act ctx r (startSvrThread ctx (startUp copy unset now setup) rounds))
      (startSvrThread ctx (startUp copy unset now setup) rounds) σ) :
    sendSizePer ctx ≤ sizeofAutoSendBuff ∧
    (∀ script, ∀ attempt ∈ sendAttempts (sendSizePer ctx) script,
      attempt.offset + attempt.offered ≤ sizeofAutoSendBuff) ∧
    ∀ c ∈ σ.clients.nodes, RestOfFrame (sendSizePer ctx) c ∧
      ∀ script, ∀ attempt ∈ sendAttempts c.needWriteSize.toNat script,
        c.needWritePtr + attempt.offset + attempt.offered ≤ sizeofAutoSendBuff := by
  have hsize := sendSizePer_le ctx
  have hhead : RestsOfFrames (sendSizePer ctx)
      (startSvrThread ctx (startUp copy unset now setup) rounds) :=
    Runs.run_invariant (RestsOfFrames (sendSizePer ctx)) (fun _ _ h => h.step)
      (startUp_restsOfFrames _ copy unset now setup) rounds
  have hinside : RestsOfFrames (sendSizePer ctx) σ :=
    acts_invariant (fun _ _ hact h => hhead.act hact h) hreach hhead
  refine ⟨hsize, ?_, ?_⟩
  · intro script attempt hattempt
    rwa [sendAttempts_end _ _ attempt hattempt]
  · intro c hc
    refine ⟨hinside c hc, ?_⟩
    intro script attempt hattempt
    have hend := sendAttempts_end _ _ attempt hattempt
    rcases hinside c hc with hidle | ⟨hpos, hle, hptr⟩
    · rw [hidle, Int.toNat_zero, sendAttempts_zero] at hattempt
      cases hattempt
    · omega

/-- A client that was sent one byte of three, at the head of the next turn. -/
theorem frames_inside_buffer_shortWrite :
    let σ := startSvrThread ⟨1000, 3⟩ (startUp .tcpEchoServer none 0 (.listening 3))
      [{ Round.quiet with
          select := .ready (fun fd => fd == 3) (fun _ => false) (fun _ => false)
          connectfd := 5 },
        { Round.quiet with autoSend := fun _ => [.sent 1, .eagain] }]
    σ.clients.nodes = [⟨0, 5, 2, 1⟩] ∧
    ∀ c ∈ σ.clients.nodes, RestOfFrame (sendSizePer ⟨1000, 3⟩) c ∧
      ∀ script, ∀ attempt ∈ sendAttempts c.needWriteSize.toNat script,
        c.needWritePtr + attempt.offset + attempt.offered ≤ sizeofAutoSendBuff :=
  ⟨by decide, (frames_inside_buffer ⟨1000, 3⟩ .tcpEchoServer none 0 (.listening 3) _
    Round.quiet _ ReflTransGen.refl).2.2⟩

end CodingLearners.TcpServer
