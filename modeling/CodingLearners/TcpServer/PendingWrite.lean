import CodingLearners.TcpServer.AutoSend
import Mathlib.Data.List.Range

/-!
# The rest of a frame

The pending-write branch goes on with the frame that `need_write_ptr` points
into, in as many turns of the loop as it takes. Beside the client stands what
the kernel has really accepted, as positions of the buffer in the order of
their sending.
-/

namespace CodingLearners.TcpServer

/-- One pending-write branch: the buffer as it stands then, and the outcomes of `send`. -/
structure PendingTurn where
  buff : Nat → UInt8
  round : Round

/-- A client and the positions of the frame that the kernel has accepted for it. -/
structure FrameProgress where
  client : TcpSocketClient
  sent : List Nat

/-- The bytes that the kernel accepts in a pending-write branch. -/
def pendingAccepted (t : PendingTurn) (c : TcpSocketClient) : List UInt8 :=
  (tcpSendn (bytesFrom t.buff c.needWritePtr c.needWriteSize.toNat)
    (t.round.send c.socketFd)).accepted

/-- The pending-write branch, with a record of what was accepted in it. -/
def pendingTurn (p : FrameProgress) (t : PendingTurn) : FrameProgress :=
  ⟨(pendingVisit t.buff t.round [] p.client).2.getD p.client,
    p.sent ++ List.range' p.client.needWritePtr (pendingAccepted t p.client).length⟩

/-- The kernel has accepted the bytes from the start of the frame on, each once
and in order, and the client describes exactly the bytes behind them. -/
def Described (start : TcpSocketClient) (p : FrameProgress) : Prop :=
  p.sent = List.range' start.needWritePtr p.sent.length ∧
    p.client = { start with
      needWritePtr := start.needWritePtr + p.sent.length
      needWriteSize := start.needWriteSize - p.sent.length }

instance (start : TcpSocketClient) (p : FrameProgress) : Decidable (Described start p) :=
  inferInstanceAs (Decidable (_ ∧ _))

theorem pendingAccepted_length (t : PendingTurn) (c : TcpSocketClient) :
    (pendingAccepted t c).length =
      min (capacity (t.round.send c.socketFd)) c.needWriteSize.toNat := by
  rw [pendingAccepted, tcpSendn_bytesFrom, bytesFrom_length]

/-- What the branch logs are the bytes of the buffer behind `need_write_ptr`. -/
theorem pendingVisit_event (t : PendingTurn) (trace : List Event) (c : TcpSocketClient) :
    (pendingVisit t.buff t.round trace c).1 = trace ++ [.send c.record .pending
      ((List.range' c.needWritePtr (pendingAccepted t c).length).map t.buff)] := by
  have hbytes : ∀ k, bytesFrom t.buff c.needWritePtr k =
      (List.range' c.needWritePtr k).map t.buff := by
    intro k
    rw [bytesFrom, List.range'_eq_map_range, List.map_map]
    rfl
  rw [pendingAccepted_length, ← hbytes, pendingVisit]
  simp only [tcpSendn_bytesFrom]

/-- The client moves on by what was accepted, unless the call fails. -/
theorem pendingVisit_client (t : PendingTurn) (trace : List Event) (c : TcpSocketClient) :
    (pendingVisit t.buff t.round trace c).2 = some
      (if endsInFailure (t.round.send c.socketFd) = true ∧
          capacity (t.round.send c.socketFd) < c.needWriteSize.toNat then c
        else { c with
          needWritePtr := c.needWritePtr + (pendingAccepted t c).length
          needWriteSize := c.needWriteSize - (pendingAccepted t c).length }) := by
  rw [pendingVisit, pendingAccepted_length]
  simp only [tcpSendn_bytesFrom]
  split
  · rfl
  · have hret :
        ¬ ((min (capacity (t.round.send c.socketFd)) c.needWriteSize.toNat : Nat) : Int) < 0 := by
      omega
    simp only [hret, if_false, Int.toNat_natCast]

/-- A branch keeps the client and what was accepted in step exactly when it does
not fail after a part was accepted. -/
theorem described_step {start : TcpSocketClient} {p : FrameProgress} (h : Described start p)
    (t : PendingTurn) : Described start (pendingTurn p t) ↔ CleanFailure t.round p.client := by
  obtain ⟨hsent, hclient⟩ := h
  have hptr : p.client.needWritePtr = start.needWritePtr + p.sent.length := by rw [hclient]
  have hnext : (pendingTurn p t).sent = List.range' start.needWritePtr
      (p.sent.length + (pendingAccepted t p.client).length) := by
    rw [pendingTurn, hptr, ← List.range'_append_1, ← hsent]
  have hlen : (pendingTurn p t).sent.length =
      p.sent.length + (pendingAccepted t p.client).length := by
    rw [hnext, List.length_range']
  have haccepted := pendingAccepted_length t p.client
  have hmoves := pendingVisit_client t [] p.client
  rw [Described, hlen, ← hnext]
  simp only [true_and, CleanFailure]
  by_cases hfail : endsInFailure (t.round.send p.client.socketFd) = true ∧
      capacity (t.round.send p.client.socketFd) < p.client.needWriteSize.toNat
  · -- the client stays where it was
    have hstays : (pendingTurn p t).client = p.client := by
      rw [pendingTurn, hmoves, if_pos hfail]
      rfl
    rw [hstays]
    constructor
    · intro hdescribed _
      have hptr' := congrArg TcpSocketClient.needWritePtr hdescribed
      simp only at hptr'
      omega
    · intro hclean
      have hnone : (pendingAccepted t p.client).length = 0 := by
        have := hclean hfail.1
        omega
      rw [hnone]
      exact hclient
  · have hgoes : (pendingTurn p t).client = { p.client with
        needWritePtr := p.client.needWritePtr + (pendingAccepted t p.client).length
        needWriteSize := p.client.needWriteSize - (pendingAccepted t p.client).length } := by
      rw [pendingTurn, hmoves, if_neg hfail]
      rfl
    have hclean : endsInFailure (t.round.send p.client.socketFd) = true →
        capacity (t.round.send p.client.socketFd) = 0 ∨
          p.client.needWriteSize ≤ capacity (t.round.send p.client.socketFd) := by
      intro hends
      have hcap : ¬ capacity (t.round.send p.client.socketFd) < p.client.needWriteSize.toNat :=
        fun hlt => hfail ⟨hends, hlt⟩
      omega
    refine iff_of_true ?_ hclean
    rw [hgoes]
    generalize (pendingAccepted t p.client).length = k
    rw [hclient]
    simp only [TcpSocketClient.mk.injEq, true_and]
    omega

/-- The bytes that one call of `tcp_sendn` hands to the kernel are the front of
its buffer; and over any number of pending-write branches the kernel gets the
bytes of the frame each once and in order, with the client describing exactly
the rest after each of them, if and only if no branch fails after a part of
what it offered was accepted. -/
theorem frame_described_iff (buf : List UInt8) (script : List SendOutcome)
    (start : TcpSocketClient) (turns : List PendingTurn) :
    (∃ k ≤ buf.length, (tcpSendn buf script).accepted = buf.take k) ∧
    (∀ (t : PendingTurn) (trace : List Event) (c : TcpSocketClient),
      (pendingVisit t.buff t.round trace c).1 = trace ++ [.send c.record .pending
        ((List.range' c.needWritePtr (pendingAccepted t c).length).map t.buff)]) ∧
    ((∀ first, first <+: turns → Described start (Runs.run pendingTurn ⟨start, []⟩ first)) ↔
      Runs.Steps pendingTurn (fun p t => CleanFailure t.round p.client) ⟨start, []⟩ turns) := by
  refine ⟨?_, pendingVisit_event, ?_⟩
  · refine ⟨min (capacity script) buf.length, Nat.min_le_right _ _, ?_⟩
    rw [tcpSendn_accepted, List.take_eq_take_iff]
    omega
  · have hexact : ∀ (p : FrameProgress) (t : PendingTurn), True → Described start p →
        (Described start (pendingTurn p t) ↔ CleanFailure t.round p.client) :=
      fun p t _ h => described_step h t
    exact Runs.always_iff_steps (fun _ => True) (fun _ _ _ => trivial) hexact trivial
      ⟨rfl, by simp⟩ turns

/-- The kernel takes one byte of a frame of three and then reports an error; in
the next turn it takes everything. -/
def failingHalfway : List PendingTurn :=
  [⟨fun i => i.toUInt8, { Round.quiet with send := fun _ => [.sent 1, .failed] }⟩,
    ⟨fun i => i.toUInt8, { Round.quiet with send := fun _ => [.sent 3] }⟩]

/-- The byte that was accepted before the error is sent a second time. -/
theorem first_byte_twice :
    let p := Runs.run pendingTurn ⟨⟨0, 5, 3, 0⟩, []⟩ failingHalfway
    p.sent = [0, 0, 1, 2] ∧ p.client = ⟨0, 5, 0, 3⟩ ∧ ¬ Described ⟨0, 5, 3, 0⟩ p := by
  decide

end CodingLearners.TcpServer
