import Mathlib.Data.List.Basic

/-!
# `tcp_recvn` and `tcp_sendn`

The kernel answers each `recv` and `send` of one call from a script of
outcomes. A script that is used up stands for a socket that would block, so
the finite scripts are exactly the calls that return. The kernel never takes
or delivers more bytes than it was offered or asked for.
-/

namespace CodingLearners.TcpServer

/-- One answer of `send`: a count of accepted bytes, or an `errno`. -/
inductive SendOutcome
  | sent (n : Nat)
  | eintr
  | eagain
  | failed
  deriving DecidableEq, Repr

/-- One answer of `recv`: bytes (none at end of stream), or an `errno`. -/
inductive RecvOutcome
  | data (bytes : List UInt8)
  | eintr
  | eagain
  | failed
  deriving DecidableEq, Repr

/-- The return value of `tcp_recvn` and what it has written to the buffer. -/
structure RecvCall where
  ret : Int
  buff : List UInt8

/-- The return value of `tcp_sendn` and the bytes the kernel has accepted. -/
structure SendCall where
  ret : Int
  accepted : List UInt8

/-- The loop of `tcp_recvn` after the bytes `got`. -/
def tcpRecvnFrom (n : Nat) : List RecvOutcome → List UInt8 → RecvCall
  | [], got => ⟨got.length, got⟩
  | outcome :: script, got =>
      let nleft := n - got.length
      if nleft > 0 then
        match outcome with
        | .eintr => tcpRecvnFrom n script got
        | .eagain => ⟨got.length, got⟩
        | .failed => ⟨-1, got⟩
        | .data bytes =>
            if bytes = [] then ⟨-1, got⟩
            else tcpRecvnFrom n script (got ++ bytes.take nleft)
      else ⟨got.length, got⟩

/-- `tcp_recvn(fd, vptr, n)`. -/
def tcpRecvn (n : Nat) (script : List RecvOutcome) : RecvCall := tcpRecvnFrom n script []

/-- The loop of `tcp_sendn` after `sum` bytes. -/
def tcpSendnFrom (buf : List UInt8) : List SendOutcome → Nat → List UInt8 → SendCall
  | [], sum, accepted => ⟨sum, accepted⟩
  | outcome :: script, sum, accepted =>
      if sum < buf.length then
        match outcome with
        | .eintr => tcpSendnFrom buf script sum accepted
        | .eagain => ⟨sum, accepted⟩
        | .failed => ⟨-1, accepted⟩
        | .sent n =>
            let sendLen := min n (buf.length - sum)
            if sendLen = 0 then ⟨sum, accepted⟩
            else tcpSendnFrom buf script (sum + sendLen)
              (accepted ++ (buf.drop sum).take sendLen)
      else ⟨sum, accepted⟩

/-- `tcp_sendn(fd, buf, len)` for the `len` bytes `buf`. -/
def tcpSendn (buf : List UInt8) (script : List SendOutcome) : SendCall :=
  tcpSendnFrom buf script 0 []

/-- The number of bytes a script accepts before it stops the sending loop, were
there enough bytes to send. -/
def capacity : List SendOutcome → Nat
  | .sent (n + 1) :: script => n + 1 + capacity script
  | .eintr :: script => capacity script
  | _ => 0

/-- The outcome at which a script stops the sending loop is a hard error. -/
def endsInFailure : List SendOutcome → Bool
  | .sent (_ + 1) :: script => endsInFailure script
  | .eintr :: script => endsInFailure script
  | .failed :: _ => true
  | _ => false

private theorem tcpSendnFrom_spec (buf : List UInt8) (script : List SendOutcome) (sum : Nat)
    (hsum : sum ≤ buf.length) :
    tcpSendnFrom buf script sum (buf.take sum) =
      ⟨if endsInFailure script = true ∧ sum + capacity script < buf.length then -1
        else (min (sum + capacity script) buf.length : Nat), buf.take (sum + capacity script)⟩ := by
  induction script generalizing sum with
  | nil => simp [tcpSendnFrom, capacity, endsInFailure, hsum]
  | cons outcome script ih =>
      by_cases hlt : sum < buf.length
      · cases outcome with
        | eintr =>
            simp only [tcpSendnFrom, hlt, if_true, capacity, endsInFailure]
            exact ih sum hsum
        | eagain => simp [tcpSendnFrom, hlt, capacity, endsInFailure, hsum]
        | failed => simp [tcpSendnFrom, hlt, capacity, endsInFailure]
        | sent n =>
            cases n with
            | zero => simp [tcpSendnFrom, capacity, endsInFailure, hsum]
            | succ n =>
                have hpos : min (n + 1) (buf.length - sum) ≠ 0 := by omega
                have hnext : buf.take sum ++ (buf.drop sum).take (min (n + 1) (buf.length - sum)) =
                    buf.take (sum + min (n + 1) (buf.length - sum)) := by
                  rw [List.take_add]
                simp only [tcpSendnFrom, hlt, if_true, hpos, if_false, capacity, endsInFailure,
                  hnext]
                rw [ih _ (by omega)]
                by_cases hfit : n + 1 ≤ buf.length - sum
                · simp only [Nat.min_eq_left hfit, Nat.add_assoc]
                · have hmin : min (n + 1) (buf.length - sum) = buf.length - sum := by omega
                  have h1 : ¬ sum + (buf.length - sum) + capacity script < buf.length := by omega
                  have h2 : ¬ sum + (n + 1 + capacity script) < buf.length := by omega
                  have h3 : min (sum + (buf.length - sum) + capacity script) buf.length =
                      min (sum + (n + 1 + capacity script)) buf.length := by omega
                  rw [hmin, List.take_of_length_le (by omega), List.take_of_length_le (by omega)]
                  simp only [h1, h2, and_false, if_false, h3]
      · have heq : sum = buf.length := by omega
        subst heq
        have htake : buf.take (buf.length + capacity (outcome :: script)) = buf :=
          List.take_of_length_le (by omega)
        simp [tcpSendnFrom, htake]

/-- One call of `tcp_sendn`: the kernel gets a prefix of the buffer, and the
call reports its length unless it stopped short of the end at a hard error. -/
theorem tcpSendn_spec (buf : List UInt8) (script : List SendOutcome) :
    tcpSendn buf script =
      ⟨if endsInFailure script = true ∧ capacity script < buf.length then -1
        else (min (capacity script) buf.length : Nat), buf.take (capacity script)⟩ := by
  have h := tcpSendnFrom_spec buf script 0 (Nat.zero_le _)
  simpa [tcpSendn] using h

theorem tcpSendn_accepted (buf : List UInt8) (script : List SendOutcome) :
    (tcpSendn buf script).accepted = buf.take (capacity script) := by
  rw [tcpSendn_spec]

/-- What `tcp_recvn` reports, when it reports no error, is what it has stored. -/
theorem tcpRecvn_ret (n : Nat) (script : List RecvOutcome) :
    (tcpRecvn n script).ret = -1 ∨
      (tcpRecvn n script).ret = (tcpRecvn n script).buff.length := by
  suffices ∀ got, (tcpRecvnFrom n script got).ret = -1 ∨
      (tcpRecvnFrom n script got).ret = (tcpRecvnFrom n script got).buff.length from this []
  induction script with
  | nil =>
      intro got
      exact Or.inr rfl
  | cons outcome script ih =>
      intro got
      simp only [tcpRecvnFrom]
      split
      · cases outcome with
        | eintr => exact ih got
        | eagain => exact Or.inr rfl
        | failed => exact Or.inl rfl
        | data bytes =>
            by_cases hb : bytes = []
            · simp [hb]
            · simpa [hb] using ih (got ++ bytes.take (n - got.length))
      · exact Or.inr rfl

end CodingLearners.TcpServer
