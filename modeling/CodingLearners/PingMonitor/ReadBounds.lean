import CodingLearners.PingMonitor.Ping

/-!
# The bytes that `recv_ping` reads

Each turn of the loop reads the length of the IP header, and of a packet that is long
enough the fields of the ICMP header, one after another as far as they match. The time of
sending is read behind the header, of which alone the length has been checked.
-/

namespace CodingLearners.PingMonitor

open ByteMemory

/-- A read of some bytes of `recv_data`. -/
structure Read where
  address : Nat
  width : Nat
  deriving DecidableEq, Repr

/-- The read stays inside of a datagram of `len` bytes. -/
def Read.Within (len : Nat) (read : Read) : Prop := read.address + read.width ≤ len

/-- The result of a turn, if it ends the loop, and what it has read from `recv_data`. -/
structure Turn where
  result : Option PingResult
  reads : List Read
  deriving DecidableEq, Repr

/-- The turn of the loop for a datagram of `recvLen` bytes that is in `recvData`. -/
def turn (getpid : Int) (packNo : UInt16) (recvLen : Nat) (tvrecv : Timeval) (recvData : Memory) :
    Turn :=
  let icmp := iphdrlen recvData
  let header : List Read := [{ address := 0, width := 1 }]
  if (recvLen : Int) - icmp < 8 then { result := some .failed, reads := header }
  else
    let type : Read := { address := icmp, width := 1 }
    if load recvData icmp 1 ≠ ICMP_ECHOREPLY then { result := none, reads := header ++ [type] }
    else
      let id : Read := { address := icmp + 4, width := 2 }
      if (load recvData (icmp + 4) 2 : Int) ≠ getpid then
        { result := none, reads := header ++ [type, id] }
      else
        let seq : Read := { address := icmp + 6, width := 2 }
        if load recvData (icmp + 6) 2 ≠ packNo.toNat then
          { result := none, reads := header ++ [type, id, seq] }
        else
          let tvsend : List Read :=
            [{ address := icmp + 8, width := 8 }, { address := icmp + 16, width := 8 }]
          { result := some (.roundTrip (elapsed tvrecv recvData))
            reads := header ++ [type, id, seq] ++ tvsend }

/-- The datagrams that `recv_ping` receives, with the turn that each of them gets. -/
def turns (getpid : Int) (packNo : UInt16) (recvDataLen : Nat) :
    Memory → List Arrival → List (List UInt8 × Turn)
  | _, [] => []
  | _, .notReady :: _ => []
  | _, .recvfromFailed :: _ => []
  | recvData, .datagram bytes tvrecv :: rest =>
      let received := bytes.take recvDataLen
      let recvData := fill recvData received
      let t := turn getpid packNo received.length tvrecv recvData
      (received, t) ::
        if t.result = none then turns getpid packNo recvDataLen recvData rest else []

variable {getpid : Int} {packNo : UInt16} {recvData : Memory} {tvrecv : Timeval}
  {recvDataLen : Nat}

theorem turn_short {recvLen : Nat} (h : (recvLen : Int) - iphdrlen recvData < 8) :
    turn getpid packNo recvLen tvrecv recvData =
      { result := some .failed, reads := [{ address := 0, width := 1 }] } :=
  if_pos h

/-- Of a packet that is long enough the answer alone ends the loop. -/
theorem turn_result {recvLen : Nat} (h : ¬ (recvLen : Int) - iphdrlen recvData < 8) :
    (turn getpid packNo recvLen tvrecv recvData).result =
      if isAnswer getpid packNo recvData = true then some (.roundTrip (elapsed tvrecv recvData))
      else none := by
  rw [turn, if_neg h, isAnswer]
  split
  · next htype => simp [htype]
  · split
    · next hid => simp [hid]
    · split
      · next hseq => simp [hseq]
      · next htype hid hseq =>
        rw [not_not] at htype hid hseq
        simp [htype, hid, hseq]

/-- The turns are those of `recv_ping`. -/
theorem recvPing_datagram (bytes : List UInt8) (rest : List Arrival) :
    recvPing getpid packNo recvDataLen recvData (.datagram bytes tvrecv :: rest) =
      (turn getpid packNo (bytes.take recvDataLen).length tvrecv
        (fill recvData (bytes.take recvDataLen))).result.or
        (recvPing getpid packNo recvDataLen (fill recvData (bytes.take recvDataLen)) rest) := by
  rw [recvPing]
  split
  · next hshort => rw [turn_short hshort, Option.some_or]
  · next hlong =>
    rw [turn_result hlong]
    split
    · rw [Option.some_or]
    · rw [Option.none_or]

/-- The reads in front of the time of sending are in a packet that is long enough. -/
theorem turn_reads {recvLen : Nat} (h : ¬ (recvLen : Int) - iphdrlen recvData < 8) :
    (∀ read ∈ (turn getpid packNo recvLen tvrecv recvData).reads, read.Within recvLen) ↔
      (isAnswer getpid packNo recvData = true → iphdrlen recvData + 24 ≤ recvLen) := by
  rw [turn, if_neg h, isAnswer]
  split
  · next htype =>
    simp [htype, Read.Within]
    omega
  · split
    · next hid =>
      simp [hid, Read.Within]
      omega
    · split
      · next hseq =>
        simp [hseq, Read.Within]
        omega
      · next htype hid hseq =>
        rw [not_not] at htype hid hseq
        simp [htype, hid, hseq, Read.Within]
        omega

/-! ## Sufficient datagrams -/

/-- A datagram that is not empty and, if it is taken for the answer, has the time of sending. -/
def Sufficient (getpid : Int) (packNo : UInt16) (received : List UInt8) : Prop :=
  received ≠ [] ∧
    (iphdrlen (packet received) + 8 ≤ received.length →
      isAnswer getpid packNo (packet received) = true →
      iphdrlen (packet received) + 24 ≤ received.length)

theorem fill_apply {received : List UInt8} {place : Nat} (h : place < received.length) :
    fill recvData received place = packet received place := by
  simp [packet, fill, h]

theorem load_fill {received : List UInt8} {address width : Nat}
    (h : address + width ≤ received.length) :
    load (fill recvData received) address width = load (packet received) address width := by
  apply load_congr
  intro place _ hhigh
  exact fill_apply (by omega)

/-- Inside of the datagram the buffer is the packet. -/
theorem isAnswer_fill {received : List UInt8}
    (hhdr : iphdrlen (fill recvData received) = iphdrlen (packet received))
    (h : iphdrlen (packet received) + 8 ≤ received.length) :
    isAnswer getpid packNo (fill recvData received) = isAnswer getpid packNo (packet received) := by
  rw [isAnswer, isAnswer, hhdr, load_fill (by omega), load_fill (by omega), load_fill (by omega)]

theorem turn_within_iff (received : List UInt8) :
    (∀ read ∈ (turn getpid packNo received.length tvrecv (fill recvData received)).reads,
      read.Within received.length) ↔ Sufficient getpid packNo received := by
  cases received with
  | nil =>
      rw [turn_short (by simp; omega)]
      simp [Read.Within, Sufficient]
  | cons first rest =>
      have hhdr : iphdrlen (fill recvData (first :: rest)) = iphdrlen (packet (first :: rest)) := by
        rw [iphdrlen, fill_apply (by simp), iphdrlen]
      have hlength : (first :: rest).length = rest.length + 1 := rfl
      rw [Sufficient]
      by_cases hshort : ((first :: rest).length : Int) -
          iphdrlen (fill recvData (first :: rest)) < 8
      · rw [turn_short hshort]
        rw [hhdr] at hshort
        simp [Read.Within]
        omega
      · rw [turn_reads hshort]
        rw [hhdr] at hshort ⊢
        rw [isAnswer_fill hhdr (by omega)]
        simp
        omega

/-- Each turn reads bytes of its own datagram only. -/
def ReadsWithin (ts : List (List UInt8 × Turn)) : Prop :=
  ∀ t ∈ ts, ∀ read ∈ t.2.reads, read.Within t.1.length

/-- In every run the reads stay inside of the datagrams that are received exactly if all of
these are sufficient. -/
theorem reads_within_iff (getpid : Int) (packNo : UInt16) (recvDataLen : Nat) (recvData : Memory)
    (arrivals : List Arrival) :
    ReadsWithin (turns getpid packNo recvDataLen recvData arrivals) ↔
      ∀ t ∈ turns getpid packNo recvDataLen recvData arrivals, Sufficient getpid packNo t.1 := by
  induction arrivals generalizing recvData with
  | nil => simp [turns, ReadsWithin]
  | cons arrival rest ih =>
      cases arrival with
      | notReady => simp [turns, ReadsWithin]
      | recvfromFailed => simp [turns, ReadsWithin]
      | datagram bytes tvrecv =>
          rw [turns, ReadsWithin]
          simp only [List.forall_mem_cons, turn_within_iff]
          apply and_congr_right
          intro _
          split
          · exact ih _
          · simp

/-- A reply that ends with its ICMP header. -/
def bareReply : List UInt8 :=
  0x45 :: List.replicate 19 0 ++ [0, 0, 0, 0] ++ [0xD2, 0x04, 0xF0, 0xFF]

/-- It is accepted, with a time of sending that is read behind its 28 bytes. -/
theorem bareReply_overread :
    ¬ ReadsWithin (turns 1234 65520 sizeofBuf (fun _ => 0)
      [.datagram bareReply { tvSec := 0, tvUsec := 0 }]) := by
  intro h
  have hwithin := h _ List.mem_cons_self { address := 28, width := 8 } (by decide)
  exact absurd hwithin (by rw [Read.Within]; decide)

end CodingLearners.PingMonitor
