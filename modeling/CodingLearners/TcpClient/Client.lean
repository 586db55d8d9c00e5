import CodingLearners.TcpClient.Frame
import CodingLearners.TcpClient.NetRecv

/-!
# A run of `tcpclient`

`main` connects, sends its one message, waits for an answer, shows it and closes the socket.
Each of the steps can fail, two of them wait in a loop of their own, and every exit has its
own `close`. `send` is called without `MSG_NOSIGNAL` and no signal is handled: where nobody
is at the other end the process dies in it, by `SIGPIPE`, with the socket open.

## Implementation notes

What the system answers is input: the descriptor, the outcome of `connect`, for each pass of
a waiting loop the reading of the clock and the result of `select`, and what becomes of
`send`. Beyond the last pass there is no result. The address and the ports only decide about
these answers; the options of the command line are taken as they are parsed. Descriptors are
below `FD_SETSIZE`, and what is printed is taken to be printed. At its end `main` has no
`return`, which is a status of 0.
-/

namespace CodingLearners.TcpClient

open ByteMemory

/-- `select` on a socket that is to be written, with `FD_ISSET` behind it. -/
inductive WriteSelect
  | failed
  | timeout
  | ready (isset : Bool)

inductive ConnectResult
  | connected
  | inProgress
  | failed

/-- `SO_ERROR`: one of the two errors that are looked at, or another value, with 0 for none. -/
inductive SoError
  | etimedout
  | econnrefused
  | other
  deriving DecidableEq

/-- What the system answers while the client connects; `getsockopt` can fail. -/
structure ConnectAnswers where
  tm : Int
  sfd : Int
  connect : ConnectResult
  passes : List (Int × WriteSelect)
  sockopt : Option SoError

/-- `send` returns, or its signal kills the process. -/
inductive SendResult
  | returned (ret : Int)
  | sigpipe
  deriving DecidableEq

/-- The calls of the client. -/
inductive Call
  | socket (fd : Int)
  | setNonblock (fd : Int) (nonblock : Bool)
  | connect (fd : Int)
  | send (fd : Int) (bytes : List UInt8) (sent : SendResult)
  | recvAll (fd : Int) (ret : Int)
  | close (fd : Int)
  deriving DecidableEq

/-- A loop that waits for a socket to be writable: whether it fails, or how `FD_ISSET`
finds the socket behind it. -/
def waitWritable (tm limit : Int) : List (Int × WriteSelect) → Option (Option Bool)
  | [] => none
  | (now, select) :: passes =>
      if now - tm > limit then some none
      else
        match select with
        | .timeout => waitWritable tm limit passes
        | .failed => some none
        | .ready isset => some (some isset)

/-- `TCPConnect` with its `timeout_sec`. -/
def tcpConnect (timeoutSec : Int) (answers : ConnectAnswers) : Option (Int × List Call) :=
  let sfd := answers.sfd
  if timeoutSec ≤ 0 then some (-1, [])
  else if sfd = -1 ∨ sfd = 0 then some (-1, [.socket sfd])
  else
    -- a failing bind is only reported
    let calls := [.socket sfd, .setNonblock sfd true, .connect sfd]
    match answers.connect with
    | .connected => some (sfd, calls)
    | .failed => some (-1, calls ++ [.close sfd])
    | .inProgress =>
        (waitWritable answers.tm (timeoutSec * 1000) answers.passes).map fun waited =>
          match waited with
          | none => (-1, calls ++ [.close sfd])
          | some isset =>
              if isset = true ∧ (answers.sockopt = none ∨ answers.sockopt = some .etimedout ∨
                  answers.sockopt = some .econnrefused) then
                (-1, calls ++ [.close sfd])
              else (sfd, calls ++ [.setNonblock sfd false])

/-- What the system answers while the client sends. -/
structure SendAnswers where
  tm : Int
  passes : List (Int × WriteSelect)
  sent : SendResult

/-- `Net_Send(Sock, SendBuf, nlen, timeout_ms)` -/
def netSend (sock : Int) (bytes : List UInt8) (timeoutMs : Int) (answers : SendAnswers) :
    Option (SendResult × List Call) :=
  (waitWritable answers.tm timeoutMs answers.passes).map fun waited =>
    match waited with
    | none => (.returned (-1), [])
    | some false => (.returned 0, [])
    | some true => (answers.sent, [.send sock bytes answers.sent])

/-- `strncpyz(dest, src, max)`: the length of the copy, and `dest`. -/
def strncpyz (dest : Memory) (src : List UInt8) (max : Nat) : Nat × Memory :=
  if max < 1 then (0, dest)
  else
    let len := if src.length < max - 1 then src.length else max - 1
    (len, Function.update (write dest 0 (src.take len)) len 0)

def CONNECT_TM : Int := 5

def MAX_REC_SZ : Int := 1024

/-- The options and the message of the command line, if there is one. -/
structure Arguments where
  binary : Bool
  message : Option (List UInt8)

/-- All that the system answers, with the bytes that come in. -/
structure Answers where
  connect : ConnectAnswers
  send : SendAnswers
  selects : Nat → Select
  socket : Socket
  tm : Int
  clock : List Int

/-- The process exits with a status, or is killed. -/
inductive Ending
  | exit (status : Int)
  | sigpipe
  deriving DecidableEq

/-- How the process ends, its calls, and the bytes it has shown. -/
structure Outcome where
  ending : Ending
  calls : List Call
  shown : Option (List UInt8)
  deriving DecidableEq

/-- The bytes that are handed to `Net_Send`. -/
def sendBytes (layout : Layout) (sendBuf : Memory) (binary : Bool) (arg : List UInt8) :
    Option (List UInt8) :=
  if binary = true then frame layout sendBuf arg
  else
    let (cnt, sendBuf) := strncpyz sendBuf arg MAX_SEND_SZ
    some (slice sendBuf 0 cnt)

/-- What is shown of an answer: a text ends with its first null. -/
def showReceived (binary : Bool) (cnt : Int) (receiveBuf : Memory) : Option (List UInt8) :=
  if 0 < cnt then
    let receiveBuf := Function.update receiveBuf cnt.toNat 0
    if binary = true then some (slice receiveBuf 0 cnt.toNat)
    else some (cString receiveBuf 0 cnt.toNat)
  else none

/-- `main`, behind the parsing of the options. -/
def clientMain (layout : Layout) (sendBuf receiveBuf : Memory) (parm : Arguments)
    (answers : Answers) : Option Outcome :=
  match parm.message with
  | none => some ⟨.exit 1, [], none⟩
  | some arg =>
      if parm.binary = true ∧ arg.all isxdigit = false then some ⟨.exit 1, [], none⟩
      else do
        let (sock, calls) ← tcpConnect CONNECT_TM answers.connect
        if sock = -1 then return ⟨.exit (-1), calls, none⟩
        let bytes ← sendBytes layout sendBuf parm.binary arg
        let (sent, sending) ← netSend sock bytes 100 answers.send
        match sent with
        | .sigpipe => return ⟨.sigpipe, calls ++ sending, none⟩
        | .returned ret =>
            if ret < 0 then return ⟨.exit (-1), calls ++ sending ++ [.close sock], none⟩
            let (cnt, state) ← netRecvAll answers.selects 100 receiveBuf MAX_REC_SZ answers.socket
              answers.tm answers.clock
            return ⟨.exit 0, calls ++ sending ++ [.recvAll sock cnt, .close sock],
              showReceived parm.binary cnt state.memory⟩

/-! ## The steps -/

/-- The clock passes the limit while a loop waits. -/
def Elapses (tm limit : Int) (passes : List (Int × WriteSelect)) : Prop :=
  ∃ pass ∈ passes, pass.1 - tm > limit

theorem waitWritable_returns {tm limit : Int} {passes : List (Int × WriteSelect)}
    (h : Elapses tm limit passes) : ∃ waited, waitWritable tm limit passes = some waited := by
  induction passes with
  | nil => simp [Elapses] at h
  | cons pass passes ih =>
      obtain ⟨now, select⟩ := pass
      rw [waitWritable.eq_def]
      dsimp only
      by_cases hlate : now - tm > limit
      · rw [if_pos hlate]
        exact ⟨none, rfl⟩
      · rw [if_neg hlate]
        cases select with
        | timeout =>
            obtain ⟨pass, hpass, hpast⟩ := h
            rcases List.mem_cons.mp hpass with rfl | hpass
            · exact absurd hpast hlate
            · exact ih ⟨pass, hpass, hpast⟩
        | failed => exact ⟨none, rfl⟩
        | ready isset => exact ⟨some isset, rfl⟩

/-- How `TCPConnect` ends: without a socket, with a socket that it has closed, or with one
that is connected as far as it can tell. -/
inductive Connecting (sfd : Int) : Int → List Call → Prop
  | noSocket (hsfd : sfd = -1 ∨ sfd = 0) : Connecting sfd (-1) [.socket sfd]
  | closed (hsfd : ¬ (sfd = -1 ∨ sfd = 0)) : Connecting sfd (-1)
      [.socket sfd, .setNonblock sfd true, .connect sfd, .close sfd]
  | atOnce (hsfd : ¬ (sfd = -1 ∨ sfd = 0)) :
      Connecting sfd sfd [.socket sfd, .setNonblock sfd true, .connect sfd]
  | waited (hsfd : ¬ (sfd = -1 ∨ sfd = 0)) : Connecting sfd sfd
      [.socket sfd, .setNonblock sfd true, .connect sfd, .setNonblock sfd false]

theorem tcpConnect_returns {timeoutSec : Int} {answers : ConnectAnswers} (htime : 0 < timeoutSec)
    (h : Elapses answers.tm (timeoutSec * 1000) answers.passes) :
    ∃ sock calls, tcpConnect timeoutSec answers = some (sock, calls) ∧
      Connecting answers.sfd sock calls := by
  rw [tcpConnect, if_neg (by omega)]
  by_cases hsfd : answers.sfd = -1 ∨ answers.sfd = 0
  · rw [if_pos hsfd]
    exact ⟨_, _, rfl, .noSocket hsfd⟩
  · rw [if_neg hsfd]
    cases answers.connect with
    | connected => exact ⟨_, _, rfl, .atOnce hsfd⟩
    | failed => exact ⟨_, _, rfl, .closed hsfd⟩
    | inProgress =>
        obtain ⟨waited, hwaited⟩ := waitWritable_returns h
        simp only [hwaited, Option.map_some]
        cases waited with
        | none => exact ⟨_, _, rfl, .closed hsfd⟩
        | some isset =>
            dsimp only
            split
            · exact ⟨_, _, rfl, .closed hsfd⟩
            · exact ⟨_, _, rfl, .waited hsfd⟩

/-- How `Net_Send` ends: without a `send`, with one that returns, or inside one. -/
inductive Sending (sock : Int) (bytes : List UInt8) : SendResult → List Call → Prop
  | unsent (ret : Int) : Sending sock bytes (.returned ret) []
  | returned (ret : Int) :
      Sending sock bytes (.returned ret) [.send sock bytes (.returned ret)]
  | killed : Sending sock bytes .sigpipe [.send sock bytes .sigpipe]

theorem netSend_returns {sock timeoutMs : Int} {bytes : List UInt8} {answers : SendAnswers}
    (h : Elapses answers.tm timeoutMs answers.passes) :
    ∃ sent calls, netSend sock bytes timeoutMs answers = some (sent, calls) ∧
      Sending sock bytes sent calls := by
  obtain ⟨waited, hwaited⟩ := waitWritable_returns h
  rw [netSend, hwaited, Option.map_some]
  rcases waited with _ | _ | _
  · exact ⟨_, _, rfl, .unsent (-1)⟩
  · exact ⟨_, _, rfl, .unsent 0⟩
  · cases answers.sent with
    | returned ret => exact ⟨_, _, rfl, .returned ret⟩
    | sigpipe => exact ⟨_, _, rfl, .killed⟩

/-- A message that is there, and is of digits where digits are asked for. -/
def Usable (parm : Arguments) (arg : List UInt8) : Prop :=
  parm.message = some arg ∧ (parm.binary = true → arg.all isxdigit = true)

/-- Of a text the first 255 bytes are sent. -/
theorem sendBytes_text (layout : Layout) (sendBuf : Memory) (arg : List UInt8) :
    sendBytes layout sendBuf false arg = some (arg.take 255) := by
  have hlen : (if arg.length < MAX_SEND_SZ - 1 then arg.length else MAX_SEND_SZ - 1) =
      (arg.take 255).length := by
    rw [List.length_take, MAX_SEND_SZ]
    split <;> omega
  have htake : arg.take (arg.take 255).length = arg.take 255 := by
    rw [List.length_take, ← List.take_take, List.take_length]
  simp only [sendBytes, strncpyz, Bool.false_eq_true, if_false, hlen, htake]
  rw [if_neg (by decide), slice_update_of_ge _ _ (by omega), slice_write]

theorem Usable.passes {parm : Arguments} {arg : List UInt8} (h : Usable parm arg) :
    ¬ (parm.binary = true ∧ arg.all isxdigit = false) := by
  rintro ⟨hbinary, hbad⟩
  rw [h.2 hbinary] at hbad
  exact Bool.noConfusion hbad

/-- What is handed to `send`: the frame of the digits, or the first 255 bytes of a text. -/
def HandedOver (layout : Layout) (sendBuf : Memory) (binary : Bool) (arg bytes : List UInt8) :
    Prop :=
  if binary = true then frame layout sendBuf arg = some bytes else bytes = arg.take 255

theorem sendBytes_returns (layout : Layout) (sendBuf : Memory) {parm : Arguments}
    {arg : List UInt8} (h : Usable parm arg) :
    ∃ bytes, sendBytes layout sendBuf parm.binary arg = some bytes ∧
      HandedOver layout sendBuf parm.binary arg bytes := by
  cases hbinary : parm.binary with
  | false => exact ⟨_, sendBytes_text layout sendBuf arg, rfl⟩
  | true =>
      rw [sendBytes, if_pos rfl, frame_eq layout sendBuf (List.all_eq_true.mp (h.2 hbinary))]
      exact ⟨_, rfl, frame_eq layout sendBuf (List.all_eq_true.mp (h.2 hbinary))⟩

theorem firstBytes_prefix (selects : Nat → Select) (maxlength : Int) (socket : Socket) :
    firstBytes selects maxlength socket <+: socket.bytes ∧
      (firstBytes selects maxlength socket).length ≤ 20 := by
  rw [firstBytes]
  cases selects 0 with
  | ready arrived =>
      have hpending := pending_prefix socket arrived
      exact ⟨(List.take_prefix _ _).trans hpending, (List.length_take_le _ _).trans (by omega)⟩
  | _ => exact ⟨List.nil_prefix, Nat.zero_le _⟩

/-- What is shown is the front of what comes in, at most 20 bytes of it. -/
theorem showReceived_netRecvAll (selects : Nat → Select) (memory : Memory) (tm now : Int)
    (socket : Socket) (later : List Int) (binary : Bool) :
    ∃ cnt state, netRecvAll selects 100 memory MAX_REC_SZ socket tm (now :: later) =
      some (cnt, state) ∧ ∀ shown, showReceived binary cnt state.memory = some shown →
        shown <+: socket.bytes ∧ shown.length ≤ 20 := by
  have hresult := @netRecvAll_eq selects memory 100 MAX_REC_SZ tm now socket later (by decide)
    (by decide)
  obtain ⟨⟨cnt, state⟩, hrecv, hpair⟩ := Option.map_eq_some_iff.mp hresult
  refine ⟨cnt, state, hrecv, fun shown hshown => ?_⟩
  obtain ⟨hcnt, hmemory⟩ := Prod.ext_iff.mp hpair
  rw [showReceived] at hshown
  by_cases hpos : 0 < cnt
  swap
  · rw [if_neg hpos] at hshown
    cases hshown
  rw [if_pos hpos] at hshown
  -- only a pass with data returns a count above 0
  have hdata : cnt = (firstBytes selects MAX_REC_SZ socket).length ∧
      state.memory = write memory 0 (firstBytes selects MAX_REC_SZ socket) := by
    dsimp only at hcnt hmemory
    split at hcnt
    · split at hcnt
      · omega
      · next hlate hnil =>
        rw [if_pos hlate, if_neg hnil] at hmemory
        exact ⟨hcnt, hmemory⟩
    · omega
  have hslice : slice (Function.update state.memory cnt.toNat 0) 0 cnt.toNat =
      firstBytes selects MAX_REC_SZ socket := by
    rw [slice_update_of_ge _ _ (by omega), hdata.1, hdata.2, Int.toNat_natCast, slice_write]
  obtain ⟨hfront, hlength⟩ := firstBytes_prefix selects MAX_REC_SZ socket
  dsimp only at hshown
  split at hshown
  · obtain rfl := Option.some.inj hshown
    rw [hslice]
    exact ⟨hfront, hlength⟩
  · obtain rfl := Option.some.inj hshown
    rw [cString, hslice]
    have htext := List.takeWhile_prefix (p := (· != 0)) (l := firstBytes selects MAX_REC_SZ socket)
    exact ⟨htext.trans hfront, htext.length_le.trans hlength⟩

/-! ## The run -/

/-- The process is killed by its one `send`, which is its last call. -/
def Killed (fd : Int) (bytes : List UInt8) (connecting : List Call) (outcome : Outcome) : Prop :=
  outcome = ⟨.sigpipe, .socket fd :: connecting ++ [.send fd bytes .sigpipe], none⟩

/-- The process exits, and the last call closes the socket. Before that there is at most one
`send`, and an answer is waited for exactly if the status is 0. -/
def Closed (fd : Int) (bytes : List UInt8) (connecting : List Call) (outcome : Outcome) : Prop :=
  ∃ status sending receiving, outcome.ending = .exit status ∧
    outcome.calls = .socket fd :: connecting ++ sending ++ receiving ++ [.close fd] ∧
    (sending = [] ∨ ∃ ret, sending = [.send fd bytes (.returned ret)] ∧ (status = 0 ↔ 0 ≤ ret)) ∧
    (status = -1 ∧ receiving = [] ∧ outcome.shown = none ∨
      status = 0 ∧ ∃ cnt, receiving = [.recvAll fd cnt])

/-- The run of a client with the open socket `fd`, which is closed once, by the last call,
unless `send` kills the process. -/
def Orderly (fd : Int) (bytes : List UInt8) (outcome : Outcome) : Prop :=
  ∃ connecting : List Call,
    (∀ call ∈ connecting, call = .connect fd ∨ ∃ nonblock, call = .setNonblock fd nonblock) ∧
    (Killed fd bytes connecting outcome ∨ Closed fd bytes connecting outcome)

section Run

variable {layout : Layout} {sendBuf receiveBuf : Memory} {parm : Arguments} {answers : Answers}

/-- Without a message, or with one that is not of digits, nothing is called. -/
theorem clientMain_unusable (h : ∀ arg, ¬ Usable parm arg) :
    clientMain layout sendBuf receiveBuf parm answers = some ⟨.exit 1, [], none⟩ := by
  rw [clientMain]
  cases hmessage : parm.message with
  | none => rfl
  | some arg =>
      have hbad : parm.binary = true ∧ arg.all isxdigit = false := by
        simpa [Usable, hmessage] using h arg
      dsimp only
      rw [if_pos hbad]

/-- `main` behind a `TCPConnect` that returns the socket. -/
def afterConnect (sock cnt : Int) (calls sending : List Call) (shown : Option (List UInt8)) :
    SendResult → Outcome
  | .sigpipe => ⟨.sigpipe, calls ++ sending, none⟩
  | .returned ret =>
      if ret < 0 then ⟨.exit (-1), calls ++ sending ++ [.close sock], none⟩
      else ⟨.exit 0, calls ++ sending ++ [.recvAll sock cnt, .close sock], shown⟩

theorem orderly_afterConnect {fd cnt : Int} {bytes : List UInt8} {sent : SendResult}
    {connecting sending : List Call} (shown : Option (List UInt8))
    (hconnecting : ∀ call ∈ connecting,
      call = .connect fd ∨ ∃ nonblock, call = .setNonblock fd nonblock)
    (hsending : Sending fd bytes sent sending) :
    Orderly fd bytes (afterConnect fd cnt (.socket fd :: connecting) sending shown sent) := by
  refine ⟨connecting, hconnecting, ?_⟩
  have hexit {ret : Int} (hcalls : sending = [] ∨ sending = [.send fd bytes (.returned ret)]) :
      Closed fd bytes connecting
        (afterConnect fd cnt (.socket fd :: connecting) sending shown (.returned ret)) := by
    rw [afterConnect]
    by_cases hret : ret < 0
    · rw [if_pos hret]
      refine ⟨-1, sending, [], rfl, by simp, ?_, Or.inl ⟨rfl, rfl, rfl⟩⟩
      exact hcalls.imp_right fun h => ⟨ret, h, by omega⟩
    · rw [if_neg hret]
      refine ⟨0, sending, [.recvAll fd cnt], rfl, by simp, ?_, Or.inr ⟨rfl, cnt, rfl⟩⟩
      exact hcalls.imp_right fun h => ⟨ret, h, by omega⟩
  cases hsending with
  | unsent ret => exact Or.inr (hexit (Or.inl rfl))
  | returned ret => exact Or.inr (hexit (Or.inr rfl))
  | killed => exact Or.inl rfl

/-- What is shown was handed in. -/
theorem afterConnect_shown {sock cnt : Int} {calls sending : List Call}
    {shown : Option (List UInt8)} {sent : SendResult} {bytes : List UInt8}
    (h : (afterConnect sock cnt calls sending shown sent).shown = some bytes) :
    shown = some bytes := by
  cases sent with
  | sigpipe => cases h
  | returned ret =>
      rw [afterConnect] at h
      split at h
      · cases h
      · exact h

/-- With the socket open every way through `main` is orderly. -/
theorem clientMain_open {arg bytes : List UInt8} {sock : Int} {calls : List Call}
    (husable : Usable parm arg)
    (hconnect : tcpConnect CONNECT_TM answers.connect = some (sock, calls))
    (hopened : ¬ (answers.connect.sfd = -1 ∨ answers.connect.sfd = 0))
    (hconnecting : Connecting answers.connect.sfd sock calls)
    (hbytes : sendBytes layout sendBuf parm.binary arg = some bytes)
    (hsend : Elapses answers.send.tm 100 answers.send.passes) (hclock : answers.clock ≠ []) :
    ∃ outcome, clientMain layout sendBuf receiveBuf parm answers = some outcome ∧
      Orderly answers.connect.sfd bytes outcome ∧
      ∀ shown, outcome.shown = some shown →
        shown <+: answers.socket.bytes ∧ shown.length ≤ 20 := by
  obtain ⟨sent, sending, hsent, hcalls⟩ := @netSend_returns sock 100 bytes answers.send hsend
  obtain ⟨now, later, hcons⟩ := List.exists_cons_of_ne_nil hclock
  obtain ⟨cnt, state, hrecv, hshown⟩ := showReceived_netRecvAll answers.selects receiveBuf
    answers.tm now answers.socket later parm.binary
  have hmain : clientMain layout sendBuf receiveBuf parm answers = some
      (if sock = -1 then ⟨.exit (-1), calls, none⟩
      else afterConnect sock cnt calls sending (showReceived parm.binary cnt state.memory)
        sent) := by
    simp only [clientMain, husable.1, if_neg husable.passes, hconnect, hbytes, hsent, hcons, hrecv,
      Option.bind_eq_bind, Option.bind_some]
    split
    · rfl
    · cases sent with
      | sigpipe => rfl
      | returned ret =>
          rw [afterConnect]
          dsimp only
          split <;> rfl
  refine ⟨_, hmain, ?_, ?_⟩
  · cases hconnecting with
    | noSocket hsfd => exact absurd hsfd hopened
    | closed =>
        rw [if_pos rfl]
        exact ⟨[.setNonblock _ true, .connect _], by simp,
          Or.inr ⟨-1, [], [], rfl, rfl, Or.inl rfl, Or.inl ⟨rfl, rfl, rfl⟩⟩⟩
    | atOnce =>
        rw [if_neg fun heq => hopened (Or.inl heq)]
        exact orderly_afterConnect _ (by simp) hcalls
    | waited =>
        rw [if_neg fun heq => hopened (Or.inl heq)]
        exact orderly_afterConnect _ (by simp) hcalls
  · intro shown heq
    split at heq
    · cases heq
    · exact hshown shown (afterConnect_shown heq)

end Run

/-- Once the clock has passed the limits of its waiting loops the client has ended, whatever
the system answered. Without a usable message it calls nothing; a socket that it got, other
than 0, it closes exactly once and last, with at most one `send` before, unless it dies in
that; what it sends is the first 255 bytes of a text, or the frame of the digits; and what it
shows is the front of what came in. -/
theorem client_run (layout : Layout) (sendBuf receiveBuf : Memory) (parm : Arguments)
    (answers : Answers)
    (hconnect : Elapses answers.connect.tm (CONNECT_TM * 1000) answers.connect.passes)
    (hsend : Elapses answers.send.tm 100 answers.send.passes) (hclock : answers.clock ≠ []) :
    ∃ outcome, clientMain layout sendBuf receiveBuf parm answers = some outcome ∧
      ((∀ arg, ¬ Usable parm arg) → outcome = ⟨.exit 1, [], none⟩) ∧
      (∀ arg, Usable parm arg →
        if answers.connect.sfd = -1 ∨ answers.connect.sfd = 0 then
          outcome = ⟨.exit (-1), [.socket answers.connect.sfd], none⟩
        else ∃ bytes, HandedOver layout sendBuf parm.binary arg bytes ∧
          Orderly answers.connect.sfd bytes outcome) ∧
      ∀ shown, outcome.shown = some shown →
        shown <+: answers.socket.bytes ∧ shown.length ≤ 20 := by
  by_cases hmessage : ∃ arg, Usable parm arg
  swap
  · rw [not_exists] at hmessage
    refine ⟨_, clientMain_unusable hmessage, fun _ => rfl, ?_, ?_⟩
    · exact fun arg husable => absurd husable (hmessage arg)
    · intro shown heq
      cases heq
  obtain ⟨arg, husable⟩ := hmessage
  have honly : ∀ arg', Usable parm arg' → arg' = arg := fun arg' h =>
    Option.some.inj (h.1.symm.trans husable.1)
  obtain ⟨sock, calls, hcalled, hconnecting⟩ := tcpConnect_returns (by decide) hconnect
  by_cases hsfd : answers.connect.sfd = -1 ∨ answers.connect.sfd = 0
  · have hmain : clientMain layout sendBuf receiveBuf parm answers =
        some ⟨.exit (-1), [.socket answers.connect.sfd], none⟩ := by
      cases hconnecting with
      | noSocket _ =>
          simp only [clientMain, husable.1, if_neg husable.passes, hcalled, Option.bind_eq_bind,
            Option.bind_some, if_true]
          rfl
      | closed hopened | atOnce hopened | waited hopened => exact absurd hsfd hopened
    refine ⟨_, hmain, fun hunusable => absurd husable (hunusable arg), ?_, ?_⟩
    · intro arg' _
      rw [if_pos hsfd]
    · intro shown heq
      cases heq
  · obtain ⟨bytes, hbytes, hhanded⟩ := sendBytes_returns layout sendBuf husable
    obtain ⟨outcome, hmain, horderly, hshown⟩ :=
      clientMain_open husable hcalled hsfd hconnecting hbytes hsend hclock
    refine ⟨outcome, hmain, fun hunusable => absurd husable (hunusable arg), ?_, hshown⟩
    intro arg' husable'
    rw [if_neg hsfd, honly arg' husable']
    exact ⟨bytes, hhanded, horderly⟩

/-- A server that is there after one pass, takes the frame whole and answers two bytes. -/
def answered (sent : SendResult) : Answers where
  connect := ⟨0, 3, .inProgress, [(1, .timeout), (1002, .ready true), (6000, .timeout)],
    some .other⟩
  send := ⟨1002, [(1003, .ready true), (2000, .timeout)], sent⟩
  selects _ := .ready 0
  socket := ⟨[7, 8], []⟩
  tm := 1004
  clock := [1005]

/-- The digits `9d` are sent in a frame of four bytes, and what is answered is shown; where
the peer is gone the socket stays open. -/
theorem client_run_answered :
    (∃ outcome, clientMain .standard (fun _ => 0) (fun _ => 0) ⟨true, some [57, 100]⟩
        (answered (.returned 4)) = some outcome ∧
      Orderly 3 [0xbe, 4, 0x9d, 0] outcome ∧ outcome.shown = some [7, 8]) ∧
    ∃ outcome, clientMain .standard (fun _ => 0) (fun _ => 0) ⟨true, some [57, 100]⟩
        (answered .sigpipe) = some outcome ∧
      Orderly 3 [0xbe, 4, 0x9d, 0] outcome ∧ Call.close 3 ∉ outcome.calls := by
  have hrun (sent : SendResult) : ∃ outcome, clientMain .standard (fun _ => 0) (fun _ => 0)
      ⟨true, some [57, 100]⟩ (answered sent) = some outcome ∧
        Orderly 3 [0xbe, 4, 0x9d, 0] outcome := by
    obtain ⟨outcome, hmain, -, hopen, -⟩ := client_run .standard (fun _ => 0) (fun _ => 0)
      ⟨true, some [57, 100]⟩ (answered sent)
      ⟨(6000, .timeout), by simp [answered], by simp [answered, CONNECT_TM]⟩
      ⟨(2000, .timeout), by simp [answered], by simp [answered]⟩ (by simp [answered])
    have hsocket := hopen [57, 100] ⟨rfl, fun _ => by decide⟩
    have hopened : ¬ ((answered sent).connect.sfd = -1 ∨ (answered sent).connect.sfd = 0) := by
      simp [answered]
    rw [if_neg hopened] at hsocket
    obtain ⟨bytes, hhanded, horderly⟩ := hsocket
    have hframe : frame .standard (fun _ => 0) [57, 100] = some [0xbe, 4, 0x9d, 0] := by decide
    obtain rfl := Option.some.inj (hhanded.symm.trans hframe)
    exact ⟨outcome, hmain, horderly⟩
  obtain ⟨returned, hreturned, hwell⟩ := hrun (.returned 4)
  obtain ⟨killed, hkilled, hdead⟩ := hrun .sigpipe
  refine ⟨⟨returned, hreturned, hwell, ?_⟩, killed, hkilled, hdead, ?_⟩
  · have hshown : (clientMain .standard (fun _ => 0) (fun _ => 0) ⟨true, some [57, 100]⟩
        (answered (.returned 4))).map Outcome.shown = some (some [7, 8]) := by
      decide
    rw [hreturned] at hshown
    exact Option.some.inj hshown
  · have hcalls : (clientMain .standard (fun _ => 0) (fun _ => 0) ⟨true, some [57, 100]⟩
        (answered .sigpipe)).map Outcome.calls = some [.socket 3, .setNonblock 3 true, .connect 3,
          .setNonblock 3 false, .send 3 [0xbe, 4, 0x9d, 0] .sigpipe] := by
      decide
    rw [hkilled] at hcalls
    rw [Option.some.inj hcalls]
    decide

end CodingLearners.TcpClient
