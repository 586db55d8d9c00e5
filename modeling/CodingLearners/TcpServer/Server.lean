import CodingLearners.Library.IndexedPass
import CodingLearners.Library.Runs
import CodingLearners.TcpServer.LinkedList
import CodingLearners.TcpServer.Socket

/-!
# `start_svr_thread`

One turn of the `while (!server_thread_stop_flag)` loop is a step of the
machine below. What the process cannot foresee in a turn (the stop flag, the
result of `select`, the accepted descriptor, the allocations, the answers of
each `recv` and `send`, the clock) is the `Round`. The observable actions are
logged in `trace`, with the `calloc`ed block of a client as its identity.

## Implementation notes

A client's record is kept in its list node, so a store through `tcp_client` is
`SList.store`. `need_write_ptr` only ever points into `auto_send_buff` and is
kept as an offset; it is null only while `need_write_size` is zero. A `send`
that raises a signal ends the process and is not a step.
-/

namespace CodingLearners.TcpServer

open IndexedPass

/-- `struct tcp_socket_client`, as far as the loop reads it; `record` names the block. -/
structure TcpSocketClient where
  record : Nat
  socketFd : Int
  needWriteSize : Int
  needWritePtr : Nat
  deriving DecidableEq, Repr

/-- `et_context_data`, as far as the loop reads it. -/
structure EtContextData where
  localServerAutoSendCycle : Int
  localServerAutoSendDataSize : Int

/-- The three places from which the loop calls `tcp_sendn`. -/
inductive SendSite
  | echo
  | pending
  | autoSend
  deriving DecidableEq, Repr

/-- The actions of the thread that another party can observe. -/
inductive Event
  | socket (fd : Int)
  | accept (fd : Int)
  | close (fd : Int)
  | calloc (record : Nat)
  | free (record : Nat)
  | recv (record : Nat) (block : List UInt8)
  | send (record : Nat) (site : SendSite) (accepted : List UInt8)
  | sprintf (number : Int)
  deriving DecidableEq, Repr

/-- What `select` returns, with the descriptors it leaves in the three sets. -/
inductive SelectResult
  | failed (eintr : Bool)
  | timeout
  | ready (readfds writefds exceptfds : Int → Bool)

/-- Everything outside the process that one turn of the loop depends on. The
`send` scripts serve the loop over the ready clients, the `autoSend` scripts
the loop that starts new frames; a client is visited once in each. -/
structure Round where
  stop : Bool
  select : SelectResult
  connectfd : Int
  fcntlOk : Bool
  callocOk : Bool
  mallocOk : Bool
  recv : Int → List RecvOutcome
  send : Int → List SendOutcome
  autoSend : Int → List SendOutcome
  clock : Int × Int

/-- A round in which `select` times out and nothing is allowed to go wrong. -/
def Round.quiet : Round :=
  ⟨false, .timeout, -1, true, true, true, fun _ => [], fun _ => [], fun _ => [], (0, 0)⟩

/-- The thread is in its loop, has returned, has called `exit`, or has faulted. -/
inductive Phase
  | serving
  | finished
  | exited
  | crashed
  deriving DecidableEq, Repr

structure ServerState where
  phase : Phase
  listenfd : Int
  clients : SList TcpSocketClient
  autoSendBuff : Nat → UInt8
  autoSendNumber : Int
  autoSendLasttm : Int
  records : Nat
  trace : List Event

/-! ## The shared buffer -/

/-- `sizeof(auto_send_buff)` -/
def sizeofAutoSendBuff : Nat := 1024 * 1024 * 10

/-- The `len` bytes that start at an offset of the buffer. -/
def bytesFrom (buff : Nat → UInt8) (offset len : Nat) : List UInt8 :=
  (List.range len).map fun j => buff (offset + j)

def memcpy (buff : Nat → UInt8) (src : List UInt8) : Nat → UInt8 :=
  fun i => src.getD i (buff i)

/-- The text that `%d` prints. -/
def decimalText (number : Int) : List UInt8 :=
  let digits := (Nat.toDigits 10 number.natAbs).map fun c => c.toNat.toUInt8
  if number < 0 then 45 :: digits else digits

/-- `sprintf((char *)auto_send_buff, "%d", number)`, with its terminating null. -/
def sprintf (buff : Nat → UInt8) (number : Int) : Nat → UInt8 :=
  memcpy buff (decimalText number ++ [0])

/-- `++` on an `int`. -/
def increment (number : Int) : Int := (number + 1).bmod 0x100000000

/-- The two copies of the server program. -/
inductive ServerCopy
  | tcpEchoServer
  | tcpServerTstUltrasonic
  deriving DecidableEq, Repr

def fillChr (i : Nat) : UInt8 := (48 + i % 10).toUInt8

def ultrasonic1 : List UInt8 :=
  [0x00, 0x00, 0x00, 0x00, 0x00, 0x00, 0x00, 0x02, 0x00, 0x00,
    0x3f, 0x3f, 0x3f, 0x3f, 0x3f, 0x3f, 0x3f, 0x3f, 0x00, 0x00]

def ultrasonic2 : List UInt8 :=
  [0x00, 0x00, 0x00, 0x00, 0x00, 0x00, 0x00, 0x02, 0x00, 0x00,
    0xbf, 0xbf, 0x9f, 0xbf, 0xbf, 0xbf, 0x3f, 0x3f, 0x00, 0x00]

/-- The buffer before the first turn of the loop. -/
def initialBuff (copy : ServerCopy) : Nat → UInt8 :=
  let filled := match copy with
    | .tcpEchoServer => fillChr
    | .tcpServerTstUltrasonic => memcpy (memcpy fillChr ultrasonic1) ultrasonic2
  fun i => if i = sizeofAutoSendBuff - 1 then 0 else filled i

/-! ## The loops over the client list -/

/-- A loop `for (i = 1; i < size; i++)` that reads client `i` with
`SL_Gethandle`, visits it, and where the visit frees the record calls
`SL_Delete(i)` and steps `size` and `i` back. What `SL_Delete` frees is
handed to `deleted`. -/
def forClients {τ : Type*} (visit : τ → TcpSocketClient → τ × Option TcpSocketClient)
    (deleted : τ → Option TcpSocketClient → τ) :
    Nat → Int → Int → SList TcpSocketClient → τ →
      Except Fault (SList TcpSocketClient × τ)
  | 0, _, _, list, s => .ok (list, s)
  | fuel + 1, size, i, list, s =>
      if i < size then
        match slGethandle list i none with
        | (0, some tcpClient) =>
            match visit s tcpClient with
            | (s', some tcpClient') =>
                forClients visit deleted fuel size (i + 1) (list.store i tcpClient') s'
            | (s', none) =>
                match slDeleteAt i 0 list.nodes with
                | .error e => .error e
                | .ok (_, nodes, freed) =>
                    forClients visit deleted fuel (size - 1) (i - 1 + 1)
                      { list with nodes := nodes } (deleted s' freed)
        | _ => forClients visit deleted fuel size (i + 1) list s
      else .ok (list, s)

/-- The loop from the first client, bounded by the size read before it. -/
def forEachClient {τ : Type*} (visit : τ → TcpSocketClient → τ × Option TcpSocketClient)
    (list : SList TcpSocketClient) (s : τ) : Except Fault (SList TcpSocketClient × τ) :=
  forClients visit (fun s _ => s) (slSize list).toNat (slSize list) 1 list s

/-- The descriptors put into the three sets before `select`. -/
structure FdSets where
  readfds : List Int
  writefds : List Int
  exceptfds : List Int

def fdSetVisit (sets : FdSets) (tcpClient : TcpSocketClient) :
    FdSets × Option TcpSocketClient :=
  if tcpClient.socketFd > 0 then
    ({ readfds := sets.readfds ++ [tcpClient.socketFd]
       exceptfds := sets.exceptfds ++ [tcpClient.socketFd]
       writefds := if tcpClient.needWriteSize ≠ 0 then sets.writefds ++ [tcpClient.socketFd]
        else sets.writefds }, some tcpClient)
  else (sets, some tcpClient)

/-- `FD_ISSET` after `select`, which only clears members of the sets it was given. -/
def fdIsset (asked : List Int) (left : Int → Bool) (fd : Int) : Bool :=
  asked.contains fd && left fd

/-- `close(tcp_client->socket_fd)` and `free(tcp_client)`. -/
def closeClient (trace : List Event) (tcpClient : TcpSocketClient) : List Event :=
  trace ++ [.close tcpClient.socketFd, .free tcpClient.record]

/-- The loop body after a failed `select`. -/
def selectErrorVisit (trace : List Event) (tcpClient : TcpSocketClient) :
    List Event × Option TcpSocketClient :=
  if tcpClient.socketFd > 0 then (closeClient trace tcpClient, none)
  else (trace, some tcpClient)

/-- The length asked of `tcp_recvn`: `sizeof(recv_buff) - 1`. -/
def recvBuffLen : Nat := 2047

/-- A readable client: receive one block and echo it. -/
def readVisit (r : Round) (trace : List Event) (tcpClient : TcpSocketClient) :
    List Event × Option TcpSocketClient :=
  let got := tcpRecvn recvBuffLen (r.recv tcpClient.socketFd)
  if got.ret < 0 then (closeClient trace tcpClient, none)
  else if got.ret > 0 then
    -- the result of this call is only compared and printed
    let echo := tcpSendn got.buff (r.send tcpClient.socketFd)
    (trace ++ [.recv tcpClient.record got.buff, .send tcpClient.record .echo echo.accepted],
      some tcpClient)
  else (trace, some tcpClient)

/-- A writable client: go on with the frame that `need_write_ptr` points into. -/
def pendingVisit (buff : Nat → UInt8) (r : Round) (trace : List Event)
    (tcpClient : TcpSocketClient) : List Event × Option TcpSocketClient :=
  let wrs := tcpSendn (bytesFrom buff tcpClient.needWritePtr tcpClient.needWriteSize.toNat)
    (r.send tcpClient.socketFd)
  (trace ++ [.send tcpClient.record .pending wrs.accepted],
    if wrs.ret < 0 then some tcpClient
    else some { tcpClient with
      needWriteSize := tcpClient.needWriteSize - wrs.ret
      needWritePtr := tcpClient.needWritePtr + wrs.ret.toNat })

/-- The loop body over the clients when the listening socket is not readable. -/
def clientEventVisit (buff : Nat → UInt8) (r : Round) (sets : FdSets)
    (readfds writefds exceptfds : Int → Bool)
    (trace : List Event) (tcpClient : TcpSocketClient) :
    List Event × Option TcpSocketClient :=
  let fd := tcpClient.socketFd
  if fd > 0 ∧ fdIsset sets.exceptfds exceptfds fd = true then
    (closeClient trace tcpClient, none)
  else if fd > 0 ∧ fdIsset sets.readfds readfds fd = true then readVisit r trace tcpClient
  else if fd > 0 ∧ fdIsset sets.writefds writefds fd = true then
    pendingVisit buff r trace tcpClient
  else (trace, some tcpClient)

/-- The loop that looks for a client without a pending frame. -/
def aliveVisit (sendAtleastAlive : Bool) (tcpClient : TcpSocketClient) :
    Bool × Option TcpSocketClient :=
  (sendAtleastAlive || tcpClient.needWriteSize == 0, some tcpClient)

/-- The loop body that starts a new frame for every client without a pending one. -/
def autoSendVisit (buff : Nat → UInt8) (sendSizePer : Nat) (r : Round)
    (trace : List Event) (tcpClient : TcpSocketClient) :
    List Event × Option TcpSocketClient :=
  if tcpClient.needWriteSize = 0 then
    let thissnd := tcpSendn (bytesFrom buff 0 sendSizePer) (r.autoSend tcpClient.socketFd)
    let trace' := trace ++ [.send tcpClient.record .autoSend thissnd.accepted]
    if thissnd.ret < 0 then (closeClient trace' tcpClient, none)
    else if thissnd.ret < sendSizePer then
      (trace', some { tcpClient with
        needWriteSize := sendSizePer - thissnd.ret
        needWritePtr := thissnd.ret.toNat })
    else (trace', some tcpClient)
  else (trace, some tcpClient)

/-- The loop body after the main loop. -/
def shutdownVisit (trace : List Event) (tcpClient : TcpSocketClient) :
    List Event × Option TcpSocketClient :=
  (closeClient trace tcpClient, none)

/-! ## One turn of the loop -/

/-- The listening socket is readable. The flag of the result is `continue`,
which skips the rest of the turn. -/
def acceptClient (r : Round) (σ : ServerState) : ServerState × Bool :=
  if r.connectfd < 0 then (σ, true)
  else
    let σ := { σ with trace := σ.trace ++ [.accept r.connectfd] }
    if r.fcntlOk = false then ({ σ with phase := .exited }, true)
    else if r.callocOk = false then (σ, true)
    else
      let tcpClient : TcpSocketClient := ⟨σ.records, r.connectfd, 0, 0⟩
      ({ σ with
          clients := (slAdd σ.clients tcpClient r.mallocOk).2
          records := σ.records + 1
          trace := σ.trace ++ [.calloc tcpClient.record] }, false)

/-- A loop that logs into the trace, as an update of the server's state. -/
def ServerState.visitClients (σ : ServerState)
    (visit : List Event → TcpSocketClient → List Event × Option TcpSocketClient) :
    Except Fault ServerState :=
  match forEachClient visit σ.clients σ.trace with
  | .error e => .error e
  | .ok (list, trace) => .ok { σ with clients := list, trace := trace }

/-- What follows `select`, up to the timer. -/
def serveSelected (r : Round) (sets : FdSets) (σ : ServerState) :
    Except Fault (ServerState × Bool) :=
  match r.select with
  | .failed true => .ok (σ, false)
  | .failed false => (σ.visitClients selectErrorVisit).map fun σ' => (σ', false)
  | .timeout => .ok (σ, false)
  | .ready readfds writefds exceptfds =>
      if fdIsset sets.readfds readfds σ.listenfd = true then .ok (acceptClient r σ)
      else (σ.visitClients
        (clientEventVisit σ.autoSendBuff r sets readfds writefds exceptfds)).map
          fun σ' => (σ', false)

/-- `send_size_per`. -/
def sendSizePer (ctx : EtContextData) : Nat :=
  if ctx.localServerAutoSendDataSize > 0 ∧
      ctx.localServerAutoSendDataSize < sizeofAutoSendBuff then
    ctx.localServerAutoSendDataSize.toNat
  else sizeofAutoSendBuff

/-- The number and the buffer after the decision to send a new frame. -/
def nextFrame (σ : ServerState) : ServerState :=
  let number := increment σ.autoSendNumber
  { σ with
      autoSendNumber := number
      autoSendBuff := sprintf σ.autoSendBuff number
      trace := σ.trace ++ [.sprintf number] }

/-- The branch under `if (context_data->local_server_auto_send_cycle)`. -/
def autoSendClients (ctx : EtContextData) (r : Round) (σ : ServerState) :
    Except Fault ServerState :=
  match forEachClient aliveVisit σ.clients false with
  | .error e => .error e
  | .ok (_, sendAtleastAlive) =>
      let σ := if sendAtleastAlive then nextFrame σ else σ
      σ.visitClients (autoSendVisit σ.autoSendBuff (sendSizePer ctx) r)

def SelectResult.isTimeout : SelectResult → Bool
  | .timeout => true
  | _ => false

/-- `retselect == 0 || eti_get_millisec() - auto_send_lasttm >= cycle` -/
def timerDue (ctx : EtContextData) (r : Round) (σ : ServerState) : Bool :=
  r.select.isTimeout || decide (r.clock.1 - σ.autoSendLasttm ≥ ctx.localServerAutoSendCycle)

/-- The part of a turn that runs when the timer is due. -/
def serveTimer (ctx : EtContextData) (r : Round) (σ : ServerState) :
    Except Fault ServerState :=
  if timerDue ctx r σ = true then
    let σ := { σ with autoSendLasttm := r.clock.2 }
    if ctx.localServerAutoSendCycle ≠ 0 then autoSendClients ctx r σ else .ok σ
  else .ok σ

/-- The body of the main loop up to the timer: the sets, `select`, and the
accepted or served clients. The flag is `continue`. -/
def serveReady (r : Round) (σ : ServerState) : Except Fault (ServerState × Bool) :=
  match forEachClient fdSetVisit σ.clients ⟨[σ.listenfd], [], []⟩ with
  | .error e => .error e
  | .ok (_, sets) => serveSelected r sets σ

/-- The body of the main loop. -/
def serveTurn (ctx : EtContextData) (r : Round) (σ : ServerState) :
    Except Fault ServerState :=
  match serveReady r σ with
  | .error e => .error e
  | .ok (σ', true) => .ok σ'
  | .ok (σ', false) => serveTimer ctx r σ'

/-- What follows the main loop. -/
def shutdown (σ : ServerState) : Except Fault ServerState :=
  let closed : ServerState := { σ with trace := σ.trace ++ [Event.close σ.listenfd] }
  match closed.visitClients shutdownVisit with
  | .error e => .error e
  | .ok σ' => .ok { σ' with phase := .finished }

/-- One turn: the loop condition, then the body or what follows the loop. -/
def serverStep (ctx : EtContextData) (σ : ServerState) (r : Round) : ServerState :=
  match σ.phase with
  | .serving =>
      match if r.stop then shutdown σ else serveTurn ctx r σ with
      | .error _ => { σ with phase := .crashed }
      | .ok σ' => σ'
  | _ => σ

/-- How far the thread gets before its loop, with the listening descriptor. -/
inductive Setup
  | socketFailed
  | bindFailed (fd : Int)
  | listenFailed (fd : Int)
  | listening (fd : Int)

/-- The thread at its first loop head, or finished where the setup failed.
`unset` is what the memory of the list's head node held. -/
def startUp (copy : ServerCopy) (unset : Option TcpSocketClient) (now : Int) :
    Setup → ServerState
  | .socketFailed => ⟨.finished, -1, ⟨unset, []⟩, fun _ => 0, 0, 0, 0, []⟩
  | .bindFailed fd => ⟨.finished, -1, ⟨unset, []⟩, fun _ => 0, 0, 0, 0, [.socket fd, .close fd]⟩
  | .listenFailed fd =>
      ⟨.finished, fd, ⟨unset, []⟩, fun _ => 0, 0, 0, 0, [.socket fd, .close fd]⟩
  | .listening fd => ⟨.serving, fd, ⟨unset, []⟩, initialBuff copy, 0, now, 0, [.socket fd]⟩

/-- `start_svr_thread`, as far as the given rounds take it. -/
def startSvrThread (ctx : EtContextData) (start : ServerState) (rounds : List Round) :
    ServerState :=
  Runs.run (serverStep ctx) start rounds

/-- `et_destroy_context`, whose `et_destroy_list` frees every record still in the list. -/
def etDestroyContext (σ : ServerState) : List Event :=
  σ.trace ++ σ.clients.nodes.map fun tcpClient => .free tcpClient.record

end CodingLearners.TcpServer
