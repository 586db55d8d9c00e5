import CodingLearners.Library.GreedyPattern
import CodingLearners.Library.Runs
import Mathlib.Data.List.Nodup

/-!
# `HttpAndWebSocketServer.java`

Every channel has its own `WebSocketServerHandler` and `HttpServerHandler`, and
all channels share the list `wbschannels`. One event is handled at a time.

## Implementation notes

What Netty and `java.net` do with a request is a field of the request: its parsed
path and parameters, the tests of its headers, and the outcome of the handshake.
A completed handshake replaces the HTTP codec, so a channel receives requests
before it and WebSocket frames after it. A channel that the server closes goes
inactive in an event of its own.
-/

namespace CodingLearners.NettyChat

open GreedyPattern

abbrev Text := List Char

/-! ## Requests and frames -/

/-- What `handleWebSocketHandshake` comes to for a request. -/
inductive Handshake
  | completed
  | unsupportedVersion
  | throws
  deriving DecidableEq, Repr

inductive HttpMethod
  | get
  | post
  | other
  deriving DecidableEq, Repr

/-- A `FullHttpRequest`. `path` is the result of `new URI(uri).getPath()`, which
throws or may be null. -/
structure FullHttpRequest where
  method : HttpMethod
  uri : Text
  path : Option (Option Text)
  isKeepAlive : Bool
  upgradeWebsocket : Bool
  connectionUpgrade : Bool
  parameters : List (Text × Text)
  handshake : Handshake

/-- The first value of the parameter `sid`, if there is one. -/
def FullHttpRequest.sid? (request : FullHttpRequest) : Option Text :=
  request.parameters.lookup "sid".toList

/-- The local `sid`, empty without this parameter. -/
def FullHttpRequest.sid (request : FullHttpRequest) : Text := request.sid?.getD []

inductive WebSocketFrame
  | text (text : Text)
  | binary
  | ping (data : List UInt8)
  | pong (data : List UInt8)
  | close
  deriving DecidableEq, Repr

/-- What the server does with a channel. A body is sent with its own length, and
the channel is closed after a response unless it is to be kept. -/
inductive Action
  | writeFrame (channel : Nat) (frame : WebSocketFrame)
  | redirect (channel : Nat) (location : Text)
  | respond (channel : Nat) (contentType body : Text) (keepAlive : Bool)
  | handshake (channel : Nat) (outcome : Handshake)
  | serveResource (channel : Nat) (name : Text) (keepAlive : Bool)
  | close (channel : Nat)
  deriving DecidableEq, Repr

/-! ## The handlers -/

/-- A channel with the keys of its map `nsidsup` and its current codec. -/
structure Channel where
  id : Nat
  nsidsup : List Text
  upgraded : Bool
  deriving DecidableEq, Repr

/-- The channels that are active, the shared list, and how many channels there were. -/
structure Server where
  channels : List Channel
  wbschannels : List Nat
  accepted : Nat

/-- `.`, which matches no line terminator -/
def isDot (c : Char) : Bool := !(['\n', '\r', '\u0085', '\u2028', '\u2029'].contains c)

/-- `\d+\["(.+)","(.+)"]` -/
def messagePattern : List (GreedyPattern.Part Char) :=
  .run Char.isDigit :: literal "[\"".toList ++ .run isDot :: literal "\",\"".toList ++
    .run isDot :: literal "\"]".toList

/-- The text is passed on to all channels. -/
def isChatMessage (text : Text) : Bool :=
  text != "2probe".toList &&
    match find messagePattern text with
    | some [_, substring1, _] => substring1 == "chat message".toList
    | _ => false

/-- `WebSocketServerHandler.channelRead0` -/
def readFrame (server : Server) (channel : Nat) : WebSocketFrame → List Action
  | .text text =>
      if text = "2probe".toList then [.writeFrame channel (.text "3probe".toList)]
      else if isChatMessage text = true then
        server.wbschannels.map fun channel => .writeFrame channel (.text text)
      else []
  | .ping data => [.writeFrame channel (.pong data)]
  | .binary => []
  | .pong _ => []
  | .close => []

def openHead : Text := "0\x7b\"sid\":\"".toList

def openTail : Text :=
  "\",\"upgrades\":[\"websocket\"],\"pingInterval\":25000,\"pingTimeout\":60000\x7d".toList

def openPacket (socketId : Text) : Text := openHead ++ (socketId ++ openTail)

def connectHead : Text := "40\x7b\"sid\":\"".toList

def connectPacket (socketId : Text) : Text := connectHead ++ (socketId ++ "\"\x7d".toList)

def noopPacket : Text := "6".toList

/-- The value of `getrestval` for a poll, where `socketId` is the short text of
the id of the polling channel. -/
def pollAnswer (nsidsup : List Text) (socketId sid : Text) : Text :=
  if sid = [] then openPacket socketId
  else if ¬ nsidsup.contains socketId then connectPacket socketId
  else noopPacket

/-- The request is taken for an upgrade. -/
def FullHttpRequest.isUpgrade (request : FullHttpRequest) : Bool :=
  request.uri != "/".toList && request.upgradeWebsocket && request.connectionUpgrade

/-- The request is taken for a poll, or a post, of `/socket.io/`. -/
def FullHttpRequest.isSocketIo (request : FullHttpRequest) : Bool :=
  request.uri != "/".toList && !request.isUpgrade &&
    request.path == some (some "/socket.io/".toList)

/-- `HttpServerHandler.channelRead0`: the map and the codec of the channel
afterwards, and the actions. `asShortText` gives the short text of a channel's id. -/
def readRequest (asShortText : Nat → Text) (channel : Channel) (request : FullHttpRequest) :
    Channel × List Action :=
  match request.path with
  | none => (channel, [.close channel.id])
  | some ttpath =>
      if request.uri = "/".toList then (channel, [.redirect channel.id "/index.html".toList])
      else if request.upgradeWebsocket = true ∧ request.connectionUpgrade = true then
        let nsidsup :=
          if request.sid ≠ [] then request.sid :: channel.nsidsup else channel.nsidsup
        match request.handshake with
        | .completed =>
            ({ channel with nsidsup := nsidsup, upgraded := true },
              [.handshake channel.id .completed])
        | .unsupportedVersion =>
            ({ channel with nsidsup := nsidsup }, [.handshake channel.id .unsupportedVersion])
        -- thrown before the map is written
        | .throws => (channel, [.handshake channel.id .throws, .close channel.id])
      else
        match ttpath with
        -- `ttpath.equals` on null
        | none => (channel, [.close channel.id])
        | some ttpath =>
            if ttpath = "/socket.io/".toList then
              if request.method = .post then
                (channel,
                  [.respond channel.id "text/html".toList "ok".toList request.isKeepAlive])
              else
                (channel, [.respond channel.id "text/plain".toList
                  (pollAnswer channel.nsidsup (asShortText channel.id) request.sid)
                  request.isKeepAlive])
            else (channel, [.serveResource channel.id (request.uri.drop 1) request.isKeepAlive])

/-! ## Events -/

inductive Event
  | channelActive
  | request (channel : Nat) (request : FullHttpRequest)
  | frame (channel : Nat) (frame : WebSocketFrame)
  | channelInactive (channel : Nat)

/-- The active channel with this id. -/
def Server.channel? (server : Server) (id : Nat) : Option Channel :=
  server.channels.find? fun channel => channel.id == id

/-- The active channel with this id, if it has the codec `upgraded`. -/
def Server.reads (server : Server) (id : Nat) (upgraded : Bool) : Option Channel :=
  (server.channel? id).filter fun channel => channel.upgraded == upgraded

/-- One event with the actions it leads to. Every channel that becomes active is
a new one, and a channel reads only what its codec decodes. -/
def handle (asShortText : Nat → Text) (server : Server) : Event → Server × List Action
  | .channelActive =>
      ({ channels := server.channels ++ [⟨server.accepted, [], false⟩]
         wbschannels := server.wbschannels ++ [server.accepted]
         accepted := server.accepted + 1 }, [])
  | .request id request =>
      match server.reads id false with
      | some channel =>
          let served := readRequest asShortText channel request
          ({ server with
              channels := server.channels.map fun c => if c.id = id then served.1 else c },
            served.2)
      | none => (server, [])
  | .frame id frame =>
      match server.reads id true with
      | some _ => (server, readFrame server id frame)
      | none => (server, [])
  | .channelInactive id =>
      ({ server with
          channels := server.channels.filter fun c => c.id != id
          wbschannels := server.wbschannels.erase id }, [])

/-- The server before the first connection. -/
def started : Server := ⟨[], [], 0⟩

def serverStep (asShortText : Nat → Text) (server : Server) (e : Event) : Server :=
  (handle asShortText server e).1

/-! ## Channels -/

/-- The shared list has exactly the active channels, each of them once. -/
structure Registered (server : Server) : Prop where
  listed : server.wbschannels = server.channels.map Channel.id
  nodup : (server.channels.map Channel.id).Nodup
  known : ∀ c ∈ server.channels, c.id < server.accepted

section Registered

variable {asShortText : Nat → Text} {server : Server}

theorem readRequest_id (channel : Channel) (request : FullHttpRequest) :
    (readRequest asShortText channel request).1.id = channel.id := by
  rw [readRequest]
  split
  · rfl
  split
  · rfl
  split
  · dsimp only
    cases request.handshake <;> rfl
  split
  · rfl
  split
  · split <;> rfl
  · rfl

theorem reads_eq_some {id : Nat} {upgraded : Bool} {channel : Channel}
    (h : server.reads id upgraded = some channel) :
    channel ∈ server.channels ∧ channel.id = id ∧ channel.upgraded = upgraded := by
  obtain ⟨hfind, hcodec⟩ := Option.filter_eq_some_iff.mp h
  refine ⟨List.mem_of_find?_eq_some hfind, ?_, by simpa using hcodec⟩
  simpa using List.find?_some hfind

/-- An active channel is found under its id. -/
theorem reads_of_mem (hids : (server.channels.map Channel.id).Nodup) {channel : Channel}
    (hmem : channel ∈ server.channels) :
    server.reads channel.id channel.upgraded = some channel := by
  have hfound : server.channel? channel.id = some channel := by
    cases hfind : server.channel? channel.id with
    | none =>
        have hno := List.find?_eq_none.mp hfind channel hmem
        simp at hno
    | some other =>
        have hid : other.id = channel.id := by simpa using List.find?_some hfind
        rw [List.inj_on_of_nodup_map hids (List.mem_of_find?_eq_some hfind) hmem hid]
  simp [Server.reads, hfound]

/-- The number of a new channel is that of no other. -/
theorem Registered.accepted_notMem (h : Registered server) :
    server.accepted ∉ server.channels.map Channel.id := by
  intro hmem
  obtain ⟨c, hc, hid⟩ := List.mem_map.mp hmem
  exact absurd (h.known c hc) (by omega)

/-- Channels that keep their numbers stay registered. -/
theorem Registered.update (h : Registered server) {f : Channel → Channel}
    (hf : ∀ c, (f c).id = c.id) :
    Registered { server with channels := server.channels.map f } := by
  have hids : (server.channels.map f).map Channel.id = server.channels.map Channel.id := by
    rw [List.map_map]
    exact List.map_congr_left fun c _ => hf c
  constructor
  · rw [hids]
    exact h.listed
  · rw [hids]
    exact h.nodup
  · intro c hc
    obtain ⟨d, hd, rfl⟩ := List.mem_map.mp hc
    rw [hf]
    exact h.known d hd

/-- Whatever happens, the shared list has the active channels. -/
theorem Registered.step (h : Registered server) (e : Event) :
    Registered (serverStep asShortText server e) := by
  cases e with
  | channelActive =>
      constructor
      · simp [serverStep, handle, h.listed]
      · simp only [serverStep, handle, List.map_append, List.map_cons, List.map_nil]
        rw [List.nodup_append_comm, List.singleton_append, List.nodup_cons]
        exact ⟨h.accepted_notMem, h.nodup⟩
      · intro c hc
        simp only [serverStep, handle, List.mem_append, List.mem_singleton] at hc ⊢
        rcases hc with hc | rfl
        · exact Nat.lt_succ_of_lt (h.known c hc)
        · exact Nat.lt_succ_self _
  | request id request =>
      simp only [serverStep, handle]
      cases hreads : server.reads id false with
      | none => exact h
      | some channel =>
          obtain ⟨hmem, hid, _⟩ := reads_eq_some hreads
          apply h.update
          intro c
          split
          · next heq => rw [readRequest_id, hid, heq]
          · rfl
  | frame id frame =>
      simp only [serverStep, handle]
      split <;> exact h
  | channelInactive id =>
      have hids : (server.channels.filter fun c => c.id != id).map Channel.id =
          (server.channels.map Channel.id).erase id := by
        rw [h.nodup.erase_eq_filter, List.filter_map]
        rfl
      constructor
      · simp only [serverStep, handle, hids, h.listed]
      · simp only [serverStep, handle, hids]
        exact h.nodup.erase id
      · intro c hc
        exact h.known c (List.mem_of_mem_filter hc)

theorem started_registered : Registered started := ⟨rfl, by simp [started], by simp [started]⟩

end Registered

end CodingLearners.NettyChat
