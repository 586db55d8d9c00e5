import CodingLearners.NettyChat.HttpAndWebSocketServer
import Mathlib.Data.List.Count

/-!
# Who a chat message is written to

The shared list has every active channel, whether or not its handshake was
completed. A chat message goes to the WebSocket peers and to no other channel
exactly when every channel is a peer at that time.
-/

namespace CodingLearners.NettyChat

variable {asShortText : Nat → Text} {server : Server}

/-- The channels that have completed the handshake and are still active. -/
def Server.peers (server : Server) : List Nat :=
  (server.channels.filter fun c => c.upgraded).map Channel.id

/-- If this is a chat message of a peer, it is written once to every peer, and to
no other channel. -/
def ChatToPeers (asShortText : Nat → Text) (server : Server) (e : Event) : Prop :=
  ∀ id text, e = .frame id (.text text) → id ∈ server.peers → isChatMessage text = true →
    ∀ d, (handle asShortText server e).2.count (.writeFrame d (.text text)) =
      if d ∈ server.peers then 1 else 0

/-- If this is a chat message of a peer, every active channel is a peer. -/
def OnlyPeersConnected (server : Server) (e : Event) : Prop :=
  ∀ id text, e = .frame id (.text text) → id ∈ server.peers → isChatMessage text = true →
    ∀ c ∈ server.channels, c.upgraded = true

theorem mem_peers_iff (hids : (server.channels.map Channel.id).Nodup) {c : Channel}
    (hc : c ∈ server.channels) : c.id ∈ server.peers ↔ c.upgraded = true := by
  constructor
  · intro h
    obtain ⟨d, hd, heq⟩ := List.mem_map.mp h
    obtain ⟨hmem, hupgraded⟩ := List.mem_filter.mp hd
    rwa [← List.inj_on_of_nodup_map hids hmem hc heq]
  · intro h
    exact List.mem_map.mpr ⟨c, List.mem_filter.mpr ⟨hc, h⟩, rfl⟩

/-- A peer's frames are read. -/
theorem reads_of_mem_peers (hids : (server.channels.map Channel.id).Nodup) {id : Nat}
    (hid : id ∈ server.peers) : ∃ channel, server.reads id true = some channel := by
  obtain ⟨c, hc, rfl⟩ := List.mem_map.mp hid
  obtain ⟨hmem, hupgraded⟩ := List.mem_filter.mp hc
  exact ⟨c, hupgraded ▸ reads_of_mem hids hmem⟩

/-- A chat message is written once to every active channel. -/
theorem count_chat (h : Registered server) {id : Nat} {text : Text} (hid : id ∈ server.peers)
    (hchat : isChatMessage text = true) (d : Nat) :
    (handle asShortText server (.frame id (.text text))).2.count (.writeFrame d (.text text)) =
      if d ∈ server.channels.map Channel.id then 1 else 0 := by
  obtain ⟨channel, hreads⟩ := reads_of_mem_peers h.nodup hid
  have hprobe : text ≠ "2probe".toList := by
    rintro rfl
    simp [isChatMessage] at hchat
  have hinj : Function.Injective fun channel => Action.writeFrame channel (.text text) := by
    intro a b heq
    simpa using heq
  simp only [handle, hreads, readFrame, hprobe, if_false, hchat, if_true]
  rw [List.count_map_of_injective _ _ hinj, h.listed]
  split
  · next hmem => exact List.count_eq_one_of_mem h.nodup hmem
  · next hno => exact List.count_eq_zero_of_not_mem hno

/-- One event keeps chat messages among the peers exactly if only peers are connected. -/
theorem chatToPeers_iff (h : Registered server) (e : Event) :
    ChatToPeers asShortText server e ↔ OnlyPeersConnected server e := by
  apply forall_congr'
  intro id
  apply forall_congr'
  intro text
  apply imp_congr_right
  rintro rfl
  apply imp_congr_right
  intro hid
  apply imp_congr_right
  intro hchat
  simp only [count_chat h hid hchat]
  constructor
  · intro hcount c hc
    have hone := hcount c.id
    rw [if_pos (List.mem_map_of_mem hc)] at hone
    rw [← mem_peers_iff h.nodup hc]
    by_contra hno
    rw [if_neg hno] at hone
    omega
  · intro hall d
    have hsame : d ∈ server.channels.map Channel.id ↔ d ∈ server.peers := by
      constructor
      · intro hd
        obtain ⟨c, hc, rfl⟩ := List.mem_map.mp hd
        exact (mem_peers_iff h.nodup hc).mpr (hall c hc)
      · intro hd
        exact List.map_subset _ (List.filter_subset_self _) hd
    simp only [hsame]

/-- In a run every chat message is written exactly once to each channel that has
completed the handshake and is still open, and to no other channel, if and only
if all open channels have completed it whenever a chat message arrives. -/
theorem chat_to_peers_iff (asShortText : Nat → Text) (events : List Event) :
    Runs.Steps (serverStep asShortText) (ChatToPeers asShortText) started events ↔
    Runs.Steps (serverStep asShortText) OnlyPeersConnected started events := by
  constructor
  · intro h
    apply Runs.Steps.imp Registered _ h started_registered
    intro server e hreg hchat
    exact ⟨hreg.step e, (chatToPeers_iff hreg e).mp hchat⟩
  · intro h
    apply Runs.Steps.imp Registered _ h started_registered
    intro server e hreg honly
    exact ⟨hreg.step e, (chatToPeers_iff hreg e).mpr honly⟩

/-- A request to upgrade, with a handshake that completes. -/
def upgradeRequest (parameters : List (Text × Text)) : FullHttpRequest :=
  ⟨.get, "/socket.io/".toList, some (some "/socket.io/".toList), true, true, true, parameters,
    .completed⟩

def helloMessage : Text := "42[\"chat message\",\"hello\"]".toList

/-- Two channels become active, and one of them completes the handshake and sends
a message. -/
def plainNextToPeer : List Event :=
  [.channelActive, .channelActive, .request 0 (upgradeRequest []), .frame 0 (.text helloMessage)]

/-- The message is written to the other channel too. -/
theorem chat_to_plain_channel :
    let server := Runs.run (serverStep fun _ => []) started (plainNextToPeer.take 3)
    server.peers = [0] ∧ isChatMessage helloMessage = true ∧
    (handle (fun _ => []) server (.frame 0 (.text helloMessage))).2 =
      [.writeFrame 0 (.text helloMessage), .writeFrame 1 (.text helloMessage)] ∧
    ¬ Runs.Steps (serverStep fun _ => []) (ChatToPeers fun _ => []) started plainNextToPeer := by
  refine ⟨by decide, by decide, by decide, ?_⟩
  intro h
  have hcount := h.2.2.2.1 0 helloMessage rfl (by decide) (by decide) 1
  exact absurd hcount (by decide)

end CodingLearners.NettyChat
