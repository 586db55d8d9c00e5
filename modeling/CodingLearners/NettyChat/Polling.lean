import CodingLearners.NettyChat.HttpAndWebSocketServer

/-!
# What a poll is answered

The sids of upgrade requests are kept in a map of the channel that handled the
request, and a poll asks the map of its own channel for the id of this channel.
So a poll is answered for its sid only where these coincide.
-/

namespace CodingLearners.NettyChat

variable {asShortText : Nat → Text}

/-- The server with the upgrade requests handled so far: channel and sid. -/
structure Served where
  server : Server
  handled : List (Nat × Text)

/-- The request is an upgrade with a sid, and its handling does not throw. -/
def FullHttpRequest.UpgradesSid (request : FullHttpRequest) : Prop :=
  request.path.isSome = true ∧ request.isUpgrade = true ∧ request.handshake ≠ .throws ∧
    request.sid ≠ []

instance (request : FullHttpRequest) : Decidable request.UpgradesSid :=
  inferInstanceAs (Decidable (_ ∧ _ ∧ _ ∧ _))

/-- The channel and the sid of the upgrade request that this event handles. -/
def handledUpgrade (server : Server) : Event → Option (Nat × Text)
  | .request id request =>
      if (server.reads id false).isSome = true ∧ request.UpgradesSid then some (id, request.sid)
      else none
  | _ => none

def servedStep (asShortText : Nat → Text) (v : Served) (e : Event) : Served :=
  { server := serverStep asShortText v.server e
    handled := v.handled ++ (handledUpgrade v.server e).toList }

/-- The event is a poll with this sid, on a channel that reads requests. -/
def IsPoll (server : Server) (e : Event) (id : Nat) (request : FullHttpRequest) (sid : Text) :
    Prop :=
  e = .request id request ∧ (server.reads id false).isSome = true ∧ request.method = .get ∧
    request.isSocketIo = true ∧ request.sid? = some sid

/-- If this is a poll with a sid, it is answered with the noop packet if an upgrade
with this sid was handled on any channel, and else with a connect packet for it. -/
def PollAnswered (asShortText : Nat → Text) (v : Served) (e : Event) : Prop :=
  ∀ id request sid, IsPoll v.server e id request sid →
    (handle asShortText v.server e).2 = [.respond id "text/plain".toList
      (if sid ∈ v.handled.map Prod.snd then noopPacket else connectPacket sid)
      request.isKeepAlive]

/-- If this is a poll with a sid, the sid is not empty; and if an upgrade with it
was handled, then one with the polling channel's id as its sid was handled on
the polling channel, and else the sid is the polling channel's id. -/
def SidOfChannel (asShortText : Nat → Text) (v : Served) (e : Event) : Prop :=
  ∀ id request sid, IsPoll v.server e id request sid → sid ≠ [] ∧
    if sid ∈ v.handled.map Prod.snd then (id, asShortText id) ∈ v.handled else sid = asShortText id

/-- The map of a channel has the sids that were handled on it. -/
structure MapsKept (v : Served) : Prop where
  registered : Registered v.server
  kept : ∀ c ∈ v.server.channels, ∀ sid, sid ∈ c.nsidsup ↔ (c.id, sid) ∈ v.handled
  known : ∀ entry ∈ v.handled, entry.1 < v.server.accepted
  nonempty : ∀ entry ∈ v.handled, entry.2 ≠ []

theorem packets_head (sid : Text) :
    (openPacket sid).head? = some '0' ∧ (connectPacket sid).head? = some '4' ∧
      noopPacket.head? = some '6' := by
  have hopen : openHead.head? = some '0' := by decide
  have hconnect : connectHead.head? = some '4' := by decide
  refine ⟨?_, ?_, by decide⟩
  · rw [openPacket, List.head?_append, hopen, Option.some_or]
  · rw [connectPacket, List.head?_append, hconnect, Option.some_or]

theorem openPacket_ne (socketId sid : Text) :
    openPacket socketId ≠ noopPacket ∧ openPacket socketId ≠ connectPacket sid := by
  obtain ⟨hopen, -, hnoop⟩ := packets_head socketId
  obtain ⟨-, hconnect, -⟩ := packets_head sid
  constructor
  · intro heq
    rw [heq, hnoop] at hopen
    exact absurd hopen (by decide)
  · intro heq
    rw [heq, hconnect] at hopen
    exact absurd hopen (by decide)

theorem connectPacket_ne (sid : Text) : connectPacket sid ≠ noopPacket := by
  obtain ⟨-, hconnect, hnoop⟩ := packets_head sid
  intro heq
  rw [heq, hnoop] at hconnect
  exact absurd hconnect (by decide)

theorem connectPacket_inj {socketId sid : Text} :
    connectPacket socketId = connectPacket sid ↔ socketId = sid := by
  rw [connectPacket, connectPacket, List.append_right_inj, List.append_left_inj]

theorem isUpgrade_iff {request : FullHttpRequest} (hroot : request.uri ≠ "/".toList) :
    request.isUpgrade = true ↔
      request.upgradeWebsocket = true ∧ request.connectionUpgrade = true := by
  rw [FullHttpRequest.isUpgrade, Bool.and_eq_true, Bool.and_eq_true, bne_iff_ne, and_assoc]
  exact and_iff_right hroot

/-- The map of a channel after a request. -/
theorem readRequest_nsidsup (c : Channel) (request : FullHttpRequest) :
    (readRequest asShortText c request).1.nsidsup =
      if request.UpgradesSid then request.sid :: c.nsidsup else c.nsidsup := by
  rw [readRequest]
  cases hpath : request.path with
  | none => simp [FullHttpRequest.UpgradesSid, hpath]
  | some path =>
      by_cases hroot : request.uri = "/".toList
      · have hno : ¬ request.UpgradesSid := by
          rintro ⟨_, hboth, _⟩
          rw [FullHttpRequest.isUpgrade, hroot] at hboth
          simp at hboth
        simp only [if_pos hroot, if_neg hno]
      by_cases hupgrade : request.upgradeWebsocket = true ∧ request.connectionUpgrade = true
      · have hkeeps : request.UpgradesSid ↔ request.handshake ≠ .throws ∧ request.sid ≠ [] := by
          simp [FullHttpRequest.UpgradesSid, isUpgrade_iff hroot, hpath, hupgrade]
        simp only [if_neg hroot, if_pos hupgrade, hkeeps]
        cases request.handshake <;> simp
      · have hno : ¬ request.UpgradesSid := by
          rintro ⟨_, hboth, _⟩
          exact hupgrade ((isUpgrade_iff hroot).mp hboth)
        simp only [if_neg hroot, if_neg hupgrade, if_neg hno]
        split
        · rfl
        split
        · split <;> rfl
        · rfl

/-- A channel that becomes active has an empty map. -/
theorem MapsKept.channelActive {v : Served} (h : MapsKept v) :
    MapsKept (servedStep asShortText v .channelActive) := by
  refine ⟨h.registered.step _, ?_, ?_, by simpa [servedStep, handledUpgrade] using h.nonempty⟩
  · intro c hc sid
    simp only [servedStep, serverStep, handle, handledUpgrade, Option.toList_none,
      List.append_nil, List.mem_append, List.mem_singleton] at hc ⊢
    rcases hc with hc | rfl
    · exact h.kept c hc sid
    · constructor
      · intro hmem
        cases hmem
      · intro hmem
        exact absurd (h.known _ hmem) (Nat.lt_irrefl _)
  · intro entry hentry
    simp only [servedStep, serverStep, handle, handledUpgrade, Option.toList_none,
      List.append_nil] at hentry ⊢
    exact Nat.lt_succ_of_lt (h.known entry hentry)

/-- A request that is read puts its sid into the map of its channel if it is an upgrade. -/
theorem MapsKept.request {v : Served} (h : MapsKept v) {channel : Channel}
    {request : FullHttpRequest} (hreads : v.server.reads channel.id false = some channel) :
    MapsKept (servedStep asShortText v (.request channel.id request)) := by
  obtain ⟨hmem, -, -⟩ := reads_eq_some hreads
  have hhandled : (servedStep asShortText v (.request channel.id request)).handled =
      v.handled ++ if request.UpgradesSid then [(channel.id, request.sid)] else [] := by
    simp only [servedStep, handledUpgrade, hreads, Option.isSome_some, true_and]
    split <;> rfl
  have hserver : (servedStep asShortText v (.request channel.id request)).server =
      { v.server with
        channels := v.server.channels.map fun c =>
          if c.id = channel.id then (readRequest asShortText channel request).1 else c } := by
    simp only [servedStep, serverStep, handle, hreads]
  have hadded : ∀ entry : Nat × Text,
      entry ∈ (if request.UpgradesSid then [(channel.id, request.sid)] else []) →
        entry = (channel.id, request.sid) ∧ request.UpgradesSid := by
    intro entry hentry
    split at hentry
    · next hupgrades => exact ⟨List.mem_singleton.mp hentry, hupgrades⟩
    · cases hentry
  refine ⟨h.registered.step _, ?_, ?_, ?_⟩
  · intro c' hc' sid
    rw [hserver] at hc'
    obtain ⟨c, hc, rfl⟩ := List.mem_map.mp hc'
    rw [hhandled, List.mem_append]
    by_cases heq : c.id = channel.id
    · rw [if_pos heq, readRequest_id, readRequest_nsidsup]
      have hold := h.kept channel hmem sid
      split
      · simp only [List.mem_cons, hold, Prod.mk.injEq, true_and, List.not_mem_nil, or_false]
        exact or_comm
      · simpa using hold
    · rw [if_neg heq, or_iff_left fun hnew => heq (congrArg Prod.fst (hadded _ hnew).1)]
      exact h.kept c hc sid
  · intro entry hentry
    rw [hhandled, List.mem_append] at hentry
    rw [hserver]
    rcases hentry with hentry | hentry
    · exact h.known entry hentry
    · rw [(hadded entry hentry).1]
      exact h.registered.known channel hmem
  · intro entry hentry
    rw [hhandled, List.mem_append] at hentry
    rcases hentry with hentry | hentry
    · exact h.nonempty entry hentry
    · rw [(hadded entry hentry).1]
      exact (hadded entry hentry).2.2.2.2

/-- A channel that becomes inactive takes its map with it. -/
theorem MapsKept.channelInactive {v : Served} (h : MapsKept v) (id : Nat) :
    MapsKept (servedStep asShortText v (.channelInactive id)) := by
  refine ⟨h.registered.step _, ?_, ?_, by simpa [servedStep, handledUpgrade] using h.nonempty⟩
  · intro c hc sid
    simp only [servedStep, serverStep, handle, handledUpgrade, Option.toList_none,
      List.append_nil] at hc ⊢
    exact h.kept c (List.mem_of_mem_filter hc) sid
  · intro entry hentry
    simp only [servedStep, serverStep, handle, handledUpgrade, Option.toList_none,
      List.append_nil] at hentry ⊢
    exact h.known entry hentry

theorem MapsKept.step {v : Served} (h : MapsKept v) (e : Event) :
    MapsKept (servedStep asShortText v e) := by
  cases e with
  | channelActive => exact h.channelActive
  | request id request =>
      cases hreads : v.server.reads id false with
      | none =>
          have hsame : servedStep asShortText v (.request id request) = v := by
            simp [servedStep, serverStep, handle, handledUpgrade, hreads]
          rw [hsame]
          exact h
      | some channel =>
          obtain ⟨-, rfl, -⟩ := reads_eq_some hreads
          exact h.request hreads
  | frame id frame =>
      have hsame : servedStep asShortText v (.frame id frame) = v := by
        simp only [servedStep, serverStep, handle, handledUpgrade, Option.toList_none,
          List.append_nil]
        split <;> rfl
      rw [hsame]
      exact h
  | channelInactive id => exact h.channelInactive id

/-- What a poll is answered by the handler of its channel. -/
theorem handle_poll {server : Server} {e : Event} {id : Nat} {request : FullHttpRequest}
    {sid : Text} (hpoll : IsPoll server e id request sid) :
    ∃ c ∈ server.channels, c.id = id ∧ (handle asShortText server e).2 =
      [.respond id "text/plain".toList (pollAnswer c.nsidsup (asShortText id) sid)
        request.isKeepAlive] := by
  obtain ⟨rfl, hreads, hget, hsocket, hsid⟩ := hpoll
  obtain ⟨c, hc⟩ := Option.isSome_iff_exists.mp hreads
  obtain ⟨hmem, rfl, _⟩ := reads_eq_some hc
  refine ⟨c, hmem, rfl, ?_⟩
  simp only [FullHttpRequest.isSocketIo, Bool.and_eq_true, bne_iff_ne, Bool.not_eq_true',
    beq_iff_eq] at hsocket
  obtain ⟨⟨hroot, hupgrade⟩, hpath⟩ := hsocket
  have hnot : ¬ (request.upgradeWebsocket = true ∧ request.connectionUpgrade = true) := by
    rwa [← isUpgrade_iff hroot, Bool.not_eq_true]
  have hlocal : request.sid = sid := by rw [FullHttpRequest.sid, hsid, Option.getD_some]
  simp only [handle, hc, readRequest, hpath, if_neg hroot, if_neg hnot, if_true, hget, hlocal,
    reduceCtorEq, if_false]

/-- A poll is answered for its sid exactly if the sid is the channel's own. -/
theorem pollAnswered_iff {v : Served} (h : MapsKept v) (e : Event) :
    PollAnswered asShortText v e ↔ SidOfChannel asShortText v e := by
  apply forall_congr'
  intro id
  apply forall_congr'
  intro request
  apply forall_congr'
  intro sid
  apply imp_congr_right
  intro hpoll
  obtain ⟨c, hc, rfl, hanswer⟩ := @handle_poll asShortText _ _ _ _ _ hpoll
  have hkept := h.kept c hc (asShortText c.id)
  rw [hanswer]
  simp only [List.cons.injEq, Action.respond.injEq, and_true, true_and]
  rw [pollAnswer]
  by_cases hempty : sid = []
  · rw [if_pos hempty]
    constructor
    · intro heq
      split at heq
      · exact absurd heq (openPacket_ne _ []).1
      · exact absurd heq (openPacket_ne _ sid).2
    · rintro ⟨hne, _⟩
      exact absurd hempty hne
  rw [if_neg hempty]
  simp only [List.contains_iff_mem, hkept, ne_eq, hempty, not_false_eq_true, true_and]
  by_cases hmem : (c.id, asShortText c.id) ∈ v.handled
  · rw [if_neg (not_not_intro hmem)]
    by_cases hupgraded : sid ∈ v.handled.map Prod.snd
    · simp only [if_pos hupgraded, hmem]
    · simp only [if_neg hupgraded]
      constructor
      · intro heq
        exact absurd heq.symm (connectPacket_ne sid)
      · rintro rfl
        exact absurd (List.mem_map_of_mem hmem) hupgraded
  · rw [if_pos hmem]
    by_cases hupgraded : sid ∈ v.handled.map Prod.snd
    · simp only [if_pos hupgraded, hmem, connectPacket_ne]
    · simp only [if_neg hupgraded, connectPacket_inj]
      exact eq_comm

/-- In a run every poll with a sid gets the noop packet if an upgrade with this sid
was handled before on any channel, and else a connect packet for the sid, if and
only if every poll's sid is the one of its own channel, as far as that is asked. -/
theorem poll_answered_iff (asShortText : Nat → Text) (events : List Event) :
    Runs.Steps (servedStep asShortText) (PollAnswered asShortText) ⟨started, []⟩ events ↔
    Runs.Steps (servedStep asShortText) (SidOfChannel asShortText) ⟨started, []⟩ events := by
  have hstart : MapsKept ⟨started, []⟩ :=
    ⟨started_registered, by simp [started], by simp, by simp⟩
  constructor
  · intro h
    apply Runs.Steps.imp MapsKept _ h hstart
    intro v e hkept hanswered
    exact ⟨hkept.step e, (pollAnswered_iff hkept e).mp hanswered⟩
  · intro h
    apply Runs.Steps.imp MapsKept _ h hstart
    intro v e hkept hsid
    exact ⟨hkept.step e, (pollAnswered_iff hkept e).mpr hsid⟩

/-- A request for `/socket.io/` with the sid `A`. -/
def requestA (upgrade : Bool) : FullHttpRequest :=
  ⟨.get, "/socket.io/?sid=A".toList, some (some "/socket.io/".toList), true, upgrade, upgrade,
    [("sid".toList, ['A'])], .completed⟩

/-- The channels are called `A` and `B`. -/
def idText (id : Nat) : Text := if id = 0 then ['A'] else ['B']

/-- The first channel is told the sid `A` and polls; the second one upgrades with
this sid, and the first one polls again. -/
def upgradeOnOther : List Event :=
  [.channelActive, .channelActive, .request 1 (requestA true), .request 0 (requestA false)]

/-- The poll is answered with a connect packet, although the upgrade was handled. -/
theorem poll_after_upgrade :
    let v := Runs.run (servedStep idText) ⟨started, []⟩ (upgradeOnOther.take 3)
    v.handled = [(1, ['A'])] ∧
    (handle idText v.server (.request 0 (requestA false))).2 =
      [.respond 0 "text/plain".toList (connectPacket ['A']) true] ∧
    ¬ Runs.Steps (servedStep idText) (PollAnswered idText) ⟨started, []⟩ upgradeOnOther := by
  refine ⟨by decide, by decide, ?_⟩
  intro h
  have hanswer := h.2.2.2.1 0 (requestA false) ['A'] ⟨rfl, by decide, rfl, by decide, by decide⟩
  exact absurd hanswer (by decide)

end CodingLearners.NettyChat
