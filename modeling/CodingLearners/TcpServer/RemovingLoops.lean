import CodingLearners.TcpServer.Turn

/-!
# The loops that remove clients

Four loops of `start_svr_thread` free the record of a client, call `SL_Delete(i)` and
step `size` and `i` back: after a failed select, over the events of the clients, over the
new frames, and at the end. With a log of the visits and of the nodes that `SL_Delete`
frees, each of them is seen to visit every client once and to delete the node of the
record that it has just freed.
-/

namespace CodingLearners.TcpServer

open IndexedPass

/-- A pass of a loop: the client that it reads and what it does with it, or the node that
`SL_Delete` frees. -/
inductive LoopStep
  | visit (tcpClient : TcpSocketClient) (events : List Event)
  | delete (node : Option TcpSocketClient)
  deriving DecidableEq, Repr

section Logged

variable (visit : List Event → TcpSocketClient → List Event × Option TcpSocketClient)

/-- The visit as it is logged. -/
def visitStep (trace : List Event) (tcpClient : TcpSocketClient) : LoopStep :=
  .visit tcpClient ((visit trace tcpClient).1.drop trace.length)

/-- The state with its log, to which each visit adds itself. -/
def loggedVisit (s : List Event × List LoopStep) (tcpClient : TcpSocketClient) :
    (List Event × List LoopStep) × Option TcpSocketClient :=
  let seen := visit s.1 tcpClient
  ((seen.1, s.2 ++ [visitStep visit s.1 tcpClient]), seen.2)

def logDeleted (s : List Event × List LoopStep) (node : Option TcpSocketClient) :
    List Event × List LoopStep :=
  (s.1, s.2 ++ [.delete node])

/-- The loop of `forEachClient` with a log of its visits and of what `SL_Delete` frees. -/
def loggedForEachClient (list : SList TcpSocketClient) (trace : List Event) :
    Except Fault (SList TcpSocketClient × List Event × List LoopStep) :=
  forClients (loggedVisit visit) logDeleted (slSize list).toNat (slSize list) 1 list (trace, [])

end Logged

/-! ## The four loops -/

/-- The loops that remove clients, with what they read besides the clients. -/
inductive RemovingLoop
  | selectError
  | clientEvents (buff : Nat → UInt8) (r : Round) (sets : FdSets)
      (readfds writefds exceptfds : Int → Bool)
  | autoSend (buff : Nat → UInt8) (sendSizePer : Nat) (r : Round)
  | shutdown

namespace RemovingLoop

/-- The body of the loop. -/
def visit : RemovingLoop → List Event → TcpSocketClient → List Event × Option TcpSocketClient
  | selectError => selectErrorVisit
  | clientEvents buff r sets readfds writefds exceptfds =>
      clientEventVisit buff r sets readfds writefds exceptfds
  | autoSend buff sendSizePer r => autoSendVisit buff sendSizePer r
  | shutdown => shutdownVisit

/-- The condition under which a client is removed. -/
def removes : RemovingLoop → TcpSocketClient → Bool
  | selectError, c => decide (c.socketFd > 0)
  | clientEvents _ r sets readfds _ exceptfds, c =>
      decide (c.socketFd > 0) &&
        (fdIsset sets.exceptfds exceptfds c.socketFd ||
          (fdIsset sets.readfds readfds c.socketFd &&
            decide ((tcpRecvn recvBuffLen (r.recv c.socketFd)).ret < 0)))
  | autoSend buff sendSizePer r, c =>
      c.needWriteSize == 0 &&
        decide ((tcpSendn (bytesFrom buff 0 sendSizePer) (r.autoSend c.socketFd)).ret < 0)
  | shutdown, _ => true

/-- The actions of a visit. -/
def events (loop : RemovingLoop) (c : TcpSocketClient) : List Event := (loop.visit [] c).1

/-- The record of a client after a visit that does not remove it. -/
def after (loop : RemovingLoop) (c : TcpSocketClient) : TcpSocketClient :=
  (loop.visit [] c).2.getD c

/-- The passes that a client gets: its visit, and the deletion if it is removed. -/
def steps (loop : RemovingLoop) (c : TcpSocketClient) : List LoopStep :=
  .visit c (loop.events c) :: if loop.removes c = true then [.delete (some c)] else []

variable (loop : RemovingLoop) (c : TcpSocketClient)

theorem visit_append (trace : List Event) :
    loop.visit trace c = (trace ++ (loop.visit [] c).1, (loop.visit [] c).2) := by
  cases loop with
  | selectError =>
      simp only [visit, selectErrorVisit]
      split <;> simp [closeClient]
  | clientEvents buff r sets readfds writefds exceptfds =>
      simp only [visit, clientEventVisit]
      split
      · simp [closeClient]
      · split
        · simp only [readVisit]
          split
          · simp [closeClient]
          · split <;> simp
        · split <;> simp [pendingVisit]
  | autoSend buff sendSizePer r =>
      simp only [visit, autoSendVisit]
      split
      · split
        · simp [closeClient]
        · split <;> simp
      · simp
  | shutdown => simp [visit, shutdownVisit, closeClient]

/-- What a visit can do: remove its client, whose socket it closes and whose record it
frees, or keep the record and free nothing. -/
theorem visit_cases :
    (∃ before, loop.removes c = true ∧
      loop.visit [] c = (before ++ [.close c.socketFd, .free c.record], none)) ∨
    ∃ events c', loop.removes c = false ∧ loop.visit [] c = (events, some c') ∧
      (∀ record, .free record ∉ events) ∧ c'.record = c.record := by
  cases loop with
  | selectError =>
      simp only [visit, selectErrorVisit, removes]
      split
      · exact Or.inl ⟨[], by simp_all, rfl⟩
      · exact Or.inr ⟨[], c, by simp_all, rfl, by simp, rfl⟩
  | clientEvents buff r sets readfds writefds exceptfds =>
      simp only [visit, clientEventVisit, removes]
      split
      · exact Or.inl ⟨[], by simp_all, rfl⟩
      · split
        · simp only [readVisit]
          split
          · exact Or.inl ⟨[], by simp_all, rfl⟩
          · split
            · exact Or.inr ⟨_, c, by simp_all, rfl, by simp, rfl⟩
            · exact Or.inr ⟨[], c, by simp_all, rfl, by simp, rfl⟩
        · split
          · simp only [pendingVisit]
            split
            · exact Or.inr ⟨_, c, by simp_all, rfl, by simp, rfl⟩
            · exact Or.inr ⟨_, _, by simp_all, rfl, by simp, rfl⟩
          · exact Or.inr ⟨[], c, by simp_all, rfl, by simp, rfl⟩
  | autoSend buff sendSizePer r =>
      simp only [visit, autoSendVisit, removes]
      split
      · split
        · exact Or.inl ⟨_, by simp_all, rfl⟩
        · split
          · exact Or.inr ⟨_, _, by simp_all, rfl, by simp, rfl⟩
          · exact Or.inr ⟨_, c, by simp_all, rfl, by simp, rfl⟩
      · exact Or.inr ⟨[], c, by simp_all, rfl, by simp, rfl⟩
  | shutdown => exact Or.inl ⟨[], rfl, rfl⟩

/-- A visit adds its actions to the trace, and the condition decides. -/
theorem visit_eq (trace : List Event) :
    loop.visit trace c =
      (trace ++ loop.events c, if loop.removes c = true then none else some (loop.after c)) := by
  rw [visit_append, events, after]
  rcases loop.visit_cases c with ⟨before, hremoves, hvisit⟩ | ⟨events, c', hkeeps, hvisit, -, -⟩
  · rw [hvisit, if_pos hremoves]
  · rw [hvisit, if_neg (by simp [hkeeps]), Option.getD_some]

/-- The passes of a client are logged: its visit, and the node of its own record if that is
freed. -/
theorem noted_loggedVisit (s : List Event × List LoopStep) :
    noted (loggedVisit loop.visit) logDeleted s c =
      ((s.1 ++ loop.events c, s.2 ++ loop.steps c),
        if loop.removes c = true then none else some (loop.after c)) := by
  have hstep : visitStep loop.visit s.1 c = .visit c (loop.events c) := by
    rw [visitStep, visit_eq, List.drop_left]
  rw [noted, loggedVisit, hstep, visit_eq, steps]
  cases loop.removes c with
  | true => simp [logDeleted]
  | false => rfl

/-- A client is removed by a visit that closes its socket and then frees its record. -/
theorem events_removed (h : loop.removes c = true) :
    ∃ before, loop.events c = before ++ [.close c.socketFd, .free c.record] := by
  rcases loop.visit_cases c with ⟨before, -, hvisit⟩ | ⟨events, c', hkeeps, -⟩
  · exact ⟨before, by rw [events, hvisit]⟩
  · rw [h] at hkeeps
    contradiction

/-- Another visit frees nothing. -/
theorem events_kept (h : loop.removes c = false) (record : Nat) :
    .free record ∉ loop.events c := by
  rcases loop.visit_cases c with ⟨before, hremoves, -⟩ | ⟨events, c', -, hvisit, hfree, -⟩
  · rw [h] at hremoves
    contradiction
  · rw [RemovingLoop.events, hvisit]
    exact hfree record

theorem after_record : (loop.after c).record = c.record := by
  rcases loop.visit_cases c with ⟨before, -, hvisit⟩ | ⟨events, c', -, hvisit, -, hrecord⟩
  · rw [after, hvisit, Option.getD_none]
  · rw [after, hvisit, Option.getD_some, hrecord]

end RemovingLoop

/-- Each loop visits the clients of the list one after another, removes those that meet its
condition and keeps the others in order; `SL_Delete` frees the node of the client whose record
has just been freed. -/
theorem removingLoop_correct (loop : RemovingLoop) (list : SList TcpSocketClient)
    (trace : List Event) :
    loggedForEachClient loop.visit list trace =
      .ok ({ list with nodes := (list.nodes.filter fun c => !loop.removes c).map loop.after },
        trace ++ list.nodes.flatMap loop.events, list.nodes.flatMap loop.steps) ∧
    forEachClient loop.visit list trace =
      .ok ({ list with nodes := (list.nodes.filter fun c => !loop.removes c).map loop.after },
        trace ++ list.nodes.flatMap loop.events) ∧
    (∀ c, loop.removes c = true →
      ∃ before, loop.events c = before ++ [.close c.socketFd, .free c.record]) ∧
    (∀ c, loop.removes c = false → ∀ record, .free record ∉ loop.events c) ∧
    ∀ c, (loop.after c).record = c.record := by
  refine ⟨?_, ?_, loop.events_removed, loop.events_kept, loop.after_record⟩
  · rw [loggedForEachClient, forClients_whole, pass_filter fun s c => loop.noted_loggedVisit c s,
      foldl_append_pair]
    rfl
  · rw [forEachClient_eq_pass, pass_filter fun trace c => loop.visit_eq c trace]
    simp only [List.foldl_append_eq_append, List.flatMap_def]

end CodingLearners.TcpServer
