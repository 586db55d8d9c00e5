import CodingLearners.PingMonitor.Ping
import Mathlib.Data.List.Perm.Subperm

/-!
# `ping_test`

`ping_test` opens a raw socket and closes it only behind the answer it waited for, so
every call that gets a socket and fails keeps a descriptor. A process that goes on pinging
a host that does not answer ends up without descriptors, and then no call succeeds,
whatever answers.

## Implementation notes

The kernel gives out the least free descriptor below the limit of the process, if it makes
a raw socket at all. The address, the result of `sendto` and what arrives are inputs, with
what the stack held where `buf` stands. `FD_SET` has no defined result for a descriptor
from `FD_SETSIZE` on.
-/

namespace CodingLearners.PingMonitor

open ByteMemory

/-- `PING_ERROR`, as far as `ping_test` returns it. -/
def PING_GET_ADDRESS_ERROR : Int := -8

def PING_SEND_ERROR : Int := -7

def PING_RECV_ERROR : Int := -1

def FD_SETSIZE : Nat := 1024

/-- `socket(AF_INET, SOCK_RAW, IPPROTO_ICMP)`, or nothing for `-1`. -/
def socket (limit : Nat) (granted : Bool) (opened : List Nat) : Option Nat :=
  if granted then (List.range limit).find? fun fd => !opened.contains fd else none

/-- What one call depends on besides the descriptors. -/
structure Attempt where
  /-- The process may have a raw socket, and the system has the memory for one. -/
  granted : Bool
  /-- `get_icmp_addr` -/
  resolved : Bool
  /-- `send_ping`, on a socket -/
  sent : Bool
  buf : Memory
  arrivals : List Arrival

/-- Why a call has no result: it waits, or `FD_SET` writes outside of its set. -/
inductive Stop
  | waits
  | outside
  deriving DecidableEq, Repr

/-- `ping_test(url)`: its result, and the descriptors that are open then. -/
def pingTest (getpid : Int) (limit : Nat) (opened : List Nat) (attempt : Attempt) :
    Except Stop (Int × List Nat) :=
  let fd := socket limit attempt.granted opened
  let opened := fd.toList ++ opened
  if attempt.resolved = false then .ok (PING_GET_ADDRESS_ERROR, opened)
  else
    match fd with
    | none => .ok (PING_SEND_ERROR, opened)
    | some fd =>
        if attempt.sent = false then .ok (PING_SEND_ERROR, opened)
        else if FD_SETSIZE ≤ fd then .error .outside
        else
          match recvPing getpid 65520 sizeofBuf attempt.buf attempt.arrivals with
          | none => .error .waits
          | some .failed => .ok (PING_RECV_ERROR, opened)
          | some (.roundTrip ms) =>
              if ms < 0 then .ok (PING_RECV_ERROR, opened) else .ok (ms, opened.tail)

/-- The results of calls one after the other, with the descriptors open in the end. -/
def pingTests (getpid : Int) (limit : Nat) :
    List Nat → List Attempt → Except Stop (List Int × List Nat)
  | opened, [] => .ok ([], opened)
  | opened, attempt :: attempts =>
      match pingTest getpid limit opened attempt with
      | .error stop => .error stop
      | .ok (ret, opened) =>
          match pingTests getpid limit opened attempts with
          | .error stop => .error stop
          | .ok (rets, opened) => .ok (ret :: rets, opened)

/-! ## Descriptors -/

/-- Descriptors that the kernel has given out. -/
structure Opened (limit : Nat) (opened : List Nat) : Prop where
  nodup : opened.Nodup
  below : ∀ fd ∈ opened, fd < limit

variable {getpid : Int} {limit : Nat} {opened opened' : List Nat} {attempt : Attempt} {ret : Int}

theorem Opened.length_le (h : Opened limit opened) : opened.length ≤ limit := by
  have hsubset : opened ⊆ List.range limit := fun fd hfd => List.mem_range.mpr (h.below fd hfd)
  simpa using (h.nodup.subperm hsubset).length_le

/-- Where one is granted, there is a socket exactly as long as the limit is not reached. -/
theorem socket_cases (h : Opened limit opened) :
    (∃ fd, socket limit true opened = some fd ∧ Opened limit (fd :: opened) ∧
      opened.length < limit) ∨ socket limit true opened = none ∧ opened.length = limit := by
  cases hsocket : socket limit true opened with
  | some fd =>
      left
      have hfree : fd ∉ opened := by simpa using List.find?_some hsocket
      have hmem := List.mem_range.mp (List.mem_of_find?_eq_some hsocket)
      have hopened : Opened limit (fd :: opened) :=
        ⟨List.nodup_cons.mpr ⟨hfree, h.nodup⟩, List.forall_mem_cons.mpr ⟨hmem, h.below⟩⟩
      have hlength := hopened.length_le
      rw [List.length_cons] at hlength
      exact ⟨fd, rfl, hopened, hlength⟩
  | none =>
      right
      refine ⟨rfl, Nat.le_antisymm h.length_le ?_⟩
      have hall := List.find?_eq_none.mp hsocket
      have hsubset : List.range limit ⊆ opened := by
        intro fd hfd
        simpa using hall fd hfd
      simpa using (List.nodup_range.subperm hsubset).length_le

/-- With the socket of a call the process has a descriptor more, up to the limit. -/
theorem socket_opened (h : Opened limit opened) (granted : Bool) :
    Opened limit ((socket limit granted opened).toList ++ opened) ∧
      ((socket limit granted opened).toList ++ opened).length =
        if granted = true then min limit (opened.length + 1) else opened.length := by
  cases granted with
  | false => exact ⟨h, rfl⟩
  | true =>
      obtain ⟨fd, hsocket, hopened, hlt⟩ | ⟨hsocket, hfull⟩ := socket_cases h
      · rw [hsocket]
        exact ⟨hopened, (Nat.min_eq_right hlt).symm⟩
      · rw [hsocket]
        exact ⟨h, by rw [hfull, if_pos rfl, Nat.min_eq_left (Nat.le_succ _)]; exact hfull⟩

/-- A call costs a descriptor if it gets a socket and fails. -/
def costs (attempt : Attempt) (ret : Int) : Bool := attempt.granted && decide (ret < 0)

/-- A call keeps its descriptor if and only if it fails, and without one it fails. -/
theorem pingTest_opened (h : Opened limit opened)
    (hret : pingTest getpid limit opened attempt = .ok (ret, opened')) :
    Opened limit opened' ∧
      opened'.length =
        (if costs attempt ret = true then min limit (opened.length + 1) else opened.length) ∧
      (opened.length = limit → ret < 0) := by
  have hkeeps : ∀ {code : Int}, code < 0 →
      Except.ok (code, (socket limit attempt.granted opened).toList ++ opened) =
        (.ok (ret, opened') : Except Stop _) →
      Opened limit opened' ∧
        opened'.length =
          (if costs attempt ret = true then min limit (opened.length + 1) else opened.length) ∧
        (opened.length = limit → ret < 0) := by
    intro code hcode heq
    obtain ⟨rfl, rfl⟩ := Prod.mk.inj (Except.ok.inj heq)
    rw [costs, decide_eq_true hcode, Bool.and_true]
    exact ⟨(socket_opened h _).1, (socket_opened h _).2, fun _ => hcode⟩
  rw [pingTest] at hret
  split at hret
  · exact hkeeps (by decide) hret
  split at hret
  · exact hkeeps (by decide) hret
  next fd hfd =>
  split at hret
  · exact hkeeps (by decide) hret
  split at hret
  · cases hret
  split at hret
  · cases hret
  · exact hkeeps (by decide) hret
  next ms hms =>
  split at hret
  · exact hkeeps (by decide) hret
  next hpositive =>
  obtain ⟨rfl, rfl⟩ := Prod.mk.inj (Except.ok.inj hret)
  have hgranted : attempt.granted = true := by
    by_contra hno
    rw [Bool.not_eq_true] at hno
    simp [hno, socket] at hfd
  rw [hgranted] at hfd ⊢
  obtain ⟨-, -, -, hlt⟩ | ⟨hnone, -⟩ := socket_cases h
  · have hno : costs attempt ms = false := by simp [costs, hpositive]
    rw [hfd, hno]
    exact ⟨h, rfl, fun hfull => absurd hfull (Nat.ne_of_lt hlt)⟩
  · rw [hnone] at hfd
    cases hfd

/-- The number of calls that cost a descriptor. -/
def lost (attempts : List Attempt) (rets : List Int) : Nat :=
  (attempts.zip rets).countP fun call => costs call.1 call.2

/-- Every call that gets a socket and fails costs the process a descriptor, until it has
none left; from then on every call fails, whatever arrives. -/
theorem failures_exhaust {attempts : List Attempt} {rets : List Int} (h : Opened limit opened)
    (hrun : pingTests getpid limit opened attempts = .ok (rets, opened')) :
    opened'.length = min limit (opened.length + lost attempts rets) ∧
      (limit ≤ opened.length + lost attempts rets → ∀ attempt ret opened'',
        pingTest getpid limit opened' attempt = .ok (ret, opened'') → ret < 0) := by
  suffices hopened : Opened limit opened' ∧
      opened'.length = min limit (opened.length + lost attempts rets) by
    refine ⟨hopened.2, fun hlimit attempt ret opened'' hret => ?_⟩
    apply (pingTest_opened hopened.1 hret).2.2
    rw [hopened.2, Nat.min_eq_left hlimit]
  induction attempts generalizing opened rets with
  | nil =>
      obtain ⟨rfl, rfl⟩ := Prod.mk.inj (Except.ok.inj hrun)
      exact ⟨h, (Nat.min_eq_right h.length_le).symm⟩
  | cons attempt attempts ih =>
      rw [pingTests] at hrun
      split at hrun
      · cases hrun
      next ret middle hret =>
      split at hrun
      · cases hrun
      next rets' last hrets =>
      obtain ⟨rfl, rfl⟩ := Prod.mk.inj (Except.ok.inj hrun)
      obtain ⟨hmiddle, hlength, -⟩ := pingTest_opened h hret
      obtain ⟨hopened, hcount⟩ := ih hmiddle hrets
      refine ⟨hopened, ?_⟩
      have hle := h.length_le
      rw [hcount, hlength, lost, lost, List.zip_cons_cons, List.countP_cons]
      by_cases hcosts : costs attempt ret = true
      · rw [if_pos hcosts, if_pos hcosts]
        omega
      · rw [if_neg hcosts, if_neg hcosts, Nat.add_zero]

/-- With three standard streams and a limit of five, two calls without an answer suffice,
and a host that answers the next one makes no difference. A call that is refused a socket
costs nothing. -/
theorem failures_exhaust_five :
    let refused : Attempt := ⟨false, true, true, fun _ => 0, []⟩
    let unanswered : Attempt := ⟨true, true, true, fun _ => 0, [.notReady]⟩
    let answered : Attempt :=
      ⟨true, true, true, fun _ => 0, [.datagram (echoReply [0xD2, 0x04, 0xF0, 0xFF]) ⟨5, 0⟩]⟩
    pingTests 1234 5 [0, 1, 2] [answered, refused, unanswered, unanswered, answered] =
        .ok ([5000, -7, -1, -1, -7], [4, 3, 0, 1, 2]) ∧
      ∀ ret opened'', pingTest 1234 5 [4, 3, 0, 1, 2] answered = .ok (ret, opened'') →
        ret < 0 := by
  intro refused unanswered answered
  have hopened : Opened 5 [0, 1, 2] := ⟨by decide, by decide⟩
  have hrun : pingTests 1234 5 [0, 1, 2] [answered, refused, unanswered, unanswered, answered] =
      .ok ([5000, -7, -1, -1, -7], [4, 3, 0, 1, 2]) := by
    decide +kernel
  exact ⟨hrun, (failures_exhaust hopened hrun).2 (by decide) answered⟩

end CodingLearners.PingMonitor
