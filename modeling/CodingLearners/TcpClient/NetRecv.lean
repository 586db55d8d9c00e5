import CodingLearners.Library.ByteMemory
import Mathlib.Data.List.TakeDrop

/-!
# Receiving an answer in `tcpclient`

`Net_recv_All` is to collect the answer until the time is over or the buffer is full.
Its loop ends with the first data that `Net_Recv` returns, of which there are at most 20
bytes.

## Implementation notes

Blocks of data arrive at the socket in order. The readings of the clock and the results of
the selects are inputs; a select that finds data says how many further blocks have arrived
by then. A reading beyond the list has no result. Addresses count from the start of the
buffer.
-/

namespace CodingLearners.TcpClient

open ByteMemory

def RECEIVE_PER_ONCE : Int := 20

/-- The bytes that have arrived and the blocks that are still to come. -/
structure Socket where
  pending : List UInt8
  coming : List (List UInt8)

/-- The socket when `count` further blocks have arrived. -/
def Socket.arrive (socket : Socket) (count : Nat) : Socket where
  pending := socket.pending ++ (socket.coming.take count).flatten
  coming := socket.coming.drop count

/-- What select and recv return: an error or nothing, data, or an error of recv. -/
inductive Select
  | failed
  | timeout
  | ready (arrived : Nat)
  | recvFailed

/-- The locals of `Net_recv_All`, with the buffer and the socket that it works on. -/
structure RecvAll where
  memory : Memory
  buf : Nat
  cnt : Int
  recvbytes : Int
  space : Int
  selectCounter : Nat
  socket : Socket
  /-- The number of selects so far. -/
  calls : Nat

variable (selects : Nat → Select)

/-- `Net_Recv(sock, address, len)`: what it returns, and what it leaves. A socket with no
bytes after the select has been closed by the peer. -/
def netRecv (state : RecvAll) (address : Nat) (len : Int) : Int × RecvAll :=
  if len ≤ 0 then (-1, state)
  else
    let called := { state with calls := state.calls + 1 }
    match selects state.calls with
    | .failed => (-1, called)
    | .timeout => (-1, called)
    | .recvFailed => (-1, called)
    | .ready arrived =>
        let socket := state.socket.arrive arrived
        let bytes := socket.pending.take len.toNat
        if bytes = [] then (-1, { called with socket })
        else
          (bytes.length,
            { called with
              memory := write state.memory address bytes
              socket := { socket with pending := socket.pending.drop len.toNat } })

/-- How the inner loop ends: with a return from the function, or behind the loop. -/
inductive Inner
  | returned (ret : Int) (state : RecvAll)
  | left (state : RecvAll)

/-- The inner loop. It makes at most 20 passes, since `select_counter` counts those without
data. -/
def recvLoop (maxPer : Int) : Nat → RecvAll → Inner
  | 0, state => .left state
  | fuel + 1, state =>
      if state.cnt = 0 then
        let len := if state.space - state.cnt < maxPer then state.space - state.cnt else maxPer
        let (ret, state') := netRecv selects state (state.buf + state.cnt.toNat) len
        if ret < 0 then .returned (if state.recvbytes ≠ 0 then state.recvbytes else ret) state'
        else if ret = 0 then
          let state' := { state' with selectCounter := state'.selectCounter + 1 }
          if 20 ≤ state'.selectCounter then .left state' else recvLoop maxPer fuel state'
        else
          let state' := { state' with cnt := state'.cnt + ret, selectCounter := 0 }
          recvLoop maxPer fuel state'
      else .left state

/-- The outer loop, with the readings of the clock that are still to come. -/
def recvAllLoop (maxPer tm timeoutMs : Int) : List Int → RecvAll → Option (Int × RecvAll)
  | [], _ => none
  | now :: later, state =>
      if now - tm < timeoutMs then
        match recvLoop selects maxPer 20 state with
        | .returned ret state => some (ret, state)
        | .left state =>
            let state :=
              { state with
                buf := state.buf + state.cnt.toNat
                recvbytes := state.recvbytes + state.cnt
                space := state.space - state.cnt }
            if state.cnt ≠ 0 then some (state.recvbytes, state)
            else recvAllLoop maxPer tm timeoutMs later { state with cnt := 0 }
      else some (state.recvbytes, state)

/-- `Net_recv_All(sock, timeout_ms, buf, maxlength)`, which reads the clock as `tm` first. -/
def netRecvAll (timeoutMs : Int) (memory : Memory) (maxlength : Int) (socket : Socket)
    (tm : Int) (clock : List Int) : Option (Int × RecvAll) :=
  let maxPer := if maxlength < RECEIVE_PER_ONCE then maxlength else RECEIVE_PER_ONCE
  let state : RecvAll :=
    { memory, buf := 0, cnt := 0, recvbytes := 0, space := maxlength, selectCounter := 0, socket
      calls := 0 }
  if maxlength ≤ 0 ∨ timeoutMs ≤ 0 then some (-1, state)
  else recvAllLoop selects maxPer tm timeoutMs clock state

/-! ## What is collected -/

/-- All bytes that arrive before the time is over. -/
def Socket.bytes (socket : Socket) : List UInt8 := socket.pending ++ socket.coming.flatten

/-- The buffer holds the bytes up to `maxlength`, their number is returned, and nothing
behind the buffer has been written. -/
def CollectsAll (memory : Memory) (maxlength : Int) (socket : Socket)
    (result : Option (Int × RecvAll)) : Prop :=
  ∃ (count : Int) (state : RecvAll), result = some (count, state) ∧
    count = (socket.bytes.take maxlength.toNat).length ∧
    slice state.memory 0 count.toNat = socket.bytes.take maxlength.toNat ∧
    ∀ place : Nat, maxlength ≤ place → state.memory place = memory place

/-- What is to be collected has arrived when the first select returns, and is not more than
20 bytes; or nothing arrives and the time is over at once. -/
def AtOnce (timeoutMs maxlength : Int) (socket : Socket) (tm now : Int) : Prop :=
  if now - tm < timeoutMs then
    socket.bytes ≠ [] ∧ ∃ arrived, selects 0 = .ready arrived ∧
      (socket.bytes.take maxlength.toNat).length ≤ (socket.arrive arrived).pending.length ∧
      (socket.bytes.take maxlength.toNat).length ≤ 20
  else socket.bytes = []

/-- The data of the first recv, as far as there are any. -/
def firstBytes (maxlength : Int) (socket : Socket) : List UInt8 :=
  match selects 0 with
  | .ready arrived => (socket.arrive arrived).pending.take (min maxlength 20).toNat
  | _ => []

variable {selects} {memory : Memory} {timeoutMs maxlength tm now : Int} {socket : Socket}
  {later : List Int}

theorem pending_prefix (socket : Socket) (arrived : Nat) :
    (socket.arrive arrived).pending <+: socket.bytes := by
  refine ⟨(socket.coming.drop arrived).flatten, ?_⟩
  rw [Socket.arrive, Socket.bytes, List.append_assoc, ← List.flatten_append,
    List.take_append_drop]

/-- The state in which the loops are entered. -/
def entry (memory : Memory) (maxlength : Int) (socket : Socket) : RecvAll :=
  { memory, buf := 0, cnt := 0, recvbytes := 0, space := maxlength, selectCounter := 0, socket
    calls := 0 }

/-- The first `Net_Recv` writes its data and returns their number, or fails without data. -/
theorem netRecv_entry (hmax : 0 < maxlength) :
    ∃ socket' calls, netRecv selects (entry memory maxlength socket)
      (entry memory maxlength socket).buf (if (entry memory maxlength socket).space <
        min maxlength 20 then (entry memory maxlength socket).space else min maxlength 20) =
      (if firstBytes selects maxlength socket = [] then -1
        else ((firstBytes selects maxlength socket).length : Int),
        { entry memory maxlength socket with
          memory := write memory 0 (firstBytes selects maxlength socket)
          socket := socket', calls }) := by
  have hspace : (if (entry memory maxlength socket).space < min maxlength 20 then
      (entry memory maxlength socket).space else min maxlength 20) = min maxlength 20 := by
    rw [if_neg]
    simp only [entry]
    omega
  rw [hspace, netRecv, if_neg (by omega)]
  simp only [entry]
  cases hselect : selects 0 with
  | ready arrived =>
      by_cases hnil : (socket.arrive arrived).pending.take (min maxlength 20).toNat = []
      · simp only [firstBytes, hselect, hnil, if_true]
        exact ⟨_, _, rfl⟩
      · simp only [firstBytes, hselect, hnil, if_false]
        exact ⟨_, _, rfl⟩
  | failed | timeout | recvFailed =>
      simp only [firstBytes, hselect, if_true]
      exact ⟨_, _, rfl⟩

section InnerLoop

variable {state state' : RecvAll} {maxPer ret : Int} (fuel : Nat)
  (hcnt : state.cnt = 0)
  (hrecv : netRecv selects state state.buf
    (if state.space < maxPer then state.space else maxPer) = (ret, state'))

include hcnt hrecv

/-- A pass that fails ends the function. -/
theorem recvLoop_error (hret : ret < 0) (hbytes : state.recvbytes = 0) :
    recvLoop selects maxPer (fuel + 1) state = .returned ret state' := by
  rw [recvLoop, if_pos hcnt]
  simp only [hcnt, Int.sub_zero, Int.toNat_zero, Nat.add_zero, hrecv]
  rw [if_pos hret, if_neg (not_not_intro hbytes)]

/-- A pass with data ends the loop. -/
theorem recvLoop_data (hret : 0 < ret) (hcnt' : state'.cnt = 0) :
    recvLoop selects maxPer (fuel + 1) state =
      .left { state' with cnt := ret, selectCounter := 0 } := by
  have hleft : ∀ {fuel : Nat} {later : RecvAll}, later.cnt ≠ 0 →
      recvLoop selects maxPer fuel later = .left later := by
    intro fuel later hne
    cases fuel with
    | zero => rfl
    | succ fuel => rw [recvLoop, if_neg hne]
  rw [recvLoop, if_pos hcnt]
  simp only [hcnt, Int.sub_zero, Int.toNat_zero, Nat.add_zero, hrecv]
  rw [if_neg (by omega), if_neg (by omega), hleft]
  · rw [hcnt', Int.zero_add]
  · change state'.cnt + ret ≠ 0
    omega

end InnerLoop

/-- What the function returns, and the buffer that it leaves. -/
theorem netRecvAll_eq (hmax : 0 < maxlength) (htime : 0 < timeoutMs) :
    (netRecvAll selects timeoutMs memory maxlength socket tm (now :: later)).map
        (fun result => (result.1, result.2.memory)) =
      some (if now - tm < timeoutMs then
        if firstBytes selects maxlength socket = [] then ((-1 : Int), memory)
        else (((firstBytes selects maxlength socket).length : Int),
          write memory 0 (firstBytes selects maxlength socket))
      else ((0 : Int), memory)) := by
  have hper : (if maxlength < RECEIVE_PER_ONCE then maxlength else RECEIVE_PER_ONCE) =
      min maxlength 20 := by
    rw [RECEIVE_PER_ONCE]
    split <;> omega
  obtain ⟨socket', calls, hrecv⟩ := @netRecv_entry selects memory maxlength socket hmax
  rw [netRecvAll, if_neg (by omega), hper, recvAllLoop]
  by_cases hlate : now - tm < timeoutMs
  · rw [if_pos hlate, if_pos hlate]
    by_cases hnil : firstBytes selects maxlength socket = []
    · rw [if_pos hnil] at hrecv ⊢
      rw [← entry, recvLoop_error 19 rfl hrecv (by decide) rfl]
      simp [hnil, write]
    · have hpos := List.length_pos_iff.mpr hnil
      rw [if_neg hnil] at hrecv ⊢
      rw [← entry, recvLoop_data 19 rfl hrecv (by omega) rfl]
      simp [entry, hnil]
  · rw [if_neg hlate, if_neg hlate]
    rfl

/-- The function never writes behind the buffer. -/
theorem netRecvAll_inBuffer (hmax : 0 < maxlength) (place : Nat) (hplace : maxlength ≤ place) :
    write memory 0 (firstBytes selects maxlength socket) place = memory place := by
  apply write_apply_of_ge
  have hlength : (firstBytes selects maxlength socket).length ≤ maxlength.toNat := by
    rw [firstBytes]
    split
    · exact (List.length_take_le _ _).trans (by omega)
    · exact Nat.zero_le _
  omega

/-- The data of the first recv are what is to be collected, if they are enough. -/
theorem firstBytes_eq_iff {arrived : Nat} (hready : selects 0 = .ready arrived) :
    firstBytes selects maxlength socket = socket.bytes.take maxlength.toNat ↔
      (socket.bytes.take maxlength.toNat).length ≤ (socket.arrive arrived).pending.length ∧
        (socket.bytes.take maxlength.toNat).length ≤ 20 := by
  have hprefix := pending_prefix socket arrived
  have hlength := hprefix.length_le
  have hfirst : firstBytes selects maxlength socket =
      socket.bytes.take (min (min maxlength 20).toNat (socket.arrive arrived).pending.length) := by
    simp only [firstBytes, hready]
    rw [← List.take_take, ← List.prefix_iff_eq_take.mp hprefix]
  rw [hfirst, List.take_eq_take_iff, List.length_take]
  omega

theorem wanted_eq_nil_iff (hmax : 0 < maxlength) :
    socket.bytes.take maxlength.toNat = [] ↔ socket.bytes = [] := by
  rw [List.take_eq_nil_iff]
  constructor
  · rintro (hzero | hnil)
    · omega
    · exact hnil
  · exact Or.inr

/-- There are data of a first recv and they are what is to be collected exactly if all can be
had at once. -/
theorem collected_iff (hmax : 0 < maxlength) :
    firstBytes selects maxlength socket ≠ [] ∧
        firstBytes selects maxlength socket = socket.bytes.take maxlength.toNat ↔
      socket.bytes ≠ [] ∧ ∃ arrived, selects 0 = .ready arrived ∧
        (socket.bytes.take maxlength.toNat).length ≤ (socket.arrive arrived).pending.length ∧
        (socket.bytes.take maxlength.toNat).length ≤ 20 := by
  have hwanted : socket.bytes.take maxlength.toNat ≠ [] ↔ socket.bytes ≠ [] :=
    not_congr (wanted_eq_nil_iff hmax)
  constructor
  · rintro ⟨hne, heq⟩
    refine ⟨hwanted.mp (heq ▸ hne), ?_⟩
    cases hselect : selects 0 with
    | ready arrived => exact ⟨arrived, rfl, (firstBytes_eq_iff hselect).mp heq⟩
    | failed | timeout | recvFailed =>
        simp [firstBytes, hselect] at hne
  · rintro ⟨hne, arrived, hready, hfits⟩
    have heq := (firstBytes_eq_iff hready).mpr hfits
    exact ⟨heq ▸ hwanted.mpr hne, heq⟩

theorem collectsAll_iff_pair {result : Option (Int × RecvAll)} {count : Int} {memory' : Memory}
    (hresult : result.map (fun result => (result.1, result.2.memory)) = some (count, memory')) :
    CollectsAll memory maxlength socket result ↔
      count = (socket.bytes.take maxlength.toNat).length ∧
      slice memory' 0 count.toNat = socket.bytes.take maxlength.toNat ∧
      ∀ place : Nat, maxlength ≤ place → memory' place = memory place := by
  obtain ⟨⟨count', state⟩, rfl, heq⟩ := Option.map_eq_some_iff.mp hresult
  obtain ⟨rfl, rfl⟩ := Prod.mk.inj heq
  constructor
  · rintro ⟨count, state', hsome, h⟩
    obtain ⟨rfl, rfl⟩ := Prod.mk.inj (Option.some.inj hsome)
    exact h
  · intro h
    exact ⟨_, _, rfl, h⟩

/-- All bytes are collected exactly if what is to be collected can be had with one recv. -/
theorem collectsAll_iff (selects : Nat → Select) (memory : Memory) (timeoutMs maxlength : Int)
    (socket : Socket) (tm now : Int) (later : List Int) (hmax : 0 < maxlength)
    (htime : 0 < timeoutMs) :
    CollectsAll memory maxlength socket
        (netRecvAll selects timeoutMs memory maxlength socket tm (now :: later)) ↔
      AtOnce selects timeoutMs maxlength socket tm now := by
  have hresult := @netRecvAll_eq selects memory timeoutMs maxlength tm now socket later hmax htime
  rw [AtOnce]
  by_cases hlate : now - tm < timeoutMs
  · rw [if_pos hlate] at hresult ⊢
    rw [← collected_iff hmax]
    by_cases hnil : firstBytes selects maxlength socket = []
    · rw [if_pos hnil] at hresult
      rw [collectsAll_iff_pair hresult]
      constructor
      · rintro ⟨hcount, -⟩
        omega
      · rintro ⟨hne, -⟩
        exact absurd hnil hne
    · rw [if_neg hnil] at hresult
      rw [collectsAll_iff_pair hresult, Int.toNat_natCast, slice_write]
      constructor
      · rintro ⟨-, heq, -⟩
        exact ⟨hnil, heq⟩
      · rintro ⟨-, heq⟩
        exact ⟨by rw [heq], heq, netRecvAll_inBuffer hmax⟩
  · rw [if_neg hlate] at hresult ⊢
    rw [collectsAll_iff_pair hresult, ← wanted_eq_nil_iff hmax]
    constructor
    · rintro ⟨-, hslice, -⟩
      exact hslice.symm
    · intro hnil
      rw [hnil]
      exact ⟨rfl, rfl, fun _ _ => rfl⟩

/-- An answer of two bytes that has arrived before the first select is collected. -/
theorem collectsAll_pair :
    CollectsAll (fun _ => 0) 1024 { pending := [7, 8], coming := [] }
      (netRecvAll (fun _ => .ready 0) 100 (fun _ => 0) 1024 { pending := [7, 8], coming := [] }
        0 [0]) :=
  (collectsAll_iff (fun _ => .ready 0) (fun _ => 0) 100 1024 { pending := [7, 8], coming := [] }
    0 0 [] (by decide) (by decide)).mpr
    ⟨by decide, 0, rfl, by decide, by decide⟩

/-- Of an answer of 30 bytes, all there before the first select, 20 are collected. -/
theorem not_collectsAll_thirty :
    ¬ CollectsAll (fun _ => 0) 1024 { pending := List.replicate 30 7, coming := [] }
      (netRecvAll (fun _ => .ready 0) 100 (fun _ => 0) 1024
        { pending := List.replicate 30 7, coming := [] } 0 [0]) := by
  rintro ⟨count, state, hresult, hcount, -⟩
  have hreturned : (netRecvAll (fun _ => .ready 0) 100 (fun _ => 0) 1024
      { pending := List.replicate 30 7, coming := [] } 0 [0]).map Prod.fst = some 20 := by
    decide
  have htwenty : count = 20 := by
    rw [hresult] at hreturned
    exact Option.some.inj hreturned
  rw [htwenty] at hcount
  exact absurd hcount (by decide)

end CodingLearners.TcpClient
