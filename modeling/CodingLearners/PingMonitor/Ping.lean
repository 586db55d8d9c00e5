import CodingLearners.Library.ByteMemory

/-!
# `ping.c`

The echo request of `set_icmp_pkg` and the loop of `recv_ping`, byte by byte:
an ICMP message has its type, code, checksum, identifier and sequence number at
the offsets 0, 1, 2, 4 and 6, and the time of sending at offset 8.

## Implementation notes

The host is little-endian. What arrives at the socket is a list, so a list that
is used up leaves `recv_ping` waiting. A field beyond the bytes received is read
from what the buffer held before.
-/

namespace CodingLearners.PingMonitor

open ByteMemory

def ICMP_ECHO : Nat := 8

def ICMP_ECHOREPLY : Nat := 0

/-- `struct timeval` -/
structure Timeval where
  tvSec : Int
  tvUsec : Int

/-- Arithmetic of the C types `unsigned short`, `int` and `long`. -/
def toUShort (n : Int) : Nat := (n % 65536).toNat

def toInt (n : Int) : Int := n.bmod (2 ^ 32)

def toLong (n : Int) : Int := n.bmod (2 ^ 64)

/-! ## Sending -/

/-- `check_sum`, the complement of the sum of the 16-bit words. -/
def checkSum (addr : Memory) (len : Nat) : Nat :=
  let words := (List.range (len / 2)).foldl (fun sum k => sum + load addr (2 * k) 2) 0
  let sum := if len % 2 = 1 then words + load addr (len - 1) 1 else words
  let sum := (sum >>> 16) + (sum &&& 0xFFFF)
  let sum := sum + (sum >>> 16)
  toUShort (-sum - 1)

/-- `sizeof(struct icmp)` -/
def sizeofIcmp : Nat := 28

/-- `set_icmp_pkg(pack_no, pkg, pkg_len)`, with what `getpid` and `gettimeofday`
return. -/
def setIcmpPkg (getpid : Int) (tval : Timeval) (packNo : UInt16) (pkg : Memory) (pkgLen : Nat) :
    Memory :=
  let pkg := store pkg 0 1 ICMP_ECHO
  let pkg := store pkg 1 1 0
  let pkg := store pkg 2 2 0
  let pkg := store pkg 6 2 packNo.toNat
  let pkg := store pkg 4 2 (toUShort getpid)
  let pkg := store pkg 8 8 (tval.tvSec % 2 ^ 64).toNat
  let pkg := store pkg 16 8 (tval.tvUsec % 2 ^ 64).toNat
  store pkg 2 2 (checkSum pkg pkgLen)

/-! ## Receiving -/

/-- What one turn of the loop of `recv_ping` finds at the socket. -/
inductive Arrival
  /-- `fd_select_wait` returns anything but `0x001`. -/
  | notReady
  /-- `recvfrom` returns a negative number. -/
  | recvfromFailed
  | datagram (bytes : List UInt8) (tvrecv : Timeval)

/-- What `recv_ping` returns: `-1`, or the time that it computes from a packet. -/
inductive PingResult
  | failed
  | roundTrip (ms : Int)
  deriving DecidableEq, Repr

/-- `ip->ip_hl << 2`, the length of the header of the IP packet in the buffer. -/
def iphdrlen (recvData : Memory) : Nat := (recvData 0 &&& 15).toNat <<< 2

/-- The condition under which the packet is taken for the answer. -/
def isAnswer (getpid : Int) (packNo : UInt16) (recvData : Memory) : Bool :=
  let icmp := iphdrlen recvData
  load recvData icmp 1 == ICMP_ECHOREPLY &&
    decide ((load recvData (icmp + 4) 2 : Int) = getpid) &&
    load recvData (icmp + 6) 2 == packNo.toNat

/-- `rv_ms - tv_ms` -/
def elapsed (tvrecv : Timeval) (recvData : Memory) : Int :=
  let tvsend := iphdrlen recvData + 8
  let millisec := fun sec usec : Int => toLong (toLong (sec * 1000) + usec.tdiv 1000)
  toInt (millisec tvrecv.tvSec tvrecv.tvUsec -
    millisec (toLong (load recvData tvsend 8)) (toLong (load recvData (tvsend + 8) 8)))

/-- `recv_ping`, while the buffer holds `recvData`. -/
def recvPing (getpid : Int) (packNo : UInt16) (recvDataLen : Nat) :
    Memory → List Arrival → Option PingResult
  | _, [] => none
  | _, .notReady :: _ => some .failed
  | _, .recvfromFailed :: _ => some .failed
  | recvData, .datagram bytes tvrecv :: rest =>
      let received := bytes.take recvDataLen
      let recvData := fill recvData received
      if (received.length : Int) - iphdrlen recvData < 8 then some .failed
      else if isAnswer getpid packNo recvData = true then
        some (.roundTrip (elapsed tvrecv recvData))
      else recvPing getpid packNo recvDataLen recvData rest

/-- `sizeof(buf)` in `ping_test` -/
def sizeofBuf : Nat := 1024

/-! ## The fields of a packet -/

/-- The packet as the host has sent it. -/
def packet (bytes : List UInt8) : Memory := fill (fun _ => 0) bytes

theorem iphdrlen_le (memory : Memory) : iphdrlen memory ≤ 60 := by
  have hnibble : (memory 0 &&& 15).toNat ≤ 15 := by
    rw [UInt8.toNat_and]
    exact Nat.and_le_right
  rw [iphdrlen, Nat.shiftLeft_eq]
  omega

/-- What fits into the buffer is read from it as it was sent. -/
theorem fill_received (recvData : Memory) {bytes : List UInt8} {place : Nat}
    (hlen : place < bytes.length) (hbuf : place < sizeofBuf) :
    fill recvData (bytes.take sizeofBuf) place = packet bytes place := by
  simp only [packet, fill, List.getD_eq_getElem?_getD, List.getElem?_take, if_pos hbuf]
  rw [List.getElem?_eq_getElem hlen]
  rfl

theorem load_received (recvData : Memory) {bytes : List UInt8} {address width : Nat}
    (hlen : address + width ≤ bytes.length) (hbuf : address + width ≤ sizeofBuf) :
    load (fill recvData (bytes.take sizeofBuf)) address width =
      load (packet bytes) address width := by
  apply load_congr
  intro place _ hhigh
  exact fill_received recvData (by omega) (by omega)

/-- The datagram is an echo reply with the identifier and the sequence number
of the request. -/
structure RepliesTo (request : Memory) (bytes : List UInt8) : Prop where
  whole : iphdrlen (packet bytes) + 8 ≤ bytes.length
  type : load (packet bytes) (iphdrlen (packet bytes)) 1 = ICMP_ECHOREPLY
  id : load (packet bytes) (iphdrlen (packet bytes) + 4) 2 = load request 4 2
  seq : load (packet bytes) (iphdrlen (packet bytes) + 6) 2 = load request 6 2

instance (request : Memory) (bytes : List UInt8) : Decidable (RepliesTo request bytes) :=
  decidable_of_iff
    (iphdrlen (packet bytes) + 8 ≤ bytes.length ∧
      load (packet bytes) (iphdrlen (packet bytes)) 1 = ICMP_ECHOREPLY ∧
      load (packet bytes) (iphdrlen (packet bytes) + 4) 2 = load request 4 2 ∧
      load (packet bytes) (iphdrlen (packet bytes) + 6) 2 = load request 6 2)
    ⟨fun ⟨whole, type, id, seq⟩ => ⟨whole, type, id, seq⟩, fun h => ⟨h.whole, h.type, h.id, h.seq⟩⟩

section Request

variable (getpid : Int) (tval : Timeval) (packNo : UInt16) (pkg : Memory) (pkgLen : Nat)

/-- The request carries the process id cut to 16 bits. -/
theorem load_setIcmpPkg_id :
    load (setIcmpPkg getpid tval packNo pkg pkgLen) 4 2 = toUShort getpid := by
  have hshort : toUShort getpid < 256 ^ 2 := by
    rw [toUShort]
    omega
  simp only [setIcmpPkg]
  rw [load_store_of_disjoint _ _ (by omega), load_store_of_disjoint _ _ (by omega),
    load_store_of_disjoint _ _ (by omega), load_store, Nat.mod_eq_of_lt hshort]

theorem load_setIcmpPkg_seq :
    load (setIcmpPkg getpid tval packNo pkg pkgLen) 6 2 = packNo.toNat := by
  have hshort : packNo.toNat < 256 ^ 2 := packNo.toNat_lt
  simp only [setIcmpPkg]
  rw [load_store_of_disjoint _ _ (by omega), load_store_of_disjoint _ _ (by omega),
    load_store_of_disjoint _ _ (by omega), load_store_of_disjoint _ _ (by omega), load_store,
    Nat.mod_eq_of_lt hshort]

end Request

/-! ## What is accepted -/

variable {getpid : Int} {packNo : UInt16} {recvData : Memory}

/-- A packet that is long enough is judged by three fields of its ICMP header. -/
theorem isAnswer_received_iff {bytes : List UInt8}
    (hlong : iphdrlen (packet bytes) + 8 ≤ bytes.length) :
    isAnswer getpid packNo (fill recvData (bytes.take sizeofBuf)) = true ↔
      load (packet bytes) (iphdrlen (packet bytes)) 1 = ICMP_ECHOREPLY ∧
      (load (packet bytes) (iphdrlen (packet bytes) + 4) 2 : Int) = getpid ∧
      load (packet bytes) (iphdrlen (packet bytes) + 6) 2 = packNo.toNat := by
  have hhdr := iphdrlen_le (packet bytes)
  have hbuf : sizeofBuf = 1024 := rfl
  have hsame : iphdrlen (fill recvData (bytes.take sizeofBuf)) = iphdrlen (packet bytes) := by
    rw [iphdrlen, fill_received recvData (by omega) (by omega), iphdrlen]
  rw [isAnswer, hsame]
  rw [load_received _ (by omega) (by omega), load_received _ (by omega) (by omega),
    load_received _ (by omega) (by omega)]
  simp only [Bool.and_eq_true, beq_iff_eq, decide_eq_true_eq, and_assoc]

/-- A packet is long enough if it has the eight bytes of an ICMP header. -/
theorem received_long_iff {bytes : List UInt8} :
    ¬ ((bytes.take sizeofBuf).length : Int) -
        iphdrlen (fill recvData (bytes.take sizeofBuf)) < 8 ↔
      iphdrlen (packet bytes) + 8 ≤ bytes.length := by
  have hhdr := iphdrlen_le (packet bytes)
  have hbuf : sizeofBuf = 1024 := rfl
  rw [List.length_take]
  cases bytes with
  | nil =>
      simp only [List.length_nil]
      omega
  | cons first rest =>
      have hsame : iphdrlen (fill recvData ((first :: rest).take sizeofBuf)) =
          iphdrlen (packet (first :: rest)) := by
        rw [iphdrlen, fill_received recvData (by simp) (by omega), iphdrlen]
      rw [hsame]
      omega

/-- What is skipped leaves the loop waiting for the rest. -/
theorem recvPing_append {recvDataLen : Nat} {before : List Arrival}
    (hwaits : recvPing getpid packNo recvDataLen recvData before = none) :
    ∃ recvData', ∀ rest, recvPing getpid packNo recvDataLen recvData (before ++ rest) =
      recvPing getpid packNo recvDataLen recvData' rest := by
  induction before generalizing recvData with
  | nil => exact ⟨recvData, fun _ => rfl⟩
  | cons arrival before ih =>
      cases arrival with
      | notReady => simp [recvPing] at hwaits
      | recvfromFailed => simp [recvPing] at hwaits
      | datagram bytes tvrecv =>
          simp only [List.cons_append, recvPing] at hwaits ⊢
          split at hwaits
          · cases hwaits
          · next hlong =>
            split at hwaits
            · cases hwaits
            · next hother =>
              obtain ⟨recvData', hrest⟩ := ih hwaits
              refine ⟨recvData', fun rest => ?_⟩
              rw [if_neg hlong, if_neg hother]
              exact hrest rest

/-- The reply to a request is accepted exactly if its identifier is the process id. -/
theorem recvPing_reply_iff {request : Memory} {bytes : List UInt8} (tvrecv : Timeval)
    (hreply : RepliesTo request bytes) (hseq : load request 6 2 = packNo.toNat) :
    (∃ ms, recvPing getpid packNo sizeofBuf recvData [.datagram bytes tvrecv] =
      some (.roundTrip ms)) ↔ (load request 4 2 : Int) = getpid := by
  have hanswer := @isAnswer_received_iff getpid packNo recvData bytes hreply.whole
  rw [hreply.id, hreply.seq, hseq] at hanswer
  have hlong := (@received_long_iff recvData bytes).mpr hreply.whole
  simp only [recvPing, if_neg hlong]
  constructor
  · rintro ⟨ms, hms⟩
    split at hms
    · next h => exact (hanswer.mp h).2.1
    · cases hms
  · intro hid
    rw [if_pos (hanswer.mpr ⟨hreply.type, hid, rfl⟩)]
    exact ⟨_, rfl⟩

/-- Only a packet that answers the request is ever accepted. -/
theorem recvPing_only_reply {request : Memory} (hid : ∀ id : Nat, (id : Int) = getpid →
      id < 65536 → id = load request 4 2) (hseq : load request 6 2 = packNo.toNat)
    {arrivals : List Arrival} {ms : Int}
    (hms : recvPing getpid packNo sizeofBuf recvData arrivals = some (.roundTrip ms)) :
    ∃ before bytes tvrecv after, arrivals = before ++ .datagram bytes tvrecv :: after ∧
      recvPing getpid packNo sizeofBuf recvData before = none ∧ RepliesTo request bytes := by
  induction arrivals generalizing recvData with
  | nil => simp [recvPing] at hms
  | cons arrival arrivals ih =>
      cases arrival with
      | notReady => simp [recvPing] at hms
      | recvfromFailed => simp [recvPing] at hms
      | datagram bytes tvrecv =>
          simp only [recvPing] at hms
          split at hms
          · cases hms
          · next hlong =>
            have hwhole := received_long_iff.mp hlong
            split at hms
            · next hanswer =>
              obtain ⟨htype, hgot, hno⟩ := (isAnswer_received_iff hwhole).mp hanswer
              refine ⟨[], bytes, tvrecv, arrivals, rfl, rfl, hwhole, htype, ?_, hno.trans hseq.symm⟩
              exact hid _ hgot (load_lt (packet bytes) (iphdrlen (packet bytes) + 4) 2)
            · next hother =>
              obtain ⟨before, bytes', tvrecv', after, rfl, hwaits, hreply⟩ := ih hms
              refine ⟨.datagram bytes tvrecv :: before, bytes', tvrecv', after, rfl, ?_, hreply⟩
              simp only [recvPing, if_neg hlong, if_neg hother]
              exact hwaits

/-- The reply to the request of `set_icmp_pkg` is accepted exactly if the process
id fits into 16 bits, and nothing else than a reply to it is ever accepted. -/
theorem recvPing_iff (getpid : Int) (packNo : UInt16) (tval : Timeval) (pkg recvData : Memory) :
    let request := setIcmpPkg getpid tval packNo pkg sizeofIcmp
    (∀ before bytes tvrecv, recvPing getpid packNo sizeofBuf recvData before = none →
      RepliesTo request bytes →
      ((∃ ms, recvPing getpid packNo sizeofBuf recvData (before ++ [.datagram bytes tvrecv]) =
        some (.roundTrip ms)) ↔ 0 ≤ getpid ∧ getpid < 65536)) ∧
    ∀ arrivals ms, recvPing getpid packNo sizeofBuf recvData arrivals = some (.roundTrip ms) →
      ∃ before bytes tvrecv after, arrivals = before ++ .datagram bytes tvrecv :: after ∧
        recvPing getpid packNo sizeofBuf recvData before = none ∧ RepliesTo request bytes := by
  have hid := load_setIcmpPkg_id getpid tval packNo pkg sizeofIcmp
  have hseq := load_setIcmpPkg_seq getpid tval packNo pkg sizeofIcmp
  constructor
  · intro before bytes tvrecv hwaits hreply
    obtain ⟨recvData', hrest⟩ := recvPing_append hwaits
    rw [hrest, recvPing_reply_iff tvrecv hreply hseq, hid, toUShort]
    omega
  · intro arrivals ms hms
    apply recvPing_only_reply _ hseq hms
    intro id hgot hshort
    rw [hid, toUShort]
    omega

/-- An IP packet with an echo reply that has these identifier and sequence bytes. -/
def echoReply (idAndSeq : List UInt8) : List UInt8 :=
  0x45 :: List.replicate 19 0 ++ [0, 0, 0, 0] ++ idAndSeq ++ List.replicate 20 0

/-- The reply to the process 1234 is accepted. -/
theorem recvPing_iff_smallId :
    ∃ ms, recvPing 1234 65520 sizeofBuf (fun _ => 0)
      [.datagram (echoReply [0xD2, 0x04, 0xF0, 0xFF]) ⟨0, 0⟩] = some (.roundTrip ms) :=
  ((recvPing_iff 1234 65520 ⟨0, 0⟩ (fun _ => 0) (fun _ => 0)).1 [] _ ⟨0, 0⟩ rfl (by decide)).mpr
    (by decide)

/-- The request of the process 65536 carries the identifier 0. Its reply repeats
the identifier and the sequence number, and is not accepted. -/
theorem reply_not_accepted :
    RepliesTo (setIcmpPkg 65536 ⟨0, 0⟩ 65520 (fun _ => 0) sizeofIcmp)
      (echoReply [0, 0, 0xF0, 0xFF]) ∧
    recvPing 65536 65520 sizeofBuf (fun _ => 0)
      [.datagram (echoReply [0, 0, 0xF0, 0xFF]) ⟨0, 0⟩] = none := by
  decide

end CodingLearners.PingMonitor
