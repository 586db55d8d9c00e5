import CodingLearners.Library.ByteMemory
import Mathlib.Data.List.TakeDrop

/-!
# The frame of `tcpclient`

A message of hexadecimal digits is packed into `send_buf` between a header with the
length of the frame and a checksum byte. The loop takes at most 252 pairs of digits, so
it stays inside of the buffer; what does not fit is left out.

## Implementation notes

A string is the list of its bytes before the null. A write beyond `send_buf` has no
result.
-/

namespace CodingLearners.TcpClient

open ByteMemory

def MAX_SEND_SZ : Nat := 256

def isxdigit (c : UInt8) : Bool :=
  (48 ≤ c.toNat && c.toNat ≤ 57) || (65 ≤ c.toNat && c.toNat ≤ 70) ||
    (97 ≤ c.toNat && c.toNat ≤ 102)

def xdigitValue (c : UInt8) : Nat :=
  if c.toNat ≤ 57 then c.toNat - 48 else if c.toNat ≤ 70 then c.toNat - 55 else c.toNat - 87

/-- `strtol(text, 0, 16)` of a text without sign and blanks. -/
def strtol (text : List UInt8) : Nat :=
  let digits := match text with
    | 48 :: 120 :: rest => rest
    | _ => text
  (digits.takeWhile isxdigit).foldl (fun n c => 16 * n + xdigitValue c) 0

/-- The layouts with and without `zigbee_test`. -/
inductive Layout
  | standard
  | zigbeeTest
  deriving DecidableEq, Repr

/-- The bytes in front of the length byte. -/
def Layout.header : Layout → List UInt8
  | standard => [0xbe]
  | zigbeeTest => [0x9d, 0x9d]

/-- The locals of `main` while the frame is built. -/
structure SendBuf where
  sendBuf : Memory
  pt : Nat
  cnt : Nat

/-- `*pt++ = byte`, inside of `send_buf`. -/
def SendBuf.write (buf : SendBuf) (byte : UInt8) : Option SendBuf :=
  if buf.pt < MAX_SEND_SZ then
    some { buf with sendBuf := Function.update buf.sendBuf buf.pt byte, pt := buf.pt + 1 }
  else none

/-- `*pt++ = byte; cnt++`. -/
def SendBuf.put (buf : SendBuf) (byte : UInt8) : Option SendBuf := do
  let buf ← buf.write byte
  return { buf with cnt := buf.cnt + 1 }

/-- The loop over the digits, from its pass `i`; `steps` passes are left. -/
def dataLoop (arg : List UInt8) : Nat → Nat → SendBuf → Option SendBuf
  | 0, _, buf => some buf
  | steps + 1, i, buf =>
      match arg.drop (i * 2) with
      | [] => some buf
      | [d] => buf.put (UInt8.ofNat (strtol [48, 120, 48, d]))
      | d :: e :: _ => do
          let buf ← buf.put (UInt8.ofNat (strtol [48, 120, d, e]))
          dataLoop arg steps (i + 1) buf

/-- The header of the frame, with the place of the length byte left open. -/
def putHeader (layout : Layout) (sendBuf : Memory) : Option SendBuf := do
  let buf ← layout.header.foldlM SendBuf.write { sendBuf, pt := 0, cnt := 0 }
  return { buf with pt := buf.pt + 1, cnt := layout.header.length + 1 }

/-- The bytes that are handed to `Net_Send`. -/
def frame (layout : Layout) (sendBuf : Memory) (arg : List UInt8) : Option (List UInt8) := do
  let buf ← putHeader layout sendBuf
  let buf ← dataLoop arg (MAX_SEND_SZ - 4) 0 buf
  let buf ← buf.put 0
  let sendBuf := Function.update buf.sendBuf layout.header.length (UInt8.ofNat buf.cnt)
  return slice sendBuf 0 buf.cnt

/-- What `main` does with its message: the usage, or the frame. -/
inductive Sent
  | usage
  | frame (bytes : Option (List UInt8))

def sendBinary (layout : Layout) (sendBuf : Memory) (arg : List UInt8) : Sent :=
  if arg.all isxdigit = true then .frame (frame layout sendBuf arg) else .usage

/-! ## The format -/

/-- The bytes of a text of digits, two digits a byte; a single last digit is the low half. -/
def hexBytes : List UInt8 → List UInt8
  | [] => []
  | [d] => [UInt8.ofNat (xdigitValue d)]
  | d :: e :: rest => UInt8.ofNat (16 * xdigitValue d + xdigitValue e) :: hexBytes rest

/-- The frame of a text, with its length byte. -/
def Layout.format (layout : Layout) (length : UInt8) (arg : List UInt8) : List UInt8 :=
  layout.header ++ length :: (hexBytes arg ++ [0])

/-- The longest text that is sent as it should be. -/
def Layout.limit : Layout → Nat
  | standard => 504
  | zigbeeTest => 502

/-- A message that the check of `main` lets through, of at least one digit. -/
structure HexText where
  text : List UInt8
  nonempty : text ≠ []
  digits : ∀ c ∈ text, isxdigit c = true

theorem strtol_pair {d e : UInt8} (hd : isxdigit d = true) (he : isxdigit e = true) :
    strtol [48, 120, d, e] = 16 * xdigitValue d + xdigitValue e := by
  simp [strtol, List.takeWhile, hd, he]

theorem strtol_single {d : UInt8} (hd : isxdigit d = true) :
    strtol [48, 120, 48, d] = xdigitValue d := by
  rw [strtol_pair (by decide) hd]
  simp [xdigitValue]

theorem length_hexBytes (arg : List UInt8) : (hexBytes arg).length = (arg.length + 1) / 2 := by
  induction arg using hexBytes.induct with
  | case1 => rfl
  | case2 d => simp [hexBytes]
  | case3 d e rest ih =>
      simp only [hexBytes, List.length_cons, ih]
      omega

/-! ## The buffer -/

theorem put_eq {buf : SendBuf} (byte : UInt8) (h : buf.pt < MAX_SEND_SZ) :
    buf.put byte = some { sendBuf := Function.update buf.sendBuf buf.pt byte, pt := buf.pt + 1
                          cnt := buf.cnt + 1 } := by
  rw [SendBuf.put, SendBuf.write, if_pos h]
  rfl

/-- Bytes that fit are written one after another. -/
theorem foldlM_put (bytes : List UInt8) (buf : SendBuf)
    (h : buf.pt + bytes.length ≤ MAX_SEND_SZ) :
    bytes.foldlM SendBuf.put buf =
      some { sendBuf := write buf.sendBuf buf.pt bytes, pt := buf.pt + bytes.length
             cnt := buf.cnt + bytes.length } := by
  induction bytes generalizing buf with
  | nil => rfl
  | cons byte bytes ih =>
      rw [List.length_cons] at h
      rw [List.foldlM_cons, put_eq byte (by omega)]
      calc bytes.foldlM SendBuf.put _ = _ := ih _ (by simp only; omega)
        _ = some { sendBuf := write buf.sendBuf buf.pt (byte :: bytes)
                   pt := buf.pt + (byte :: bytes).length
                   cnt := buf.cnt + (byte :: bytes).length } := by
          simp only [write, List.length_cons, Nat.add_assoc, Nat.add_comm 1]

/-- The loop puts the bytes of the digits, as many as it has passes. -/
theorem dataLoop_eq {arg : List UInt8} (hdigits : ∀ c ∈ arg, isxdigit c = true)
    (steps i : Nat) (buf : SendBuf) :
    dataLoop arg steps i buf =
      ((hexBytes (arg.drop (i * 2))).take steps).foldlM SendBuf.put buf := by
  induction steps generalizing i buf with
  | zero => simp [dataLoop]
  | succ steps ih =>
      have hrest : ∀ c ∈ arg.drop (i * 2), isxdigit c = true := fun c hc =>
        hdigits c (List.mem_of_mem_drop hc)
      have hnext : arg.drop ((i + 1) * 2) = (arg.drop (i * 2)).drop 2 := by
        rw [List.drop_drop, Nat.succ_mul]
      rw [dataLoop]
      cases htext : arg.drop (i * 2) with
      | nil => rfl
      | cons d rest =>
          rw [htext] at hrest hnext
          have hd := hrest d List.mem_cons_self
          cases rest with
          | nil => simp [hexBytes, strtol_single hd]
          | cons e rest =>
              have he := hrest e (List.mem_cons_of_mem d List.mem_cons_self)
              simp only [strtol_pair hd he, hexBytes, List.take_succ_cons, List.foldlM_cons, ih,
                hnext, List.drop_succ_cons, List.drop_zero]

theorem header_length_le (layout : Layout) : layout.header.length ≤ 2 := by
  cases layout <;> decide

/-- The buffer with the header and some bytes behind the place of the length byte. -/
def filled (layout : Layout) (sendBuf : Memory) (bytes : List UInt8) : SendBuf where
  sendBuf := write (write sendBuf 0 layout.header) (layout.header.length + 1) bytes
  pt := layout.header.length + 1 + bytes.length
  cnt := layout.header.length + 1 + bytes.length

theorem putHeader_eq (layout : Layout) (sendBuf : Memory) :
    putHeader layout sendBuf = some (filled layout sendBuf []) := by
  cases layout <;> rfl

theorem foldlM_put_filled (layout : Layout) (sendBuf : Memory) {bytes more : List UInt8}
    (h : layout.header.length + 1 + (bytes ++ more).length ≤ MAX_SEND_SZ) :
    more.foldlM SendBuf.put (filled layout sendBuf bytes) =
      some (filled layout sendBuf (bytes ++ more)) := by
  rw [List.length_append, ← Nat.add_assoc] at h
  rw [foldlM_put more _ h]
  simp only [filled, write_append, List.length_append, Nat.add_assoc]

/-- The bytes of the digits for which the loop has a pass. -/
def sentBytes (arg : List UInt8) : List UInt8 := (hexBytes arg).take (MAX_SEND_SZ - 4)

theorem length_sentBytes_le (arg : List UInt8) : (sentBytes arg).length ≤ 252 :=
  List.length_take_le _ _

/-- A header, one byte that is written last, and the bytes behind it are read back. -/
theorem slice_frame (memory : Memory) (header tail : List UInt8) (length : UInt8) :
    slice (Function.update (write (write memory 0 header) (header.length + 1) tail)
      header.length length) 0 (header.length + (tail.length + 1)) =
      header ++ length :: tail := by
  have hheader : slice (Function.update (write (write memory 0 header) (header.length + 1) tail)
      header.length length) 0 header.length = header := by
    calc slice _ 0 header.length = slice (write memory 0 header) 0 header.length := by
          apply slice_congr
          intro place _ hhigh
          rw [Function.update_of_ne (by omega), write_apply_of_lt _ _ (by omega)]
      _ = header := slice_write _ _ _
  have htail : slice (Function.update (write (write memory 0 header) (header.length + 1) tail)
      header.length length) (header.length + 1) tail.length = tail := by
    calc slice _ (header.length + 1) tail.length
        = slice (write (write memory 0 header) (header.length + 1) tail) (header.length + 1)
            tail.length := by
          apply slice_congr
          intro place hlow _
          rw [Function.update_of_ne (by omega)]
      _ = tail := slice_write _ _ _
  rw [slice_add, hheader, slice_succ, Nat.zero_add, htail, Function.update_self]

/-- A message of digits always gives a frame, and no write leaves the buffer. -/
theorem frame_eq (layout : Layout) (sendBuf : Memory) {arg : List UInt8}
    (hdigits : ∀ c ∈ arg, isxdigit c = true) :
    frame layout sendBuf arg =
      some (layout.header ++
        UInt8.ofNat (layout.header.length + (sentBytes arg).length + 2) ::
          (sentBytes arg ++ [0])) := by
  have hheader := header_length_le layout
  have hdata := length_sentBytes_le arg
  have hloop : dataLoop arg (MAX_SEND_SZ - 4) 0 (filled layout sendBuf []) =
      some (filled layout sendBuf (sentBytes arg)) := by
    rw [dataLoop_eq hdigits]
    apply foldlM_put_filled
    rw [List.nil_append, MAX_SEND_SZ]
    exact Nat.le_trans (Nat.add_le_add_left hdata _) (by omega)
  have hlast : (filled layout sendBuf (sentBytes arg)).put 0 =
      some (filled layout sendBuf (sentBytes arg ++ [0])) := by
    calc (filled layout sendBuf (sentBytes arg)).put 0
        = [0].foldlM SendBuf.put (filled layout sendBuf (sentBytes arg)) := by simp
      _ = some (filled layout sendBuf (sentBytes arg ++ [0])) := by
        apply foldlM_put_filled
        rw [List.length_append, List.length_singleton, MAX_SEND_SZ]
        omega
  have hcnt : (filled layout sendBuf (sentBytes arg ++ [0])).cnt =
      layout.header.length + ((sentBytes arg ++ [0]).length + 1) := by
    rw [filled, Nat.add_assoc, Nat.add_comm 1]
  rw [frame, putHeader_eq]
  simp only [Option.bind_eq_bind, Option.bind_some, hloop, hlast, hcnt]
  rw [filled, slice_frame, List.length_append, List.length_singleton]
  rfl

/-- Up to the limit the loop has a pass for every byte, and the length fits into its byte. -/
theorem limit_iff (layout : Layout) (arg : List UInt8) :
    arg.length ≤ layout.limit ↔
      sentBytes arg = hexBytes arg ∧
        (layout.header.length + (sentBytes arg).length + 2) % 256 =
          layout.header.length + (sentBytes arg).length + 2 := by
  have hlength := length_hexBytes arg
  have hsent : (sentBytes arg).length = min 252 (hexBytes arg).length := List.length_take
  have hall : sentBytes arg = hexBytes arg ↔ (hexBytes arg).length ≤ 252 :=
    List.take_eq_self_iff _
  rw [hall]
  cases layout <;> simp only [Layout.limit, Layout.header, List.length_cons, List.length_nil] <;>
    omega

/-- A frame in the format of the layout is handed to `Net_Send`, and its length byte is the
number of its bytes. -/
def InFormat (layout : Layout) (sendBuf : Memory) (arg : List UInt8) : Prop :=
  ∃ (length : UInt8) (bytes : List UInt8), sendBinary layout sendBuf arg = .frame (some bytes) ∧
    bytes = layout.format length arg ∧ length.toNat = bytes.length

theorem sendBinary_eq (layout : Layout) (sendBuf : Memory) (arg : HexText) :
    sendBinary layout sendBuf arg.text = .frame (some (layout.header ++
      UInt8.ofNat (layout.header.length + (sentBytes arg.text).length + 2) ::
        (sentBytes arg.text ++ [0]))) := by
  rw [sendBinary, if_pos (List.all_eq_true.mpr arg.digits), frame_eq layout sendBuf arg.digits]

theorem inFormat_iff_sent (layout : Layout) (sendBuf : Memory) (arg : HexText) :
    InFormat layout sendBuf arg.text ↔
      sentBytes arg.text = hexBytes arg.text ∧
        (layout.header.length + (sentBytes arg.text).length + 2) % 256 =
          layout.header.length + (sentBytes arg.text).length + 2 := by
  rw [InFormat, sendBinary_eq]
  constructor
  · rintro ⟨length, bytes, hframe, hformat, hbyte⟩
    cases hframe
    obtain ⟨rfl, htail⟩ := List.cons_eq_cons.mp (List.append_cancel_left hformat)
    refine ⟨List.append_cancel_right htail, ?_⟩
    rw [UInt8.toNat_ofNat', List.length_append, List.length_cons, List.length_append,
      List.length_singleton] at hbyte
    omega
  · rintro ⟨hsent, hfits⟩
    refine ⟨UInt8.ofNat (layout.header.length + (sentBytes arg.text).length + 2), _, rfl, ?_, ?_⟩
    · rw [hsent]
      rfl
    · rw [UInt8.toNat_ofNat', List.length_append, List.length_cons, List.length_append,
        List.length_singleton]
      omega

/-- The frame is as the format says exactly if the text is not longer than the limit of the
layout. -/
theorem inFormat_iff (layout : Layout) (sendBuf : Memory) (arg : HexText) :
    InFormat layout sendBuf arg.text ↔ arg.text.length ≤ layout.limit :=
  (inFormat_iff_sent layout sendBuf arg).trans (limit_iff layout arg.text).symm

/-- A text of ones. -/
def ones (n : Nat) (h : 0 < n) : HexText where
  text := List.replicate n 49
  nonempty := by
    simp
    omega
  digits c hc := by
    rw [List.eq_of_mem_replicate hc]
    rfl

/-- 503 digits give a frame of 256 bytes in the layout of `zigbee_test`, which no length byte
says; of 505 digits the other layout leaves out the last one. -/
theorem ones_not_inFormat :
    ¬ InFormat .zigbeeTest (fun _ => 0) (ones 503 (by decide)).text ∧
      ¬ InFormat .standard (fun _ => 0) (ones 505 (by decide)).text := by
  rw [inFormat_iff_sent, inFormat_iff_sent, ← limit_iff, ← limit_iff, ones, ones,
    List.length_replicate, List.length_replicate]
  decide

end CodingLearners.TcpClient
