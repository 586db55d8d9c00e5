import Mathlib.Logic.Function.Basic
import Mathlib.Tactic.Ring

/-!
# Byte memory

Numbers of a fixed width are stored byte by byte, the low byte first. A load
reads back what a store of the same place wrote and ignores all other stores. A slice
reads back a list of bytes in the same way.
-/

namespace ByteMemory

abbrev Memory := Nat → UInt8

/-- The number in the `width` bytes from an address. -/
def load (memory : Memory) (address : Nat) : Nat → Nat
  | 0 => 0
  | width + 1 => (memory address).toNat + 256 * load memory (address + 1) width

/-- Write the low `width` bytes of a number. -/
def store (memory : Memory) (address : Nat) : Nat → Nat → Memory
  | 0, _ => memory
  | width + 1, number =>
      store (Function.update memory address (UInt8.ofNat number)) (address + 1) width (number / 256)

/-- Write a list of bytes at the start of the memory. -/
def fill (memory : Memory) (bytes : List UInt8) : Memory := fun address =>
  bytes.getD address (memory address)

theorem load_lt (memory : Memory) (address width : Nat) :
    load memory address width < 256 ^ width := by
  induction width generalizing address with
  | zero => simp [load]
  | succ width ih =>
      have hbyte := (memory address).toNat_lt
      have hrest := ih (address + 1)
      rw [load, pow_succ']
      omega

theorem store_apply_of_lt (memory : Memory) {address place : Nat} (width number : Nat)
    (h : place < address) : store memory address width number place = memory place := by
  induction width generalizing memory address number with
  | zero => rfl
  | succ width ih =>
      rw [store, ih _ _ (by omega), Function.update_of_ne (by omega)]

theorem store_apply_of_ge (memory : Memory) {address place width : Nat} (number : Nat)
    (h : address + width ≤ place) : store memory address width number place = memory place := by
  induction width generalizing memory address number with
  | zero => rfl
  | succ width ih =>
      rw [store, ih _ _ (by omega), Function.update_of_ne (by omega)]

theorem load_congr {memory memory' : Memory} {address width : Nat}
    (h : ∀ place, address ≤ place → place < address + width → memory place = memory' place) :
    load memory address width = load memory' address width := by
  induction width generalizing address with
  | zero => rfl
  | succ width ih =>
      rw [load, load, h address (Nat.le_refl _) (by omega)]
      rw [ih fun place hlow hhigh => h place (by omega) (by omega)]

/-- A load from another place ignores a store. -/
theorem load_store_of_disjoint (memory : Memory) {address width place width' : Nat} (number : Nat)
    (h : address + width ≤ place ∨ place + width' ≤ address) :
    load (store memory address width number) place width' = load memory place width' := by
  apply load_congr
  intro q hlow hhigh
  rcases h with h | h
  · exact store_apply_of_ge memory number (by omega)
  · exact store_apply_of_lt memory width number (by omega)

/-- A load from the same place reads the number back, as far as it fits. -/
theorem load_store (memory : Memory) (address width number : Nat) :
    load (store memory address width number) address width = number % 256 ^ width := by
  induction width generalizing memory address number with
  | zero => simp [load, Nat.mod_one]
  | succ width ih =>
      have hfirst : (store (Function.update memory address (UInt8.ofNat number)) (address + 1) width
          (number / 256) address).toNat = number % 256 := by
        rw [store_apply_of_lt _ _ _ (Nat.lt_succ_self address), Function.update_self,
          UInt8.toNat_ofNat']
      calc load (store memory address (width + 1) number) address (width + 1)
          = number % 256 + 256 * (number / 256 % 256 ^ width) := by
            rw [load, store, hfirst, ih]
        _ = number % 256 ^ (width + 1) := by
            rw [pow_succ', Nat.mod_mul]

/-! ## Lists of bytes -/

/-- Write a list of bytes from an address on. -/
def write (memory : Memory) (address : Nat) : List UInt8 → Memory
  | [] => memory
  | byte :: bytes => write (Function.update memory address byte) (address + 1) bytes

/-- The `count` bytes from an address on. -/
def slice (memory : Memory) (address count : Nat) : List UInt8 :=
  (List.range' address count).map memory

@[simp] theorem length_slice (memory : Memory) (address count : Nat) :
    (slice memory address count).length = count := by
  simp [slice]

theorem slice_succ (memory : Memory) (address count : Nat) :
    slice memory address (count + 1) = memory address :: slice memory (address + 1) count := by
  rw [slice, List.range'_succ, List.map_cons, slice]

theorem slice_concat (memory : Memory) (address count : Nat) :
    slice memory address (count + 1) =
      slice memory address count ++ [memory (address + count)] := by
  rw [slice, List.range'_1_concat, List.map_append, slice, List.map_singleton]

theorem mem_slice {memory : Memory} {address count : Nat} {byte : UInt8} :
    byte ∈ slice memory address count ↔ ∃ i < count, memory (address + i) = byte := by
  constructor
  · intro h
    obtain ⟨place, hplace, rfl⟩ := List.mem_map.mp h
    obtain ⟨hlow, hhigh⟩ := List.mem_range'_1.mp hplace
    exact ⟨place - address, by omega, congrArg memory (by omega)⟩
  · rintro ⟨i, hi, rfl⟩
    exact List.mem_map.mpr ⟨address + i, List.mem_range'_1.mpr ⟨by omega, by omega⟩, rfl⟩

theorem slice_congr {memory memory' : Memory} {address count : Nat}
    (h : ∀ place, address ≤ place → place < address + count → memory place = memory' place) :
    slice memory address count = slice memory' address count := by
  apply List.map_congr_left
  intro place hplace
  obtain ⟨hlow, hhigh⟩ := List.mem_range'_1.mp hplace
  exact h place hlow hhigh

theorem slice_update_of_ge (memory : Memory) {address count place : Nat} (byte : UInt8)
    (h : address + count ≤ place) :
    slice (Function.update memory place byte) address count = slice memory address count := by
  apply slice_congr
  intro q _ hhigh
  exact Function.update_of_ne (by omega) _ _

theorem write_apply_of_lt (memory : Memory) {address place : Nat} (bytes : List UInt8)
    (h : place < address) : write memory address bytes place = memory place := by
  induction bytes generalizing memory address with
  | nil => rfl
  | cons byte bytes ih =>
      rw [write, ih _ (by omega), Function.update_of_ne (by omega)]

theorem write_apply_of_ge (memory : Memory) {address place : Nat} (bytes : List UInt8)
    (h : address + bytes.length ≤ place) : write memory address bytes place = memory place := by
  induction bytes generalizing memory address with
  | nil => rfl
  | cons byte bytes ih =>
      rw [List.length_cons] at h
      rw [write, ih _ (by omega), Function.update_of_ne (by omega)]

theorem write_append (memory : Memory) (address : Nat) (bytes more : List UInt8) :
    write memory address (bytes ++ more) =
      write (write memory address bytes) (address + bytes.length) more := by
  induction bytes generalizing memory address with
  | nil => rfl
  | cons byte bytes ih =>
      rw [List.cons_append, write, ih, write, List.length_cons, Nat.add_right_comm,
        Nat.add_assoc]

/-- A slice reads back the bytes that were written to its place. -/
theorem slice_write (memory : Memory) (address : Nat) (bytes : List UInt8) :
    slice (write memory address bytes) address bytes.length = bytes := by
  induction bytes generalizing memory address with
  | nil => rfl
  | cons byte bytes ih =>
      rw [List.length_cons, slice_succ, write, ih,
        write_apply_of_lt _ _ (Nat.lt_succ_self address), Function.update_self]

theorem slice_add (memory : Memory) (address m n : Nat) :
    slice memory address (m + n) = slice memory address m ++ slice memory (address + m) n := by
  rw [slice, ← List.range'_append_1, List.map_append, slice, slice]

/-- The text from an address on, up to its null and at most `count` bytes long. -/
def cString (memory : Memory) (address count : Nat) : List UInt8 :=
  (slice memory address count).takeWhile (· != 0)

theorem cString_eq {memory : Memory} {address count : Nat} {text : List UInt8}
    (htext : ∀ c ∈ text, c ≠ 0) (hslice : slice memory address text.length = text)
    (hnull : memory (address + text.length) = 0) (hcount : text.length < count) :
    cString memory address count = text := by
  have hsplit : slice memory address count =
      text ++ 0 :: slice memory (address + text.length + 1) (count - text.length - 1) := by
    calc slice memory address count
        = slice memory address (text.length + (count - text.length - 1 + 1)) := by
          congr 1
          omega
      _ = text ++ 0 :: slice memory (address + text.length + 1) (count - text.length - 1) := by
          rw [slice_add, hslice, slice_succ, hnull]
  rw [cString, hsplit, List.takeWhile_append_of_pos fun c hc => bne_iff_ne.mpr (htext c hc)]
  simp

/-- What is read in front of a write is what was there before. -/
theorem load_write_of_le (memory : Memory) {address width place : Nat} (bytes : List UInt8)
    (h : place + width ≤ address) :
    load (write memory address bytes) place width = load memory place width := by
  apply load_congr
  intro q _ hhigh
  exact write_apply_of_lt _ _ (by omega)

/-- The `width` bytes of a number, the low byte first. -/
def littleEndian : Nat → Nat → List UInt8
  | 0, _ => []
  | width + 1, number => UInt8.ofNat number :: littleEndian width (number / 256)

@[simp] theorem length_littleEndian (width number : Nat) :
    (littleEndian width number).length = width := by
  induction width generalizing number with
  | zero => rfl
  | succ width ih => simp [littleEndian, ih]

theorem store_eq_write (memory : Memory) (address width number : Nat) :
    store memory address width number = write memory address (littleEndian width number) := by
  induction width generalizing memory address number with
  | zero => rfl
  | succ width ih => rw [store, ih, littleEndian, write]

theorem load_write_littleEndian (memory : Memory) (address : Nat) {width number : Nat}
    (h : number < 256 ^ width) :
    load (write memory address (littleEndian width number)) address width = number := by
  rw [← store_eq_write, load_store, Nat.mod_eq_of_lt h]

end ByteMemory
