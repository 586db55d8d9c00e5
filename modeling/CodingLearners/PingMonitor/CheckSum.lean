import CodingLearners.Library.OnesComplement
import CodingLearners.PingMonitor.Ping
import Mathlib.Algebra.Order.BigOperators.Group.List

/-!
# The accumulator of `check_sum`

The sum is an `int` and is folded twice. For a buffer of at most 65535 bytes it does
not overflow, the second fold leaves no carry, and the result is the complement of
the one's complement sum. Stored in the buffer it makes the next result zero.

## Implementation notes

For an `int` that is not negative, `sum >> 16` and `sum & 0xFFFF` are quotient and
remainder by 65536.
-/

namespace CodingLearners.PingMonitor

open ByteMemory OnesComplement

/-- The value of an expression of type `int`, unless it overflows. -/
def int (n : Int) : Option Int :=
  if -2147483648 ≤ n ∧ n ≤ 2147483647 then some n else none

/-- The loop of `check_sum` and the odd byte: `nleft` bytes from `w`. -/
def sumWords (addr : Memory) (w : Nat) : Nat → Int → Option Int
  | 0, sum => some sum
  | 1, sum => int (sum + load addr w 1)
  | nleft + 2, sum => do
      let sum ← int (sum + load addr w 2)
      sumWords addr (w + 2) nleft sum

/-- `check_sum`, where it does not overflow. -/
def checkSumInt (addr : Memory) (len : Nat) : Option Nat := do
  let sum ← sumWords addr 0 len 0
  let sum ← int (sum / 65536 + sum % 65536)
  let sum ← int (sum + sum / 65536)
  return toUShort (-sum - 1)

/-- The 16-bit words of a buffer, an odd last byte padded with zero. -/
def words (addr : Memory) (w : Nat) : Nat → List Nat
  | 0 => []
  | 1 => [load addr w 1]
  | nleft + 2 => load addr w 2 :: words addr (w + 2) nleft

variable {addr : Memory} {w len : Nat}

theorem words_le : ∀ word ∈ words addr w len, word ≤ 65535 := by
  fun_induction words addr w len with
  | case1 w => simp
  | case2 w =>
      have hbyte := load_lt addr w 1
      simp only [List.mem_singleton, forall_eq]
      omega
  | case3 w nleft ih =>
      have hword := load_lt addr w 2
      rw [List.forall_mem_cons]
      exact ⟨by omega, ih⟩

theorem length_words : (words addr w len).length = (len + 1) / 2 := by
  fun_induction words addr w len with
  | case1 w => rfl
  | case2 w => rfl
  | case3 w nleft ih =>
      rw [List.length_cons, ih]
      omega

theorem sum_words_le (hlen : len ≤ 65535) : (words addr w len).sum ≤ 32768 * 65535 := by
  have hbound := List.sum_le_card_nsmul (words addr w len) 65535 words_le
  rw [length_words, nsmul_eq_mul, Nat.cast_id] at hbound
  exact hbound.trans (Nat.mul_le_mul_right _ (by omega))

/-- The sum grows up to the sum of all words, which is an `int`. -/
theorem sumWords_eq {sum : Int} (hsum : 0 ≤ sum) (h : sum + (words addr w len).sum < 2 ^ 31) :
    sumWords addr w len sum = some (sum + (words addr w len).sum) := by
  fun_induction sumWords addr w len sum with
  | case1 w sum => simp [words]
  | case2 w sum =>
      simp only [words, List.sum_singleton] at h ⊢
      rw [int, if_pos ⟨by omega, by omega⟩]
  | case3 w nleft sum ih =>
      simp only [words, List.sum_cons, Nat.cast_add] at h ⊢
      rw [int, if_pos ⟨by omega, by omega⟩, Option.bind_eq_bind, Option.bind_some,
        ih _ (by omega) (by omega), Int.add_assoc]

/-- After two folds no carry is left. -/
theorem fold_twice {total : Nat} (h : total < 2 ^ 31) :
    let once := total / 65536 + total % 65536
    (once + once / 65536) % 65536 = reduce 65535 total := by
  intro once
  have hhigh : total / 65536 < 32768 := by omega
  have hlow : total % 65536 < 65536 := Nat.mod_lt _ (by decide)
  cases Nat.eq_zero_or_pos once with
  | inl hzero =>
      have htotal : total = 0 := by omega
      simp [once, htotal, reduce]
  | inr hpos =>
      cases Nat.lt_or_ge once 65536 with
      | inl hsmall =>
          have htotal : total = 65535 * (total / 65536) + once := by omega
          have hsame : (once + once / 65536) % 65536 = once := by omega
          rw [hsame]
          conv_rhs => rw [htotal]
          exact (reduce_mul_add _ hpos (by omega)).symm
      | inr hcarry =>
          have htotal : total = 65535 * (total / 65536 + 1) + (once - 65535) := by omega
          have hone : once / 65536 = 1 := by omega
          have hsame : (once + once / 65536) % 65536 = once - 65535 := by omega
          rw [hsame]
          conv_rhs => rw [htotal]
          exact (reduce_mul_add _ (by omega) (by omega)).symm

theorem int_natCast {n : Nat} (h : n < 2 ^ 31) : int n = some (n : Int) :=
  if_pos ⟨by omega, by omega⟩

theorem int_fold {total : Nat} (h : total < 2 ^ 31) :
    int ((total : Int) / 65536 + (total : Int) % 65536) =
      some ((total / 65536 + total % 65536 : Nat) : Int) := by
  have hcast : ((total / 65536 + total % 65536 : Nat) : Int) =
      (total : Int) / 65536 + (total : Int) % 65536 := by omega
  rw [← hcast, int_natCast (by omega)]

theorem int_carry {once : Nat} (h : once < 2 ^ 30) :
    int ((once : Int) + (once : Int) / 65536) = some ((once + once / 65536 : Nat) : Int) := by
  have hcast : ((once + once / 65536 : Nat) : Int) = (once : Int) + (once : Int) / 65536 := by
    omega
  rw [← hcast, int_natCast (by omega)]

/-- `~sum`, cut to 16 bits. -/
theorem toUShort_not (n : Nat) : toUShort (-(n : Int) - 1) = complement 65535 (n % 65536) := by
  rw [toUShort, complement]
  omega

/-- `check_sum` does not overflow and returns the complement of the sum. -/
theorem checkSumInt_eq (addr : Memory) {len : Nat} (hlen : len ≤ 65535) :
    checkSumInt addr len = some (complement 65535 (reduce 65535 (words addr 0 len).sum)) := by
  have hbound : (words addr 0 len).sum ≤ 32768 * 65535 := sum_words_le hlen
  have hsum : sumWords addr 0 len 0 = some ((words addr 0 len).sum : Int) := by
    rw [sumWords_eq (Int.le_refl 0) (by omega), Int.zero_add]
  rw [checkSumInt, hsum]
  generalize (words addr 0 len).sum = total at hbound
  have hint : total < 2 ^ 31 := by omega
  simp only [Option.bind_eq_bind, Option.bind_some, Option.pure_def]
  rw [int_fold hint, Option.bind_some, int_carry (by omega), Option.bind_some, toUShort_not,
    fold_twice hint]

/-! ## Storing the result -/

theorem words_congr {memory memory' : Memory}
    (h : ∀ place, w ≤ place → place < w + len → memory place = memory' place) :
    words memory w len = words memory' w len := by
  fun_induction words memory w len with
  | case1 w => rfl
  | case2 w => rw [words, load_congr h]
  | case3 w nleft ih =>
      rw [words, ih fun place hlow hhigh => h place (by omega) (by omega),
        load_congr fun place hlow hhigh => h place hlow (by omega)]

/-- A word stored in a field that was zero is added to the sum. -/
theorem sum_words_store {k number : Nat} (hfield : 2 * k + 2 ≤ len)
    (hzero : load addr (w + 2 * k) 2 = 0) (hnumber : number < 65536) :
    (words (store addr (w + 2 * k) 2 number) w len).sum = (words addr w len).sum + number := by
  fun_induction words addr w len generalizing k with
  | case1 w => omega
  | case2 w => omega
  | case3 w nleft ih =>
      cases k with
      | zero =>
          have hrest : words (store addr w 2 number) (w + 2) nleft = words addr (w + 2) nleft :=
            words_congr fun place hlow _ => store_apply_of_ge addr number (by omega)
          have hfirst : load (store addr w 2 number) w 2 = number := by
            rw [load_store]
            exact Nat.mod_eq_of_lt hnumber
          simp only [Nat.mul_zero, Nat.add_zero] at hzero ⊢
          rw [words, List.sum_cons, List.sum_cons, hrest, hfirst, hzero]
          omega
      | succ k =>
          have hplace : w + 2 * (k + 1) = w + 2 + 2 * k := by ring
          have hfirst : load (store addr (w + 2 * (k + 1)) 2 number) w 2 = load addr w 2 :=
            load_store_of_disjoint addr number (by omega)
          rw [words, List.sum_cons, List.sum_cons, hfirst, hplace,
            ih (by omega) (by rw [← hplace]; exact hzero)]
          omega

/-- The result stored in the field makes the next result zero. -/
theorem complement_stored {k : Nat} (hfield : 2 * k + 2 ≤ len)
    (hzero : load addr (2 * k) 2 = 0) :
    complement 65535 (reduce 65535 (words (store addr (2 * k) 2
      (complement 65535 (reduce 65535 (words addr 0 len).sum))) 0 len).sum) = 0 := by
  have hword : complement 65535 (reduce 65535 (words addr 0 len).sum) < 65536 :=
    Nat.lt_succ_of_le (Nat.sub_le _ _)
  have hsum := sum_words_store (w := 0) hfield (by rw [Nat.zero_add]; exact hzero) hword
  rw [Nat.zero_add] at hsum
  rw [hsum]
  exact complement_reduce_add_complement (by decide) _

/-- The result is the complement of the one's complement sum of the words, and zero
for the buffer that has it in a field that was zero. -/
theorem checkSumInt_complement (addr : Memory) {len : Nat} (hlen : len ≤ 65535) :
    checkSumInt addr len = some (complement 65535 (OnesComplement.sum 65535 (words addr 0 len))) ∧
      ∀ k result, 2 * k + 2 ≤ len → load addr (2 * k) 2 = 0 →
        checkSumInt addr len = some result →
          checkSumInt (store addr (2 * k) 2 result) len = some 0 := by
  rw [sum_eq_reduce (by decide) words_le]
  refine ⟨checkSumInt_eq addr hlen, fun k result hfield hzero hresult => ?_⟩
  rw [checkSumInt_eq addr hlen] at hresult
  obtain rfl := Option.some.inj hresult
  rw [checkSumInt_eq _ hlen, complement_stored hfield hzero]

/-- Three bytes, of which the first two are zero. -/
theorem checkSumInt_complement_odd :
    checkSumInt (packet [0, 0, 7]) 3 = some 65528 ∧
      checkSumInt (store (packet [0, 0, 7]) 0 2 65528) 3 = some 0 := by
  obtain ⟨hresult, hstored⟩ := checkSumInt_complement (packet [0, 0, 7]) (by decide : 3 ≤ 65535)
  exact ⟨hresult, hstored 0 65528 (by decide) rfl hresult⟩

/-! ## The echo request -/

theorem words_eq : words addr w len =
    (List.range (len / 2)).map (fun k => load addr (w + 2 * k) 2) ++
      if len % 2 = 1 then [load addr (w + len - 1) 1] else [] := by
  fun_induction words addr w len with
  | case1 w => rfl
  | case2 w => rfl
  | case3 w nleft ih =>
      have hhalf : (nleft + 1 + 1) / 2 = nleft / 2 + 1 := by omega
      have hodd : (nleft + 1 + 1) % 2 = nleft % 2 := by omega
      have hlast : w + (nleft + 1 + 1) - 1 = w + 2 + nleft - 1 := by omega
      have hplace : ∀ k, w + 2 * (k + 1) = w + 2 + 2 * k := by omega
      rw [ih, hhalf, hodd, hlast, List.range_succ_eq_map]
      simp [hplace]

theorem sum_words : (words addr 0 len).sum =
    (List.range (len / 2)).foldl (fun sum k => sum + load addr (2 * k) 2) 0 +
      if len % 2 = 1 then load addr (len - 1) 1 else 0 := by
  rw [words_eq, List.sum_append]
  congr 1
  · rw [List.sum_eq_foldl, List.foldl_map]
    simp only [Nat.zero_add]
  · split <;> simp

/-- The total function returns what the checked one does. -/
theorem checkSum_eq (addr : Memory) {len : Nat} (hlen : len ≤ 65535) :
    checkSum addr len = complement 65535 (reduce 65535 (words addr 0 len).sum) := by
  have hbound : (words addr 0 len).sum ≤ 32768 * 65535 := sum_words_le hlen
  have htotal : (if len % 2 = 1 then
      (List.range (len / 2)).foldl (fun sum k => sum + load addr (2 * k) 2) 0 +
        load addr (len - 1) 1
      else (List.range (len / 2)).foldl (fun sum k => sum + load addr (2 * k) 2) 0) =
      (words addr 0 len).sum := by
    rw [sum_words]
    split <;> rfl
  have hmask : ∀ n : Nat, n &&& 0xFFFF = n % 65536 := fun n => Nat.and_two_pow_sub_one_eq_mod n 16
  simp only [checkSum, htotal]
  generalize (words addr 0 len).sum = total at hbound
  simp only [hmask, Nat.shiftRight_eq_div_pow, toUShort_not, Nat.reducePow]
  rw [fold_twice (by omega)]

/-- The request that is sent has check sum zero. -/
theorem checkSum_setIcmpPkg (getpid : Int) (tval : Timeval) (packNo : UInt16) (pkg : Memory)
    {pkgLen : Nat} (hfield : 4 ≤ pkgLen) (hlen : pkgLen ≤ 65535) :
    checkSum (setIcmpPkg getpid tval packNo pkg pkgLen) pkgLen = 0 := by
  simp only [setIcmpPkg]
  rw [checkSum_eq _ hlen, checkSum_eq _ hlen]
  apply complement_stored (k := 1) (by omega)
  rw [load_store_of_disjoint _ _ (by omega), load_store_of_disjoint _ _ (by omega),
    load_store_of_disjoint _ _ (by omega), load_store_of_disjoint _ _ (by omega), load_store]
  rfl

end CodingLearners.PingMonitor
