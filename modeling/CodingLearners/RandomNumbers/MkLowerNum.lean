import CodingLearners.Library.ByteMemory
import Mathlib.Data.List.Perm.Subperm
import Mathlib.Data.List.Nodup

/-!
# The permutation of `mklowernum`

Random bytes are reduced modulo 36 and freed of duplicates in place, further bytes fill
the gap up to 35 numbers, and the last number is deduced. Each phase keeps the numbers
in front of `cnt` distinct and below 36.

## Implementation notes

The results of `read` are a list; where it is used up, or a count is not between one and
the count asked for, there is no result. What `dict` holds before it is filled is a
parameter.
-/

namespace CodingLearners.RandomNumbers

open ByteMemory

/-- What `read` returns: some bytes, or `-1`. -/
inductive ReadResult
  | data (bytes : List UInt8)
  | error

/-- What `get_data` leaves: its value, the memory of the buffer and the results of `read`
that are still to come. -/
structure GetData where
  ok : Bool
  memory : Memory
  reads : List ReadResult

/-- The loop of `get_data`, with its `buffer` and `size`. -/
def readLoop (memory : Memory) (buffer : Nat) (size : Int) : List ReadResult → Option GetData
  | [] => none
  | .error :: reads => some { ok := size - (-1) == 0, memory, reads }
  | .data bytes :: reads =>
      if bytes = [] ∨ size < bytes.length then none
      else
        let memory := write memory buffer bytes
        let size := size - bytes.length
        if 0 < size then readLoop memory (buffer + bytes.length) size reads
        else some { ok := size == 0, memory, reads }

/-- `get_data(fd, buffer, size)`; the buffer starts at address 0. -/
def getData (memory : Memory) (size : Int) (reads : List ReadResult) : Option GetData :=
  if size ≤ 0 then some { ok := false, memory, reads } else readLoop memory 0 size reads

def isdict (dict : Memory) (length : Nat) (c : UInt8) : Bool :=
  (List.range length).any fun ii => dict ii == c

/-- The locals `dict` and `cnt` of `main`. -/
structure Dict where
  dict : Memory
  cnt : Nat

/-- `dict[cnt++] = c` -/
def Dict.push (state : Dict) (c : UInt8) : Dict :=
  { dict := Function.update state.dict state.cnt c, cnt := state.cnt + 1 }

/-- One pass of the loop that removes the duplicates. -/
def Dict.compactStep (state : Dict) (ii : Nat) : Dict :=
  let dict := Function.update state.dict ii (state.dict ii % 36)
  if isdict dict state.cnt (dict ii) then { state with dict }
  else { state with dict }.push (dict ii)

def compact (dict : Memory) : Dict := (List.range 36).foldl Dict.compactStep { dict, cnt := 0 }

theorem readLoop_reads {memory : Memory} {buffer : Nat} {size : Int} {reads : List ReadResult}
    {result : GetData} (h : readLoop memory buffer size reads = some result) :
    result.reads.length < reads.length := by
  fun_induction readLoop memory buffer size reads with
  | case1 => contradiction
  | case2 =>
      cases h
      simp
  | case3 => contradiction
  | case4 _ _ _ _ _ _ _ _ _ ih =>
      have hrest := ih h
      rw [List.length_cons]
      omega
  | case5 =>
      cases h
      simp

/-- A successful `get_data` has used at least one result of `read`. -/
theorem getData_reads {memory : Memory} {size : Int} {reads : List ReadResult}
    {result : GetData} (h : getData memory size reads = some result) (hok : result.ok = true) :
    result.reads.length < reads.length := by
  rw [getData] at h
  split at h
  · cases h
    contradiction
  · exact readLoop_reads h

/-- The loop that fills the gap up to 35 numbers; `none` in the result is the failure that
`get_data` reports. -/
def fillUp (state : Dict) (reads : List ReadResult) : Option (Option Dict) :=
  if state.cnt < 35 then
    match h : getData (fun _ => 0) 1 reads with
    | none => none
    | some result =>
        if hok : result.ok = true then
          let c := result.memory 0 % 36
          fillUp (if isdict state.dict state.cnt c then state else state.push c) result.reads
        else some none
  else some (some state)
termination_by reads.length
decreasing_by exact getData_reads h hok

/-- `sortdt[dict[ii]] = dict[ii]` -/
def sortdtStep (dict sortdt : Memory) (ii : Nat) : Memory :=
  Function.update sortdt (dict ii).toNat (dict ii)

/-- The array `sortdt`: each number at its own place. -/
def sortdt (state : Dict) : Memory :=
  (List.range state.cnt).foldl (sortdtStep state.dict) fun _ => 0xff

/-- The last number, if only one is missing. -/
def deduce (state : Dict) : Dict :=
  if state.cnt = 35 then
    match (List.range 36).find? fun ii => sortdt state ii == 0xff with
    | some ii => state.push (UInt8.ofNat ii)
    | none => state
  else state

/-- How the program ends, with the numbers that it prints. -/
inductive Outcome
  | failed
  | failedRerunLater
  | success (numbers : List UInt8)
  deriving DecidableEq, Repr

/-- The program, where `opened` says whether the device could be opened. -/
def mklowernum (opened : Bool) (dict : Memory) (reads : List ReadResult) : Option Outcome :=
  if opened = false then some .failed
  else
    match getData dict 36 reads with
    | none => none
    | some result =>
        if result.ok = false then some .failedRerunLater
        else
          match fillUp (compact result.memory) result.reads with
          | none => none
          | some none => some .failedRerunLater
          | some (some state) =>
              let state := deduce state
              if state.cnt ≠ 36 then some .failed
              else some (.success (slice state.dict 0 36))

/-! ## The buffer of `get_data` -/

/-- A loop that succeeds has written the bytes of the results of `read` one after another. -/
theorem readLoop_ok {memory : Memory} {buffer : Nat} {size : Int} {reads : List ReadResult}
    {result : GetData} (hsize : 0 < size) (h : readLoop memory buffer size reads = some result)
    (hok : result.ok = true) :
    ∃ blocks : List (List UInt8), reads = blocks.map ReadResult.data ++ result.reads ∧
      (blocks.flatten.length : Int) = size ∧
      result.memory = write memory buffer blocks.flatten := by
  fun_induction readLoop memory buffer size reads with
  | case1 => contradiction
  | case2 memory buffer size reads =>
      cases h
      simp only [beq_iff_eq] at hok
      omega
  | case3 => contradiction
  | case4 memory buffer size bytes reads hread memory' size' hmore ih =>
      obtain ⟨blocks, hreads, hlength, hmemory⟩ := ih hmore h
      refine ⟨bytes :: blocks, ?_, ?_, ?_⟩
      · rw [hreads]
        rfl
      · rw [List.flatten_cons, List.length_append]
        omega
      · rw [hmemory, List.flatten_cons, write_append]
  | case5 memory buffer size bytes reads hread memory' size' hdone =>
      cases h
      refine ⟨[bytes], rfl, ?_, ?_⟩
      · simp only [beq_iff_eq] at hok
        rw [List.flatten_singleton]
        omega
      · rw [List.flatten_singleton]

/-- A `get_data` that returns true has filled the buffer, in the order of the reads. -/
theorem getData_ok {memory : Memory} {size : Int} {reads : List ReadResult} {result : GetData}
    (h : getData memory size reads = some result) (hok : result.ok = true) :
    ∃ blocks : List (List UInt8), reads = blocks.map ReadResult.data ++ result.reads ∧
      (blocks.flatten.length : Int) = size ∧
      slice result.memory 0 size.toNat = blocks.flatten := by
  rw [getData] at h
  split at h
  · cases h
    contradiction
  · obtain ⟨blocks, hreads, hlength, hmemory⟩ := readLoop_ok (by omega) h hok
    refine ⟨blocks, hreads, hlength, ?_⟩
    rw [← hlength, Int.toNat_natCast, hmemory, slice_write]

/-! ## The numbers in front of `cnt` -/

/-- The numbers collected so far. -/
def Dict.numbers (state : Dict) : List UInt8 := slice state.dict 0 state.cnt

/-- They are distinct and below 36. -/
structure Dict.Distinct (state : Dict) : Prop where
  nodup : state.numbers.Nodup
  below : ∀ c ∈ state.numbers, c.toNat < 36

theorem isdict_eq_true_iff {dict : Memory} {length : Nat} {c : UInt8} :
    isdict dict length c = true ↔ c ∈ slice dict 0 length := by
  simp [isdict, mem_slice]

variable {state : Dict} {c : UInt8}

@[simp] theorem Dict.push_cnt : (state.push c).cnt = state.cnt + 1 := rfl

@[simp] theorem Dict.numbers_push : (state.push c).numbers = state.numbers ++ [c] := by
  simp only [numbers, push, slice_concat]
  rw [slice_update_of_ge _ _ (by omega), Nat.zero_add, Function.update_self]

theorem toNat_mod_lt (c : UInt8) : (c % 36).toNat < 36 := by
  rw [UInt8.toNat_mod]
  exact Nat.mod_lt _ (by decide)

theorem Dict.Distinct.push (h : state.Distinct) (hlt : c.toNat < 36)
    (hnew : c ∉ state.numbers) : (state.push c).Distinct := by
  constructor
  · rw [numbers_push]
    exact h.nodup.append (List.nodup_singleton c) (by simpa using hnew)
  · intro d hd
    rw [numbers_push, List.mem_append, List.mem_singleton] at hd
    rcases hd with hd | rfl
    · exact h.below d hd
    · exact hlt

/-- A write behind the collected numbers leaves them alone. -/
theorem Dict.numbers_update {ii : Nat} (h : state.cnt ≤ ii) (c : UInt8) :
    numbers { state with dict := Function.update state.dict ii c } = state.numbers :=
  slice_update_of_ge _ _ (by simpa using h)

theorem Dict.compactStep_distinct {ii : Nat} (h : state.Distinct) (hle : state.cnt ≤ ii) :
    (state.compactStep ii).Distinct ∧ (state.compactStep ii).cnt ≤ ii + 1 := by
  have hnumbers := numbers_update hle (state.dict ii % 36)
  have hsame : Distinct { state with dict := Function.update state.dict ii (state.dict ii % 36) } :=
    ⟨hnumbers ▸ h.nodup, hnumbers ▸ h.below⟩
  rw [compactStep]
  split
  · exact ⟨hsame, Nat.le_succ_of_le hle⟩
  · rename_i hnew
    rw [isdict_eq_true_iff] at hnew
    refine ⟨hsame.push ?_ hnew, Nat.succ_le_succ hle⟩
    rw [Function.update_self]
    exact toNat_mod_lt _

theorem compact_distinct (dict : Memory) :
    (compact dict).Distinct ∧ (compact dict).cnt ≤ 36 := by
  have hrun : ∀ k, ((List.range k).foldl Dict.compactStep { dict, cnt := 0 }).Distinct ∧
      ((List.range k).foldl Dict.compactStep { dict, cnt := 0 }).cnt ≤ k := by
    intro k
    induction k with
    | zero => exact ⟨⟨List.nodup_nil, fun c hc => absurd hc List.not_mem_nil⟩, Nat.le_refl 0⟩
    | succ k ih =>
        rw [List.range_succ, List.foldl_append]
        exact Dict.compactStep_distinct ih.1 ih.2
  exact hrun 36

/-- The loop leaves at least 35 distinct numbers. -/
theorem fillUp_distinct {reads : List ReadResult} {final : Dict} (h : state.Distinct)
    (hle : state.cnt ≤ 36) (hfill : fillUp state reads = some (some final)) :
    final.Distinct ∧ 35 ≤ final.cnt ∧ final.cnt ≤ 36 := by
  fun_induction fillUp state reads with
  | case1 => contradiction
  | case2 state reads hmore result hdata hok c ih =>
      apply ih _ _ hfill
      · split
        · exact h
        · rename_i hnew
          rw [isdict_eq_true_iff] at hnew
          exact h.push (toNat_mod_lt _) hnew
      · split
        · exact hle
        · rw [Dict.push_cnt]
          omega
  | case3 => simp at hfill
  | case4 state reads hdone =>
      cases hfill
      exact ⟨h, by omega, hle⟩

/-! ## The last number -/

/-- A place of `sortdt` keeps `0xff` exactly if its number has not been collected. -/
theorem sortdt_apply (h : state.Distinct) {ii : Nat} (hii : ii < 36) :
    sortdt state ii = 0xff ↔ UInt8.ofNat ii ∉ state.numbers := by
  have hrun : ∀ k ≤ state.cnt, (List.range k).foldl (sortdtStep state.dict) (fun _ => 0xff) ii =
      0xff ↔ ∀ i < k, state.dict i ≠ UInt8.ofNat ii := by
    intro k hk
    induction k with
    | zero => simp
    | succ k ih =>
        have hbelow := h.below (state.dict k) (mem_slice.mpr ⟨k, hk, by rw [Nat.zero_add]⟩)
        rw [List.range_succ, List.foldl_append, List.foldl_cons, List.foldl_nil, sortdtStep,
          Nat.forall_lt_succ_right, ← ih (Nat.le_of_succ_le hk)]
        by_cases hplace : ii = (state.dict k).toNat
        · rw [hplace, Function.update_self, UInt8.ofNat_toNat]
          have hne : state.dict k ≠ 0xff := by
            rintro heq
            rw [heq] at hbelow
            contradiction
          simp [hne]
        · have hne : state.dict k ≠ UInt8.ofNat ii := by
            rintro heq
            rw [heq, UInt8.toNat_ofNat'] at hplace
            omega
          rw [Function.update_of_ne hplace]
          simp [hne]
  rw [sortdt, hrun _ (Nat.le_refl _), Dict.numbers, mem_slice]
  simp

/-- Among fewer than 36 numbers one is missing. -/
theorem Dict.exists_missing (hlt : state.cnt < 36) :
    ∃ ii < 36, UInt8.ofNat ii ∉ state.numbers := by
  by_contra hall
  have hsub : (List.range 36).map UInt8.ofNat ⊆ state.numbers := by
    intro c hc
    obtain ⟨ii, hii, rfl⟩ := List.mem_map.mp hc
    by_contra hmissing
    exact hall ⟨ii, List.mem_range.mp hii, hmissing⟩
  have hnodup : ((List.range 36).map UInt8.ofNat).Nodup := by decide
  have hlength := (hnodup.subperm hsub).length_le
  simp only [List.length_map, List.length_range, numbers, length_slice] at hlength
  omega

/-- With 35 numbers collected the missing one is appended. -/
theorem deduce_distinct (h : state.Distinct) (hge : 35 ≤ state.cnt) (hle : state.cnt ≤ 36) :
    (deduce state).Distinct ∧ (deduce state).cnt = 36 := by
  rw [deduce]
  split
  · rename_i hcnt
    split
    · rename_i ii hfind
      have hii : ii < 36 := List.mem_range.mp (List.mem_of_find?_eq_some hfind)
      have hfree := List.find?_some hfind
      rw [beq_iff_eq] at hfree
      refine ⟨h.push ?_ ((sortdt_apply h hii).mp hfree), ?_⟩
      · rw [UInt8.toNat_ofNat']
        omega
      · rw [Dict.push_cnt, hcnt]
    · rename_i hnone
      have hlt : state.cnt < 36 := by omega
      obtain ⟨ii, hii, hmissing⟩ := Dict.exists_missing hlt
      refine absurd ?_ (List.find?_eq_none.mp hnone ii (List.mem_range.mpr hii))
      exact beq_iff_eq.mpr ((sortdt_apply h hii).mpr hmissing)
  · exact ⟨h, by omega⟩

theorem perm_range_of_nodup {l : List Nat} (hnodup : l.Nodup) (hlt : ∀ x ∈ l, x < l.length) :
    l.Perm (List.range l.length) := by
  have hsub : l ⊆ List.range l.length := fun x hx => List.mem_range.mpr (hlt x hx)
  exact (hnodup.subperm hsub).perm_of_length_le (by simp)

theorem Dict.Distinct.perm (h : state.Distinct) (hcnt : state.cnt = 36) :
    (state.numbers.map UInt8.toNat).Perm (List.range 36) := by
  have hlength : (state.numbers.map UInt8.toNat).length = 36 := by
    simp [numbers, hcnt]
  have hperm : (state.numbers.map UInt8.toNat).Perm
      (List.range (state.numbers.map UInt8.toNat).length) := by
    apply perm_range_of_nodup
    · exact h.nodup.map fun c d => UInt8.toNat_inj.mp
    · intro x hx
      obtain ⟨c, hc, rfl⟩ := List.mem_map.mp hx
      rw [hlength]
      exact h.below c hc
  rwa [hlength] at hperm

/-- After the reads the program succeeds, with a permutation. -/
theorem collected_perm {dict : Memory} {reads : List ReadResult} {state : Dict}
    (h : fillUp (compact dict) reads = some (some state)) :
    (deduce state).cnt = 36 ∧
      ((slice (deduce state).dict 0 36).map UInt8.toNat).Perm (List.range 36) := by
  obtain ⟨hcompact, hcnt⟩ := compact_distinct dict
  obtain ⟨hstate, hge, hle⟩ := fillUp_distinct hcompact hcnt h
  obtain ⟨hfinal, hfinalCnt⟩ := deduce_distinct hstate hge hle
  have hperm := hfinal.perm hfinalCnt
  rw [Dict.numbers, hfinalCnt] at hperm
  exact ⟨hfinalCnt, hperm⟩

/-- A `get_data` that returns true has filled the buffer in order, and the numbers that the
program prints with its success are a permutation of `0, …, 35`. -/
theorem mklowernum_permutation :
    (∀ (memory : Memory) (size : Int) (reads : List ReadResult) (result : GetData),
      getData memory size reads = some result → result.ok = true →
      ∃ blocks : List (List UInt8), reads = blocks.map ReadResult.data ++ result.reads ∧
        (blocks.flatten.length : Int) = size ∧
        slice result.memory 0 size.toNat = blocks.flatten) ∧
    ∀ (opened : Bool) (dict : Memory) (reads : List ReadResult) (numbers : List UInt8),
      mklowernum opened dict reads = some (.success numbers) →
      (numbers.map UInt8.toNat).Perm (List.range 36) := by
  refine ⟨fun memory size reads result h hok => getData_ok h hok, ?_⟩
  intro opened dict reads numbers h
  rw [mklowernum] at h
  split at h
  · simp at h
  · split at h
    · contradiction
    · split at h
      · simp at h
      · split at h
        · contradiction
        · simp at h
        · rename_i state hfill
          obtain ⟨hcnt, hperm⟩ := collected_perm hfill
          rw [if_neg (by omega)] at h
          cases h
          exact hperm

/-- Two reads fill a buffer of three bytes; one read of 36 distinct bytes is a success. -/
theorem mklowernum_permutation_distinct :
    (∃ blocks : List (List UInt8),
      [ReadResult.data [7], .data [8, 9]] = blocks.map ReadResult.data ++ [] ∧
      (blocks.flatten.length : Int) = 3 ∧
      slice (write (write (fun _ => 0) 0 [7]) 1 [8, 9]) 0 3 = blocks.flatten) ∧
    mklowernum true (fun _ => 0) [.data ((List.range 36).map UInt8.ofNat)] =
      some (.success ((List.range 36).map UInt8.ofNat)) ∧
    (((List.range 36).map UInt8.ofNat).map UInt8.toNat).Perm (List.range 36) := by
  have hrun : mklowernum true (fun _ => 0) [.data ((List.range 36).map UInt8.ofNat)] =
      some (.success ((List.range 36).map UInt8.ofNat)) := by
    have hread : getData (fun _ => 0) 36 [.data ((List.range 36).map UInt8.ofNat)] =
        some { ok := true, memory := write (fun _ => 0) 0 ((List.range 36).map UInt8.ofNat),
               reads := [] } := rfl
    generalize hstate : compact (write (fun _ => 0) 0 ((List.range 36).map UInt8.ofNat)) = state
    have hcnt : state.cnt = 36 := by
      rw [← hstate]
      decide +kernel
    have hnumbers : slice state.dict 0 36 = (List.range 36).map UInt8.ofNat := by
      rw [← hstate]
      decide +kernel
    have hfill : fillUp state [] = some (some state) := by
      rw [fillUp, if_neg (by omega)]
    have hdeduce : deduce state = state := by
      rw [deduce, if_neg (by omega)]
    rw [mklowernum, if_neg (by decide), hread]
    simp only [hstate, hfill, hdeduce, hcnt, hnumbers]
    rfl
  exact ⟨mklowernum_permutation.1 (fun _ => 0) 3 [.data [7], .data [8, 9]] _ rfl rfl, hrun,
    mklowernum_permutation.2 true (fun _ => 0) _ _ hrun⟩

end CodingLearners.RandomNumbers
