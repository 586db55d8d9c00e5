import CodingLearners.TcpServer.ListOperations

/-!
# The list of `List.c` as a sequence

Any mixture of calls whose positions lie in the list computes what append,
insert, remove, read and write compute on a sequence counted from one. For
positions outside the list the functions have different tests, and not every
position is refused. `SL_Find` depends on what the memory of the head node held.
-/

namespace CodingLearners.TcpServer.ListHeap

open CellChain

variable {H : Type*}

/-- A call of one of the functions; `q` is what its `malloc` returns. -/
inductive Call (H : Type*)
  | add (handle : H) (q : Option Nat)
  | insert (pos : Int) (handle : H) (q : Option Nat)
  | delete (pos : Int) (pHandle : Option (Option H))
  | gethandle (pos : Int) (pHandle : Option H)
  | sethandle (pos : Int) (handle : H)

/-- A return code and what `p_handle` points to afterwards, if it is given. -/
structure Return (H : Type*) where
  rc : Int
  pHandle : Option (Option H)
  deriving DecidableEq

/-- What `p_handle` points to before the call. -/
def Call.pHandle : Call H → Option (Option H)
  | .delete _ pHandle => pHandle
  | .gethandle _ pHandle => some pHandle
  | _ => none

/-- The call in memory. -/
def Call.exec (fuel : Nat) (list : Option Nat) (mem : Heap H) :
    Call H → Except Trap (Return H × Heap H)
  | .add handle q => (slAdd fuel mem list handle q).map fun r => (⟨r.1, none⟩, r.2)
  | .insert pos handle q => (slInsert mem list pos handle q).map fun r => (⟨r.1, none⟩, r.2)
  | .delete pos pHandle => (slDelete mem list pos pHandle).map fun r => (⟨r.1, r.2.2⟩, r.2.1)
  | .gethandle pos pHandle =>
      (slGethandle mem list pos pHandle).map fun r => (⟨r.1, some r.2⟩, mem)
  | .sethandle pos handle => (slSethandle mem list pos handle).map fun r => (⟨r.1, none⟩, r.2)

/-- The calls one after the other. -/
def execAll (fuel : Nat) (list : Option Nat) :
    Heap H → List (Call H) → Except Trap (List (Return H) × Heap H)
  | mem, [] => .ok ([], mem)
  | mem, call :: rest =>
      match call.exec fuel list mem with
      | .error e => .error e
      | .ok (ret, mem') =>
          match execAll fuel list mem' rest with
          | .error e => .error e
          | .ok (rets, mem'') => .ok (ret :: rets, mem'')

/-! ## The sequence -/

/-- What the call stands for on a sequence: append, insert, remove, read, write. -/
def Call.apply (s : List H) : Call H → Return H × List H
  | .add handle _ => (⟨0, none⟩, s ++ [handle])
  | .insert pos handle _ => (⟨0, none⟩, s.insertIdx (pos - 1).toNat handle)
  | .delete pos pHandle =>
      (⟨0, pHandle.map fun _ => s[(pos - 1).toNat]?⟩, s.eraseIdx (pos - 1).toNat)
  | .gethandle pos _ => (⟨0, some s[(pos - 1).toNat]?⟩, s)
  | .sethandle pos handle => (⟨0, none⟩, s.set (pos - 1).toNat handle)

def applyAll : List H → List (Call H) → List (Return H) × List H
  | s, [] => ([], s)
  | s, call :: rest =>
      let later := applyAll (call.apply s).2 rest
      ((call.apply s).1 :: later.1, later.2)

/-- The position is one of the `n` elements, or one of the `n + 1` gaps to insert at. -/
def Call.InRange (n : Nat) : Call H → Prop
  | .add _ _ => True
  | .insert pos _ _ => 1 ≤ pos ∧ pos ≤ n + 1
  | .delete pos _ => 1 ≤ pos ∧ pos ≤ n
  | .gethandle pos _ => 1 ≤ pos ∧ pos ≤ n
  | .sethandle pos _ => 1 ≤ pos ∧ pos ≤ n

/-- An allocation of the call succeeds and yields a free address. -/
def Call.Allocates (mem : Heap H) : Call H → Prop
  | .add _ q => ∃ p, q = some p ∧ mem p = none
  | .insert _ _ q => ∃ p, q = some p ∧ mem p = none
  | _ => True

/-- Every call has a position in range of the sequence as it stands then, and
its allocation succeeds. -/
def Admissible (fuel : Nat) (list : Option Nat) : Heap H → List H → List (Call H) → Prop
  | _, _, [] => True
  | mem, s, call :: rest =>
      call.InRange s.length ∧ call.Allocates mem ∧
        match call.exec fuel list mem with
        | .error _ => True
        | .ok (_, mem') => Admissible fuel list mem' (call.apply s).2 rest

instance Call.decidableInRange (n : Nat) (call : Call H) : Decidable (call.InRange n) := by
  cases call <;> unfold Call.InRange <;> infer_instance

instance Call.decidableAllocates (mem : Heap H) : (call : Call H) → Decidable (call.Allocates mem)
  | .add _ none => isFalse (by simp [Call.Allocates])
  | .add _ (some p) => decidable_of_iff (mem p).isNone (by simp [Call.Allocates])
  | .insert _ _ none => isFalse (by simp [Call.Allocates])
  | .insert _ _ (some p) => decidable_of_iff (mem p).isNone (by simp [Call.Allocates])
  | .delete _ _ => isTrue trivial
  | .gethandle _ _ => isTrue trivial
  | .sethandle _ _ => isTrue trivial

instance Admissible.decidable (fuel : Nat) (list : Option Nat) :
    ∀ (mem : Heap H) (s : List H) calls, Decidable (Admissible fuel list mem s calls)
  | _, _, [] => isTrue trivial
  | mem, s, call :: rest =>
      match hexec : call.exec fuel list mem with
      | .error e => decidable_of_iff (call.InRange s.length ∧ call.Allocates mem)
          (by simp [Admissible, hexec])
      | .ok (ret, mem') =>
          have := Admissible.decidable fuel list mem' (call.apply s).2 rest
          decidable_of_iff (call.InRange s.length ∧ call.Allocates mem ∧
            Admissible fuel list mem' (call.apply s).2 rest) (by simp [Admissible, hexec])

variable {mem : Heap H} {list : Option Nat} {l : SList H} {fuel : Nat}

/-- One call in range does on the heap what it stands for. -/
theorem Call.exec_refines (h : Holds mem list l) (hfuel : l.nodes.length < fuel) (call : Call H)
    (hrange : call.InRange l.nodes.length) (halloc : call.Allocates mem) :
    ∃ mem', call.exec fuel list mem = .ok ((call.apply l.nodes).1, mem') ∧
      Holds mem' list { l with nodes := (call.apply l.nodes).2 } := by
  cases call with
  | add handle q =>
      obtain ⟨p, rfl, hfree⟩ := halloc
      obtain ⟨mem', hmem', hholds⟩ := slAdd_spec h handle hfuel hfree
      exact ⟨mem', by simp [Call.exec, hmem', Except.map, Call.apply], hholds⟩
  | insert pos handle q =>
      obtain ⟨p, rfl, hfree⟩ := halloc
      obtain ⟨mem', hmem', hholds⟩ := slInsert_inside h handle hrange.1 hrange.2 hfree
      exact ⟨mem', by simp [Call.exec, hmem', Except.map, Call.apply], hholds⟩
  | delete pos pHandle =>
      obtain ⟨mem', hmem', hholds⟩ := slDelete_inside h hrange.1 hrange.2 pHandle
      exact ⟨mem', by simp only [Call.exec, hmem', Except.map, Call.apply], hholds⟩
  | gethandle pos pHandle =>
      obtain ⟨h1, h2⟩ := hrange
      have hread : (fields l)[pos.toNat]?.join = l.nodes[(pos - 1).toNat]? := by
        have hk : pos.toNat = (pos - 1).toNat + 1 := by omega
        rw [hk]
        simp only [fields, List.getElem?_cons_succ, List.getElem?_map]
        cases l.nodes[(pos - 1).toNat]? <;> rfl
      have hget := slGethandle_inside h (Int.le_trans Int.one_nonneg h1) h2 pHandle
      exact ⟨mem, by simp only [Call.exec, hget, Except.map, Call.apply, hread], h⟩
  | sethandle pos handle =>
      obtain ⟨mem', hmem', hholds⟩ := slSethandle_inside h handle hrange.1 hrange.2
      exact ⟨mem', by simp only [Call.exec, hmem', Except.map, Call.apply], hholds⟩

/-- A call makes a sequence longer by one element at most. -/
theorem Call.apply_length (s : List H) (call : Call H) :
    (call.apply s).2.length ≤ s.length + 1 := by
  cases call with
  | add handle q => simp [Call.apply]
  | insert pos handle q => exact List.length_insertIdx_le_succ
  | delete pos pHandle => exact Nat.le_succ_of_le (List.length_eraseIdx_le _ _)
  | gethandle pos pHandle => exact Nat.le_succ _
  | sethandle pos handle => simp [Call.apply]

/-- All the calls together do on the heap what they stand for. -/
theorem execAll_refines (h : Holds mem list l) (calls : List (Call H))
    (hfuel : l.nodes.length + calls.length < fuel)
    (hadmissible : Admissible fuel list mem l.nodes calls) :
    ∃ mem', execAll fuel list mem calls = .ok ((applyAll l.nodes calls).1, mem') ∧
      Holds mem' list { l with nodes := (applyAll l.nodes calls).2 } := by
  induction calls generalizing mem l with
  | nil => exact ⟨mem, rfl, h⟩
  | cons call rest ih =>
      obtain ⟨hrange, halloc, hrest⟩ := hadmissible
      rw [List.length_cons] at hfuel
      have hlt : l.nodes.length < fuel := by omega
      obtain ⟨mem', hexec, hholds⟩ := call.exec_refines h hlt hrange halloc
      rw [hexec] at hrest
      have hlength := call.apply_length l.nodes
      obtain ⟨mem'', hexecs, hholds'⟩ := ih hholds (by simp only; omega) hrest
      exact ⟨mem'', by simp [execAll, hexec, hexecs, applyAll], hholds'⟩

theorem applyAll_length (s : List H) (calls : List (Call H)) :
    (applyAll s calls).2.length ≤ s.length + calls.length := by
  induction calls generalizing s with
  | nil => simp [applyAll]
  | cons call rest ih =>
      have hcall := call.apply_length s
      have hrest := ih (call.apply s).2
      simp only [applyAll, List.length_cons]
      omega

/-- A list made by `SL_Creat` is a sequence: after any calls in range, all of
them have returned `0` with the handles of the sequence, `SL_Size` counts its
elements and the head, and `SL_Empty` tells whether it has none. -/
theorem list_refines_sequence {alloc : Nat → Option Nat} {size : Int} {mem₀ : Heap H}
    (halloc : Allocates alloc size.toNat mem₀) (unset : Option H) (null : H) {fuel : Nat}
    {rc : Int} {list : Option Nat} {mem : Heap H}
    (hcreat : slCreat alloc unset null size mem₀ = .ok (rc, list, mem)) (calls : List (Call H))
    (hadmissible : Admissible fuel list mem (List.replicate size.toNat null) calls)
    (hfuel : size.toNat + calls.length < fuel) :
    rc = 0 ∧ ∃ mem',
      execAll fuel list mem calls =
        .ok ((applyAll (List.replicate size.toNat null) calls).1, mem') ∧
      Holds mem' list ⟨unset, (applyAll (List.replicate size.toNat null) calls).2⟩ ∧
      slSize fuel mem' list =
        .ok ((applyAll (List.replicate size.toNat null) calls).2.length + 1) ∧
      slEmpty mem' list =
        .ok (if (applyAll (List.replicate size.toNat null) calls).2 = [] then 0 else 1) := by
  obtain ⟨list', mem', hmade, hholds⟩ := slCreat_spec halloc unset null
  rw [hcreat] at hmade
  obtain ⟨rfl, rfl, rfl⟩ : rc = 0 ∧ list = some list' ∧ mem = mem' := by simpa using hmade
  obtain ⟨mem'', hexec, hheld⟩ := execAll_refines hholds calls (by simpa using hfuel) hadmissible
  have hlength := applyAll_length (List.replicate size.toNat null) calls
  rw [List.length_replicate] at hlength
  refine ⟨rfl, mem'', hexec, hheld, ?_, ?_⟩
  · exact slSize_spec hheld (by simp only; omega)
  · exact slEmpty_spec hheld

/-- A list of two null handles, to which a third is appended and a fourth put
in front; the third is deleted, and the others are read and written. -/
theorem list_refines_sequence_mixed :
    ∃ mem mem' : Heap Nat,
      slCreat (fun i => some (10 + i)) none 0 2 (fun _ => none) = .ok (0, some 10, mem) ∧
      execAll 9 (some 10) mem
          [.add 5 (some 1), .insert 1 6 (some 2), .delete 3 (some none), .gethandle 1 none,
            .sethandle 3 8] =
        .ok ([⟨0, none⟩, ⟨0, none⟩, ⟨0, some (some 0)⟩, ⟨0, some (some 6)⟩, ⟨0, none⟩], mem') ∧
      Holds mem' (some 10) ⟨none, [6, 0, 8]⟩ ∧ slSize 9 mem' (some 10) = .ok 4 ∧
      slEmpty mem' (some 10) = .ok 1 := by
  have halloc : Allocates (fun i => some (10 + i)) (2 : Int).toNat (fun _ => none : Heap Nat) := by
    intro i _
    exact ⟨10 + i, rfl, rfl, fun j hj => by simp; omega⟩
  have hfuel : (2 : Int).toNat + 5 < 9 := by decide
  obtain ⟨_, mem', hexec, hholds, hsize, hempty⟩ :=
    list_refines_sequence halloc none 0 rfl
      [.add 5 (some 1), .insert 1 6 (some 2), .delete 3 (some none), .gethandle 1 none,
        .sethandle 3 8] (by decide) hfuel
  exact ⟨_, mem', rfl, hexec, hholds, hsize, hempty⟩

/-! ## Positions outside the list -/

/-- The position is not one of the `n` elements, or of the `n + 1` gaps. -/
def Call.Outside (n : Nat) : Call H → Prop
  | .add _ _ => False
  | .insert pos _ _ => pos < 1 ∨ n + 1 < pos
  | .delete pos _ => pos < 1 ∨ n < pos
  | .gethandle pos _ => pos < 1 ∨ n < pos
  | .sethandle pos _ => pos < 1 ∨ n < pos

/-- The positions outside the list for which each function has a test. -/
def Call.Tested (n : Nat) : Call H → Prop
  | .add _ _ => True
  | .insert pos _ _ => intMin < pos
  | .delete pos _ => intMin < pos ∧ pos ≤ n + 1
  | .gethandle pos _ => pos ≠ 0
  | .sethandle pos _ => pos ≠ 0

/-- Where the function tests for it, such a position is refused. -/
theorem Call.exec_refused (h : Holds mem list l) {call : Call H}
    (hout : call.Outside l.nodes.length) (htested : call.Tested l.nodes.length) :
    call.exec fuel list mem = .ok (⟨-1, call.pHandle⟩, mem) := by
  cases call with
  | add handle q => exact hout.elim
  | insert pos handle q =>
      simp [Call.exec, slInsert_outside h handle htested hout, Except.map, Call.pHandle]
  | delete pos pHandle =>
      obtain ⟨hmin, hle⟩ := htested
      have hrefuse : pos < 1 ∨ pos = l.nodes.length + 1 := by
        rcases hout with hout | hout <;> omega
      simp [Call.exec, slDelete_refuses h hmin hrefuse, Except.map, Call.pHandle]
  | gethandle pos pHandle =>
      have hout' : pos < 0 ∨ l.nodes.length < pos := by
        rcases hout with hout | hout
        · exact Or.inl (by simp only [Call.Tested] at htested; omega)
        · exact Or.inr hout
      simp [Call.exec, slGethandle_outside h hout', Except.map, Call.pHandle]
  | sethandle pos handle =>
      have hout' : pos < 0 ∨ l.nodes.length < pos := by
        rcases hout with hout | hout
        · exact Or.inl (by simp only [Call.Tested] at htested; omega)
        · exact Or.inr hout
      simp [Call.exec, slSethandle_outside h handle hout', Except.map, Call.pHandle]

/-- Where it does not, the call has no defined result or succeeds on the head. -/
theorem Call.exec_untested (fuel : Nat) (h : Holds mem list l) {call : Call H}
    (hout : call.Outside l.nodes.length) (htested : ¬ call.Tested l.nodes.length) :
    (∃ trap, call.exec fuel list mem = .error trap) ∨
      ∃ pHandle mem' l', call.exec fuel list mem = .ok (⟨0, pHandle⟩, mem') ∧
        Holds mem' list l' := by
  cases call with
  | add handle q => exact hout.elim
  | insert pos handle q =>
      have hpred : predPos pos = .error .overflow := if_pos (Int.not_lt.mp htested)
      exact Or.inl ⟨.overflow, by simp [Call.exec, slInsert, hpred, Except.map]⟩
  | delete pos pHandle =>
      by_cases hmin : intMin < pos
      · have hbeyond : l.nodes.length + 1 < pos := by
          by_contra hle
          exact htested ⟨hmin, Int.not_lt.mp hle⟩
        exact Or.inl ⟨.nullDeref, by simp [Call.exec, slDelete_beyond h hbeyond, Except.map]⟩
      · have hpred : predPos pos = .error .overflow := if_pos (Int.not_lt.mp hmin)
        exact Or.inl ⟨.overflow, by simp [Call.exec, slDelete, hpred, Except.map]⟩
  | gethandle pos pHandle =>
      obtain rfl : pos = 0 := not_not.mp htested
      have hread := slGethandle_inside h (Int.le_refl 0) (by omega) pHandle
      exact Or.inr ⟨some (fields l)[(0 : Int).toNat]?.join, mem, l,
        by simp only [Call.exec, hread, Except.map], h⟩
  | sethandle pos handle =>
      obtain rfl : pos = 0 := not_not.mp htested
      obtain ⟨mem', hmem', hholds⟩ := slSethandle_head h handle
      exact Or.inr ⟨none, mem', _, by simp only [Call.exec, hmem', Except.map], hholds⟩

/-- A call with a position outside the list returns `-1` and leaves the list
and the output variable alone exactly where the function tests for it. -/
theorem outside_refused_iff (h : Holds mem list l) (call : Call H)
    (hout : call.Outside l.nodes.length) :
    call.exec fuel list mem = .ok (⟨-1, call.pHandle⟩, mem) ↔ call.Tested l.nodes.length := by
  constructor
  · intro hexec
    by_contra htested
    rcases Call.exec_untested fuel h hout htested with
      ⟨trap, htrap⟩ | ⟨_, _, _, hok, _⟩
    · simp [hexec] at htrap
    · simp [hexec] at hok
  · exact Call.exec_refused h hout

/-- A heap with the one-element list `7` at address `1`. -/
def oneElement : Heap Nat := fun a =>
  if a = 1 then some ⟨none, some 2⟩ else if a = 2 then some ⟨some 7, none⟩ else none

theorem oneElement_holds : Holds oneElement (some 1) ⟨none, [7]⟩ :=
  ⟨[(1, none), (2, some 7)],
    ⟨⟨rfl, some 2, rfl, rfl, none, rfl, rfl⟩, by simp [addresses]⟩, rfl⟩

/-- Its second element cannot be deleted. -/
theorem outside_refused_second :
    (Call.delete 2 (some none)).exec 0 (some 1) oneElement = .ok (⟨-1, some none⟩, oneElement) :=
  (outside_refused_iff oneElement_holds (.delete 2 (some none)) (Or.inr (by decide))).mpr
    ⟨by decide, by decide⟩

/-- Deleting its third reads through a null pointer, and reading at position
`0` reports success and hands out the handle that was never set. -/
theorem outside_not_refused :
    (Call.delete 3 (some none) : Call Nat).Outside 1 ∧
    (Call.delete 3 (some none)).exec 0 (some 1) oneElement = .error .nullDeref ∧
    (Call.gethandle 0 (some 4) : Call Nat).Outside 1 ∧
    (Call.gethandle 0 (some 4)).exec 0 (some 1) oneElement =
      .ok (⟨0, some none⟩, oneElement) ∧
    ¬ ∀ call : Call Nat, call.Outside 1 →
      call.exec 0 (some 1) oneElement = .ok (⟨-1, call.pHandle⟩, oneElement) := by
  have hdelete : (Call.delete 3 (some none)).exec 0 (some 1) oneElement = .error .nullDeref := rfl
  refine ⟨Or.inr (by decide), hdelete, Or.inl (by decide), rfl, fun h => ?_⟩
  have hrefused := h (.delete 3 (some none)) (Or.inr (by decide))
  simp [hdelete] at hrefused

/-! ## Finding an element -/

/-- An allocation of the call fails or yields a free address. -/
def Call.Fresh (mem : Heap H) : Call H → Prop
  | .add _ q => ∀ p, q = some p → mem p = none
  | .insert _ _ q => ∀ p, q = some p → mem p = none
  | _ => True

/-- A list that `SL_Creat` has made, whatever the memory of its head held, after
any calls that returned. -/
inductive Built (list : Option Nat) : Heap H → Prop
  | creat {alloc : Nat → Option Nat} {unset : Option H} {null : H} {size : Int} {mem₀ mem : Heap H}
      (halloc : Allocates alloc size.toNat mem₀)
      (hmade : slCreat alloc unset null size mem₀ = .ok (0, list, mem)) : Built list mem
  | call {call : Call H} {fuel : Nat} {ret : Return H} {mem mem' : Heap H}
      (hbuilt : Built list mem) (hfresh : call.Fresh mem)
      (hexec : call.exec fuel list mem = .ok (ret, mem')) : Built list mem'

/-- Without memory nothing is added. -/
theorem Call.exec_unallocated {call : Call H}
    (hcall : (∃ handle, call = .add handle none) ∨ ∃ pos handle, call = .insert pos handle none)
    {ret : Return H} {mem' : Heap H} (hexec : call.exec fuel list mem = .ok (ret, mem')) :
    mem' = mem := by
  rcases hcall with ⟨handle, rfl⟩ | ⟨pos, handle, rfl⟩
  · simp only [Call.exec, slAdd] at hexec
    split_ifs at hexec with hlist
    · simp_all [Except.map]
    · cases hwalk : walkToLast mem fuel list <;> simp_all [Except.map]
  · simp only [Call.exec, slInsert] at hexec
    cases hpred : predPos pos with
    | error e => simp [hpred, Except.map] at hexec
    | ok bound =>
        simp only [hpred] at hexec
        cases hwalk : walk mem bound list with
        | error e => simp [hwalk, Except.map] at hexec
        | ok r =>
            simp only [hwalk] at hexec
            split_ifs at hexec <;> simp_all [Except.map]

/-- A call that returns had enough fuel, or needed none. -/
theorem Call.exec_fueled (h : Holds mem list l) {call : Call H} {ret : Return H} {mem' : Heap H}
    (hexec : call.exec fuel list mem = .ok (ret, mem')) :
    ∃ fuel', l.nodes.length < fuel' ∧ call.exec fuel' list mem = .ok (ret, mem') := by
  cases call with
  | add handle q =>
      refine ⟨fuel, ?_, hexec⟩
      by_contra hshort
      rw [Call.exec, slAdd_short h handle (Nat.le_of_not_lt hshort)] at hexec
      simp [Except.map] at hexec
  | insert pos handle q => exact ⟨_, Nat.lt_succ_self _, hexec⟩
  | delete pos pHandle => exact ⟨_, Nat.lt_succ_self _, hexec⟩
  | gethandle pos pHandle => exact ⟨_, Nat.lt_succ_self _, hexec⟩
  | sethandle pos handle => exact ⟨_, Nat.lt_succ_self _, hexec⟩

/-- A call in range that returns leaves a list. -/
theorem Call.exec_holds_inRange (h : Holds mem list l) {call : Call H} (hfresh : call.Fresh mem)
    (hrange : call.InRange l.nodes.length) {ret : Return H} {mem' : Heap H}
    (hexec : call.exec fuel list mem = .ok (ret, mem')) : ∃ l', Holds mem' list l' := by
  by_cases halloc : call.Allocates mem
  · obtain ⟨fuel', hfuel, hexec'⟩ := Call.exec_fueled h hexec
    obtain ⟨mem'', hmem'', hholds⟩ := call.exec_refines h hfuel hrange halloc
    rw [hexec'] at hmem''
    obtain ⟨-, rfl⟩ : ret = _ ∧ mem' = mem'' := by simpa using hmem''
    exact ⟨_, hholds⟩
  · have hsame : mem' = mem := by
      refine Call.exec_unallocated ?_ hexec
      cases call with
      | add handle q => cases q <;> simp_all [Call.Allocates, Call.Fresh]
      | insert pos handle q => cases q <;> simp_all [Call.Allocates, Call.Fresh]
      | delete pos pHandle => exact absurd trivial halloc
      | gethandle pos pHandle => exact absurd trivial halloc
      | sethandle pos handle => exact absurd trivial halloc
    exact ⟨l, hsame ▸ h⟩

/-- A call that returns leaves a list, at whatever position it was made. -/
theorem Call.exec_holds (h : Holds mem list l) {call : Call H} (hfresh : call.Fresh mem)
    {ret : Return H} {mem' : Heap H} (hexec : call.exec fuel list mem = .ok (ret, mem')) :
    ∃ l', Holds mem' list l' := by
  by_cases hrange : call.InRange l.nodes.length
  · exact Call.exec_holds_inRange h hfresh hrange hexec
  have hout : call.Outside l.nodes.length := by
    cases call <;> simp only [Call.InRange, Call.Outside, not_true_eq_false] at hrange ⊢ <;> omega
  by_cases htested : call.Tested l.nodes.length
  · rw [Call.exec_refused h hout htested] at hexec
    obtain ⟨-, rfl⟩ : _ = ret ∧ mem = mem' := by simpa using hexec
    exact ⟨l, h⟩
  · rcases Call.exec_untested fuel h hout htested with
      ⟨trap, htrap⟩ | ⟨_, mem'', l', hok, hholds⟩
    · simp [hexec] at htrap
    · rw [hexec] at hok
      obtain ⟨-, rfl⟩ : ret = _ ∧ mem' = mem'' := by simpa using hok
      exact ⟨l', hholds⟩

/-- What is built is always a list. -/
theorem Built.holds {mem : Heap H} (hbuilt : Built list mem) : ∃ l, Holds mem list l := by
  induction hbuilt with
  | creat halloc hmade =>
      obtain ⟨list', mem', hmade', hholds⟩ := slCreat_spec halloc _ _
      rw [hmade] at hmade'
      obtain ⟨rfl, rfl⟩ : list = some list' ∧ _ = mem' := by simpa using hmade'
      exact ⟨_, hholds⟩
  | call _ hfresh hexec ih =>
      obtain ⟨l, hl⟩ := ih
      exact Call.exec_holds hl hfresh hexec

/-- What a search for `handle` is to return, and to leave in `*pos`. -/
def found [DecidableEq H] (s : List H) (handle : H) (pos : Int) : Int × Int :=
  match s.idxOf? handle with
  | some k => (0, k + 1)
  | none => (-1, pos)

/-- `SL_Find` finds the first element that equals `handle`, and reports that
there is none, exactly where either the head or an element matches, not both
and not neither. -/
theorem slFind_found_iff [DecidableEq H] (h : Holds mem list l) (handle : H) (pos : Int)
    (hfuel : l.nodes.length < fuel) :
    slFind fuel mem list handle pos = .ok (found l.nodes handle pos) ↔
      (l.head = some handle ↔ handle ∉ l.nodes) := by
  rw [slFind_spec h handle hfuel, found]
  cases hidx : l.nodes.idxOf? handle with
  | none =>
      have habsent : handle ∉ l.nodes := List.idxOf?_eq_none_iff.mp hidx
      by_cases hhead : l.head = some handle <;> simp [hhead, habsent]
  | some k =>
      have hmem : handle ∈ l.nodes := by
        rw [← List.isSome_idxOf?, hidx]
        rfl
      by_cases hhead : l.head = some handle <;> simp [hhead, hmem]

/-- In the list `7`, whose head was never set, the element is found. -/
theorem slFind_found_first : slFind 2 oneElement (some 1) 7 0 = .ok (found [7] 7 0) :=
  (slFind_found_iff oneElement_holds 7 0 (by decide)).mpr (by decide)

/-- A new list of one null handle, whose head holds what its memory held. -/
theorem exists_built (unset : Option Nat) :
    ∃ list mem, Built list mem ∧ Holds mem list ⟨unset, [0]⟩ := by
  have halloc : Allocates (fun i => some (10 + i)) (1 : Int).toNat (fun _ => none : Heap Nat) := by
    intro i _
    exact ⟨10 + i, rfl, rfl, fun j hj => by simp; omega⟩
  obtain ⟨list, mem, hmade, hholds⟩ := slCreat_spec halloc unset 0
  exact ⟨some list, mem, Built.creat halloc hmade, hholds⟩

/-- The search for an absent handle reads through the null link of the last
node, and an element is not found where the unset head holds the same. -/
theorem slFind_not_found :
    (∃ list mem, Built list mem ∧ Holds mem list ⟨some 3, [0]⟩ ∧
      slFind 2 mem list 8 5 = .error .nullDeref ∧ found [0] 8 5 = (-1, 5)) ∧
    ∃ list mem, Built list mem ∧ Holds mem list ⟨some 0, [0]⟩ ∧
      slFind 2 mem list 0 5 = .ok (-1, 5) ∧ found [0] 0 5 = (0, 1) := by
  constructor
  · obtain ⟨list, mem, hbuilt, hholds⟩ := exists_built (some 3)
    exact ⟨list, mem, hbuilt, hholds, slFind_spec hholds 8 (by decide), by decide⟩
  · obtain ⟨list, mem, hbuilt, hholds⟩ := exists_built (some 0)
    exact ⟨list, mem, hbuilt, hholds, slFind_spec hholds 0 (by decide), by decide⟩

end CodingLearners.TcpServer.ListHeap
