import CodingLearners.TcpServer.ListHeap
import Mathlib.Data.List.InsertIdx

/-!
# What the functions of `List.c` do to a list

For each function and each kind of position: its return code and the list that
the heap holds afterwards. The recursions over successors in `LinkedList` are
what the loads and stores compute.
-/

namespace CodingLearners.TcpServer.ListHeap

open CellChain

variable {H : Type*} {mem : Heap H} {list : Option Nat} {l : SList H} {pos : Int}

theorem fields_insertIdx (l : SList H) (k : Nat) (handle : H) :
    fields { l with nodes := l.nodes.insertIdx k handle } =
      (fields l).insertIdx (k + 1) (some handle) := by
  simp [fields, List.map_insertIdx]

theorem fields_eraseIdx (l : SList H) (k : Nat) :
    fields { l with nodes := l.nodes.eraseIdx k } = (fields l).eraseIdx (k + 1) := by
  simp [fields, List.eraseIdx_map]

theorem fields_set (l : SList H) (k : Nat) (handle : H) :
    fields { l with nodes := l.nodes.set k handle } = (fields l).set (k + 1) (some handle) := by
  simp [fields, List.map_set]

private theorem insertIdx_behind {α : Type*} (xs : List α) (v w : α) (ys : List α) :
    (xs ++ v :: ys).insertIdx (xs.length + 1) w = xs ++ v :: w :: ys := by
  induction xs with
  | nil => rfl
  | cons x xs ih => simpa using ih

private theorem eraseIdx_behind {α : Type*} (xs : List α) (v w : α) (ys : List α) :
    (xs ++ v :: w :: ys).eraseIdx (xs.length + 1) = xs ++ v :: ys := by
  induction xs with
  | nil => rfl
  | cons x xs ih => simpa using ih

theorem nodes_of_fields {k : Nat} {w : Option H} (h : (fields l)[k + 1]? = some w) :
    l.nodes[k]? = w := by
  simp only [fields, List.getElem?_cons_succ, List.getElem?_map, Option.map_eq_some_iff] at h
  obtain ⟨handle, hk, rfl⟩ := h
  exact hk

/-- Linking a new node behind the `k`-th. -/
theorem NodeAt.link {k : Nat} (c : NodeAt mem list l k) {q : Nat} (hfree : mem q = none)
    (handle : H) : Holds (linkAfter mem c.address ⟨c.value, c.next⟩ q handle) list
      { l with nodes := l.nodes.insertIdx k handle } := by
  refine ⟨_, c.chain.link c.node hfree (some handle), ?_⟩
  have hinsert := insertIdx_behind (c.before.map Prod.snd) c.value (some handle)
    (c.after.map Prod.snd)
  rw [List.length_map, c.length_eq] at hinsert
  rw [fields_insertIdx, ← c.fields_eq]
  simp [hinsert]

/-- Nothing follows the last node. -/
theorem NodeAt.after_last {k : Nat} (c : NodeAt mem list l k) (hk : k = l.nodes.length) :
    c.after = [] ∧ c.next = none := by
  have hcount := congrArg List.length c.fields_eq
  simp only [List.length_map, List.length_append, List.length_cons, fields_length,
    c.length_eq] at hcount
  have hafter : c.after = [] := List.length_eq_zero_iff.mp (by omega)
  have hrest := c.rest
  rw [hafter] at hrest
  exact ⟨hafter, hrest⟩

/-- A position at which `SL_Insert` takes an element. -/
theorem slInsert_inside (h : Holds mem list l) (handle : H) (h1 : 1 ≤ pos)
    (h2 : pos ≤ l.nodes.length + 1)
    {q : Nat} (hfree : mem q = none) :
    ∃ mem', slInsert mem list pos handle (some q) = .ok (0, mem') ∧
      Holds mem' list { l with nodes := l.nodes.insertIdx (pos - 1).toNat handle } := by
  obtain ⟨c, hwalk⟩ := walk_inside h (pos - 1) (by omega) (by omega)
  refine ⟨linkAfter mem c.address ⟨c.value, c.next⟩ q handle, ?_, c.link hfree handle⟩
  simp [slInsert, predPos_ok (show intMin < pos by simp only [intMin]; omega), hwalk,
    deref_some c.node]

/-- At other positions `SL_Insert` refuses, unless `pos - 1` overflows. -/
theorem slInsert_outside (h : Holds mem list l) (handle : H) (hmin : intMin < pos)
    (hpos : pos < 1 ∨ l.nodes.length + 1 < pos) (q : Option Nat) :
    slInsert mem list pos handle q = .ok (-1, mem) := by
  rcases hpos with hpos | hpos
  · obtain ⟨c, hwalk⟩ := walk_before h (pos - 1) (by omega)
    have hi : (0 : Int) > pos - 1 := by omega
    simp only [slInsert, predPos_ok hmin, hwalk, hi, or_true, if_true]
  · have hwalk := walk_beyond h (pos - 1) (by omega)
    simp [slInsert, predPos_ok hmin, hwalk]

/-- `SL_Gethandle` reads the field at its position; the head has position `0`. -/
theorem slGethandle_inside (h : Holds mem list l) (h0 : 0 ≤ pos) (hlen : pos ≤ l.nodes.length)
    (pHandle : Option H) :
    slGethandle mem list pos pHandle = .ok (0, (fields l)[pos.toNat]?.join) := by
  obtain ⟨c, hwalk⟩ := walk_inside h pos h0 hlen
  simp [slGethandle, hwalk, deref_some c.node, c.field]

theorem slGethandle_outside (h : Holds mem list l) (hpos : pos < 0 ∨ l.nodes.length < pos)
    (pHandle : Option H) : slGethandle mem list pos pHandle = .ok (-1, pHandle) := by
  rcases hpos with hpos | hpos
  · obtain ⟨c, hwalk⟩ := walk_before h pos hpos
    simp [slGethandle, hwalk, hpos]
  · simp [slGethandle, walk_beyond h pos hpos]

/-- `SL_Sethandle` writes an element. -/
theorem slSethandle_inside (h : Holds mem list l) (handle : H) (h1 : 1 ≤ pos)
    (hlen : pos ≤ l.nodes.length) :
    ∃ mem', slSethandle mem list pos handle = .ok (0, mem') ∧
      Holds mem' list { l with nodes := l.nodes.set (pos - 1).toNat handle } := by
  obtain ⟨c, hwalk⟩ := walk_inside h pos (by omega) hlen
  refine ⟨Function.update mem c.address (some ⟨some handle, c.next⟩), ?_,
    _, c.chain.store c.node (some handle), ?_⟩
  · simp [slSethandle, hwalk, deref_some c.node]
  · have hk : (pos - 1).toNat + 1 = (c.before.map Prod.snd).length := by
      rw [List.length_map, c.length_eq]
      omega
    rw [fields_set, ← c.fields_eq, hk]
    simp

/-- At position `0` it writes the handle of the head. -/
theorem slSethandle_head (h : Holds mem list l) (handle : H) :
    ∃ mem', slSethandle mem list 0 handle = .ok (0, mem') ∧
      Holds mem' list { l with head := some handle } := by
  obtain ⟨c, hwalk⟩ := walk_inside h 0 (Int.le_refl 0) (by omega)
  refine ⟨Function.update mem c.address (some ⟨some handle, c.next⟩), ?_,
    _, c.chain.store c.node (some handle), ?_⟩
  · simp [slSethandle, hwalk, deref_some c.node]
  · have hnil : c.before = [] := List.length_eq_zero_iff.mp c.length_eq
    have hfields := c.fields_eq
    simp only [hnil, List.nil_append, List.map_cons, fields, List.cons.injEq] at hfields ⊢
    exact ⟨trivial, hfields.2⟩

theorem slSethandle_outside (h : Holds mem list l) (handle : H)
    (hpos : pos < 0 ∨ l.nodes.length < pos) :
    slSethandle mem list pos handle = .ok (-1, mem) := by
  rcases hpos with hpos | hpos
  · obtain ⟨c, hwalk⟩ := walk_before h pos hpos
    simp [slSethandle, hwalk, hpos]
  · simp [slSethandle, walk_beyond h pos hpos]

/-- `SL_Delete` removes an element and hands out its handle. -/
theorem slDelete_inside (h : Holds mem list l) (h1 : 1 ≤ pos) (hlen : pos ≤ l.nodes.length)
    (pHandle : Option (Option H)) :
    ∃ mem', slDelete mem list pos pHandle =
        .ok (0, mem', pHandle.map fun _ => l.nodes[(pos - 1).toNat]?) ∧
      Holds mem' list { l with nodes := l.nodes.eraseIdx (pos - 1).toNat } := by
  obtain ⟨c, hwalk⟩ := walk_inside h (pos - 1) (by omega) (by omega)
  obtain ⟨⟨b, w⟩, after, hafter⟩ : ∃ cell after, c.after = cell :: after := by
    apply List.exists_cons_of_length_pos
    have hcount := congrArg List.length c.fields_eq
    simp only [List.length_map, List.length_append, List.length_cons, fields_length,
      c.length_eq] at hcount
    omega
  have hchain := c.chain
  have hrest := c.rest
  have hfields := c.fields_eq
  rw [hafter] at hchain hrest hfields
  obtain ⟨hnext, m, hb, _⟩ := hrest
  have hremoved : (fields l)[(pos - 1).toNat + 1]? = some w := by
    have hk := c.length_eq
    rw [← hfields]
    simp [← hk]
  refine ⟨Function.update (Function.update mem c.address (some ⟨c.value, m⟩)) b none, ?_,
    _, hchain.unlink hb, ?_⟩
  · have hmin : intMin < pos := by simp only [intMin]; omega
    have hnode := deref_some c.node
    simp only [slDelete, predPos_ok hmin, hwalk, hnode, hnext, deref_some hb,
      nodes_of_fields hremoved, Int.lt_irrefl, gt_iff_lt, reduceCtorEq, or_self, if_false]
  · have herase := eraseIdx_behind (c.before.map Prod.snd) c.value w (after.map Prod.snd)
    rw [List.length_map, c.length_eq] at herase
    rw [fields_eraseIdx, ← hfields]
    simp only [List.map_append, List.map_cons, herase]

/-- One past the end nothing is deleted, and before the start neither. -/
theorem slDelete_refuses (h : Holds mem list l) (hmin : intMin < pos)
    (hpos : pos < 1 ∨ pos = l.nodes.length + 1) (pHandle : Option (Option H)) :
    slDelete mem list pos pHandle = .ok (-1, mem, pHandle) := by
  rcases hpos with hpos | hpos
  · obtain ⟨c, hwalk⟩ := walk_before h (pos - 1) (by omega)
    have hi : (0 : Int) > pos - 1 := by omega
    simp only [slDelete, predPos_ok hmin, hwalk, deref_some c.node, hi, or_true, if_true]
  · obtain ⟨c, hwalk⟩ := walk_inside h (pos - 1) (by omega) (by omega)
    have hnext := (c.after_last (by omega)).2
    simp [slDelete, predPos_ok hmin, hwalk, deref_some c.node, hnext]

/-- Further out the null pointer at which the walk ends is read through. -/
theorem slDelete_beyond (h : Holds mem list l) (hpos : l.nodes.length + 1 < pos)
    (pHandle : Option (Option H)) :
    slDelete mem list pos pHandle = .error .nullDeref := by
  have hwalk := walk_beyond h (pos - 1) (by omega)
  have hmin : intMin < pos := by simp only [intMin]; omega
  simp [slDelete, predPos_ok hmin, hwalk, deref]

/-! ## The functions without a position -/

/-- The walk of `SL_Add` ends at the last node. -/
theorem walkToLast_chain {xs : List (Nat × Option H)} {a : Nat} {v : Option H} {p : Option Nat}
    (h : Segment mem p (xs ++ [(a, v)]) none) {fuel : Nat} (hfuel : xs.length < fuel) :
    walkToLast mem fuel p = .ok (a, ⟨v, none⟩) := by
  induction xs generalizing p fuel with
  | nil =>
      obtain ⟨rfl, n, hn, rfl⟩ := h
      cases fuel with
      | zero => simp at hfuel
      | succ fuel => simp [walkToLast, deref_some hn]
  | cons cell xs ih =>
      obtain ⟨rfl, n, hn, hrest⟩ := h
      cases fuel with
      | zero => simp at hfuel
      | succ fuel =>
          obtain ⟨b, hb⟩ : ∃ b, n = some b := by
            cases xs with
            | nil => exact ⟨a, hrest.1⟩
            | cons cell xs => exact ⟨cell.1, hrest.1⟩
          have hlast := ih hrest (Nat.lt_of_succ_lt_succ hfuel)
          subst hb
          simp [walkToLast, deref_some hn, hlast]

/-- With less fuel than there are nodes it does not end. -/
theorem walkToLast_short {xs : List (Nat × Option H)} {cell : Nat × Option H} {p : Option Nat}
    (h : Segment mem p (xs ++ [cell]) none) {fuel : Nat} (hfuel : fuel ≤ xs.length) :
    walkToLast mem fuel p = .error .diverges := by
  induction xs generalizing p fuel with
  | nil => simp [Nat.le_zero.mp hfuel, walkToLast]
  | cons first xs ih =>
      obtain ⟨rfl, n, hn, hrest⟩ := h
      cases fuel with
      | zero => rfl
      | succ fuel =>
          have hlast := ih hrest (Nat.le_of_succ_le_succ hfuel)
          obtain ⟨b, rfl⟩ : ∃ b, n = some b := by
            cases xs with
            | nil => exact ⟨cell.1, hrest.1⟩
            | cons second xs => exact ⟨second.1, hrest.1⟩
          simp [walkToLast, deref_some hn, hlast]

/-- `SL_Add` appends. -/
theorem slAdd_spec (h : Holds mem list l) (handle : H) {fuel : Nat} (hfuel : l.nodes.length < fuel)
    {q : Nat} (hfree : mem q = none) :
    ∃ mem', slAdd fuel mem list handle (some q) = .ok (0, mem') ∧
      Holds mem' list { l with nodes := l.nodes ++ [handle] } := by
  obtain ⟨c, hwalk⟩ := walk_inside h l.nodes.length (by omega) (Int.le_refl _)
  obtain ⟨hlast, hnext⟩ := c.after_last (Int.toNat_natCast _)
  have hsegment := c.chain.segment
  rw [hlast] at hsegment
  have hlist : list ≠ none := by
    rw [hsegment.start]
    simp [addresses]
  have hbefore : c.before.length < fuel := by
    rw [c.length_eq]
    omega
  have hend := walkToLast_chain hsegment hbefore
  refine ⟨linkAfter mem c.address ⟨c.value, c.next⟩ q handle, ?_, ?_⟩
  · simp [slAdd, hlist, hend, hnext]
  · have hlink := c.link hfree handle
    simpa using hlink

/-- If `SL_Add` returns, it had fuel for the whole chain. -/
theorem slAdd_short (h : Holds mem list l) (handle : H) {fuel : Nat}
    (hfuel : fuel ≤ l.nodes.length) (q : Option Nat) :
    slAdd fuel mem list handle q = .error .diverges := by
  obtain ⟨c, _⟩ := walk_inside h l.nodes.length (by omega) (Int.le_refl _)
  obtain ⟨hlast, _⟩ := c.after_last (Int.toNat_natCast _)
  have hsegment := c.chain.segment
  rw [hlast] at hsegment
  have hlist : list ≠ none := by
    rw [hsegment.start]
    simp [addresses]
  have hbefore : fuel ≤ c.before.length := by
    rw [c.length_eq]
    omega
  simp [slAdd, hlist, walkToLast_short hsegment hbefore]

theorem slSizeFrom_chain {cells : List (Nat × Option H)} {p : Option Nat}
    (h : Segment mem p cells none) {fuel : Nat} (hfuel : cells.length ≤ fuel) (i : Int) :
    slSizeFrom mem fuel p i = .ok (i + cells.length) := by
  induction cells generalizing p fuel i with
  | nil =>
      obtain rfl : p = none := h
      simp [slSizeFrom]
  | cons cell rest ih =>
      obtain ⟨rfl, n, hn, hrest⟩ := h
      cases fuel with
      | zero => simp at hfuel
      | succ fuel =>
          simp only [slSizeFrom, deref_some hn, ih hrest (Nat.le_of_succ_le_succ hfuel),
            List.length_cons]
          congr 1
          omega

/-- `SL_Size` counts the head node as well. -/
theorem slSize_spec (h : Holds mem list l) {fuel : Nat} (hfuel : l.nodes.length < fuel) :
    slSize fuel mem list = .ok (l.nodes.length + 1) := by
  obtain ⟨cells, hchain, hfields⟩ := h
  have hcells : cells.length = l.nodes.length + 1 := by
    rw [← fields_length, ← hfields, List.length_map]
  rw [slSize, slSizeFrom_chain hchain.segment (by omega), hcells]
  congr 1
  omega

/-- `SL_Empty` returns `0` for a list that has only its head node. -/
theorem slEmpty_spec (h : Holds mem list l) :
    slEmpty mem list = .ok (if l.nodes = [] then 0 else 1) := by
  obtain ⟨cells, hchain, hfields⟩ := h
  cases cells with
  | nil => simp [fields] at hfields
  | cons cell rest =>
      obtain ⟨rfl, n, hn, hrest⟩ := hchain.segment
      have hnodes : rest.map Prod.snd = l.nodes.map some := by
        simpa [fields] using (List.cons.inj hfields).2
      have hnil : n = none ↔ l.nodes = [] := by
        rw [hrest.start, List.head?_eq_none_iff, addresses, List.map_eq_nil_iff,
          ← List.map_eq_nil_iff (f := Prod.snd), hnodes, List.map_eq_nil_iff]
      simp only [slEmpty, deref_some hn, hnil]

/-- Behind a node that does not match, the loop of `SL_Find` stops at the first
match, or reads through the null link of the last node. -/
theorem slFindFrom_chain [DecidableEq H] {handle : H} {v : Option H} {xs : List H}
    {cells : List (Nat × Option H)} (hcells : cells.map Prod.snd = v :: xs.map some)
    (hv : v ≠ some handle) {p : Option Nat} (h : Segment mem p cells none) {fuel : Nat}
    (hfuel : xs.length < fuel) (i : Int) :
    slFindFrom mem handle pos fuel p i =
      match xs.idxOf? handle with
      | some k => .ok (0, i + k + 1)
      | none => .error .nullDeref := by
  induction xs generalizing v cells p fuel i with
  | nil =>
      obtain ⟨⟨a, v⟩, rfl, rfl⟩ := List.map_eq_singleton_iff.mp hcells
      obtain ⟨rfl, n, hn, rfl⟩ := h
      have hnode : deref mem (some a) = .ok (a, ⟨v, none⟩) := deref_some hn
      cases fuel with
      | zero => simp at hfuel
      | succ fuel =>
          simp only [slFindFrom, hnode, if_neg hv]
          rfl
  | cons x xs ih =>
      obtain ⟨⟨a, v⟩, rest, rfl, rfl, hrest⟩ := List.map_eq_cons_iff.mp hcells
      obtain ⟨⟨b, w⟩, rest, rfl, rfl, _⟩ := List.map_eq_cons_iff.mp hrest
      obtain ⟨rfl, n, hn, hsegment⟩ := h
      obtain ⟨rfl, m, hm, _⟩ := id hsegment
      cases fuel with
      | zero => simp at hfuel
      | succ fuel =>
          simp only [slFindFrom, deref_some hn, deref_some hm, hv, if_false, Option.some.injEq]
          by_cases hx : x = handle
          · simp [hx, List.idxOf?_cons]
          · have hnext :=
              ih hrest (by simpa using hx) hsegment (Nat.lt_of_succ_lt_succ hfuel) (i + 1)
            rw [if_neg hx, hnext, List.idxOf?_cons]
            cases xs.idxOf? handle with
            | none => simp [hx]
            | some k =>
                simp only [beq_iff_eq, hx, if_false, Option.map_some]
                congr 2
                omega

/-- `SL_Find` by the handle of the head and the first element that matches. -/
theorem slFind_spec [DecidableEq H] (h : Holds mem list l) (handle : H) {fuel : Nat}
    (hfuel : l.nodes.length < fuel) :
    slFind fuel mem list handle pos =
      if l.head = some handle then .ok (-1, pos)
      else
        match l.nodes.idxOf? handle with
        | some k => .ok (0, k + 1)
        | none => .error .nullDeref := by
  obtain ⟨cells, hchain, hfields⟩ := h
  by_cases hhead : l.head = some handle
  · obtain ⟨⟨a, v⟩, rest, rfl, rfl, _⟩ := List.map_eq_cons_iff.mp hfields
    obtain ⟨rfl, n, hn, _⟩ := hchain.segment
    cases fuel with
    | zero => simp at hfuel
    | succ fuel => simp_all [slFind, slFindFrom, deref_some hn]
  · rw [if_neg hhead, slFind, slFindFrom_chain hfields hhead hchain.segment hfuel]
    cases l.nodes.idxOf? handle <;> simp

/-- So many calls of `malloc` return addresses that are free, each a new one. -/
def Allocates (alloc : Nat → Option Nat) (last : Nat) (mem : Heap H) : Prop :=
  ∀ i ≤ last, ∃ p, alloc i = some p ∧ mem p = none ∧ ∀ j < i, alloc j ≠ some p

/-- The loop of `SL_Creat` puts its nodes before those that are there. -/
theorem slCreatNodes_spec {alloc : Nat → Option Nat} (null : H) (i : Nat)
    (halloc : ∀ j, 0 < j → j ≤ i →
      ∃ p, alloc j = some p ∧ mem p = none ∧ ∀ k < j, alloc k ≠ some p)
    (h : Holds mem list l) :
    ∃ mem', slCreatNodes alloc null list i mem = .ok (0, mem') ∧
      Holds mem' list { l with nodes := List.replicate i null ++ l.nodes } := by
  induction i generalizing mem l with
  | zero => exact ⟨mem, rfl, h⟩
  | succ i ih =>
      obtain ⟨p, hp, hfree, hnew⟩ := halloc (i + 1) (Nat.succ_pos i) (Nat.le_refl _)
      obtain ⟨c, hwalk⟩ := walk_inside h 0 (Int.le_refl 0) (by omega)
      have hlist : list = some c.address := by
        have hstart : walk mem 0 list = .ok (list, 0) := rfl
        simpa [hstart] using hwalk
      have hderef := deref_some c.node
      rw [← hlist] at hderef
      have hlink := c.link hfree null
      have hrest : ∀ j, 0 < j → j ≤ i → ∃ p', alloc j = some p' ∧
          linkAfter mem c.address ⟨c.value, c.next⟩ p null p' = none ∧
          ∀ k < j, alloc k ≠ some p' := by
        intro j hpos hj
        obtain ⟨p', hp', hfree', hnew'⟩ := halloc j hpos (Nat.le_succ_of_le hj)
        have hne : p' ≠ p := by
          rintro rfl
          exact hnew j (Nat.lt_succ_of_le hj) hp'
        have hhead : p' ≠ c.address := by
          rintro rfl
          simp [c.node] at hfree'
        exact ⟨p', hp', by simp [linkAfter, hne, hhead, hfree'], hnew'⟩
      obtain ⟨mem', hmem', hholds⟩ := ih hrest hlink
      refine ⟨mem', ?_, ?_⟩
      · simp [slCreatNodes, hp, hderef, hmem']
      · simpa [List.replicate_succ', List.append_assoc] using hholds

/-- A list as `SL_Creat` makes it. -/
theorem slCreat_spec {alloc : Nat → Option Nat} {size : Int}
    (halloc : Allocates alloc size.toNat mem) (unset : Option H) (null : H) :
    ∃ list mem', slCreat alloc unset null size mem = .ok (0, some list, mem') ∧
      Holds mem' (some list) ⟨unset, List.replicate size.toNat null⟩ := by
  obtain ⟨list, hlist, hfree, _⟩ := halloc 0 (Nat.zero_le _)
  have hhead : Holds (Function.update mem list (some ⟨unset, none⟩)) (some list) ⟨unset, []⟩ := by
    refine ⟨[(list, unset)], ⟨⟨rfl, none, ?_, rfl⟩, ?_⟩, rfl⟩
    · simp
    · simp [addresses]
  have hrest : ∀ j, 0 < j → j ≤ size.toNat → ∃ p, alloc j = some p ∧
      Function.update mem list (some ⟨unset, none⟩) p = none ∧ ∀ k < j, alloc k ≠ some p := by
    intro j hpos hj
    obtain ⟨p, hp, hfree', hnew⟩ := halloc j hj
    have hne : p ≠ list := by
      rintro rfl
      exact hnew 0 hpos hlist
    exact ⟨p, hp, by simp [hne, hfree'], hnew⟩
  obtain ⟨mem', hmem', hholds⟩ := slCreatNodes_spec null size.toNat hrest hhead
  refine ⟨list, mem', ?_, by simpa using hholds⟩
  simp [slCreat, hlist, hmem']

/-! ## The recursions over successors -/

theorem slGethandleAt_eq (pos i : Int) (handle : Option H) (next : List H) :
    slGethandleAt pos i handle next =
      if pos < i ∨ i + next.length < pos then none
      else some ((handle :: next.map some)[(pos - i).toNat]?.join) := by
  induction next generalizing i handle with
  | nil =>
      rcases Int.lt_trichotomy i pos with hlt | rfl | hgt
      · simp [slGethandleAt, hlt]
      · simp [slGethandleAt]
      · have h1 : ¬ i < pos := by omega
        simp [slGethandleAt, h1, hgt]
  | cons h next ih =>
      rcases Int.lt_trichotomy i pos with hlt | rfl | hgt
      · have hk : (pos - i).toNat = (pos - (i + 1)).toNat + 1 := by omega
        have hiff : (pos < i + 1 ∨ i + 1 + (next.length : Int) < pos) ↔
            (pos < i ∨ i + ((next.length + 1 : Nat) : Int) < pos) := by omega
        simp only [slGethandleAt, hlt, if_true, ih, hk, List.map_cons, List.getElem?_cons_succ,
          List.length_cons, hiff]
      · have h1 : ¬ i + ((next.length : Int) + 1) < i := by omega
        simp [slGethandleAt, h1]
      · have h1 : ¬ i < pos := by omega
        simp [slGethandleAt, h1, hgt]

/-- `SL_Gethandle` on the successors is what it computes in memory. -/
theorem slGethandle_refines (h : Holds mem list l) (pos : Int) (pHandle : Option H) :
    slGethandle mem list pos pHandle = .ok (TcpServer.slGethandle l pos pHandle) := by
  rw [TcpServer.slGethandle, slGethandleAt_eq]
  by_cases hpos : pos < 0 ∨ l.nodes.length < pos
  · rw [slGethandle_outside h hpos]
    simp [hpos]
  · rw [slGethandle_inside h (by omega) (by omega)]
    simp [hpos, fields]

theorem slDeleteAt_refuses {i : Int} {next : List H}
    (hpos : pos - 1 < i ∨ pos - 1 = i + next.length) :
    slDeleteAt pos i next = .ok (-1, next, none) := by
  induction next generalizing i with
  | nil =>
      have hstop : ¬ i < pos - 1 := by
        simp only [List.length_nil] at hpos
        omega
      simp [slDeleteAt, hstop]
  | cons h next ih =>
      simp only [List.length_cons] at hpos
      by_cases hlt : i < pos - 1
      · simp [slDeleteAt, hlt, ih (i := i + 1) (by omega)]
      · have hgt : i > pos - 1 := by omega
        simp [slDeleteAt, hlt, hgt]

theorem slDeleteAt_beyond {i : Int} {next : List H} (hpos : i + next.length < pos - 1) :
    slDeleteAt pos i next = .error .nullDeref := by
  induction next generalizing i with
  | nil =>
      have hlt : i < pos - 1 := by simpa using hpos
      simp [slDeleteAt, hlt]
  | cons h next ih =>
      simp only [List.length_cons] at hpos
      have hlt : i < pos - 1 := by omega
      simp [slDeleteAt, hlt, ih (i := i + 1) (by omega)]

/-- `SL_Delete` on the successors is what it computes in memory, the fault included. -/
theorem slDelete_refines (h : Holds mem list l) (hmin : intMin < pos) :
    match TcpServer.slDelete l pos with
    | .error _ => slDelete mem list pos none = .error .nullDeref
    | .ok (rc, l') => ∃ mem', slDelete mem list pos none = .ok (rc, mem', none) ∧
        Holds mem' list l' := by
  rcases Int.lt_or_le (l.nodes.length + 1) pos with hbeyond | hle
  · rw [TcpServer.slDelete, slDeleteAt_beyond (by omega)]
    exact slDelete_beyond h hbeyond none
  by_cases hrefuse : pos < 1 ∨ pos = l.nodes.length + 1
  · rw [TcpServer.slDelete, slDeleteAt_refuses (by omega)]
    exact ⟨mem, slDelete_refuses h hmin hrefuse none, h⟩
  · obtain ⟨mem', hmem', hholds⟩ := @slDelete_inside _ _ _ _ pos h (by omega) (by omega) none
    have hk : (pos - 1).toNat < l.nodes.length := by omega
    have hcut : l.nodes = l.nodes.take (pos - 1).toNat ++
        l.nodes[(pos - 1).toNat] :: l.nodes.drop ((pos - 1).toNat + 1) := by
      rw [List.getElem_cons_drop, List.take_append_drop]
    have hmid := slDelete_mid l.head (l.nodes.take (pos - 1).toNat) l.nodes[(pos - 1).toNat]
      (l.nodes.drop ((pos - 1).toNat + 1))
    have hpos : (((l.nodes.take (pos - 1).toNat).length : Nat) : Int) + 1 = pos := by
      rw [List.length_take]
      omega
    rw [← hcut, hpos] at hmid
    rw [hmid]
    refine ⟨mem', hmem', ?_⟩
    rwa [List.eraseIdx_eq_take_drop_succ] at hholds

/-- `SL_Add` and `SL_Size` on the successors are what they compute in memory. -/
theorem slAdd_refines (h : Holds mem list l) (handle : H) {fuel : Nat}
    (hfuel : l.nodes.length < fuel)
    {q : Nat} (hfree : mem q = none) :
    ∃ mem', slAdd fuel mem list handle (some q) = .ok ((TcpServer.slAdd l handle true).1, mem') ∧
      Holds mem' list (TcpServer.slAdd l handle true).2 := by
  simpa [TcpServer.slAdd] using slAdd_spec h handle hfuel hfree

theorem slSize_refines (h : Holds mem list l) {fuel : Nat} (hfuel : l.nodes.length < fuel) :
    slSize fuel mem list = .ok (TcpServer.slSize l) := by
  rw [slSize_spec h hfuel, slSize_eq]

end CodingLearners.TcpServer.ListHeap
