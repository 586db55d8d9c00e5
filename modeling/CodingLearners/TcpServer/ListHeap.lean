import CodingLearners.Library.CellChain
import CodingLearners.TcpServer.LinkedList

/-!
# `List.c` in memory

Here the nodes are cells of a heap, linked by their addresses, and each
function is written with the loads and stores of its C source. What `malloc`
returns is an argument; `none` is a null pointer.

## Implementation notes

A counted loop makes at most as many rounds as its counter allows. The loops
of `SL_Add`, `SL_Size` and `SL_Find` are not counted and are given `fuel`. The
counters `i` never exceed the number of nodes and are kept as unbounded integers,
so the list is taken to have fewer than `2 ^ 31` of them; `pos - 1` is checked for
overflow.
-/

namespace CodingLearners.TcpServer.ListHeap

open CellChain

variable {H : Type*}

/-- The allocated nodes; the handle of a node may never have been set. -/
abbrev Heap (H : Type*) := Memory Nat (Option H)

/-- `Node` -/
abbrev Node (H : Type*) := Cell Nat (Option H)

/-- What has no defined result, and a loop that has used up its fuel. -/
inductive Trap
  | nullDeref
  | wildDeref
  | overflow
  | diverges
  deriving DecidableEq, Repr

/-- `INT_MIN` -/
def intMin : Int := -2147483648

/-- The node that a pointer points to, with its address. -/
def deref (mem : Heap H) : Option Nat → Except Trap (Nat × Node H)
  | none => .error .nullDeref
  | some a =>
      match mem a with
      | none => .error .wildDeref
      | some node => .ok (a, node)

/-- `pos - 1` on an `int`. -/
def predPos (pos : Int) : Except Trap Int :=
  if pos ≤ intMin then .error .overflow else .ok (pos - 1)

/-- `while (p != NULL && i < bound) { p = p->next; i++; }` for so many rounds. -/
def walkFor (mem : Heap H) (bound : Int) : Nat → Option Nat → Int → Except Trap (Option Nat × Int)
  | 0, p, i => .ok (p, i)
  | _ + 1, none, i => .ok (none, i)
  | rounds + 1, some a, i =>
      if i < bound then
        match deref mem (some a) with
        | .error e => .error e
        | .ok (_, node) => walkFor mem bound rounds node.next (i + 1)
      else .ok (some a, i)

/-- The walk of the functions that take a position, from the head. -/
def walk (mem : Heap H) (bound : Int) (list : Option Nat) : Except Trap (Option Nat × Int) :=
  walkFor mem bound bound.toNat list 0

/-- `q->handle = handle; q->next = p->next; p->next = q;` -/
def linkAfter (mem : Heap H) (p : Nat) (node : Node H) (q : Nat) (handle : H) : Heap H :=
  Function.update (Function.update mem q (some ⟨some handle, node.next⟩)) p
    (some ⟨node.value, some q⟩)

/-- The loop of `SL_Creat`. -/
def slCreatNodes (alloc : Nat → Option Nat) (null : H) (list : Option Nat) :
    Nat → Heap H → Except Trap (Int × Heap H)
  | 0, mem => .ok (0, mem)
  | i + 1, mem =>
      match alloc (i + 1) with
      | none => .ok (-1, mem)
      | some p =>
          match deref mem list with
          | .error e => .error e
          | .ok (head, node) =>
              slCreatNodes alloc null list i (linkAfter mem head node p null)

/-- `SL_Creat`: return code, `*p_list`, and the heap. The head's handle keeps
what its memory held. -/
def slCreat (alloc : Nat → Option Nat) (unset : Option H) (null : H) (size : Int)
    (mem : Heap H) : Except Trap (Int × Option Nat × Heap H) :=
  match alloc 0 with
  | none => .ok (-1, none, mem)
  | some list =>
      match slCreatNodes alloc null (some list) size.toNat
        (Function.update mem list (some ⟨unset, none⟩)) with
      | .error e => .error e
      | .ok (rc, mem') => .ok (rc, some list, mem')

/-- `SL_Insert`; `q` is what `malloc` returns. -/
def slInsert (mem : Heap H) (list : Option Nat) (pos : Int) (handle : H) (q : Option Nat) :
    Except Trap (Int × Heap H) :=
  match predPos pos with
  | .error e => .error e
  | .ok bound =>
      match walk mem bound list with
      | .error e => .error e
      | .ok (p, i) =>
          if p = none ∨ i > bound then .ok (-1, mem)
          else
            match q with
            | none => .ok (-1, mem)
            | some q =>
                match deref mem p with
                | .error e => .error e
                | .ok (p, node) => .ok (0, linkAfter mem p node q handle)

/-- `while (p->next != NULL) p = p->next;` -/
def walkToLast (mem : Heap H) : Nat → Option Nat → Except Trap (Nat × Node H)
  | 0, _ => .error .diverges
  | fuel + 1, p =>
      match deref mem p with
      | .error e => .error e
      | .ok (a, node) =>
          match node.next with
          | none => .ok (a, node)
          | some b => walkToLast mem fuel (some b)

/-- `SL_Add` -/
def slAdd (fuel : Nat) (mem : Heap H) (list : Option Nat) (handle : H) (q : Option Nat) :
    Except Trap (Int × Heap H) :=
  if list = none then .ok (-1, mem)
  else
    match walkToLast mem fuel list with
    | .error e => .error e
    | .ok (p, node) =>
        match q with
        | none => .ok (-1, mem)
        | some q => .ok (0, linkAfter mem p node q handle)

/-- `SL_Gethandle`: return code and the content of `*p_handle` afterwards. -/
def slGethandle (mem : Heap H) (list : Option Nat) (pos : Int) (pHandle : Option H) :
    Except Trap (Int × Option H) :=
  match walk mem pos list with
  | .error e => .error e
  | .ok (p, i) =>
      if p = none ∨ i > pos then .ok (-1, pHandle)
      else
        match deref mem p with
        | .error e => .error e
        | .ok (_, node) => .ok (0, node.value)

/-- `SL_Delete`: return code, heap, and what `p_handle` points to unless it is null. -/
def slDelete (mem : Heap H) (list : Option Nat) (pos : Int) (pHandle : Option (Option H)) :
    Except Trap (Int × Heap H × Option (Option H)) :=
  match predPos pos with
  | .error e => .error e
  | .ok bound =>
      match walk mem bound list with
      | .error e => .error e
      | .ok (p, i) =>
          -- `p->next` is read although the walk may have ended in null
          match deref mem p with
          | .error e => .error e
          | .ok (p, node) =>
              if node.next = none ∨ i > bound then .ok (-1, mem, pHandle)
              else
                match deref mem node.next with
                | .error e => .error e
                | .ok (q, qNode) =>
                    .ok (0, Function.update
                        (Function.update mem p (some ⟨node.value, qNode.next⟩)) q none,
                      pHandle.map fun _ => qNode.value)

/-- `SL_Sethandle` -/
def slSethandle (mem : Heap H) (list : Option Nat) (pos : Int) (handle : H) :
    Except Trap (Int × Heap H) :=
  match walk mem pos list with
  | .error e => .error e
  | .ok (p, i) =>
      if p = none ∨ i > pos then .ok (-1, mem)
      else
        match deref mem p with
        | .error e => .error e
        | .ok (p, node) => .ok (0, Function.update mem p (some ⟨some handle, node.next⟩))

/-- `SL_Empty` -/
def slEmpty (mem : Heap H) (list : Option Nat) : Except Trap Int :=
  match deref mem list with
  | .error e => .error e
  | .ok (_, node) => .ok (if node.next = none then 0 else 1)

/-- The counting loop of `SL_Size`. -/
def slSizeFrom (mem : Heap H) : Nat → Option Nat → Int → Except Trap Int
  | _, none, i => .ok i
  | 0, some _, _ => .error .diverges
  | fuel + 1, some a, i =>
      match deref mem (some a) with
      | .error e => .error e
      | .ok (_, node) => slSizeFrom mem fuel node.next (i + 1)

/-- `SL_Size` -/
def slSize (fuel : Nat) (mem : Heap H) (list : Option Nat) : Except Trap Int :=
  slSizeFrom mem fuel list 0

/-- The loop of `SL_Find`: return code and the content of `*pos` afterwards. -/
def slFindFrom [DecidableEq H] (mem : Heap H) (handle : H) (pos : Int) :
    Nat → Option Nat → Int → Except Trap (Int × Int)
  | _, none, _ => .ok (-1, pos)
  | 0, some _, _ => .error .diverges
  | fuel + 1, some a, i =>
      match deref mem (some a) with
      | .error e => .error e
      | .ok (_, node) =>
          if node.value = some handle then .ok (-1, pos)
          else
            -- the next node is read before the loop has tested its pointer
            match deref mem node.next with
            | .error e => .error e
            | .ok (_, next) =>
                if next.value = some handle then .ok (0, i + 1)
                else slFindFrom mem handle pos fuel node.next (i + 1)

/-- `SL_Find`; a field that was never set equals no handle, one that memory held
something in may equal any. -/
def slFind [DecidableEq H] (fuel : Nat) (mem : Heap H) (list : Option Nat) (handle : H)
    (pos : Int) : Except Trap (Int × Int) :=
  slFindFrom mem handle pos fuel list 0

/-! ## The list that a chain holds -/

/-- The handle fields of a list, from the head on. -/
def fields (l : SList H) : List (Option H) := l.head :: l.nodes.map some

/-- At `list` the heap holds the list `l`. -/
def Holds (mem : Heap H) (list : Option Nat) (l : SList H) : Prop :=
  ∃ cells, IsChain mem list cells ∧ cells.map Prod.snd = fields l

variable {mem : Heap H} {list : Option Nat} {l : SList H}

@[simp] theorem fields_length (l : SList H) : (fields l).length = l.nodes.length + 1 := by
  simp [fields]

theorem deref_some {a : Nat} {node : Node H} (h : mem a = some node) :
    deref mem (some a) = .ok (a, node) := by
  simp [deref, h]

/-- Along a chain the walk ends behind as many nodes as its bound says, or at its end. -/
theorem walkFor_chain {cells : List (Nat × Option H)} {p : Option Nat}
    (h : Segment mem p cells none) (bound i : Int) :
    walkFor mem bound (bound - i).toNat p i =
      .ok ((addresses cells)[(bound - i).toNat]?, i + min (bound - i).toNat cells.length) := by
  induction cells generalizing p i with
  | nil =>
      obtain rfl : p = none := h
      cases (bound - i).toNat <;> simp [walkFor, addresses]
  | cons cell rest ih =>
      obtain ⟨a, v⟩ := cell
      obtain ⟨rfl, n, hn, hrest⟩ := h
      by_cases hlt : i < bound
      · have hk : (bound - i).toNat = (bound - (i + 1)).toNat + 1 := by omega
        rw [hk]
        simp only [walkFor, hlt, if_true, deref_some hn, ih hrest (i + 1), addresses_cons,
          List.getElem?_cons_succ, List.length_cons]
        congr 2
        omega
      · have hk : (bound - i).toNat = 0 := by omega
        simp [hk, walkFor]

theorem walk_chain {cells : List (Nat × Option H)} (h : Segment mem list cells none)
    (bound : Int) :
    walk mem bound list =
      .ok ((addresses cells)[bound.toNat]?, (min bound.toNat cells.length : Nat)) := by
  have hwalk := walkFor_chain h bound 0
  simpa [walk] using hwalk

/-- A chain cut at one of its nodes, together with what the heap has there. -/
structure NodeAt (mem : Heap H) (list : Option Nat) (l : SList H) (k : Nat) where
  before : List (Nat × Option H)
  address : Nat
  value : Option H
  next : Option Nat
  after : List (Nat × Option H)
  chain : IsChain mem list (before ++ (address, value) :: after)
  fields_eq : (before ++ (address, value) :: after).map Prod.snd = fields l
  length_eq : before.length = k
  node : mem address = some ⟨value, next⟩
  rest : Segment mem next after none

theorem NodeAt.field {k : Nat} (c : NodeAt mem list l k) : (fields l)[k]? = some c.value := by
  have hk := c.length_eq
  rw [← c.fields_eq]
  simp [← hk]

/-- Where the position is one of the chain, the walk ends at its node. -/
theorem walk_inside (h : Holds mem list l) (bound : Int) (h0 : 0 ≤ bound)
    (hlen : bound ≤ l.nodes.length) :
    ∃ c : NodeAt mem list l bound.toNat, walk mem bound list = .ok (some c.address, bound) := by
  obtain ⟨cells, hchain, hfields⟩ := h
  have hcells : cells.length = l.nodes.length + 1 := by
    rw [← fields_length, ← hfields, List.length_map]
  have hk : bound.toNat < cells.length := by omega
  have hcut : cells = cells.take bound.toNat ++
      (cells[bound.toNat].1, cells[bound.toNat].2) :: cells.drop (bound.toNat + 1) := by
    change cells = cells.take bound.toNat ++ cells[bound.toNat] :: cells.drop (bound.toNat + 1)
    rw [List.getElem_cons_drop, List.take_append_drop]
  obtain ⟨_, n, hn, hrest⟩ := (hcut ▸ hchain.segment).lookup
  refine ⟨⟨_, _, _, n, _, hcut ▸ hchain, hcut ▸ hfields, ?_, hn, hrest⟩, ?_⟩
  · rw [List.length_take]
    omega
  · have hi : ((min bound.toNat cells.length : Nat) : Int) = bound := by omega
    simp [walk_chain hchain.segment, hi, addresses, hk]

/-- Before the head the walk stays at the head, with a counter above its bound. -/
theorem walk_before (h : Holds mem list l) (bound : Int) (hneg : bound < 0) :
    ∃ c : NodeAt mem list l 0, walk mem bound list = .ok (some c.address, 0) := by
  obtain ⟨c, hc⟩ := walk_inside h 0 (Int.le_refl 0) (by omega)
  refine ⟨c, ?_⟩
  have h0 : bound.toNat = 0 := by omega
  simpa [walk, h0, walkFor] using hc

/-- Beyond the last node the walk ends in null. -/
theorem walk_beyond (h : Holds mem list l) (bound : Int) (hlen : l.nodes.length < bound) :
    walk mem bound list = .ok (none, l.nodes.length + 1) := by
  obtain ⟨cells, hchain, hfields⟩ := h
  have hcells : cells.length = l.nodes.length + 1 := by
    rw [← fields_length, ← hfields, List.length_map]
  have hk : cells.length ≤ bound.toNat := by omega
  have hi : ((min bound.toNat cells.length : Nat) : Int) = l.nodes.length + 1 := by omega
  rw [walk_chain hchain.segment, hi, List.getElem?_eq_none (by simpa [addresses] using hk)]

theorem predPos_ok {pos : Int} (h : intMin < pos) : predPos pos = .ok (pos - 1) :=
  if_neg (by omega)

end CodingLearners.TcpServer.ListHeap
