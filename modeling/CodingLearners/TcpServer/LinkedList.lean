import Mathlib.Data.List.Basic

/-!
# The singly linked list of `List.c`

A list is its head node, whose handle `SL_Creat` leaves unset, and the handles
of the nodes that follow. A pointer into the chain is represented by what can
be reached from it, so each `while (p != NULL && ...)` walk is a recursion on
the successors of `p`. Reading a field through a null pointer is a fault.
-/

namespace CodingLearners.TcpServer

variable {H : Type*}

/-- What the C code may do that has no defined result. -/
inductive Fault
  | nullDeref
  deriving DecidableEq, Repr

/-- `SList`: the content of the head node's handle field, which no operation
sets, and the handles of the nodes after it. -/
structure SList (H : Type*) where
  head : Option H
  nodes : List H

/-- The loop of `SL_Creat`: it links `i` new nodes with a null handle behind
the head. `mallocOk` tells which allocation succeeds. -/
def slCreatNodes (mallocOk : Nat → Bool) (null : H) : Nat → List H → Int × List H
  | 0, nodes => (0, nodes)
  | i + 1, nodes =>
      if mallocOk (i + 1) then slCreatNodes mallocOk null i (null :: nodes) else (-1, nodes)

/-- `SL_Creat`: return code and list; `unset` is what the head's memory held. -/
def slCreat (mallocOk : Nat → Bool) (unset : Option H) (null : H) (size : Int) :
    Int × Option (SList H) :=
  if mallocOk 0 then
    let r := slCreatNodes mallocOk null size.toNat []
    (r.1, some ⟨unset, r.2⟩)
  else (-1, none)

/-- `SL_Add` at a node with successors `next`: walk to the last node and link
the new one behind it. -/
def slAddAfter (handle : H) : List H → List H
  | [] => [handle]
  | h :: next => h :: slAddAfter handle next

/-- `SL_Add`. -/
def slAdd (list : SList H) (handle : H) (mallocOk : Bool) : Int × SList H :=
  if mallocOk then (0, { list with nodes := slAddAfter handle list.nodes }) else (-1, list)

/-- `SL_Gethandle` with `p` at node `i`, whose handle is `handle` and whose
successors are `next`; `none` is the return code `-1`. -/
def slGethandleAt (pos : Int) : Int → Option H → List H → Option (Option H)
  | i, handle, [] => if i < pos then none else if i > pos then none else some handle
  | i, handle, h :: next =>
      if i < pos then slGethandleAt pos (i + 1) (some h) next
      else if i > pos then none
      else some handle

/-- `SL_Gethandle`: return code and the content of `*p_handle` afterwards. -/
def slGethandle (list : SList H) (pos : Int) (pHandle : Option H) : Int × Option H :=
  match slGethandleAt pos 0 list.head list.nodes with
  | none => (-1, pHandle)
  | some handle => (0, handle)

/-- `SL_Delete` with `p` at node `i`, whose successors are `next`: return code,
the successors afterwards, and the handle of the freed node. -/
def slDeleteAt (pos : Int) : Int → List H → Except Fault (Int × List H × Option H)
  | i, [] =>
      -- `p` runs off the list and `p->next` is read through the null pointer
      if i < pos - 1 then .error .nullDeref else .ok (-1, [], none)
  | i, h :: next =>
      if i < pos - 1 then
        match slDeleteAt pos (i + 1) next with
        | .error e => .error e
        | .ok (rc, next', freed) => .ok (rc, h :: next', freed)
      else if i > pos - 1 then .ok (-1, h :: next, none)
      else .ok (0, next, some h)

/-- `SL_Delete` called with a null `p_handle`, as the server does. -/
def slDelete (list : SList H) (pos : Int) : Except Fault (Int × SList H) :=
  match slDeleteAt pos 0 list.nodes with
  | .error e => .error e
  | .ok (rc, nodes, _) => .ok (rc, { list with nodes := nodes })

/-- The counting loop of `SL_Size`. -/
def slSizeFrom : Int → List H → Int
  | i, [] => i
  | i, _ :: next => slSizeFrom (i + 1) next

/-- `SL_Size` counts the head node as well. -/
def slSize (list : SList H) : Int := slSizeFrom 1 list.nodes

/-- A store through the record pointer that `SL_Gethandle` returned for `pos`. -/
def SList.store (list : SList H) (pos : Int) (record : H) : SList H :=
  { list with nodes := list.nodes.set (pos - 1).toNat record }

@[simp] theorem slAddAfter_eq (handle : H) (next : List H) :
    slAddAfter handle next = next ++ [handle] := by
  induction next with
  | nil => rfl
  | cons h next ih => simp [slAddAfter, ih]

private theorem slSizeFrom_eq (i : Int) (nodes : List H) :
    slSizeFrom i nodes = i + nodes.length := by
  induction nodes generalizing i with
  | nil => simp [slSizeFrom]
  | cons h next ih =>
      simp only [slSizeFrom, ih, List.length_cons]
      omega

@[simp] theorem slSize_eq (list : SList H) : slSize list = list.nodes.length + 1 := by
  rw [slSize, slSizeFrom_eq]
  omega

private theorem slGethandleAt_walk (before : List H) (c : H) (after : List H)
    (i pos : Int) (handle : Option H) (hpos : pos = i + before.length + 1) :
    slGethandleAt pos i handle (before ++ c :: after) = some (some c) := by
  induction before generalizing i handle with
  | nil =>
      simp only [List.length_nil] at hpos
      have h1 : i < pos := by omega
      have h2 : ¬ i + 1 < pos := by omega
      have h3 : ¬ i + 1 > pos := by omega
      cases after with
      | nil => simp only [List.nil_append, slGethandleAt, h1, h2, h3, if_true, if_false]
      | cons d after => simp only [List.nil_append, slGethandleAt, h1, h2, h3, if_true, if_false]
  | cons b before ih =>
      simp only [List.length_cons] at hpos
      have h1 : i < pos := by omega
      simp only [List.cons_append, slGethandleAt, h1, if_true]
      exact ih (i + 1) (some b) (by omega)

/-- Position `n + 1` holds the element that `n` others precede. -/
theorem slGethandle_mid (head : Option H) (before : List H) (c : H) (after : List H)
    (pHandle : Option H) :
    slGethandle ⟨head, before ++ c :: after⟩ (before.length + 1) pHandle = (0, some c) := by
  rw [slGethandle, slGethandleAt_walk before c after 0 _ head (by omega)]

theorem slDeleteAt_walk (before : List H) (c : H) (after : List H)
    (i pos : Int) (hpos : pos = i + before.length + 1) :
    slDeleteAt pos i (before ++ c :: after) = .ok (0, before ++ after, some c) := by
  induction before generalizing i with
  | nil =>
      simp only [List.length_nil] at hpos
      have h1 : ¬ i < pos - 1 := by omega
      have h2 : ¬ i > pos - 1 := by omega
      simp [slDeleteAt, h1, h2]
  | cons b before ih =>
      simp only [List.length_cons] at hpos
      have h1 : i < pos - 1 := by omega
      simp only [List.cons_append, slDeleteAt, h1, if_true]
      rw [ih (i + 1) (by omega)]

/-- Deleting position `n + 1` removes the element that `n` others precede. -/
theorem slDelete_mid (head : Option H) (before : List H) (c : H) (after : List H) :
    slDelete ⟨head, before ++ c :: after⟩ (before.length + 1) =
      .ok (0, ⟨head, before ++ after⟩) := by
  rw [slDelete, slDeleteAt_walk before c after 0 _ (by omega)]

/-- A store at position `n + 1` replaces the element that `n` others precede. -/
theorem store_mid (head : Option H) (before : List H) (c d : H) (after : List H) :
    SList.store ⟨head, before ++ c :: after⟩ (before.length + 1) d =
      ⟨head, before ++ d :: after⟩ := by
  have h : ((before.length : Int) + 1 - 1).toNat = before.length := by omega
  simp only [SList.store, h, List.set_append_right _ _ (Nat.le_refl _), Nat.sub_self,
    List.set_cons_zero]

end CodingLearners.TcpServer
