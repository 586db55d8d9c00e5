import CodingLearners.TcpServer.ListSequence
import Mathlib.Data.List.ReduceOption

/-!
# From `SL_Creat` to `et_destroy_list`

Every call leaves a chain that is all that the list has allocated. The destruction
frees the clients that the nodes point to, then the nodes, and the heap is what it
was before the list was made.
-/

namespace CodingLearners.TcpServer.ListHeap

open CellChain

variable {H C : Type*}

/-- The loop of `SL_Clear`. -/
def slClearFrom : Nat → Heap H → Option Nat → Except Trap (Heap H)
  | _, mem, none => .ok mem
  | 0, _, some _ => .error .diverges
  | fuel + 1, mem, some p =>
      match deref mem (some p) with
      | .error e => .error e
      | .ok (_, node) => slClearFrom fuel (Function.update mem p none) node.next

/-- `SL_Clear`: return code, `*p_list` and the heap. -/
def slClear (fuel : Nat) (mem : Heap H) (list : Option Nat) :
    Except Trap (Int × Option Nat × Heap H) :=
  (slClearFrom fuel mem list).map fun mem => (0, none, mem)

/-- The loop of `et_destroy_list`: the handles are pointers to clients, and `free` of
what is not allocated has no defined result. -/
def etDestroyListFrom : Nat → Heap (Option Nat) → (Nat → Option C) → Option Nat →
    Except Trap (Heap (Option Nat) × (Nat → Option C))
  | _, mem, clients, none => .ok (mem, clients)
  | 0, _, _, some _ => .error .diverges
  | fuel + 1, mem, clients, some p =>
      match deref mem (some p) with
      | .error e => .error e
      | .ok (_, node) =>
          match node.value with
          -- a handle that was never set
          | none => .error .wildDeref
          | some none => etDestroyListFrom fuel mem clients node.next
          | some (some client) =>
              match clients client with
              | none => .error .wildDeref
              | some _ =>
                  etDestroyListFrom fuel (Function.update mem p (some ⟨some none, node.next⟩))
                    (Function.update clients client none) node.next

/-- `et_destroy_list`: return code, `*list`, the nodes and the clients. -/
def etDestroyList (fuel : Nat) (mem : Heap (Option Nat)) (clients : Nat → Option C)
    (list : Option Nat) : Except Trap (Int × Option Nat × Heap (Option Nat) × (Nat → Option C)) :=
  match list with
  | none => .ok (-1, none, mem, clients)
  | some head =>
      match deref mem (some head) with
      | .error e => .error e
      | .ok (_, node) =>
          match etDestroyListFrom fuel mem clients node.next with
          | .error e => .error e
          | .ok (mem, clients) =>
              match slClear fuel mem (some head) with
              | .error e => .error e
              | .ok (rc, list, mem) => .ok (rc, list, mem, clients)

/-! ## What a call does to a chain -/

variable {mem mem' base : Heap H} {list : Option Nat} {cells : List (Nat × Option H)}

/-- What a call can do to a chain: link a new node behind one of its nodes, write a
handle, or unlink and free a node. -/
inductive Touched (mem : Heap H) (cells : List (Nat × Option H)) : Heap H → Prop
  | same : Touched mem cells mem
  | linked (p : Nat) (node : Node H) (q : Nat) (handle : H) (hcell : (p, node.value) ∈ cells)
      (hnode : mem p = some node) (hfree : mem q = none) :
      Touched mem cells (linkAfter mem p node q handle)
  | stored (p : Nat) (node : Node H) (handle : H) (hcell : (p, node.value) ∈ cells)
      (hnode : mem p = some node) :
      Touched mem cells (Function.update mem p (some ⟨some handle, node.next⟩))
  | unlinked (p : Nat) (node : Node H) (q : Nat) (qNode : Node H) (hcell : (p, node.value) ∈ cells)
      (hnode : mem p = some node) (hnext : node.next = some q) (hq : mem q = some qNode) :
      Touched mem cells (Function.update
        (Function.update mem p (some ⟨node.value, qNode.next⟩)) q none)

/-- A cell of a chain is what the memory holds at its address. -/
theorem cell_of_address {p q : Option Nat} (h : Segment mem p cells q) {a : Nat}
    (ha : a ∈ addresses cells) : ∃ node, mem a = some node ∧ (a, node.value) ∈ cells := by
  obtain ⟨⟨a, v⟩, hcell, rfl⟩ := List.mem_map.mp ha
  obtain ⟨xs, ys, rfl⟩ := List.append_of_mem hcell
  obtain ⟨-, n, hn, -⟩ := h.lookup
  exact ⟨⟨v, n⟩, hn, hcell⟩

/-- A walk ends at a node of the chain, if not in null. -/
theorem walk_cell (h : Segment mem list cells none) {bound i : Int} {p : Option Nat}
    (hwalk : walk mem bound list = .ok (p, i)) :
    ∀ a node, deref mem p = .ok (a, node) → mem a = some node ∧ (a, node.value) ∈ cells := by
  rw [walk_chain h, Except.ok.injEq, Prod.mk.injEq] at hwalk
  intro a node hderef
  cases p with
  | none => cases hderef
  | some a' =>
      obtain ⟨node', hnode', hcell⟩ := cell_of_address h (List.mem_of_getElem? hwalk.1)
      rw [deref_some hnode'] at hderef
      cases hderef
      exact ⟨hnode', hcell⟩

theorem walkToLast_cell {p : Option Nat} (h : Segment mem p cells none) {fuel a : Nat}
    {node : Node H} (hlast : walkToLast mem fuel p = .ok (a, node)) :
    mem a = some node ∧ (a, node.value) ∈ cells := by
  induction fuel generalizing p cells with
  | zero => cases hlast
  | succ fuel ih =>
      cases cells with
      | nil =>
          obtain rfl : p = none := h
          cases hlast
      | cons cell rest =>
          obtain ⟨b, v⟩ := cell
          obtain ⟨rfl, n, hn, hrest⟩ := h
          rw [walkToLast, deref_some hn] at hlast
          cases n with
          | none =>
              cases hlast
              exact ⟨hn, List.mem_cons_self⟩
          | some c =>
              obtain ⟨hnode, hcell⟩ := ih hrest hlast
              exact ⟨hnode, List.mem_cons_of_mem _ hcell⟩

theorem slAdd_touched (h : IsChain mem list cells) {fuel : Nat} {handle : H} {q : Option Nat}
    (hfresh : ∀ p, q = some p → mem p = none) {rc : Int}
    (hexec : slAdd fuel mem list handle q = .ok (rc, mem')) : Touched mem cells mem' := by
  unfold slAdd at hexec
  split at hexec
  · cases hexec
    exact .same
  split at hexec
  · contradiction
  · next p node hlast =>
    obtain ⟨hnode, hcell⟩ := walkToLast_cell h.segment hlast
    cases q with
    | none =>
        cases hexec
        exact .same
    | some q =>
        cases hexec
        exact .linked p node q handle hcell hnode (hfresh q rfl)

theorem slInsert_touched (h : IsChain mem list cells) {pos : Int} {handle : H} {q : Option Nat}
    (hfresh : ∀ p, q = some p → mem p = none) {rc : Int}
    (hexec : slInsert mem list pos handle q = .ok (rc, mem')) : Touched mem cells mem' := by
  unfold slInsert at hexec
  split at hexec
  · contradiction
  split at hexec
  · contradiction
  · next bound hpred p i hwalk =>
    split at hexec
    · cases hexec
      exact .same
    cases q with
    | none =>
        cases hexec
        exact .same
    | some q =>
        dsimp only at hexec
        split at hexec
        · contradiction
        · next a node hderef =>
          cases hexec
          obtain ⟨hnode, hcell⟩ := walk_cell h.segment hwalk a node hderef
          exact .linked a node q handle hcell hnode (hfresh q rfl)

theorem slSethandle_touched (h : IsChain mem list cells) {pos : Int} {handle : H} {rc : Int}
    (hexec : slSethandle mem list pos handle = .ok (rc, mem')) : Touched mem cells mem' := by
  unfold slSethandle at hexec
  split at hexec
  · contradiction
  · next p i hwalk =>
    split at hexec
    · cases hexec
      exact .same
    split at hexec
    · contradiction
    · next a node hderef =>
      cases hexec
      obtain ⟨hnode, hcell⟩ := walk_cell h.segment hwalk a node hderef
      exact .stored a node handle hcell hnode

theorem slDelete_touched (h : IsChain mem list cells) {pos : Int} {pHandle out : Option (Option H)}
    {rc : Int} (hexec : slDelete mem list pos pHandle = .ok (rc, mem', out)) :
    Touched mem cells mem' := by
  unfold slDelete at hexec
  split at hexec
  · contradiction
  split at hexec
  · contradiction
  · next bound hpred p i hwalk =>
    split at hexec
    · contradiction
    · next a node hderef =>
      obtain ⟨hnode, hcell⟩ := walk_cell h.segment hwalk a node hderef
      split at hexec
      · cases hexec
        exact .same
      split at hexec
      · contradiction
      · next hinside _ q qNode hq =>
        cases hexec
        cases hnext : node.next with
        | none => exact absurd (Or.inl hnext) hinside
        | some b =>
            rw [hnext] at hq
            cases hb : mem b with
            | none => simp [deref, hb] at hq
            | some bNode =>
                rw [deref_some hb] at hq
                cases hq
                exact .unlinked a node q qNode hcell hnode hnext hb

theorem of_map_ok {E X Y : Type*} {f : X → Y} {r : Except E X} {y : Y} (h : r.map f = .ok y) :
    ∃ x, r = .ok x ∧ f x = y := by
  cases r with
  | error e => cases h
  | ok x => exact ⟨x, rfl, Except.ok.inj h⟩

/-- Whatever the position: a call that returns does one of these things. -/
theorem Call.exec_touched (h : IsChain mem list cells) {call : Call H} {fuel : Nat}
    (hfresh : call.Fresh mem) {ret : Return H}
    (hexec : call.exec fuel list mem = .ok (ret, mem')) : Touched mem cells mem' := by
  cases call with
  | add handle q =>
      obtain ⟨r, hadd, hr⟩ := of_map_ok hexec
      cases hr
      exact slAdd_touched h hfresh hadd
  | insert pos handle q =>
      obtain ⟨r, hinsert, hr⟩ := of_map_ok hexec
      cases hr
      exact slInsert_touched h hfresh hinsert
  | delete pos pHandle =>
      obtain ⟨r, hdelete, hr⟩ := of_map_ok hexec
      cases hr
      exact slDelete_touched h hdelete
  | gethandle pos pHandle =>
      obtain ⟨r, -, hr⟩ := of_map_ok hexec
      cases hr
      exact .same
  | sethandle pos handle =>
      obtain ⟨r, hset, hr⟩ := of_map_ok hexec
      cases hr
      exact slSethandle_touched h hset

/-! ## All that is allocated -/

/-- The chain stays all that is allocated. -/
theorem Touched.owns (h : Owns base mem list cells) (htouched : Touched mem cells mem') :
    ∃ cells', Owns base mem' list cells' := by
  cases htouched with
  | same => exact ⟨cells, h⟩
  | linked p node q handle hcell hnode hfree =>
      obtain ⟨xs, ys, rfl⟩ := List.append_of_mem hcell
      exact ⟨_, h.link hnode hfree (some handle)⟩
  | stored p node handle hcell hnode =>
      obtain ⟨xs, ys, rfl⟩ := List.append_of_mem hcell
      exact ⟨_, h.store hnode (some handle)⟩
  | unlinked p node q qNode hcell hnode hnext hq =>
      obtain ⟨xs, ys, rfl⟩ := List.append_of_mem hcell
      obtain ⟨-, n, hn, hys⟩ := h.chain.segment.lookup
      have hlink : n = node.next := congrArg Cell.next (Option.some.inj (hn.symm.trans hnode))
      rw [hlink, hnext] at hys
      cases ys with
      | nil => cases hys
      | cons cell ys =>
          obtain ⟨b, w⟩ := cell
          obtain ⟨hb, m, hm, -⟩ := hys
          cases hb
          obtain rfl : w = qNode.value :=
            congrArg Cell.value (Option.some.inj (hm.symm.trans hq))
          exact ⟨_, h.unlink hq⟩

/-- What `malloc` returns in the course of the calls is null or was free. -/
def FreshCalls (fuel : Nat) (list : Option Nat) : Heap H → List (Call H) → Prop
  | _, [] => True
  | mem, call :: rest => call.Fresh mem ∧
      match call.exec fuel list mem with
      | .error _ => True
      | .ok (_, mem') => FreshCalls fuel list mem' rest

theorem execAll_owns (h : Owns base mem list cells) {fuel : Nat} {calls : List (Call H)}
    (hfresh : FreshCalls fuel list mem calls) {rets : List (Return H)}
    (hexec : execAll fuel list mem calls = .ok (rets, mem')) :
    ∃ cells', Owns base mem' list cells' := by
  induction calls generalizing mem cells rets with
  | nil =>
      cases hexec
      exact ⟨cells, h⟩
  | cons call rest ih =>
      obtain ⟨hcall, hrest⟩ := hfresh
      rw [execAll] at hexec
      cases hfirst : call.exec fuel list mem with
      | error e => simp [hfirst] at hexec
      | ok r =>
          obtain ⟨ret, mem₁⟩ := r
          simp only [hfirst] at hexec hrest
          cases hlater : execAll fuel list mem₁ rest with
          | error e => simp [hlater] at hexec
          | ok r =>
              simp only [hlater] at hexec
              cases hexec
              obtain ⟨cells₁, hcells₁⟩ := (Call.exec_touched h.chain hcall hfirst).owns h
              exact ih hcells₁ hrest hlater

/-- The addresses that `SL_Creat` gets are free, and no two are the same. -/
def NewNodes (alloc : Nat → Option Nat) (mem : Heap H) : Prop :=
  ∀ i p, alloc i = some p → mem p = none ∧ ∀ j, alloc j = some p → j = i

theorem slCreatNodes_owns {alloc : Nat → Option Nat} {null : H} {i : Nat} {head : Nat}
    {v : Option H} {rest : List (Nat × Option H)}
    (halloc : ∀ j p, 0 < j → j ≤ i → alloc j = some p →
      mem p = none ∧ ∀ k, alloc k = some p → k = j)
    (h : Owns base mem (some head) ((head, v) :: rest)) {rc : Int}
    (hmade : slCreatNodes alloc null (some head) i mem = .ok (rc, mem')) :
    ∃ rest', Owns base mem' (some head) ((head, v) :: rest') := by
  induction i generalizing mem rest with
  | zero =>
      cases hmade
      exact ⟨rest, h⟩
  | succ i ih =>
      rw [slCreatNodes] at hmade
      cases hp : alloc (i + 1) with
      | none =>
          simp only [hp] at hmade
          cases hmade
          exact ⟨rest, h⟩
      | some p =>
          obtain ⟨hfree, hnew⟩ := halloc (i + 1) p (Nat.succ_pos i) (Nat.le_refl _) hp
          obtain ⟨-, n, hn, -⟩ := h.chain.segment
          simp only [hp, deref_some hn] at hmade
          have h' : Owns base mem (some head) ([] ++ (head, v) :: rest) := h
          have hlink := h'.link hn hfree (some null)
          refine ih (fun j p' hpos hj hp' => ?_) hlink hmade
          obtain ⟨hfree', hnew'⟩ := halloc j p' hpos (Nat.le_succ_of_le hj) hp'
          have hne : p' ≠ p := by
            rintro rfl
            have := hnew j hp'
            omega
          have hhead : p' ≠ head := by
            rintro rfl
            simp [hn] at hfree'
          exact ⟨by simp [hne, hhead, hfree'], hnew'⟩

theorem slCreat_owns {alloc : Nat → Option Nat} {unset : Option H} {null : H} {size : Int}
    {mem₀ : Heap H} (halloc : NewNodes alloc mem₀) {rc : Int} {head : Nat}
    (hcreat : slCreat alloc unset null size mem₀ = .ok (rc, some head, mem)) :
    ∃ cells, Owns mem₀ mem (some head) cells := by
  unfold slCreat at hcreat
  split at hcreat
  · cases hcreat
  · next a ha =>
    split at hcreat
    · cases hcreat
    · next rc' mem' hmade =>
      cases hcreat
      obtain ⟨hfree, hnew⟩ := halloc 0 head ha
      have hhead : Owns mem₀ (Function.update mem₀ head (some ⟨unset, none⟩)) (some head)
          [(head, unset)] := by
        refine ⟨⟨⟨rfl, none, by simp, rfl⟩, by simp [addresses]⟩, fun c hc => ?_, fun c hc => ?_⟩
        · rw [Function.update_of_ne (by simpa [addresses] using hc)]
        · obtain rfl : c = head := by simpa [addresses] using hc
          exact hfree
      have hlater : ∀ j p, 0 < j → j ≤ size.toNat → alloc j = some p →
          Function.update mem₀ head (some ⟨unset, none⟩) p = none ∧
            ∀ k, alloc k = some p → k = j := by
        intro j p hpos _ hp
        obtain ⟨hfree', hnew'⟩ := halloc j p hp
        have hne : p ≠ head := by
          rintro rfl
          have := hnew j hp
          omega
        exact ⟨by simp [hne, hfree'], hnew'⟩
      obtain ⟨rest, hrest⟩ := slCreatNodes_owns hlater hhead hmade
      exact ⟨_, hrest⟩

/-! ## The destruction -/

/-- `SL_Clear` frees each cell of the chain once. -/
theorem slClearFrom_owns {p : Option Nat} (h : Owns base mem p cells) {fuel : Nat}
    (hfuel : cells.length ≤ fuel) : slClearFrom fuel mem p = .ok base := by
  induction cells generalizing mem p fuel with
  | nil =>
      obtain rfl : p = none := h.chain.segment
      rw [slClearFrom, h.eq_base]
  | cons cell rest ih =>
      obtain ⟨a, v⟩ := cell
      obtain ⟨rfl, n, hn, -⟩ := h.chain.segment
      cases fuel with
      | zero => cases hfuel
      | succ fuel =>
          rw [slClearFrom, deref_some hn]
          exact ih (h.release hn) (Nat.le_of_succ_le_succ hfuel)

/-- The clients that the handles point to. -/
def clientsOf (handles : List (Option Nat)) : List Nat := handles.reduceOption

/-- These clients are gone. -/
def without (clients : Nat → Option C) (gone : List Nat) : Nat → Option C :=
  fun client => if client ∈ gone then none else clients client

theorem without_update (clients : Nat → Option C) (client : Nat) (gone : List Nat) :
    without (Function.update clients client none) gone = without clients (client :: gone) := by
  funext c
  by_cases hc : c = client <;> simp [without, hc]

/-- Freeing a client leaves the others. -/
theorem live_after_free {clients : Nat → Option C} {client : Nat} {handles : List (Option Nat)}
    (hclient : client ∉ clientsOf handles) (hlive : ∀ c ∈ clientsOf handles, clients c ≠ none) :
    ∀ c ∈ clientsOf handles, Function.update clients client none c ≠ none := by
  intro c hc
  have hne : c ≠ client := by
    rintro rfl
    exact hclient hc
  rw [Function.update_of_ne hne]
  exact hlive c hc

/-- The loop frees each client once, and the chain stays. -/
theorem etDestroyListFrom_owns {mem base : Heap (Option Nat)} {clients : Nat → Option C}
    {p : Option Nat} {done todo : List (Nat × Option (Option Nat))}
    (h : Owns base mem list (done ++ todo)) (hp : Segment mem p todo none)
    {handles : List (Option Nat)} (hhandles : todo.map Prod.snd = handles.map some)
    (hnodup : (clientsOf handles).Nodup) (hlive : ∀ c ∈ clientsOf handles, clients c ≠ none)
    {fuel : Nat} (hfuel : todo.length ≤ fuel) :
    ∃ mem' cells', etDestroyListFrom fuel mem clients p =
        .ok (mem', without clients (clientsOf handles)) ∧
      Owns base mem' list cells' ∧ cells'.length = (done ++ todo).length := by
  induction todo generalizing mem clients p done handles fuel with
  | nil =>
      obtain rfl : p = none := hp
      obtain rfl : handles = [] := by simpa using hhandles.symm
      exact ⟨mem, _, by rw [etDestroyListFrom]; rfl, h, rfl⟩
  | cons cell todo ih =>
      obtain ⟨a, v⟩ := cell
      obtain ⟨rfl, n, hn, htodo⟩ := hp
      cases handles with
      | nil => cases hhandles
      | cons handle handles =>
          obtain ⟨rfl, hrest⟩ : v = some handle ∧ todo.map Prod.snd = handles.map some := by
            simpa using hhandles
          cases fuel with
          | zero => cases hfuel
          | succ fuel =>
              have hfuel' := Nat.le_of_succ_le_succ hfuel
              have hnotMem : a ∉ addresses todo := by
                have hchain := h.chain.nodup
                rw [addresses_append, List.nodup_append', addresses_cons, List.nodup_cons] at hchain
                exact hchain.2.1.1
              have hcut : done ++ (a, some none) :: todo = (done ++ [(a, some none)]) ++ todo := by
                simp
              cases handle with
              | none =>
                  rw [hcut] at h
                  obtain ⟨mem', cells', hloop, howns, hlength⟩ :=
                    ih h htodo hrest hnodup hlive hfuel'
                  refine ⟨mem', cells', ?_, howns, by simpa using hlength⟩
                  rw [etDestroyListFrom, deref_some hn]
                  exact hloop
              | some client =>
                  obtain ⟨hclient, hnodup'⟩ := List.nodup_cons.mp hnodup
                  obtain ⟨c, hc⟩ := Option.ne_none_iff_exists'.mp (hlive client List.mem_cons_self)
                  have hstore := h.store hn (some none)
                  rw [hcut] at hstore
                  have hlive' := live_after_free hclient fun other hother =>
                    hlive other (List.mem_cons_of_mem _ hother)
                  obtain ⟨mem', cells', hloop, howns, hlength⟩ :=
                    ih hstore (htodo.frame hnotMem _) hrest hnodup' hlive' hfuel'
                  refine ⟨mem', cells', ?_, howns, by simpa using hlength⟩
                  rw [etDestroyListFrom, deref_some hn]
                  simp only [hc, hloop, without_update]
                  rfl

/-- Whatever calls were made on a list and have returned, if then each of its clients is
there and in the list once, its destruction ends: every client that it has is freed, every
node is, and the nodes of the heap are those from before `SL_Creat`. -/
theorem list_leaves_nothing {alloc : Nat → Option Nat} {unset : Option (Option Nat)}
    {null : Option Nat} {size : Int} {mem₀ : Heap (Option Nat)} (halloc : NewNodes alloc mem₀)
    {rc : Int} {head : Nat} {mem : Heap (Option Nat)}
    (hcreat : slCreat alloc unset null size mem₀ = .ok (rc, some head, mem)) {fuel : Nat}
    {calls : List (Call (Option Nat))} (hfresh : FreshCalls fuel (some head) mem calls)
    {rets : List (Return (Option Nat))} {mem' : Heap (Option Nat)}
    (hexec : execAll fuel (some head) mem calls = .ok (rets, mem'))
    {l : SList (Option Nat)} (hholds : Holds mem' (some head) l) (clients : Nat → Option C)
    (hnodup : (clientsOf l.nodes).Nodup) (hlive : ∀ c ∈ clientsOf l.nodes, clients c ≠ none) :
    ∀ fuel' > l.nodes.length, etDestroyList fuel' mem' clients (some head) =
      .ok (0, none, mem₀, without clients (clientsOf l.nodes)) := by
  intro fuel' hfuel
  obtain ⟨cells₀, hcells₀⟩ := slCreat_owns halloc hcreat
  obtain ⟨cells, hcells⟩ := execAll_owns hcells₀ hfresh hexec
  obtain ⟨cells', hchain, hfields⟩ := hholds
  obtain rfl := hchain.segment.unique hcells.chain.segment
  cases cells' with
  | nil => cases hfields
  | cons cell rest =>
      obtain ⟨a, v⟩ := cell
      obtain ⟨ha, n, hn, hrest⟩ := hchain.segment
      obtain rfl : head = a := by simpa using ha
      obtain ⟨-, hhandles⟩ : v = l.head ∧ rest.map Prod.snd = l.nodes.map some := by
        simpa [fields] using hfields
      have hlength : rest.length = l.nodes.length := by
        simpa using congrArg List.length hhandles
      have howns : Owns mem₀ mem' (some head) ([(head, v)] ++ rest) := hcells
      obtain ⟨mem'', cells'', hloop, howns'', hlength''⟩ :=
        etDestroyListFrom_owns howns hrest hhandles hnodup hlive
          (show rest.length ≤ fuel' by omega)
      have henough : cells''.length ≤ fuel' := by
        rw [hlength'', List.length_append, List.length_singleton]
        omega
      have hclear := slClearFrom_owns howns'' henough
      simp only [etDestroyList, deref_some hn, hloop, slClear, hclear, Except.map]

/-- Two clients are added, and the first is removed and freed; the destruction frees
the second. -/
theorem list_leaves_nothing_second :
    ∃ mem mem' : Heap (Option Nat),
      slCreat (fun i => some (10 + i)) none none 0 (fun _ => none) = .ok (0, some 10, mem) ∧
      execAll 9 (some 10) mem [.add (some 5) (some 1), .add (some 6) (some 2),
          .delete 1 (some none)] =
        .ok ([⟨0, none⟩, ⟨0, none⟩, ⟨0, some (some (some 5))⟩], mem') ∧
      ∀ fuel > 1, etDestroyList fuel mem' (fun client => if client = 6 then some () else none)
          (some 10) =
        .ok (0, none, fun _ => none, without (fun client => if client = 6 then some () else none)
          [6]) := by
  have halloc : NewNodes (fun i => some (10 + i)) (fun _ => none : Heap (Option Nat)) := by
    intro i p hp
    refine ⟨rfl, fun j hj => ?_⟩
    simp only [Option.some.injEq] at hp hj
    omega
  let calls : List (Call (Option Nat)) :=
    [.add (some 5) (some 1), .add (some 6) (some 2), .delete 1 (some none)]
  let mem : Heap (Option Nat) := Function.update (fun _ => none) 10 (some ⟨none, none⟩)
  have hfresh : FreshCalls 9 (some 10) mem calls := by
    refine ⟨?_, ?_, trivial, trivial⟩
    · rintro p ⟨⟩
      rfl
    · rintro p ⟨⟩
      rfl
  have hcreat : slCreat (fun i => some (10 + i)) none none 0 (fun _ => none) =
      .ok (0, some 10, mem) := rfl
  refine ⟨mem, _, hcreat, rfl, ?_⟩
  exact list_leaves_nothing (l := ⟨none, [some 6]⟩) halloc hcreat hfresh rfl
    ⟨[(10, none), (2, some (some 6))], ⟨⟨rfl, _, rfl, rfl, _, rfl, rfl⟩, by decide⟩, rfl⟩ _
    (by decide) (by decide)

end CodingLearners.TcpServer.ListHeap
