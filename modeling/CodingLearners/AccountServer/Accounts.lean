import CodingLearners.AccountServer.Routes
import CodingLearners.Library.CheckThenAct

/-!
# The accounts

A request reads the table twice before it inserts: once to see whether it is
the first, and once to see whether its name is free. Both answers are good as
long as nobody inserts after them.
-/

namespace CodingLearners.AccountServer

open Js CheckThenAct

/-- The row that a statement has added. -/
def Statement.added : Statement → Option Row
  | .insert _ row _ => some row
  | _ => none

/-- The statement has inserted a row for a request that took no code. -/
def Statement.isCodeless : Statement → Bool
  | .insert _ _ none => true
  | _ => false

/-- No name stands in the table twice, and at most one row was inserted without
a code. -/
def AccountsInOrder (σ : Server) : Prop :=
  (σ.rows.map Row.name).Nodup ∧ σ.executed.countP Statement.isCodeless ≤ 1

/-- Since a request has asked for its name nobody has inserted that name, and
since it was found to be the first nobody has inserted anything. -/
def StillFree (σ : Server) (id : Nat) (row : Row) (taken : Option Invitation) : Prop :=
  (∀ e ∈ since (.selectName id) σ.executed, ∀ row' ∈ e.added, row'.name ≠ row.name) ∧
  (taken = none → ∀ e ∈ since (.selectAll id) σ.executed, e.added = none)

/-- The insertion that an act executes: for which request, which row, and the
code that was taken. -/
def insertion (σ : Server) : Act → Option (Nat × Row × Option Invitation)
  | .execute id =>
      match σ.tasks id with
      | some (.accountnewa _ (.insert row taken)) =>
          if σ.crashed then none else some (id, row, taken)
      | _ => none
  | _ => none

/-- What is inserted is inserted before the answers behind it become wrong. -/
def InTime (σ : Server) (act : Act) : Prop :=
  ∀ inserted ∈ insertion σ act, StillFree σ inserted.1 inserted.2.1 inserted.2.2

instance (σ : Server) (id : Nat) (row : Row) (taken : Option Invitation) :
    Decidable (StillFree σ id row taken) := inferInstanceAs (Decidable (_ ∧ _))

instance (σ : Server) (act : Act) : Decidable (InTime σ act) :=
  inferInstanceAs (Decidable (∀ _ ∈ insertion σ act, _))

/-! ## What the answers are worth -/

section Answers

variable (rows₀ : List Row) (σ : Server)

/-- A request without a code has seen the table empty. -/
def CodeSeen (id : Nat) : Option Invitation → Prop
  | none => rows₀ = [] ∧
      Tracks Statement.added (.selectAll id) σ.executed σ.rows fun _ => True
  | some _ => σ.rows ≠ []

/-- The request has not seen the name. -/
def NameSeen (id : Nat) (name : JsString) : Prop :=
  Tracks Statement.added (.selectName id) σ.executed σ.rows fun row => row.name = name

/-- What a request knows from its statements. -/
def Seen (out : Outside) (id : Nat) : Task → Prop
  | .accountnewa _ (.selectedAll true) => CodeSeen rows₀ σ id none
  | .accountnewa _ (.selectedAll false) => σ.rows ≠ []
  | .accountnewa _ (.selectName taken) => CodeSeen rows₀ σ id taken
  | .accountnewa query (.selectedName found taken) =>
      CodeSeen rows₀ σ id taken ∧ (found = false → NameSeen σ id (out.stored query.name))
  | .accountnewa _ (.insert row taken) => CodeSeen rows₀ σ id taken ∧ NameSeen σ id row.name
  | _ => True

/-- The requests know what they have seen, and the table is empty exactly if it
was so at the start and no row was inserted without a code. -/
structure Checked (out : Outside) : Prop where
  seen : ∀ {id : Nat} {task : Task}, σ.tasks id = some task → Seen rows₀ σ out id task
  first : σ.rows = [] ↔ rows₀ = [] ∧ σ.executed.countP Statement.isCodeless = 0

end Answers

/-! ## What an act does to the table -/

/-- A statement is executed. -/
structure Executes (e : Statement) (σ σ' : Server) : Prop where
  executed : σ'.executed = e :: σ.executed
  rows : σ'.rows = σ.rows ++ e.added.toList

/-- The table and the statements are left as they are. -/
structure Leaves (σ σ' : Server) : Prop where
  executed : σ'.executed = σ.executed
  rows : σ'.rows = σ.rows

/-- The request that a statement is executed for. -/
def Statement.id : Statement → Nat
  | .selectAll id => id
  | .selectName id => id
  | .insert id _ _ => id

variable {rows₀ : List Row} {σ σ' : Server} {out : Outside} {id : Nat} {task : Task}
  {e : Statement} {act : Act}

theorem Executes.tracks (h : Executes e σ σ') {mark : Statement} (hne : e ≠ mark)
    {P : Row → Prop} (htracks : Tracks Statement.added mark σ.executed σ.rows P) :
    Tracks Statement.added mark σ'.executed σ'.rows P := by
  rw [h.executed, h.rows]
  exact htracks.cons hne

theorem Executes.rows_ne_nil (h : Executes e σ σ') (hrows : σ.rows ≠ []) : σ'.rows ≠ [] := by
  rw [h.rows]
  exact List.append_ne_nil_of_left_ne_nil hrows _

theorem Executes.codeSeen (h : Executes e σ σ') (hne : e ≠ .selectAll id)
    {taken : Option Invitation} (hcode : CodeSeen rows₀ σ id taken) :
    CodeSeen rows₀ σ' id taken := by
  cases taken with
  | none => exact ⟨hcode.1, h.tracks hne hcode.2⟩
  | some entry => exact h.rows_ne_nil hcode

/-- The statements of other requests do not change what a request knows. -/
theorem Executes.seen (h : Executes e σ σ') (hid : e.id ≠ id) (hseen : Seen rows₀ σ out id task) :
    Seen rows₀ σ' out id task := by
  have hall : e ≠ .selectAll id := fun heq => hid (heq ▸ rfl)
  have hname : e ≠ .selectName id := fun heq => hid (heq ▸ rfl)
  cases task with
  | ucenter name password progress => trivial
  | accountnewa query progress =>
      cases progress with
      | selectedAll isFirstAccount =>
          cases isFirstAccount with
          | true =>
              have hcode : CodeSeen rows₀ σ id none := hseen
              exact h.codeSeen hall hcode
          | false => exact h.rows_ne_nil hseen
      | selectName taken => exact h.codeSeen hall hseen
      | selectedName found taken =>
          exact ⟨h.codeSeen hall hseen.1, fun hfound => h.tracks hname (hseen.2 hfound)⟩
      | insert row taken => exact ⟨h.codeSeen hall hseen.1, h.tracks hname hseen.2⟩
      | _ => trivial

theorem Leaves.seen (h : Leaves σ σ') (hseen : Seen rows₀ σ out id task) :
    Seen rows₀ σ' out id task := by
  unfold Seen CodeSeen NameSeen at hseen ⊢
  rw [h.executed, h.rows]
  exact hseen

/-- A request proceeds without a statement. -/
theorem Checked.leaves (h : Checked rows₀ σ out) (hleaves : Leaves σ σ')
    (htasks : σ'.tasks = Function.update σ.tasks id (some task))
    (hseen : Seen rows₀ σ out id task) : Checked rows₀ σ' out where
  seen := by
    intro id' task' htask
    rw [htasks] at htask
    by_cases heq : id' = id
    · subst heq
      rw [Function.update_self, Option.some.injEq] at htask
      exact htask ▸ hleaves.seen hseen
    · rw [Function.update_of_ne heq] at htask
      exact hleaves.seen (h.seen htask)
  first := by
    rw [hleaves.executed, hleaves.rows]
    exact h.first

/-- A request proceeds with a statement. -/
theorem Checked.executes (h : Checked rows₀ σ out) (hexecutes : Executes e σ σ')
    (htasks : σ'.tasks = Function.update σ.tasks e.id (some task))
    (hseen : Seen rows₀ σ' out e.id task)
    (hfirst : σ'.rows = [] ↔ rows₀ = [] ∧ σ'.executed.countP Statement.isCodeless = 0) :
    Checked rows₀ σ' out where
  seen := by
    intro id' task' htask
    rw [htasks] at htask
    by_cases heq : id' = e.id
    · subst heq
      rw [Function.update_self, Option.some.injEq] at htask
      exact htask ▸ hseen
    · rw [Function.update_of_ne heq] at htask
      exact hexecutes.seen (Ne.symm heq) (h.seen htask)
  first := hfirst

/-- A query leaves the table as it is. -/
theorem Checked.first_of_query (h : Checked rows₀ σ out) (hexecutes : Executes e σ σ')
    (hnone : e.added = none) :
    σ'.rows = [] ↔ rows₀ = [] ∧ σ'.executed.countP Statement.isCodeless = 0 := by
  have hcode : e.isCodeless = false := by
    cases e with
    | insert id row taken => exact absurd hnone (by simp [Statement.added])
    | _ => rfl
  rw [hexecutes.rows, hexecutes.executed, hnone]
  simp [hcode, h.first]

/-- What the requests know stays true. -/
theorem Checked.move (h : Checked rows₀ σ out) (hmove : Move out σ act σ') :
    Checked rows₀ σ' out := by
  cases hmove with
  | stay => exact h
  | arrive hact hnew harrived =>
      refine h.leaves ⟨rfl, rfl⟩ rfl ?_
      cases harrived <;> trivial
  | create htask => exact h.leaves ⟨rfl, rfl⟩ rfl trivial
  | @selectAll id query htask =>
      have hexecutes : Executes (.selectAll id) σ { σ.proceed id
          (.accountnewa query (.selectedAll σ.rows.isEmpty)) with
          executed := .selectAll id :: σ.executed } :=
        ⟨rfl, by simp [Statement.added, Server.proceed]⟩
      refine h.executes hexecutes rfl ?_ (h.first_of_query hexecutes rfl)
      cases hrows : σ.rows with
      | nil =>
          refine ⟨(h.first.mp hrows).1, tracks_mark ?_⟩
          simp [Server.proceed, hrows]
      | cons row rows => simp [Seen, Server.proceed, hrows]
  | @selectName id query taken htask =>
      have hexecutes : Executes (.selectName id) σ { σ.proceed id (.accountnewa query
          (.selectedName (σ.rows.any fun row => decide (row.name = out.stored query.name)) taken))
          with executed := .selectName id :: σ.executed } :=
        ⟨rfl, by simp [Statement.added, Server.proceed]⟩
      refine h.executes hexecutes rfl ?_ (h.first_of_query hexecutes rfl)
      refine ⟨hexecutes.codeSeen (by simp) (h.seen htask), fun hfound => tracks_mark ?_⟩
      simpa [Server.proceed] using hfound
  | @insert id query row taken hrunning htask =>
      have hexecutes : Executes (.insert id row taken) σ { σ.proceed id
          (.accountnewa query (.inserted taken)) with
          rows := σ.rows ++ [row], executed := .insert id row taken :: σ.executed } := ⟨rfl, rfl⟩
      refine h.executes hexecutes rfl trivial ?_
      have hseen := h.seen htask
      cases taken with
      | none => simp [Statement.isCodeless]
      | some entry =>
          have hrows : σ.rows ≠ [] := hseen.1
          simpa [Statement.isCodeless] using mt h.first.mpr hrows
  | checkfuser htask => exact h.leaves ⟨rfl, rfl⟩ rfl trivial
  | firstAccount htask =>
      have hseen := h.seen htask
      exact h.leaves ⟨rfl, rfl⟩ rfl hseen
  | take htask hdepot =>
      have hseen := h.seen htask
      exact h.leaves ⟨rfl, rfl⟩ rfl hseen
  | refuseCode htask => exact h.leaves ⟨rfl, rfl⟩ rfl trivial
  | refuseName hrunning htask => exact h.leaves ⟨rfl, rfl⟩ rfl trivial
  | accept htask =>
      have hseen := h.seen htask
      exact h.leaves ⟨rfl, rfl⟩ rfl ⟨hseen.1, hseen.2 rfl⟩
  | login hact htask => exact h.leaves ⟨rfl, rfl⟩ rfl trivial
  | welcome htask => exact h.leaves ⟨rfl, rfl⟩ rfl trivial
  | crash => exact ⟨fun htask => h.seen htask, h.first⟩

/-! ## The insertions -/

/-- An act inserts a row, or the table stays as it is. -/
theorem Move.inserts_or_not (hmove : Move out σ act σ') :
    (∃ id query row taken, act = .execute id ∧ σ.crashed = false ∧
      σ.tasks id = some (.accountnewa query (.insert row taken)) ∧
      Executes (.insert id row taken) σ σ') ∨
    (σ'.rows = σ.rows ∧
      σ'.executed.countP Statement.isCodeless = σ.executed.countP Statement.isCodeless) := by
  cases hmove with
  | @insert id query row taken hrunning htask =>
      exact Or.inl ⟨id, query, row, taken, rfl, hrunning, htask, rfl, rfl⟩
  | selectAll htask => exact Or.inr ⟨rfl, by simp [Statement.isCodeless]⟩
  | selectName htask => exact Or.inr ⟨rfl, by simp [Statement.isCodeless]⟩
  | _ => exact Or.inr ⟨rfl, rfl⟩

/-- What does not insert is in time. -/
theorem inTime_of_rows (hrows : (serverStep out σ act).rows = σ.rows) : InTime σ act := by
  intro inserted hinserted
  cases act with
  | execute id =>
      unfold insertion at hinserted
      dsimp only at hinserted
      split at hinserted
      · next query row taken htask =>
        cases hrunning : σ.crashed with
        | true => simp [hrunning] at hinserted
        | false => simp [serverStep, execute, hrunning, htask] at hrows
      · simp at hinserted
  | _ => simp [insertion] at hinserted

/-- An insertion keeps the accounts in order exactly when what the request has
seen still holds. -/
theorem Executes.inOrder_iff {query : AccountQuery} {row : Row} {taken : Option Invitation}
    (h : Executes (.insert id row taken) σ σ') (hchecked : Checked rows₀ σ out)
    (htask : σ.tasks id = some (.accountnewa query (.insert row taken)))
    (horder : AccountsInOrder σ) : AccountsInOrder σ' ↔ StillFree σ id row taken := by
  obtain ⟨hcode, hname⟩ : CodeSeen rows₀ σ id taken ∧ NameSeen σ id row.name :=
    hchecked.seen htask
  have hnames : (σ'.rows.map Row.name).Nodup ↔
      ∀ e ∈ since (.selectName id) σ.executed, ∀ row' ∈ e.added, row'.name ≠ row.name := by
    calc
      (σ'.rows.map Row.name).Nodup ↔ ¬ ∃ row' ∈ σ.rows, row'.name = row.name := by
        rw [h.rows]
        simp [Statement.added, List.nodup_append, horder.1]
      _ ↔ ¬ ∃ e ∈ since (Statement.selectName id) σ.executed,
            ∃ row' ∈ e.added, row'.name = row.name := not_congr hname
      _ ↔ _ := by simp
  have hcount : σ'.executed.countP Statement.isCodeless ≤ 1 ↔
      (taken = none → ∀ e ∈ since (.selectAll id) σ.executed, e.added = none) := by
    rw [h.executed]
    cases taken with
    | some entry => simpa [Statement.isCodeless] using horder.2
    | none =>
        calc
          _ ↔ σ.executed.countP Statement.isCodeless = 0 := by
            rw [List.countP_cons_of_pos rfl, Nat.succ_le_succ_iff, Nat.le_zero]
          _ ↔ σ.rows = [] := by
            rw [hchecked.first]
            simp [hcode.1]
          _ ↔ ¬ ∃ row ∈ σ.rows, True := by cases σ.rows <;> simp
          _ ↔ ¬ ∃ e ∈ since (Statement.selectAll id) σ.executed, ∃ row ∈ e.added, True :=
            not_congr hcode.2
          _ ↔ _ := by simp [Option.eq_none_iff_forall_ne_some]
  rw [AccountsInOrder, StillFree, hnames, hcount]

/-- In every run of the server, whatever the order of its acts: no name stands
in the table twice and at most one row is inserted without a code at every
moment, if and only if every insertion comes in time. -/
theorem accounts_in_order_iff (out : Outside) (rows₀ : List Row) (schedule : List Act)
    (hnames : (rows₀.map Row.name).Nodup) :
    (∀ first, first <+: schedule → AccountsInOrder (serverAfter out rows₀ first)) ↔
    Runs.Steps (serverStep out) InTime (Server.start rows₀) schedule := by
  have hexact : ∀ σ act, Checked rows₀ σ out → AccountsInOrder σ →
      (AccountsInOrder (serverStep out σ act) ↔ InTime σ act) := by
    intro σ act hchecked horder
    rcases (serverStep_move σ act).inserts_or_not with
      ⟨id, query, row, taken, rfl, hrunning, htask, hinserts⟩ | ⟨hrows, hcount⟩
    · rw [hinserts.inOrder_iff hchecked htask horder]
      simp [InTime, insertion, htask, hrunning]
    · refine iff_of_true ?_ (inTime_of_rows hrows)
      rw [AccountsInOrder, hrows, hcount]
      exact horder
  refine Runs.always_iff_steps (fun σ => Checked rows₀ σ out) ?_ hexact ?_ ?_ schedule
  · intro σ act h
    exact h.move (serverStep_move σ act)
  · exact ⟨by simp [Server.start], by simp [Server.start]⟩
  · exact ⟨hnames, by simp [Server.start]⟩

/-- What is random is the same every time here. -/
def noRandom : Random := ⟨units "00000000", 0, 0⟩

/-- What a request does in its turns: its statements are executed one after the
other, each with its callback. -/
def turns (id : Nat) : List (List Act) :=
  [[.accountnewa id ⟨some [0x61], some [0x70], none⟩],
    [.execute id, .callback id noRandom], [.execute id, .callback id noRandom],
    [.execute id, .callback id noRandom], [.execute id]]

/-- Two requests take turns. -/
def racing : List Act := (List.zipWith (· ++ ·) (turns 0) (turns 1)).flatten

/-- The second request comes when the first has been served. -/
def served : List Act := (turns 0).flatten ++ (turns 1).flatten

/-- One request after the other; the second has no code. -/
theorem accounts_in_order_served : AccountsInOrder (serverAfter plain [] served) :=
  (accounts_in_order_iff plain [] served (by simp)).mpr (by decide +kernel) served
    (List.prefix_refl served)

/-- Both requests find that they are the first and that the name is free, and
both insert it. -/
theorem accounts_raced : ¬ ∃ out : Outside,
    ((serverAfter out [] racing).rows.map Row.name).Nodup ∨
    (serverAfter out [] racing).executed.countP Statement.isCodeless ≤ 1 := by
  rintro ⟨out, h⟩
  have hquery : accountQuery ⟨some [0x61], some [0x70], none⟩ = some ⟨[0x61], [0x70], none⟩ := by
    decide +kernel
  simp [serverAfter, racing, turns, Server.start, serverStep, accountnewa, hquery, Server.proceed,
    execute, callback, checkvalidinvite, checkaccount, newRow, List.countP_cons,
    Statement.isCodeless] at h

end CodingLearners.AccountServer
