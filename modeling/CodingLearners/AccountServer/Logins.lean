import CodingLearners.AccountServer.SelectName

/-!
# From the account to the login

Rows are added at the end of the table and never change. So a login that arrives
when the account is there finds it first among the rows of its name, whatever
other requests do in between, and is answered according to its password.
-/

namespace CodingLearners.AccountServer

open Js

variable {σ σ' : Server} {out : Outside} {act : Act} {id : Nat} {name password : JsString}

/-- Rows are only added, at the end. -/
theorem Move.rows_grow (hmove : Move out σ act σ') : σ.rows <+: σ'.rows := by
  cases hmove with
  | insert hrunning htask => exact List.prefix_append _ _
  | _ => exact List.prefix_rfl

/-- A login stays what it is, and finds rows only in the table of the moment. -/
theorem login_step {progress : LoginProgress}
    (htask : σ.tasks id = some (.ucenter name password progress)) (act : Act) :
    ∃ progress', (serverStep out σ act).tasks id = some (.ucenter name password progress') ∧
      (progress' = progress ∨
        ∀ found, progress' = .selectedName found → found = out.select name σ.rows) := by
  by_cases hact : id = act.id
  · subst hact
    unfold serverStep
    split
    · exact ⟨progress, htask, .inl rfl⟩
    · cases act with
      | accountnewa id body =>
          simp only [Act.id] at htask ⊢
          exact ⟨progress, by simp [htask], .inl rfl⟩
      | ucenter id name' password' =>
          simp only [Act.id] at htask ⊢
          exact ⟨progress, by simp [htask], .inl rfl⟩
      | execute id =>
          simp only [Act.id] at htask ⊢
          cases progress with
          | create => exact ⟨.created, by simp [execute, htask, Server.proceed], .inr (by simp)⟩
          | selectName =>
              exact ⟨.selectedName (out.select name σ.rows),
                by simp [execute, htask, Server.proceed], .inr (by simp)⟩
          | created => exact ⟨_, by simp [execute, htask], .inl rfl⟩
          | selectedName rows => exact ⟨_, by simp [execute, htask], .inl rfl⟩
          | ended => exact ⟨_, by simp [execute, htask], .inl rfl⟩
      | callback id random =>
          simp only [Act.id] at htask ⊢
          cases progress with
          | created =>
              exact ⟨.selectName, by simp [callback, htask, Server.proceed], .inr (by simp)⟩
          | selectedName rows =>
              cases rows with
              | none => exact ⟨_, by simp [callback, htask], .inl rfl⟩
              | some rows =>
                  refine ⟨.ended, ?_, .inr (by simp)⟩
                  simp only [callback, htask]
                  split
                  · simp [pushInvites, Server.proceed]
                  · simp [Server.proceed]
          | create => exact ⟨_, by simp [callback, htask], .inl rfl⟩
          | selectName => exact ⟨_, by simp [callback, htask], .inl rfl⟩
          | ended => exact ⟨_, by simp [callback, htask], .inl rfl⟩
  · refine ⟨progress, ?_, .inl rfl⟩
    have hmove : Move out σ act (serverStep out σ act) := serverStep_move σ act
    rcases hmove.next with hsame | ⟨task, -, hsame⟩
    · rw [hsame, htask]
    · rw [hsame, Function.update_of_ne hact, htask]

/-- The rows that a login has found begin with the row of the account. -/
def FindsFirst (row : Row) (name password : JsString) (task : Option Task) : Prop :=
  ∃ progress, task = some (.ucenter name password progress) ∧
    ∀ found, progress = .selectedName found → ∃ rest, found = some (row :: rest)

theorem rowsNamed_first {rows before after : List Row} {row : Row}
    (hrows : before ++ row :: after <+: rows) (hfirst : ∀ other ∈ before, other.name ≠ row.name) :
    ∃ rest, rowsNamed row.name rows = row :: rest := by
  obtain ⟨later, rfl⟩ := hrows
  have hbefore : before.filter (fun other => decide (other.name = row.name)) = [] := by
    rw [List.filter_eq_nil_iff]
    intro other hother
    simpa using hfirst other hother
  refine ⟨rowsNamed row.name (after ++ later), ?_⟩
  rw [rowsNamed, List.append_assoc, List.filter_append, hbefore, List.nil_append, List.cons_append,
    List.filter_cons_of_pos (by simp), rowsNamed]

/-- Whatever happens in between, the login finds the row first. -/
theorem findsFirst_run {row : Row} {before after : List Row}
    (hselect : ∀ rows, out.select name rows = some (rowsNamed row.name rows))
    (hfirst : ∀ other ∈ before, other.name ≠ row.name) (schedule : List Act)
    (hrows : before ++ row :: after <+: σ.rows)
    (h : FindsFirst row name password (σ.tasks id)) :
    FindsFirst row name password ((Runs.run (serverStep out) σ schedule).tasks id) := by
  induction schedule generalizing σ with
  | nil => exact h
  | cons act rest ih =>
      obtain ⟨progress, htask, hfound⟩ := h
      refine ih (hrows.trans (serverStep_move σ act).rows_grow) ?_
      have hlogin : ∃ progress',
          (serverStep out σ act).tasks id = some (.ucenter name password progress') ∧
            (progress' = progress ∨
              ∀ found, progress' = .selectedName found → found = out.select name σ.rows) :=
        login_step htask act
      obtain ⟨progress', htask', hprogress⟩ := hlogin
      refine ⟨progress', htask', ?_⟩
      rcases hprogress with rfl | hselected
      · exact hfound
      · intro found hsome
        obtain ⟨others, hothers⟩ := rowsNamed_first hrows hfirst
        exact ⟨others, by rw [hselected found hsome, hselect, hothers]⟩

theorem crashed_run (schedule : List Act) (h : σ.crashed = true) :
    (Runs.run (serverStep out) σ schedule).crashed = true := by
  refine Runs.run_invariant (fun σ : Server => σ.crashed = true) (fun σ act h => ?_) h schedule
  rw [show serverStep out σ act = σ from if_pos h]
  exact h

/-- The answer to a login that has arrived at a moment with these rows. -/
theorem answer_of_arrival {row : Row} {before after : List Row} {rest : List Act}
    {found : Option (List Row)}
    (hselect : ∀ rows, out.select name rows = some (rowsNamed row.name rows))
    (hfirst : ∀ other ∈ before, other.name ≠ row.name) (hrows : before ++ row :: after <+: σ.rows)
    (hnew : σ.tasks id = none)
    (hrun : σ' = Runs.run (serverStep out) σ (.ucenter id (some name) (some password) :: rest))
    (hrunning : σ'.crashed = false)
    (hwaits : σ'.tasks id = some (.ucenter name password (.selectedName found))) (random : Random) :
    serverStep out σ' (.callback id random) =
      if out.sha256base64 (row.salt ++ units " " ++ password) = row.password then
        pushInvites (σ'.proceed id (.ucenter name password .ended)) random
      else σ'.proceed id (.ucenter name password .ended) := by
  have hup : σ.crashed = false := by
    by_contra hcrashed
    rw [Bool.not_eq_false] at hcrashed
    rw [hrun, crashed_run _ hcrashed] at hrunning
    contradiction
  have harrives : serverStep out σ (.ucenter id (some name) (some password)) =
      σ.proceed id (.ucenter name password .create) := by
    simp [serverStep, hup, hnew, ucenter]
  have hfinds : FindsFirst row name password (σ'.tasks id) := by
    rw [hrun, Runs.run_cons, harrives]
    exact findsFirst_run hselect hfirst rest hrows ⟨.create, by simp [Server.proceed], by simp⟩
  rw [hwaits] at hfinds
  obtain ⟨progress, htask, hfound⟩ := hfinds
  cases htask
  obtain ⟨others, rfl⟩ := hfound found rfl
  simp [serverStep, hrunning, callback, hwaits, rightPassword]

/-- A login for an account that is there when it arrives, the first of its name, is
answered as its password says, in every interleaving, unless another login has ended the
process: it brings two new codes if the digest is the one of the account, and none
otherwise. -/
theorem login_answered (all : FindAll) (hall : SelectsCompared all)
    (sha256base64 : JsString → JsString) (rows₀ : List Row) (first rest : List Act)
    (body : AccountBody) (query : AccountQuery) (hquery : accountQuery body = some query)
    (tsalt : JsString) (before after : List Row)
    (hrows : (serverAfter (outsideOf all sha256base64) rows₀ first).rows =
      before ++ newRow (outsideOf all sha256base64) query tsalt :: after)
    (hfirst : ∀ other ∈ before, other.name ≠ toWellFormed query.name) (id : Nat)
    (hnew : (serverAfter (outsideOf all sha256base64) rows₀ first).tasks id = none)
    (password : JsString) (found : Option (List Row)) (random : Random)
    (hwaits : (serverAfter (outsideOf all sha256base64) rows₀
      (first ++ .ucenter id (some query.name) (some password) :: rest)).tasks id =
        some (.ucenter query.name password (.selectedName found))) :
    let τ := serverAfter (outsideOf all sha256base64) rows₀
      (first ++ .ucenter id (some query.name) (some password) :: rest)
    let ended := τ.proceed id (.ucenter query.name password .ended)
    serverStep (outsideOf all sha256base64) τ (.callback id random) =
      if τ.crashed then τ
      else if sha256base64 (tsalt ++ units " " ++ password) =
          sha256base64 (tsalt ++ units " " ++ query.password) then
        pushInvites ended random
      else ended := by
  intro τ ended
  cases hrunning : τ.crashed with
  | true => exact if_pos hrunning
  | false =>
      rw [if_neg Bool.false_ne_true]
      obtain ⟨hquote, hzero⟩ := accountQuery_name hquery
      set row := newRow (outsideOf all sha256base64) query tsalt
      have hselect : ∀ rows, (outsideOf all sha256base64).select query.name rows =
          some (rowsNamed row.name rows) :=
        fun rows => hall _ _ rows (comparedName_selectStatement hquote hzero)
      exact answer_of_arrival hselect hfirst ⟨[], by rw [hrows, List.append_nil]⟩ hnew
        (Runs.run_append _ _ _ _) hrunning hwaits random

/-- Texts that are their own digests. -/
def plainTexts : Outside := outsideOf comparisonsOnly fun text => text

def noCodes : Random := ⟨units "12345678", 0, 0⟩

/-- The first account is created. -/
def registered : List Act :=
  [.accountnewa 0 ⟨some (units "a"), some (units "p"), none⟩, .execute 0, .callback 0 noCodes,
    .execute 0, .callback 0 noCodes, .execute 0, .callback 0 noCodes, .execute 0]

/-- Its user logs in. -/
def returned : List Act :=
  .ucenter 1 (some (units "a")) (some (units "p")) :: [.execute 1, .callback 1 noCodes, .execute 1]

theorem login_answered_registered :
    serverStep plainTexts (serverAfter plainTexts [] (registered ++ returned))
        (.callback 1 noCodes) =
      pushInvites ((serverAfter plainTexts [] (registered ++ returned)).proceed 1
        (.ucenter (units "a") (units "p") .ended)) noCodes := by
  have hquery : accountQuery ⟨some (units "a"), some (units "p"), none⟩ =
      some ⟨units "a", units "p", none⟩ := by decide +kernel
  have hrows : (serverAfter plainTexts [] registered).rows =
      [] ++ newRow plainTexts ⟨units "a", units "p", none⟩ (units "12345678") :: [] := by
    decide +kernel
  have hrunning : (serverAfter plainTexts [] (registered ++ returned)).crashed = false := by
    decide +kernel
  have hwaits : (serverAfter plainTexts [] (registered ++ returned)).tasks 1 =
      some (.ucenter (units "a") (units "p") (.selectedName (some
        [newRow plainTexts ⟨units "a", units "p", none⟩ (units "12345678")]))) := by
    decide +kernel
  have hnew : (serverAfter plainTexts [] registered).tasks 1 = none := by decide +kernel
  have h := login_answered comparisonsOnly selectsCompared_comparisonsOnly (fun text => text) []
    registered [.execute 1, .callback 1 noCodes, .execute 1] _ _ hquery (units "12345678") [] []
    hrows (by simp) 1 hnew (units "p") _ noCodes hwaits
  exact h.trans ((if_neg (Bool.not_eq_true _ ▸ hrunning)).trans (if_pos rfl))

end CodingLearners.AccountServer
