import CodingLearners.Library.JsString
import CodingLearners.Library.Runs
import Mathlib.Logic.Function.Basic

/-!
# `routes/index.js`

The two routes that work on the accounts. Every SQL statement is executed at
some time after the code has issued it, and its callback runs at some time
after that; in between, other requests may do the same. A request is a task
with its progress, and a schedule is a list of acts: requests arriving,
statements being executed, callbacks being run.

## Implementation notes

The promise steps behind the callback of `checkfuser` run in the same turn of
the event loop as that callback and are one act with it. `CREATE TABLE IF NOT
EXISTS` precedes all other statements of its request, so a missing table is
one without rows. A body field is a string or missing, as the forms send it;
where the code throws on a missing one, the request has no effect. What is
done outside the code is given by `Outside`.
-/

namespace CodingLearners.AccountServer

open Js

/-- A row of `resttestab1`. -/
structure Row where
  name : JsString
  password : JsString
  salt : JsString
  deriving DecidableEq

/-- What `sqlite3` and `crypto` compute: the text that is stored for a string,
the digest of a text, and the rows that the login's query finds for a name,
which is put into the query as it is; `none` is an error. -/
structure Outside where
  stored : JsString → JsString
  sha256base64 : JsString → JsString
  select : JsString → List Row → Option (List Row)

/-- Texts that `sqlite3` stores as they are, names without a quote, and
`00000000 p` as the only text that is digested. -/
def plain : Outside where
  stored text := text
  sha256base64 _ := units "BCB6+2XJgCr1+6p4rbEvcVJoZDeZ1euIBeMsb0f3iXc="
  select name rows := some (rows.filter fun row => decide (row.name = name))

/-- A code in `iauthdepot`, numbered in the order of the pushes. -/
structure Invitation where
  serial : Nat
  code : JsString
  deriving DecidableEq

/-- The body of `POST /accountnewa`. -/
structure AccountBody where
  name : Option JsString
  password : Option JsString
  invitatecode : Option JsString
  deriving DecidableEq

/-- `query_doc` of `POST /accountnewa`. -/
structure AccountQuery where
  name : JsString
  password : JsString
  invitate : Option JsString
  deriving DecidableEq

/-- How far a request of `POST /accountnewa` has got: a statement is waiting to
be executed, or has been executed and its callback has not run, or the request
has ended; `taken` is what `iauthdepot.splice` has taken out for it. -/
inductive AccountProgress
  | create
  | created
  | selectAll
  | selectedAll (isFirstAccount : Bool)
  | selectName (taken : Option Invitation)
  | selectedName (found : Bool) (taken : Option Invitation)
  | insert (row : Row) (taken : Option Invitation)
  | inserted (taken : Option Invitation)
  | refused (taken : Option Invitation)
  deriving DecidableEq

/-- How far a request of `POST /ucenter` has got. -/
inductive LoginProgress
  | create
  | created
  | selectName
  | selectedName (rows : Option (List Row))
  | ended
  deriving DecidableEq

/-- A request. -/
inductive Task
  | accountnewa (query : AccountQuery) (progress : AccountProgress)
  | ucenter (name password : JsString) (progress : LoginProgress)
  deriving DecidableEq

/-- A statement on the accounts that has been executed for a request; with an
insertion stands the code that the request has taken. -/
inductive Statement
  | selectAll (id : Nat)
  | selectName (id : Nat)
  | insert (id : Nat) (row : Row) (taken : Option Invitation)
  deriving DecidableEq

/-- The database, the memory of the process, and the statements executed so
far, the latest first. -/
structure Server where
  rows : List Row
  iauthdepot : List Invitation
  pushed : Nat
  tasks : Nat → Option Task
  crashed : Bool
  executed : List Statement

/-- The server after its start, with what the database file holds. -/
def Server.start (rows : List Row) : Server := ⟨rows, [], 0, fun _ => none, false, []⟩

/-- What `crypto.randomBytes` yields in a callback. -/
structure Random where
  tsalt : JsString
  ss1 : Nat
  ss2 : Nat

/-- The next thing to happen; requests are told apart by their `id`. -/
inductive Act
  | accountnewa (id : Nat) (body : AccountBody)
  | ucenter (id : Nat) (name password : Option JsString)
  | execute (id : Nat)
  | callback (id : Nat) (random : Random)

/-- The request that an act is about. -/
def Act.id : Act → Nat
  | .accountnewa id _ => id
  | .ucenter id _ _ => id
  | .execute id => id
  | .callback id _ => id

/-! ## Checks and codes -/

/-- The loop of `randInvite6Create`. -/
def inviteChars : Nat → Nat → JsString → JsString
  | 0, _, _ => []
  | i + 1, ss, possible =>
      let range := possible.length
      let ind := ss % range
      possible[ind]?.toList ++ inviteChars i (ss / range) (possible.eraseIdx ind)

/-- `randInvite6Create`, from the number that `readUInt32BE` reads. -/
def randInvite6Create (ss : Nat) : JsString := inviteChars 6 ss (units "ADEGHNQRTYadehnty3457")

/-- `invalstr` -/
def invalstr : JsString :=
  [0x0a, 0x0d, 0x20, 0x23, 0x2b, 0x5c, 0x5f, 0x25, 0x3b, 0x27, 0x22, 0x28, 0x29, 0x2c, 0x00]

def isValidUsrName (name : JsString) : Bool :=
  name.length != 0 && name.length ≤ 64 && name.all fun ucode =>
    !(invalstr.contains ucode) && !(ucode ≤ 0x1f) && !(0x7f ≤ ucode && ucode ≤ 0x9f)

def isValidPasswd (passwd : JsString) : Bool := passwd.length != 0 && passwd.length ≤ 64

/-- The checks before the first statement. -/
def accountQuery (body : AccountBody) : Option AccountQuery :=
  match body.name, body.password with
  | some name, some password =>
      if isValidUsrName name = true ∧ isValidPasswd password = true then
        some ⟨name, password, body.invitatecode⟩
      else none
  | _, _ => none

/-! ## The steps of a request -/

/-- A request with its new progress. -/
def Server.proceed (σ : Server) (id : Nat) (task : Task) : Server :=
  { σ with tasks := Function.update σ.tasks id (some task) }

/-- `POST /accountnewa` up to its first statement. -/
def accountnewa (σ : Server) (id : Nat) (body : AccountBody) : Server :=
  match accountQuery body with
  | some query => σ.proceed id (.accountnewa query .create)
  | none => σ.proceed id (.accountnewa ⟨[], [], none⟩ (.refused none))

/-- `POST /ucenter` up to its first statement; the missing password is the text
`undefined` of the digest. -/
def ucenter (σ : Server) (id : Nat) (name password : Option JsString) : Server :=
  match name with
  | some name => σ.proceed id (.ucenter name (password.getD (units "undefined")) .create)
  | none => σ.proceed id (.ucenter [] [] .ended)

variable (out : Outside)

/-- The row that `stmt.run` is given. -/
def newRow (query : AccountQuery) (tsalt : JsString) : Row :=
  { name := out.stored query.name
    password := out.sha256base64 (tsalt ++ units " " ++ query.password)
    salt := tsalt }

/-- The execution of the statement for which a request waits. -/
def execute (σ : Server) (id : Nat) : Server :=
  match σ.tasks id with
  | some (.accountnewa query .create) => σ.proceed id (.accountnewa query .created)
  | some (.accountnewa query .selectAll) =>
      { σ.proceed id (.accountnewa query (.selectedAll σ.rows.isEmpty)) with
        executed := .selectAll id :: σ.executed }
  | some (.accountnewa query (.selectName taken)) =>
      let found := σ.rows.any fun row => decide (row.name = out.stored query.name)
      { σ.proceed id (.accountnewa query (.selectedName found taken)) with
        executed := .selectName id :: σ.executed }
  | some (.accountnewa query (.insert row taken)) =>
      { σ.proceed id (.accountnewa query (.inserted taken)) with
        rows := σ.rows ++ [row]
        executed := .insert id row taken :: σ.executed }
  | some (.ucenter name password .create) => σ.proceed id (.ucenter name password .created)
  | some (.ucenter name password .selectName) =>
      σ.proceed id (.ucenter name password (.selectedName (out.select name σ.rows)))
  | _ => σ

/-- `checkvalidinvite`, with `checkaccount` behind it. -/
def checkvalidinvite (σ : Server) (id : Nat) (query : AccountQuery) (isFirstAccount : Bool) :
    Server :=
  if isFirstAccount then σ.proceed id (.accountnewa query (.selectName none))
  else
    match σ.iauthdepot.find? fun entry => decide (query.invitate = some entry.code) with
    | some entry =>
        { σ.proceed id (.accountnewa query (.selectName (some entry))) with
          iauthdepot := σ.iauthdepot.eraseP fun entry =>
            decide (query.invitate = some entry.code) }
    | none => σ.proceed id (.accountnewa query (.refused none))

/-- The callback of the query in `checkaccount`. -/
def checkaccount (σ : Server) (id : Nat) (query : AccountQuery) (found : Bool)
    (taken : Option Invitation) (tsalt : JsString) : Server :=
  if found then σ.proceed id (.accountnewa query (.refused taken))
  else σ.proceed id (.accountnewa query (.insert (newRow out query tsalt) taken))

/-- `iauthdepot.push(invite1, invite2)`, with the two shifts before it. -/
def pushInvites (σ : Server) (random : Random) : Server :=
  let depot := if σ.iauthdepot.length > 10 then σ.iauthdepot.drop 2 else σ.iauthdepot
  { σ with
    iauthdepot := depot ++ [⟨σ.pushed, randInvite6Create random.ss1⟩,
      ⟨σ.pushed + 1, randInvite6Create random.ss2⟩]
    pushed := σ.pushed + 2 }

/-- The password of a login is right. -/
def rightPassword (rows : List Row) (password : JsString) : Bool :=
  match rows with
  | row :: _ => decide (out.sha256base64 (row.salt ++ units " " ++ password) = row.password)
  | [] => false

/-- The callback of the last statement that was executed for a request. Reading
`rows.length` after an error ends the process. -/
def callback (σ : Server) (id : Nat) (random : Random) : Server :=
  match σ.tasks id with
  | some (.accountnewa query .created) => σ.proceed id (.accountnewa query .selectAll)
  | some (.accountnewa query (.selectedAll isFirstAccount)) =>
      checkvalidinvite σ id query isFirstAccount
  | some (.accountnewa query (.selectedName found taken)) =>
      checkaccount out σ id query found taken random.tsalt
  | some (.ucenter name password .created) => σ.proceed id (.ucenter name password .selectName)
  | some (.ucenter name password (.selectedName rows)) =>
      match rows with
      | none => { σ with crashed := true }
      | some rows =>
          let σ := σ.proceed id (.ucenter name password .ended)
          if rightPassword out rows password then pushInvites σ random else σ
  | _ => σ

/-- One act. A request that is already known does not arrive again. -/
def serverStep (σ : Server) (act : Act) : Server :=
  if σ.crashed then σ
  else
    match act with
    | .accountnewa id body => if (σ.tasks id).isSome then σ else accountnewa σ id body
    | .ucenter id name password => if (σ.tasks id).isSome then σ else ucenter σ id name password
    | .execute id => execute out σ id
    | .callback id random => callback out σ id random

/-- The server after a schedule. -/
def serverAfter (rows : List Row) (schedule : List Act) : Server :=
  Runs.run (serverStep out) (Server.start rows) schedule

/-! ## What an act can do -/

/-- A request that has just arrived: it waits for its first statement, or has
been refused without one. -/
inductive Arrived : Task → Prop
  | account (query : AccountQuery) : Arrived (.accountnewa query .create)
  | refused (query : AccountQuery) : Arrived (.accountnewa query (.refused none))
  | login (name password : JsString) (progress : LoginProgress) :
      Arrived (.ucenter name password progress)

/-- The moves of the server. -/
inductive Move (σ : Server) : Act → Server → Prop
  | stay (act : Act) : Move σ act σ
  | arrive {act : Act} {id : Nat} {task : Task} (hact : act.id = id) (hnew : σ.tasks id = none)
      (harrived : Arrived task) : Move σ act (σ.proceed id task)
  | create {id : Nat} {query : AccountQuery}
      (htask : σ.tasks id = some (.accountnewa query .create)) :
      Move σ (.execute id) (σ.proceed id (.accountnewa query .created))
  | selectAll {id : Nat} {query : AccountQuery}
      (htask : σ.tasks id = some (.accountnewa query .selectAll)) :
      Move σ (.execute id)
        { σ.proceed id (.accountnewa query (.selectedAll σ.rows.isEmpty)) with
          executed := .selectAll id :: σ.executed }
  | selectName {id : Nat} {query : AccountQuery} {taken : Option Invitation}
      (htask : σ.tasks id = some (.accountnewa query (.selectName taken))) :
      Move σ (.execute id)
        { σ.proceed id (.accountnewa query (.selectedName
            (σ.rows.any fun row => decide (row.name = out.stored query.name)) taken)) with
          executed := .selectName id :: σ.executed }
  | insert {id : Nat} {query : AccountQuery} {row : Row} {taken : Option Invitation}
      (hrunning : σ.crashed = false)
      (htask : σ.tasks id = some (.accountnewa query (.insert row taken))) :
      Move σ (.execute id)
        { σ.proceed id (.accountnewa query (.inserted taken)) with
          rows := σ.rows ++ [row]
          executed := .insert id row taken :: σ.executed }
  | checkfuser {id : Nat} {random : Random} {query : AccountQuery}
      (htask : σ.tasks id = some (.accountnewa query .created)) :
      Move σ (.callback id random) (σ.proceed id (.accountnewa query .selectAll))
  | firstAccount {id : Nat} {random : Random} {query : AccountQuery}
      (htask : σ.tasks id = some (.accountnewa query (.selectedAll true))) :
      Move σ (.callback id random) (σ.proceed id (.accountnewa query (.selectName none)))
  | take {id : Nat} {random : Random} {query : AccountQuery}
      {before after : List Invitation} {entry : Invitation}
      (htask : σ.tasks id = some (.accountnewa query (.selectedAll false)))
      (hdepot : σ.iauthdepot = before ++ entry :: after) :
      Move σ (.callback id random)
        { σ.proceed id (.accountnewa query (.selectName (some entry))) with
          iauthdepot := before ++ after }
  | refuseCode {id : Nat} {random : Random} {query : AccountQuery}
      (htask : σ.tasks id = some (.accountnewa query (.selectedAll false))) :
      Move σ (.callback id random) (σ.proceed id (.accountnewa query (.refused none)))
  | refuseName {id : Nat} {random : Random} {query : AccountQuery} {taken : Option Invitation}
      (hrunning : σ.crashed = false)
      (htask : σ.tasks id = some (.accountnewa query (.selectedName true taken))) :
      Move σ (.callback id random) (σ.proceed id (.accountnewa query (.refused taken)))
  | accept {id : Nat} {random : Random} {query : AccountQuery} {taken : Option Invitation}
      (htask : σ.tasks id = some (.accountnewa query (.selectedName false taken))) :
      Move σ (.callback id random) (σ.proceed id
        (.accountnewa query (.insert (newRow out query random.tsalt) taken)))
  | login {act : Act} {id : Nat} {name password : JsString} {progress progress' : LoginProgress}
      (hact : act.id = id) (htask : σ.tasks id = some (.ucenter name password progress)) :
      Move σ act (σ.proceed id (.ucenter name password progress'))
  | welcome {id : Nat} {random : Random} {name password : JsString} {rows : List Row}
      (htask : σ.tasks id = some (.ucenter name password (.selectedName (some rows)))) :
      Move σ (.callback id random)
        (pushInvites (σ.proceed id (.ucenter name password .ended)) random)
  | crash {id : Nat} {random : Random} {name password : JsString}
      (htask : σ.tasks id = some (.ucenter name password (.selectedName none))) :
      Move σ (.callback id random) { σ with crashed := true }

variable {out}

theorem checkvalidinvite_move {σ : Server} {id : Nat} {random : Random} {query : AccountQuery}
    {isFirstAccount : Bool}
    (htask : σ.tasks id = some (.accountnewa query (.selectedAll isFirstAccount))) :
    Move out σ (.callback id random) (checkvalidinvite σ id query isFirstAccount) := by
  unfold checkvalidinvite
  cases isFirstAccount with
  | true => exact Move.firstAccount htask
  | false =>
      simp only [Bool.false_eq_true, if_false]
      cases hfind : σ.iauthdepot.find? fun entry => decide (query.invitate = some entry.code) with
      | none => exact Move.refuseCode htask
      | some entry =>
          obtain ⟨hcode, before, after, hdepot, hbefore⟩ := List.find?_eq_some_iff_append.mp hfind
          have herase : σ.iauthdepot.eraseP
              (fun entry => decide (query.invitate = some entry.code)) = before ++ after := by
            rw [hdepot, List.eraseP_append_right _ (fun e he => by simpa using hbefore e he)]
            simp only [List.eraseP_cons, hcode, cond_true]
          simp only [herase]
          exact Move.take htask hdepot

/-- Every act makes one of the moves. -/
theorem serverStep_move (σ : Server) (act : Act) : Move out σ act (serverStep out σ act) := by
  unfold serverStep
  cases hrunning : σ.crashed with
  | true => exact Move.stay act
  | false =>
      simp only [Bool.false_eq_true, if_false]
      cases act with
      | accountnewa id body =>
          dsimp only
          split
          · exact Move.stay _
          · next hnew =>
            have hnone : σ.tasks id = none := by simpa using hnew
            unfold accountnewa
            split
            · exact Move.arrive rfl hnone (Arrived.account _)
            · exact Move.arrive rfl hnone (Arrived.refused _)
      | ucenter id name password =>
          dsimp only
          split
          · exact Move.stay _
          · next hnew =>
            have hnone : σ.tasks id = none := by simpa using hnew
            unfold ucenter
            split
            · exact Move.arrive rfl hnone (Arrived.login _ _ _)
            · exact Move.arrive rfl hnone (Arrived.login _ _ _)
      | execute id =>
          dsimp only
          unfold execute
          split
          · next htask => exact Move.create htask
          · next htask => exact Move.selectAll htask
          · next htask => exact Move.selectName htask
          · next htask => exact Move.insert hrunning htask
          · next htask => exact Move.login rfl htask
          · next htask => exact Move.login rfl htask
          · exact Move.stay _
      | callback id random =>
          dsimp only
          unfold callback
          split
          · next htask => exact Move.checkfuser htask
          · next htask => exact checkvalidinvite_move htask
          · next htask =>
            unfold checkaccount
            split
            · next hfound => exact Move.refuseName hrunning (hfound ▸ htask)
            · next hfound =>
              rw [Bool.not_eq_true] at hfound
              exact Move.accept (hfound ▸ htask)
          · next htask => exact Move.login rfl htask
          · next htask =>
            split
            · exact Move.crash htask
            · next rows =>
              dsimp only
              split
              · exact Move.welcome htask
              · exact Move.login rfl htask
          · exact Move.stay _

/-- How a request proceeds. -/
inductive Next : Option Task → Task → Prop
  | arrive {task : Task} (harrived : Arrived task) : Next none task
  | create (query : AccountQuery) :
      Next (some (.accountnewa query .create)) (.accountnewa query .created)
  | checkfuser (query : AccountQuery) :
      Next (some (.accountnewa query .created)) (.accountnewa query .selectAll)
  | selectAll (query : AccountQuery) (isFirstAccount : Bool) :
      Next (some (.accountnewa query .selectAll)) (.accountnewa query (.selectedAll isFirstAccount))
  | checkvalidinvite (query : AccountQuery) (isFirstAccount : Bool) (taken : Option Invitation) :
      Next (some (.accountnewa query (.selectedAll isFirstAccount)))
        (.accountnewa query (.selectName taken))
  | refuseCode (query : AccountQuery) :
      Next (some (.accountnewa query (.selectedAll false))) (.accountnewa query (.refused none))
  | selectName (query : AccountQuery) (found : Bool) (taken : Option Invitation) :
      Next (some (.accountnewa query (.selectName taken)))
        (.accountnewa query (.selectedName found taken))
  | refuseName (query : AccountQuery) (taken : Option Invitation) :
      Next (some (.accountnewa query (.selectedName true taken)))
        (.accountnewa query (.refused taken))
  | accept (query : AccountQuery) (row : Row) (taken : Option Invitation) :
      Next (some (.accountnewa query (.selectedName false taken)))
        (.accountnewa query (.insert row taken))
  | insert (query : AccountQuery) (row : Row) (taken : Option Invitation) :
      Next (some (.accountnewa query (.insert row taken))) (.accountnewa query (.inserted taken))
  | login (name password : JsString) (progress progress' : LoginProgress) :
      Next (some (.ucenter name password progress)) (.ucenter name password progress')

/-- An act lets its request proceed and leaves the others where they are. -/
theorem Move.next {σ σ' : Server} {act : Act} (hmove : Move out σ act σ') :
    σ'.tasks = σ.tasks ∨ ∃ task, Next (σ.tasks act.id) task ∧
      σ'.tasks = Function.update σ.tasks act.id (some task) := by
  cases hmove with
  | stay => exact Or.inl rfl
  | arrive hact hnew harrived =>
      subst hact
      exact Or.inr ⟨_, hnew ▸ Next.arrive harrived, rfl⟩
  | create htask => exact Or.inr ⟨_, htask ▸ Next.create _, rfl⟩
  | selectAll htask => exact Or.inr ⟨_, htask ▸ Next.selectAll _ _, rfl⟩
  | selectName htask => exact Or.inr ⟨_, htask ▸ Next.selectName _ _ _, rfl⟩
  | insert hrunning htask => exact Or.inr ⟨_, htask ▸ Next.insert _ _ _, rfl⟩
  | checkfuser htask => exact Or.inr ⟨_, htask ▸ Next.checkfuser _, rfl⟩
  | firstAccount htask => exact Or.inr ⟨_, htask ▸ Next.checkvalidinvite _ _ _, rfl⟩
  | take htask hdepot => exact Or.inr ⟨_, htask ▸ Next.checkvalidinvite _ _ _, rfl⟩
  | refuseCode htask => exact Or.inr ⟨_, htask ▸ Next.refuseCode _, rfl⟩
  | refuseName hrunning htask => exact Or.inr ⟨_, htask ▸ Next.refuseName _ _, rfl⟩
  | accept htask => exact Or.inr ⟨_, htask ▸ Next.accept _ _ _, rfl⟩
  | login hact htask =>
      subst hact
      exact Or.inr ⟨_, htask ▸ Next.login _ _ _ _, rfl⟩
  | welcome htask => exact Or.inr ⟨_, htask ▸ Next.login _ _ _ _, rfl⟩
  | crash htask => exact Or.inl rfl

/-- What holds of the request before an act and survives its progress holds of
it afterwards. -/
theorem Move.keeps {σ σ' : Server} {act : Act} {P : Option Task → Prop}
    (hmove : Move out σ act σ') (hnext : ∀ {task task'}, Next task task' → P task → P (some task'))
    {id : Nat} (h : P (σ.tasks id)) : P (σ'.tasks id) := by
  rcases hmove.next with hsame | ⟨task', htask', hsome⟩
  · rwa [hsame]
  · rw [hsome]
    by_cases heq : id = act.id
    · subst heq
      rw [Function.update_self]
      exact hnext htask' h
    · rwa [Function.update_of_ne heq]

end CodingLearners.AccountServer
