import CodingLearners.TtApp.Sessions

/-!
# The end of a session, and of an account

A logout revokes the refresh token. The access tokens that came with it or from it are
not revoked, but they live for fifteen minutes only, and there will be no others. A
deleted account takes its tokens with it as long as its number is not given again.
-/

namespace CodingLearners.TtApp

variable {jwt : JwtManager} {pwd : CryptContext} {users : List User}

/-! ## Logout -/

/-- The answer carries the access token `p`, together with the refresh token `r` or
in exchange for it. -/
def Continues (pwd : CryptContext) (r p : Claims) (s : Server jwt) (e : Event jwt) : Prop :=
  (handle pwd s e).2 = some (.tokens (jwt.encode p) (jwt.encode r)) ∨
    ∃ user, e.working s = some (.request .refresh r user) ∧
      (handle pwd s e).2 = some (.accessToken (jwt.encode p))

/-- `p` is an access token of the session of `r`. -/
def InSession (pwd : CryptContext) (users : List User) (events : List (Event jwt))
    (r p : Claims) : Prop :=
  Runs.Occurs (serverStep pwd) (Continues pwd r p) (start jwt users) events

section Answers

variable {s : Server jwt} {e : Event jwt}

theorem addTokenToDatabase_new (hlawful : jwt.Lawful) {db db' : Database} {now : Nat}
    {claims : Claims} (h : addTokenToDatabase jwt db now (jwt.encode claims) = some db') :
    claims.jti ∉ db.tokens.map TokenBlocklist.jti ∧
      db' = { db with tokens := db.tokens ++ [claims.row false] } := by
  rw [addTokenToDatabase, decodeToken_encode hlawful] at h
  split at h
  · contradiction
  · next decoded hdecoded =>
    split at hdecoded
    · cases hdecoded
      split at h
      · contradiction
      · next hnew =>
          exact ⟨fun htaken => hnew (jtiTaken_iff.mpr htaken), (Option.some_inj.mp h).symm⟩
    · contradiction

/-- Only a login and a refresh hand out tokens. -/
theorem work_handed (db : Database) (now : Nat) (random : Random) {task : Task}
    (hlogin : ∀ identity, task ≠ .login identity)
    (hrefresh : ∀ current user, task ≠ .request .refresh current user) :
    (work jwt pwd db now random task).2.handed = [] := by
  have hrevoke : ∀ current, (revoke jwt db current).2.handed = [] := by
    intro current
    unfold revoke
    split <;> rfl
  cases task with
  | login identity => exact absurd rfl (hlogin identity)
  | request endpoint current user =>
      cases endpoint with
      | refresh => exact absurd rfl (hrefresh current user)
      | revokeAccessToken => exact hrevoke current
      | revokeRefreshToken => exact hrevoke current
      | getUser userId => exact getUser_handed user userId
      | putUser userId json =>
          obtain ⟨_, _, hput, hnone, -⟩ :=
            putUser_moved jwt pwd db random.salt user userId json (.login 0)
          rw [work, hput]
          exact hnone
      | deleteUser userId =>
          obtain ⟨_, _, hdelete, hnone, -⟩ := deleteUser_moved jwt db userId current user
          rw [work, hdelete]
          exact hnone
      | postUser json =>
          obtain ⟨_, _, hpost, hnone, -⟩ := postUser_moved jwt pwd db random.salt json (.login 0)
          rw [work, hpost]
          exact hnone

/-- What an answer with tokens is an answer to. -/
theorem handle_handed {response : Response jwt} (h : (handle pwd s e).2 = some response)
    (hhanded : response.handed ≠ []) :
    ∃ id now random task, e = .proceed id now random ∧ s.tasks id = some task ∧
      (work jwt pwd s.db now random task).2 = response ∧
      ((∃ identity, task = .login identity) ∨
        ∃ current user, task = .request .refresh current user) := by
  cases e with
  | login id now isJson username password =>
      exfalso
      revert h
      simp only [handle]
      split
      · simp
      split
      · rintro ⟨⟩
        exact hhanded rfl
      split
      · rintro ⟨⟩
        exact hhanded rfl
      split
      · rintro ⟨⟩
        exact hhanded rfl
      · simp
  | request id now endpoint token =>
      exfalso
      revert h
      simp only [handle]
      split
      · simp
      split
      · rintro ⟨⟩
        exact hhanded rfl
      · simp
  | proceed id now random =>
      cases htask : s.tasks id with
      | none => simp [handle, htask] at h
      | some task =>
          have hwork : (work jwt pwd s.db now random task).2 = response := by
            simpa [handle, htask] using h
          refine ⟨id, now, random, task, rfl, htask, hwork, ?_⟩
          by_contra hneither
          rw [not_or, not_exists, not_exists] at hneither
          refine hhanded (hwork ▸ work_handed s.db now random hneither.1 fun current user => ?_)
          exact fun htask => hneither.2 current ⟨user, htask⟩

/-- A login that brings two tokens. -/
theorem handle_tokens (hlawful : jwt.Lawful) {p r : Claims}
    (h : (handle pwd s e).2 = some (.tokens (jwt.encode p) (jwt.encode r))) :
    p.exp = e.now + accessTokenExpires ∧ r.jti ∉ s.db.tokens.map TokenBlocklist.jti ∧
      ∃ id now random identity,
        e = .proceed id now random ∧ s.tasks id = some (.login identity) := by
  obtain ⟨id, now, random, task, rfl, htask, hwork, hkind⟩ :=
    handle_handed h (by simp [Response.handed])
  rcases hkind with ⟨identity, rfl⟩ | ⟨current, user, rfl⟩
  · simp only [work, login] at hwork
    split at hwork
    · contradiction
    · next db hadd =>
      split at hwork
      · contradiction
      · next db' hadd' =>
        obtain ⟨-, rfl⟩ := addTokenToDatabase_new hlawful hadd
        obtain ⟨hnew, -⟩ := addTokenToDatabase_new hlawful hadd'
        rw [Response.tokens.injEq] at hwork
        rw [← encode_injective hlawful hwork.1, ← encode_injective hlawful hwork.2]
        refine ⟨rfl, ?_, id, now, random, identity, rfl, htask⟩
        intro hold
        exact hnew (by simpa using Or.inl (by simpa using hold))
  · simp only [work, refresh] at hwork
    split at hwork <;> contradiction

/-- A refresh that brings a token. -/
theorem handle_accessToken (hlawful : jwt.Lawful) {p : Claims}
    (h : (handle pwd s e).2 = some (.accessToken (jwt.encode p))) :
    p.exp = e.now + accessTokenExpires := by
  obtain ⟨id, now, random, task, rfl, htask, hwork, hkind⟩ :=
    handle_handed h (by simp [Response.handed])
  rcases hkind with ⟨identity, rfl⟩ | ⟨current, user, rfl⟩
  · simp only [work, login] at hwork
    split at hwork
    · contradiction
    · split at hwork <;> contradiction
  · simp only [work, refresh] at hwork
    split at hwork
    · contradiction
    · rw [Response.accessToken.injEq] at hwork
      rw [← encode_injective hlawful hwork]
      rfl

end Answers

section Logout

variable {first rest : List (Event jwt)} {id now : Nat} {random : Random} {r : Claims} {user : User}

/-- After a refresh token was revoked, no request to use it is under way. -/
theorem no_refresh_after (hlawful : jwt.Lawful)
    (hunforged : Runs.Steps (serverStep pwd) Unforged (start jwt users)
      (first ++ .proceed id now random :: rest))
    (htask : (serverAfter pwd users first).tasks id = some (.request .revokeRefreshToken r user))
    (hidle : ∀ other user, (serverAfter pwd users first).tasks other ≠
      some (.request .refresh r user)) :
    ∀ other user, (serverAfter pwd users (first ++ .proceed id now random :: rest)).tasks other ≠
      some (.request .refresh r user) := by
  induction rest using List.reverseRecOn with
  | nil =>
      intro other user' hother
      rw [serverAfter_concat] at hother
      simp only [serverStep, handle, htask] at hother
      rcases of_update hother with hnone | hother
      · contradiction
      · exact hidle other user' hother
  | append_singleton rest e ih =>
      rw [← List.cons_append, ← List.append_assoc] at hunforged ⊢
      obtain ⟨hpast, hlast, -⟩ := (Runs.steps_append _ _ _ _ _).mp hunforged
      have hno := ih hpast
      have h := kept_serverAfter hlawful hpast
      set past := first ++ .proceed id now random :: rest with hpasteq
      have hrevoked : RevokedIn pwd users past r := by
        rw [hpasteq, RevokedIn, Runs.occurs_append, Runs.occurs_cons]
        exact .inr (.inl ⟨.revokeRefreshToken, user, htask, rfl⟩)
      intro other user' hother
      rw [serverAfter_concat] at hother
      have hmoved := serverStep_moved hlawful pwd (serverAfter pwd users past) e
      generalize serverStep pwd (serverAfter pwd users past) e = next at hmoved hother
      cases hmoved with
      | stay e hworking => exact hno other user' hother
      | check id' now' endpoint token current user'' hchecked =>
          rcases of_update hother with hnew | hother
          · cases hnew
            have hmem := handed_of_checked hlast h.encoded hlawful hchecked
            obtain ⟨-, -, -, hlive, -⟩ := jwtRequired_eq_some_iff.mp hchecked
            rw [(h.isTokenRevoked_iff hlawful hmem).mpr hrevoked] at hlive
            contradiction
          · exact hno other user' hother
      | login id' now' username password user'' hright =>
          rcases of_update hother with hnew | hother
          · cases hnew
          · exact hno other user' hother
      | _ =>
          rcases of_update hother with hnew | hother
          · contradiction
          · exact hno other user' hother

/-- A token that has been handed out stays so. -/
theorem handed_step (hlawful : jwt.Lawful) {s : Server jwt} {e : Event jwt} {token : jwt.Token}
    (h : token ∈ s.handed) : token ∈ (serverStep pwd s e).handed := by
  have hmoved := serverStep_moved hlawful pwd s e
  generalize serverStep pwd s e = next at hmoved
  cases hmoved with
  | loggedIn id now random identity htask hnew hnew' hne => exact List.mem_append_left _ h
  | refreshed id now random current user htask hnew => exact List.mem_append_left _ h
  | _ => exact h

/-- A token that has been revoked passes no check again. -/
theorem refused_after_revocation (hlawful : jwt.Lawful) {first rest : List (Event jwt)}
    {id now : Nat} {random : Random} {r : Claims} {user : User}
    (hunforged : Runs.Steps (serverStep pwd) Unforged (start jwt users)
      (first ++ .proceed id now random :: rest))
    (htask : (serverAfter pwd users first).tasks id = some (.request .revokeRefreshToken r user))
    (later : Nat) (refresh : Bool) :
    jwtRequired jwt (serverAfter pwd users (first ++ .proceed id now random :: rest)).db later
      refresh (jwt.encode r) = none := by
  have h := kept_serverAfter hlawful hunforged
  have hrevoked : RevokedIn pwd users (first ++ .proceed id now random :: rest) r := by
    rw [RevokedIn, Runs.occurs_append, Runs.occurs_cons]
    exact .inr (.inl ⟨.revokeRefreshToken, user, htask, rfl⟩)
  have hgiven : jwt.encode r ∈
      (serverAfter pwd users (first ++ .proceed id now random :: rest)).handed := by
    obtain ⟨hfirst, -⟩ := (Runs.steps_append _ _ _ _ _).mp hunforged
    rw [serverAfter, Runs.run_append]
    exact Runs.run_invariant (fun s : Server jwt => jwt.encode r ∈ s.handed)
      (fun _ _ h => handed_step hlawful h)
      ((kept_serverAfter hlawful hfirst).checked id _ r user htask) _
  rw [Option.eq_none_iff_forall_ne_some]
  rintro ⟨current, found⟩ hchecked
  obtain ⟨hdecode, -, -, hlive, -⟩ := jwtRequired_eq_some_iff.mp hchecked
  rw [hlawful, Option.some.injEq] at hdecode
  subst hdecode
  rw [(h.isTokenRevoked_iff hlawful hgiven).mpr hrevoked] at hlive
  contradiction

/-- The time of an event before the last one. -/
theorem now_le_of_pairwise {past last : List (Event jwt)} {e e' : Event jwt}
    (hclock : ((past ++ e' :: last).map Event.now).Pairwise (· ≤ ·)) (he : e ∈ past) :
    e.now ≤ e'.now := by
  rw [List.map_append, List.pairwise_append] at hclock
  exact hclock.2.2 _ (List.mem_map_of_mem he) _ (List.mem_map_of_mem List.mem_cons_self)

/-- The tokens of a session are from before its revocation. -/
theorem InSession.before {p : Claims}
    (h : InSession pwd users (first ++ .proceed id now random :: rest) r p)
    (hlawful : jwt.Lawful)
    (hunforged : Runs.Steps (serverStep pwd) Unforged (start jwt users)
      (first ++ .proceed id now random :: rest))
    (htask : (serverAfter pwd users first).tasks id = some (.request .revokeRefreshToken r user))
    (hidle : ∀ other user, (serverAfter pwd users first).tasks other ≠
      some (.request .refresh r user)) :
    InSession pwd users first r p := by
  rw [InSession, Runs.occurs_append, Runs.occurs_cons] at h
  rcases h with hfirst | hlogout | hrest
  · exact hfirst
  · exfalso
    rcases hlogout with htokens | ⟨user', hworking, -⟩
    · obtain ⟨-, -, id', now', random', identity, heq, hlogin⟩ := handle_tokens hlawful htokens
      cases heq
      cases htask.symm.trans hlogin
    · cases htask.symm.trans hworking
  · exfalso
    obtain ⟨middle, e, last, rfl, hcontinues⟩ := hrest.exists
    have hsplit : first ++ .proceed id now random :: (middle ++ e :: last) =
        (first ++ .proceed id now random :: middle) ++ e :: last := by simp
    rw [hsplit] at hunforged
    obtain ⟨hpast, -⟩ := (Runs.steps_append _ _ _ _ _).mp hunforged
    have hstate : Runs.run (serverStep pwd) (serverStep pwd
        (Runs.run (serverStep pwd) (start jwt users) first) (.proceed id now random)) middle =
        serverAfter pwd users (first ++ .proceed id now random :: middle) := by
      rw [serverAfter, Runs.run_append, Runs.run_cons]
    rw [hstate] at hcontinues
    rcases hcontinues with htokens | ⟨user', hworking, -⟩
    · obtain ⟨-, hnew, -⟩ := handle_tokens hlawful htokens
      refine hnew ((kept_serverAfter hlawful hpast).known r ?_)
      rw [RevokedIn, Runs.occurs_append, Runs.occurs_cons]
      exact .inr (.inl ⟨.revokeRefreshToken, user, htask, rfl⟩)
    · have hno := no_refresh_after hlawful hpast htask hidle
      cases e with
      | proceed id' now' random' => exact hno id' user' hworking
      | login id' now' isJson username password => contradiction
      | request id' now' endpoint token => contradiction

/-- A quarter of an hour after the last event its access tokens have expired. -/
theorem InSession.expired {past : List (Event jwt)} {p : Claims} (h : InSession pwd users past r p)
    (hlawful : jwt.Lawful) (hpast : ∀ e ∈ past, e.now ≤ now) {later : Nat}
    (hlater : now + accessTokenExpires ≤ later) (db : Database) (refresh : Bool) :
    jwtRequired jwt db later refresh (jwt.encode p) = none := by
  obtain ⟨middle, e, last, rfl, hcontinues⟩ := h.exists
  have hexp : p.exp = e.now + accessTokenExpires := by
    rcases hcontinues with htokens | ⟨user', -, haccess⟩
    · exact (handle_tokens hlawful htokens).1
    · exact handle_accessToken hlawful haccess
  have htime := hpast e (by simp)
  have hexpired : ¬ later < p.exp := by omega
  rw [jwtRequired, decodeToken_encode hlawful, if_neg hexpired]

end Logout

/-- Once a refresh token has been revoked, while no request to use it is under way, it
passes no check, no more access tokens come from it, and a quarter of an hour later none
of its session passes a check, whatever else happens. -/
theorem logout_ends_session (jwt : JwtManager) (hlawful : jwt.Lawful) (pwd : CryptContext)
    (users : List User) (first rest : List (Event jwt)) (id now : Nat) (random : Random)
    (r : Claims) (user : User)
    (hunforged : Runs.Steps (serverStep pwd) Unforged (start jwt users)
      (first ++ .proceed id now random :: rest))
    (hclock : ((first ++ .proceed id now random :: rest).map Event.now).Pairwise (· ≤ ·))
    (htask : (serverAfter pwd users first).tasks id = some (.request .revokeRefreshToken r user))
    (hidle : ∀ other user, (serverAfter pwd users first).tasks other ≠
      some (.request .refresh r user)) :
    (∀ later refresh, jwtRequired jwt
      (serverAfter pwd users (first ++ .proceed id now random :: rest)).db later refresh
      (jwt.encode r) = none) ∧
    ∀ p, InSession pwd users (first ++ .proceed id now random :: rest) r p →
      InSession pwd users first r p ∧ ∀ later, now + accessTokenExpires ≤ later →
        ∀ refresh, jwtRequired jwt
          (serverAfter pwd users (first ++ .proceed id now random :: rest)).db later refresh
          (jwt.encode p) = none := by
  refine ⟨refused_after_revocation hlawful hunforged htask, fun p hsession => ?_⟩
  have hbefore := hsession.before hlawful hunforged htask hidle
  refine ⟨hbefore, fun later hlater refresh => hbefore.expired hlawful ?_ hlater _ refresh⟩
  intro e he
  exact now_le_of_pairwise hclock he

theorem logout_ends_session_admin :
    let events : List (Event plainTokens) := adminLogin ++
      [.request 1 1 .revokeRefreshToken (refreshClaims 1 ['b'] 0), .proceed 1 1 ⟨[], [], []⟩,
        .request 2 2 .refresh (refreshClaims 1 ['b'] 0), .proceed 2 2 ⟨['c'], [], []⟩]
    jwtRequired plainTokens (serverAfter plainPasswords [admin] events).db 2 true
      (refreshClaims 1 ['b'] 0) = none ∧
    jwtRequired plainTokens (serverAfter plainPasswords [admin] events).db 901 false
      (accessClaims 1 ['a'] 0) = none := by
  intro events
  let logout : Event plainTokens := .request 1 1 .revokeRefreshToken (refreshClaims 1 ['b'] 0)
  have hmem : refreshClaims 1 ['b'] 0 ∈ (serverAfter plainPasswords [admin] adminLogin).handed := by
    rw [adminLogin_handed]
    exact List.mem_cons_of_mem _ List.mem_cons_self
  have hmem' : refreshClaims 1 ['b'] 0 ∈ (serverAfter plainPasswords [admin]
      (adminLogin ++ [logout, .proceed 1 1 ⟨[], [], []⟩])).handed := by decide +kernel
  have htask : (serverAfter plainPasswords [admin] (adminLogin ++ [logout])).tasks 1 =
      some (.request .revokeRefreshToken (refreshClaims 1 ['b'] 0) admin) := by decide +kernel
  have htasks : (serverAfter plainPasswords [admin] (adminLogin ++ [logout])).tasks =
      Function.update (Function.update (Function.update (fun _ => none) 0 (some (.login 1))) 0 none)
        1 (some (.request .revokeRefreshToken (refreshClaims 1 ['b'] 0) admin)) := rfl
  have hidle : ∀ other user, (serverAfter plainPasswords [admin] (adminLogin ++ [logout])).tasks
      other ≠ some (.request .refresh (refreshClaims 1 ['b'] 0) user) := by
    intro other user hother
    rw [htasks] at hother
    rcases of_update hother with hnew | hother
    · cases hnew
    rcases of_update hother with hnone | hother
    · contradiction
    rcases of_update hother with hlogin | hnone
    · cases hlogin
    · contradiction
  have hended := logout_ends_session plainTokens plainTokens_lawful plainPasswords [admin]
    (adminLogin ++ [logout])
    [.request 2 2 .refresh (refreshClaims 1 ['b'] 0), .proceed 2 2 ⟨['c'], [], []⟩] 1 1
    ⟨[], [], []⟩ (refreshClaims 1 ['b'] 0) admin
    ⟨trivial, trivial, fun _ => hmem, trivial, fun _ => hmem', trivial, trivial⟩ (by decide) htask
    hidle
  exact ⟨hended.1 2 true,
    (hended.2 (accessClaims 1 ['a'] 0) (.inr (.inl (.inl rfl)))).2 901 (by decide) false⟩

/-! ## Deleted accounts -/

/-- A user who is deleted is not the one with the greatest number. -/
def KeepsGreatest (s : Server jwt) (e : Event jwt) : Prop :=
  ∀ userId current user, e.working s = some (.request (.deleteUser userId) current user) →
    userId ∈ s.db.users.map User.id → ∃ other ∈ s.db.users, userId < other.id

/-- The number is nobody's, and it is below the greatest. -/
def Gone (userId : Nat) (s : Server jwt) : Prop :=
  userId ∉ s.db.users.map User.id ∧ ∃ other ∈ s.db.users, userId < other.id

theorem lt_nextId {db : Database} {user : User} (huser : user ∈ db.users) :
    user.id < db.nextId := by
  rw [Database.nextId]
  have hid : user.id ∈ db.users.map User.id := List.mem_map_of_mem huser
  generalize db.users.map User.id = ids at hid
  induction ids with
  | nil => contradiction
  | cons n ids ih =>
      rw [List.foldr_cons]
      rcases List.mem_cons.mp hid with rfl | hid
      · exact Nat.lt_of_lt_of_le (Nat.lt_succ_self _) (Nat.le_max_left _ _)
      · exact Nat.lt_of_lt_of_le (ih hid) (Nat.le_max_right _ _)

/-- The users who stay when one is deleted who is not the last. -/
theorem exists_other {users : List User} {userId deleted : Nat}
    (hgreater : ∃ other ∈ users, userId < other.id)
    (hkeeps : deleted ∈ users.map User.id → ∃ other ∈ users, deleted < other.id) :
    ∃ other ∈ users.filter fun u => u.id ≠ deleted, userId < other.id := by
  obtain ⟨other, hother, hlt⟩ := hgreater
  by_cases hsame : other.id = deleted
  · obtain ⟨last, hlast, hlast_lt⟩ := hkeeps (hsame ▸ List.mem_map_of_mem hother)
    exact ⟨last, List.mem_filter.mpr ⟨hlast, by simpa using Nat.ne_of_gt hlast_lt⟩, by omega⟩
  · exact ⟨other, List.mem_filter.mpr ⟨hother, by simpa using hsame⟩, hlt⟩

theorem Gone.moved {s : Server jwt} {userId : Nat} (h : Gone userId s) {task : Task}
    {users : List User} (hkeeps : ∀ deleted current user,
      task = .request (.deleteUser deleted) current user →
        deleted ∈ s.db.users.map User.id → ∃ other ∈ s.db.users, deleted < other.id)
    (hmoved : UsersMoved s.db task users) :
    userId ∉ users.map User.id ∧ ∃ other ∈ users, userId < other.id := by
  cases hmoved with
  | same users hids =>
      rw [hids]
      refine ⟨h.1, ?_⟩
      obtain ⟨other, hother, hlt⟩ := h.2
      have hid : other.id ∈ users.map User.id := hids ▸ List.mem_map_of_mem hother
      obtain ⟨other', hother', heq⟩ := List.mem_map.mp hid
      exact ⟨other', hother', heq ▸ hlt⟩
  | added user hid =>
      obtain ⟨other, hother, hlt⟩ := h.2
      refine ⟨?_, other, List.mem_append_left _ hother, hlt⟩
      rw [List.map_append, List.mem_append, not_or]
      refine ⟨h.1, ?_⟩
      have hnext := lt_nextId hother
      simp only [List.map_cons, List.map_nil, List.mem_singleton, hid]
      omega
  | deleted deleted current user htask =>
      refine ⟨fun hmem => h.1 ?_, exists_other h.2 (hkeeps deleted current user htask)⟩
      exact List.map_subset _ (List.filter_subset_self _) hmem

theorem Gone.step (hlawful : jwt.Lawful) {s : Server jwt} {userId : Nat} (h : Gone userId s)
    {e : Event jwt} (hkeeps : KeepsGreatest s e) : Gone userId (serverStep pwd s e) := by
  have hmoved := serverStep_moved hlawful pwd s e
  generalize serverStep pwd s e = next at hmoved
  cases hmoved with
  | users id now random task users htask hother hmoved =>
      refine h.moved (fun deleted current user hdelete => ?_) hmoved
      exact hkeeps deleted current user (hdelete ▸ htask)
  | _ => exact h

/-- A deletion that leaves a user with a greater number. -/
theorem gone_of_delete {s : Server jwt} {id now userId : Nat}
    {random : Random} {current : Claims} {user : User}
    (htask : s.tasks id = some (.request (.deleteUser userId) current user))
    (hgreater : ∃ other ∈ s.db.users, userId < other.id) :
    Gone userId (serverStep pwd s (.proceed id now random)) := by
  obtain ⟨other, hother, hlt⟩ := hgreater
  unfold serverStep handle
  simp only [htask, work, deleteUser]
  split
  · refine ⟨by simp, exists_other ⟨other, hother, hlt⟩ fun _ => ⟨other, hother, hlt⟩⟩
  · next hnone =>
    rw [not_or, Bool.not_eq_true, Option.isSome_eq_false_iff, Option.isNone_iff_eq_none] at hnone
    refine ⟨fun hmem => ?_, other, hother, hlt⟩
    obtain ⟨u, hu, hid⟩ := List.mem_map.mp hmem
    simpa [hid] using List.find?_eq_none.mp hnone.2 u hu

/-- Once an account has been deleted while there was one with a greater number, no token for
it passes a check again, if the user with the greatest number is not deleted later. -/
theorem deleted_locked_out (jwt : JwtManager) (hlawful : jwt.Lawful) (pwd : CryptContext)
    (users : List User) (first rest : List (Event jwt)) (id now userId : Nat) (random : Random)
    (current : Claims) (user : User)
    (htask : (serverAfter pwd users first).tasks id =
      some (.request (.deleteUser userId) current user))
    (hgreater : ∃ other ∈ (serverAfter pwd users first).db.users, userId < other.id)
    (hkeeps : Runs.Steps (serverStep pwd) KeepsGreatest
      (serverAfter pwd users (first ++ [.proceed id now random])) rest)
    (later : Nat) (refresh : Bool) (token : jwt.Token) (claims : Claims) (found : User)
    (hpasses : jwtRequired jwt
      (serverAfter pwd users (first ++ .proceed id now random :: rest)).db later refresh token =
        some (claims, found)) :
    claims.sub ≠ userId := by
  have hstep : ∀ (s : Server jwt) e, Gone userId s → KeepsGreatest s e →
      Gone userId (serverStep pwd s e) := fun s e h he => h.step hlawful he
  rw [serverAfter, Runs.run_append] at hkeeps
  have hgone := hkeeps.invariant hstep (gone_of_delete htask hgreater)
  rintro rfl
  obtain ⟨-, -, -, -, huser⟩ := jwtRequired_eq_some_iff.mp hpasses
  rw [serverAfter, Runs.run_append, Runs.run_cons] at huser
  refine hgone.1 (List.mem_map.mpr ⟨found, List.mem_of_find?_eq_some huser, ?_⟩)
  simpa using List.find?_some huser

/-- The second of three accounts logs in and is deleted by the first; then its token
passes no more. -/
theorem deleted_locked_out_second :
    let second : User := ⟨2, ['u'], ['u'], ['p'], none⟩
    let third : User := ⟨3, ['v'], ['v'], ['p'], none⟩
    let events : List (Event plainTokens) := adminLogin ++
      [.login 1 1 true (some ['u']) (some ['p']), .proceed 1 1 ⟨['c'], ['d'], []⟩,
        .request 2 2 (.deleteUser 2) (accessClaims 1 ['a'] 0)]
    (jwtRequired plainTokens (serverAfter plainPasswords [admin, second, third] events).db 3 false
      (accessClaims 2 ['c'] 1)).isSome = true ∧
    jwtRequired plainTokens (serverAfter plainPasswords [admin, second, third]
      (events ++ [.proceed 2 2 ⟨[], [], []⟩])).db 3 false (accessClaims 2 ['c'] 1) = none := by
  intro second third events
  have htask : (serverAfter plainPasswords [admin, second, third] events).tasks 2 =
      some (.request (.deleteUser 2) (accessClaims 1 ['a'] 0) admin) := by decide +kernel
  have husers : (serverAfter plainPasswords [admin, second, third] events).db.users =
      [admin, second, third] := by decide +kernel
  refine ⟨by decide +kernel, Option.eq_none_iff_forall_ne_some.mpr ?_⟩
  rintro ⟨claims, found⟩ hpasses
  have hsub := deleted_locked_out plainTokens plainTokens_lawful plainPasswords
    [admin, second, third] events [] 2 2 2 ⟨[], [], []⟩ (accessClaims 1 ['a'] 0) admin htask
    ⟨third, by rw [husers]; simp, by decide⟩ trivial 3 false (accessClaims 2 ['c'] 1) claims found
    hpasses
  obtain ⟨hdecode, -⟩ := jwtRequired_eq_some_iff.mp hpasses
  cases hdecode
  exact hsub rfl

-- The number of the last account is given again, and with it the tokens of that account.
example :
    let last : User := ⟨2, ['u'], ['u'], ['p'], none⟩
    let json : UserJson := ⟨some ['w'], some ['w'], some ['p'], none⟩
    let events : List (Event plainTokens) := adminLogin ++
      [.login 1 1 true (some ['u']) (some ['p']), .proceed 1 1 ⟨['c'], ['d'], []⟩,
        .request 2 2 (.deleteUser 2) (accessClaims 1 ['a'] 0), .proceed 2 2 ⟨[], [], []⟩,
        .request 3 3 (.postUser (some json)) (accessClaims 1 ['a'] 0), .proceed 3 3 ⟨[], [], []⟩]
    (jwtRequired plainTokens (serverAfter plainPasswords [admin, last] events).db 4 false
      (accessClaims 2 ['c'] 1)).map (fun checked => checked.2.username) = some ['w'] := by
  decide +kernel

end CodingLearners.TtApp
