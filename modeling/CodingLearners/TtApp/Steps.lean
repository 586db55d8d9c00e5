import CodingLearners.TtApp.Auth

/-!
# What an event changes

One lemma for each function that writes to the database, and from these the list
of what an event can do to the server.
-/

namespace CodingLearners.TtApp

variable {jwt : JwtManager} {pwd : CryptContext} {db db' : Database}

theorem decodeToken_encode (hlawful : jwt.Lawful) (now : Nat) (claims : Claims) :
    jwt.decodeToken now (jwt.encode claims) = if now < claims.exp then some claims else none := by
  simp [JwtManager.decodeToken, hlawful claims, Option.filter_some]

theorem encode_injective (hlawful : jwt.Lawful) : Function.Injective jwt.encode := by
  intro claims claims' heq
  have hdecode := congrArg jwt.decode heq
  rw [hlawful, hlawful] at hdecode
  exact Option.some_inj.mp hdecode

/-- The check of the unique column. -/
theorem jtiTaken_iff {tokens : List TokenBlocklist} {jti : Text} :
    (tokens.any fun token => token.jti = jti) = true ↔ jti ∈ tokens.map TokenBlocklist.jti := by
  simp [List.any_eq_true, List.mem_map]

/-- A new access token is saved if its number is new. -/
theorem addTokenToDatabase_access (hlawful : jwt.Lawful) (db : Database) (identity now : Nat)
    (jti : Text) :
    addTokenToDatabase jwt db now (jwt.encode (accessClaims identity jti now)) =
      if jti ∈ db.tokens.map TokenBlocklist.jti then none
      else some { db with tokens := db.tokens ++ [(accessClaims identity jti now).row false] } := by
  have hexp : now < (accessClaims identity jti now).exp := by
    simp [accessClaims, accessTokenExpires]
  rw [addTokenToDatabase, decodeToken_encode hlawful, if_pos hexp]
  exact if_congr jtiTaken_iff rfl rfl

theorem addTokenToDatabase_refresh (hlawful : jwt.Lawful) (db : Database) (identity now : Nat)
    (jti : Text) :
    addTokenToDatabase jwt db now (jwt.encode (refreshClaims identity jti now)) =
      if jti ∈ db.tokens.map TokenBlocklist.jti then none
      else
        some { db with tokens := db.tokens ++ [(refreshClaims identity jti now).row false] } := by
  have hexp : now < (refreshClaims identity jti now).exp := by
    simp [refreshClaims, refreshTokenExpires]
  rw [addTokenToDatabase, decodeToken_encode hlawful, if_pos hexp]
  exact if_congr jtiTaken_iff rfl rfl

/-- The row of a token, with the number and the user as they are. -/
def TokenBlocklist.mark (tokenJti : Text) (user : Nat) (token : TokenBlocklist) : TokenBlocklist :=
  if token.jti = tokenJti ∧ token.userId = user then { token with revoked := true } else token

@[simp] theorem TokenBlocklist.mark_jti (tokenJti : Text) (user : Nat) (token : TokenBlocklist) :
    (token.mark tokenJti user).jti = token.jti := by
  rw [mark]
  split <;> rfl

theorem revokeToken_eq_some {tokenJti : Text} {user : Nat}
    (h : revokeToken db tokenJti user = some db') :
    db' = { db with tokens := db.tokens.map (TokenBlocklist.mark tokenJti user) } := by
  unfold revokeToken at h
  split at h
  · exact (Option.some_inj.mp h).symm
  · contradiction

/-- What a request can do to the table of the users: names and passwords, one more
user with the next number, or one user less. -/
inductive UsersMoved (db : Database) (task : Task) : List User → Prop
  | same (users : List User) (hids : users.map User.id = db.users.map User.id) :
      UsersMoved db task users
  | added (user : User) (hid : user.id = db.nextId) : UsersMoved db task (db.users ++ [user])
  | deleted (userId : Nat) (current : Claims) (user : User)
      (htask : task = .request (.deleteUser userId) current user) :
      UsersMoved db task (db.users.filter fun u => u.id ≠ userId)

theorem putUser_moved (jwt : JwtManager) (pwd : CryptContext) (db : Database) (salt : Text)
    (user : User) (userId : Nat) (json : Option UserJson)
    (task : Task) : ∃ users response, putUser jwt pwd salt db user userId json =
      ({ db with users := users }, response) ∧ response.handed = [] ∧ UsersMoved db task users := by
  have hsame : UsersMoved db task db.users := .same _ rfl
  unfold putUser
  split
  · exact ⟨db.users, _, rfl, rfl, hsame⟩
  split
  · exact ⟨db.users, _, rfl, rfl, hsame⟩
  split
  · exact ⟨db.users, _, rfl, rfl, hsame⟩
  dsimp only
  split
  · refine ⟨_, _, rfl, rfl, .same _ ?_⟩
    rw [List.map_map]
    refine List.map_congr_left fun u _ => ?_
    simp only [Function.comp]
    split <;> rfl
  · exact ⟨db.users, _, rfl, rfl, hsame⟩

theorem postUser_moved (jwt : JwtManager) (pwd : CryptContext) (db : Database) (salt : Text)
    (json : Option UserJson) (task : Task) :
    ∃ users response, postUser jwt pwd salt db json = ({ db with users := users }, response) ∧
      response.handed = [] ∧ UsersMoved db task users := by
  have hsame : UsersMoved db task db.users := .same _ rfl
  unfold postUser
  split
  · exact ⟨db.users, _, rfl, rfl, hsame⟩
  dsimp only
  split
  · exact ⟨_, _, rfl, rfl, .added _ rfl⟩
  · exact ⟨db.users, _, rfl, rfl, hsame⟩

theorem getUser_handed (user : User) (userId : Nat) : (getUser jwt db user userId).handed = [] := by
  unfold getUser
  split <;> rfl

theorem deleteUser_moved (jwt : JwtManager) (db : Database) (userId : Nat) (current : Claims)
    (user : User) :
    ∃ users response, deleteUser jwt db user userId = ({ db with users := users }, response) ∧
      response.handed = [] ∧
      UsersMoved db (.request (.deleteUser userId) current user) users := by
  unfold deleteUser
  split
  · exact ⟨_, _, rfl, rfl, .deleted userId current user rfl⟩
  · exact ⟨db.users, _, rfl, rfl, .same _ rfl⟩

/-! ## Events -/

/-- The endpoint revokes the token that the request presents. -/
def Endpoint.revokes : Endpoint → Bool
  | .revokeAccessToken => true
  | .revokeRefreshToken => true
  | _ => false

/-- The request that goes on with this event. -/
def Event.working (s : Server jwt) : Event jwt → Option Task
  | .proceed id _ _ => s.tasks id
  | _ => none

/-- What an event can do to the server. -/
inductive Moved (pwd : CryptContext) (s : Server jwt) : Event jwt → Server jwt → Prop
  | stay (e : Event jwt) (hidle : e.working s = none) : Moved pwd s e s
  | login (id now : Nat) (username password : Text) (user : User)
      (hright : credentials pwd s.db username password = some user) :
      Moved pwd s (.login id now true (some username) (some password))
        { s with tasks := Function.update s.tasks id (some (.login user.id)) }
  | check (id now : Nat) (endpoint : Endpoint) (token : jwt.Token) (current : Claims) (user : User)
      (hchecked : jwtRequired jwt s.db now endpoint.needsRefresh token = some (current, user)) :
      Moved pwd s (.request id now endpoint token)
        { s with tasks := Function.update s.tasks id (some (.request endpoint current user)) }
  | half (id now : Nat) (random : Random) (identity : Nat)
      (htask : s.tasks id = some (.login identity))
      (hnew : random.jti ∉ s.db.tokens.map TokenBlocklist.jti) :
      Moved pwd s (.proceed id now random)
        { s with
          db := { s.db with
            tokens := s.db.tokens ++ [(accessClaims identity random.jti now).row false] }
          tasks := Function.update s.tasks id none }
  | loggedIn (id now : Nat) (random : Random) (identity : Nat)
      (htask : s.tasks id = some (.login identity))
      (hnew : random.jti ∉ s.db.tokens.map TokenBlocklist.jti)
      (hnew' : random.jti' ∉ s.db.tokens.map TokenBlocklist.jti)
      (hne : random.jti' ≠ random.jti) :
      Moved pwd s (.proceed id now random)
        { db := { s.db with
            tokens := s.db.tokens ++ [(accessClaims identity random.jti now).row false,
              (refreshClaims identity random.jti' now).row false] }
          tasks := Function.update s.tasks id none
          handed := s.handed ++ [jwt.encode (accessClaims identity random.jti now),
            jwt.encode (refreshClaims identity random.jti' now)] }
  | refreshed (id now : Nat) (random : Random) (current : Claims) (user : User)
      (htask : s.tasks id = some (.request .refresh current user))
      (hnew : random.jti ∉ s.db.tokens.map TokenBlocklist.jti) :
      Moved pwd s (.proceed id now random)
        { db := { s.db with
            tokens := s.db.tokens ++ [(accessClaims current.sub random.jti now).row false] }
          tasks := Function.update s.tasks id none
          handed := s.handed ++ [jwt.encode (accessClaims current.sub random.jti now)] }
  | revoked (id now : Nat) (random : Random) (endpoint : Endpoint) (current : Claims) (user : User)
      (htask : s.tasks id = some (.request endpoint current user))
      (hrevokes : endpoint.revokes = true) :
      Moved pwd s (.proceed id now random)
        { s with
          db := { s.db with
            tokens := s.db.tokens.map (TokenBlocklist.mark current.jti current.sub) }
          tasks := Function.update s.tasks id none }
  | notRevoked (id now : Nat) (random : Random) (endpoint : Endpoint) (current : Claims)
      (user : User) (htask : s.tasks id = some (.request endpoint current user))
      (hrevokes : endpoint.revokes = true)
      (hno : revokeToken s.db current.jti current.sub = none) :
      Moved pwd s (.proceed id now random)
        { s with tasks := Function.update s.tasks id none }
  | users (id now : Nat) (random : Random) (task : Task) (users : List User)
      (htask : s.tasks id = some task)
      (hother : ∀ endpoint current user, task = .request endpoint current user →
        endpoint.revokes = false)
      (hmoved : UsersMoved s.db task users) :
      Moved pwd s (.proceed id now random)
        { s with
          db := { s.db with users := users }
          tasks := Function.update s.tasks id none }

section Moved

variable {s : Server jwt} {id now : Nat} {random : Random}

theorem revoke_moved {endpoint : Endpoint} {current : Claims} {user : User}
    (htask : s.tasks id = some (.request endpoint current user))
    (hrevokes : endpoint.revokes = true)
    (hwork : work jwt pwd s.db now random (.request endpoint current user) =
      revoke jwt s.db current) :
    Moved pwd s (.proceed id now random) (serverStep pwd s (.proceed id now random)) := by
  unfold serverStep handle
  simp only [htask, hwork, revoke]
  cases hrevoke : revokeToken s.db current.jti current.sub with
  | none =>
      simpa [Response.handed] using
        Moved.notRevoked id now random endpoint current user htask hrevokes hrevoke
  | some db =>
      rw [revokeToken_eq_some hrevoke]
      simpa [Response.handed] using Moved.revoked id now random endpoint current user htask hrevokes

/-- Work that touches the users alone. -/
theorem users_moved {task : Task} (htask : s.tasks id = some task)
    (hother : ∀ endpoint current user, task = .request endpoint current user →
      endpoint.revokes = false)
    (hwork : ∃ users response, work jwt pwd s.db now random task =
      ({ s.db with users := users }, response) ∧ response.handed = [] ∧
        UsersMoved s.db task users) :
    Moved pwd s (.proceed id now random) (serverStep pwd s (.proceed id now random)) := by
  obtain ⟨users, response, hwork, hnone, hmoved⟩ := hwork
  unfold serverStep handle
  simp only [htask, hwork, Option.map_some, Option.getD_some, hnone, List.append_nil]
  exact Moved.users id now random task users htask hother hmoved

theorem login_moved (hlawful : jwt.Lawful) {identity : Nat}
    (htask : s.tasks id = some (.login identity)) :
    Moved pwd s (.proceed id now random) (serverStep pwd s (.proceed id now random)) := by
  have haccess := addTokenToDatabase_access hlawful s.db identity now random.jti
  by_cases hnew : random.jti ∈ s.db.tokens.map TokenBlocklist.jti
  · rw [if_pos hnew] at haccess
    apply users_moved htask (by simp)
    refine ⟨s.db.users, .internalServerError, ?_, rfl, .same _ rfl⟩
    simp only [work, login, haccess]
  · rw [if_neg hnew] at haccess
    unfold serverStep handle
    simp only [htask, work, login, haccess, addTokenToDatabase_refresh hlawful]
    by_cases hnew' : random.jti' ∈ s.db.tokens.map TokenBlocklist.jti ∨ random.jti' = random.jti
    · have hold : random.jti' ∈ (s.db.tokens ++
          [(accessClaims identity random.jti now).row false]).map TokenBlocklist.jti := by
        simpa [Claims.row, accessClaims] using hnew'
      rw [if_pos hold]
      simpa [Response.handed] using Moved.half id now random identity htask hnew
    · have hfresh : random.jti' ∉ (s.db.tokens ++
          [(accessClaims identity random.jti now).row false]).map TokenBlocklist.jti := by
        simpa [Claims.row, accessClaims] using hnew'
      rw [not_or] at hnew'
      rw [if_neg hfresh]
      simpa [Response.handed] using
        Moved.loggedIn id now random identity htask hnew hnew'.1 hnew'.2

theorem refresh_moved (hlawful : jwt.Lawful) {current : Claims} {user : User}
    (htask : s.tasks id = some (.request .refresh current user)) :
    Moved pwd s (.proceed id now random) (serverStep pwd s (.proceed id now random)) := by
  have haccess := addTokenToDatabase_access hlawful s.db current.sub now random.jti
  by_cases hnew : random.jti ∈ s.db.tokens.map TokenBlocklist.jti
  · rw [if_pos hnew] at haccess
    apply users_moved htask (by simp [Endpoint.revokes])
    refine ⟨s.db.users, .internalServerError, ?_, rfl, .same _ rfl⟩
    simp only [work, refresh, haccess]
  · rw [if_neg hnew] at haccess
    unfold serverStep handle
    simp only [htask, work, refresh, haccess]
    simpa [Response.handed] using Moved.refreshed id now random current user htask hnew

/-- The list is complete. -/
theorem serverStep_moved (hlawful : jwt.Lawful) (pwd : CryptContext) (s : Server jwt)
    (e : Event jwt) : Moved pwd s e (serverStep pwd s e) := by
  cases e with
  | login id now isJson username password =>
      have hstay : Moved pwd s (.login id now isJson username password) s := .stay _ rfl
      by_cases hbusy : (s.tasks id).isSome
      · simpa [serverStep, handle, hbusy] using hstay
      by_cases hjson : isJson = false
      · simpa [serverStep, handle, hbusy, hjson, Response.handed] using hstay
      by_cases hgiven : username.getD [] = [] ∨ password.getD [] = []
      · simpa [serverStep, handle, hbusy, hjson, hgiven, Response.handed] using hstay
      cases hright : credentials pwd s.db (username.getD []) (password.getD []) with
      | none =>
          simpa [serverStep, handle, hbusy, hjson, hgiven, hright, Response.handed] using hstay
      | some user =>
          rw [Bool.not_eq_false] at hjson
          obtain ⟨hname, hword⟩ := not_or.mp hgiven
          cases username with
          | none => exact absurd rfl hname
          | some username =>
              cases password with
              | none => exact absurd rfl hword
              | some password =>
                  subst hjson
                  simp only [Option.getD_some] at hright hname hword
                  simpa [serverStep, handle, hbusy, hname, hword, hright] using
                    Moved.login id now username password user hright
  | request id now endpoint token =>
      have hstay : Moved pwd s (.request id now endpoint token) s := .stay _ rfl
      by_cases hbusy : (s.tasks id).isSome
      · simpa [serverStep, handle, hbusy] using hstay
      cases hchecked : jwtRequired jwt s.db now endpoint.needsRefresh token with
      | none => simpa [serverStep, handle, hbusy, hchecked, Response.handed] using hstay
      | some checked =>
          simpa [serverStep, handle, hbusy, hchecked] using
            Moved.check id now endpoint token checked.1 checked.2 hchecked
  | proceed id now random =>
      cases htask : s.tasks id with
      | none =>
          have hstay : Moved pwd s (.proceed id now random) s := .stay _ htask
          simpa [serverStep, handle, htask] using hstay
      | some task =>
          cases task with
          | login identity => exact login_moved hlawful htask
          | request endpoint current user =>
              cases endpoint with
              | refresh => exact refresh_moved hlawful htask
              | revokeAccessToken => exact revoke_moved htask rfl rfl
              | revokeRefreshToken => exact revoke_moved htask rfl rfl
              | getUser userId =>
                  refine users_moved htask (by simp [Endpoint.revokes]) ⟨_, _, rfl, ?_, .same _ rfl⟩
                  exact getUser_handed user userId
              | putUser userId json =>
                  exact users_moved htask (by simp [Endpoint.revokes])
                    (putUser_moved jwt pwd s.db random.salt user userId json _)
              | deleteUser userId =>
                  exact users_moved htask (by simp [Endpoint.revokes])
                    (deleteUser_moved jwt s.db userId current user)
              | postUser json =>
                  exact users_moved htask (by simp [Endpoint.revokes])
                    (postUser_moved jwt pwd s.db random.salt json _)

end Moved

end CodingLearners.TtApp
