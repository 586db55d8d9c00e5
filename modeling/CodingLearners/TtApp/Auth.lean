import CodingLearners.Library.Runs
import Mathlib.Data.List.Nodup
import Mathlib.Data.List.Perm.Basic

/-!
# `ttapp`: users and their tokens

`auth/helpers.py`, `auth/views.py`, `api/resources/user.py` and the two tables of
`models/`, in an SQLite database. A token is good for as long as its row says so.

## Implementation notes

The library that signs and reads the tokens and the one that hashes the passwords
are parameters. The server has a thread for each request: a request is checked
when it arrives, and what it does after that is a later step. Between the two
the handler holds the user that the check has loaded, and the database may change.
`handed` records the tokens that answers have carried.
-/

namespace CodingLearners.TtApp

abbrev Text := List Char

/-! ## Tokens and passwords -/

inductive TokenType
  | access
  | refresh
  deriving DecidableEq, Repr

/-- What a token says. -/
structure Claims where
  jti : Text
  type : TokenType
  sub : Nat
  exp : Nat
  deriving DecidableEq, Repr

/-- `JWTManager`: tokens are signed with the key of the application, and a text
whose signature is wrong is not decoded. -/
structure JwtManager where
  Token : Type
  encode : Claims → Token
  decode : Token → Option Claims

/-- What has been signed is decoded. -/
def JwtManager.Lawful (jwt : JwtManager) : Prop :=
  ∀ claims, jwt.decode (jwt.encode claims) = some claims

/-- `pwd_context`: `hash salt secret` and `verify secret hash`. -/
structure CryptContext where
  hash : Text → Text → Text
  verify : Text → Text → Bool

variable {jwt : JwtManager}

/-- `decode_token` at the time `now` -/
def JwtManager.decodeToken (jwt : JwtManager) (now : Nat) (token : jwt.Token) : Option Claims :=
  (jwt.decode token).filter fun claims => now < claims.exp

/-- Fifteen minutes, the default of `JWT_ACCESS_TOKEN_EXPIRES`. -/
def accessTokenExpires : Nat := 900

/-- Thirty days, the default of `JWT_REFRESH_TOKEN_EXPIRES`. -/
def refreshTokenExpires : Nat := 2592000

def accessClaims (identity : Nat) (jti : Text) (now : Nat) : Claims :=
  ⟨jti, .access, identity, now + accessTokenExpires⟩

def refreshClaims (identity : Nat) (jti : Text) (now : Nat) : Claims :=
  ⟨jti, .refresh, identity, now + refreshTokenExpires⟩

/-! ## The tables -/

structure User where
  id : Nat
  username : Text
  email : Text
  password : Text
  active : Option Bool
  deriving DecidableEq, Repr

structure TokenBlocklist where
  jti : Text
  tokenType : TokenType
  userId : Nat
  revoked : Bool
  expires : Nat
  deriving DecidableEq, Repr

/-- The rows in the order of their insertion. -/
structure Database where
  users : List User
  tokens : List TokenBlocklist
  deriving DecidableEq, Repr

/-- The row that is added for a token. -/
def Claims.row (claims : Claims) (revoked : Bool) : TokenBlocklist :=
  ⟨claims.jti, claims.type, claims.sub, revoked, claims.exp⟩

/-- `add_token_to_database`: the column `jti` is unique. -/
def addTokenToDatabase (jwt : JwtManager) (db : Database) (now : Nat) (token : jwt.Token) :
    Option Database :=
  match jwt.decodeToken now token with
  | none => none
  | some decoded =>
      if db.tokens.any fun token => token.jti = decoded.jti then none
      else some { db with tokens := db.tokens ++ [decoded.row false] }

/-- `is_token_revoked`: a token without a row counts as revoked. -/
def isTokenRevoked (db : Database) (payload : Claims) : Bool :=
  match db.tokens.find? fun token => token.jti = payload.jti with
  | some token => token.revoked
  | none => true

/-- `revoke_token`, which raises an exception if there is no such row -/
def revokeToken (db : Database) (tokenJti : Text) (user : Nat) : Option Database :=
  if db.tokens.any fun token => token.jti = tokenJti ∧ token.userId = user then
    some { db with
      tokens := db.tokens.map fun token =>
        if token.jti = tokenJti ∧ token.userId = user then { token with revoked := true }
        else token }
  else none

/-- `User.query.get` -/
def Database.user? (db : Database) (id : Nat) : Option User := db.users.find? fun u => u.id = id

/-- `User.query.filter_by(username=username).first()`, and then `pwd_context.verify` -/
def credentials (pwd : CryptContext) (db : Database) (username password : Text) : Option User :=
  (db.users.find? fun u => u.username = username).filter fun u => pwd.verify password u.password

/-- `jwt_required(refresh=refresh)`: the claims of the token and the user it is for. -/
def jwtRequired (jwt : JwtManager) (db : Database) (now : Nat) (refresh : Bool)
    (token : jwt.Token) : Option (Claims × User) :=
  match jwt.decodeToken now token with
  | none => none
  | some claims =>
      if decide (claims.type = .refresh) ≠ refresh then none
      else if isTokenRevoked db claims = true then none
      else (db.user? claims.sub).map fun user => (claims, user)

/-- The number of a new row: one more than the greatest. -/
def Database.nextId (db : Database) : Nat :=
  (db.users.map User.id).foldr (fun n m => max (n + 1) m) 1

/-! ## Requests -/

/-- The members of a body that `UserSchema` knows. A member of another name or type
is an error of validation. -/
structure UserJson where
  username : Option Text
  email : Option Text
  password : Option Text
  active : Option (Option Bool)
  deriving DecidableEq, Repr

/-- `schema.load`: the three columns without a default are required, unless `partial`
is set, and two of them have 80 characters at most. -/
def UserJson.valid (json : UserJson) (anyPart : Bool) : Bool :=
  (anyPart || (json.username.isSome && json.email.isSome && json.password.isSome)) &&
    json.username.all (fun text => text.length ≤ 80) && json.email.all fun text => text.length ≤ 80

/-- What is shown of a user. -/
structure UserView where
  id : Nat
  username : Text
  email : Text
  active : Option Bool
  deriving DecidableEq, Repr

def User.dump (user : User) : UserView := ⟨user.id, user.username, user.email, user.active⟩

/-- The requests that need a token. -/
inductive Endpoint
  | refresh
  | revokeAccessToken
  | revokeRefreshToken
  | getUser (userId : Nat)
  | putUser (userId : Nat) (json : Option UserJson)
  | deleteUser (userId : Nat)
  | postUser (json : Option UserJson)
  deriving DecidableEq, Repr

/-- The argument `refresh` of `jwt_required`. -/
def Endpoint.needsRefresh : Endpoint → Bool
  | .refresh => true
  | .revokeRefreshToken => true
  | _ => false

inductive Response (jwt : JwtManager)
  | tokens (accessToken refreshToken : jwt.Token)
  | accessToken (accessToken : jwt.Token)
  | message (status : Nat) (text : Text)
  | user (status : Nat) (msg : Option Text) (user : UserView)
  | validationError
  | unauthorized
  | notFound
  | internalServerError

/-- The tokens that an answer carries. -/
def Response.handed : Response jwt → List jwt.Token
  | .tokens access refresh => [access, refresh]
  | .accessToken access => [access]
  | _ => []

/-- What cannot be foreseen of a request: two numbers of tokens and a salt. -/
structure Random where
  jti : Text
  jti' : Text
  salt : Text

/-- A request that has been checked: a login with the right password, or a request
with a token, with what the check has loaded. -/
inductive Task
  | login (identity : Nat)
  | request (endpoint : Endpoint) (current : Claims) (user : User)
  deriving DecidableEq, Repr

/-- A value is written if it is not the one that was loaded. -/
def written {α : Type} [DecidableEq α] (loaded stored : α) : Option α → α
  | some value => if value = loaded then stored else value
  | none => stored

/-- The row after a user that was loaded as `loaded` is changed. -/
def UserJson.update (pwd : CryptContext) (salt : Text) (json : UserJson) (loaded stored : User) :
    User where
  id := stored.id
  username := written loaded.username stored.username json.username
  email := written loaded.email stored.email json.email
  password := written loaded.password stored.password (json.password.map (pwd.hash salt))
  active := written loaded.active stored.active json.active

/-- The unique columns: `username` and `email`. -/
def Database.Unique (db : Database) : Prop :=
  (db.users.map User.username).Nodup ∧ (db.users.map User.email).Nodup

instance (db : Database) : Decidable db.Unique := inferInstanceAs (Decidable (_ ∧ _))

/-- `UserResource.put` -/
def putUser (jwt : JwtManager) (pwd : CryptContext) (salt : Text) (db : Database) (user : User)
    (userId : Nat) (json : Option UserJson) : Database × Response jwt :=
  -- the user that was loaded for the check is not loaded again
  match if userId = user.id then some user else db.user? userId with
  | none => (db, .notFound)
  | some loaded =>
      match json.filter fun json => json.valid true with
      | none => (db, .validationError)
      | some json =>
          match db.user? userId with
          -- the row of the user that was loaded has gone
          | none => (db, .internalServerError)
          | some stored =>
              let changed := { db with
                users := db.users.map fun u =>
                  if u.id = userId then json.update pwd salt loaded u else u }
              if changed.Unique then
                (changed, .user 200 (some "user updated".toList)
                  (json.update pwd salt loaded stored).dump)
              else (db, .internalServerError)

/-- `UserList.post`: the default of `active` is written for no value and for `null`. -/
def postUser (jwt : JwtManager) (pwd : CryptContext) (salt : Text) (db : Database)
    (json : Option UserJson) : Database × Response jwt :=
  match json.filter fun json => json.valid false with
  | none => (db, .validationError)
  | some json =>
      let user : User :=
        ⟨db.nextId, json.username.getD [], json.email.getD [],
          pwd.hash salt (json.password.getD []), some (json.active.join.getD true)⟩
      let added := { db with users := db.users ++ [user] }
      if added.Unique then (added, .user 201 (some "user created".toList) user.dump)
      else (db, .internalServerError)

/-- `UserResource.delete`: rows of other tables stay as they are. -/
def deleteUser (jwt : JwtManager) (db : Database) (user : User) (userId : Nat) :
    Database × Response jwt :=
  if userId = user.id ∨ (db.user? userId).isSome then
    ({ db with users := db.users.filter fun u => u.id ≠ userId },
      .message 200 "user deleted".toList)
  else (db, .notFound)

/-- `UserResource.get` -/
def getUser (jwt : JwtManager) (db : Database) (user : User) (userId : Nat) : Response jwt :=
  match if userId = user.id then some user else db.user? userId with
  | none => .notFound
  | some user => .user 200 none user.dump

/-- `revoke_access_token` and `revoke_refresh_token` after the check. -/
def revoke (jwt : JwtManager) (db : Database) (current : Claims) : Database × Response jwt :=
  match revokeToken db current.jti current.sub with
  | some db => (db, .message 200 "token revoked".toList)
  | none => (db, .internalServerError)

/-- `login` after the password was found to be right. -/
def login (jwt : JwtManager) (db : Database) (identity now : Nat) (random : Random) :
    Database × Response jwt :=
  let accessToken := jwt.encode (accessClaims identity random.jti now)
  let refreshToken := jwt.encode (refreshClaims identity random.jti' now)
  match addTokenToDatabase jwt db now accessToken with
  | none => (db, .internalServerError)
  | some db =>
      match addTokenToDatabase jwt db now refreshToken with
      | none => (db, .internalServerError)
      | some db => (db, .tokens accessToken refreshToken)

/-- `refresh` after the check. -/
def refresh (jwt : JwtManager) (db : Database) (currentUser now : Nat) (random : Random) :
    Database × Response jwt :=
  let accessToken := jwt.encode (accessClaims currentUser random.jti now)
  match addTokenToDatabase jwt db now accessToken with
  | none => (db, .internalServerError)
  | some db => (db, .accessToken accessToken)

/-- What a request does after its check. -/
def work (jwt : JwtManager) (pwd : CryptContext) (db : Database) (now : Nat) (random : Random) :
    Task → Database × Response jwt
  | .login identity => login jwt db identity now random
  | .request endpoint current user =>
      match endpoint with
      | .refresh => refresh jwt db current.sub now random
      | .revokeAccessToken => revoke jwt db current
      | .revokeRefreshToken => revoke jwt db current
      | .getUser userId => (db, getUser jwt db user userId)
      | .putUser userId json => putUser jwt pwd random.salt db user userId json
      | .deleteUser userId => deleteUser jwt db user userId
      | .postUser json => postUser jwt pwd random.salt db json

/-! ## The server -/

structure Server (jwt : JwtManager) where
  db : Database
  tasks : Nat → Option Task
  handed : List jwt.Token

/-- A request arrives at the time `now`, or goes on. -/
inductive Event (jwt : JwtManager)
  | login (id now : Nat) (isJson : Bool) (username password : Option Text)
  | request (id now : Nat) (endpoint : Endpoint) (token : jwt.Token)
  | proceed (id now : Nat) (random : Random)

def Event.now : Event jwt → Nat
  | .login _ now _ _ _ => now
  | .request _ now _ _ => now
  | .proceed _ now _ => now

/-- One event and its answer. A number is that of one request at a time. -/
def handle (pwd : CryptContext) (s : Server jwt) : Event jwt → Server jwt × Option (Response jwt)
  | .login id _ isJson username password =>
      if (s.tasks id).isSome then (s, none)
      else if isJson = false then (s, some (.message 400 "Missing JSON in request".toList))
      else
        let username := username.getD []
        let password := password.getD []
        if username = [] ∨ password = [] then
          (s, some (.message 400 "Missing username or password".toList))
        else
          match credentials pwd s.db username password with
          | none => (s, some (.message 400 "Bad credentials".toList))
          | some user =>
              ({ s with tasks := Function.update s.tasks id (some (.login user.id)) }, none)
  | .request id now endpoint token =>
      if (s.tasks id).isSome then (s, none)
      else
        match jwtRequired jwt s.db now endpoint.needsRefresh token with
        | none => (s, some .unauthorized)
        | some (current, user) =>
            ({ s with
              tasks := Function.update s.tasks id (some (.request endpoint current user)) }, none)
  | .proceed id now random =>
      match s.tasks id with
      | none => (s, none)
      | some task =>
          let (db, response) := work jwt pwd s.db now random task
          ({ s with db := db, tasks := Function.update s.tasks id none }, some response)

/-- One event, with the tokens that the answer carries. -/
def serverStep (pwd : CryptContext) (s : Server jwt) (e : Event jwt) : Server jwt :=
  let (s', response) := handle pwd s e
  { s' with handed := s'.handed ++ (response.map Response.handed).getD [] }

/-- The server with these users, before the first request. -/
def start (jwt : JwtManager) (users : List User) : Server jwt := ⟨⟨users, []⟩, fun _ => none, []⟩

/-- The server after these events. -/
def serverAfter (pwd : CryptContext) (users : List User) (events : List (Event jwt)) : Server jwt :=
  Runs.run (serverStep pwd) (start jwt users) events

end CodingLearners.TtApp
