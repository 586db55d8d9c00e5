import CodingLearners.TtApp.Sessions

/-!
# Who a token is for

Tokens come from a login or, by way of `/auth/refresh`, from another token, so each
goes back to a login.
-/

namespace CodingLearners.TtApp

variable {jwt : JwtManager} {pwd : CryptContext} {users : List User}

/-- The event is a login with the right password of the user with this number. -/
def LogsIn (pwd : CryptContext) (identity : Nat) (s : Server jwt) (e : Event jwt) : Prop :=
  ∃ id now username password user, e = .login id now true (some username) (some password) ∧
    credentials pwd s.db username password = some user ∧ user.id = identity

/-- In the course of these events the user with this number has logged in. -/
def LoggedIn (pwd : CryptContext) (users : List User) (events : List (Event jwt))
    (identity : Nat) : Prop :=
  Runs.Occurs (serverStep pwd) (LogsIn pwd identity) (start jwt users) events

/-- Tokens and tasks go back to a login. -/
structure Earned (pwd : CryptContext) (users : List User) (past : List (Event jwt))
    (s : Server jwt) : Prop where
  handed : ∀ token ∈ s.handed, ∃ claims, token = jwt.encode claims ∧
    LoggedIn pwd users past claims.sub
  login : ∀ id identity, s.tasks id = some (.login identity) → LoggedIn pwd users past identity
  request : ∀ id endpoint current user, s.tasks id = some (.request endpoint current user) →
    LoggedIn pwd users past current.sub

theorem Earned.encoded {past : List (Event jwt)} {s : Server jwt} (h : Earned pwd users past s) :
    ∀ token ∈ s.handed, ∃ claims, token = jwt.encode claims := by
  intro token htoken
  obtain ⟨claims, hclaims, -⟩ := h.handed token htoken
  exact ⟨claims, hclaims⟩

theorem LoggedIn.concat {past : List (Event jwt)} {identity : Nat}
    (h : LoggedIn pwd users past identity) (e : Event jwt) :
    LoggedIn pwd users (past ++ [e]) identity :=
  (Runs.occurs_concat _ _ _ _ _).mpr (.inl h)

section Step

variable {past : List (Event jwt)} {e : Event jwt} {s s' : Server jwt}

/-- New tokens and new tasks are to go back to a login; the others do already. -/
theorem Earned.next (h : Earned pwd users past s) (e : Event jwt) (given : List Claims)
    (hhanded : s'.handed = s.handed ++ given.map jwt.encode)
    (hgiven : ∀ claims ∈ given, LoggedIn pwd users past claims.sub) {id : Nat} {new : Option Task}
    (htasks : s'.tasks = Function.update s.tasks id new)
    (hlogin : ∀ identity, new = some (.login identity) →
      LoggedIn pwd users (past ++ [e]) identity)
    (hrequest : ∀ endpoint current user, new = some (.request endpoint current user) →
      LoggedIn pwd users (past ++ [e]) current.sub) : Earned pwd users (past ++ [e]) s' := by
  constructor
  · intro token htoken
    rw [hhanded, List.mem_append] at htoken
    rcases htoken with htoken | htoken
    · obtain ⟨claims, rfl, hlogged⟩ := h.handed token htoken
      exact ⟨claims, rfl, hlogged.concat e⟩
    · obtain ⟨claims, hclaims, rfl⟩ := List.mem_map.mp htoken
      exact ⟨claims, rfl, (hgiven claims hclaims).concat e⟩
  · intro id' identity htask
    rw [htasks] at htask
    rcases of_update htask with hnew | htask
    · exact hlogin identity hnew
    · exact (h.login id' identity htask).concat e
  · intro id' endpoint current user htask
    rw [htasks] at htask
    rcases of_update htask with hnew | htask
    · exact hrequest endpoint current user hnew
    · exact (h.request id' endpoint current user htask).concat e

/-- A task ends, and tokens for its user are handed out. -/
theorem Earned.ends (h : Earned pwd users past s) (e : Event jwt) (given : List Claims)
    (hhanded : s'.handed = s.handed ++ given.map jwt.encode)
    (hgiven : ∀ claims ∈ given, LoggedIn pwd users past claims.sub) {id : Nat}
    (htasks : s'.tasks = Function.update s.tasks id none) : Earned pwd users (past ++ [e]) s' :=
  h.next e given hhanded hgiven htasks (by simp) (by simp)

theorem Earned.step (h : Earned pwd users past (serverAfter pwd users past))
    (hlawful : jwt.Lawful) (hunforged : Unforged (serverAfter pwd users past) e) :
    Earned pwd users (past ++ [e]) (serverAfter pwd users (past ++ [e])) := by
  rw [serverAfter_concat]
  generalize hnext : serverStep pwd (serverAfter pwd users past) e = next
  have hmoved := serverStep_moved hlawful pwd (serverAfter pwd users past) e
  rw [hnext] at hmoved
  have hnone : ∀ claims ∈ ([] : List Claims), LoggedIn pwd users past claims.sub := by simp
  cases hmoved with
  | stay e hidle =>
      refine ⟨fun token htoken => ?_, fun id identity htask => (h.login id identity htask).concat e,
        fun id endpoint current user htask => (h.request id endpoint current user htask).concat e⟩
      obtain ⟨claims, rfl, hlogged⟩ := h.handed token htoken
      exact ⟨claims, rfl, hlogged.concat e⟩
  | login id now username password user hright =>
      refine h.next _ [] (List.append_nil _).symm hnone rfl ?_ (by simp)
      intro identity hidentity
      cases hidentity
      exact (Runs.occurs_concat _ _ _ _ _).mpr
        (.inr ⟨id, now, username, password, user, rfl, hright, rfl⟩)
  | check id now endpoint token current user hchecked =>
      refine h.next _ [] (List.append_nil _).symm hnone rfl (by simp) ?_
      intro endpoint' current' user' hrequest
      cases hrequest
      have hmem := handed_of_checked hunforged h.encoded hlawful hchecked
      obtain ⟨claims, hencode, hlogged⟩ := h.handed _ hmem
      rw [encode_injective hlawful hencode]
      exact hlogged.concat _
  | half id now random identity htask hnew => exact h.ends _ [] (List.append_nil _).symm hnone rfl
  | loggedIn id now random identity htask hnew hnew' hne =>
      refine h.ends _ [accessClaims identity random.jti now,
        refreshClaims identity random.jti' now] rfl ?_ rfl
      simpa [accessClaims, refreshClaims] using h.login id identity htask
  | refreshed id now random current user htask hnew =>
      refine h.ends _ [accessClaims current.sub random.jti now] rfl ?_ rfl
      simpa [accessClaims] using h.request id .refresh current user htask
  | revoked id now random endpoint current user htask hrevokes =>
      exact h.ends _ [] (List.append_nil _).symm hnone rfl
  | notRevoked id now random endpoint current user htask hrevokes hno =>
      exact h.ends _ [] (List.append_nil _).symm hnone rfl
  | users id now random task users' htask hother hmoved =>
      exact h.ends _ [] (List.append_nil _).symm hnone rfl

theorem earned_serverAfter (hlawful : jwt.Lawful) {events : List (Event jwt)}
    (hunforged : Runs.Steps (serverStep pwd) Unforged (start jwt users) events) :
    Earned pwd users events (serverAfter pwd users events) := by
  refine Runs.Steps.history (Earned pwd users) ?_ hunforged ?_
  · intro past e hpast he
    exact Earned.step hpast hlawful he
  · exact ⟨by simp [start], by simp [start], by simp [start]⟩

end Step

/-- Whoever passes a check passes under a number for which an earlier login gave the name
and the password, at a moment when these were those of the user with this number. -/
theorem passes_after_login (jwt : JwtManager) (hlawful : jwt.Lawful) (pwd : CryptContext)
    (users : List User) (events : List (Event jwt)) (id now : Nat) (endpoint : Endpoint)
    (token : jwt.Token)
    (hunforged : Runs.Steps (serverStep pwd) Unforged (start jwt users)
      (events ++ [.request id now endpoint token])) (current : Claims) (user : User)
    (hpasses : jwtRequired jwt (serverAfter pwd users events).db now endpoint.needsRefresh token =
      some (current, user)) :
    LoggedIn pwd users events user.id := by
  obtain ⟨hevents, hlast, -⟩ := (Runs.steps_append _ _ _ _ _).mp hunforged
  have h := earned_serverAfter hlawful hevents
  have hmem := handed_of_checked hlast h.encoded hlawful hpasses
  obtain ⟨claims, hencode, hlogged⟩ := h.handed _ hmem
  rw [← encode_injective hlawful hencode] at hlogged
  rwa [jwtRequired_user hpasses]

theorem passes_after_login_admin : LoggedIn plainPasswords [admin] adminLogin 1 := by
  have hmem : accessClaims 1 ['a'] 0 ∈ (serverAfter plainPasswords [admin] adminLogin).handed := by
    rw [adminLogin_handed]
    exact List.mem_cons_self
  have hpasses : jwtRequired plainTokens (serverAfter plainPasswords [admin] adminLogin).db 1
      (Endpoint.getUser 1).needsRefresh (accessClaims 1 ['a'] 0) =
        some (accessClaims 1 ['a'] 0, admin) := by decide +kernel
  exact passes_after_login plainTokens plainTokens_lawful plainPasswords [admin] adminLogin 1 1
    (.getUser 1) (accessClaims 1 ['a'] 0) ⟨trivial, trivial, fun _ => hmem, trivial⟩
    (accessClaims 1 ['a'] 0) admin hpasses

end CodingLearners.TtApp
