import CodingLearners.TtApp.Steps

/-!
# How long a token is good

A token that has been handed out passes the check until it expires, is revoked or
loses its user. What is known of a token after a run depends on the events of the
run, so the invariants below are about a server and the events that led to it.
-/

namespace CodingLearners.TtApp

variable {jwt : JwtManager} {pwd : CryptContext} {users : List User}

/-- With this event a request ends that revokes the token with these claims. -/
def Revokes (claims : Claims) (s : Server jwt) (e : Event jwt) : Prop :=
  ∃ endpoint user, e.working s = some (.request endpoint claims user) ∧ endpoint.revokes = true

/-- The token has been revoked in the course of these events. -/
def RevokedIn (pwd : CryptContext) (users : List User) (events : List (Event jwt))
    (claims : Claims) : Prop :=
  Runs.Occurs (serverStep pwd) (Revokes claims) (start jwt users) events

/-- What a request presents for a token either has been handed out or has a wrong
signature. -/
def Unforged (s : Server jwt) : Event jwt → Prop
  | .request _ _ _ token => (jwt.decode token).isSome → token ∈ s.handed
  | _ => True

/-- A token that has been handed out has a row, which says whether it was revoked. -/
structure Kept (pwd : CryptContext) (users : List User) (past : List (Event jwt))
    (s : Server jwt) : Prop where
  jtis : (s.db.tokens.map TokenBlocklist.jti).Nodup
  saved : ∀ token ∈ s.handed, ∃ claims, token = jwt.encode claims ∧
    ∃ revoked, claims.row revoked ∈ s.db.tokens ∧ (revoked = true ↔ RevokedIn pwd users past claims)
  checked : ∀ id endpoint current user, s.tasks id = some (.request endpoint current user) →
    jwt.encode current ∈ s.handed
  known : ∀ claims, RevokedIn pwd users past claims →
    claims.jti ∈ s.db.tokens.map TokenBlocklist.jti

theorem revokedIn_concat (past : List (Event jwt)) (e : Event jwt) (claims : Claims) :
    RevokedIn pwd users (past ++ [e]) claims ↔
      RevokedIn pwd users past claims ∨ Revokes claims (serverAfter pwd users past) e :=
  Runs.occurs_concat _ _ _ _ _

theorem serverAfter_concat (past : List (Event jwt)) (e : Event jwt) :
    serverAfter pwd users (past ++ [e]) = serverStep pwd (serverAfter pwd users past) e := by
  rw [serverAfter, Runs.run_append]
  rfl

/-- A row says which claims it is of. -/
theorem Claims.row_injective {claims claims' : Claims} {revoked revoked' : Bool}
    (h : claims.row revoked = claims'.row revoked') : claims = claims' ∧ revoked = revoked' := by
  cases claims
  cases claims'
  simp only [Claims.row, TokenBlocklist.mk.injEq] at h
  simp [h]

theorem Kept.row_unique {past : List (Event jwt)} {s : Server jwt} (h : Kept pwd users past s)
    {row row' : TokenBlocklist} (hrow : row ∈ s.db.tokens) (hrow' : row' ∈ s.db.tokens)
    (hjti : row.jti = row'.jti) : row = row' :=
  List.inj_on_of_nodup_map h.jtis hrow hrow' hjti

theorem Kept.encoded {past : List (Event jwt)} {s : Server jwt} (h : Kept pwd users past s) :
    ∀ token ∈ s.handed, ∃ claims, token = jwt.encode claims := by
  intro token htoken
  obtain ⟨claims, hclaims, -⟩ := h.saved token htoken
  exact ⟨claims, hclaims⟩

section Step

variable {past : List (Event jwt)} {e : Event jwt} {s' : Server jwt}

/-- Rows are added, and some of their tokens are handed out. -/
theorem Kept.save (h : Kept pwd users past (serverAfter pwd users past))
    (hno : ∀ claims, ¬ Revokes claims (serverAfter pwd users past) e) (new given : List Claims)
    (hgiven : given ⊆ new) (hnew : (new.map Claims.jti).Nodup)
    (hfresh : ∀ claims ∈ new,
      claims.jti ∉ (serverAfter pwd users past).db.tokens.map TokenBlocklist.jti)
    (htokens : s'.db.tokens =
      (serverAfter pwd users past).db.tokens ++ new.map fun claims => claims.row false)
    (hhanded : s'.handed = (serverAfter pwd users past).handed ++ given.map jwt.encode)
    (htasks : ∀ id endpoint current user, s'.tasks id = some (.request endpoint current user) →
      jwt.encode current ∈ (serverAfter pwd users past).handed) :
    Kept pwd users (past ++ [e]) s' := by
  have hrevoked : ∀ claims, RevokedIn pwd users (past ++ [e]) claims ↔
      RevokedIn pwd users past claims := by
    intro claims
    rw [revokedIn_concat, or_iff_left (hno claims)]
  have hjtis : s'.db.tokens.map TokenBlocklist.jti =
      (serverAfter pwd users past).db.tokens.map TokenBlocklist.jti ++ new.map Claims.jti := by
    rw [htokens, List.map_append, List.map_map]
    rfl
  constructor
  · rw [hjtis, List.nodup_append']
    refine ⟨h.jtis, hnew, ?_⟩
    intro jti hold hadded
    obtain ⟨claims, hclaims, rfl⟩ := List.mem_map.mp hadded
    exact hfresh claims hclaims hold
  · intro token htoken
    rw [hhanded, List.mem_append] at htoken
    rcases htoken with htoken | htoken
    · obtain ⟨claims, rfl, revoked, hrow, hiff⟩ := h.saved token htoken
      exact ⟨claims, rfl, revoked, htokens ▸ List.mem_append_left _ hrow,
        hiff.trans (hrevoked _).symm⟩
    · obtain ⟨claims, hclaims, rfl⟩ := List.mem_map.mp htoken
      refine ⟨claims, rfl, false, ?_, ?_⟩
      · rw [htokens]
        exact List.mem_append_right _ (List.mem_map_of_mem (hgiven hclaims))
      · rw [hrevoked]
        refine iff_of_false (by simp) fun hrev => ?_
        exact hfresh claims (hgiven hclaims) (h.known claims hrev)
  · intro id endpoint current user htask
    rw [hhanded]
    exact List.mem_append_left _ (htasks id endpoint current user htask)
  · intro claims hrev
    rw [hjtis]
    exact List.mem_append_left _ (h.known claims ((hrevoked claims).mp hrev))

/-- Nothing is added. -/
theorem Kept.same (h : Kept pwd users past (serverAfter pwd users past))
    (hno : ∀ claims, ¬ Revokes claims (serverAfter pwd users past) e)
    (htokens : s'.db.tokens = (serverAfter pwd users past).db.tokens)
    (hhanded : s'.handed = (serverAfter pwd users past).handed)
    (htasks : ∀ id endpoint current user, s'.tasks id = some (.request endpoint current user) →
      jwt.encode current ∈ (serverAfter pwd users past).handed) :
    Kept pwd users (past ++ [e]) s' :=
  h.save hno [] [] (List.nil_subset []) List.nodup_nil (by simp) (by simpa using htokens)
    (by simpa using hhanded) htasks

/-- The row of a token that is in use. -/
theorem Kept.row (h : Kept pwd users past s') (hlawful : jwt.Lawful) {claims : Claims}
    (hhanded : jwt.encode claims ∈ s'.handed) : ∃ revoked, claims.row revoked ∈ s'.db.tokens ∧
      (revoked = true ↔ RevokedIn pwd users past claims) := by
  obtain ⟨claims', hencode, hrow⟩ := h.saved _ hhanded
  rwa [encode_injective hlawful hencode]

/-- After one entry was set, a task is the new one or was there before. -/
theorem of_update {tasks : Nat → Option Task} {id id' : Nat} {new : Option Task} {task : Task}
    (htask : Function.update tasks id new id' = some task) :
    new = some task ∨ tasks id' = some task := by
  by_cases hid : id' = id
  · rw [hid, Function.update_self] at htask
    exact .inl htask
  · rw [Function.update_of_ne hid] at htask
    exact .inr htask

/-- A task that goes leaves the others. -/
theorem Kept.update_none (h : Kept pwd users past s') (id id' : Nat) (endpoint : Endpoint)
    (current : Claims) (user : User)
    (htask : Function.update s'.tasks id none id' = some (.request endpoint current user)) :
    jwt.encode current ∈ s'.handed := by
  rcases of_update htask with hnone | htask
  · contradiction
  · exact h.checked id' endpoint current user htask

/-- A token is revoked, and all other rows stay as they are. -/
theorem Kept.revoke (h : Kept pwd users past (serverAfter pwd users past)) (hlawful : jwt.Lawful)
    {id now : Nat} {random : Random} {endpoint : Endpoint} {current : Claims} {user : User}
    (htask : (serverAfter pwd users past).tasks id = some (.request endpoint current user))
    (hrevokes : endpoint.revokes = true)
    (htokens : s'.db.tokens = (serverAfter pwd users past).db.tokens.map
      (TokenBlocklist.mark current.jti current.sub))
    (hhanded : s'.handed = (serverAfter pwd users past).handed)
    (htasks : s'.tasks = Function.update (serverAfter pwd users past).tasks id none) :
    Kept pwd users (past ++ [.proceed id now random]) s' := by
  have hrevokes_iff : ∀ claims,
      Revokes claims (serverAfter pwd users past) (.proceed id now random) ↔ claims = current := by
    intro claims
    constructor
    · rintro ⟨endpoint', user', hworking, -⟩
      rw [Event.working, htask] at hworking
      cases hworking
      rfl
    · rintro rfl
      exact ⟨endpoint, user, htask, hrevokes⟩
  have hjtis : s'.db.tokens.map TokenBlocklist.jti =
      (serverAfter pwd users past).db.tokens.map TokenBlocklist.jti := by
    rw [htokens, List.map_map]
    exact List.map_congr_left fun row _ => TokenBlocklist.mark_jti _ _ row
  obtain ⟨revoked₀, hrow₀, -⟩ := h.row hlawful (h.checked id endpoint current user htask)
  constructor
  · rw [hjtis]
    exact h.jtis
  · intro token htoken
    rw [hhanded] at htoken
    obtain ⟨claims, rfl, revoked, hrow, hiff⟩ := h.saved token htoken
    have hmarked := List.mem_map_of_mem hrow (f := TokenBlocklist.mark current.jti current.sub)
    rw [← htokens] at hmarked
    refine ⟨claims, rfl, ?_⟩
    rw [revokedIn_concat, hrevokes_iff]
    by_cases hsame : claims = current
    · subst hsame
      exact ⟨true, by simpa [TokenBlocklist.mark, Claims.row] using hmarked, by simp⟩
    · refine ⟨revoked, ?_, by simp [hiff, hsame]⟩
      have hjti : claims.jti ≠ current.jti := by
        intro hjti
        exact hsame (Claims.row_injective (h.row_unique hrow hrow₀ hjti)).1
      rwa [TokenBlocklist.mark, if_neg (fun hboth => hjti hboth.1)] at hmarked
  · intro id' endpoint' current' user' htask'
    rw [hhanded]
    exact h.update_none id id' endpoint' current' user' (htasks ▸ htask')
  · intro claims hrev
    rw [hjtis]
    rw [revokedIn_concat, hrevokes_iff] at hrev
    rcases hrev with hrev | rfl
    · exact h.known claims hrev
    · exact List.mem_map_of_mem hrow₀ (f := TokenBlocklist.jti)

/-- What a check has found. -/
theorem jwtRequired_eq_some_iff {db : Database} {now : Nat} {refresh : Bool} {token : jwt.Token}
    {current : Claims} {user : User} :
    jwtRequired jwt db now refresh token = some (current, user) ↔
      jwt.decode token = some current ∧ now < current.exp ∧
        (current.type = .refresh ↔ refresh = true) ∧ isTokenRevoked db current = false ∧
        db.user? current.sub = some user := by
  have htype : (current.type = .refresh ↔ refresh = true) ↔
      decide (current.type = .refresh) = refresh := by
    cases refresh <;> simp
  rw [htype]
  constructor
  · intro h
    unfold jwtRequired at h
    split at h
    · contradiction
    · next claims hdecode =>
      split at h
      · contradiction
      split at h
      · contradiction
      · next htype hrevoked =>
        obtain ⟨user', huser, hpair⟩ := Option.map_eq_some_iff.mp h
        cases hpair
        obtain ⟨hclaims, hexp⟩ := Option.filter_eq_some_iff.mp hdecode
        exact ⟨hclaims, by simpa using hexp, not_not.mp htype, by simpa using hrevoked, huser⟩
  · rintro ⟨hdecode, hexp, rfl, hrevoked, huser⟩
    have hdecoded : jwt.decodeToken now token = some current := by
      simp [JwtManager.decodeToken, hdecode, Option.filter_some, hexp]
    simp [jwtRequired, hdecoded, hrevoked, huser]

theorem jwtRequired_user {db : Database} {now : Nat} {refresh : Bool} {token : jwt.Token}
    {current : Claims} {user : User}
    (h : jwtRequired jwt db now refresh token = some (current, user)) : user.id = current.sub := by
  obtain ⟨-, -, -, -, huser⟩ := jwtRequired_eq_some_iff.mp h
  simpa using List.find?_some huser

/-- What is checked has been handed out. -/
theorem handed_of_checked {s : Server jwt} {id now : Nat} {endpoint : Endpoint} {token : jwt.Token}
    {current : Claims} {user : User} (hunforged : Unforged s (.request id now endpoint token))
    (hsaved : ∀ token ∈ s.handed, ∃ claims, token = jwt.encode claims) (hlawful : jwt.Lawful)
    (hchecked : jwtRequired jwt s.db now endpoint.needsRefresh token = some (current, user)) :
    jwt.encode current ∈ s.handed := by
  obtain ⟨hdecode, -⟩ := jwtRequired_eq_some_iff.mp hchecked
  have hmem := hunforged (by rw [hdecode]; rfl)
  obtain ⟨claims, rfl⟩ := hsaved token hmem
  rw [hlawful claims, Option.some.injEq] at hdecode
  rwa [← hdecode]

theorem not_revokes {s : Server jwt} (hworking : ∀ endpoint current user,
    e.working s = some (.request endpoint current user) → endpoint.revokes = false)
    (claims : Claims) : ¬ Revokes claims s e := by
  rintro ⟨endpoint, user, htask, hrevokes⟩
  rw [hworking endpoint claims user htask] at hrevokes
  contradiction

theorem Kept.step (h : Kept pwd users past (serverAfter pwd users past)) (hlawful : jwt.Lawful)
    (hunforged : Unforged (serverAfter pwd users past) e) :
    Kept pwd users (past ++ [e]) (serverAfter pwd users (past ++ [e])) := by
  rw [serverAfter_concat]
  generalize hnext : serverStep pwd (serverAfter pwd users past) e = next
  have hmoved := serverStep_moved hlawful pwd (serverAfter pwd users past) e
  rw [hnext] at hmoved
  cases hmoved with
  | stay e hidle => exact h.same (not_revokes (by simp [hidle])) rfl rfl h.checked
  | login id now username password user hright =>
      refine h.same (not_revokes (by simp [Event.working])) rfl rfl ?_
      intro id' endpoint current user' htask
      rcases of_update htask with hlogin | htask
      · cases hlogin
      · exact h.checked id' endpoint current user' htask
  | check id now endpoint token current user hchecked =>
      refine h.same (not_revokes (by simp [Event.working])) rfl rfl ?_
      intro id' endpoint' current' user' htask
      rcases of_update htask with hchecks | htask
      · cases hchecks
        exact handed_of_checked hunforged h.encoded hlawful hchecked
      · exact h.checked id' endpoint' current' user' htask
  | half id now random identity htask hnew =>
      refine h.save (not_revokes (by simp [Event.working, htask]))
        [accessClaims identity random.jti now] [] (List.nil_subset _) (by simp) ?_ rfl (by simp)
        (h.update_none id)
      simpa [accessClaims] using hnew
  | loggedIn id now random identity htask hnew hnew' hne =>
      refine h.save (not_revokes (by simp [Event.working, htask]))
        [accessClaims identity random.jti now, refreshClaims identity random.jti' now] _
        (List.Subset.refl _) ?_ ?_ rfl rfl (h.update_none id)
      · simpa [accessClaims, refreshClaims] using Ne.symm hne
      · simp only [List.mem_cons, List.not_mem_nil, or_false, forall_eq_or_imp, forall_eq]
        exact ⟨hnew, hnew'⟩
  | refreshed id now random current user htask hnew =>
      refine h.save (not_revokes (by simp [Event.working, htask, Endpoint.revokes]))
        [accessClaims current.sub random.jti now] _ (List.Subset.refl _) (by simp) ?_ rfl rfl
        (h.update_none id)
      simpa [accessClaims] using hnew
  | revoked id now random endpoint current user htask hrevokes =>
      exact h.revoke hlawful htask hrevokes rfl rfl rfl
  | notRevoked id now random endpoint current user htask hrevokes hno =>
      obtain ⟨revoked, hrow, -⟩ := h.row hlawful (h.checked id endpoint current user htask)
      have hnone : ∀ row ∈ (serverAfter pwd users past).db.tokens, row.jti = current.jti →
          row.userId ≠ current.sub := by
        simpa [revokeToken] using hno
      exact absurd rfl (hnone _ hrow rfl)
  | users id now random task users' htask hother hmoved =>
      refine h.same (not_revokes fun endpoint current user hworking => ?_) rfl rfl
        (h.update_none id)
      rw [Event.working, htask, Option.some.injEq] at hworking
      exact hother endpoint current user hworking

theorem kept_serverAfter (hlawful : jwt.Lawful) {events : List (Event jwt)}
    (hunforged : Runs.Steps (serverStep pwd) Unforged (start jwt users) events) :
    Kept pwd users events (serverAfter pwd users events) := by
  refine Runs.Steps.history (Kept pwd users) ?_ hunforged ?_
  · intro past e hpast he
    exact Kept.step hpast hlawful he
  · exact ⟨by simp [start], by simp [start], by simp [start], fun claims hrev => hrev.elim⟩

end Step

/-- A row is found for a token that was handed out, and it says what has happened. -/
theorem Kept.isTokenRevoked_iff {events : List (Event jwt)} {s : Server jwt}
    (h : Kept pwd users events s) (hlawful : jwt.Lawful) {claims : Claims}
    (hhanded : jwt.encode claims ∈ s.handed) :
    isTokenRevoked s.db claims = true ↔ RevokedIn pwd users events claims := by
  obtain ⟨revoked, hrow, hiff⟩ := h.row hlawful hhanded
  rw [← hiff]
  unfold isTokenRevoked
  split
  · next row hfound =>
    have hjti : row.jti = claims.jti := by simpa using List.find?_some hfound
    rw [h.row_unique (List.mem_of_find?_eq_some hfound) hrow hjti]
    rfl
  · next hnone => simpa [Claims.row] using List.find?_eq_none.mp hnone _ hrow

/-- In every run in which no token is forged: a token that has been handed out passes
the check of its kind exactly as long as it has not expired, no request that revokes
it has ended, and there is a user with the number that it is for. -/
theorem handed_passes_iff (jwt : JwtManager) (hlawful : jwt.Lawful) (pwd : CryptContext)
    (users : List User) (events : List (Event jwt))
    (hunforged : Runs.Steps (serverStep pwd) Unforged (start jwt users) events)
    (claims : Claims) (hhanded : jwt.encode claims ∈ (serverAfter pwd users events).handed)
    (now : Nat) (refresh : Bool) :
    (jwtRequired jwt (serverAfter pwd users events).db now refresh (jwt.encode claims)).isSome ↔
      now < claims.exp ∧ (claims.type = .refresh ↔ refresh = true) ∧
        ¬ RevokedIn pwd users events claims ∧
        ∃ user ∈ (serverAfter pwd users events).db.users, user.id = claims.sub := by
  have h := kept_serverAfter hlawful hunforged
  set s := serverAfter pwd users events
  rw [← h.isTokenRevoked_iff hlawful hhanded, Bool.not_eq_true]
  constructor
  · intro hpasses
    obtain ⟨⟨current, user⟩, hchecked⟩ := Option.isSome_iff_exists.mp hpasses
    have hfound := jwtRequired_user hchecked
    obtain ⟨hdecode, hexp, htype, hlive, huser⟩ := jwtRequired_eq_some_iff.mp hchecked
    rw [hlawful, Option.some.injEq] at hdecode
    subst hdecode
    exact ⟨hexp, htype, hlive, user, List.mem_of_find?_eq_some huser, hfound⟩
  · rintro ⟨hexp, htype, hlive, user, huser, hid⟩
    have hsome : (s.db.user? claims.sub).isSome := by
      rw [Database.user?, List.find?_isSome]
      exact ⟨user, huser, by simpa using hid⟩
    obtain ⟨user', huser'⟩ := Option.isSome_iff_exists.mp hsome
    rw [jwtRequired_eq_some_iff.mpr ⟨hlawful claims, hexp, htype, hlive, huser'⟩]
    rfl

/-- Tokens that say what they are, and passwords that are stored as they are. -/
abbrev plainTokens : JwtManager := ⟨Claims, id, some⟩

def plainPasswords : CryptContext := ⟨fun _ secret => secret, fun secret hash => secret == hash⟩

theorem plainTokens_lawful : plainTokens.Lawful := fun _ => rfl

/-- The user of `manage.py`. -/
def admin : User :=
  ⟨1, "admin".toList, "admin@mail.com".toList, "admin".toList, some true⟩

/-- A login that has brought the tokens `a` and `b`. -/
def adminLogin : List (Event plainTokens) :=
  [.login 0 0 true (some "admin".toList) (some "admin".toList), .proceed 0 0 ⟨['a'], ['b'], []⟩]

theorem adminLogin_handed : (serverAfter plainPasswords [admin] adminLogin).handed =
    [accessClaims 1 ['a'] 0, refreshClaims 1 ['b'] 0] := by decide +kernel

/-- A token that passes no more after it was revoked. -/
theorem handed_passes_iff_revoked :
    let events : List (Event plainTokens) := adminLogin ++
      [.request 1 1 .revokeAccessToken (accessClaims 1 ['a'] 0), .proceed 1 1 ⟨[], [], []⟩]
    (jwtRequired plainTokens (serverAfter plainPasswords [admin] events).db 2 false
      (accessClaims 1 ['a'] 0)).isSome = false := by
  intro events
  have hmem : accessClaims 1 ['a'] 0 ∈ (serverAfter plainPasswords [admin] adminLogin).handed := by
    rw [adminLogin_handed]
    exact List.mem_cons_self
  have hunforged : Runs.Steps (serverStep plainPasswords) Unforged (start plainTokens [admin])
      events := ⟨trivial, trivial, fun _ => hmem, trivial, trivial⟩
  have hhanded : accessClaims 1 ['a'] 0 ∈ (serverAfter plainPasswords [admin] events).handed := by
    decide +kernel
  have hiff := handed_passes_iff plainTokens plainTokens_lawful plainPasswords [admin] events
    hunforged (accessClaims 1 ['a'] 0) hhanded 2 false
  have hrevokes : ((serverAfter plainPasswords [admin] (events.take 3)).tasks 1) =
      some (.request .revokeAccessToken (accessClaims 1 ['a'] 0) admin) := by decide +kernel
  rw [← Bool.not_eq_true]
  intro hpasses
  exact (hiff.mp hpasses).2.2.1
    (.inr (.inr (.inr (.inl ⟨.revokeAccessToken, admin, hrevokes, rfl⟩))))

end CodingLearners.TtApp
