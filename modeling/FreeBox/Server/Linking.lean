import FreeBox.Server.OAuthFlow

/-!
# One identity per provider

`link_provider` refuses to start a flow for a provider of which the user has an
identity already. The rows are inserted later, by the link flow and by a login
that matches an email address, and neither looks again.

Results:
* `oneIdentity_step_iff`: exactly which calls give a user a second identity of a
  provider.
* `one_identity_per_provider`: no user has two identities of a provider in a run
  without such calls.
* `two_identities`: two link flows of one user that link two identities.
-/

namespace FreeBox.Server.OAuth

open FreeBox.Lib Handlers

/-- No user has two identities of one provider. -/
def OneIdentityPerProvider (db : Db) : Prop := ∀ u provider, db.linkedCount u provider ≤ 1

/-- The existing user to whom a login links a new identity: the user with the address of
    the profile, unless deleted for too long, or else the user with the address that a new
    user would get. -/
def linkTarget (maxDays : UInt32) (now : Timestamp) (provider : String) (profile : OAuthUserProfile)
    (draws : Draws) (db : Db) : Option Uuid :=
  if (db.linkedUser provider profile.providerUserId).isSome then none
  else
    match profile.email.bind db.users.byEmail with
    | some (u, user) =>
      if user.deletedAt.all fun t => reactivationWithinWindow t maxDays now then some u else none
    | none => (db.users.byEmail (oauthEmail provider profile draws.emailTag)).map Prod.fst

/-- A user who is about to get a new identity has none of its provider. -/
def linkGuard (st : AppState) (s : State) : Step → Bool
  | .advance rid _ =>
    match s.jobs.lookup rid with
    | some (.linkInsert userId provider profile _) =>
      (s.world.db.accounts.lookup (provider, profile.providerUserId)).isSome ∨
        s.world.db.linkedCount userId provider = 0
    | some (.login provider profile draws) =>
      (linkTarget st.oauthReactivationMaxAgeDays s.world.now provider profile draws s.world.db).all
        fun userId => s.world.db.linkedCount userId provider = 0
    | _ => true
  | _ => true

variable {st : AppState} {maxDays : UInt32} {now : Timestamp}
  {provider providerUserId reason name : String} {profile : OAuthUserProfile} {draws : Draws}
  {db db₁ db' : Db} {u : Uuid} {user : UserRow}
  {account : OAuthAccountRow} {s t : State} {a : Step} {w w' : World}

/-! ## Inserting a row -/

theorem linkedCount_of_accounts (h : db'.accounts = db.accounts) :
    db'.linkedCount u provider = db.linkedCount u provider := by
  rw [Db.linkedCount, Db.linkedCount, h]

theorem oneIdentity_of_accounts (h : OneIdentityPerProvider db) (ha : db'.accounts = db.accounts) :
    OneIdentityPerProvider db' := by
  intro u provider
  rw [linkedCount_of_accounts ha]
  exact h u provider

/-- A new row keeps the rule exactly when its user has none of its provider. -/
theorem oneIdentity_insertAccount_iff (h : OneIdentityPerProvider db)
    (hins : db.insertAccount provider providerUserId account = some db') :
    OneIdentityPerProvider db' ↔ db.linkedCount account.userId provider = 0 := by
  constructor
  · intro h'
    have hcount := h' account.userId provider
    rw [Db.linkedCount_insertAccount hins, if_pos ⟨rfl, rfl⟩] at hcount
    omega
  · intro hzero u p
    rw [Db.linkedCount_insertAccount hins]
    split_ifs with hsame
    · rw [← hsame.1, ← hsame.2, hzero]
    · exact h u p

/-! ## Logins -/

theorem reactivateMatched_isOk : (∃ db', reactivateMatched maxDays now provider providerUserId reason
    u user db = .ok db') ↔
      (user.deletedAt.all fun t => reactivationWithinWindow t maxDays now) = true := by
  unfold reactivateMatched ensureReactivationAllowed
  cases user.deletedAt with
  | none => simp
  | some t => cases h : reactivationWithinWindow t maxDays now <;> simp [h, Except.map]

/-- The target is the user that a new identity resolves to. -/
theorem resolve_of_linkTarget (h : linkTarget maxDays now provider profile draws db = some u) :
    db.linkedUser provider profile.providerUserId = none ∧
      ∃ db₁ name, resolveUser maxDays now provider profile draws db = .ok (db₁, u, name) := by
  unfold linkTarget at h
  split_ifs at h with hlink
  refine ⟨Option.not_isSome_iff_eq_none.mp hlink, ?_⟩
  cases hmatch : profile.email.bind db.users.byEmail with
  | some found =>
    obtain ⟨v, user⟩ := found
    simp only [hmatch] at h
    split_ifs at h with hwindow
    cases h
    have hre : ∃ db₁, reactivateMatched maxDays now provider profile.providerUserId
        "oauth_email_match" u user db = .ok db₁ := reactivateMatched_isOk.mpr hwindow
    obtain ⟨db₁, hre⟩ := hre
    exact ⟨db₁, user.username, by simp only [resolveUser, hmatch, hre]; rfl⟩
  | none =>
    simp only [hmatch] at h
    obtain ⟨⟨v, user⟩, huser, rfl⟩ := Option.map_eq_some_iff.mp h
    exact ⟨db.clearDeletedAt v, user.username, by
      simp only [resolveUser, hmatch, upsertUser, huser]⟩

/-- The user that a new identity resolves to is the target, or has no identity. -/
theorem linkTarget_of_resolve (hlink : db.linkedUser provider profile.providerUserId = none)
    (h : ResolveCase maxDays now provider profile draws db db₁ u name) :
    linkTarget maxDays now provider profile draws db = some u ∨
      ∀ p, db.linkedCount u p = 0 := by
  have hnew : ¬(db.linkedUser provider profile.providerUserId).isSome = true := by rw [hlink]; simp
  cases h with
  | email huser hre =>
    left
    simp only [linkTarget, if_neg hnew, huser, if_pos (reactivateMatched_isOk.mp ⟨_, hre⟩)]
  | upsert hmiss huser =>
    left
    simp only [linkTarget, if_neg hnew, hmiss, huser, Option.map_some]
  | created _ _ hins => exact .inr fun p => Db.linkedCount_eq_zero (Db.insertUser_eq_some hins).1

/-- A login keeps the rule exactly when its target has no identity of the provider. -/
theorem oneIdentity_login_iff (h : OneIdentityPerProvider db) :
    OneIdentityPerProvider (findOrCreateUser maxDays now provider profile draws db).1 ↔
      ((linkTarget maxDays now provider profile draws db).all fun u =>
        db.linkedCount u provider = 0) = true := by
  constructor
  · intro h'
    cases htarget : linkTarget maxDays now provider profile draws db with
    | none => rfl
    | some u =>
      obtain ⟨hlink, db₁, name, hres⟩ := resolve_of_linkTarget htarget
      obtain ⟨db₂, hins, hrun⟩ := findOrCreateUser_of_resolve hlink hres
      have haccounts := (resolveUser_cases hres).accounts
      rw [hrun, oneIdentity_insertAccount_iff (oneIdentity_of_accounts h haccounts) hins,
        linkedCount_of_accounts haccounts] at h'
      exact decide_eq_true h'
  · intro htarget
    rcases hrun : findOrCreateUser maxDays now provider profile draws db with ⟨db', outcome⟩
    cases loginCase_of_eq hrun with
    | refused => exact h
    | @identity v user db₁ hlink hre =>
      intro u p
      refine (Db.linkedCount_refreshAccount db₁ _ _ _ _ _ _ u p).trans_le ?_
      obtain ⟨-, rfl⟩ | ⟨t, -, -, rfl⟩ := reactivateMatched_ok hre <;> exact h u p
    | resolved hlink hres hins =>
      rw [oneIdentity_insertAccount_iff (oneIdentity_of_accounts h hres.accounts) hins,
        linkedCount_of_accounts hres.accounts]
      rcases linkTarget_of_resolve hlink hres with heq | hzero
      · rw [heq] at htarget
        exact of_decide_eq_true htarget
      · exact hzero _

/-! ## Runs -/

theorem oneIdentity_linkInsert_iff {userId : Uuid} {next : Next Job Response}
    (h : OneIdentityPerProvider w.db)
    (hw : advance st w (.linkInsert userId provider profile draws) = some (w', next)) :
    OneIdentityPerProvider w'.db ↔
      (w.db.accounts.lookup (provider, profile.providerUserId)).isSome = true ∨
        w.db.linkedCount userId provider = 0 := by
  simp only [advance] at hw
  split at hw
  · next hnone =>
    cases hw
    refine iff_of_true h ?_
    by_contra hnot
    rw [not_or, Option.not_isSome_iff_eq_none] at hnot
    -- a user with an identity exists, so the row would be inserted
    obtain ⟨id, account, hacc, rfl⟩ := Db.linkedCount_pos.mp (Nat.pos_of_ne_zero hnot.2)
    have huser := w.db.accounts_user _ _ hacc
    obtain ⟨db', hins⟩ :=
      Db.exists_insertAccount (newAccount profile account.userId w.now) hnot.1 huser
    rw [hnone] at hins
    cases hins
  · next hins =>
    cases hw
    rw [oneIdentity_insertAccount_iff h hins, (Db.insertAccount_eq_some hins).1]
    simp [newAccount]

/-- From a state in which the rule holds, a step keeps it exactly when it meets the
    guard. -/
theorem oneIdentity_step_iff (h : OneIdentityPerProvider s.world.db) (hs : step st s a = some t) :
    OneIdentityPerProvider t.world.db ↔ linkGuard st s a = true := by
  cases step_cases hs with
  | @advance rid pick job w next hjob hadv =>
    have hadv : advance st s.world job = some (w, next) := hadv
    have heffect := (advance_cases hadv).effect
    simp only [linkGuard, hjob, Sys.settle_world]
    cases job with
    | linkInsert userId provider profile draws =>
      rw [oneIdentity_linkInsert_iff h hadv, decide_eq_true_eq]
    | login provider profile draws =>
      rw [← oneIdentity_login_iff h]
      cases advance_cases hadv with
      | rejected hjob => cases hjob
      | loginFailed => rfl
      | loggedIn => rfl
    | unlinkDelete userId provider =>
      cases advance_cases hadv with
      | rejected hjob => cases hjob
      | unlinked => exact iff_of_true (fun u p => (Db.linkedCount_unlink_le ..).trans (h u p)) rfl
    | _ =>
      cases heffect with
      | quiet _ haccounts => exact iff_of_true (oneIdentity_of_accounts h haccounts) rfl
  | @env e w henv =>
    cases e
    cases henv
    exact iff_of_true h rfl
  | _ => exact iff_of_true h rfl

/-- In a run whose steps all meet the guard, no user ever has two identities of one
    provider. -/
theorem one_identity_per_provider {as : List Step} (h : OneIdentityPerProvider w.db)
    (hr : Run (step st) (fun s a => linkGuard st s a = true) (Sys.idle w) as t) :
    OneIdentityPerProvider t.world.db :=
  hr.invariant _ h fun _ _ _ h hok hs => (oneIdentity_step_iff h hs).mpr hok

/-! ### Two link flows -/

/-- A server on which GitHub is configured. -/
def runServer : AppState where
  oauth :=
    { github := some { clientId := "id", clientSecret := "secret", redirectUri := "https://localhost" }
      google := none
      microsoft := none
      apple := none
      facebook := none }
  oauthReactivationMaxAgeDays := 30
  jwtAccessTtlSecs := 900
  jwtRefreshTtlSecs := 2592000
  toLowercase s := String.ofList (s.toList.map Char.toLower)
  validUrl _ := true
  authorizeUrl client csrfState _ := client.meta.authUrl ++ "?state=" ++ csrfState
  encode claims := some claims.username

/-- The user of concrete runs. -/
def runUser : Uuid := ⟨1⟩

def runWorld : World where
  now := 0
  db := (Db.empty.insertUser runUser
    { username := "alice", email := "alice@example.com", passwordHash := some "hash",
      argon2Salt := some "salt", createdAt := 0, deletedAt := none }).getD .empty

theorem oneIdentity_runWorld : OneIdentityPerProvider runWorld.db := by
  intro u p
  have hzero : runWorld.db.linkedCount u p = 0 := rfl
  rw [hzero]
  exact Nat.zero_le 1

/-- Request `rid` arrives and makes `n` calls. -/
def serve (rid n : ℕ) (job : Job) : List Step := .arrive rid job :: .replicate n (.advance rid 0)

/-- A link flow of the user starts. -/
def runLink (rid : ℕ) (csrfState : String) : List Step :=
  serve rid 2 (.linkCount runUser "github" csrfState "verifier")

/-- The user comes back from GitHub with an identity. -/
def runCallback (rid : ℕ) (csrfState providerUserId : String) (token : Uuid) : List Step :=
  serve rid 6 (.callback
    { provider := "github"
      state := csrfState
      answer := .ok { providerUserId, email := none, username := none, avatarUrl := none }
      draws := { userId := ⟨2⟩, usernameTag := ⟨3⟩, emailTag := ⟨4⟩, token := (token, token) } })

theorem one_identity_per_provider_run : ∃ t,
    Run (step runServer) (fun s a => linkGuard runServer s a = true) (Sys.idle runWorld)
      (runLink 0 "s0" ++ runCallback 1 "s0" "583231" ⟨5⟩) t ∧
    t.world.db.linkedCount runUser "github" = 1 ∧ OneIdentityPerProvider t.world.db := by
  obtain ⟨t, ht, hp⟩ := exists_run_of_exec (step runServer) (fun s a => linkGuard runServer s a = true)
    (Sys.idle runWorld) (runLink 0 "s0" ++ runCallback 1 "s0" "583231" ⟨5⟩)
    (fun t => t.world.db.linkedCount runUser "github" = 1) (by decide +kernel)
  exact ⟨t, ht, of_decide_eq_true hp, one_identity_per_provider oneIdentity_runWorld ht⟩

/-- Two link flows start one after the other, both before an identity is linked, and
    then link one identity each. -/
theorem two_identities : ∃ t, Run (step runServer) anyStep (Sys.idle runWorld)
      (runLink 0 "s0" ++ runLink 1 "s1" ++ runCallback 2 "s0" "583231" ⟨5⟩ ++
        runCallback 3 "s1" "1024025" ⟨6⟩) t ∧
    OneIdentityPerProvider runWorld.db ∧ t.world.db.linkedCount runUser "github" = 2 := by
  obtain ⟨t, ht, hp⟩ := exists_run_of_exec (step runServer) anyStep (Sys.idle runWorld)
    (runLink 0 "s0" ++ runLink 1 "s1" ++ runCallback 2 "s0" "583231" ⟨5⟩ ++
      runCallback 3 "s1" "1024025" ⟨6⟩)
    (fun t => t.world.db.linkedCount runUser "github" = 2) (by decide +kernel)
  exact ⟨t, ht, oneIdentity_runWorld, of_decide_eq_true hp⟩

end FreeBox.Server.OAuth
