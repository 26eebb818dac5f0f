import FreeBox.Server.Accounts
import FreeBox.Server.Error

/-!
# Identity resolution

Model of `find_or_create_user` in `apps/server/src/api/oauth.rs`: the transaction
that resolves a provider identity to a user, by the identity, by the email
address or by creating a user.

Results:
* `reactivateMatched_ok`: what the match of a user does.
* `findOrCreateUser_cases`: everything that one login can do to the database.
* `findOrCreateUser_of_resolve`: a new identity is linked to the user it resolves to.
-/

namespace FreeBox.Server.OAuth

open FreeBox.Lib

/-! ## Profiles -/

/-- `oauth::OAuthUserProfile`. -/
structure OAuthUserProfile where
  providerUserId : String
  email : Option String
  username : Option String
  avatarUrl : Option String
  deriving DecidableEq

/-- What one request draws from `Uuid::new_v4`, in the order of the source. -/
structure Draws where
  userId : Uuid
  usernameTag : Uuid
  emailTag : Uuid
  token : Uuid × Uuid
  deriving DecidableEq

/-- `oauth::unique_oauth_username`. What the filter leaves is ASCII, so its length in
    bytes is its length. -/
def uniqueOAuthUsername (profile : OAuthUserProfile) (tag : Uuid) : String :=
  let baseName := (profile.username.getD "user").toList.filter fun c =>
    c.isAlphanum ∨ c = '_' ∨ c = '-'
  let baseName := if baseName.length < 3 then "user".toList else baseName
  String.ofList (baseName.take 23 ++ '-' :: tag.chars.take 8)

/-- `oauth::oauth_email`. -/
def oauthEmail (provider : String) (profile : OAuthUserProfile) (tag : Uuid) : String :=
  ((profile.email.map strTrim).filter fun email => email ≠ "").getD
    ("oauth+" ++ provider ++ "+" ++ toString tag ++ "@freebox.local")

/-! ## Reactivation -/

/-- `chrono::Duration::days`, in nanoseconds. -/
def days (n : ℕ) : ℤ := n * (24 * 60 * 60 * 1000000000)

/-- `oauth::reactivation_within_window`. -/
def reactivationWithinWindow (deletedAt : Timestamp) (maxDays : UInt32) (now : Timestamp) : Bool :=
  if maxDays = 0 then true else now - deletedAt ≤ days maxDays.toNat

/-- `oauth::ensure_reactivation_allowed`. -/
def ensureReactivationAllowed (maxDays : UInt32) (now deletedAt : Timestamp) :
    Except AppError Unit :=
  if !reactivationWithinWindow deletedAt maxDays now then
    .error (.conflict ("account was deleted more than " ++ toString maxDays ++
      " days ago; contact support to restore it"))
  else .ok ()

/-- `oauth::write_reactivation_audit_event`. -/
def writeReactivationAuditEvent (db : Db) (now : Timestamp) (userId : Uuid)
    (provider providerUserId reason : String) (deletedAt : Timestamp) : Db :=
  db.logEvent
    { userId
      eventType := "account_reactivated"
      source := "oauth"
      provider
      providerUserId
      details := { reason, deletedAt }
      createdAt := now }

/-- The block `if let Some(deleted_at) = deleted_at` of the two matches, which differ
    in the reason they write down. -/
def reactivateMatched (maxDays : UInt32) (now : Timestamp) (provider providerUserId reason : String)
    (userId : Uuid) (user : UserRow) (db : Db) : Except AppError Db :=
  match user.deletedAt with
  | none => .ok db
  | some deletedAt =>
    (ensureReactivationAllowed maxDays now deletedAt).map fun _ =>
      writeReactivationAuditEvent (db.clearDeletedAt userId) now userId provider providerUserId
        reason deletedAt

/-! ## Identity resolution -/

/-- The row that links an identity to a user. -/
def newAccount (profile : OAuthUserProfile) (userId : Uuid) (now : Timestamp) : OAuthAccountRow where
  userId
  providerEmail := profile.email
  providerUsername := profile.username
  avatarUrl := profile.avatarUrl
  createdAt := now
  updatedAt := now

/-- The row of a user without a password. -/
def newUser (provider : String) (profile : OAuthUserProfile) (draws : Draws) (now : Timestamp) :
    UserRow where
  username := uniqueOAuthUsername profile draws.usernameTag
  email := oauthEmail provider profile draws.emailTag
  passwordHash := none
  argon2Salt := none
  createdAt := now
  deletedAt := none

/-- `INSERT INTO users … ON CONFLICT (email) DO UPDATE SET deleted_at = NULL`. -/
def upsertUser (provider : String) (profile : OAuthUserProfile) (draws : Draws) (now : Timestamp)
    (db : Db) : Except AppError (Db × Uuid × String) :=
  match db.users.byEmail (oauthEmail provider profile draws.emailTag) with
  | some (userId, user) => .ok (db.clearDeletedAt userId, userId, user.username)
  | none =>
    match db.insertUser draws.userId (newUser provider profile draws now) with
    | none => .error (.conflict "an account with this username or email already exists")
    | some db => .ok (db, draws.userId, (newUser provider profile draws now).username)

/-- The email match and the new user: the user to link the identity to. -/
def resolveUser (maxDays : UInt32) (now : Timestamp) (provider : String)
    (profile : OAuthUserProfile) (draws : Draws) (db : Db) : Except AppError (Db × Uuid × String) :=
  match profile.email.bind db.users.byEmail with
  | some (userId, user) =>
    (reactivateMatched maxDays now provider profile.providerUserId "oauth_email_match" userId user
      db).map fun db => (db, userId, user.username)
  | none => upsertUser provider profile draws now db

/-- `oauth::fetch_linked_oauth_user`. -/
def fetchLinkedOAuthUser (provider providerUserId : String) (db : Db) :
    Except AppError (Uuid × String) :=
  match (db.linkedUser provider providerUserId).filter fun (_, user) => user.deletedAt = none with
  | none => .error (.conflict "OAuth account was linked concurrently; please retry the login")
  | some (userId, user) => .ok (userId, user.username)

/-- `oauth::find_or_create_user`, the committed database and the result. An error rolls
    the transaction back. -/
def findOrCreateUser (maxDays : UInt32) (now : Timestamp) (provider : String)
    (profile : OAuthUserProfile) (draws : Draws) (db : Db) : Db × Except AppError (Uuid × String) :=
  match db.linkedUser provider profile.providerUserId with
  | some (userId, user) =>
    match reactivateMatched maxDays now provider profile.providerUserId "oauth_identity_match" userId
        user db with
    | .error e => (db, .error e)
    | .ok db' =>
      (db'.refreshAccount provider profile.providerUserId profile.email profile.username
        profile.avatarUrl now, .ok (userId, user.username))
  | none =>
    match resolveUser maxDays now provider profile draws db with
    | .error e => (db, .error e)
    | .ok (db', userId, username) =>
      -- `ON CONFLICT (provider, provider_user_id) DO NOTHING`
      if (provider, profile.providerUserId) ∈ db'.accounts then
        (db, fetchLinkedOAuthUser provider profile.providerUserId db)
      else
        match db'.insertAccount provider profile.providerUserId (newAccount profile userId now) with
        | none => (db, .error .internal)
        | some db'' => (db'', .ok (userId, username))

/-! ## What a login can do -/

variable {maxDays : UInt32} {now : Timestamp} {provider : String} {profile : OAuthUserProfile}
  {draws : Draws} {db db₁ db' : Db} {u v : Uuid} {user : UserRow}
  {name reason providerUserId : String}

/-- A matched user is active already, or is reactivated within the window with an
    audit event. -/
theorem reactivateMatched_ok
    (h : reactivateMatched maxDays now provider providerUserId reason u user db = .ok db') :
    (user.deletedAt = none ∧ db' = db) ∨
      ∃ t, user.deletedAt = some t ∧ reactivationWithinWindow t maxDays now = true ∧
        db' = writeReactivationAuditEvent (db.clearDeletedAt u) now u provider providerUserId
          reason t := by
  unfold reactivateMatched at h
  cases ht : user.deletedAt with
  | none => rw [ht] at h; cases h; exact .inl ⟨rfl, rfl⟩
  | some t =>
    rw [ht] at h
    simp only [ensureReactivationAllowed] at h
    cases hw : reactivationWithinWindow t maxDays now <;> rw [hw] at h <;> cases h
    exact .inr ⟨t, rfl, hw, rfl⟩

/-- Everything that `resolveUser` can do when it finds the user `u`. -/
inductive ResolveCase (maxDays : UInt32) (now : Timestamp) (provider : String)
    (profile : OAuthUserProfile) (draws : Draws) (db : Db) : Db → Uuid → String → Prop
  | email {u : Uuid} {user : UserRow} {db' : Db}
      (huser : profile.email.bind db.users.byEmail = some (u, user))
      (hre : reactivateMatched maxDays now provider profile.providerUserId "oauth_email_match" u
        user db = .ok db') :
      ResolveCase maxDays now provider profile draws db db' u user.username
  | upsert {u : Uuid} {user : UserRow} (hmiss : profile.email.bind db.users.byEmail = none)
      (huser : db.users.byEmail (oauthEmail provider profile draws.emailTag) = some (u, user)) :
      ResolveCase maxDays now provider profile draws db (db.clearDeletedAt u) u user.username
  | created {db' : Db} (hmiss : profile.email.bind db.users.byEmail = none)
      (hnew : db.users.byEmail (oauthEmail provider profile draws.emailTag) = none)
      (hins : db.insertUser draws.userId (newUser provider profile draws now) = some db') :
      ResolveCase maxDays now provider profile draws db db' draws.userId
        (newUser provider profile draws now).username

theorem resolveUser_cases (h : resolveUser maxDays now provider profile draws db = .ok (db', u, name)) :
    ResolveCase maxDays now provider profile draws db db' u name := by
  unfold resolveUser at h
  split at h
  · next v user huser =>
    cases hre : reactivateMatched maxDays now provider profile.providerUserId "oauth_email_match" v
      user db with
    | error e => rw [hre] at h; cases h
    | ok db₁ => rw [hre] at h; cases h; exact .email huser hre
  · next hmiss =>
    unfold upsertUser at h
    split at h
    · next huser => cases h; exact .upsert hmiss huser
    · next hnew =>
      split at h
      · cases h
      · next hins => cases h; exact .created hmiss hnew hins

/-- Resolving the user leaves the linked identities as they are. -/
theorem ResolveCase.accounts (h : ResolveCase maxDays now provider profile draws db db' u name) :
    db'.accounts = db.accounts := by
  cases h with
  | email _ hre => obtain ⟨-, rfl⟩ | ⟨t, -, -, rfl⟩ := reactivateMatched_ok hre <;> rfl
  | upsert => rfl
  | created _ _ hins => exact (Db.insertUser_eq_some hins).2.2.1

theorem clearDeletedAt_isSome (h : (db.users.rows.lookup u).isSome = true) :
    ((db.clearDeletedAt v).users.rows.lookup u).isSome = true := by
  rw [show (db.clearDeletedAt v).users = db.users.clearDeletedAt v from rfl,
    Users.lookup_clearDeletedAt]
  split_ifs with hu
  · rwa [Option.isSome_map, ← hu]
  · exact h

/-- The resolved user exists. -/
theorem ResolveCase.user_exists (h : ResolveCase maxDays now provider profile draws db db' u name) :
    (db'.users.rows.lookup u).isSome = true := by
  cases h with
  | email huser hre =>
    obtain ⟨address, -, hmatch⟩ := Option.bind_eq_some_iff.mp huser
    have hu := Option.isSome_of_eq_some (Users.byEmail_eq_some.mp hmatch).1
    obtain ⟨-, rfl⟩ | ⟨t, -, -, rfl⟩ := reactivateMatched_ok hre
    · exact hu
    · exact clearDeletedAt_isSome hu
  | upsert _ huser =>
    exact clearDeletedAt_isSome (Option.isSome_of_eq_some (Users.byEmail_eq_some.mp huser).1)
  | created _ _ hins =>
    rw [(Db.insertUser_eq_some hins).2.1, Table.lookup_insert_eq, if_pos rfl]
    rfl

/-- A new identity is linked to the user that it resolves to. -/
theorem findOrCreateUser_of_resolve (hlink : db.linkedUser provider profile.providerUserId = none)
    (hres : resolveUser maxDays now provider profile draws db = .ok (db₁, u, name)) :
    ∃ db₂, db₁.insertAccount provider profile.providerUserId (newAccount profile u now) = some db₂ ∧
      findOrCreateUser maxDays now provider profile draws db = (db₂, .ok (u, name)) := by
  have hcase := resolveUser_cases hres
  -- no other transaction links the identity in between
  have hfree : db₁.accounts.lookup (provider, profile.providerUserId) = none := by
    rw [hcase.accounts]; exact Db.linkedUser_eq_none.mp hlink
  obtain ⟨db₂, hins⟩ :=
    Db.exists_insertAccount (newAccount profile u now) hfree hcase.user_exists
  refine ⟨db₂, hins, ?_⟩
  simp only [findOrCreateUser, hlink, hres, if_neg (AList.lookup_eq_none.mp hfree), hins]

/-- Everything that `findOrCreateUser` can do. -/
inductive LoginCase (maxDays : UInt32) (now : Timestamp) (provider : String)
    (profile : OAuthUserProfile) (draws : Draws) (db : Db) : Db → Except AppError (Uuid × String) → Prop
  | refused {e : AppError} : LoginCase maxDays now provider profile draws db db (.error e)
  | identity {u : Uuid} {user : UserRow} {db₁ : Db}
      (hlink : db.linkedUser provider profile.providerUserId = some (u, user))
      (hre : reactivateMatched maxDays now provider profile.providerUserId "oauth_identity_match" u
        user db = .ok db₁) :
      LoginCase maxDays now provider profile draws db
        (db₁.refreshAccount provider profile.providerUserId profile.email profile.username
          profile.avatarUrl now) (.ok (u, user.username))
  | resolved {u : Uuid} {name : String} {db₁ db₂ : Db}
      (hlink : db.linkedUser provider profile.providerUserId = none)
      (hres : ResolveCase maxDays now provider profile draws db db₁ u name)
      (hins : db₁.insertAccount provider profile.providerUserId (newAccount profile u now) =
        some db₂) :
      LoginCase maxDays now provider profile draws db db₂ (.ok (u, name))

theorem findOrCreateUser_cases (maxDays : UInt32) (now : Timestamp) (provider : String)
    (profile : OAuthUserProfile) (draws : Draws) (db : Db) :
    LoginCase maxDays now provider profile draws db
      (findOrCreateUser maxDays now provider profile draws db).1
      (findOrCreateUser maxDays now provider profile draws db).2 := by
  cases hlink : db.linkedUser provider profile.providerUserId with
  | some found =>
    obtain ⟨u, user⟩ := found
    simp only [findOrCreateUser, hlink]
    cases hre : reactivateMatched maxDays now provider profile.providerUserId "oauth_identity_match"
      u user db with
    | error e => exact .refused
    | ok db₁ => exact .identity hlink hre
  | none =>
    cases hres : resolveUser maxDays now provider profile draws db with
    | error e =>
      simp only [findOrCreateUser, hlink, hres]
      exact .refused
    | ok found =>
      obtain ⟨db₁, u, name⟩ := found
      obtain ⟨db₂, hins, hrun⟩ := findOrCreateUser_of_resolve hlink hres
      rw [hrun]
      exact .resolved hlink (resolveUser_cases hres) hins

theorem loginCase_of_eq {maxDays : UInt32} {now : Timestamp} {provider : String}
    {profile : OAuthUserProfile} {draws : Draws} {db db' : Db}
    {outcome : Except AppError (Uuid × String)}
    (h : findOrCreateUser maxDays now provider profile draws db = (db', outcome)) :
    LoginCase maxDays now provider profile draws db db' outcome := by
  have hcase := findOrCreateUser_cases maxDays now provider profile draws db
  rwa [h] at hcase

end FreeBox.Server.OAuth
