import FreeBox.Lib.Table
import FreeBox.Lib.Uuid

/-!
# Accounts

The tables of `apps/server/migrations` that hold user accounts: `users`,
`oauth_accounts`, `oauth_states`, `account_audit_events` and `refresh_tokens`,
with the statements that the handlers run on them. The structures carry the
constraints of the schema.

Results:
* `Users.byEmail_eq_some`: an email address belongs to at most one user.
* `Db.linkedUser_eq_some`, `Db.linkedUser_eq_none`: the join of `oauth_accounts`
  with `users` loses no row.
* `Db.linkedCount_insertAccount`, `Db.linkedCount_unlink_le`: the identities of a
  user at one provider after a statement.
-/

namespace FreeBox.Server

open FreeBox.Lib

/-- Nanoseconds since the Unix epoch (`chrono::DateTime<Utc>`, `TIMESTAMPTZ`). -/
abbrev Timestamp := ℤ

/-! ## Users -/

/-- A row of `users`. -/
structure UserRow where
  username : String
  email : String
  passwordHash : Option String
  argon2Salt : Option String
  createdAt : Timestamp
  deletedAt : Option Timestamp
  deriving DecidableEq

/-- `users` with `UNIQUE (username)` and `UNIQUE (email)`. -/
structure Users where
  rows : Table Uuid UserRow
  username_unique : ∀ u v r s, rows.lookup u = some r → rows.lookup v = some s →
    r.username = s.username → u = v
  email_unique : ∀ u v r s, rows.lookup u = some r → rows.lookup v = some s →
    r.email = s.email → u = v

namespace Users

def empty : Users where
  rows := ∅
  username_unique := fun _ _ _ _ h => by simp at h
  email_unique := fun _ _ _ _ h => by simp at h

variable {users : Users} {u v : Uuid} {row row' : UserRow} {email : String}

/-- `SELECT … FROM users WHERE email = $1`. -/
def byEmail (users : Users) (email : String) : Option (Uuid × UserRow) :=
  Table.firstWhere (fun _ row => row.email = email) users.rows

theorem byEmail_eq_none :
    users.byEmail email = none ↔ ∀ u row, users.rows.lookup u = some row → row.email ≠ email := by
  simp only [byEmail, Table.firstWhere_eq_none, decide_eq_false_iff_not, ne_eq]

theorem byEmail_eq_some :
    users.byEmail email = some (u, row) ↔ users.rows.lookup u = some row ∧ row.email = email := by
  constructor
  · intro h
    obtain ⟨hrow, hemail⟩ := Table.firstWhere_eq_some h
    exact ⟨hrow, of_decide_eq_true hemail⟩
  · rintro ⟨hrow, rfl⟩
    cases h : users.byEmail row.email with
    | none => exact absurd rfl (byEmail_eq_none.mp h u row hrow)
    | some found =>
      obtain ⟨hfound, hemail⟩ := Table.firstWhere_eq_some h
      obtain rfl := users.email_unique _ _ _ _ hfound hrow (of_decide_eq_true hemail)
      rw [hrow] at hfound
      cases hfound
      rfl

/-- The row does not violate a constraint. -/
def admits (users : Users) (id : Uuid) (row : UserRow) : Bool :=
  users.rows.lookup id = none ∧
    Table.firstWhere (fun _ row' => row'.username = row.username) users.rows = none ∧
    users.byEmail row.email = none

/-- A column that is unique, and new in the inserted row, stays unique. -/
theorem unique_insert {α : Type} {f : UserRow → α} {rows : Table Uuid UserRow}
    (hf : ∀ u v r s, rows.lookup u = some r → rows.lookup v = some s → f r = f s → u = v)
    (hnew : ∀ u r, rows.lookup u = some r → f r ≠ f row) (id : Uuid) :
    ∀ u v r s, (rows.insert id row).lookup u = some r → (rows.insert id row).lookup v = some s →
      f r = f s → u = v := by
  intro u v r s hr hs he
  rw [Table.lookup_insert_eq] at hr hs
  split_ifs at hr hs with hu hv hv
  · rw [hu, hv]
  · cases hr; exact absurd he.symm (hnew v s hs)
  · cases hs; exact absurd he (hnew u r hr)
  · exact hf u v r s hr hs he

/-- `INSERT INTO users`: `none` on a unique violation. -/
def insertNew (users : Users) (id : Uuid) (row : UserRow) : Option Users :=
  if h : users.admits id row = true then
    some
      { rows := users.rows.insert id row
        username_unique := by
          simp only [admits, Table.firstWhere_eq_none, decide_eq_false_iff_not,
            decide_eq_true_eq] at h
          exact unique_insert users.username_unique h.2.1 id
        email_unique := by
          simp only [admits, decide_eq_true_eq] at h
          exact unique_insert users.email_unique (byEmail_eq_none.mp h.2.2) id }
  else none

theorem insertNew_eq_some {users' : Users} (h : users.insertNew u row = some users') :
    users.rows.lookup u = none ∧ users'.rows = users.rows.insert u row := by
  unfold insertNew at h
  split_ifs at h with ha
  cases h
  simp only [admits, decide_eq_true_eq] at ha
  exact ⟨ha.1, rfl⟩

/-- `UPDATE users SET deleted_at = NULL WHERE id = $1`, the rows. -/
def restoredRows (users : Users) (u : Uuid) : Table Uuid UserRow :=
  Table.modify u (fun row => { row with deletedAt := none }) users.rows

theorem lookup_restoredRows (h : (users.restoredRows u).lookup v = some row) :
    ∃ row₀, users.rows.lookup v = some row₀ ∧ row.username = row₀.username ∧
      row.email = row₀.email ∧ row.passwordHash = row₀.passwordHash := by
  rw [restoredRows, Table.lookup_modify] at h
  split_ifs at h with hv
  · obtain ⟨row₀, hrow₀, rfl⟩ := Option.map_eq_some_iff.mp h
    exact ⟨row₀, hv ▸ hrow₀, rfl, rfl, rfl⟩
  · exact ⟨row, h, rfl, rfl, rfl⟩

/-- `UPDATE users SET deleted_at = NULL WHERE id = $1`. -/
def clearDeletedAt (users : Users) (u : Uuid) : Users where
  rows := users.restoredRows u
  username_unique := by
    intro v w r s hr hs he
    obtain ⟨r₀, hr₀, hr, -⟩ := lookup_restoredRows hr
    obtain ⟨s₀, hs₀, hs, -⟩ := lookup_restoredRows hs
    exact users.username_unique v w r₀ s₀ hr₀ hs₀ (by rw [← hr, he, hs])
  email_unique := by
    intro v w r s hr hs he
    obtain ⟨r₀, hr₀, -, hr, -⟩ := lookup_restoredRows hr
    obtain ⟨s₀, hs₀, -, hs, -⟩ := lookup_restoredRows hs
    exact users.email_unique v w r₀ s₀ hr₀ hs₀ (by rw [← hr, he, hs])

theorem lookup_clearDeletedAt : (users.clearDeletedAt u).rows.lookup v =
    if v = u then (users.rows.lookup u).map (fun row => { row with deletedAt := none })
    else users.rows.lookup v :=
  Table.lookup_modify ..

theorem admits_iff : users.admits u row = true ↔
    users.rows.lookup u = none ∧ ∀ v row', users.rows.lookup v = some row' →
      row'.username ≠ row.username ∧ row'.email ≠ row.email := by
  rw [admits, decide_eq_true_eq, byEmail, Table.firstWhere_eq_none, Table.firstWhere_eq_none]
  simp only [decide_eq_false_iff_not]
  constructor
  · rintro ⟨hid, hname, hemail⟩
    exact ⟨hid, fun v row' hrow => ⟨hname v row' hrow, hemail v row' hrow⟩⟩
  · rintro ⟨hid, hrows⟩
    exact ⟨hid, fun v row' hrow => (hrows v row' hrow).1, fun v row' hrow => (hrows v row' hrow).2⟩

/-- An inserted row stands in the way of another with the same key, name or address. -/
theorem admits_insertNew {users' : Users} (h : users.insertNew v row' = some users') :
    users'.admits u row = true ↔ users.admits u row = true ∧
      u ≠ v ∧ row'.username ≠ row.username ∧ row'.email ≠ row.email := by
  obtain ⟨hfree, hrows⟩ := insertNew_eq_some h
  rw [admits_iff, admits_iff, hrows]
  constructor
  · rintro ⟨hid, hall⟩
    rw [Table.lookup_insert_eq] at hid
    split_ifs at hid with hne
    refine ⟨⟨hid, fun x r hr => hall x r ?_⟩, hne, hall v row' (AList.lookup_insert _)⟩
    rw [Table.lookup_insert_eq, if_neg (by rintro rfl; rw [hfree] at hr; cases hr)]
    exact hr
  · rintro ⟨⟨hid, hall⟩, hne, hrow⟩
    refine ⟨by rw [Table.lookup_insert_eq, if_neg hne]; exact hid, fun x r hr => ?_⟩
    rw [Table.lookup_insert_eq] at hr
    split_ifs at hr
    · cases hr; exact hrow
    · exact hall x r hr

theorem admits_clearDeletedAt :
    (users.clearDeletedAt v).admits u row = true ↔ users.admits u row = true := by
  have hnone : ∀ x, (users.clearDeletedAt v).rows.lookup x = none ↔ users.rows.lookup x = none := by
    intro x
    rw [lookup_clearDeletedAt]
    split_ifs with hx
    · rw [hx, Option.map_eq_none_iff]
    · rfl
  rw [admits_iff, admits_iff, hnone]
  refine and_congr_right fun _ => ⟨fun h x r hr => ?_, fun h x r hr => ?_⟩
  · by_cases hx : x = v
    · refine h x { r with deletedAt := none } ?_
      rw [lookup_clearDeletedAt, if_pos hx, ← hx, hr]
      rfl
    · exact h x r (by rw [lookup_clearDeletedAt, if_neg hx]; exact hr)
  · obtain ⟨r₀, hr₀, hname, hemail, -⟩ := lookup_restoredRows hr
    rw [hname, hemail]
    exact h x r₀ hr₀

end Users

/-! ## The other tables -/

/-- A row of `oauth_accounts` without its key `(provider, provider_user_id)`. -/
structure OAuthAccountRow where
  userId : Uuid
  providerEmail : Option String
  providerUsername : Option String
  avatarUrl : Option String
  createdAt : Timestamp
  updatedAt : Timestamp
  deriving DecidableEq

/-- A row of `oauth_states` without its key `state`. -/
structure OAuthStateRow where
  pkceVerifier : String
  provider : String
  createdAt : Timestamp
  expiresAt : Timestamp
  deriving DecidableEq

/-- The `details` of an audit event. -/
structure AuditDetails where
  reason : String
  deletedAt : Timestamp
  deriving DecidableEq

/-- A row of `account_audit_events`. -/
structure AuditEvent where
  userId : Uuid
  eventType : String
  source : String
  provider : String
  providerUserId : String
  details : AuditDetails
  createdAt : Timestamp
  deriving DecidableEq

/-- A row of `refresh_tokens` without its key `token`. -/
structure RefreshTokenRow where
  userId : Uuid
  username : String
  expiresAt : Timestamp
  createdAt : Timestamp
  deriving DecidableEq

/-- The database, latest audit event first. `accounts_user` is the foreign key of
    `oauth_accounts`. -/
structure Db where
  users : Users
  accounts : Table (String × String) OAuthAccountRow
  oauthStates : Table String OAuthStateRow
  auditEvents : List AuditEvent
  refreshTokens : Table String RefreshTokenRow
  accounts_user : ∀ key account, accounts.lookup key = some account →
    (users.rows.lookup account.userId).isSome

namespace Db

def empty : Db where
  users := .empty
  accounts := ∅
  oauthStates := ∅
  auditEvents := []
  refreshTokens := ∅
  accounts_user := fun _ _ h => by simp at h

variable {db db' : Db} {u v : Uuid} {row : UserRow} {account : OAuthAccountRow}
  {provider provider' providerUserId : String}

/-! ## Queries -/

/-- `oauth_accounts JOIN users` for one identity. -/
def linkedUser (db : Db) (provider providerUserId : String) : Option (Uuid × UserRow) :=
  (db.accounts.lookup (provider, providerUserId)).bind fun account =>
    (db.users.rows.lookup account.userId).map fun row => (account.userId, row)

/-- `WHERE user_id = $1 AND provider = $2`. -/
def isLink (u : Uuid) (provider : String) (key : String × String) (account : OAuthAccountRow) :
    Bool :=
  account.userId = u ∧ key.1 = provider

/-- `SELECT COUNT(*) FROM oauth_accounts WHERE user_id = $1 AND provider = $2`. -/
def linkedCount (db : Db) (u : Uuid) (provider : String) : ℕ :=
  Table.countWhere (isLink u provider) db.accounts

/-- `SELECT COUNT(*) FROM oauth_accounts WHERE user_id = $1`. -/
def accountCount (db : Db) (u : Uuid) : ℕ :=
  Table.countWhere (fun _ account => account.userId = u) db.accounts

/-- `SELECT password_hash IS NOT NULL FROM users WHERE id = $1`. -/
def hasPassword (db : Db) (u : Uuid) : Option Bool :=
  (db.users.rows.lookup u).map fun row => row.passwordHash.isSome

theorem linkedUser_eq_some : db.linkedUser provider providerUserId = some (u, row) ↔
    ∃ account, db.accounts.lookup (provider, providerUserId) = some account ∧
      account.userId = u ∧ db.users.rows.lookup u = some row := by
  simp only [linkedUser, Option.bind_eq_some_iff, Option.map_eq_some_iff, Prod.mk.injEq]
  constructor
  · rintro ⟨account, hacc, row, hrow, rfl, rfl⟩
    exact ⟨account, hacc, rfl, hrow⟩
  · rintro ⟨account, hacc, rfl, hrow⟩
    exact ⟨account, hacc, row, hrow, rfl, rfl⟩

/-- An identity that is linked at all is linked to an existing user. -/
theorem linkedUser_eq_none : db.linkedUser provider providerUserId = none ↔
    db.accounts.lookup (provider, providerUserId) = none := by
  unfold linkedUser
  cases h : db.accounts.lookup (provider, providerUserId) with
  | none => simp
  | some account =>
    obtain ⟨row, hrow⟩ := Option.isSome_iff_exists.mp (db.accounts_user _ _ h)
    simp [hrow]

theorem linkedCount_pos : 0 < db.linkedCount u provider ↔
    ∃ id account, db.accounts.lookup (provider, id) = some account ∧ account.userId = u := by
  rw [linkedCount, Table.countWhere_pos]
  constructor
  · rintro ⟨⟨p, id⟩, account, hacc, h⟩
    obtain ⟨hu, rfl⟩ := of_decide_eq_true h
    exact ⟨id, account, hacc, hu⟩
  · rintro ⟨id, account, hacc, hu⟩
    exact ⟨(provider, id), account, hacc, decide_eq_true ⟨hu, rfl⟩⟩

/-- A user who does not exist has no identities. -/
theorem linkedCount_eq_zero (h : db.users.rows.lookup u = none) : db.linkedCount u provider = 0 := by
  by_contra hne
  obtain ⟨id, account, hacc, rfl⟩ := linkedCount_pos.mp (Nat.pos_of_ne_zero hne)
  have := db.accounts_user _ _ hacc
  rw [h] at this
  cases this

/-! ## Statements -/

/-- `UPDATE users SET deleted_at = NULL WHERE id = $1`. -/
def clearDeletedAt (db : Db) (u : Uuid) : Db :=
  { db with
    users := db.users.clearDeletedAt u
    accounts_user := by
      intro key account h
      rw [Users.lookup_clearDeletedAt]
      split_ifs with hu
      · rw [Option.isSome_map, ← hu]; exact db.accounts_user key account h
      · exact db.accounts_user key account h }

/-- `INSERT INTO account_audit_events`. -/
def logEvent (db : Db) (event : AuditEvent) : Db :=
  { db with auditEvents := event :: db.auditEvents }

/-- `INSERT INTO users`: `none` on a unique violation. -/
def insertUser (db : Db) (u : Uuid) (row : UserRow) : Option Db :=
  match h : db.users.insertNew u row with
  | none => none
  | some users => some
      { db with
        users
        accounts_user := by
          intro key account hacc
          rw [(Users.insertNew_eq_some h).2, Table.lookup_insert_eq]
          split_ifs
          · rfl
          · exact db.accounts_user key account hacc }

/-- `INSERT INTO oauth_accounts`: `none` when the identity is linked already or the
    user does not exist. -/
def insertAccount (db : Db) (provider providerUserId : String) (account : OAuthAccountRow) :
    Option Db :=
  if h : db.accounts.lookup (provider, providerUserId) = none ∧
      (db.users.rows.lookup account.userId).isSome = true then
    some
      { db with
        accounts := db.accounts.insert (provider, providerUserId) account
        accounts_user := by
          intro key account' hacc
          rw [Table.lookup_insert_eq] at hacc
          split_ifs at hacc
          · cases hacc; exact h.2
          · exact db.accounts_user key account' hacc }
  else none

/-- `UPDATE oauth_accounts SET provider_email = $1, …` for one identity. -/
def refreshAccount (db : Db) (provider providerUserId : String)
    (providerEmail providerUsername avatarUrl : Option String) (now : Timestamp) : Db :=
  { db with
    accounts := Table.modify (provider, providerUserId)
      (fun account => { account with
        providerEmail, providerUsername, avatarUrl, updatedAt := now }) db.accounts
    accounts_user := by
      intro key account h
      rw [Table.lookup_modify] at h
      split_ifs at h with hkey
      · obtain ⟨account₀, hacc₀, rfl⟩ := Option.map_eq_some_iff.mp h
        exact db.accounts_user _ account₀ hacc₀
      · exact db.accounts_user key account h }

/-- `DELETE FROM oauth_accounts WHERE user_id = $1 AND provider = $2`. -/
def unlink (db : Db) (u : Uuid) (provider : String) : Db :=
  { db with
    accounts := Table.deleteWhere (isLink u provider) db.accounts
    accounts_user := fun key account h =>
      db.accounts_user key account (Table.lookup_deleteWhere_eq_some.mp h).1 }

/-- `INSERT INTO oauth_states`: `none` when the state is taken. -/
def storeState (db : Db) (state : String) (row : OAuthStateRow) : Option Db :=
  (Table.insertNew state row db.oauthStates).map fun oauthStates => { db with oauthStates }

/-- `DELETE FROM oauth_states WHERE state = $1 AND expires_at > NOW() RETURNING …`. -/
def takeState (db : Db) (state : String) (now : Timestamp) : Option (OAuthStateRow × Db) :=
  ((db.oauthStates.lookup state).filter fun row => now < row.expiresAt).map fun row =>
    (row, { db with oauthStates := db.oauthStates.erase state })

/-- `INSERT INTO refresh_tokens`: `none` when the token is taken or the user does not
    exist. -/
def storeToken (db : Db) (token : String) (row : RefreshTokenRow) : Option Db :=
  if (db.users.rows.lookup row.userId).isSome then
    (Table.insertNew token row db.refreshTokens).map fun refreshTokens => { db with refreshTokens }
  else none

/-- `DELETE FROM refresh_tokens WHERE token = $1 AND expires_at > NOW() RETURNING …`. -/
def takeToken (db : Db) (token : String) (now : Timestamp) : Option (RefreshTokenRow × Db) :=
  ((db.refreshTokens.lookup token).filter fun row => now < row.expiresAt).map fun row =>
    (row, { db with refreshTokens := db.refreshTokens.erase token })

/-- `DELETE FROM refresh_tokens WHERE token = $1 AND user_id = $2`. -/
def deleteToken (db : Db) (token : String) (userId : Uuid) : Db :=
  { db with
    refreshTokens := Table.deleteWhere (fun token' row => token' = token ∧ row.userId = userId)
      db.refreshTokens }

/-! ## What a statement changes -/

theorem insertUser_eq_some (h : db.insertUser u row = some db') :
    db.users.rows.lookup u = none ∧ db'.users.rows = db.users.rows.insert u row ∧
      db'.accounts = db.accounts ∧ db'.auditEvents = db.auditEvents := by
  unfold insertUser at h
  split at h
  · cases h
  · next users hnew =>
    cases h
    obtain ⟨hfree, hrows⟩ := Users.insertNew_eq_some hnew
    exact ⟨hfree, hrows, rfl, rfl⟩

/-- `INSERT INTO users` changes no other table. -/
theorem insertUser_eq_update (h : db.insertUser u row = some db') :
    ∃ (users : Users) (haccounts : ∀ key account, db.accounts.lookup key = some account →
        (users.rows.lookup account.userId).isSome = true),
      users.rows = db.users.rows.insert u row ∧
      db' = { db with users, accounts_user := haccounts } := by
  unfold insertUser at h
  split at h
  · cases h
  · next users hnew =>
    cases h
    exact ⟨users, _, (Users.insertNew_eq_some hnew).2, rfl⟩

theorem exists_insertUser (h : db.users.admits u row = true) :
    ∃ db', db.insertUser u row = some db' := by
  unfold insertUser
  split
  · next hnone =>
    rw [Users.insertNew, dif_pos h] at hnone
    cases hnone
  · exact ⟨_, rfl⟩

theorem insertUser_users (h : db.insertUser u row = some db') :
    db.users.insertNew u row = some db'.users := by
  unfold insertUser at h
  split at h
  · cases h
  · next hnew => cases h; exact hnew

theorem insertAccount_eq_some
    (h : db.insertAccount provider providerUserId account = some db') :
    db.accounts.lookup (provider, providerUserId) = none ∧
      db'.accounts = db.accounts.insert (provider, providerUserId) account ∧
      db'.users = db.users ∧ db'.auditEvents = db.auditEvents := by
  unfold insertAccount at h
  split_ifs at h with hfree
  cases h
  exact ⟨hfree.1, rfl, rfl, rfl⟩

theorem exists_insertAccount (account : OAuthAccountRow)
    (hfree : db.accounts.lookup (provider, providerUserId) = none)
    (huser : (db.users.rows.lookup account.userId).isSome = true) :
    ∃ db', db.insertAccount provider providerUserId account = some db' :=
  ⟨_, dif_pos ⟨hfree, huser⟩⟩

theorem storeState_eq_some {state : String} {row : OAuthStateRow}
    (h : db.storeState state row = some db') :
    db.oauthStates.lookup state = none ∧
      db' = { db with oauthStates := db.oauthStates.insert state row } := by
  obtain ⟨states, hins, rfl⟩ := Option.map_eq_some_iff.mp h
  obtain ⟨hfree, rfl⟩ := Table.insertNew_eq_some hins
  exact ⟨hfree, rfl⟩

theorem takeState_eq_some {state : String} {row : OAuthStateRow} {now : Timestamp}
    (h : db.takeState state now = some (row, db')) :
    db.oauthStates.lookup state = some row ∧ now < row.expiresAt ∧
      db' = { db with oauthStates := db.oauthStates.erase state } := by
  obtain ⟨row', hrow, heq⟩ := Option.map_eq_some_iff.mp h
  cases heq
  obtain ⟨hrow, hlive⟩ := Option.filter_eq_some_iff.mp hrow
  exact ⟨hrow, of_decide_eq_true hlive, rfl⟩

theorem storeToken_eq_some {token : String} {row : RefreshTokenRow}
    (h : db.storeToken token row = some db') :
    db.refreshTokens.lookup token = none ∧
      db' = { db with refreshTokens := db.refreshTokens.insert token row } := by
  unfold storeToken at h
  split_ifs at h
  obtain ⟨tokens, hins, rfl⟩ := Option.map_eq_some_iff.mp h
  obtain ⟨hfree, rfl⟩ := Table.insertNew_eq_some hins
  exact ⟨hfree, rfl⟩

theorem takeToken_eq_some {token : String} {row : RefreshTokenRow} {now : Timestamp} :
    db.takeToken token now = some (row, db') ↔
      db.refreshTokens.lookup token = some row ∧ now < row.expiresAt ∧
        db' = { db with refreshTokens := db.refreshTokens.erase token } := by
  unfold takeToken
  rw [Option.map_eq_some_iff]
  constructor
  · rintro ⟨row', hrow, heq⟩
    cases heq
    obtain ⟨hrow, hlive⟩ := Option.filter_eq_some_iff.mp hrow
    exact ⟨hrow, of_decide_eq_true hlive, rfl⟩
  · rintro ⟨hrow, hlive, rfl⟩
    exact ⟨row, Option.filter_eq_some_iff.mpr ⟨hrow, decide_eq_true hlive⟩, rfl⟩

theorem linkedCount_insertAccount
    (h : db.insertAccount provider providerUserId account = some db') :
    db'.linkedCount u provider' = db.linkedCount u provider' +
      if account.userId = u ∧ provider = provider' then 1 else 0 := by
  obtain ⟨hfree, hacc, -⟩ := insertAccount_eq_some h
  rw [linkedCount, hacc, Table.countWhere_insert_new hfree]
  simp only [isLink, decide_eq_true_eq, linkedCount]

theorem linkedCount_refreshAccount (db : Db) (p id : String) (email name url : Option String)
    (now : Timestamp) (u : Uuid) (provider : String) :
    (db.refreshAccount p id email name url now).linkedCount u provider =
      db.linkedCount u provider :=
  Table.countWhere_modify fun _ => rfl

theorem linkedCount_unlink_le (db : Db) (v : Uuid) (p : String) (u : Uuid) (provider : String) :
    (db.unlink v p).linkedCount u provider ≤ db.linkedCount u provider :=
  Table.countWhere_deleteWhere_le (isLink u provider) (isLink v p) db.accounts

/-! ## Statements that take nothing away -/

/-- Between `db` and `db'` no user loses a password or an identity. -/
structure Keeps (db db' : Db) : Prop where
  password : ∀ u, db.hasPassword u = some true → db'.hasPassword u = some true
  account : ∀ key account, db.accounts.lookup key = some account →
    ∃ account', db'.accounts.lookup key = some account' ∧ account'.userId = account.userId

theorem Keeps.of_eq (husers : db'.users = db.users) (haccounts : db'.accounts = db.accounts) :
    Keeps db db' where
  password u h := by rw [hasPassword, husers]; exact h
  account key account h := ⟨account, haccounts ▸ h, rfl⟩

theorem Keeps.trans {db'' : Db} (h : Keeps db db') (h' : Keeps db' db'') : Keeps db db'' where
  password u hu := h'.password u (h.password u hu)
  account key account hacc := by
    obtain ⟨account', hacc', he⟩ := h.account key account hacc
    obtain ⟨account'', hacc'', he'⟩ := h'.account key account' hacc'
    exact ⟨account'', hacc'', he'.trans he⟩

theorem keeps_clearDeletedAt (db : Db) (u : Uuid) : Keeps db (db.clearDeletedAt u) where
  password v hv := by
    rw [hasPassword] at hv ⊢
    rw [show (db.clearDeletedAt u).users = db.users.clearDeletedAt u from rfl,
      Users.lookup_clearDeletedAt]
    split_ifs with he
    · rw [Option.map_map, ← he]; exact hv
    · exact hv
  account key account h := ⟨account, h, rfl⟩

theorem keeps_insertUser (h : db.insertUser u row = some db') : Keeps db db' where
  password v hv := by
    obtain ⟨hnew, hrows, -⟩ := insertUser_eq_some h
    rw [hasPassword] at hv ⊢
    rw [hrows, Table.lookup_insert_eq]
    split_ifs with he
    · rw [he, hnew] at hv; cases hv
    · exact hv
  account key account hacc := ⟨account, (insertUser_eq_some h).2.2.1 ▸ hacc, rfl⟩

theorem keeps_insertAccount (h : db.insertAccount provider providerUserId account = some db') :
    Keeps db db' where
  password v hv := by rw [hasPassword, (insertAccount_eq_some h).2.2.1]; exact hv
  account key account' hacc := by
    obtain ⟨hfree, haccounts, -⟩ := insertAccount_eq_some h
    refine ⟨account', ?_, rfl⟩
    rw [haccounts, Table.lookup_insert_eq]
    split_ifs with he
    · rw [he, hfree] at hacc; cases hacc
    · exact hacc

theorem keeps_refreshAccount (db : Db) (provider providerUserId : String)
    (email name url : Option String) (now : Timestamp) :
    Keeps db (db.refreshAccount provider providerUserId email name url now) where
  password _ hv := hv
  account key account h := by
    rw [show (db.refreshAccount provider providerUserId email name url now).accounts =
      Table.modify _ _ db.accounts from rfl, Table.lookup_modify]
    split_ifs with he
    · rw [← he, h]; exact ⟨_, rfl, rfl⟩
    · exact ⟨account, h, rfl⟩

end Db

end FreeBox.Server
