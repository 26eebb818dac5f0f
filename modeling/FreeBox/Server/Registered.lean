import FreeBox.Server.DeletedAccounts
import FreeBox.Server.UserRows

/-!
# Users who have registered

A client that logs in asks `get_salt` for the salt, hashes the password with it and sends the
hash to `login`. Both handlers of `apps/server/src/api/auth.rs` look for the row that the
`COMMIT` of `register` has made visible.

Results:
* `getSalt_eq_ok`, `yields_login_of_user`: what both answer for an active user.
* `registered_login`: after any run both answer by what was registered.
-/

namespace FreeBox.Server.Auth

open FreeBox.Lib Handlers
open KeyServer (RegisterRequest RegisterDraws validateUsername checkRegister)
open OAuth (AuthResponse)

/-- `auth::SaltResponse`. -/
structure SaltResponse where
  username : String
  argon2Salt : String
  deriving DecidableEq

/-- `SELECT username, argon2_salt FROM users WHERE username = $1 AND deleted_at IS NULL AND
    argon2_salt IS NOT NULL`. -/
def saltedUser (db : Db) (username : String) : Option SaltResponse :=
  (Table.firstWhere (fun _ row => row.username = username ∧ row.deletedAt = none ∧
    row.argon2Salt.isSome = true) db.users.rows).bind fun (_, row) =>
      row.argon2Salt.map fun argon2Salt => { username := row.username, argon2Salt }

/-- `auth::get_salt`. -/
def getSalt (db : Db) (dbFails : Bool) (username : String) : Except AppError SaltResponse :=
  match validateUsername username with
  | .error e => .error e
  | .ok () =>
    if dbFails then .error .internal else
    match saltedUser db username with
    | none => .error (.notFound ("user " ++ username))
    | some response => .ok response

variable {st : AppState} {w w₁ : KeyServer.World} {u : Uuid} {row : UserRow} {username : String}

/-! ## An active user -/

/-- The only user with the name is `u`. -/
theorem firstWhere_username {db : Db} {p : Uuid → UserRow → Bool}
    (hrow : db.users.rows.lookup u = some row) (hp : p u row = true)
    (hname : ∀ v found, p v found = true → found.username = row.username) :
    Table.firstWhere p db.users.rows = some (u, row) := by
  cases hfound : Table.firstWhere p db.users.rows with
  | none =>
    rw [Table.firstWhere_eq_none.mp hfound u row hrow] at hp
    cases hp
  | some x =>
    obtain ⟨v, found⟩ := x
    obtain ⟨hv, hpv⟩ := Table.firstWhere_eq_some hfound
    obtain rfl : v = u := db.users.username_unique v u found row hv hrow (hname v found hpv)
    rw [hrow] at hv
    cases hv
    rfl

theorem activeUser_eq {db : Db} (hrow : db.users.rows.lookup u = some row)
    (hactive : row.deletedAt = none) : activeUser db row.username = some (u, row) :=
  firstWhere_username hrow (decide_eq_true ⟨rfl, hactive⟩)
    fun _ _ h => (of_decide_eq_true h).1

theorem saltedUser_eq {db : Db} {argon2Salt : String} (hrow : db.users.rows.lookup u = some row)
    (hactive : row.deletedAt = none) (hsalt : row.argon2Salt = some argon2Salt) :
    saltedUser db row.username = some { username := row.username, argon2Salt } := by
  have hfound : Table.firstWhere (fun _ found => found.username = row.username ∧
      found.deletedAt = none ∧ found.argon2Salt.isSome = true) db.users.rows = some (u, row) :=
    firstWhere_username hrow (decide_eq_true ⟨rfl, hactive, by rw [hsalt]; rfl⟩)
      fun _ _ h => (of_decide_eq_true h).1
  rw [saltedUser, hfound]
  show row.argon2Salt.map _ = _
  rw [hsalt]
  rfl

theorem getSalt_eq_ok {db : Db} {argon2Salt : String}
    (hvalid : validateUsername row.username = .ok ()) (hrow : db.users.rows.lookup u = some row)
    (hactive : row.deletedAt = none) (hsalt : row.argon2Salt = some argon2Salt) :
    getSalt db false row.username = .ok { username := row.username, argon2Salt } := by
  simp only [getSalt, hvalid, saltedUser_eq hrow hactive hsalt, Bool.false_eq_true, if_false]

/-- `login` answers an active user by the stored hash. -/
theorem checkPassword_eq {storedHash : String} (hrow : w.db.users.rows.lookup u = some row)
    (hactive : row.deletedAt = none) (hhash : row.passwordHash = some storedHash)
    (password : String) :
    checkPassword st ⟨row.username, password⟩ (activeUser w.db row.username) =
      match st.verifyPasswordServer password storedHash with
      | .error e => .error e
      | .ok false => .error (.unauthorized "invalid credentials")
      | .ok true => .ok (u, row.username) := by
  rw [activeUser_eq hrow hactive]
  cases hverify : st.verifyPasswordServer password storedHash with
  | error e => simp [checkPassword, hhash, hverify]
  | ok verified => cases verified <;> simp [checkPassword, hhash, hverify]

/-- A password that is not the user's is refused, and nothing changes. -/
theorem serves_login_error {password : String} {token : Uuid × Uuid} {e : AppError}
    (hcheck : checkPassword st ⟨username, password⟩ (activeUser w.db username) = .error e) :
    (authHandlers st).Serves w (.login ⟨username, password⟩ token) w (.error e) := by
  refine .done (?_ : advance st w (.login ⟨username, password⟩ token) = _)
  simp only [advance, hcheck]

theorem yields_login_of_user {storedHash password : String} {token : Uuid × Uuid}
    (hrow : w.db.users.rows.lookup u = some row) (hactive : row.deletedAt = none)
    (hhash : row.passwordHash = some storedHash) :
    (authHandlers st).Yields w (.login ⟨row.username, password⟩ token)
      (PairFor u w.db.users) ↔
    st.verifyPasswordServer password storedHash = .ok true ∧
      CanIssue st.toAppState w.now w.db.refreshTokens u row.username token := by
  rw [yields_login]
  dsimp only
  rw [checkPassword_eq hrow hactive hhash]
  constructor
  · rintro ⟨name, hcheck, -, -, hissue⟩
    split at hcheck
    · cases hcheck
    · cases hcheck
    · next hverify => cases hcheck; exact ⟨hverify, hissue⟩
  · rintro ⟨hverify, hissue⟩
    exact ⟨row.username, by rw [hverify], rfl, Option.isSome_of_eq_some hrow, hissue⟩

/-! ## A user who has registered -/

variable {r : RegisterRequest} {draws : RegisterDraws} {tx : Registration}

theorem validateUsername_of_checkRegister {ks : KeyServer.AppState} {bundle : Crypto.PrekeyBundle}
    (h : checkRegister ks r = .ok bundle) : validateUsername r.username = .ok () := by
  simp only [checkRegister, bind, Except.bind] at h
  split at h
  · cases h
  · next hname => exact hname

/-- The rows that `register` inserts. -/
theorem prepareRegister_eq_ok {begun : Timestamp} (h : prepareRegister st begun r draws = .ok tx) :
    ∃ serverHash, st.hashPasswordServer r.passwordHash draws.salt = .ok serverHash ∧
      checkRegister st.toKeyServer r = .ok tx.bundle ∧ tx.userId = draws.userId ∧
      tx.row = { username := r.username
                 email := r.email
                 passwordHash := some serverHash
                 argon2Salt := some r.argon2Salt
                 createdAt := begun
                 deletedAt := none } := by
  simp only [prepareRegister, bind, Except.bind, pure, Except.pure] at h
  split at h
  · cases h
  · next hcheck =>
    split at h
    · cases h
    · next serverHash hhash =>
      cases h
      exact ⟨serverHash, hhash, hcheck, rfl, rfl⟩

/-- The row of a user who has registered, as long as users stay. -/
theorem registered_row {db : Db} (hcommit : commitRegistration w tx = .ok w₁)
    (hstay : w₁.db.UsersStay db) :
    ∃ row, db.users.rows.lookup tx.userId = some row ∧ tx.row.Stays row := by
  refine hstay tx.userId tx.row ?_
  rw [(registered_of_commit hcommit).users, AList.lookup_insert]

/-- The user whose row a registration has inserted. -/
theorem registered_user {db : Db} {begun : Timestamp}
    (hprepare : prepareRegister st begun r draws = .ok tx)
    (hcommit : commitRegistration w tx = .ok w₁) (hstay : w₁.db.UsersStay db) :
    ∃ row serverHash, db.users.rows.lookup draws.userId = some row ∧
      row.username = r.username ∧ row.deletedAt = none ∧ row.argon2Salt = some r.argon2Salt ∧
      row.passwordHash = some serverHash ∧ validateUsername row.username = .ok () ∧
      st.hashPasswordServer r.passwordHash draws.salt = .ok serverHash := by
  obtain ⟨serverHash, hhash, hcheck, huser, htx⟩ := prepareRegister_eq_ok hprepare
  obtain ⟨row, hrow, hstays⟩ := registered_row hcommit hstay
  rw [htx] at hstays
  rw [huser] at hrow
  have hname : row.username = r.username := hstays.username
  exact ⟨row, serverHash, hrow, hname, hstays.active rfl, hstays.argon2Salt, hstays.passwordHash,
    by rw [hname]; exact validateUsername_of_checkRegister hcheck, hhash⟩

/-- From the `COMMIT` of a registration on, whatever other requests do, `get_salt` returns the
    salt that was registered, and `login` accepts exactly the passwords that the registered
    hash verifies. -/
theorem registered_login (st : AppState) (begun : Timestamp) (r : RegisterRequest)
    (draws : RegisterDraws) (tx : Registration) (w w₁ : KeyServer.World) (s t : AccountState)
    (as : List AccountStep) (hprepare : prepareRegister st begun r draws = .ok tx)
    (hcommit : commitRegistration w tx = .ok w₁) (hs : s.world = w₁)
    (hrun : Run (accountHandlers st).step anyStep s as t) :
    getSalt t.world.db false r.username = .ok ⟨r.username, r.argon2Salt⟩ ∧
    ∃ serverHash, st.hashPasswordServer r.passwordHash draws.salt = .ok serverHash ∧
      ∀ password token,
        ((authHandlers st).Yields t.world (.login ⟨r.username, password⟩ token)
            (PairFor draws.userId t.world.db.users) ↔
          st.verifyPasswordServer password serverHash = .ok true ∧
            CanIssue st.toAppState t.world.now t.world.db.refreshTokens draws.userId r.username
              token) ∧
        (st.verifyPasswordServer password serverHash = .ok false →
          (authHandlers st).Serves t.world (.login ⟨r.username, password⟩ token) t.world
            (.error (.unauthorized "invalid credentials"))) := by
  obtain ⟨row, serverHash, hrow, hname, hactive, hsalt, hstored, hvalid, hhash⟩ :=
    registered_user hprepare hcommit (hs ▸ usersStay_run hrun)
  rw [← hname]
  refine ⟨getSalt_eq_ok hvalid hrow hactive hsalt, serverHash, hhash,
    fun password token => ⟨yields_login_of_user hrow hactive hstored, fun hverify => ?_⟩⟩
  refine serves_login_error ?_
  rw [checkPassword_eq hrow hactive hstored, hverify]

/-- What `bob` registers. -/
def runRequest : RegisterRequest where
  username := "bob"
  email := "bob@example.com"
  passwordHash := "hash"
  argon2Salt := "salt"
  bundleSize := 1000
  prekeyBundle := .ok (KeyServer.runBundle 1)

def runRegisterDraws : RegisterDraws where
  salt := "salt"
  userId := ⟨2⟩
  token := (⟨20⟩, ⟨20⟩)

/-- The world from the `COMMIT` of a registration on. -/
def runRegistered (st : AppState) (r : RegisterRequest) : Option KeyServer.World :=
  (prepareRegister st 0 r runRegisterDraws).toOption.bind fun tx =>
    (commitRegistration (startWorld 0) tx).toOption

/-- A user logs in over GitHub. -/
def runGithubLogin : List AccountStep :=
  [.arrive 1 (.inr (.initiate "github" "state" "verifier")), .advance 1 0,
    .arrive 2 (.inr (.callback
      { provider := "github"
        state := "state"
        answer := .ok
          { providerUserId := "583231", email := some "bob@example.com", username := some "bob",
            avatarUrl := none }
        draws := { userId := ⟨3⟩, usernameTag := ⟨4⟩, emailTag := ⟨5⟩, token := (⟨6⟩, ⟨6⟩) } }))] ++
    .replicate 4 (.advance 2 0)

theorem eq_ok_of_toOption {ε α : Type*} {x : Except ε α} {a : α} (h : x.toOption = some a) :
    x = .ok a := by
  cases x with
  | error e => cases h
  | ok b => cases h; rfl

/-- `bob` has registered and has logged in over GitHub. -/
def bothAnswered (t : AccountState) : Bool :=
  t.answers.length = 2 ∧
    t.world.db.refreshTokens.lookup (refreshTokenOf (⟨30⟩, ⟨31⟩)) = none

theorem exists_runRegistered {st : AppState} {r : RegisterRequest}
    (h : ((runRegistered st r).bind fun w₁ => exec (accountHandlers st).step anyStep
      (Sys.idle w₁) runGithubLogin).any bothAnswered = true) :
    ∃ tx w₁ t, prepareRegister st 0 r runRegisterDraws = .ok tx ∧
      commitRegistration (startWorld 0) tx = .ok w₁ ∧
      Run (accountHandlers st).step anyStep (Sys.idle w₁) runGithubLogin t ∧
      t.answers.length = 2 ∧
      t.world.db.refreshTokens.lookup (refreshTokenOf (⟨30⟩, ⟨31⟩)) = none := by
  obtain ⟨t, ht, hp⟩ := (Option.any_eq_true _ _).mp h
  obtain ⟨w₁, hw₁, hexec⟩ := Option.bind_eq_some_iff.mp ht
  obtain ⟨tx, hprepare, hcommit⟩ := Option.bind_eq_some_iff.mp hw₁
  exact ⟨tx, w₁, t, eq_ok_of_toOption hprepare, eq_ok_of_toOption hcommit, run_iff_exec.mpr hexec,
    of_decide_eq_true hp⟩

/-- `bob` has registered and has logged in over GitHub, too; `bob` gets the salt, and logs in
    with the right hash only. -/
theorem registered_login_run : ∃ t : AccountState, t.answers.length = 2 ∧
    getSalt t.world.db false "bob" = .ok ⟨"bob", "salt"⟩ ∧
    (authHandlers accountServer).Yields t.world (.login ⟨"bob", "hash"⟩ (⟨30⟩, ⟨31⟩))
      (PairFor ⟨2⟩ t.world.db.users) ∧
    (authHandlers accountServer).Serves t.world (.login ⟨"bob", "hush"⟩ (⟨30⟩, ⟨31⟩)) t.world
      (.error (.unauthorized "invalid credentials")) := by
  obtain ⟨tx, w₁, t, hprepare, hcommit, hrun, hanswers, htoken⟩ :=
    @exists_runRegistered accountServer runRequest (by decide +kernel)
  obtain ⟨hsalt, serverHash, hhash, hlogin⟩ := registered_login accountServer 0 runRequest
    runRegisterDraws tx (startWorld 0) w₁ (Sys.idle w₁) t runGithubLogin hprepare hcommit rfl hrun
  obtain rfl : "salthash" = serverHash := Except.ok.inj hhash
  refine ⟨t, hanswers, hsalt, (hlogin "hash" (⟨30⟩, ⟨31⟩)).1.mpr ⟨by decide +kernel, rfl, htoken⟩,
    (hlogin "hush" (⟨30⟩, ⟨31⟩)).2 (by decide +kernel)⟩

end FreeBox.Server.Auth
