import FreeBox.Lib.Sequential
import FreeBox.Server.KeyServer

/-!
# Sessions

Model of `register`, `login`, `refresh` and `logout` in `apps/server/src/api/auth.rs`, one
SQL statement after another. Statements outside a transaction are atomic; requests run
concurrently. The rows that the transaction of `register` inserts are seen by others from
its `COMMIT` on. An `INSERT` that conflicts with one of an open transaction waits for it;
here the conflict shows at the `COMMIT`.

Results:
* `advance_cases`: everything that one call can do.
* `onFail_done`: a call that fails ends its request.
-/

namespace FreeBox.Server.Auth

open FreeBox.Lib FreeBox.Crypto
open KeyServer (RegisterRequest RegisterDraws World checkRegister)
open OAuth (Claims AuthResponse issueTokenPair newClaims)

/-- What the handlers use of the cryptographic crates, beside the rest of `AppState`. -/
structure AppState extends toKeyServer : KeyServer.AppState where
  /-- `auth::verify_password_server`. -/
  verifyPasswordServer : (password storedHash : String) → Except AppError Bool

/-- `auth::LoginRequest`. -/
structure LoginRequest where
  username : String
  passwordHash : String

inductive Response
  /-- 201 with `AuthResponse`. -/
  | created (response : AuthResponse)
  /-- 200 with `AuthResponse`. -/
  | tokens (response : AuthResponse)
  /-- 204. -/
  | noContent
  | error (e : AppError)

/-- The handler that waits for `issue_token_pair`. -/
inductive Caller
  | register
  | login
  | refresh (presented : String)
  deriving DecidableEq

/-- What the handler answers with the tokens. -/
def Caller.response : Caller → AuthResponse → Response
  | .register => .created
  | .login | .refresh _ => .tokens

/-- The refresh token of two identifiers. -/
def refreshTokenOf (token : Uuid × Uuid) : String := toString token.1 ++ toString token.2

/-- What the transaction of `register` inserts. -/
structure Registration where
  userId : Uuid
  row : UserRow
  bundle : PrekeyBundle

/-- A handler in flight, at its next call. -/
inductive Job
  /-- `register`: `BEGIN`. -/
  | register (r : RegisterRequest) (draws : RegisterDraws)
  /-- `INSERT INTO users`. -/
  | insertUser (tx : Registration) (token : Uuid × Uuid)
  /-- `INSERT INTO prekey_bundles`. -/
  | insertBundle (tx : Registration) (token : Uuid × Uuid)
  /-- `COMMIT`. -/
  | commit (tx : Registration) (token : Uuid × Uuid)
  /-- `login`: `SELECT … FROM users`. -/
  | login (r : LoginRequest) (token : Uuid × Uuid)
  /-- `refresh`: `DELETE FROM refresh_tokens … RETURNING …`. -/
  | refresh (refreshToken : String) (token : Uuid × Uuid)
  /-- `issue_token_pair`: `INSERT INTO refresh_tokens`. -/
  | issueTokens (caller : Caller) (userId : Uuid) (username : String) (token : Uuid × Uuid)
  /-- `logout`: `DELETE FROM refresh_tokens`. -/
  | logout (claims : Claims) (refreshToken : String)

/-- What happens outside these handlers: the passing of time. -/
inductive Event
  | tick (d : ℕ)

variable (st : AppState)

/-! ## Handlers -/

/-- `SELECT id, username, password_hash FROM users WHERE username = $1 AND deleted_at IS
    NULL`. -/
def activeUser (db : Db) (username : String) : Option (Uuid × UserRow) :=
  Table.firstWhere (fun _ row => row.username = username ∧ row.deletedAt = none) db.users.rows

/-- What `register` does before its transaction. -/
def prepareRegister (now : Timestamp) (r : RegisterRequest) (draws : RegisterDraws) :
    Except AppError Registration := do
  let bundle ← checkRegister st.toKeyServer r
  let serverHash ← st.hashPasswordServer r.passwordHash draws.salt
  return {
    userId := draws.userId
    row := { username := r.username
             email := r.email
             passwordHash := some serverHash
             argon2Salt := some r.argon2Salt
             createdAt := now
             deletedAt := none }
    bundle }

/-- The rows of the transaction become visible. -/
def commitRegistration (w : World) (tx : Registration) : Except AppError World :=
  match w.db.insertUser tx.userId tx.row with
  | none => .error (.conflict "username or email already taken")
  | some db =>
    match Table.insertNew tx.userId { bundle := tx.bundle, updatedAt := tx.row.createdAt }
      w.bundles with
    | none => .error .internal
    | some bundles => .ok { w with db, bundles }

/-- The password check of `login`, for the row that its `SELECT` returns. -/
def checkPassword (r : LoginRequest) (user : Option (Uuid × UserRow)) :
    Except AppError (Uuid × String) :=
  let refused := .error (.unauthorized "invalid credentials")
  match user with
  | none => refused
  | some (userId, row) =>
    match row.passwordHash with
    | none => refused
    | some storedHash =>
      match st.verifyPasswordServer r.passwordHash storedHash with
      | .error e => .error e
      | .ok false => refused
      | .ok true => .ok (userId, row.username)

/-- The request ends with the error `e`. -/
abbrev reject (w : World) (e : AppError) : Option (World × Next Job Response) :=
  some (w, .done (some (.error e)))

/-- The next call of `job` succeeds. -/
def advance (w : World) : Job → Option (World × Next Job Response)
  | .register r draws =>
    match prepareRegister st w.now r draws with
    | .error e => reject w e
    | .ok tx => some (w, .goto (.insertUser tx draws.token))
  | .insertUser tx token =>
    if w.db.users.admits tx.userId tx.row then some (w, .goto (.insertBundle tx token))
    else reject w (.conflict "username or email already taken")
  | .insertBundle tx token =>
    if tx.userId ∈ w.bundles then reject w .internal else some (w, .goto (.commit tx token))
  | .commit tx token =>
    match commitRegistration w tx with
    | .error e => reject w e
    | .ok w => some (w, .goto (.issueTokens .register tx.userId tx.row.username token))
  | .login r token =>
    match checkPassword st r (activeUser w.db r.username) with
    | .error e => reject w e
    | .ok (userId, username) => some (w, .goto (.issueTokens .login userId username token))
  | .refresh refreshToken token =>
    match w.db.takeToken refreshToken w.now with
    | none => reject w (.unauthorized "refresh token invalid or expired")
    | some (row, db) => some ({ w with db },
        .goto (.issueTokens (.refresh refreshToken) row.userId row.username token))
  | .issueTokens caller userId username token =>
    match issueTokenPair st.toAppState w.toWorld userId username token with
    | .error e => reject w e
    | .ok (world, response) =>
      some ({ w with toWorld := world }, .done (some (caller.response response)))
  | .logout claims refreshToken =>
    some ({ w with db := w.db.deleteToken refreshToken claims.sub }, .done (some .noContent))

/-- The next call of `job` fails. The checks of `register` come before its `BEGIN`; they
    do not depend on the time. -/
def onFail : Job → Next Job Response
  | .register r draws =>
    match prepareRegister st 0 r draws with
    | .error e => .done (some (.error e))
    | .ok _ => .done (some (.error .internal))
  | _ => .done (some (.error .internal))

/-- `register`, `login`, `refresh` and `logout`. A call that fails ends its request, and a
    transaction that is open is rolled back. -/
def authHandlers : Handlers World Job Response Event where
  entry
    | .register .. | .login .. | .refresh .. | .logout .. => true
    | _ => false
  advance w _ := advance st w
  onFail _ job := some (onFail st job)
  environ
    | w, .tick d => some { w with now := w.now + d }

abbrev State := Sys World Job Response

abbrev Step := Action Job Event

abbrev step : State → Step → Option State := (authHandlers st).step

/-! ## What one call can do -/

/-- Everything that a successful call of `job` in the world `w` can do. -/
inductive CallCase (w : World) : Job → World → Next Job Response → Prop
  | rejected {job : Job} {e : AppError} (hjob : ∀ claims token, job ≠ .logout claims token) :
      CallCase w job w (.done (some (.error e)))
  | begun {r : RegisterRequest} {draws : RegisterDraws} {tx : Registration}
      (hprepare : prepareRegister st w.now r draws = .ok tx) :
      CallCase w (.register r draws) w (.goto (.insertUser tx draws.token))
  | userInserted {tx : Registration} {token : Uuid × Uuid}
      (hadmits : w.db.users.admits tx.userId tx.row = true) :
      CallCase w (.insertUser tx token) w (.goto (.insertBundle tx token))
  | bundleInserted {tx : Registration} {token : Uuid × Uuid} (hnew : tx.userId ∉ w.bundles) :
      CallCase w (.insertBundle tx token) w (.goto (.commit tx token))
  | committed {tx : Registration} {token : Uuid × Uuid} {w' : World}
      (hcommit : commitRegistration w tx = .ok w') :
      CallCase w (.commit tx token) w'
        (.goto (.issueTokens .register tx.userId tx.row.username token))
  | loggedIn {r : LoginRequest} {token : Uuid × Uuid} {userId : Uuid} {username : String}
      (hcheck : checkPassword st r (activeUser w.db r.username) = .ok (userId, username)) :
      CallCase w (.login r token) w (.goto (.issueTokens .login userId username token))
  | taken {refreshToken : String} {token : Uuid × Uuid} {row : RefreshTokenRow} {db : Db}
      (htake : w.db.takeToken refreshToken w.now = some (row, db)) :
      CallCase w (.refresh refreshToken token) { w with db }
        (.goto (.issueTokens (.refresh refreshToken) row.userId row.username token))
  | issued {caller : Caller} {userId : Uuid} {username accessToken : String} {token : Uuid × Uuid}
      {db : Db}
      (hencode : st.encode (newClaims st.toAppState userId username w.now) =
        some accessToken)
      (hstore : w.db.storeToken (refreshTokenOf token)
        { userId
          username
          expiresAt := w.now + st.jwtRefreshTtlSecs.toNat * 1000000000
          createdAt := w.now } = some db) :
      CallCase w (.issueTokens caller userId username token) { w with db }
        (.done (some (caller.response
          { accessToken, refreshToken := refreshTokenOf token, userId })))
  | loggedOut {claims : Claims} {refreshToken : String} :
      CallCase w (.logout claims refreshToken)
        { w with db := w.db.deleteToken refreshToken claims.sub } (.done (some .noContent))

variable {st} {w w' : World} {job : Job} {next : Next Job Response}

theorem advance_cases (h : advance st w job = some (w', next)) : CallCase st w job w' next := by
  unfold advance at h
  split at h
  · split at h
    · cases h; exact .rejected (by simp)
    · next hprepare => cases h; exact .begun hprepare
  · split_ifs at h with hadmits
    · cases h; exact .userInserted hadmits
    · cases h; exact .rejected (by simp)
  · split_ifs at h with hnew
    · cases h; exact .rejected (by simp)
    · cases h; exact .bundleInserted hnew
  · split at h
    · cases h; exact .rejected (by simp)
    · next hcommit => cases h; exact .committed hcommit
  · split at h
    · cases h; exact .rejected (by simp)
    · next hcheck => cases h; exact .loggedIn hcheck
  · split at h
    · cases h; exact .rejected (by simp)
    · next htake => cases h; exact .taken htake
  · split at h
    · cases h; exact .rejected (by simp)
    · next hissue =>
      cases h
      unfold issueTokenPair at hissue
      split at hissue
      · cases hissue
      · next hencode =>
        dsimp only at hissue
        split at hissue
        · cases hissue
        · next hstore => cases hissue; exact .issued hencode hstore
  · cases h; exact .loggedOut

/-- A call that fails ends its request. -/
theorem onFail_done (st : AppState) (job : Job) : ∃ e, onFail st job = .done (some (.error e)) := by
  unfold onFail
  split
  · split
    · exact ⟨_, rfl⟩
    · exact ⟨_, rfl⟩
  · exact ⟨_, rfl⟩

end FreeBox.Server.Auth
