import FreeBox.Lib.Interleaving
import FreeBox.Server.OAuth

/-!
# OAuth flows

Model of the handlers `initiate`, `callback`, `link_provider` and
`unlink_provider` in `apps/server/src/api/oauth.rs`. Each SQL statement outside a
transaction, each transaction and each exchange with a provider is one atomic
call; requests run concurrently.

Results:
* `advance_cases`: everything that one call can do.
* `CallCase.effect`: which calls change users and linked identities, and how.
-/

namespace FreeBox.Server.OAuth

open FreeBox.Lib

/-! ## Providers -/

/-- `oauth::ProviderMeta`. -/
structure ProviderMeta where
  authUrl : String
  tokenUrl : String
  scopes : List String
  profileUrl : String

/-- `oauth::provider_meta`. -/
def providerMeta (provider : String) : Except AppError ProviderMeta :=
  if provider = "github" then
    .ok
      { authUrl := "https://github.com/login/oauth/authorize"
        tokenUrl := "https://github.com/login/oauth/access_token"
        scopes := ["read:user", "user:email"]
        profileUrl := "https://api.github.com/user" }
  else if provider = "google" then
    .ok
      { authUrl := "https://accounts.google.com/o/oauth2/v2/auth"
        tokenUrl := "https://oauth2.googleapis.com/token"
        scopes := ["openid", "email", "profile"]
        profileUrl := "https://www.googleapis.com/oauth2/v3/userinfo" }
  else if provider = "microsoft" then
    .ok
      { authUrl := "https://login.microsoftonline.com/common/oauth2/v2.0/authorize"
        tokenUrl := "https://login.microsoftonline.com/common/oauth2/v2.0/token"
        scopes := ["openid", "email", "profile", "User.Read"]
        profileUrl := "https://graph.microsoft.com/v1.0/me" }
  else if provider = "apple" then
    .ok
      { authUrl := "https://appleid.apple.com/auth/authorize"
        tokenUrl := "https://appleid.apple.com/auth/token"
        scopes := ["name", "email"]
        profileUrl := "" }
  else if provider = "facebook" then
    .ok
      { authUrl := "https://www.facebook.com/v19.0/dialog/oauth"
        tokenUrl := "https://graph.facebook.com/v19.0/oauth/access_token"
        scopes := ["email", "public_profile"]
        profileUrl := "https://graph.facebook.com/me?fields=id,name,email,picture" }
  else .error (.notFound ("unknown OAuth provider: " ++ provider))

/-- `config::OAuthProviderConfig`. -/
structure OAuthProviderConfig where
  clientId : String
  clientSecret : String
  redirectUri : String

/-- `config::OAuthConfig`. -/
structure OAuthConfig where
  github : Option OAuthProviderConfig
  google : Option OAuthProviderConfig
  microsoft : Option OAuthProviderConfig
  apple : Option OAuthProviderConfig
  facebook : Option OAuthProviderConfig

/-- An OAuth2 client of the `oauth2` crate. -/
structure OAuthClient where
  config : OAuthProviderConfig
  «meta» : ProviderMeta

/-- `auth::Claims`, times in seconds. -/
structure Claims where
  sub : Uuid
  username : String
  exp : ℤ
  iat : ℤ

/-- What the handlers read of `state::AppState`, and the functions of the standard
    library and of third-party crates that they call. -/
structure AppState where
  oauth : OAuthConfig
  oauthReactivationMaxAgeDays : UInt32
  jwtAccessTtlSecs : UInt64
  jwtRefreshTtlSecs : UInt64
  /-- `str::to_lowercase`. -/
  toLowercase : String → String
  /-- The `url` crate can parse the string. -/
  validUrl : String → Bool
  /-- `authorize_url` with the scopes, the CSRF state and the PKCE challenge. -/
  authorizeUrl : OAuthClient → (csrfState pkceVerifier : String) → String
  /-- `jsonwebtoken::encode` with the server's secret. -/
  encode : Claims → Option String

variable (st : AppState)

/-- `OAuthConfig::get`. -/
def configOf (provider : String) : Option OAuthProviderConfig :=
  let name := st.toLowercase provider
  if name = "github" then st.oauth.github
  else if name = "google" then st.oauth.google
  else if name = "microsoft" then st.oauth.microsoft
  else if name = "apple" then st.oauth.apple
  else if name = "facebook" then st.oauth.facebook
  else none

/-- `oauth::build_oauth_client`. -/
def buildOAuthClient (config : OAuthProviderConfig) (pm : ProviderMeta) :
    Except AppError OAuthClient :=
  if st.validUrl pm.authUrl ∧ st.validUrl pm.tokenUrl ∧ st.validUrl config.redirectUri then
    .ok ⟨config, pm⟩
  else .error .internal

/-- The provider is configured and known. -/
def checkProvider (provider : String) : Except AppError (OAuthProviderConfig × ProviderMeta) :=
  match configOf st provider with
  | none => .error (.notFound ("OAuth provider '" ++ provider ++ "' is not configured"))
  | some config => (providerMeta provider).map fun pm => (config, pm)

/-- The provider is configured and known, and its client can be built. -/
def clientFor (provider : String) : Except AppError OAuthClient :=
  (checkProvider st provider).bind fun (config, pm) => buildOAuthClient st config pm

/-! ## Requests and responses -/

/-- A callback request, with what the provider answers to the token exchange and to
    `fetch_user_profile` for its code. -/
structure CallbackRequest where
  provider : String
  state : String
  answer : Except AppError OAuthUserProfile
  draws : Draws

/-- `auth::AuthResponse`. -/
structure AuthResponse where
  accessToken : String
  refreshToken : String
  userId : Uuid

inductive Response
  /-- 200 with `OAuthInitiateResponse`. -/
  | initiated (authorizeUrl : String)
  /-- 200 with `AuthResponse`. -/
  | tokens (response : AuthResponse)
  /-- 204. -/
  | noContent
  | error (e : AppError)

/-- The database and the clock. -/
structure World where
  now : Timestamp
  db : Db

/-- `INTERVAL '5 minutes'`. -/
def stateTtl : ℤ := 5 * 60 * 1000000000

/-- The row of `oauth_states` for a flow that starts now. -/
def stateRow (pkceVerifier provider : String) (now : Timestamp) : OAuthStateRow where
  pkceVerifier
  provider
  createdAt := now
  expiresAt := now + stateTtl

/-- The `provider` column of a link flow. -/
def linkProvider (userId : Uuid) (provider : String) : String :=
  "link:" ++ toString userId ++ ":" ++ provider

/-- The flow that a stored `provider` column stands for: the user of a link flow, or
    none for a login. -/
def readFlow (stored provider : String) : Except AppError (Option Uuid) :=
  let mismatch := .error (.unauthorized "OAuth state provider mismatch")
  if startsWith "link:" stored then
    match splitn ':' 3 stored.toList with
    | [_, user, linked] =>
      if String.ofList linked = provider then
        match Uuid.parseStr user with
        | some userId => .ok (some userId)
        | none => .error .internal
      else mismatch
    | _ => mismatch
  else if stored = provider then .ok none
  else mismatch

/-- `Claims::new`. -/
def newClaims (userId : Uuid) (username : String) (now : Timestamp) : Claims where
  sub := userId
  username
  exp := now / 1000000000 + st.jwtAccessTtlSecs.toNat
  iat := now / 1000000000

/-- `auth::issue_token_pair`, with the two identifiers that make up the refresh token. -/
def issueTokenPair (w : World) (userId : Uuid) (username : String) (token : Uuid × Uuid) :
    Except AppError (World × AuthResponse) :=
  match st.encode (newClaims st userId username w.now) with
  | none => .error .internal
  | some accessToken =>
    let refreshToken := toString token.1 ++ toString token.2
    match w.db.storeToken refreshToken
      { userId
        username
        expiresAt := w.now + st.jwtRefreshTtlSecs.toNat * 1000000000
        createdAt := w.now } with
    | none => .error .internal
    | some db => .ok ({ w with db }, { accessToken, refreshToken, userId })

/-! ## Handlers -/

/-- A handler in flight, at its next call. -/
inductive Job
  /-- `initiate`: `INSERT INTO oauth_states`. -/
  | initiate (provider csrfState pkceVerifier : String)
  /-- `link_provider`: `SELECT COUNT(*) …`. -/
  | linkCount (userId : Uuid) (provider csrfState pkceVerifier : String)
  /-- `INSERT INTO oauth_states`. -/
  | linkStore (userId : Uuid) (provider csrfState pkceVerifier authorizeUrl : String)
  /-- `callback`: `DELETE FROM oauth_states … RETURNING …`. -/
  | callback (r : CallbackRequest)
  /-- The token exchange and the fetch of the profile. -/
  | exchange (linkUserId : Option Uuid) (provider : String) (r : CallbackRequest)
  /-- `SELECT user_id FROM oauth_accounts …` of a link flow. -/
  | linkSelect (userId : Uuid) (provider : String) (profile : OAuthUserProfile) (draws : Draws)
  /-- `INSERT INTO oauth_accounts …`. -/
  | linkInsert (userId : Uuid) (provider : String) (profile : OAuthUserProfile) (draws : Draws)
  /-- `SELECT username FROM users …`. -/
  | linkUsername (userId : Uuid) (draws : Draws)
  /-- The transaction of `find_or_create_user`. -/
  | login (provider : String) (profile : OAuthUserProfile) (draws : Draws)
  /-- `issue_token_pair`: `INSERT INTO refresh_tokens`. -/
  | issueTokens (userId : Uuid) (username : String) (draws : Draws)
  /-- `unlink_provider`: `SELECT password_hash IS NOT NULL …`. -/
  | unlinkPassword (userId : Uuid) (provider : String)
  /-- `SELECT COUNT(*) …`. -/
  | unlinkCount (userId : Uuid) (provider : String) (hasPassword : Bool)
  /-- `DELETE FROM oauth_accounts …`. -/
  | unlinkDelete (userId : Uuid) (provider : String)

/-- What happens outside these handlers: the passing of time. -/
inductive Event
  | tick (d : ℕ)

/-- The request ends with the error `e`. -/
abbrev reject (w : World) (e : AppError) : Option (World × Next Job Response) :=
  some (w, .done (some (.error e)))

/-- The next call of `job` succeeds. -/
def advance (w : World) : Job → Option (World × Next Job Response)
  | .initiate path csrfState pkceVerifier =>
    let provider := st.toLowercase path
    match clientFor st provider with
    | .error e => reject w e
    | .ok client =>
      match w.db.storeState csrfState (stateRow pkceVerifier provider w.now) with
      | none => reject w .internal
      | some db =>
        some ({ w with db }, .done (some (.initiated (st.authorizeUrl client csrfState pkceVerifier))))
  | .linkCount userId path csrfState pkceVerifier =>
    let provider := st.toLowercase path
    match checkProvider st provider with
    | .error e => reject w e
    | .ok (config, pm) =>
      if w.db.linkedCount userId provider > 0 then
        reject w (.conflict (provider ++ " is already linked to your account"))
      else
        match buildOAuthClient st config pm with
        | .error e => reject w e
        | .ok client => some (w, .goto (.linkStore userId provider csrfState pkceVerifier
            (st.authorizeUrl client csrfState pkceVerifier)))
  | .linkStore userId provider csrfState pkceVerifier authorizeUrl =>
    match w.db.storeState csrfState
      (stateRow pkceVerifier (linkProvider userId provider) w.now) with
    | none => reject w .internal
    | some db => some ({ w with db }, .done (some (.initiated authorizeUrl)))
  | .callback r =>
    let provider := st.toLowercase r.provider
    match w.db.takeState r.state w.now with
    | none => reject w (.unauthorized "invalid or expired OAuth state")
    | some (row, db) =>
      match readFlow row.provider provider with
      | .error e => reject { w with db } e
      | .ok linkUserId =>
        match clientFor st provider with
        | .error e => reject { w with db } e
        | .ok _ => some ({ w with db }, .goto (.exchange linkUserId provider r))
  | .exchange linkUserId provider r =>
    match r.answer with
    | .error e => reject w e
    | .ok profile =>
      match linkUserId with
      | some userId => some (w, .goto (.linkSelect userId provider profile r.draws))
      | none => some (w, .goto (.login provider profile r.draws))
  | .linkSelect userId provider profile draws =>
    match w.db.accounts.lookup (provider, profile.providerUserId) with
    | some account =>
      if account.userId ≠ userId then
        reject w (.conflict ("this " ++ provider ++
          " account is already linked to a different FreeBox user"))
      else some (w, .goto (.linkUsername userId draws))
    | none => some (w, .goto (.linkInsert userId provider profile draws))
  | .linkInsert userId provider profile draws =>
    match w.db.insertAccount provider profile.providerUserId (newAccount profile userId w.now) with
    | none => reject w .internal
    | some db => some ({ w with db }, .goto (.linkUsername userId draws))
  | .linkUsername userId draws =>
    match w.db.users.rows.lookup userId with
    | none => reject w .internal
    | some user => some (w, .goto (.issueTokens userId user.username draws))
  | .login provider profile draws =>
    let result := findOrCreateUser st.oauthReactivationMaxAgeDays w.now provider profile draws w.db
    match result.2 with
    | .error e => reject { w with db := result.1 } e
    | .ok (userId, username) =>
      some ({ w with db := result.1 }, .goto (.issueTokens userId username draws))
  | .issueTokens userId username draws =>
    match issueTokenPair st w userId username draws.token with
    | .error e => reject w e
    | .ok (w, response) => some (w, .done (some (.tokens response)))
  | .unlinkPassword userId path =>
    match w.db.hasPassword userId with
    | none => reject w .internal
    | some hasPassword => some (w, .goto (.unlinkCount userId (st.toLowercase path) hasPassword))
  | .unlinkCount userId provider hasPassword =>
    if !hasPassword ∧ w.db.accountCount userId ≤ 1 then
      reject w (.badRequest ("cannot unlink your only authentication method — set a password " ++
        "first, or link another provider before unlinking this one"))
    else some (w, .goto (.unlinkDelete userId provider))
  | .unlinkDelete userId provider =>
    some ({ w with db := w.db.unlink userId provider },
      .done (some (if w.db.linkedCount userId provider = 0 then
        .error (.notFound (provider ++ " is not linked to your account")) else .noContent)))

/-- `initiate`, `callback`, `link_provider` and `unlink_provider`. A call that fails
    ends its request. -/
def oauthHandlers : Handlers World Job Response Event where
  entry
    | .initiate .. | .linkCount .. | .callback _ | .unlinkPassword .. => true
    | _ => false
  advance w _ := advance st w
  onFail _ _ := some (.done (some (.error .internal)))
  environ
    | w, .tick d => some { w with now := w.now + d }

abbrev State := Sys World Job Response

abbrev Step := Action Job Event

abbrev step : State → Step → Option State := (oauthHandlers st).step

/-! ## What one call can do -/

/-- The next call may end the request with an error that changes nothing. -/
def Job.mayReject : Job → Bool
  | .login .. | .unlinkDelete .. => false
  | _ => true

/-- Everything that a successful call of `job` in the world `w` can do. -/
inductive CallCase (w : World) : Job → World → Next Job Response → Prop
  | rejected {job : Job} {e : AppError} (hjob : job.mayReject = true) :
      CallCase w job w (.done (some (.error e)))
  | initiated {path csrfState pkceVerifier url : String} {db : Db}
      (hstore : w.db.storeState csrfState
        (stateRow pkceVerifier (st.toLowercase path) w.now) = some db) :
      CallCase w (.initiate path csrfState pkceVerifier) { w with db }
        (.done (some (.initiated url)))
  | mayLink {userId : Uuid} {path csrfState pkceVerifier url : String}
      (hcount : w.db.linkedCount userId (st.toLowercase path) = 0) :
      CallCase w (.linkCount userId path csrfState pkceVerifier) w
        (.goto (.linkStore userId (st.toLowercase path) csrfState pkceVerifier url))
  | linkStored {userId : Uuid} {provider csrfState pkceVerifier url : String} {db : Db}
      (hstore : w.db.storeState csrfState
        (stateRow pkceVerifier (linkProvider userId provider) w.now) = some db) :
      CallCase w (.linkStore userId provider csrfState pkceVerifier url) { w with db }
        (.done (some (.initiated url)))
  | stateWasted {r : CallbackRequest} {row : OAuthStateRow} {db : Db} {e : AppError}
      (htake : w.db.takeState r.state w.now = some (row, db)) :
      CallCase w (.callback r) { w with db } (.done (some (.error e)))
  | stateTaken {r : CallbackRequest} {row : OAuthStateRow} {db : Db} {linkUserId : Option Uuid}
      (htake : w.db.takeState r.state w.now = some (row, db))
      (hflow : readFlow row.provider (st.toLowercase r.provider) = .ok linkUserId) :
      CallCase w (.callback r) { w with db }
        (.goto (.exchange linkUserId (st.toLowercase r.provider) r))
  | profileForLink {userId : Uuid} {provider : String} {r : CallbackRequest}
      {profile : OAuthUserProfile} (hprofile : r.answer = .ok profile) :
      CallCase w (.exchange (some userId) provider r) w
        (.goto (.linkSelect userId provider profile r.draws))
  | profileForLogin {provider : String} {r : CallbackRequest} {profile : OAuthUserProfile}
      (hprofile : r.answer = .ok profile) :
      CallCase w (.exchange none provider r) w (.goto (.login provider profile r.draws))
  | alreadyLinked {userId : Uuid} {provider : String} {profile : OAuthUserProfile} {draws : Draws}
      {account : OAuthAccountRow}
      (hlink : w.db.accounts.lookup (provider, profile.providerUserId) = some account)
      (huser : account.userId = userId) :
      CallCase w (.linkSelect userId provider profile draws) w (.goto (.linkUsername userId draws))
  | notLinked {userId : Uuid} {provider : String} {profile : OAuthUserProfile} {draws : Draws}
      (hfree : w.db.accounts.lookup (provider, profile.providerUserId) = none) :
      CallCase w (.linkSelect userId provider profile draws) w
        (.goto (.linkInsert userId provider profile draws))
  | linked {userId : Uuid} {provider : String} {profile : OAuthUserProfile} {draws : Draws} {db : Db}
      (hins : w.db.insertAccount provider profile.providerUserId
        (newAccount profile userId w.now) = some db) :
      CallCase w (.linkInsert userId provider profile draws) { w with db }
        (.goto (.linkUsername userId draws))
  | named {userId : Uuid} {draws : Draws} {user : UserRow}
      (huser : w.db.users.rows.lookup userId = some user) :
      CallCase w (.linkUsername userId draws) w (.goto (.issueTokens userId user.username draws))
  | loginFailed {provider : String} {profile : OAuthUserProfile} {draws : Draws} {e : AppError}
      (hresult : (findOrCreateUser st.oauthReactivationMaxAgeDays w.now provider profile draws
        w.db).2 = .error e) :
      CallCase w (.login provider profile draws)
        { w with db := (findOrCreateUser st.oauthReactivationMaxAgeDays w.now provider profile draws
          w.db).1 } (.done (some (.error e)))
  | loggedIn {provider : String} {profile : OAuthUserProfile} {draws : Draws} {userId : Uuid}
      {username : String}
      (hresult : (findOrCreateUser st.oauthReactivationMaxAgeDays w.now provider profile draws
        w.db).2 = .ok (userId, username)) :
      CallCase w (.login provider profile draws)
        { w with db := (findOrCreateUser st.oauthReactivationMaxAgeDays w.now provider profile draws
          w.db).1 } (.goto (.issueTokens userId username draws))
  | issued {userId : Uuid} {username token : String} {draws : Draws} {row : RefreshTokenRow}
      {db : Db} {response : AuthResponse} (hstore : w.db.storeToken token row = some db)
      (huser : response.userId = userId) :
      CallCase w (.issueTokens userId username draws) { w with db }
        (.done (some (.tokens response)))
  | passwordRead {userId : Uuid} {path : String} {hasPassword : Bool}
      (hread : w.db.hasPassword userId = some hasPassword) :
      CallCase w (.unlinkPassword userId path) w
        (.goto (.unlinkCount userId (st.toLowercase path) hasPassword))
  | mayUnlink {userId : Uuid} {provider : String} {hasPassword : Bool}
      (hcount : hasPassword = true ∨ 1 < w.db.accountCount userId) :
      CallCase w (.unlinkCount userId provider hasPassword) w
        (.goto (.unlinkDelete userId provider))
  | unlinked {userId : Uuid} {provider : String} :
      CallCase w (.unlinkDelete userId provider) { w with db := w.db.unlink userId provider }
        (.done (some (if w.db.linkedCount userId provider = 0 then
          .error (.notFound (provider ++ " is not linked to your account")) else .noContent)))

/-- What one call does to the linked identities, and with them to the users. -/
inductive Effect (w : World) : Job → Db → Prop
  | quiet {job : Job} {db : Db} (husers : db.users = w.db.users)
      (haccounts : db.accounts = w.db.accounts) : Effect w job db
  | link {userId : Uuid} {provider : String} {profile : OAuthUserProfile} {draws : Draws} {db : Db}
      (hins : w.db.insertAccount provider profile.providerUserId
        (newAccount profile userId w.now) = some db) :
      Effect w (.linkInsert userId provider profile draws) db
  | login {provider : String} {profile : OAuthUserProfile} {draws : Draws} {db : Db}
      {outcome : Except AppError (Uuid × String)}
      (hcase : LoginCase st.oauthReactivationMaxAgeDays w.now provider profile draws w.db db
        outcome) : Effect w (.login provider profile draws) db
  | unlink {userId : Uuid} {provider : String} :
      Effect w (.unlinkDelete userId provider) (w.db.unlink userId provider)

variable {st} {w w' : World} {job : Job} {next : Next Job Response}

theorem advance_cases (h : advance st w job = some (w', next)) : CallCase st w job w' next := by
  cases job with
  | initiate path csrfState pkceVerifier =>
    simp only [advance] at h
    split at h
    · cases h; exact .rejected rfl
    · split at h
      · cases h; exact .rejected rfl
      · next hstore => cases h; exact .initiated hstore
  | linkCount userId path csrfState pkceVerifier =>
    simp only [advance] at h
    split at h
    · cases h; exact .rejected rfl
    · split_ifs at h with hcount
      · cases h; exact .rejected rfl
      · split at h
        · cases h; exact .rejected rfl
        · cases h; exact .mayLink (Nat.eq_zero_of_not_pos hcount)
  | linkStore userId provider csrfState pkceVerifier url =>
    simp only [advance] at h
    split at h
    · cases h; exact .rejected rfl
    · next hstore => cases h; exact .linkStored hstore
  | callback r =>
    simp only [advance] at h
    split at h
    · cases h; exact .rejected rfl
    · next htake =>
      split at h
      · cases h; exact .stateWasted htake
      · next hflow =>
        split at h
        · cases h; exact .stateWasted htake
        · cases h; exact .stateTaken htake hflow
  | exchange linkUserId provider r =>
    simp only [advance] at h
    split at h
    · cases h; exact .rejected rfl
    · next hprofile =>
      cases linkUserId with
      | some userId => cases h; exact .profileForLink hprofile
      | none => cases h; exact .profileForLogin hprofile
  | linkSelect userId provider profile draws =>
    simp only [advance] at h
    split at h
    · next hlink =>
      split_ifs at h with huser
      · cases h; exact .rejected rfl
      · cases h; exact .alreadyLinked hlink (not_not.mp huser)
    · next hfree => cases h; exact .notLinked hfree
  | linkInsert userId provider profile draws =>
    simp only [advance] at h
    split at h
    · cases h; exact .rejected rfl
    · next hins => cases h; exact .linked hins
  | linkUsername userId draws =>
    simp only [advance] at h
    split at h
    · cases h; exact .rejected rfl
    · next huser => cases h; exact .named huser
  | login provider profile draws =>
    simp only [advance] at h
    split at h
    · next hresult => cases h; exact .loginFailed hresult
    · next hresult => cases h; exact .loggedIn hresult
  | issueTokens userId username draws =>
    simp only [advance, issueTokenPair] at h
    split at h
    · cases h; exact .rejected rfl
    · next htokens =>
      cases h
      split at htokens
      · cases htokens
      · split at htokens
        · cases htokens
        · next hstore => cases htokens; exact .issued hstore rfl
  | unlinkPassword userId path =>
    simp only [advance] at h
    split at h
    · cases h; exact .rejected rfl
    · next hread => cases h; exact .passwordRead hread
  | unlinkCount userId provider hasPassword =>
    simp only [advance] at h
    split_ifs at h with hcount
    · cases h; exact .rejected rfl
    · cases h
      refine .mayUnlink ?_
      cases hasPassword <;> simp_all
  | unlinkDelete userId provider => cases h; exact .unlinked

theorem CallCase.effect (h : CallCase st w job w' next) : Effect st w job w'.db := by
  cases h with
  | initiated hstore | linkStored hstore =>
    rw [(Db.storeState_eq_some hstore).2]; exact .quiet rfl rfl
  | stateWasted htake | stateTaken htake =>
    rw [(Db.takeState_eq_some htake).2.2]; exact .quiet rfl rfl
  | issued hstore => rw [(Db.storeToken_eq_some hstore).2]; exact .quiet rfl rfl
  | linked hins => exact .link hins
  | loginFailed | loggedIn => exact .login (findOrCreateUser_cases ..)
  | unlinked => exact .unlink
  | _ => exact .quiet rfl rfl

end FreeBox.Server.OAuth
