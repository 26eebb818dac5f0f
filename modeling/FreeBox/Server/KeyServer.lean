import FreeBox.Crypto.X3dh
import FreeBox.Lib.Trace
import FreeBox.Server.Http
import FreeBox.Server.OAuthFlow

/-!
# The key server

Model of `register` and `logout` in `apps/server/src/api/auth.rs` and of
`apps/server/src/api/keys.rs`. The column `prekey_bundles.bundle` holds what
`to_value` makes of a `PrekeyBundle` and is modelled by the bundle. The two key
handlers run one SQL statement each, so requests take effect one after another.

Results:
* `checkRegister`, `validateOneTimePrekeyBatch`: what the two ways to upload keys check,
  with `valid_of_checkRegister` and `validateOneTimePrekeyBatch_eq_ok`.
* `prekey_validators_agree`: the two validators accept the same keys, and what
  `PrekeyBundle::generate` makes.
* `handle_cases`: everything that one request can do to the stored bundles.
-/

namespace FreeBox.Server.KeyServer

open FreeBox.Lib FreeBox.Crypto

/-- What the handlers use of the cryptographic crates, beside the rest of `AppState`. -/
structure AppState extends OAuth.AppState where
  ed25519 : Ed25519
  /-- `auth::hash_password_server` for a drawn salt. -/
  hashPasswordServer : (password salt : String) → Except AppError String

/-- A row of `prekey_bundles` without its key `user_id`. -/
structure BundleRow where
  bundle : PrekeyBundle
  updatedAt : Timestamp
  deriving DecidableEq

/-- The database and the clock. -/
structure World extends OAuth.World where
  bundles : Table Uuid BundleRow

inductive Response
  /-- 201 with `AuthResponse`. -/
  | created (tokens : OAuth.AuthResponse)
  /-- 200 with the stored bundle. -/
  | bundle (b : PrekeyBundle)
  /-- 204. -/
  | noContent
  | error (e : AppError)

variable (st : AppState)

/-! ## Registration -/

def usernameMin : ℕ := 3
def usernameMax : ℕ := 32
def maxHashLen : ℕ := 256

/-- `auth::MAX_BUNDLE_SIZE`, 1 MiB. -/
def maxBundleSize : ℕ := 1024 * 1024

/-- `auth::RegisterRequest`. The JSON value `prekey_bundle` is given by the length of
    its serialization and by the result of `serde_json::from_value`. -/
structure RegisterRequest where
  username : String
  email : String
  passwordHash : String
  argon2Salt : String
  bundleSize : ℕ
  prekeyBundle : Except String PrekeyBundle

/-- The identifiers and the salt that `register` draws. -/
structure RegisterDraws where
  salt : String
  userId : Uuid
  token : Uuid × Uuid

/-- `auth::validate_username`. -/
def validateUsername (username : String) : Except AppError Unit :=
  if username.utf8ByteSize < usernameMin ∨ username.utf8ByteSize > usernameMax then
    .error (.badRequest ("username must be " ++ toString usernameMin ++ "–" ++
      toString usernameMax ++ " characters"))
  else if username.toList.all fun c => c.isAlphanum || c == '_' || c == '-' then .ok ()
  else .error (.badRequest
    "username may only contain letters, digits, underscores, and hyphens")

/-- `auth::validate_email`. -/
def validateEmail (email : String) : Except AppError Unit :=
  if email.toList = [] ∨ email.utf8ByteSize > 254 ∨ '@' ∉ email.toList ∨ ' ' ∈ email.toList then
    .error (.badRequest "invalid email address")
  else .ok ()

/-- `auth::validate_prekey_bundle`. -/
def validatePrekeyBundle (value : Except String PrekeyBundle) : Except AppError PrekeyBundle :=
  match value with
  | .error e => .error (.badRequest ("invalid prekey_bundle shape: " ++ e))
  | .ok bundle =>
    match bundle.validatePublic st.ed25519 with
    | .error e => .error (.badRequest ("invalid prekey_bundle: " ++ e))
    | .ok () => .ok bundle

/-- The checks of `register` before it hashes the password, and the bundle that it
    will store. -/
def checkRegister (r : RegisterRequest) : Except AppError PrekeyBundle := do
  validateUsername r.username
  validateEmail r.email
  if r.passwordHash.utf8ByteSize > maxHashLen then
    .error (.badRequest "password_hash exceeds maximum length")
  else if r.argon2Salt.utf8ByteSize > maxHashLen then
    .error (.badRequest "argon2_salt exceeds maximum length")
  else if r.bundleSize > maxBundleSize then
    .error (.badRequest "prekey_bundle exceeds 1 MiB limit")
  else validatePrekeyBundle st r.prekeyBundle

/-- The transaction of `register`. -/
def insertAccount (w : World) (userId : Uuid) (row : UserRow) (bundle : PrekeyBundle) :
    Except AppError World :=
  match w.db.insertUser userId row with
  | none => .error (.conflict "username or email already taken")
  | some db =>
    match Table.insertNew userId { bundle, updatedAt := w.now } w.bundles with
    | none => .error .internal
    | some bundles => .ok { w with db, bundles }

/-- `auth::register`. -/
def register (w : World) (dbFails : Bool) (r : RegisterRequest) (draws : RegisterDraws) :
    World × Response :=
  match checkRegister st r with
  | .error e => (w, .error e)
  | .ok bundle =>
    match st.hashPasswordServer r.passwordHash draws.salt with
    | .error e => (w, .error e)
    | .ok serverHash =>
      if dbFails then (w, .error .internal) else
      match insertAccount w draws.userId
        { username := r.username
          email := r.email
          passwordHash := some serverHash
          argon2Salt := some r.argon2Salt
          createdAt := w.now
          deletedAt := none } bundle with
      | .error e => (w, .error e)
      | .ok w =>
        match OAuth.issueTokenPair st.toAppState w.toWorld draws.userId r.username draws.token with
        | .error e => (w, .error e)
        | .ok (oauth, tokens) => ({ w with toWorld := oauth }, .created tokens)

/-! ## The key handlers -/

/-- `keys::MAX_REPLENISH_ONE_TIME_PREKEYS`. -/
def maxReplenishOneTimePrekeys : ℕ := 1000

/-- `keys::get_bundle`. -/
def getBundle (w : World) (dbFails : Bool) (userId : Uuid) : World × Response :=
  if dbFails then (w, .error .internal) else
  match w.bundles.lookup userId with
  | none => (w, .error (.notFound ("no prekey bundle for user " ++ toString userId)))
  | some row => (w, .bundle row.bundle)

/-- `keys::validate_one_time_prekey_batch`. -/
def validateOneTimePrekeyBatch (keys : List OneTimePrekey) : Except AppError Unit :=
  if keys = [] then .error (.badRequest "one-time prekey batch must not be empty")
  else if keys.length > maxReplenishOneTimePrekeys then
    .error (.badRequest ("too many one-time prekeys: max " ++
      toString maxReplenishOneTimePrekeys ++ ", got " ++ toString keys.length))
  else checkKeys (fun e => .badRequest ("invalid one-time prekey: " ++ e)) .badRequest [] keys

/-- `jsonb_set(bundle, '{one_time_prekeys}', (bundle->'one_time_prekeys') || $2)`. -/
def BundleRow.append (newKeys : List OneTimePrekey) (now : Timestamp) (row : BundleRow) :
    BundleRow where
  bundle := { row.bundle with oneTimePrekeys := row.bundle.oneTimePrekeys ++ newKeys }
  updatedAt := now

/-- `keys::replenish_one_time`. -/
def replenishOneTime (w : World) (dbFails : Bool) (claims : Claims)
    (newKeys : List OneTimePrekey) : World × Response :=
  match validateOneTimePrekeyBatch newKeys with
  | .error e => (w, .error e)
  | .ok () =>
    if dbFails then (w, .error .internal) else
    ({ w with bundles := Table.modify claims.sub (.append newKeys w.now) w.bundles }, .noContent)

/-- `auth::logout`. -/
def logout (w : World) (dbFails : Bool) (claims : Claims) (refreshToken : String) :
    World × Response :=
  if dbFails then (w, .error .internal) else
  ({ w with db := w.db.deleteToken refreshToken claims.sub }, .noContent)

inductive Request
  | register (r : RegisterRequest) (draws : RegisterDraws)
  | getBundle (claims : Claims) (userId : Uuid)
  | replenishOneTime (claims : Claims) (newKeys : List OneTimePrekey)

/-- A request, the time at which it runs, and whether the database fails then. -/
structure Call where
  request : Request
  now : Timestamp
  dbFails : Bool

/-- One request. -/
def handle (w : World) (c : Call) : World × Response :=
  let w := { w with now := c.now }
  match c.request with
  | .register r draws => register st w c.dbFails r draws
  | .getBundle _ userId => getBundle w c.dbFails userId
  | .replenishOneTime claims newKeys => replenishOneTime w c.dbFails claims newKeys

/-! ## What one request can do -/

variable {st} {w w' : World} {c : Call} {u : Uuid}

theorem validatePrekeyBundle_eq_ok {value : Except String PrekeyBundle} {bundle : PrekeyBundle} :
    validatePrekeyBundle st value = .ok bundle ↔
      value = .ok bundle ∧ bundle.validatePublic st.ed25519 = .ok () := by
  cases value with
  | error e => exact ⟨nofun, fun h => nomatch h.1⟩
  | ok b =>
    cases hb : b.validatePublic st.ed25519 with
    | error e =>
      simp only [validatePrekeyBundle, hb]
      refine ⟨nofun, fun h => ?_⟩
      rw [← Except.ok.inj h.1, hb] at h
      exact nomatch h.2
    | ok _ =>
      simp only [validatePrekeyBundle, hb, Except.ok.injEq]
      exact ⟨fun h => ⟨h, h ▸ hb⟩, fun h => h.1⟩

/-- Only a valid bundle passes the checks of `register`. -/
theorem valid_of_checkRegister {r : RegisterRequest} {bundle : PrekeyBundle}
    (h : checkRegister st r = .ok bundle) : bundle.validatePublic st.ed25519 = .ok () := by
  simp only [checkRegister, bind, Except.bind] at h
  split at h
  · cases h
  · split at h
    · cases h
    · split_ifs at h
      exact (validatePrekeyBundle_eq_ok.mp h).2

theorem insertAccount_eq_ok {row : UserRow} {bundle : PrekeyBundle}
    (h : insertAccount w u row bundle = .ok w') : w.bundles.lookup u = none ∧
      w'.bundles = w.bundles.insert u { bundle, updatedAt := w.now } := by
  unfold insertAccount at h
  split at h
  · cases h
  · split at h
    · cases h
    · next hbundles =>
      cases h
      exact Table.insertNew_eq_some hbundles

/-- A batch that `replenish_one_time` accepts. -/
structure ValidBatch (keys : List OneTimePrekey) : Prop where
  nonempty : keys ≠ []
  length_le : keys.length ≤ maxReplenishOneTimePrekeys
  keys : ValidKeys keys

theorem validateOneTimePrekeyBatch_eq_ok {keys : List OneTimePrekey} :
    validateOneTimePrekeyBatch keys = .ok () ↔ ValidBatch keys := by
  unfold validateOneTimePrekeyBatch
  split_ifs with hempty hmany
  · exact ⟨nofun, fun h => absurd hempty h.nonempty⟩
  · exact ⟨nofun, fun h => absurd h.length_le (Nat.not_le.mpr hmany)⟩
  · rw [checkKeys_eq_ok]
    exact ⟨fun h => ⟨hempty, Nat.not_lt.mp hmany, h.1⟩,
      fun h => ⟨h.keys, fun _ _ => List.not_mem_nil⟩⟩

theorem validKeys_iff {keys : List OneTimePrekey} :
    ValidKeys keys ↔ (∀ key ∈ keys, key.publicKey ≠ zeroKey) ∧
      keys.Pairwise fun a b => a.id ≠ b.id := by
  constructor
  · intro h
    exact ⟨h.nonzero, List.pairwise_map.mp h.ids⟩
  · intro h
    exact ⟨List.pairwise_map.mpr h.2, h.1⟩

/-- A batch passes `validate_one_time_prekey_batch` exactly when a bundle that is in order
    otherwise passes `validate_public` with it, and both accept what `generate` makes. -/
theorem prekey_validators_agree (ed : Ed25519) (x : X25519) :
    (∀ (bundle : PrekeyBundle) (keys : List OneTimePrekey), keys ≠ [] →
      bundle.ValidIdentity ed →
      (validateOneTimePrekeyBatch keys = .ok () ↔
        PrekeyBundle.validatePublic ed { bundle with oneTimePrekeys := keys } = .ok ()) ∧
      (validateOneTimePrekeyBatch keys = .ok () ↔ keys.length ≤ 1000 ∧
        (∀ key ∈ keys, key.publicKey ≠ zeroKey) ∧ keys.Pairwise fun a b => a.id ≠ b.id)) ∧
    ∀ (identity : IdentityKeyPair ed) (oneTimeCount : UInt32) (draws : PrekeyBundle.Draws),
      ed.Correct → identity.verifying ≠ zeroKey → x.publicKey draws.signedPrekey ≠ zeroKey →
      (∀ i < oneTimeCount.toNat, x.publicKey (draws.oneTime i) ≠ zeroKey) →
      oneTimeCount.toNat ≤ 1000 →
      (PrekeyBundle.generate x identity oneTimeCount draws).1.validatePublic ed = .ok () := by
  constructor
  · intro bundle keys hne hidentity
    have hbatch : validateOneTimePrekeyBatch keys = .ok () ↔
        keys.length ≤ 1000 ∧ ValidKeys keys := by
      rw [validateOneTimePrekeyBatch_eq_ok]
      exact ⟨fun h => ⟨h.length_le, h.keys⟩, fun h => ⟨hne, h.1, h.2⟩⟩
    have hbundle : PrekeyBundle.validatePublic ed { bundle with oneTimePrekeys := keys } =
        .ok () ↔ keys.length ≤ 1000 ∧ ValidKeys keys := by
      rw [PrekeyBundle.validatePublic_eq_ok]
      exact and_iff_right ⟨hidentity.identity, hidentity.signed, hidentity.signature⟩
    rw [hbundle, hbatch, ← validKeys_iff]
    exact ⟨Iff.rfl, Iff.rfl⟩
  · intro identity oneTimeCount draws hed hidentity hsigned hzero hcount
    rw [PrekeyBundle.validatePublic_eq_ok, PrekeyBundle.length_generate]
    exact ⟨⟨hidentity, hsigned, PrekeyBundle.generate_verifies hed x identity oneTimeCount draws⟩,
      hcount, PrekeyBundle.generate_validKeys hzero⟩

/-- Everything that one request can do to the stored bundles. -/
inductive CallCase (st : AppState) (w : World) (c : Call) : World → Response → Prop
  /-- The response may be an error of `issue_token_pair`. -/
  | registered {r : RegisterRequest} {draws : RegisterDraws} {bundle : PrekeyBundle} {w' : World}
      {response : Response} (hreq : c.request = .register r draws)
      (hvalid : bundle.validatePublic st.ed25519 = .ok ())
      (hnew : w.bundles.lookup draws.userId = none)
      (hbundles : w'.bundles = w.bundles.insert draws.userId { bundle, updatedAt := c.now }) :
      CallCase st w c w' response
  | fetched {claims : Claims} {u : Uuid} {row : BundleRow} {w' : World}
      (hreq : c.request = .getBundle claims u) (hdb : c.dbFails = false)
      (hrow : w.bundles.lookup u = some row) (hbundles : w'.bundles = w.bundles) :
      CallCase st w c w' (.bundle row.bundle)
  | replenished {claims : Claims} {keys : List OneTimePrekey} {w' : World}
      (hreq : c.request = .replenishOneTime claims keys) (hdb : c.dbFails = false)
      (hvalid : ValidBatch keys)
      (hbundles : w'.bundles = Table.modify claims.sub (.append keys c.now) w.bundles) :
      CallCase st w c w' .noContent
  | rejected {w' : World} {e : AppError} (hbundles : w'.bundles = w.bundles) :
      CallCase st w c w' (.error e)

theorem register_cases {r : RegisterRequest} {draws : RegisterDraws}
    (hreq : c.request = .register r draws) :
    CallCase st w c (register st { w with now := c.now } c.dbFails r draws).1
      (register st { w with now := c.now } c.dbFails r draws).2 := by
  rw [register]
  split
  · exact .rejected rfl
  · next hcheck =>
    have hvalid := valid_of_checkRegister hcheck
    split
    · exact .rejected rfl
    · split_ifs
      · exact .rejected rfl
      · split
        · exact .rejected rfl
        · next hinsert =>
          obtain ⟨hnew, hbundles⟩ := insertAccount_eq_ok hinsert
          split
          · exact .registered hreq hvalid hnew hbundles
          · exact .registered hreq hvalid hnew hbundles

theorem handle_cases (st : AppState) (w : World) (c : Call) :
    CallCase st w c (handle st w c).1 (handle st w c).2 := by
  rw [handle]
  cases hreq : c.request with
  | register r draws => exact register_cases hreq
  | getBundle claims u =>
    simp only [getBundle]
    split_ifs with hdb
    · exact .rejected rfl
    · split
      · exact .rejected rfl
      · next hrow => exact .fetched hreq (Bool.eq_false_of_not_eq_true hdb) hrow rfl
  | replenishOneTime claims keys =>
    simp only [replenishOneTime]
    split
    · exact .rejected rfl
    · next hvalid =>
      split_ifs with hdb
      · exact .rejected rfl
      · exact .replenished hreq (Bool.eq_false_of_not_eq_true hdb)
          (validateOneTimePrekeyBatch_eq_ok.mp hvalid) rfl

theorem handle_getBundle {claims : Claims} {row : BundleRow}
    (hreq : c.request = .getBundle claims u) (hdb : c.dbFails = false)
    (hrow : w.bundles.lookup u = some row) : (handle st w c).2 = .bundle row.bundle := by
  simp [handle, hreq, getBundle, hdb, hrow]

theorem handle_replenishOneTime {claims : Claims} {keys : List OneTimePrekey}
    (hreq : c.request = .replenishOneTime claims keys) (hdb : c.dbFails = false)
    (hvalid : ValidBatch keys) : (handle st w c).2 = .noContent ∧
      (handle st w c).1.bundles = Table.modify claims.sub (.append keys c.now) w.bundles := by
  simp [handle, hreq, replenishOneTime, hdb, validateOneTimePrekeyBatch_eq_ok.mpr hvalid]

/-! ## Concrete runs -/

def runServer : AppState where
  oauth := ⟨none, none, none, none, none⟩
  oauthReactivationMaxAgeDays := 30
  jwtAccessTtlSecs := 900
  jwtRefreshTtlSecs := 2592000
  toLowercase s := String.ofList (s.toList.map Char.toLower)
  validUrl _ := true
  authorizeUrl client csrfState _ := client.meta.authUrl ++ "?state=" ++ csrfState
  encode claims := some (toString claims.sub)
  ed25519 := keyRepeated
  hashPasswordServer password salt := .ok (salt ++ password)

def runUser : Uuid := ⟨1⟩

/-- A bundle with the one-time prekeys `0, …, n - 1`. -/
def runBundle (n : UInt32) : PrekeyBundle :=
  (PrekeyBundle.generate bytewise runIdentity n runDraws).1

def runRegister (n : UInt32) : Call where
  request := .register
    { username := "alice"
      email := "alice@example.com"
      passwordHash := "hash"
      argon2Salt := "salt"
      bundleSize := 1000
      prekeyBundle := .ok (runBundle n) }
    { salt := "salt", userId := runUser, token := (⟨2⟩, ⟨3⟩) }
  now := 0
  dbFails := false

def runStart : World := { now := 0, db := .empty, bundles := ∅ }

/-- The database after a user has registered with `n` one-time prekeys. -/
def runWorld (n : UInt32) : World := (handle runServer runStart (runRegister n)).1

/-- A peer asks for the bundle of this user. -/
def runFetch (peer : ℕ) : Call where
  request := .getBundle { sub := ⟨.ofNat 128 peer⟩, username := "peer", exp := 900, iat := 0 } runUser
  now := 1
  dbFails := false

/-- Two keys that are not zero. -/
def runBatch : List OneTimePrekey := [⟨0, Vector.replicate 32 9⟩, ⟨1, Vector.replicate 32 9⟩]

/-- The batch alone, in a bundle, and a generated one of two keys. -/
theorem prekey_validators_agree_run :
    validateOneTimePrekeyBatch runBatch = .ok () ∧
    PrekeyBundle.validatePublic keyRepeated
      { runBundle 0 with oneTimePrekeys := runBatch } = .ok () ∧
    (runBundle 2).validatePublic keyRepeated = .ok () := by
  obtain ⟨hagree, hgenerate⟩ := prekey_validators_agree keyRepeated bytewise
  have hidentity : (runBundle 0).ValidIdentity keyRepeated :=
    ⟨by decide +kernel, by decide +kernel,
      PrekeyBundle.generate_verifies keyRepeated_correct bytewise runIdentity 0 runDraws⟩
  obtain ⟨hbundle, hbatch⟩ := hagree (runBundle 0) runBatch (List.cons_ne_nil _ _) hidentity
  have haccepted := hbatch.mpr ⟨by decide, by decide +kernel, List.pairwise_pair.mpr (by decide)⟩
  refine ⟨haccepted, hbundle.mp haccepted, ?_⟩
  refine hgenerate runIdentity 2 runDraws keyRepeated_correct ?_ ?_ ?_ (by decide)
  · decide +kernel
  · decide +kernel
  · decide +kernel

end FreeBox.Server.KeyServer
