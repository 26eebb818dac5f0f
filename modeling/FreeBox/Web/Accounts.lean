import FreeBox.Lib.Base64
import FreeBox.Lib.Utf16
import FreeBox.Server.Registered
import FreeBox.Web.Expiry

/-!
# The two clients at registration and login

Model of `auth_password_hash` in `packages/crypto/src/keys.rs`, of `register` and `login` in
`apps/cli/src/auth.rs`, and of `hashPassword`, `RegisterPage` and `LoginPage` of the web
client. PBKDF2 is a parameter. A text that a user types is a `String` in the terminal and a
list of UTF-16 code units in the browser.

Results:
* `hashPassword_eq`: both clients compute the same hash.
* `clients_log_in`: who has registered with one client logs in with either.
-/

namespace FreeBox.Crypto

open FreeBox.Lib

/-- PBKDF2-HMAC-SHA256: password, salt, iterations and the length of the key. -/
abbrev Pbkdf2 := Bytes → Bytes → ℕ → ℕ → Bytes

/-- `keys::auth_password_hash`, with `hex::encode`. -/
def authPasswordHash (pbkdf2 : Pbkdf2) (password salt : String) : String :=
  String.ofList ((pbkdf2 (Ecma.textEncode password.toList) (Ecma.textEncode salt.toList) 600000
    32).flatMap fun b => hexFixed 2 b.toNat)

/-- `MasterSecret::generate_salt` for drawn bytes: the alphabet of RFC 4648 without padding. -/
def generateSalt (bytes : Bytes) : String :=
  String.ofList ((Base64.encode bytes).rdropWhile (· = '='))

end FreeBox.Crypto

namespace FreeBox.Web

open FreeBox.Lib FreeBox.Crypto FreeBox.Server FreeBox.Server.Auth Handlers
open FreeBox.Server.KeyServer (RegisterRequest RegisterDraws)

/-! ## The web client -/

/-- The code units of a text. -/
def units (s : String) : List UInt16 := s.toList.flatMap JsonText.utf16

/-- `String.prototype.padStart`. -/
def padStart (n : ℕ) (c : Char) (s : List Char) : List Char := .replicate (n - s.length) c ++ s

/-- `hashPassword`. -/
def hashPassword (pbkdf2 : Pbkdf2) (password salt : List UInt16) : String :=
  String.ofList ((pbkdf2 (Ecma.encodeUnits password) (Ecma.encodeUnits salt) 600000
    (256 / 8)).flatMap fun b => padStart 2 '0' (Nat.toDigits 16 b.toNat))

/-- `argon2_salt` of `RegisterPage`, for drawn bytes. -/
def argon2Salt (bytes : Bytes) : String :=
  String.ofList (((Base64.encode bytes).map fun c => if c = '+' then '.' else c).rdropWhile
    (· = '='))

theorem padStart_toDigits : ∀ n < 256, padStart 2 '0' (Nat.toDigits 16 n) = hexFixed 2 n := by
  decide +kernel

theorem hashPassword_eq (pbkdf2 : Pbkdf2) (password salt : String) :
    hashPassword pbkdf2 (units password) (units salt) = authPasswordHash pbkdf2 password salt := by
  rw [hashPassword, authPasswordHash, units, units, Ecma.encodeUnits_utf16, Ecma.encodeUnits_utf16]
  congr 1
  exact List.flatMap_congr fun b _ => padStart_toDigits b.toNat b.toNat_lt

/-! ## Either client -/

inductive Client
  | cli
  | web
  deriving DecidableEq

/-- The hash of the password that the client sends. -/
def Client.passwordHash (pbkdf2 : Pbkdf2) (password salt : String) : Client → String
  | .cli => authPasswordHash pbkdf2 password salt
  | .web => hashPassword pbkdf2 (units password) (units salt)

/-- The salt that the client draws for a new user. -/
def Client.newSalt (bytes : Bytes) : Client → String
  | .cli => generateSalt bytes
  | .web => argon2Salt bytes

/-- What the client sends to register. -/
def Client.registerRequest (client : Client) (pbkdf2 : Pbkdf2) (username email password : String)
    (saltBytes : Bytes) (bundleSize : ℕ) (prekeyBundle : Except String PrekeyBundle) :
    RegisterRequest where
  username
  email
  passwordHash := client.passwordHash pbkdf2 password (client.newSalt saltBytes)
  argon2Salt := client.newSalt saltBytes
  bundleSize
  prekeyBundle

/-- What the client sends to log in, after `get_salt` has answered. -/
def Client.loginRequest (client : Client) (pbkdf2 : Pbkdf2) (password : String)
    (answer : SaltResponse) (username : String) : LoginRequest where
  username
  passwordHash := client.passwordHash pbkdf2 password answer.argon2Salt

variable {pbkdf2 : Pbkdf2} {password salt username email : String} {saltBytes : Bytes}

/-- Both clients send the same hash. -/
theorem Client.passwordHash_eq (client client' : Client) (pbkdf2 : Pbkdf2)
    (password salt : String) :
    client.passwordHash pbkdf2 password salt = client'.passwordHash pbkdf2 password salt := by
  cases client <;> cases client' <;>
    simp only [Client.passwordHash, hashPassword_eq]

/-! ## What the server makes of it -/

theorem digitChar_lt : ∀ d < 16, (Nat.digitChar d).toNat < 128 := by decide

theorem charOf_lt : ∀ n < 64, (Base64.charOf n).toNat < 128 := by decide +kernel

theorem utf8ByteSize_hash (hlength : ∀ p s n k, (pbkdf2 p s n k).length = k) (client : Client)
    (password salt : String) :
    (client.passwordHash pbkdf2 password salt).utf8ByteSize = 64 := by
  rw [client.passwordHash_eq .cli]
  show (authPasswordHash pbkdf2 password salt).utf8ByteSize = 64
  have hascii : ∀ b : Bytes, ∀ c ∈ b.flatMap fun x => hexFixed 2 x.toNat, c.toNat < 128 := by
    intro b c hc
    obtain ⟨x, -, hx⟩ := List.mem_flatMap.mp hc
    obtain ⟨d, hd, rfl⟩ := hexFixed_hexDigit hx
    exact digitChar_lt d hd
  have hsum : ∀ b : Bytes, (b.flatMap fun x => hexFixed 2 x.toNat).length = 2 * b.length := by
    intro b
    simp [List.length_flatMap, Nat.mul_comm]
  rw [authPasswordHash, utf8ByteSize_ofList (hascii _), hsum, hlength]

theorem ascii_encode {bytes : Bytes} {c : Char} (h : c ∈ Base64.encode bytes) : c.toNat < 128 := by
  rcases Base64.mem_encode h with rfl | ⟨n, hn, rfl⟩
  · decide
  · exact charOf_lt n hn

/-- A salt is at most as long as the encoding of its bytes. -/
theorem utf8ByteSize_newSalt (client : Client) (bytes : Bytes) :
    (client.newSalt bytes).utf8ByteSize ≤ 4 * ((bytes.length + 2) / 3) := by
  have hsize : ∀ s : List Char, (∀ c ∈ s, c.toNat < 128) → s.length ≤ 4 * ((bytes.length + 2) / 3) →
      (String.ofList (s.rdropWhile (· = '='))).utf8ByteSize ≤ 4 * ((bytes.length + 2) / 3) := by
    intro s hs hlen
    have hprefix := List.rdropWhile_prefix (fun c : Char => decide (c = '=')) s
    rw [utf8ByteSize_ofList fun c hc => hs c (List.IsPrefix.subset hprefix hc)]
    exact hprefix.length_le.trans hlen
  cases client with
  | cli => exact hsize _ (fun c hc => ascii_encode hc) (Base64.length_encode bytes).le
  | web =>
    refine hsize _ (fun c hc => ?_) (by rw [List.length_map, Base64.length_encode])
    obtain ⟨d, hd, rfl⟩ := List.mem_map.mp hc
    split_ifs
    · decide
    · exact ascii_encode hd

/-- The hash and the salt of a client are short enough for `register`. -/
theorem prepareRegister_ok_iff {st : AppState} {begun : Timestamp} {draws : RegisterDraws}
    (hlength : ∀ p s n k, (pbkdf2 p s n k).length = k) (hsalt : saltBytes.length = 16)
    (client : Client) (bundleSize : ℕ) (prekeyBundle : Except String PrekeyBundle) :
    (∃ tx, prepareRegister st begun (client.registerRequest pbkdf2 username email password
        saltBytes bundleSize prekeyBundle) draws = .ok tx) ↔
      KeyServer.validateUsername username = .ok () ∧ KeyServer.validateEmail email = .ok () ∧
        bundleSize ≤ KeyServer.maxBundleSize ∧
        (∃ bundle, KeyServer.validatePrekeyBundle st.toKeyServer prekeyBundle = .ok bundle) ∧
        ∃ serverHash, st.hashPasswordServer (client.passwordHash pbkdf2 password
          (client.newSalt saltBytes)) draws.salt = .ok serverHash := by
  have hhash := utf8ByteSize_hash hlength client password (client.newSalt saltBytes)
  have hnew := utf8ByteSize_newSalt client saltBytes
  rw [hsalt] at hnew
  have hshort : ¬(client.passwordHash pbkdf2 password (client.newSalt saltBytes)).utf8ByteSize >
      KeyServer.maxHashLen := by
    rw [hhash]
    decide
  have hshort' : ¬(client.newSalt saltBytes).utf8ByteSize > KeyServer.maxHashLen :=
    Nat.not_lt.mpr (hnew.trans (by decide))
  unfold prepareRegister KeyServer.checkRegister
  simp only [Client.registerRequest, hshort, hshort', if_false, bind, Except.bind, pure,
    Except.pure]
  cases KeyServer.validateUsername username with
  | error e => simp
  | ok =>
    cases KeyServer.validateEmail email with
    | error e => simp
    | ok =>
      by_cases hsize : bundleSize > KeyServer.maxBundleSize
      · simp [hsize]
      · cases KeyServer.validatePrekeyBundle st.toKeyServer prekeyBundle with
        | error e => simp [hsize]
        | ok bundle =>
          cases st.hashPasswordServer (client.passwordHash pbkdf2 password
            (client.newSalt saltBytes)) draws.salt with
          | error e => simp [hsize]
          | ok serverHash => simp [hsize, Nat.not_lt.mp hsize]

/-! ## From one client to the other -/

/-- A registration from either client is refused for its name, its address or its bundle only.
    Once it is committed, whatever happens then, either client gets the salt, and logs in with
    the password; with a password whose hash does not verify it is refused. -/
theorem clients_log_in (st : AppState) (pbkdf2 : Pbkdf2)
    (hlength : ∀ p s n k, (pbkdf2 p s n k).length = k)
    (hargon2 : ∀ p salt stored, st.hashPasswordServer p salt = .ok stored →
      st.verifyPasswordServer p stored = .ok true)
    (client client' : Client) (username email password : String) (saltBytes : Bytes)
    (hsalt : saltBytes.length = 16) (bundleSize : ℕ) (prekeyBundle : Except String PrekeyBundle)
    (begun : Timestamp) (draws : RegisterDraws) :
    ((∃ tx, prepareRegister st begun (client.registerRequest pbkdf2 username email password
        saltBytes bundleSize prekeyBundle) draws = .ok tx) ↔
      KeyServer.validateUsername username = .ok () ∧ KeyServer.validateEmail email = .ok () ∧
        bundleSize ≤ KeyServer.maxBundleSize ∧
        (∃ bundle, KeyServer.validatePrekeyBundle st.toKeyServer prekeyBundle = .ok bundle) ∧
        ∃ serverHash, st.hashPasswordServer (client.passwordHash pbkdf2 password
          (client.newSalt saltBytes)) draws.salt = .ok serverHash) ∧
    ∀ tx w w₁ s t as, prepareRegister st begun (client.registerRequest pbkdf2 username email
        password saltBytes bundleSize prekeyBundle) draws = .ok tx →
      commitRegistration w tx = .ok w₁ → s.world = w₁ →
      Run (accountHandlers st).step anyStep s as t →
      getSalt t.world.db false username = .ok ⟨username, client.newSalt saltBytes⟩ ∧ ∀ answer,
      getSalt t.world.db false username = .ok answer → ∀ token,
        ((authHandlers st).Yields t.world
            (.login (client'.loginRequest pbkdf2 password answer username) token)
            (PairFor draws.userId t.world.db.users) ↔
          CanIssue st.toAppState t.world.now t.world.db.refreshTokens draws.userId username
            token) ∧
        ∀ other stored, st.hashPasswordServer (client.passwordHash pbkdf2 password
            (client.newSalt saltBytes)) draws.salt = .ok stored →
          st.verifyPasswordServer (client'.passwordHash pbkdf2 other (client.newSalt saltBytes))
            stored = .ok false →
          (authHandlers st).Serves t.world
            (.login (client'.loginRequest pbkdf2 other answer username) token) t.world
            (.error (.unauthorized "invalid credentials")) := by
  refine ⟨prepareRegister_ok_iff hlength hsalt client bundleSize prekeyBundle, ?_⟩
  intro tx w w₁ s t as hprepare hcommit hs hrun
  obtain ⟨row, serverHash, hrow, hname, hactive, hargon2Salt, hstored, hvalid, hhash⟩ :=
    registered_user hprepare hcommit (hs ▸ usersStay_run hrun)
  have hname : row.username = username := hname
  have hargon2Salt : row.argon2Salt = some (client.newSalt saltBytes) := hargon2Salt
  have hhash : st.hashPasswordServer (client.passwordHash pbkdf2 password
    (client.newSalt saltBytes)) draws.salt = .ok serverHash := hhash
  generalize client.newSalt saltBytes = argon2Salt at hargon2Salt hhash ⊢
  have hanswer : getSalt t.world.db false username = .ok ⟨username, argon2Salt⟩ := by
    rw [← hname]
    exact getSalt_eq_ok hvalid hrow hactive hargon2Salt
  refine ⟨hanswer, fun answer h token => ?_⟩
  obtain rfl : ⟨username, argon2Salt⟩ = answer := Except.ok.inj (hanswer.symm.trans h)
  constructor
  · -- the other client hashes to what the first one has sent
    rw [Client.loginRequest, client'.passwordHash_eq client, ← hname,
      yields_login_of_user hrow hactive hstored]
    exact and_iff_right (hargon2 _ _ _ hhash)
  · intro other stored hother hverify
    obtain rfl : serverHash = stored := Except.ok.inj (hhash.symm.trans hother)
    refine serves_login_error ?_
    rw [← hname, checkPassword_eq hrow hactive hstored, hverify]

/-! ## A run of the two clients -/

/-- A key derivation that keeps the first bytes of the password. -/
def runPbkdf2 : Pbkdf2 := fun password salt _ size =>
  (password ++ salt ++ .replicate size 0).take size

/-- A server whose stored hash is the salt and the password. -/
def runHashServer : AppState :=
  { accountServer with
    hashPasswordServer := fun password salt => .ok (salt ++ "$" ++ password)
    verifyPasswordServer := fun password storedHash =>
      .ok (('$' :: password.toList).isSuffixOf storedHash.toList) }

def runSaltBytes : Bytes := (List.range 16).map UInt8.ofNat

theorem length_runPbkdf2 (p s : Bytes) (n k : ℕ) : (runPbkdf2 p s n k).length = k := by
  simp only [runPbkdf2, List.length_take, List.length_append, List.length_replicate]
  omega

theorem verify_runHashServer (p salt stored : String)
    (h : runHashServer.hashPasswordServer p salt = .ok stored) :
    runHashServer.verifyPasswordServer p stored = .ok true := by
  obtain rfl : salt ++ "$" ++ p = stored := Except.ok.inj h
  refine congrArg Except.ok (List.isSuffixOf_iff_suffix.mpr ⟨salt.toList, ?_⟩)
  simp

/-- `bob` registers in the browser, and then logs in with the terminal. -/
theorem clients_log_in_run : ∃ (t : AccountState) (answer : SaltResponse),
    t.answers.length = 2 ∧ getSalt t.world.db false "bob" = .ok answer ∧
    (authHandlers runHashServer).Yields t.world
      (.login (Client.cli.loginRequest runPbkdf2 "correct horse" answer "bob") (⟨30⟩, ⟨31⟩))
      (PairFor ⟨2⟩ t.world.db.users) ∧
    (authHandlers runHashServer).Serves t.world
      (.login (Client.cli.loginRequest runPbkdf2 "battery" answer "bob") (⟨30⟩, ⟨31⟩)) t.world
      (.error (.unauthorized "invalid credentials")) := by
  obtain ⟨tx, w₁, t, hprepare, hcommit, hrun, hanswers, htoken⟩ := @exists_runRegistered
    runHashServer (Client.web.registerRequest runPbkdf2 "bob" "bob@example.com" "correct horse"
      runSaltBytes 1000 (.ok (KeyServer.runBundle 1))) (by decide +kernel)
  obtain ⟨hanswer, hlogin⟩ := (clients_log_in runHashServer runPbkdf2 length_runPbkdf2
    verify_runHashServer .web .cli "bob" "bob@example.com" "correct horse" runSaltBytes
    (by decide) 1000 (.ok (KeyServer.runBundle 1)) 0 runRegisterDraws).2 tx (startWorld 0) w₁
    (Sys.idle w₁) t runGithubLogin hprepare hcommit rfl hrun
  exact ⟨t, _, hanswers, hanswer, (hlogin _ hanswer (⟨30⟩, ⟨31⟩)).1.mpr ⟨rfl, htoken⟩,
    (hlogin _ hanswer (⟨30⟩, ⟨31⟩)).2 "battery" _ rfl (by decide +kernel)⟩

end FreeBox.Web
