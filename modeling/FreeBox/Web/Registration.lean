import FreeBox.Cli.KeyRecovery
import FreeBox.Server.KeyJson

/-!
# The bundles of new users

`generatePrekeyBundle` of the web client draws its keys with `crypto.subtle`, and
`registration_prekey_bundle` of the CLI derives the identity key from the password. Both send
JSON that `register` of the server checks.

Results:
* `generatePrekeyBundle_eq`: the web client sends what `PrekeyBundle::generate` would make.
* `prekeyBundle_generated`: either client sends what `PrekeyBundle::generate` makes, with 10
  one-time prekeys or with 100.
* `clients_register`: the server refuses neither client for its bundle.
-/

namespace FreeBox.Web

open FreeBox.Lib FreeBox.Crypto FreeBox.Server FreeBox.Server.Auth
open FreeBox.Cli (registrationPrekeyBundle)
open FreeBox.Server.KeyServer (JsonRegisterRequest RegisterDraws)

/-- `generatePrekeyBundle` for the drawn secrets and the answer of `Date.now()`. -/
def generatePrekeyBundle (ed : Ed25519) (x : X25519) (identity signed : StaticSecret)
    (oneTime : ℕ → StaticSecret) (dateNow : ℕ) : JsonValue :=
  let signedPubBytes := x.publicKey signed
  .object [
    ("identity_key", .ofBytes (ed.verifyingKey identity)),
    ("signed_prekey", .object [
      ("public_key", .ofBytes signedPubBytes),
      ("signature", .ofBytes (ed.sign identity signedPubBytes.toList)),
      ("created_at", .number (dateNow / 1000))]),
    ("one_time_prekeys", .array ((List.range 10).map fun id =>
      .object [("id", .number id), ("public_key", .ofBytes (x.publicKey (oneTime id)))]))]

theorem generatePrekeyBundle_eq (ed : Ed25519) (x : X25519) (identity signed : StaticSecret)
    (oneTime : ℕ → StaticSecret) {dateNow : ℕ} (hnow : dateNow / 1000 < 2 ^ 64) :
    generatePrekeyBundle ed x identity signed oneTime dateNow =
      (PrekeyBundle.generate x (.fromBytes ed identity) 10
        { signedPrekey := signed, createdAt := .ofNat (dateNow / 1000), oneTime }).1.toValue := by
  have hcreated : (UInt64.ofNat (dateNow / 1000)).toNat = dateNow / 1000 :=
    UInt64.toNat_ofNat_of_lt' hnow
  have hkeys : (List.range 10).map (fun id => JsonValue.object [("id", .number id),
      ("public_key", .ofBytes (x.publicKey (oneTime id)))]) =
      ((List.range 10).map fun id => OneTimePrekey.mk (.ofNat id) (x.publicKey (oneTime id))).map
        OneTimePrekey.toValue := by
    rw [List.map_map]
    refine List.map_congr_left fun id hid => ?_
    have hid : (UInt32.ofNat id).toNat = id :=
      UInt32.toNat_ofNat_of_lt' ((List.mem_range.mp hid).trans (by decide))
    simp only [Function.comp_apply, OneTimePrekey.toValue, hid]
  simp only [generatePrekeyBundle, PrekeyBundle.toValue, SignedPrekey.toValue, JsonValue.ofList,
    PrekeyBundle.generate, SignedPrekey.generate, IdentityKeyPair.sign, IdentityKeyPair.fromBytes,
    hcreated, hkeys]
  rfl

/-! ## Either client -/

/-- What a client draws for its bundle, and what it reads of its clock in milliseconds. -/
structure BundleDraws where
  /-- The web client draws its identity key. -/
  identity : StaticSecret
  signed : StaticSecret
  oneTime : ℕ → StaticSecret
  now : ℕ

/-- What `PrekeyBundle::generate` draws for the same bundle. -/
def BundleDraws.prekeys (draws : BundleDraws) : PrekeyBundle.Draws where
  signedPrekey := draws.signed
  createdAt := .ofNat (draws.now / 1000)
  oneTime := draws.oneTime

/-- The bundle that the client sends. -/
def Client.prekeyBundle (client : Client) (argon2 : Argon2id) (kdf : DeriveKey) (ed : Ed25519)
    (x : X25519) (password salt : String) (draws : BundleDraws) : Except String JsonValue :=
  match client with
  | .cli =>
    (registrationPrekeyBundle argon2 kdf ed x password salt draws.prekeys).map PrekeyBundle.toValue
  | .web => .ok (generatePrekeyBundle ed x draws.identity draws.signed draws.oneTime draws.now)

/-- What the client sends to register. -/
def Client.jsonRequest (client : Client) (pbkdf2 : Pbkdf2) (username email password : String)
    (saltBytes : Bytes) (prekeyBundle : JsonValue) : JsonRegisterRequest where
  username
  email
  passwordHash := client.passwordHash pbkdf2 password (client.newSalt saltBytes)
  argon2Salt := client.newSalt saltBytes
  prekeyBundle

variable {argon2 : Argon2id} {kdf : DeriveKey} {ed : Ed25519} {x : X25519} {pbkdf2 : Pbkdf2}
  {username email password salt : String} {saltBytes : Bytes} {draws : BundleDraws}
  {value : JsonValue}

/-- The number of one-time prekeys that the client makes. -/
def Client.oneTimeCount : Client → UInt32
  | .cli => 100
  | .web => 10

/-- The identity key of the client: derived from the password, or drawn. -/
def Client.identityKey (client : Client) (argon2 : Argon2id) (kdf : DeriveKey) (ed : Ed25519)
    (password salt : String) (draws : BundleDraws) : Except String (IdentityKeyPair ed) :=
  match client with
  | .cli => (deriveKeysFromPassword argon2 kdf ed password salt).map (·.identity)
  | .web => .ok (.fromBytes ed draws.identity)

/-- Either client sends the bundle that `PrekeyBundle::generate` makes of its draws. -/
theorem prekeyBundle_generated {client : Client} (hnow : draws.now / 1000 < 2 ^ 64)
    (h : client.prekeyBundle argon2 kdf ed x password salt draws = .ok value) :
    ∃ identity, client.identityKey argon2 kdf ed password salt draws = .ok identity ∧
      value = (PrekeyBundle.generate x identity client.oneTimeCount draws.prekeys).1.toValue := by
  cases client with
  | cli =>
    simp only [Client.prekeyBundle, registrationPrekeyBundle] at h
    cases hkeys : deriveKeysFromPassword argon2 kdf ed password salt with
    | error e => simp [hkeys, Except.map] at h
    | ok keys =>
      simp only [hkeys, Except.map] at h
      cases h
      refine ⟨keys.identity, ?_, rfl⟩
      rw [Client.identityKey, hkeys]
      rfl
  | web =>
    cases h
    exact ⟨_, rfl,
      generatePrekeyBundle_eq ed x draws.identity draws.signed draws.oneTime hnow⟩

/-- What `register` reads of the request. -/
theorem read_jsonRequest (client : Client) (shapeError : JsonValue → String)
    (bundle : PrekeyBundle) :
    (client.jsonRequest pbkdf2 username email password saltBytes bundle.toValue).read shapeError =
      client.registerRequest pbkdf2 username email password saltBytes bundle.toValue.size
        (.ok bundle) := by
  unfold JsonRegisterRequest.read
  simp only [Client.jsonRequest, Client.registerRequest, bundle.fromValue_toValue]

/-! ## What the server makes of it -/

/-- What a client sends is, member by member, the JSON of the bundle that
    `PrekeyBundle::generate` makes, and `register` refuses neither client for its bundle, its
    hash or its salt: only the user name, the address or a hash that fails are in the way. What
    it stores is this bundle, with a signed prekey that verifies. -/
theorem clients_register (st : AppState) (pbkdf2 : Pbkdf2) (argon2 : Argon2id) (kdf : DeriveKey)
    (x : X25519) (hlength : ∀ p s n k, (pbkdf2 p s n k).length = k) (hed : st.ed25519.Correct)
    (hpoint : ∀ signing, st.ed25519.verifyingKey signing ≠ zeroKey)
    (hpublic : ∀ secret, x.publicKey secret ≠ zeroKey) (client : Client)
    (username email password : String) (saltBytes : Bytes) (hsalt : saltBytes.length = 16)
    (bundleDraws : BundleDraws) (hnow : bundleDraws.now / 1000 < 2 ^ 64) (value : JsonValue)
    (hvalue : client.prekeyBundle argon2 kdf st.ed25519 x password (client.newSalt saltBytes)
      bundleDraws = .ok value)
    (shapeError : JsonValue → String) (begun : Timestamp) (draws : RegisterDraws) :
    ∃ identity bundle,
      client.identityKey argon2 kdf st.ed25519 password (client.newSalt saltBytes) bundleDraws =
        .ok identity ∧
      bundle = (PrekeyBundle.generate x identity client.oneTimeCount bundleDraws.prekeys).1 ∧
      value = bundle.toValue ∧ bundle.oneTimePrekeys.length = client.oneTimeCount.toNat ∧
      value.size ≤ KeyServer.maxBundleSize ∧
      KeyServer.validatePrekeyBundle st.toKeyServer (.ok bundle) = .ok bundle ∧
      ((∃ tx, prepareRegister st begun ((client.jsonRequest pbkdf2 username email password
          saltBytes value).read shapeError) draws = .ok tx) ↔
        KeyServer.validateUsername username = .ok () ∧ KeyServer.validateEmail email = .ok () ∧
          ∃ serverHash, st.hashPasswordServer (client.passwordHash pbkdf2 password
            (client.newSalt saltBytes)) draws.salt = .ok serverHash) ∧
      ∀ tx, prepareRegister st begun ((client.jsonRequest pbkdf2 username email password saltBytes
          value).read shapeError) draws = .ok tx →
        tx.bundle = bundle ∧
        verifySignedPrekey st.ed25519 tx.bundle.identityKey tx.bundle.signedPrekey.publicKey
          tx.bundle.signedPrekey.signature = .ok () := by
  obtain ⟨identity, hderived, rfl⟩ := prekeyBundle_generated hnow hvalue
  have hmax : client.oneTimeCount.toNat ≤ maxOneTimePrekeys := by cases client <;> decide
  have hidentity : identity.verifying ≠ zeroKey := identity.verifying_eq ▸ hpoint identity.signing
  have hvalid := @PrekeyBundle.generate_valid _ x identity client.oneTimeCount bundleDraws.prekeys
    hed hpublic hidentity hmax
  have hcount := PrekeyBundle.length_generate x identity client.oneTimeCount bundleDraws.prekeys
  have hverify := PrekeyBundle.generate_verifies hed x identity client.oneTimeCount
    bundleDraws.prekeys
  refine ⟨identity, _, hderived, rfl, rfl, hcount, ?_⟩
  generalize (PrekeyBundle.generate x identity client.oneTimeCount bundleDraws.prekeys).1 = bundle
    at *
  rw [read_jsonRequest]
  have haccepted : KeyServer.validatePrekeyBundle st.toKeyServer (.ok bundle) = .ok bundle :=
    KeyServer.validatePrekeyBundle_eq_ok.mpr ⟨rfl, hvalid⟩
  have hsize : bundle.toValue.size ≤ KeyServer.maxBundleSize :=
    PrekeyBundle.size_toValue_le (hcount ▸ hmax)
  refine ⟨hsize, haccepted, ?_, fun tx hprepare => ?_⟩
  · rw [prepareRegister_ok_iff hlength hsalt]
    constructor
    · rintro ⟨hname, hemail, -, -, hhash⟩
      exact ⟨hname, hemail, hhash⟩
    · rintro ⟨hname, hemail, hhash⟩
      exact ⟨hname, hemail, hsize, ⟨bundle, haccepted⟩, hhash⟩
  · obtain ⟨-, -, hcheck, -⟩ := prepareRegister_eq_ok hprepare
    obtain rfl : bundle = tx.bundle := Except.ok.inj (KeyServer.bundle_of_checkRegister hcheck)
    exact ⟨rfl, hverify⟩

/-! ## A run -/

/-- The secret with a bit set, as for the scalars of Curve25519. -/
def clamp (secret : Vector UInt8 32) : Vector UInt8 32 := secret.set 31 (secret[31] ||| 64)

theorem clamp_ne_zero (secret : Vector UInt8 32) : clamp secret ≠ zeroKey := by
  intro h
  have hbyte : (clamp secret)[31] = zeroKey[31] := by rw [h]
  rw [clamp, Vector.getElem_set_self] at hbyte
  have hbits : secret[31].toNat ||| 64 = 0 := congrArg UInt8.toNat hbyte
  simp at hbits

/-- A clamped secret is its own public key. -/
def clampedX25519 : X25519 where
  publicKey := clamp
  diffieHellman secret key := (clamp secret).zipWith (· * ·) key

/-- A signature repeats the key twice. -/
def clampedEd25519 : Ed25519 where
  verifyingKey := clamp
  sign signing _ := clamp signing ++ clamp signing
  checkKey _ := .ok ()
  verifyStrict key _ signature :=
    if signature = key ++ key then .ok () else .error "signature error"

theorem clampedEd25519_correct : clampedEd25519.Correct :=
  ⟨fun _ => rfl, fun _ _ => if_pos rfl⟩

def runRegisterServer : AppState := { runHashServer with ed25519 := clampedEd25519 }

def runBundleDraws : BundleDraws :=
  ⟨.replicate 32 27, .replicate 32 4, fun i => .replicate 32 (.ofNat i), 1700000000000⟩

/-- `bob` registers in the browser, with ten one-time prekeys. -/
theorem clients_register_run : ∃ (value : JsonValue) (bundle : PrekeyBundle) (tx : Registration),
    Client.web.prekeyBundle Cli.runArgon2 RatchetSession.runKdf clampedEd25519 clampedX25519
      "correct horse" (Client.web.newSalt runSaltBytes) runBundleDraws = .ok value ∧
    value = bundle.toValue ∧ bundle.oneTimePrekeys.length = 10 ∧
    prepareRegister runRegisterServer 0 ((Client.web.jsonRequest runPbkdf2 "bob" "bob@example.com"
      "correct horse" runSaltBytes value).read fun _ => "") runRegisterDraws = .ok tx ∧
    tx.bundle = bundle := by
  obtain ⟨identity, bundle, -, -, hvalue, hlength, -, -, haccepted, hstored⟩ :=
    clients_register runRegisterServer runPbkdf2 Cli.runArgon2
    RatchetSession.runKdf clampedX25519 length_runPbkdf2 clampedEd25519_correct clamp_ne_zero
    clamp_ne_zero .web "bob" "bob@example.com" "correct horse" runSaltBytes (by decide)
    runBundleDraws (by decide) _ rfl (fun _ => "") 0 runRegisterDraws
  obtain ⟨tx, htx⟩ := haccepted.mpr ⟨by decide +kernel, by decide +kernel, _, rfl⟩
  exact ⟨_, bundle, tx, rfl, hvalue, hlength, htx, (hstored tx htx).1⟩

end FreeBox.Web
