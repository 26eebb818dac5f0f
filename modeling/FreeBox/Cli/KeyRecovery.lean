import FreeBox.Crypto.Ratchet
import FreeBox.Server.Handshake
import FreeBox.Server.KeyHandlers
import FreeBox.Web.Accounts

/-!
# Recovery of the identity key

`derive_keys_from_password` of `packages/crypto/src/keys.rs` says that the same password always
gives the same identity key, "without a separate backup mechanism". The salt has to come from
somewhere: `register` of `apps/cli/src/auth.rs` leaves it at the server. Argon2id is a
parameter.

Results:
* `published`: what the server keeps of a registration.
* `identity_recovered`: password and salt give the identity key that peers are given.
-/

namespace FreeBox.Crypto

open FreeBox.Lib

/-- Argon2id in version 0x13 with an output of 32 bytes: memory in KiB, iterations, lanes,
    password and salt. -/
abbrev Argon2id := ℕ → ℕ → ℕ → Bytes → Bytes → Except String (Vector UInt8 32)

/-- `keys::MasterSecret`. -/
structure MasterSecret where
  bytes : Vector UInt8 32

/-- `MasterSecret::derive`. -/
def MasterSecret.derive (argon2 : Argon2id) (password salt : Bytes) : Except String MasterSecret :=
  match argon2 (64 * 1024) 3 4 password salt with
  | .error e => .error ("Argon2 KDF failed: " ++ e)
  | .ok output => .ok ⟨output⟩

/-- `keys::DerivedKeys`. -/
structure DerivedKeys (ed : Ed25519) where
  masterSecret : MasterSecret
  identity : IdentityKeyPair ed

/-- `keys::derive_keys_from_password`. -/
def deriveKeysFromPassword (argon2 : Argon2id) (kdf : DeriveKey) (ed : Ed25519)
    (password salt : String) : Except String (DerivedKeys ed) :=
  match MasterSecret.derive argon2 (Ecma.textEncode password.toList)
    (Ecma.textEncode salt.toList) with
  | .error e => .error e
  | .ok masterSecret =>
    let identitySeed := kdf "freebox identity key v1" masterSecret.bytes.toList
    .ok { masterSecret, identity := .fromBytes ed identitySeed }

end FreeBox.Crypto

namespace FreeBox.Cli

open FreeBox.Lib FreeBox.Crypto FreeBox.Server FreeBox.Server.Auth Handlers
open FreeBox.Server.KeyServer (BundleRow RegisterRequest RegisterDraws getBundle)
open FreeBox.Web (Client)

/-- `auth::registration_prekey_bundle`. -/
def registrationPrekeyBundle (argon2 : Argon2id) (kdf : DeriveKey) (ed : Ed25519) (x : X25519)
    (password salt : String) (draws : PrekeyBundle.Draws) : Except String PrekeyBundle :=
  match deriveKeysFromPassword argon2 kdf ed password salt with
  | .error e => .error e
  | .ok keys => .ok (PrekeyBundle.generate x keys.identity 100 draws).1

/-- The request of `auth::register`; `size` is the length of a serialized bundle, which
    `serde_json` reads back. -/
def registerRequest (argon2 : Argon2id) (kdf : DeriveKey) (ed : Ed25519) (x : X25519)
    (pbkdf2 : Pbkdf2) (size : PrekeyBundle → ℕ) (username email password : String)
    (saltBytes : Bytes) (draws : PrekeyBundle.Draws) : Except String RegisterRequest :=
  match registrationPrekeyBundle argon2 kdf ed x password (generateSalt saltBytes) draws with
  | .error e => .error e
  | .ok bundle =>
    .ok (Client.cli.registerRequest pbkdf2 username email password saltBytes (size bundle)
      (.ok bundle))

variable {argon2 : Argon2id} {kdf : DeriveKey} {ed : Ed25519} {x : X25519} {pbkdf2 : Pbkdf2}
  {size : PrekeyBundle → ℕ} {username email password : String} {saltBytes : Bytes}
  {bundleDraws : PrekeyBundle.Draws} {r : RegisterRequest}

/-! ## What the client sends -/

theorem registerRequest_eq_ok
    (h : registerRequest argon2 kdf ed x pbkdf2 size username email password saltBytes
      bundleDraws = .ok r) :
    ∃ keys, deriveKeysFromPassword argon2 kdf ed password (generateSalt saltBytes) = .ok keys ∧
      r.username = username ∧ r.argon2Salt = generateSalt saltBytes ∧
      r.prekeyBundle = .ok (PrekeyBundle.generate x keys.identity 100 bundleDraws).1 := by
  unfold registerRequest registrationPrekeyBundle at h
  cases hkeys : deriveKeysFromPassword argon2 kdf ed password (generateSalt saltBytes) with
  | error e =>
    simp only [hkeys] at h
    cases h
  | ok keys =>
    simp only [hkeys] at h
    cases h
    exact ⟨keys, rfl, rfl, rfl, rfl⟩

/-! ## What the server keeps -/

variable {st : AppState} {begun : Timestamp} {draws : RegisterDraws} {tx : Registration}
  {w w₁ : KeyServer.World} {s t : AccountKeyState} {as : List AccountKeyStep}

/-- The row of the user and the bundle that are left of a registration. -/
theorem published {bundle : PrekeyBundle} (hbundle : r.prekeyBundle = .ok bundle)
    (hprepare : prepareRegister st begun r draws = .ok tx)
    (hcommit : commitRegistration w tx = .ok w₁) (hs : s.world = w₁)
    (hrun : Run (serverHandlers st).step anyStep s as t) :
    getSalt t.world.db false r.username = .ok ⟨r.username, r.argon2Salt⟩ ∧
      ∃ more, getBundle t.world false draws.userId =
        (t.world, .bundle { bundle with oneTimePrekeys := bundle.oneTimePrekeys ++ more }) := by
  have hstay : w₁.Stays t.world := hs ▸ stays_run hrun
  constructor
  · obtain ⟨row, -, hrow, hname, hactive, hsalt, -, hvalid, -⟩ :=
      registered_user hprepare hcommit hstay.users
    rw [← hname]
    exact getSalt_eq_ok hvalid hrow hactive hsalt
  · obtain ⟨-, -, hcheck, huser, -⟩ := prepareRegister_eq_ok hprepare
    obtain rfl : tx.bundle = bundle :=
      Except.ok.inj ((KeyServer.bundle_of_checkRegister hcheck).symm.trans hbundle)
    have hstored : w₁.bundles.lookup draws.userId =
        some { bundle := tx.bundle, updatedAt := tx.row.createdAt } := by
      rw [(registered_of_commit hcommit).bundles, ← huser, AList.lookup_insert]
    obtain ⟨row, hrow, more, hgrows⟩ := hstay.bundles _ _ hstored
    refine ⟨more, ?_⟩
    rw [← hgrows]
    simp only [getBundle, hrow, Bool.false_eq_true, if_false]

/-! ## Recovery -/

/-- A signature of an identity key verifies under its public key. -/
theorem verify_sign (hed : ed.Correct) (identity : IdentityKeyPair ed) (message : Bytes) :
    ed.verifyStrict identity.verifying message (identity.sign message) = .ok () := by
  rw [identity.verifying_eq]
  exact hed.signature identity.signing message

/-- From the `COMMIT` of a registration on, whatever requests the server answers, it hands out
    the bundle that was sent, with new one-time prekeys after the first ones. The salt that it
    returns and the password give back the identity key of this bundle: the signed prekey
    verifies under it, and so does what is signed with it later. -/
theorem identity_recovered (st : AppState) (argon2 : Argon2id) (kdf : DeriveKey) (x : X25519)
    (pbkdf2 : Pbkdf2) (hed : st.ed25519.Correct) (size : PrekeyBundle → ℕ)
    (username email password : String) (saltBytes : Bytes) (bundleDraws : PrekeyBundle.Draws)
    (r : RegisterRequest)
    (hr : registerRequest argon2 kdf st.ed25519 x pbkdf2 size username email password saltBytes
      bundleDraws = .ok r)
    (begun : Timestamp) (draws : RegisterDraws) (tx : Registration) (w w₁ : KeyServer.World)
    (hprepare : prepareRegister st begun r draws = .ok tx)
    (hcommit : commitRegistration w tx = .ok w₁) (s t : AccountKeyState) (as : List AccountKeyStep)
    (hs : s.world = w₁) (hrun : Run (serverHandlers st).step anyStep s as t) :
    ∃ answer keys bundle more, getSalt t.world.db false username = .ok answer ∧
      deriveKeysFromPassword argon2 kdf st.ed25519 password answer.argon2Salt = .ok keys ∧
      r.prekeyBundle = .ok bundle ∧ bundle.oneTimePrekeys.length = 100 ∧
      getBundle t.world false draws.userId =
        (t.world, .bundle { bundle with oneTimePrekeys := bundle.oneTimePrekeys ++ more }) ∧
      bundle.identityKey = keys.identity.verifying ∧
      verifySignedPrekey st.ed25519 bundle.identityKey bundle.signedPrekey.publicKey
        bundle.signedPrekey.signature = .ok () ∧
      ∀ message, st.ed25519.verifyStrict bundle.identityKey message
        (keys.identity.sign message) = .ok () := by
  obtain ⟨keys, hkeys, hname, hsalt, hbundle⟩ := registerRequest_eq_ok hr
  obtain ⟨hanswer, more, hpublished⟩ := published hbundle hprepare hcommit hs hrun
  rw [hname, hsalt] at hanswer
  exact ⟨_, keys, _, more, hanswer, hkeys, hbundle,
    PrekeyBundle.length_generate x keys.identity 100 bundleDraws, hpublished, rfl,
    PrekeyBundle.generate_verifies hed x keys.identity 100 bundleDraws,
    verify_sign hed keys.identity⟩

/-- A key derivation that adds the salt to the password. -/
def runArgon2 : Argon2id := fun _ _ _ password salt =>
  if salt.length < 8 then .error "salt is too short"
  else .ok (Vector.ofFn fun i => password.getD i 0 + salt.getD i 0)

/-- What `bob` sends from the terminal. -/
def runCliRequest : Except String RegisterRequest :=
  registerRequest runArgon2 RatchetSession.runKdf keyRepeated bytewise Web.runPbkdf2
    (fun _ => 1000) "bob" "bob@example.com" "correct horse" Web.runSaltBytes runDraws

/-- `bob` uploads another one-time prekey, and a login over GitHub begins. -/
def runReplenished : List AccountKeyStep :=
  [.arrive 1 (.inr (.replenishOneTime ⟨⟨2⟩, "bob", 900, 0⟩ [⟨100, Vector.replicate 32 7⟩])),
    .arrive 2 (.inl (.inr (.initiate "github" "state" "verifier"))), .advance 1 0, .advance 2 0]

theorem exists_runReplenished : ∃ r tx w₁ t, runCliRequest = .ok r ∧
    prepareRegister accountServer 0 r runRegisterDraws = .ok tx ∧
    commitRegistration (startWorld 0) tx = .ok w₁ ∧
    Run (serverHandlers accountServer).step anyStep (Sys.idle w₁) runReplenished t ∧
    t.answers.length = 2 ∧
    (t.world.bundles.lookup ⟨2⟩).any (·.bundle.oneTimePrekeys.length = 101) = true := by
  have h : (runCliRequest.toOption.bind fun r =>
      (prepareRegister accountServer 0 r runRegisterDraws).toOption.bind fun tx =>
      (commitRegistration (startWorld 0) tx).toOption.bind fun w₁ =>
      exec (serverHandlers accountServer).step anyStep (Sys.idle w₁) runReplenished).any (fun t =>
        decide (t.answers.length = 2 ∧
          (t.world.bundles.lookup ⟨2⟩).any (·.bundle.oneTimePrekeys.length = 101) = true)) =
      true := by
    decide +kernel
  obtain ⟨t, ht, hp⟩ := (Option.any_eq_true _ _).mp h
  obtain ⟨r, hr, ht⟩ := Option.bind_eq_some_iff.mp ht
  obtain ⟨tx, hprepare, ht⟩ := Option.bind_eq_some_iff.mp ht
  obtain ⟨w₁, hcommit, hexec⟩ := Option.bind_eq_some_iff.mp ht
  exact ⟨r, tx, w₁, t, eq_ok_of_toOption hr, eq_ok_of_toOption hprepare,
    eq_ok_of_toOption hcommit, run_iff_exec.mpr hexec, of_decide_eq_true hp⟩

/-- `bob` gets the identity key back after the keys of the server have changed. -/
theorem identity_recovered_run : ∃ (t : AccountKeyState) (answer : SaltResponse)
    (keys : DerivedKeys keyRepeated) (bundle : PrekeyBundle) (more : List OneTimePrekey),
    t.answers.length = 2 ∧
    (t.world.bundles.lookup ⟨2⟩).any (·.bundle.oneTimePrekeys.length = 101) = true ∧
    getSalt t.world.db false "bob" = .ok answer ∧
    deriveKeysFromPassword runArgon2 RatchetSession.runKdf keyRepeated "correct horse"
      answer.argon2Salt = .ok keys ∧
    bundle.oneTimePrekeys.length = 100 ∧
    getBundle t.world false ⟨2⟩ =
      (t.world, .bundle { bundle with oneTimePrekeys := bundle.oneTimePrekeys ++ more }) ∧
    bundle.identityKey = keys.identity.verifying ∧
    ∀ message, keyRepeated.verifyStrict bundle.identityKey message
      (keys.identity.sign message) = .ok () := by
  obtain ⟨r, tx, w₁, t, hr, hprepare, hcommit, hrun, hanswers, hkeys⟩ := exists_runReplenished
  obtain ⟨answer, keys, bundle, more, hanswer, hderive, -, hlength, hbundle, hidentity, -, hsign⟩ :=
    identity_recovered accountServer runArgon2 RatchetSession.runKdf bytewise Web.runPbkdf2
      keyRepeated_correct (fun _ => 1000) "bob" "bob@example.com" "correct horse"
      Web.runSaltBytes runDraws r hr 0 runRegisterDraws tx (startWorld 0) w₁ hprepare hcommit
      (Sys.idle w₁) t runReplenished rfl hrun
  exact ⟨t, answer, keys, bundle, more, hanswers, hkeys, hanswer, hderive, hlength, hbundle,
    hidentity, hsign⟩

end FreeBox.Cli
