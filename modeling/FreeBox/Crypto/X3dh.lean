import FreeBox.Crypto.Keys
import FreeBox.Crypto.Ratchet

/-!
# X3DH key agreement

Model of `x3dh_initiate` and `x3dh_respond` in `packages/crypto/src/signal.rs`. The
hasher of BLAKE3 in key derivation mode is fed the concatenation of the updates.

Results:
* `respondInput_eq`: both sides feed the same bytes to the key derivation when
  Diffie-Hellman commutes.
* `x3dh_agreement`: for generated bundles both sides succeed with one secret.
-/

namespace FreeBox.Crypto

open FreeBox.Lib

/-- `domains::X3DH`. -/
def domains.x3dh : String := "freebox x3dh v1"

/-- `signal::X3dhInitiation`. -/
structure X3dhInitiation where
  sharedSecret : Vector UInt8 32
  ephemeralPublicKey : Vector UInt8 32
  oneTimePrekeyId : Option UInt32
  deriving DecidableEq

/-- What the hasher is fed: three Diffie-Hellman outputs, and the fourth if there is one. -/
def kdfInput (dh1 dh2 dh3 : Vector UInt8 32) (dh4 : Option (Vector UInt8 32)) : Bytes :=
  dh1.toList ++ dh2.toList ++ dh3.toList ++
    match dh4 with
    | some dh4 => dh4.toList
    | none => []

theorem length_kdfInput (dh1 dh2 dh3 : Vector UInt8 32) (dh4 : Option (Vector UInt8 32)) :
    (kdfInput dh1 dh2 dh3 dh4).length = if dh4.isSome then 128 else 96 := by
  cases dh4 <;> simp [kdfInput]

/-- The one-time prekey that `x3dh_initiate` takes, `one_time_prekeys.first()`. -/
def PrekeyBundle.firstOneTimePrekey (bundle : PrekeyBundle) : Option OneTimePrekey :=
  bundle.oneTimePrekeys.head?

variable (x : X25519)

/-- The input of the key derivation in `x3dh_initiate`. -/
def initiateInput (aliceIdentitySecret aliceEphemeralSecret : StaticSecret)
    (bobBundle : PrekeyBundle) : Bytes :=
  kdfInput (x.diffieHellman aliceIdentitySecret bobBundle.signedPrekey.publicKey)
    (x.diffieHellman aliceEphemeralSecret bobBundle.identityKey)
    (x.diffieHellman aliceEphemeralSecret bobBundle.signedPrekey.publicKey)
    (bobBundle.firstOneTimePrekey.map fun otp =>
      x.diffieHellman aliceEphemeralSecret otp.publicKey)

/-- The input of the key derivation in `x3dh_respond`. -/
def respondInput (bobIdentitySecret bobSignedPrekeySecret : StaticSecret)
    (bobOneTimeSecret : Option StaticSecret)
    (aliceIdentityPublic aliceEphemeralPublic : Vector UInt8 32) : Bytes :=
  kdfInput (x.diffieHellman bobSignedPrekeySecret aliceIdentityPublic)
    (x.diffieHellman bobIdentitySecret aliceEphemeralPublic)
    (x.diffieHellman bobSignedPrekeySecret aliceEphemeralPublic)
    (bobOneTimeSecret.map fun secret => x.diffieHellman secret aliceEphemeralPublic)

variable (kdf : DeriveKey) (ed : Ed25519)

/-- `signal::x3dh_initiate` for a drawn ephemeral secret. -/
def x3dhInitiate (aliceIdentitySecret aliceEphemeralSecret : StaticSecret)
    (bobBundle : PrekeyBundle) : Except String X3dhInitiation :=
  match verifySignedPrekey ed bobBundle.identityKey bobBundle.signedPrekey.publicKey
    bobBundle.signedPrekey.signature with
  | .error e => .error e
  | .ok () => .ok
      { sharedSecret := kdf domains.x3dh
          (initiateInput x aliceIdentitySecret aliceEphemeralSecret bobBundle)
        ephemeralPublicKey := x.publicKey aliceEphemeralSecret
        oneTimePrekeyId := bobBundle.firstOneTimePrekey.map OneTimePrekey.id }

/-- `signal::x3dh_respond`. -/
def x3dhRespond (bobIdentitySecret bobSignedPrekeySecret : StaticSecret)
    (bobOneTimeSecret : Option StaticSecret)
    (aliceIdentityPublic aliceEphemeralPublic : Vector UInt8 32) :
    Except String (Vector UInt8 32) :=
  .ok (kdf domains.x3dh (respondInput x bobIdentitySecret bobSignedPrekeySecret bobOneTimeSecret
    aliceIdentityPublic aliceEphemeralPublic))

/-- The secret of the one-time prekey that Alice names, if she names one. -/
def namedSecret (oneTimePrekeyId : Option UInt32) (secrets : List StaticSecret) :
    Option StaticSecret :=
  oneTimePrekeyId.bind fun id => secrets[id.toNat]?

variable {x kdf ed}

/-! ## Agreement -/

/-- With swapped roles both sides feed the same bytes to the key derivation. -/
theorem respondInput_eq (hdh : ∀ a b, x.diffieHellman a (x.publicKey b) =
      x.diffieHellman b (x.publicKey a))
    {bundle : PrekeyBundle} {bobIdentitySecret bobSignedPrekeySecret : StaticSecret}
    {bobOneTimeSecret : Option StaticSecret}
    (hidentity : bundle.identityKey = x.publicKey bobIdentitySecret)
    (hsigned : bundle.signedPrekey.publicKey = x.publicKey bobSignedPrekeySecret)
    (honeTime : bundle.firstOneTimePrekey.map OneTimePrekey.publicKey =
      bobOneTimeSecret.map x.publicKey) (alice ephemeral : StaticSecret) :
    respondInput x bobIdentitySecret bobSignedPrekeySecret bobOneTimeSecret (x.publicKey alice)
      (x.publicKey ephemeral) = initiateInput x alice ephemeral bundle := by
  have hdh4 : (bobOneTimeSecret.map fun secret => x.diffieHellman secret (x.publicKey ephemeral)) =
      bundle.firstOneTimePrekey.map fun otp => x.diffieHellman ephemeral otp.publicKey := by
    have hswap := congrArg (Option.map (x.diffieHellman ephemeral)) honeTime
    rw [Option.map_map, Option.map_map] at hswap
    refine Eq.trans (Option.map_congr fun secret _ => hdh secret ephemeral) hswap.symm
  rw [respondInput, initiateInput, hidentity, hsigned, hdh4, hdh alice, hdh ephemeral, hdh ephemeral]

/-- If one side uses a one-time prekey and the other does not, the inputs differ. -/
theorem initiateInput_ne {bundle : PrekeyBundle} {alice ephemeral : StaticSecret}
    (hused : bundle.oneTimePrekeys ≠ []) (bobIdentitySecret bobSignedPrekeySecret : StaticSecret)
    (aliceIdentityPublic aliceEphemeralPublic : Vector UInt8 32) :
    initiateInput x alice ephemeral bundle ≠ respondInput x bobIdentitySecret
      bobSignedPrekeySecret none aliceIdentityPublic aliceEphemeralPublic := by
  intro h
  have hlen := congrArg List.length h
  obtain ⟨key, keys, hkeys⟩ := List.exists_cons_of_ne_nil hused
  rw [initiateInput, respondInput, length_kdfInput, length_kdfInput,
    PrekeyBundle.firstOneTimePrekey, hkeys] at hlen
  simp at hlen

/-- In a generated bundle the one-time prekey that comes first has id 0 and the first
    of the secrets. -/
theorem firstOneTimePrekey_generate (identity : IdentityKeyPair ed) (oneTimeCount : UInt32)
    (draws : PrekeyBundle.Draws) :
    (PrekeyBundle.generate x identity oneTimeCount draws).1.firstOneTimePrekey.map
        OneTimePrekey.publicKey =
      (namedSecret ((PrekeyBundle.generate x identity oneTimeCount draws).1.firstOneTimePrekey.map
        OneTimePrekey.id) (PrekeyBundle.generate x identity oneTimeCount draws).2.2).map
          x.publicKey := by
  cases hkey : (PrekeyBundle.generate x identity oneTimeCount draws).1.firstOneTimePrekey with
  | none => rfl
  | some key =>
    rw [PrekeyBundle.firstOneTimePrekey, List.head?_eq_getElem?] at hkey
    obtain ⟨hid, secret, hsecret, hpublic⟩ := PrekeyBundle.generate_getElem? hkey
    rw [namedSecret, Option.map_some, Option.map_some, Option.bind_some, hid, hsecret,
      Option.map_some, hpublic]

theorem x3dhInitiate_eq {bundle : PrekeyBundle} (alice ephemeral : StaticSecret)
    (h : verifySignedPrekey ed bundle.identityKey bundle.signedPrekey.publicKey
      bundle.signedPrekey.signature = .ok ()) :
    x3dhInitiate x kdf ed alice ephemeral bundle = .ok
      { sharedSecret := kdf domains.x3dh (initiateInput x alice ephemeral bundle)
        ephemeralPublicKey := x.publicKey ephemeral
        oneTimePrekeyId := bundle.firstOneTimePrekey.map OneTimePrekey.id } := by
  rw [x3dhInitiate, h]

/-- Agreement. With a bundle of `generate` whose identity key is the X25519 key of
    Bob's identity secret, `x3dh_initiate` succeeds, and `x3dh_respond` returns its
    secret when it is given the one-time secret that Alice names, which exists. If Bob
    leaves out a one-time secret that Alice used, the inputs of the key derivation
    differ. -/
theorem x3dh_agreement (x : X25519) (kdf : DeriveKey) (ed : Ed25519)
    (hdh : ∀ a b, x.diffieHellman a (x.publicKey b) = x.diffieHellman b (x.publicKey a))
    (hed : ed.Correct) (identity : IdentityKeyPair ed) (oneTimeCount : UInt32)
    (draws : PrekeyBundle.Draws) (bundle : PrekeyBundle) (signedPrekeySecret : StaticSecret)
    (oneTimeSecrets : List StaticSecret)
    (hgenerate : PrekeyBundle.generate x identity oneTimeCount draws =
      (bundle, signedPrekeySecret, oneTimeSecrets))
    (bobIdentitySecret : StaticSecret)
    (hidentity : bundle.identityKey = x.publicKey bobIdentitySecret)
    (aliceIdentitySecret aliceEphemeralSecret : StaticSecret) :
    ∃ initiation,
      x3dhInitiate x kdf ed aliceIdentitySecret aliceEphemeralSecret bundle = .ok initiation ∧
      (namedSecret initiation.oneTimePrekeyId oneTimeSecrets).isSome =
        initiation.oneTimePrekeyId.isSome ∧
      x3dhRespond x kdf bobIdentitySecret signedPrekeySecret
        (namedSecret initiation.oneTimePrekeyId oneTimeSecrets)
        (x.publicKey aliceIdentitySecret) initiation.ephemeralPublicKey =
          .ok initiation.sharedSecret ∧
      (initiation.oneTimePrekeyId.isSome = true →
        initiateInput x aliceIdentitySecret aliceEphemeralSecret bundle ≠
          respondInput x bobIdentitySecret signedPrekeySecret none
            (x.publicKey aliceIdentitySecret) initiation.ephemeralPublicKey) := by
  have hverify := PrekeyBundle.generate_verifies hed x identity oneTimeCount draws
  have hhead := firstOneTimePrekey_generate (x := x) identity oneTimeCount draws
  have hsigned : (PrekeyBundle.generate x identity oneTimeCount draws).1.signedPrekey.publicKey =
      x.publicKey (PrekeyBundle.generate x identity oneTimeCount draws).2.1 := rfl
  rw [hgenerate] at hverify hhead hsigned
  refine ⟨_, x3dhInitiate_eq _ _ hverify, ?_, ?_, fun hused => ?_⟩
  · have hsome := congrArg Option.isSome hhead
    rw [Option.isSome_map, Option.isSome_map] at hsome
    rw [Option.isSome_map, hsome]
  · rw [x3dhRespond, respondInput_eq hdh hidentity hsigned hhead]
  · refine initiateInput_ne ?_ _ _ _ _
    intro hnil
    rw [PrekeyBundle.firstOneTimePrekey, hnil] at hused
    cases hused

/-! ## An instance -/

/-- Diffie-Hellman in the bytes under addition, with the base point 9. -/
def bytewise : X25519 where
  publicKey secret := secret.map (9 * ·)
  diffieHellman secret key := secret.zipWith (· * ·) key

theorem bytewise_comm (a b : StaticSecret) :
    bytewise.diffieHellman a (bytewise.publicKey b) =
      bytewise.diffieHellman b (bytewise.publicKey a) := by
  ext i hi
  simp only [bytewise, Vector.getElem_zipWith, Vector.getElem_map]
  rw [← UInt8.mul_assoc, UInt8.mul_comm a[i] 9, UInt8.mul_assoc, UInt8.mul_comm a[i],
    ← UInt8.mul_assoc, UInt8.mul_comm 9, UInt8.mul_assoc]

/-- A signature repeats the key, which is its own verifying key, twice. -/
def keyRepeated : Ed25519 where
  verifyingKey signing := signing
  sign signing _ := signing ++ signing
  checkKey _ := .ok ()
  verifyStrict key _ signature :=
    if signature = key ++ key then .ok () else .error "signature error"

theorem keyRepeated_correct : keyRepeated.Correct :=
  ⟨fun _ => rfl, fun _ _ => if_pos rfl⟩

/-- Bob's keys of a concrete run. -/
def runIdentity : IdentityKeyPair keyRepeated := .fromBytes keyRepeated (Vector.replicate 32 27)

def runDraws : PrekeyBundle.Draws :=
  ⟨Vector.replicate 32 4, 0, fun i => Vector.replicate 32 (5 + .ofNat i)⟩

/-- Alice uses the first of Bob's two one-time prekeys. -/
theorem x3dh_agreement_run : ∃ initiation,
    x3dhInitiate bytewise RatchetSession.runKdf keyRepeated (Vector.replicate 32 1)
      (Vector.replicate 32 2) (PrekeyBundle.generate bytewise runIdentity 2 runDraws).1 =
        .ok initiation ∧
    x3dhRespond bytewise RatchetSession.runKdf (Vector.replicate 32 3)
      (PrekeyBundle.generate bytewise runIdentity 2 runDraws).2.1
      (namedSecret initiation.oneTimePrekeyId
        (PrekeyBundle.generate bytewise runIdentity 2 runDraws).2.2)
      (bytewise.publicKey (Vector.replicate 32 1)) initiation.ephemeralPublicKey =
        .ok initiation.sharedSecret := by
  have hidentity : runIdentity.verifying = bytewise.publicKey (Vector.replicate 32 3) := by
    decide +kernel
  obtain ⟨initiation, halice, -, hbob, -⟩ := x3dh_agreement bytewise RatchetSession.runKdf
    keyRepeated bytewise_comm keyRepeated_correct runIdentity 2 runDraws _ _ _ rfl
    (Vector.replicate 32 3) hidentity (Vector.replicate 32 1) (Vector.replicate 32 2)
  exact ⟨initiation, halice, hbob⟩

end FreeBox.Crypto
