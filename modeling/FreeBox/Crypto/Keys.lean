import FreeBox.Lib.Bytes
import Mathlib.Data.List.Nodup

/-!
# Public keys

Model of the key bundles in `packages/crypto/src/keys.rs`. Ed25519 and X25519 are
parameters, what the code draws at random is an argument.

Results:
* `checkKeys_eq_ok`: what the loop over one-time prekeys accepts.
* `PrekeyBundle.validatePublic_eq_ok`: what `validate_public` accepts.
* `PrekeyBundle.validatePublic_append_iff`: when it accepts a bundle with more keys.
* `PrekeyBundle.generate_valid`: it accepts the bundles that `generate` makes.
* `PrekeyBundle.generate_getElem?`: a one-time prekey stands at the position of its
  id, with its secret.
-/

namespace FreeBox.Crypto

open FreeBox.Lib

/-- The functions of `ed25519_dalek` that the crate calls. A check that fails gives
    the text of its error. -/
structure Ed25519 where
  /-- `SigningKey::verifying_key`. -/
  verifyingKey : Vector UInt8 32 → Vector UInt8 32
  /-- `SigningKey::sign`. -/
  sign : Vector UInt8 32 → Bytes → Vector UInt8 64
  /-- `VerifyingKey::from_bytes`. -/
  checkKey : Vector UInt8 32 → Except String Unit
  /-- `VerifyingKey::verify_strict`. -/
  verifyStrict : Vector UInt8 32 → Bytes → Vector UInt8 64 → Except String Unit

/-- Keys of secret keys are keys, and signatures verify. -/
structure Ed25519.Correct (ed : Ed25519) : Prop where
  key : ∀ signing, ed.checkKey (ed.verifyingKey signing) = .ok ()
  signature : ∀ signing message,
    ed.verifyStrict (ed.verifyingKey signing) message (ed.sign signing message) = .ok ()

/-- `x25519_dalek::StaticSecret`. -/
abbrev StaticSecret := Vector UInt8 32

/-- The functions of `x25519_dalek` that the crate calls. -/
structure X25519 where
  /-- `PublicKey::from`. -/
  publicKey : StaticSecret → Vector UInt8 32
  /-- `StaticSecret::diffie_hellman`. -/
  diffieHellman : StaticSecret → Vector UInt8 32 → Vector UInt8 32

/-- `[0u8; 32]`. -/
def zeroKey : Vector UInt8 32 := Vector.replicate 32 0

/-- `keys::MAX_ONE_TIME_PREKEYS`. -/
def maxOneTimePrekeys : ℕ := 1000

/-! ## Identity and signed prekey -/

/-- `keys::IdentityKeyPair`. Its fields are private and are set together. -/
structure IdentityKeyPair (ed : Ed25519) where
  signing : Vector UInt8 32
  verifying : Vector UInt8 32
  verifying_eq : verifying = ed.verifyingKey signing

variable {ed : Ed25519} {x : X25519}

/-- `IdentityKeyPair::from_bytes`, and `generate` for a drawn secret. -/
def IdentityKeyPair.fromBytes (ed : Ed25519) (signing : Vector UInt8 32) : IdentityKeyPair ed where
  signing
  verifying := ed.verifyingKey signing
  verifying_eq := rfl

/-- `IdentityKeyPair::sign`. -/
def IdentityKeyPair.sign (identity : IdentityKeyPair ed) (message : Bytes) : Vector UInt8 64 :=
  ed.sign identity.signing message

/-- `keys::SignedPrekey`. -/
structure SignedPrekey where
  publicKey : Vector UInt8 32
  signature : Vector UInt8 64
  createdAt : UInt64
  deriving DecidableEq

/-- `SignedPrekey::generate` for a drawn secret and a reading of the clock. -/
def SignedPrekey.generate (x : X25519) (identity : IdentityKeyPair ed) (secret : StaticSecret)
    (createdAt : UInt64) : SignedPrekey where
  publicKey := x.publicKey secret
  signature := identity.sign (x.publicKey secret).toList
  createdAt

/-- The checks of `VerifyingKey::from_bytes` and `verify_strict` with the messages
    that `validate_public` and `verify_signed_prekey` give to their errors. -/
def verifySignedPrekey (ed : Ed25519) (identityKey signedPrekeyPublic : Vector UInt8 32)
    (signature : Vector UInt8 64) : Except String Unit :=
  match ed.checkKey identityKey with
  | .error e => .error ("invalid identity key: " ++ e)
  | .ok () =>
    match ed.verifyStrict identityKey signedPrekeyPublic.toList signature with
    | .error e => .error ("signed prekey signature verification failed: " ++ e)
    | .ok () => .ok ()

theorem verifySignedPrekey_eq_ok {identityKey signedPrekeyPublic : Vector UInt8 32}
    {signature : Vector UInt8 64} :
    verifySignedPrekey ed identityKey signedPrekeyPublic signature = .ok () ↔
      ed.checkKey identityKey = .ok () ∧
        ed.verifyStrict identityKey signedPrekeyPublic.toList signature = .ok () := by
  unfold verifySignedPrekey
  cases ed.checkKey identityKey with
  | error e => simp
  | ok _ => cases ed.verifyStrict identityKey signedPrekeyPublic.toList signature <;> simp

theorem verifySignedPrekey_generate (hed : ed.Correct) (x : X25519) (identity : IdentityKeyPair ed)
    (secret : StaticSecret) (createdAt : UInt64) :
    verifySignedPrekey ed identity.verifying
      (SignedPrekey.generate x identity secret createdAt).publicKey
      (SignedPrekey.generate x identity secret createdAt).signature = .ok () := by
  rw [verifySignedPrekey_eq_ok, identity.verifying_eq]
  exact ⟨hed.key _, hed.signature _ _⟩

/-! ## One-time prekeys -/

/-- `keys::OneTimePrekey`. -/
structure OneTimePrekey where
  id : UInt32
  publicKey : Vector UInt8 32
  deriving DecidableEq

/-- `OneTimePrekey::validate_public`. -/
def OneTimePrekey.validatePublic (key : OneTimePrekey) : Except String Unit :=
  if key.publicKey = zeroKey then
    .error ("one-time prekey " ++ toString key.id ++ " has an all-zero public key")
  else .ok ()

/-- The loop over one-time prekeys of `PrekeyBundle::validate_public` and of
    `validate_one_time_prekey_batch`, which report errors in their own ways. -/
def checkKeys {ε : Type} (invalid duplicate : String → ε) :
    (seenIds : List UInt32) → List OneTimePrekey → Except ε Unit
  | _, [] => .ok ()
  | seenIds, key :: keys =>
    match key.validatePublic with
    | .error e => .error (invalid e)
    | .ok () =>
      if key.id ∈ seenIds then .error (duplicate ("duplicate one-time prekey id " ++ toString key.id))
      else checkKeys invalid duplicate (key.id :: seenIds) keys

theorem OneTimePrekey.validatePublic_eq_ok {key : OneTimePrekey} :
    key.validatePublic = .ok () ↔ key.publicKey ≠ zeroKey := by
  unfold validatePublic
  split_ifs with h <;> simp [h]

/-- Keys with ids of their own, none of them zero. -/
structure ValidKeys (keys : List OneTimePrekey) : Prop where
  ids : (keys.map OneTimePrekey.id).Nodup
  nonzero : ∀ key ∈ keys, key.publicKey ≠ zeroKey

theorem ValidKeys.append_iff {keys keys' : List OneTimePrekey} :
    ValidKeys (keys ++ keys') ↔ ValidKeys keys ∧ ValidKeys keys' ∧
      (keys.map OneTimePrekey.id).Disjoint (keys'.map OneTimePrekey.id) := by
  constructor
  · intro h
    obtain ⟨hids, hids', hdisj⟩ := List.nodup_append'.mp (List.map_append ▸ h.ids)
    exact ⟨⟨hids, fun key hkey => h.nonzero key (List.mem_append_left _ hkey)⟩,
      ⟨hids', fun key hkey => h.nonzero key (List.mem_append_right _ hkey)⟩, hdisj⟩
  · rintro ⟨h, h', hdisj⟩
    refine ⟨?_, fun key hkey => ?_⟩
    · rw [List.map_append]; exact List.nodup_append'.mpr ⟨h.ids, h'.ids, hdisj⟩
    · rcases List.mem_append.mp hkey with hkey | hkey
      · exact h.nonzero key hkey
      · exact h'.nonzero key hkey

theorem checkKeys_eq_ok {ε : Type} {invalid duplicate : String → ε} {keys : List OneTimePrekey}
    {seenIds : List UInt32} : checkKeys invalid duplicate seenIds keys = .ok () ↔
      ValidKeys keys ∧ ∀ key ∈ keys, key.id ∉ seenIds := by
  induction keys generalizing seenIds with
  | nil => exact ⟨fun _ => ⟨⟨List.nodup_nil, by simp⟩, by simp⟩, fun _ => rfl⟩
  | cons key keys ih =>
    rw [checkKeys]
    cases hkey : key.validatePublic with
    | error e =>
      refine ⟨nofun, fun h => ?_⟩
      have hok := OneTimePrekey.validatePublic_eq_ok.mpr (h.1.nonzero key List.mem_cons_self)
      rw [hkey] at hok
      cases hok
    | ok _ =>
      have hzero := OneTimePrekey.validatePublic_eq_ok.mp hkey
      simp only
      split_ifs with hseen
      · exact ⟨nofun, fun h => absurd hseen (h.2 key List.mem_cons_self)⟩
      · rw [ih]
        constructor
        · rintro ⟨hvalid, hnew⟩
          refine ⟨⟨?_, List.forall_mem_cons.mpr ⟨hzero, hvalid.nonzero⟩⟩,
            List.forall_mem_cons.mpr ⟨hseen, fun k hk => ?_⟩⟩
          · rw [List.map_cons, List.nodup_cons, List.mem_map]
            refine ⟨?_, hvalid.ids⟩
            rintro ⟨k, hk, hid⟩
            exact hnew k hk (hid ▸ List.mem_cons_self)
          · exact fun hmem => hnew k hk (List.mem_cons_of_mem _ hmem)
        · rintro ⟨hvalid, hnew⟩
          have hids := List.nodup_cons.mp (List.map_cons ▸ hvalid.ids)
          refine ⟨⟨hids.2, fun k hk => hvalid.nonzero k (List.mem_cons_of_mem _ hk)⟩, ?_⟩
          intro k hk hmem
          rcases List.mem_cons.mp hmem with hid | hmem
          · exact hids.1 (hid ▸ List.mem_map_of_mem hk)
          · exact hnew k (List.mem_cons_of_mem _ hk) hmem

/-! ## Bundles -/

/-- `keys::PrekeyBundle`. -/
structure PrekeyBundle where
  identityKey : Vector UInt8 32
  signedPrekey : SignedPrekey
  oneTimePrekeys : List OneTimePrekey
  deriving DecidableEq

namespace PrekeyBundle

/-- `PrekeyBundle::validate_public`. -/
def validatePublic (ed : Ed25519) (bundle : PrekeyBundle) : Except String Unit :=
  if bundle.identityKey = zeroKey then .error "identity key must not be all zeros"
  else if bundle.signedPrekey.publicKey = zeroKey then
    .error "signed prekey public key must not be all zeros"
  else if bundle.oneTimePrekeys.length > maxOneTimePrekeys then
    .error ("too many one-time prekeys: max " ++ toString maxOneTimePrekeys ++ ", got " ++
      toString bundle.oneTimePrekeys.length)
  else
    match verifySignedPrekey ed bundle.identityKey bundle.signedPrekey.publicKey
      bundle.signedPrekey.signature with
    | .error e => .error e
    | .ok () => checkKeys id id [] bundle.oneTimePrekeys

/-- The identity key and the signed prekey are in order. -/
structure ValidIdentity (ed : Ed25519) (bundle : PrekeyBundle) : Prop where
  identity : bundle.identityKey ≠ zeroKey
  signed : bundle.signedPrekey.publicKey ≠ zeroKey
  signature : verifySignedPrekey ed bundle.identityKey bundle.signedPrekey.publicKey
    bundle.signedPrekey.signature = .ok ()

theorem validatePublic_eq_ok {bundle : PrekeyBundle} :
    bundle.validatePublic ed = .ok () ↔ bundle.ValidIdentity ed ∧
      bundle.oneTimePrekeys.length ≤ maxOneTimePrekeys ∧ ValidKeys bundle.oneTimePrekeys := by
  unfold validatePublic
  split_ifs with hidentity hsigned hmany
  · exact ⟨nofun, fun h => absurd hidentity h.1.identity⟩
  · exact ⟨nofun, fun h => absurd hsigned h.1.signed⟩
  · exact ⟨nofun, fun h => absurd h.2.1 (Nat.not_le.mpr hmany)⟩
  · cases hsig : verifySignedPrekey ed bundle.identityKey bundle.signedPrekey.publicKey
      bundle.signedPrekey.signature with
    | error e => exact ⟨nofun, fun h => by rw [h.1.signature] at hsig; cases hsig⟩
    | ok _ =>
      simp only [checkKeys_eq_ok]
      exact ⟨fun h => ⟨⟨hidentity, hsigned, hsig⟩, Nat.not_lt.mp hmany, h.1⟩,
        fun h => ⟨h.2.2, fun _ _ => List.not_mem_nil⟩⟩

/-- More one-time prekeys leave a bundle valid exactly when their ids are new and they
    are not too many. -/
theorem validatePublic_append_iff {bundle : PrekeyBundle} {keys : List OneTimePrekey}
    (h : bundle.validatePublic ed = .ok ()) (hkeys : ValidKeys keys) :
    validatePublic ed { bundle with oneTimePrekeys := bundle.oneTimePrekeys ++ keys } = .ok () ↔
      (bundle.oneTimePrekeys.map OneTimePrekey.id).Disjoint (keys.map OneTimePrekey.id) ∧
        bundle.oneTimePrekeys.length + keys.length ≤ maxOneTimePrekeys := by
  obtain ⟨hidentity, -, hstored⟩ := validatePublic_eq_ok.mp h
  rw [validatePublic_eq_ok, ValidKeys.append_iff, List.length_append]
  constructor
  · rintro ⟨-, hlen, -, -, hdisj⟩
    exact ⟨hdisj, hlen⟩
  · rintro ⟨hdisj, hlen⟩
    exact ⟨⟨hidentity.identity, hidentity.signed, hidentity.signature⟩, hlen, hstored, hkeys, hdisj⟩

/-! ## Generated bundles -/

/-- What `generate` draws: the secret of the signed prekey and the reading of the
    clock at it, then the secrets of the one-time prekeys. -/
structure Draws where
  signedPrekey : StaticSecret
  createdAt : UInt64
  oneTime : ℕ → StaticSecret

/-- `PrekeyBundle::generate`. -/
def generate (x : X25519) (identity : IdentityKeyPair ed) (oneTimeCount : UInt32) (draws : Draws) :
    PrekeyBundle × StaticSecret × List StaticSecret :=
  let ids := List.range oneTimeCount.toNat
  ({ identityKey := identity.verifying
     signedPrekey := .generate x identity draws.signedPrekey draws.createdAt
     oneTimePrekeys := ids.map fun id => ⟨.ofNat id, x.publicKey (draws.oneTime id)⟩ },
    draws.signedPrekey, ids.map draws.oneTime)

variable {identity : IdentityKeyPair ed} {oneTimeCount : UInt32} {draws : Draws}

theorem generate_verifies (hed : ed.Correct) (x : X25519) (identity : IdentityKeyPair ed)
    (oneTimeCount : UInt32) (draws : Draws) :
    verifySignedPrekey ed (generate x identity oneTimeCount draws).1.identityKey
      (generate x identity oneTimeCount draws).1.signedPrekey.publicKey
      (generate x identity oneTimeCount draws).1.signedPrekey.signature = .ok () :=
  verifySignedPrekey_generate hed x identity draws.signedPrekey draws.createdAt

/-- The one-time prekeys number their positions, where their secrets stand. -/
theorem generate_getElem? {key : OneTimePrekey} {i : ℕ}
    (h : (generate x identity oneTimeCount draws).1.oneTimePrekeys[i]? = some key) :
    key.id.toNat = i ∧ ∃ secret, (generate x identity oneTimeCount draws).2.2[i]? = some secret ∧
      key.publicKey = x.publicKey secret := by
  rw [generate] at h ⊢
  simp only [List.getElem?_map, Option.map_eq_some_iff] at h ⊢
  obtain ⟨j, hj, rfl⟩ := h
  obtain ⟨hi, hji⟩ := List.getElem?_eq_some_iff.mp hj
  rw [List.getElem_range] at hji
  subst hji
  have hlt : i < 2 ^ 32 := (List.length_range ▸ hi).trans oneTimeCount.toNat_lt
  exact ⟨UInt32.toNat_ofNat_of_lt' hlt, draws.oneTime i, ⟨i, hj, rfl⟩, rfl⟩

/-- The ids of generated keys are their positions, so only zero keys are in the way. -/
theorem generate_validKeys
    (hzero : ∀ i < oneTimeCount.toNat, x.publicKey (draws.oneTime i) ≠ zeroKey) :
    ValidKeys (generate x identity oneTimeCount draws).1.oneTimePrekeys := by
  refine ⟨?_, fun key hkey => ?_⟩
  · rw [generate, List.map_map]
    refine List.Nodup.map_on (fun a ha b hb hab => ?_) List.nodup_range
    have hlt : ∀ n ∈ List.range oneTimeCount.toNat, n < 2 ^ 32 := fun n hn =>
      (List.mem_range.mp hn).trans oneTimeCount.toNat_lt
    have htoNat := congrArg UInt32.toNat hab
    rwa [Function.comp_apply, Function.comp_apply, UInt32.toNat_ofNat_of_lt' (hlt a ha),
      UInt32.toNat_ofNat_of_lt' (hlt b hb)] at htoNat
  · obtain ⟨i, hi, rfl⟩ := List.mem_map.mp hkey
    exact hzero i (List.mem_range.mp hi)

theorem length_generate (x : X25519) (identity : IdentityKeyPair ed) (oneTimeCount : UInt32)
    (draws : Draws) :
    (generate x identity oneTimeCount draws).1.oneTimePrekeys.length = oneTimeCount.toNat := by
  simp [generate]

/-- `validate_public` accepts what `generate` makes of secrets whose public keys are
    not zero, up to the maximal number of one-time prekeys. -/
theorem generate_valid (hed : ed.Correct) (hzero : ∀ secret, x.publicKey secret ≠ zeroKey)
    (hidentity : identity.verifying ≠ zeroKey) (hcount : oneTimeCount.toNat ≤ maxOneTimePrekeys) :
    (generate x identity oneTimeCount draws).1.validatePublic ed = .ok () := by
  rw [validatePublic_eq_ok, length_generate]
  exact ⟨⟨hidentity, hzero _, generate_verifies hed x identity oneTimeCount draws⟩, hcount,
    generate_validKeys fun _ _ => hzero _⟩

end PrekeyBundle

end FreeBox.Crypto
