import FreeBox.Crypto.Keys
import FreeBox.Lib.JsonValue

/-!
# Key bundles as JSON

The derived instances of `Serialize` and `Deserialize` for the public keys in
`packages/crypto/src/keys.rs`. Errors of `serde_json` carry no text here.

Results:
* `PrekeyBundle.fromValue_toValue`: a bundle that was written is read again.
* `PrekeyBundle.appendMember_toValue`: `jsonb_set` with `||` adds one-time prekeys to a bundle.
* `PrekeyBundle.size_toValue_le`: a bundle that `validate_public` accepts takes at most 1 MiB.
-/

namespace FreeBox.Crypto

open FreeBox.Lib JsonValue

/-! ## One-time prekeys -/

def OneTimePrekey.toValue (key : OneTimePrekey) : JsonValue :=
  .object [("id", .number key.id.toNat), ("public_key", .ofBytes key.publicKey)]

def OneTimePrekey.fromValue (v : JsonValue) : Option OneTimePrekey :=
  match v.fields ["id", "public_key"] with
  | some [id, publicKey] => do
    return { id := .ofNat (← id.asNat (2 ^ 32)), publicKey := ← publicKey.asBytes 32 }
  | _ => none

theorem OneTimePrekey.fromValue_toValue (key : OneTimePrekey) :
    fromValue key.toValue = some key := by
  have hfields : key.toValue.fields ["id", "public_key"] =
      some [.number key.id.toNat, .ofBytes key.publicKey] :=
    @fields_object [("id", .number key.id.toNat), ("public_key", .ofBytes key.publicKey)] (by simp)
  simp [fromValue, hfields, asNat_number key.id.toNat_lt, asBytes_ofBytes]

/-! ## Signed prekeys -/

def SignedPrekey.toValue (prekey : SignedPrekey) : JsonValue :=
  .object [("public_key", .ofBytes prekey.publicKey), ("signature", .ofBytes prekey.signature),
    ("created_at", .number prekey.createdAt.toNat)]

def SignedPrekey.fromValue (v : JsonValue) : Option SignedPrekey :=
  match v.fields ["public_key", "signature", "created_at"] with
  | some [publicKey, signature, createdAt] => do
    return {
      publicKey := ← publicKey.asBytes 32
      signature := ← signature.asBytes 64
      createdAt := .ofNat (← createdAt.asNat (2 ^ 64)) }
  | _ => none

theorem SignedPrekey.fromValue_toValue (prekey : SignedPrekey) :
    fromValue prekey.toValue = some prekey := by
  have hfields : prekey.toValue.fields ["public_key", "signature", "created_at"] =
      some [.ofBytes prekey.publicKey, .ofBytes prekey.signature,
        .number prekey.createdAt.toNat] :=
    @fields_object [("public_key", .ofBytes prekey.publicKey),
      ("signature", .ofBytes prekey.signature), ("created_at", .number prekey.createdAt.toNat)]
      (by simp)
  simp [fromValue, hfields, asNat_number prekey.createdAt.toNat_lt, asBytes_ofBytes]

/-! ## Bundles -/

namespace PrekeyBundle

def toValue (bundle : PrekeyBundle) : JsonValue :=
  .object [("identity_key", .ofBytes bundle.identityKey),
    ("signed_prekey", bundle.signedPrekey.toValue),
    ("one_time_prekeys", .ofList OneTimePrekey.toValue bundle.oneTimePrekeys)]

def fromValue (v : JsonValue) : Option PrekeyBundle :=
  match v.fields ["identity_key", "signed_prekey", "one_time_prekeys"] with
  | some [identityKey, signedPrekey, oneTimePrekeys] => do
    return {
      identityKey := ← identityKey.asBytes 32
      signedPrekey := ← SignedPrekey.fromValue signedPrekey
      oneTimePrekeys := ← oneTimePrekeys.asList OneTimePrekey.fromValue }
  | _ => none

theorem fromValue_toValue (bundle : PrekeyBundle) : fromValue bundle.toValue = some bundle := by
  have hfields : bundle.toValue.fields ["identity_key", "signed_prekey", "one_time_prekeys"] =
      some [.ofBytes bundle.identityKey, bundle.signedPrekey.toValue,
        .ofList OneTimePrekey.toValue bundle.oneTimePrekeys] :=
    @fields_object [("identity_key", .ofBytes bundle.identityKey),
      ("signed_prekey", bundle.signedPrekey.toValue),
      ("one_time_prekeys", .ofList OneTimePrekey.toValue bundle.oneTimePrekeys)] (by simp)
  simp [fromValue, hfields, SignedPrekey.fromValue_toValue, asBytes_ofBytes,
    asList_ofList OneTimePrekey.fromValue_toValue]

/-- `jsonb_set` of `replenish_one_time`. -/
theorem appendMember_toValue (bundle : PrekeyBundle) (keys : List OneTimePrekey) :
    appendMember "one_time_prekeys" (.ofList OneTimePrekey.toValue keys) bundle.toValue =
      some (toValue { bundle with oneTimePrekeys := bundle.oneTimePrekeys ++ keys }) := by
  have happend := @appendMember_eq [("identity_key", .ofBytes bundle.identityKey),
    ("signed_prekey", bundle.signedPrekey.toValue),
    ("one_time_prekeys", .ofList OneTimePrekey.toValue bundle.oneTimePrekeys)] "one_time_prekeys"
    (bundle.oneTimePrekeys.map OneTimePrekey.toValue) (keys.map OneTimePrekey.toValue) rfl
  refine happend.trans ?_
  simp [toValue, ofList]

/-! ## Sizes -/

theorem length_print_oneTimePrekey_le (key : OneTimePrekey) :
    (print key.toValue).length ≤ 161 := by
  have hid : (Json.number key.id.toNat).length ≤ 10 :=
    Json.length_number_le (by decide) (key.id.toNat_lt.trans (by decide))
  have hkey := length_print_ofBytes_le key.publicKey
  simp only [OneTimePrekey.toValue, print, printMembers]
  generalize Json.number key.id.toNat = id at hid
  generalize print (.ofBytes key.publicKey) = publicKey at hkey
  simp [JsonText.object, JsonText.objectTail, JsonText.string, JsonText.escape]
  omega

theorem length_print_signedPrekey_le (prekey : SignedPrekey) :
    (print prekey.toValue).length ≤ 450 := by
  have hkey := length_print_ofBytes_le prekey.publicKey
  have hsignature := length_print_ofBytes_le prekey.signature
  have hcreated : (Json.number prekey.createdAt.toNat).length ≤ 20 :=
    Json.length_number_le (by decide) (prekey.createdAt.toNat_lt.trans (by decide))
  simp only [SignedPrekey.toValue, print, printMembers]
  generalize Json.number prekey.createdAt.toNat = createdAt at hcreated
  generalize print (.ofBytes prekey.publicKey) = publicKey at hkey
  generalize print (.ofBytes prekey.signature) = signature at hsignature
  simp [JsonText.object, JsonText.objectTail, JsonText.string, JsonText.escape]
  omega

theorem length_print_le (bundle : PrekeyBundle) :
    (print bundle.toValue).length ≤ 162 * bundle.oneTimePrekeys.length + 640 := by
  have hidentity := length_print_ofBytes_le bundle.identityKey
  have hsigned := length_print_signedPrekey_le bundle.signedPrekey
  have hkeys : (print (.ofList OneTimePrekey.toValue bundle.oneTimePrekeys)).length ≤
      162 * bundle.oneTimePrekeys.length + 2 := by
    have hkey : ∀ v ∈ bundle.oneTimePrekeys.map OneTimePrekey.toValue,
        (print v).length ≤ 161 := by
      intro v hv
      obtain ⟨key, -, rfl⟩ := List.mem_map.mp hv
      exact length_print_oneTimePrekey_le key
    have hlength := length_print_array_le hkey
    rwa [List.length_map] at hlength
  simp only [toValue, print, printMembers]
  generalize print (.ofBytes bundle.identityKey) = identityKey at hidentity
  generalize print bundle.signedPrekey.toValue = signedPrekey at hsigned
  generalize print (.ofList OneTimePrekey.toValue bundle.oneTimePrekeys) = keys at hkeys
  simp [JsonText.object, JsonText.objectTail, JsonText.string, JsonText.escape]
  omega

/-- A bundle with at most `MAX_ONE_TIME_PREKEYS` one-time prekeys takes less than 1 MiB. -/
theorem size_toValue_le {bundle : PrekeyBundle}
    (h : bundle.oneTimePrekeys.length ≤ maxOneTimePrekeys) :
    bundle.toValue.size ≤ 1024 * 1024 := by
  have hsize := bundle.toValue.size_le
  have hlength := length_print_le bundle
  unfold maxOneTimePrekeys at h
  omega

end PrekeyBundle

end FreeBox.Crypto
