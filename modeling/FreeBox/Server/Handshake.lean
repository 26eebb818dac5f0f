import FreeBox.Crypto.RatchetPair
import FreeBox.Server.PrekeySupply

/-!
# From a registration to an encrypted conversation

Bob registers with a bundle of `PrekeyBundle::generate`. Alice later asks `get_bundle` for it,
runs `x3dh_initiate` on what she gets, and starts a `RatchetSession` with the secret; Bob runs
`x3dh_respond` with the secrets that `generate` has given him and with a secret for the
published identity key, which is a hypothesis: `generate` does not give him one.

Results:
* `lookup_register`: what the server publishes for a user who has registered.
* `handshake_delivers`: Alice and Bob get one secret, and read each other's messages.
-/

namespace FreeBox.Server.KeyServer

open FreeBox.Lib FreeBox.Crypto

variable {st : AppState} {w : World} {c : Call} {u : Uuid} {row : BundleRow} {x : X25519}
  {kdf : DeriveKey} {A : Aes256Gcm}

/-! ## What is published -/

theorem bundle_of_checkRegister {r : RegisterRequest} {bundle : PrekeyBundle}
    (h : checkRegister st r = .ok bundle) : r.prekeyBundle = .ok bundle := by
  simp only [checkRegister, bind, Except.bind] at h
  split at h
  · cases h
  · split at h
    · cases h
    · split_ifs at h
      exact (validatePrekeyBundle_eq_ok.mp h).1

/-- A registration that is answered with tokens has stored its bundle. -/
theorem lookup_register {r : RegisterRequest} {draws : RegisterDraws} {tokens : OAuth.AuthResponse}
    (hreq : c.request = .register r draws) (h : (handle st w c).2 = .created tokens) :
    ∃ bundle, r.prekeyBundle = .ok bundle ∧
      (handle st w c).1.bundles.lookup draws.userId = some ⟨bundle, c.now⟩ := by
  simp only [handle, hreq, register] at h ⊢
  split at h
  · cases h
  · next bundle hcheck =>
    split at h
    · cases h
    · next serverHash hhash =>
      split_ifs at h with hdb
      split at h
      · cases h
      · next hinsert =>
        split at h
        · cases h
        · next issued hissue =>
          refine ⟨bundle, bundle_of_checkRegister hcheck, ?_⟩
          rw [if_neg hdb, (insertAccount_eq_ok hinsert).2, AList.lookup_insert]

/-! ## The two ends -/

/-- A bundle that keys are appended to keeps its first one-time prekey. -/
theorem firstOneTimePrekey_append {bundle : PrekeyBundle} {more : List OneTimePrekey}
    (h : bundle.oneTimePrekeys ≠ []) :
    PrekeyBundle.firstOneTimePrekey
      { bundle with oneTimePrekeys := bundle.oneTimePrekeys ++ more } =
        bundle.firstOneTimePrekey :=
  List.head?_append_of_ne_nil _ h

/-- Alice has started her session as the initiator, and Bob his. -/
def conversation (kdf : DeriveKey) (aliceSecret bobSecret : Vector UInt8 32) : RatchetPair where
  session
    | .alice => .new kdf aliceSecret true
    | .bob => .new kdf bobSecret false
  sent _ := []
  opened _ := []

theorem conversation_self (kdf : DeriveKey) (secret : Vector UInt8 32) :
    conversation kdf secret secret = RatchetPair.start kdf secret := by
  have hsession : (conversation kdf secret secret).session =
      (RatchetPair.start kdf secret).session := by
    funext p
    cases p <;> rfl
  exact congrArg (fun session => RatchetPair.mk session (fun _ => []) fun _ => []) hsession

/-- Whatever requests the server answers between the registration of Bob and the request of
    Alice, Alice gets a bundle with which `x3dh_initiate` succeeds, Bob derives the same secret
    from what Alice names, and in every interleaving of their sessions each reads what the other
    has sent. -/
theorem handshake_delivers (st : AppState) (x : X25519) (kdf : DeriveKey) (A : Aes256Gcm)
    (messages : Set Bytes)
    (hdh : ∀ a b, x.diffieHellman a (x.publicKey b) = x.diffieHellman b (x.publicKey a))
    (hed : st.ed25519.Correct) (hA : A.Inverts messages)
    (identity : IdentityKeyPair st.ed25519) (bobIdentitySecret : StaticSecret)
    (hidentity : identity.verifying = x.publicKey bobIdentitySecret)
    (oneTimeCount : UInt32) (hcount : 0 < oneTimeCount) (bobDraws : PrekeyBundle.Draws)
    (w : World) (c : Call) (r : RegisterRequest) (draws : RegisterDraws)
    (tokens : OAuth.AuthResponse) (hreq : c.request = .register r draws)
    (hbundle : r.prekeyBundle = .ok (PrekeyBundle.generate x identity oneTimeCount bobDraws).1)
    (hcreated : (handle st w c).2 = .created tokens) (calls : List Call) (fetch : Call)
    (claims : Claims) (hfetch : fetch.request = .getBundle claims draws.userId)
    (hdb : fetch.dbFails = false) (aliceIdentitySecret aliceEphemeralSecret : StaticSecret) :
    ∃ published initiation bobSecret,
      (handle st (stateAfter (handle st) (handle st w c).1 calls) fetch).2 = .bundle published ∧
      x3dhInitiate x kdf st.ed25519 aliceIdentitySecret aliceEphemeralSecret published =
        .ok initiation ∧
      x3dhRespond x kdf bobIdentitySecret
        (PrekeyBundle.generate x identity oneTimeCount bobDraws).2.1
        (namedSecret initiation.oneTimePrekeyId
          (PrekeyBundle.generate x identity oneTimeCount bobDraws).2.2)
        (x.publicKey aliceIdentitySecret) initiation.ephemeralPublicKey = .ok bobSecret ∧
      ∀ steps t, Run (RatchetPair.step kdf A) (RatchetPair.Seals messages)
          (conversation kdf initiation.sharedSecret bobSecret) steps t →
        ∀ p, t.opened p = ((t.sent p).take (t.opened p).length).map fun e => .ok e.1 := by
  obtain ⟨bundle, hstored, hrow⟩ := lookup_register hreq hcreated
  obtain rfl : _ = bundle := Except.ok.inj (hbundle.symm.trans hstored)
  obtain ⟨row, hrow', hpublished⟩ := lookup_stateAfter st hrow calls
  have hverify := PrekeyBundle.generate_verifies hed x identity oneTimeCount bobDraws
  have hkeys : (PrekeyBundle.generate x identity oneTimeCount bobDraws).1.oneTimePrekeys ≠ [] := by
    rw [← List.length_pos_iff, PrekeyBundle.length_generate]
    exact UInt32.lt_iff_toNat_lt.mp hcount
  have hfirst : row.bundle.firstOneTimePrekey =
      (PrekeyBundle.generate x identity oneTimeCount bobDraws).1.firstOneTimePrekey := by
    rw [hpublished]
    exact firstOneTimePrekey_append hkeys
  have hhead := firstOneTimePrekey_generate (x := x) identity oneTimeCount bobDraws
  rw [← hfirst] at hhead
  have hidentity' : row.bundle.identityKey = x.publicKey bobIdentitySecret := by
    rw [hpublished]
    exact hidentity
  have hsigned : row.bundle.signedPrekey.publicKey =
      x.publicKey (PrekeyBundle.generate x identity oneTimeCount bobDraws).2.1 := by
    rw [hpublished]
    rfl
  refine ⟨row.bundle, _, kdf domains.x3dh (initiateInput x aliceIdentitySecret
    aliceEphemeralSecret row.bundle), handle_getBundle hfetch hdb hrow', x3dhInitiate_eq _ _ ?_,
    ?_, fun steps t hrun p => ?_⟩
  · rw [hpublished]
    exact hverify
  · rw [x3dhRespond, respondInput_eq hdh hidentity' hsigned hhead]
  · rw [conversation_self] at hrun
    exact (RatchetPair.inStep_run hA hrun p).faithful

theorem exists_created : ∃ tokens, (handle runServer runStart (runRegister 1)).2 =
    .created tokens := by
  have hcreated : (match (handle runServer runStart (runRegister 1)).2 with
      | .created _ => true
      | _ => false) = true := by
    decide +kernel
  generalize (handle runServer runStart (runRegister 1)).2 = response at hcreated
  cases response with
  | created tokens => exact ⟨tokens, rfl⟩
  | _ => cases hcreated

/-- A peer and the user of the concrete runs come to one secret. -/
theorem handshake_delivers_run : ∃ published initiation bobSecret,
    (handle runServer (stateAfter (handle runServer) (runWorld 1) [runReplenish 7]) (runFetch 7)).2 =
      .bundle published ∧
    x3dhInitiate bytewise RatchetSession.runKdf keyRepeated (Vector.replicate 32 1)
      (Vector.replicate 32 2) published = .ok initiation ∧
    x3dhRespond bytewise RatchetSession.runKdf (Vector.replicate 32 3)
      (PrekeyBundle.generate bytewise runIdentity 1 runDraws).2.1
      (namedSecret initiation.oneTimePrekeyId
        (PrekeyBundle.generate bytewise runIdentity 1 runDraws).2.2)
      (bytewise.publicKey (Vector.replicate 32 1)) initiation.ephemeralPublicKey = .ok bobSecret ∧
    ∀ steps t, Run (RatchetPair.step RatchetSession.runKdf RatchetSession.keyTagged)
        (RatchetPair.Seals Set.univ)
        (conversation RatchetSession.runKdf initiation.sharedSecret bobSecret) steps t →
      ∀ p, t.opened p = ((t.sent p).take (t.opened p).length).map fun e => .ok e.1 := by
  have hidentity : runIdentity.verifying = bytewise.publicKey (Vector.replicate 32 3) := by
    decide +kernel
  obtain ⟨tokens, hcreated⟩ := exists_created
  exact handshake_delivers runServer bytewise RatchetSession.runKdf RatchetSession.keyTagged
    Set.univ bytewise_comm keyRepeated_correct (Aead.tagged_inverts _ _) runIdentity
    (Vector.replicate 32 3) hidentity 1 (by decide) runDraws runStart (runRegister 1) _ _ tokens
    rfl rfl hcreated [runReplenish 7] (runFetch 7) _ rfl rfl (Vector.replicate 32 1)
    (Vector.replicate 32 2)

end FreeBox.Server.KeyServer
