import FreeBox.Crypto.Encryption
import Mathlib.Logic.Function.Iterate

/-!
# The ratchet session

Model of `RatchetSession` in `packages/crypto/src/signal.rs`. The key derivation
`blake3::derive_key` is a parameter `kdf`, AES-256-GCM a parameter `A`. A method
that takes `&mut self` returns its result and the session afterwards.

Results:
* `next_recv_key_cases`, `next_send_key_cases`: the two outcomes of a derivation.
* `run_sendAt`, `run_recvAt`: after any calls the sending chain has moved on once
  for each `seal` and the receiving chain once for each `open`, whether they
  succeeded or not.
* `ratchet_errors`: what an error leaves behind, and that a genuine message opens
  when it is presented in its turn.
-/

namespace FreeBox.Crypto

open FreeBox.Lib

/-- `signal::domains`. -/
def domains.ratchetRoot : String := "freebox ratchet root v1"
def domains.ratchetSend : String := "freebox ratchet send v1"
def domains.ratchetRecv : String := "freebox ratchet recv v1"
def domains.msgKey : String := "freebox msg key v1"
def domains.chainAdvance : String := "freebox chain advance v1"

/-- `signal::MAX_CHAIN_LENGTH`. -/
def maxChainLength : UInt32 := 1000000

/-- `blake3::derive_key`: a context string and key material give a key. -/
abbrev DeriveKey := String → Bytes → Vector UInt8 32

/-- `signal::RatchetSession`. -/
structure RatchetSession where
  rootKey : Vector UInt8 32
  sendChainKey : Vector UInt8 32
  recvChainKey : Vector UInt8 32
  sendCount : UInt32
  recvCount : UInt32
  deriving DecidableEq

namespace RatchetSession

variable (kdf : DeriveKey) (A : Aes256Gcm)

/-- `RatchetSession::new`. -/
def new (sharedSecret : Vector UInt8 32) (isInitiator : Bool) : RatchetSession :=
  let chainA := kdf domains.ratchetSend sharedSecret.toList
  let chainB := kdf domains.ratchetRecv sharedSecret.toList
  { rootKey := kdf domains.ratchetRoot sharedSecret.toList
    sendChainKey := if isInitiator then chainA else chainB
    recvChainKey := if isInitiator then chainB else chainA
    sendCount := 0
    recvCount := 0 }

/-- The key of message number `count` of the chain `chainKey`. -/
def messageKey (chainKey : Vector UInt8 32) (count : UInt32) : Vector UInt8 32 :=
  kdf domains.msgKey (chainKey.toList ++ beBytes 4 count.toNat)

/-- The next key of a chain. -/
def advanceKey (chainKey : Vector UInt8 32) : Vector UInt8 32 :=
  kdf domains.chainAdvance chainKey.toList

/-- The sending chain moves on by one step. -/
def advanceSend (s : RatchetSession) : RatchetSession :=
  { s with sendChainKey := advanceKey kdf s.sendChainKey, sendCount := s.sendCount + 1 }

/-- The receiving chain moves on by one step. -/
def advanceRecv (s : RatchetSession) : RatchetSession :=
  { s with recvChainKey := advanceKey kdf s.recvChainKey, recvCount := s.recvCount + 1 }

/-- `RatchetSession::next_send_key`. -/
def nextSendKey (s : RatchetSession) : Except String (Vector UInt8 32) × RatchetSession :=
  if s.sendCount ≥ maxChainLength then
    (.error ("send chain exhausted (" ++ toString maxChainLength ++
      " messages) — perform a DH ratchet step"), s)
  else (.ok (messageKey kdf s.sendChainKey s.sendCount), s.advanceSend kdf)

/-- `RatchetSession::next_recv_key`. -/
def nextRecvKey (s : RatchetSession) : Except String (Vector UInt8 32) × RatchetSession :=
  if s.recvCount ≥ maxChainLength then
    (.error ("receive chain exhausted (" ++ toString maxChainLength ++
      " messages) — perform a DH ratchet step"), s)
  else (.ok (messageKey kdf s.recvChainKey s.recvCount), s.advanceRecv kdf)

/-- `RatchetSession::seal`. The nonce is zero because the key is used once. -/
def «seal» (s : RatchetSession) (plaintext : Bytes) : Except String Bytes × RatchetSession :=
  match s.nextSendKey kdf with
  | (.error e, s') => (.error e, s')
  | (.ok key, s') =>
    match A.encrypt key (Vector.replicate 12 0) plaintext with
    | none => (.error "ratchet seal failed: aead::Error", s')
    | some ciphertext => (.ok ciphertext, s')

/-- `RatchetSession::open`. -/
def «open» (s : RatchetSession) (ciphertext : Bytes) : Except String Bytes × RatchetSession :=
  match s.nextRecvKey kdf with
  | (.error e, s') => (.error e, s')
  | (.ok key, s') =>
    match A.decrypt key (Vector.replicate 12 0) ciphertext with
    | none => (.error "ratchet open failed — message may be tampered", s')
    | some plaintext => (.ok plaintext, s')

/-- A call on a session. -/
inductive Call
  | toSeal (plaintext : Bytes)
  | toOpen (ciphertext : Bytes)
  deriving DecidableEq

def Call.isSeal : Call → Bool
  | .toSeal _ => true
  | .toOpen _ => false

def call (s : RatchetSession) : Call → Except String Bytes × RatchetSession
  | .toSeal p => s.seal kdf A p
  | .toOpen c => s.open kdf A c

/-- The session after a list of calls. -/
def after (s : RatchetSession) (calls : List Call) : RatchetSession :=
  calls.foldl (fun s c => (s.call kdf A c).2) s

/-- The result of call number `k` of a list of calls. -/
def resultAt (s : RatchetSession) (calls : List Call) (k : ℕ) : Option (Except String Bytes) :=
  calls[k]?.map fun c => ((s.after kdf A (calls.take k)).call kdf A c).1

variable {kdf A} {s s' : RatchetSession}

/-! ## What one call does -/

theorem next_send_key_cases (kdf : DeriveKey) (s : RatchetSession) :
    (maxChainLength ≤ s.sendCount ∧ (s.nextSendKey kdf).2 = s ∧
        ∃ e, (s.nextSendKey kdf).1 = .error e) ∨
      (s.sendCount < maxChainLength ∧
        s.nextSendKey kdf = (.ok (messageKey kdf s.sendChainKey s.sendCount), s.advanceSend kdf)) := by
  unfold nextSendKey
  split_ifs with h
  · exact .inl ⟨h, rfl, _, rfl⟩
  · exact .inr ⟨UInt32.not_le.mp h, rfl⟩

theorem next_recv_key_cases (kdf : DeriveKey) (s : RatchetSession) :
    (maxChainLength ≤ s.recvCount ∧ (s.nextRecvKey kdf).2 = s ∧
        ∃ e, (s.nextRecvKey kdf).1 = .error e) ∨
      (s.recvCount < maxChainLength ∧
        s.nextRecvKey kdf = (.ok (messageKey kdf s.recvChainKey s.recvCount), s.advanceRecv kdf)) := by
  unfold nextRecvKey
  split_ifs with h
  · exact .inl ⟨h, rfl, _, rfl⟩
  · exact .inr ⟨UInt32.not_le.mp h, rfl⟩

/-- `seal` changes the session as `next_send_key` does. -/
theorem seal_snd (kdf : DeriveKey) (A : Aes256Gcm) (s : RatchetSession) (p : Bytes) :
    (s.seal kdf A p).2 = (s.nextSendKey kdf).2 := by
  rw [«seal»]
  rcases s.nextSendKey kdf with ⟨_ | key, s'⟩
  · rfl
  · cases hct : A.encrypt key (Vector.replicate 12 0) p <;> simp only [hct]

/-- `open` changes the session as `next_recv_key` does. -/
theorem open_snd (kdf : DeriveKey) (A : Aes256Gcm) (s : RatchetSession) (c : Bytes) :
    (s.open kdf A c).2 = (s.nextRecvKey kdf).2 := by
  rw [«open»]
  rcases s.nextRecvKey kdf with ⟨_ | key, s'⟩
  · rfl
  · cases hp : A.decrypt key (Vector.replicate 12 0) c <;> simp only [hp]

/-- `seal` fails without a trace on an exhausted chain; otherwise the sending
    chain moves on and the result is the cipher's. -/
theorem seal_cases (kdf : DeriveKey) (A : Aes256Gcm) (s : RatchetSession) (p : Bytes) :
    (maxChainLength ≤ s.sendCount ∧ (s.seal kdf A p).2 = s ∧ ∃ e, (s.seal kdf A p).1 = .error e) ∨
      (s.sendCount < maxChainLength ∧ (s.seal kdf A p).2 = s.advanceSend kdf ∧
        ∀ c, (s.seal kdf A p).1 = .ok c ↔ A.encrypt (messageKey kdf s.sendChainKey s.sendCount)
          (Vector.replicate 12 0) p = some c) := by
  rcases next_send_key_cases kdf s with ⟨hmax, hs, e, he⟩ | ⟨hlt, hk⟩
  · left
    have hk : s.nextSendKey kdf = (.error e, s) := Prod.ext he hs
    exact ⟨hmax, by rw [«seal», hk], e, by rw [«seal», hk]⟩
  · right
    cases hct : A.encrypt (messageKey kdf s.sendChainKey s.sendCount) (Vector.replicate 12 0) p <;>
      simp [«seal», hk, hct, hlt]

/-- `open` fails without a trace on an exhausted chain; otherwise the receiving
    chain moves on and the result is the cipher's. -/
theorem open_cases (kdf : DeriveKey) (A : Aes256Gcm) (s : RatchetSession) (c : Bytes) :
    (maxChainLength ≤ s.recvCount ∧ (s.open kdf A c).2 = s ∧ ∃ e, (s.open kdf A c).1 = .error e) ∨
      (s.recvCount < maxChainLength ∧ (s.open kdf A c).2 = s.advanceRecv kdf ∧
        ∀ p, (s.open kdf A c).1 = .ok p ↔ A.decrypt (messageKey kdf s.recvChainKey s.recvCount)
          (Vector.replicate 12 0) c = some p) := by
  rcases next_recv_key_cases kdf s with ⟨hmax, hs, e, he⟩ | ⟨hlt, hk⟩
  · left
    have hk : s.nextRecvKey kdf = (.error e, s) := Prod.ext he hs
    exact ⟨hmax, by rw [«open», hk], e, by rw [«open», hk]⟩
  · right
    cases hp : A.decrypt (messageKey kdf s.recvChainKey s.recvCount) (Vector.replicate 12 0) c <;>
      simp [«open», hk, hp, hlt]

/-! ## Where the chains stand -/

/-- The chain has been asked for `n` keys since it started at `chainKey`. -/
def ChainAt (kdf : DeriveKey) (start : Vector UInt8 32) (n : ℕ) (chainKey : Vector UInt8 32)
    (count : UInt32) : Prop :=
  count.toNat = min n maxChainLength.toNat ∧ chainKey = (advanceKey kdf)^[count.toNat] start

/-- Below the maximum the increment of a count does not overflow. -/
theorem toNat_succ {count : UInt32} (hlt : count < maxChainLength) :
    (count + 1).toNat = count.toNat + 1 := by
  rw [UInt32.lt_iff_toNat_lt] at hlt
  have hmax : maxChainLength.toNat = 1000000 := rfl
  have hone : (1 : UInt32).toNat = 1 := rfl
  rw [UInt32.toNat_add, hone, Nat.mod_eq_of_lt]
  omega

theorem ChainAt.zero {start : Vector UInt8 32} : ChainAt kdf start 0 start 0 := ⟨rfl, rfl⟩

theorem ChainAt.lt_iff {start chainKey : Vector UInt8 32} {n : ℕ} {count : UInt32}
    (h : ChainAt kdf start n chainKey count) : count < maxChainLength ↔ n < maxChainLength.toNat := by
  rw [UInt32.lt_iff_toNat_lt, h.1]
  omega

theorem ChainAt.le {start chainKey : Vector UInt8 32} {n : ℕ} {count : UInt32}
    (h : ChainAt kdf start n chainKey count) : count ≤ maxChainLength := by
  rw [UInt32.le_iff_toNat_le, h.1]
  exact Nat.min_le_right ..

/-- An exhausted chain stays where it is. -/
theorem ChainAt.exhausted {start chainKey : Vector UInt8 32} {n : ℕ} {count : UInt32}
    (h : ChainAt kdf start n chainKey count) (hmax : maxChainLength ≤ count) :
    ChainAt kdf start (n + 1) chainKey count := by
  rw [UInt32.le_iff_toNat_le, h.1] at hmax
  exact ⟨by rw [h.1]; omega, h.2⟩

theorem ChainAt.advance {start chainKey : Vector UInt8 32} {n : ℕ} {count : UInt32}
    (h : ChainAt kdf start n chainKey count) (hlt : count < maxChainLength) :
    ChainAt kdf start (n + 1) (advanceKey kdf chainKey) (count + 1) := by
  have hn := h.lt_iff.mp hlt
  have hc := h.1
  have hsucc := toNat_succ hlt
  refine ⟨by rw [hsucc]; omega, ?_⟩
  rw [hsucc, Function.iterate_succ_apply', ← h.2]

/-- Before the chain is exhausted the number of keys asked for is the count. -/
theorem ChainAt.eq {start chainKey : Vector UInt8 32} {n : ℕ} {count : UInt32}
    (h : ChainAt kdf start n chainKey count) (hlt : n < maxChainLength.toNat) :
    count = .ofNat n ∧ chainKey = (advanceKey kdf)^[n] start := by
  have hc : count.toNat = n := by rw [h.1]; omega
  exact ⟨by rw [← hc, UInt32.ofNat_toNat], by rw [← hc]; exact h.2⟩

theorem call_sendAt {start : Vector UInt8 32} {n : ℕ} (c : Call)
    (h : ChainAt kdf start n s.sendChainKey s.sendCount) :
    ChainAt kdf start (n + if c.isSeal then 1 else 0) (s.call kdf A c).2.sendChainKey
      (s.call kdf A c).2.sendCount := by
  cases c with
  | toSeal p =>
    rcases seal_cases kdf A s p with ⟨hmax, hs, -⟩ | ⟨hlt, hs, -⟩
    · rw [call, hs]; exact h.exhausted hmax
    · rw [call, hs]; exact h.advance hlt
  | toOpen c =>
    rcases open_cases kdf A s c with ⟨-, hs, -⟩ | ⟨-, hs, -⟩ <;>
      · rw [call, hs]; exact h

theorem call_recvAt {start : Vector UInt8 32} {n : ℕ} (c : Call)
    (h : ChainAt kdf start n s.recvChainKey s.recvCount) :
    ChainAt kdf start (n + if c.isSeal then 0 else 1) (s.call kdf A c).2.recvChainKey
      (s.call kdf A c).2.recvCount := by
  cases c with
  | toSeal p =>
    rcases seal_cases kdf A s p with ⟨-, hs, -⟩ | ⟨-, hs, -⟩ <;>
      · rw [call, hs]; exact h
  | toOpen c =>
    rcases open_cases kdf A s c with ⟨hmax, hs, -⟩ | ⟨hlt, hs, -⟩
    · rw [call, hs]; exact h.exhausted hmax
    · rw [call, hs]; exact h.advance hlt

theorem run_sendAt {start : Vector UInt8 32} {n : ℕ} (calls : List Call)
    (h : ChainAt kdf start n s.sendChainKey s.sendCount) :
    ChainAt kdf start (n + calls.countP Call.isSeal) (s.after kdf A calls).sendChainKey
      (s.after kdf A calls).sendCount := by
  induction calls generalizing s n with
  | nil => exact h
  | cons c calls ih =>
    have := ih (call_sendAt (A := A) c h)
    rwa [List.countP_cons, Nat.add_comm (calls.countP _), ← Nat.add_assoc]

theorem run_recvAt {start : Vector UInt8 32} {n : ℕ} (calls : List Call)
    (h : ChainAt kdf start n s.recvChainKey s.recvCount) :
    ChainAt kdf start (n + calls.countP fun c => !c.isSeal) (s.after kdf A calls).recvChainKey
      (s.after kdf A calls).recvCount := by
  induction calls generalizing s n with
  | nil => exact h
  | cons c calls ih =>
    have := ih (call_recvAt (A := A) c h)
    rw [List.countP_cons, Nat.add_comm (calls.countP _), ← Nat.add_assoc]
    cases c <;> exact this

/-! ## Errors and genuine messages -/

/-- Message number `n` of a peer with the same secret opens when it is the
    ciphertext number `n` that is presented, whatever the others were. -/
theorem open_genuine (hA : A.Correct) {secret : Vector UInt8 32} {initiator : Bool}
    {sent received : List Call} {k l : ℕ} {p c : Bytes}
    (hp : sent[k]? = some (.toSeal p))
    (hsealed : resultAt kdf A (new kdf secret initiator) sent k = some (.ok c))
    (hc : received[l]? = some (.toOpen c))
    (hturn : (received.take l).countP (fun x => !x.isSeal) = (sent.take k).countP Call.isSeal) :
    resultAt kdf A (new kdf secret (!initiator)) received l = some (.ok p) := by
  have hsend : ChainAt kdf _ _ _ _ := run_sendAt (A := A) (s := new kdf secret initiator)
    (sent.take k) .zero
  have hrecv : ChainAt kdf _ _ _ _ := run_recvAt (A := A) (s := new kdf secret (!initiator))
    (received.take l) .zero
  have hchain : (new kdf secret (!initiator)).recvChainKey = (new kdf secret initiator).sendChainKey := by
    cases initiator <;> rfl
  rw [hchain, hturn] at hrecv
  rw [Nat.zero_add] at hsend hrecv
  rw [resultAt, hp, Option.map_some, Option.some_inj, call] at hsealed
  rw [resultAt, hc, Option.map_some, Option.some_inj, call]
  generalize after kdf A (new kdf secret initiator) (sent.take k) = a at hsend hsealed
  generalize after kdf A (new kdf secret (!initiator)) (received.take l) = b at hrecv ⊢
  -- sealing succeeded, so neither chain is exhausted and both use the same key
  rcases seal_cases kdf A a p with ⟨-, -, e, he⟩ | ⟨hlt, -, hok⟩
  · rw [he] at hsealed; cases hsealed
  rcases open_cases kdf A b c with ⟨hmax, -⟩ | ⟨-, -, hok'⟩
  · exact absurd hmax (UInt32.not_le.mpr (hrecv.lt_iff.mpr (hsend.lt_iff.mp hlt)))
  obtain ⟨hac, hak⟩ := hsend.eq (hsend.lt_iff.mp hlt)
  obtain ⟨hbc, hbk⟩ := hrecv.eq (hsend.lt_iff.mp hlt)
  have henc := (hok c).mp hsealed
  rw [hok', hbk, hbc, ← hak, ← hac]
  exact hA _ _ _ _ henc

/-- An exhausted chain leaves the session as it was. A message that fails to
    authenticate, or to encrypt, leaves it one step further on that chain and
    otherwise as it was; so in any run of `seal` and `open` a genuine message opens
    to its plaintext when it is presented in its turn, counting the ciphertexts
    that were rejected before it. -/
theorem ratchet_errors (kdf : DeriveKey) (A : Aes256Gcm) (hA : A.Correct) :
    (∀ (s : RatchetSession) c e, (s.open kdf A c).1 = .error e → (s.open kdf A c).2 =
        if s.recvCount ≥ maxChainLength then s else s.advanceRecv kdf) ∧
      (∀ (s : RatchetSession) p e, (s.seal kdf A p).1 = .error e → (s.seal kdf A p).2 =
        if s.sendCount ≥ maxChainLength then s else s.advanceSend kdf) ∧
      ∀ secret initiator (sent received : List Call) k l p c, sent[k]? = some (.toSeal p) →
        resultAt kdf A (new kdf secret initiator) sent k = some (.ok c) →
        received[l]? = some (.toOpen c) →
        (received.take l).countP (fun x => !x.isSeal) = (sent.take k).countP Call.isSeal →
        resultAt kdf A (new kdf secret (!initiator)) received l = some (.ok p) := by
  refine ⟨fun s c e _ => ?_, fun s p e _ => ?_, ?_⟩
  · rcases open_cases kdf A s c with ⟨hmax, hs, -⟩ | ⟨hlt, hs, -⟩
    · rw [hs, if_pos hmax]
    · rw [hs, if_neg (UInt32.not_le.mpr hlt)]
  · rcases seal_cases kdf A s p with ⟨hmax, hs, -⟩ | ⟨hlt, hs, -⟩
    · rw [hs, if_pos hmax]
    · rw [hs, if_neg (UInt32.not_le.mpr hlt)]
  · intro secret initiator sent received k l p c hp hsealed hc hturn
    exact open_genuine hA hp hsealed hc hturn

/-- A key derivation for concrete runs. -/
def runKdf : DeriveKey := fun context material =>
  Vector.replicate 32 (material.foldl (· + ·) (UInt8.ofNat context.toList.length))

/-- A cipher for concrete runs, whose tag is the key. -/
def keyTagged : Aes256Gcm := Aead.tagged fun key _ => key.toList

def runSecret : Vector UInt8 32 := Vector.replicate 32 0xAB

/-- The first message of the initiator of a concrete run, in ciphertext. -/
def runSealed : Bytes := [1, 2] ++ List.replicate 32 242

/-- Its second message, `[3]`. -/
def runSealedNext : Bytes := 3 :: List.replicate 32 19

theorem ratchet_errors_run :
    ((new runKdf runSecret false).open runKdf keyTagged [0]).2 =
        (new runKdf runSecret false).advanceRecv runKdf ∧
      resultAt runKdf keyTagged (new runKdf runSecret false) [.toOpen [0], .toOpen runSealedNext] 1 =
        some (.ok [3]) := by
  obtain ⟨hopen, -, hturn⟩ := ratchet_errors runKdf keyTagged (Aead.tagged_correct _)
  constructor
  · have hfail : ((new runKdf runSecret false).open runKdf keyTagged [0]).1 =
        .error "ratchet open failed — message may be tampered" := by decide +kernel
    rw [hopen _ _ _ hfail, if_neg (by decide +kernel)]
  · -- the rejected ciphertext has taken the turn of the first message
    exact hturn runSecret true [.toSeal [1, 2], .toSeal [3]] [.toOpen [0], .toOpen runSealedNext]
      1 1 [3] runSealedNext rfl (by decide +kernel) rfl rfl

/-- After one forged ciphertext the session is not what it was before, and the
    first genuine message is rejected. -/
theorem open_forged : keyTagged.Correct ∧
    resultAt runKdf keyTagged (new runKdf runSecret true) [.toSeal [1, 2]] 0 =
      some (.ok runSealed) ∧
    ((new runKdf runSecret false).open runKdf keyTagged [0]).1 =
      .error "ratchet open failed — message may be tampered" ∧
    ((new runKdf runSecret false).open runKdf keyTagged [0]).2 ≠ new runKdf runSecret false ∧
    resultAt runKdf keyTagged (new runKdf runSecret false) [.toOpen [0], .toOpen runSealed] 1 =
      some (.error "ratchet open failed — message may be tampered") :=
  ⟨Aead.tagged_correct _, by decide +kernel⟩

end RatchetSession

end FreeBox.Crypto
