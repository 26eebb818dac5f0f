import FreeBox.Crypto.RatchetPair
import Mathlib.Data.List.Nodup
import Mathlib.Data.Set.Function

/-!
# Message keys of two sessions

The nonce of `seal` is constant, so a message key must not be used twice. The key
number `n` of a chain is derived from the chain key and the counter `n`.

Results:
* `sealKeys_eq`: the keys that the `seal` calls of a session use are those of the
  first positions of its sending chain.
* `messageInput_inj`: the inputs they are derived from differ between any two positions
  of the two chains.
* `message_keys_nodup`: so no two `seal` calls of the two sessions use one key.
-/

namespace FreeBox.Crypto

open FreeBox.Lib

namespace RatchetSession

open RatchetPair (chainStart)

variable (kdf : DeriveKey) (A : Aes256Gcm)

/-- The key with which a call of `seal` encrypts, if it comes to that. -/
def sealKey (s : RatchetSession) : Call → List (Vector UInt8 32)
  | .toSeal _ =>
    match (s.nextSendKey kdf).1 with
    | .ok key => [key]
    | .error _ => []
  | .toOpen _ => []

/-- The keys with which the `seal` calls of a list of calls encrypt. -/
def sealKeys : RatchetSession → List Call → List (Vector UInt8 32)
  | _, [] => []
  | s, c :: calls => s.sealKey kdf c ++ sealKeys (s.call kdf A c).2 calls

/-- The chain key number `n` in the direction from `p` to its peer. -/
def chainKeyAt (secret : Vector UInt8 32) (p : Party) (n : ℕ) : Vector UInt8 32 :=
  (advanceKey kdf)^[n] (chainStart kdf secret p)

/-- What the message key number `n` in the direction from `p` is derived from. -/
def messageInput (secret : Vector UInt8 32) (p : Party) (n : ℕ) : Bytes :=
  (chainKeyAt kdf secret p n).toList ++ beBytes 4 (UInt32.ofNat n).toNat

/-- The key derivation is injective on what two sessions with this secret feed to it:
    the chain keys, and the chain keys followed by their counters. -/
structure InjectiveFor (secret : Vector UInt8 32) : Prop where
  advance : Set.InjOn (kdf domains.chainAdvance)
    {x | ∃ p n, n < maxChainLength.toNat ∧ x = (chainKeyAt kdf secret p n).toList}
  message : Set.InjOn (kdf domains.msgKey)
    {x | ∃ p n, n < maxChainLength.toNat ∧ x = messageInput kdf secret p n}

variable {kdf A} {s : RatchetSession} {secret : Vector UInt8 32} {p q : Party} {m n : ℕ}

/-! ## The keys of one session -/

/-- The keys that `k` seal calls use on a chain that has been asked for `n` keys. -/
theorem sealKeys_eq {first : Vector UInt8 32} (calls : List Call)
    (h : ChainAt kdf first n s.sendChainKey s.sendCount) :
    sealKeys kdf A s calls =
      (List.range' n (min (n + calls.countP Call.isSeal) maxChainLength.toNat - n)).map
        fun i => messageKey kdf ((advanceKey kdf)^[i] first) (.ofNat i) := by
  induction calls generalizing s n with
  | nil =>
    rw [sealKeys, List.countP_nil, Nat.add_zero, show min n maxChainLength.toNat - n = 0 by omega]
    rfl
  | cons c calls ih =>
    have hcall := call_sendAt (A := A) c h
    rw [sealKeys, ih hcall, List.countP_cons]
    cases c with
    | toOpen c => simp [Call.isSeal, sealKey]
    | toSeal p =>
      simp only [Call.isSeal, if_true]
      rcases next_send_key_cases kdf s with ⟨hmax, -, e, he⟩ | ⟨hlt, hk⟩
      · -- an exhausted chain gives no key now and none later
        have hfull : ¬ n < maxChainLength.toNat := fun hn =>
          absurd hmax (UInt32.not_le.mpr (h.lt_iff.mpr hn))
        rw [sealKey, he,
          show min (n + 1 + calls.countP Call.isSeal) maxChainLength.toNat - (n + 1) = 0 by omega,
          show min (n + (calls.countP Call.isSeal + 1)) maxChainLength.toNat - n = 0 by omega]
        rfl
      · have hroom := h.lt_iff.mp hlt
        obtain ⟨hcount, hkey⟩ := h.eq hroom
        have hlen : min (n + (calls.countP Call.isSeal + 1)) maxChainLength.toNat - n =
            min (n + 1 + calls.countP Call.isSeal) maxChainLength.toNat - (n + 1) + 1 := by omega
        rw [sealKey, hk, hlen, List.range'_succ, List.map_cons, ← hkey, ← hcount]
        rfl

/-- The seal calls of a new session use the keys of the first positions of its chain. -/
theorem sealKeys_new (secret : Vector UInt8 32) (p : Party) (calls : List Call) :
    sealKeys kdf A (new kdf secret p.isInitiator) calls =
      (List.range (min (calls.countP Call.isSeal) maxChainLength.toNat)).map
        fun i => kdf domains.msgKey (messageInput kdf secret p i) := by
  have hzero : ChainAt kdf (chainStart kdf secret p) 0 (new kdf secret p.isInitiator).sendChainKey
      (new kdf secret p.isInitiator).sendCount := .zero
  rw [sealKeys_eq calls hzero, Nat.zero_add, Nat.sub_zero, List.range_eq_range']
  rfl

/-! ## Different inputs -/

/-- Chains that start from different keys never meet. -/
theorem chainKeyAt_inj (hkdf : InjectiveFor kdf secret) (hn : n ≤ maxChainLength.toNat)
    (h : chainKeyAt kdf secret p n = chainKeyAt kdf secret q n) :
    chainStart kdf secret p = chainStart kdf secret q := by
  induction n with
  | zero => exact h
  | succ n ih =>
    rw [chainKeyAt, chainKeyAt, Function.iterate_succ_apply', Function.iterate_succ_apply'] at h
    have hlist := hkdf.advance ⟨p, n, hn, rfl⟩ ⟨q, n, hn, rfl⟩ h
    exact ih (Nat.le_of_succ_le hn) (Vector.toList_inj.mp hlist)

/-- No two positions of the two chains have the same input. -/
theorem messageInput_inj (hkdf : InjectiveFor kdf secret)
    (hstart : chainStart kdf secret .alice ≠ chainStart kdf secret .bob)
    (hm : m < maxChainLength.toNat) (hn : n < maxChainLength.toNat)
    (h : messageInput kdf secret p m = messageInput kdf secret q n) : p = q ∧ m = n := by
  obtain ⟨hchain, hcounter⟩ := List.append_inj h (by simp)
  have hlt : ∀ i < maxChainLength.toNat, i < 2 ^ 32 := fun i hi =>
    hi.trans (show maxChainLength.toNat < 2 ^ 32 by decide)
  have hmn : m = n := by
    have hbytes := beBytes_inj (UInt32.toNat_lt _) (UInt32.toNat_lt _) hcounter
    rwa [UInt32.toNat_ofNat_of_lt' (hlt m hm), UInt32.toNat_ofNat_of_lt' (hlt n hn)] at hbytes
  subst hmn
  have hsame := chainKeyAt_inj hkdf hm.le (Vector.toList_inj.mp hchain)
  refine ⟨?_, rfl⟩
  cases p <;> cases q
  · rfl
  · exact absurd hsame hstart
  · exact absurd hsame.symm hstart
  · rfl

theorem nodup_sealKeys (hkdf : InjectiveFor kdf secret)
    (hstart : chainStart kdf secret .alice ≠ chainStart kdf secret .bob)
    (calls calls' : List Call) :
    (sealKeys kdf A (new kdf secret true) calls ++
      sealKeys kdf A (new kdf secret false) calls').Nodup := by
  have hinj : ∀ (p q : Party) (m n : ℕ), m < maxChainLength.toNat → n < maxChainLength.toNat →
      kdf domains.msgKey (messageInput kdf secret p m) =
        kdf domains.msgKey (messageInput kdf secret q n) → p = q ∧ m = n :=
    fun p q m n hm hn h => messageInput_inj hkdf hstart hm hn
      (hkdf.message ⟨p, m, hm, rfl⟩ ⟨q, n, hn, rfl⟩ h)
  have hlt : ∀ k i, i ∈ List.range (min k maxChainLength.toNat) → i < maxChainLength.toNat :=
    fun k i hi => (List.mem_range.mp hi).trans_le (Nat.min_le_right ..)
  rw [show sealKeys kdf A (new kdf secret true) calls = _ from sealKeys_new secret .alice calls,
    show sealKeys kdf A (new kdf secret false) calls' = _ from sealKeys_new secret .bob calls',
    List.nodup_append']
  refine ⟨?_, ?_, ?_⟩
  · exact List.Nodup.map_on (fun i hi j hj h => (hinj _ _ i j (hlt _ i hi) (hlt _ j hj) h).2)
      List.nodup_range
  · exact List.Nodup.map_on (fun i hi j hj h => (hinj _ _ i j (hlt _ i hi) (hlt _ j hj) h).2)
      List.nodup_range
  · intro key hkey hkey'
    obtain ⟨i, hi, rfl⟩ := List.mem_map.mp hkey
    obtain ⟨j, hj, h⟩ := List.mem_map.mp hkey'
    exact nomatch (hinj _ _ j i (hlt _ j hj) (hlt _ i hi) h).1

/-! ## Counts -/

/-- The counts are in range, a key that is given moves its count on by one, and an
    exhausted chain gives an error and changes nothing. -/
structure CountsBounded (kdf : DeriveKey) (s : RatchetSession) : Prop where
  send_le : s.sendCount ≤ maxChainLength
  recv_le : s.recvCount ≤ maxChainLength
  send_succ : ∀ key, (s.nextSendKey kdf).1 = .ok key →
    (s.nextSendKey kdf).2.sendCount.toNat = s.sendCount.toNat + 1
  recv_succ : ∀ key, (s.nextRecvKey kdf).1 = .ok key →
    (s.nextRecvKey kdf).2.recvCount.toNat = s.recvCount.toNat + 1
  send_exhausted : s.sendCount = maxChainLength →
    (s.nextSendKey kdf).2 = s ∧ ∃ e, (s.nextSendKey kdf).1 = .error e
  recv_exhausted : s.recvCount = maxChainLength →
    (s.nextRecvKey kdf).2 = s ∧ ∃ e, (s.nextRecvKey kdf).1 = .error e

theorem countsBounded_of_le (hsend : s.sendCount ≤ maxChainLength)
    (hrecv : s.recvCount ≤ maxChainLength) : CountsBounded kdf s := by
  constructor
  case send_le => exact hsend
  case recv_le => exact hrecv
  case send_succ =>
    intro key hkey
    rcases next_send_key_cases kdf s with ⟨-, -, e, he⟩ | ⟨hlt, hk⟩
    · rw [he] at hkey; cases hkey
    · rw [hk]; exact toNat_succ hlt
  case recv_succ =>
    intro key hkey
    rcases next_recv_key_cases kdf s with ⟨-, -, e, he⟩ | ⟨hlt, hk⟩
    · rw [he] at hkey; cases hkey
    · rw [hk]; exact toNat_succ hlt
  case send_exhausted =>
    intro hmax
    rcases next_send_key_cases kdf s with ⟨-, herror⟩ | ⟨hlt, -⟩
    · exact herror
    · rw [hmax] at hlt; exact absurd hlt (UInt32.lt_irrefl _)
  case recv_exhausted =>
    intro hmax
    rcases next_recv_key_cases kdf s with ⟨-, herror⟩ | ⟨hlt, -⟩
    · exact herror
    · rw [hmax] at hlt; exact absurd hlt (UInt32.lt_irrefl _)

theorem countsBounded_after (secret : Vector UInt8 32) (isInitiator : Bool) (calls : List Call) :
    CountsBounded kdf ((new kdf secret isInitiator).after kdf A calls) := by
  have hsend : ChainAt kdf _ _ _ _ :=
    run_sendAt (A := A) (s := new kdf secret isInitiator) calls .zero
  have hrecv : ChainAt kdf _ _ _ _ :=
    run_recvAt (A := A) (s := new kdf secret isInitiator) calls .zero
  exact countsBounded_of_le hsend.le hrecv.le

/-! ## An instance -/

/-- The first 32 bytes as a key. -/
def toKey (b : Bytes) : Vector UInt8 32 := Vector.ofFn fun i => b.getD i 0

/-- Chain keys stay as they are, and a message key is most of its chain key with the
    counter. -/
def countingKdf : DeriveKey := fun context material =>
  if context = domains.msgKey then toKey (material.take 28 ++ material.drop 32)
  else if context = domains.ratchetRecv then toKey (material.map (· + 1))
  else toKey material

theorem toKey_inj {a b : Bytes} (ha : a.length = 32) (hb : b.length = 32)
    (h : toKey a = toKey b) : a = b := by
  refine List.ext_getElem (ha.trans hb.symm) fun i hi hi' => ?_
  have hget : (toKey a)[i]? = (toKey b)[i]? := by rw [h]
  have hlt : i < 32 := ha ▸ hi
  simpa [toKey, hlt, hi, hi'] using hget

theorem toKey_toList (key : Vector UInt8 32) : toKey key.toList = key := by
  ext i hi
  simp [toKey]

theorem countingKdf_injectiveFor : InjectiveFor countingKdf runSecret := by
  have hchain : ∀ p n, chainKeyAt countingKdf runSecret p n = chainStart countingKdf runSecret p := by
    intro p n
    induction n with
    | zero => rfl
    | succ n ih =>
      rw [chainKeyAt, Function.iterate_succ_apply', ← chainKeyAt, ih, advanceKey]
      exact toKey_toList _
  constructor
  · rintro _ ⟨p, m, -, rfl⟩ _ ⟨q, n, -, rfl⟩ h
    rw [show countingKdf domains.chainAdvance _ = _ from toKey_toList _,
      show countingKdf domains.chainAdvance _ = _ from toKey_toList _] at h
    rw [h]
  · rintro _ ⟨p, m, -, rfl⟩ _ ⟨q, n, -, rfl⟩ h
    rw [messageInput, messageInput, hchain, hchain] at h ⊢
    have hbytes := toKey_inj (by simp) (by simp) h
    obtain ⟨hhead, hcounter⟩ := List.append_inj hbytes (by simp)
    have hpq : p = q := by
      rw [List.take_append_of_le_length (by simp), List.take_append_of_le_length (by simp)] at hhead
      revert hhead
      cases p <;> cases q <;> decide +kernel
    rw [List.drop_append_of_le_length (by simp), List.drop_append_of_le_length (by simp)] at hcounter
    simpa [hpq] using hcounter

/-! ## Distinct keys -/

/-- No message key is used twice. If the key derivation is injective on what the
    sessions feed to it and gives two different initial chain keys, then all keys that
    the `seal` calls of both parties use are distinct; and the counts of a session stay
    in range. -/
theorem message_keys_nodup (kdf : DeriveKey) (A : Aes256Gcm) (secret : Vector UInt8 32)
    (hkdf : InjectiveFor kdf secret)
    (hstart : kdf domains.ratchetSend secret.toList ≠ kdf domains.ratchetRecv secret.toList)
    (calls calls' : List Call) :
    (sealKeys kdf A (new kdf secret true) calls ++
        sealKeys kdf A (new kdf secret false) calls').Nodup ∧
      CountsBounded kdf ((new kdf secret true).after kdf A calls) ∧
      CountsBounded kdf ((new kdf secret false).after kdf A calls') :=
  ⟨nodup_sealKeys hkdf hstart calls calls', countsBounded_after secret true calls,
    countsBounded_after secret false calls'⟩

/-- Three messages in two directions. -/
theorem message_keys_nodup_run :
    (sealKeys countingKdf keyTagged (new countingKdf runSecret true) [.toSeal [1], .toSeal [2]] ++
      sealKeys countingKdf keyTagged (new countingKdf runSecret false)
        [.toOpen [0], .toSeal [3]]).Nodup :=
  (message_keys_nodup countingKdf keyTagged runSecret countingKdf_injectiveFor (by decide +kernel)
    [.toSeal [1], .toSeal [2]] [.toOpen [0], .toSeal [3]]).1

end RatchetSession

end FreeBox.Crypto
