import FreeBox.Crypto.Ratchet
import FreeBox.Lib.Symbolic
import FreeBox.Lib.Trace

/-!
# Forward secrecy of the ratchet session

The ratchet session over symbolic terms, where `blake3::derive_key` is a free
constructor, and what an attacker learns from a complete session state.

Results:
* `evaluates_step`, `evaluates_stateAfter`: the symbolic session computes the terms of
  the keys that the session computes.
* `old_of_mem_usedKeys`: a key that was used belongs to an earlier position of a chain.
* `forward_secrecy`: no such key can be derived from the session state.
-/

namespace FreeBox.Crypto

open FreeBox.Lib Term

/-- Terms over one secret, the shared secret. -/
abbrev KeyTerm := Term Unit

/-- `signal::RatchetSession` over terms. -/
structure SymbolicSession where
  rootKey : KeyTerm
  sendChainKey : KeyTerm
  recvChainKey : KeyTerm
  sendCount : UInt32
  recvCount : UInt32
  deriving DecidableEq

namespace SymbolicSession

def sharedSecret : KeyTerm := .secret ()

/-- `RatchetSession::new`. -/
def new (isInitiator : Bool) : SymbolicSession :=
  let chainA := .derive domains.ratchetSend sharedSecret
  let chainB := .derive domains.ratchetRecv sharedSecret
  { rootKey := .derive domains.ratchetRoot sharedSecret
    sendChainKey := if isInitiator then chainA else chainB
    recvChainKey := if isInitiator then chainB else chainA
    sendCount := 0
    recvCount := 0 }

def messageKey (chainKey : KeyTerm) (count : UInt32) : KeyTerm :=
  .derive domains.msgKey (.concat chainKey (.bytes (beBytes 4 count.toNat)))

/-- `RatchetSession::next_send_key`; `none` is its error. -/
def nextSendKey (s : SymbolicSession) : SymbolicSession × Option KeyTerm :=
  if s.sendCount ≥ maxChainLength then (s, none)
  else
    ({ s with
        sendChainKey := .derive domains.chainAdvance s.sendChainKey
        sendCount := s.sendCount + 1 }, some (messageKey s.sendChainKey s.sendCount))

/-- `RatchetSession::next_recv_key`. -/
def nextRecvKey (s : SymbolicSession) : SymbolicSession × Option KeyTerm :=
  if s.recvCount ≥ maxChainLength then (s, none)
  else
    ({ s with
        recvChainKey := .derive domains.chainAdvance s.recvChainKey
        recvCount := s.recvCount + 1 }, some (messageKey s.recvChainKey s.recvCount))

/-- A call of `seal` or of `open`, with the key that it uses. -/
def step (s : SymbolicSession) (isSeal : Bool) : SymbolicSession × Option KeyTerm :=
  if isSeal then s.nextSendKey else s.nextRecvKey

/-- The keys that a list of calls uses. -/
def usedKeys (s : SymbolicSession) (calls : List Bool) : List KeyTerm :=
  (trace step s calls).filterMap Prod.snd

/-- The complete state of a session. -/
def knowledge (s : SymbolicSession) : Set KeyTerm :=
  {s.rootKey, s.sendChainKey, s.recvChainKey, .bytes (beBytes 4 s.sendCount.toNat),
    .bytes (beBytes 4 s.recvCount.toNat)}

/-! ## The session that it stands for -/

/-- The bytes of a term for a concrete shared secret. -/
def value (kdf : DeriveKey) (secret : Vector UInt8 32) : KeyTerm → Bytes :=
  eval (fun context material => (kdf context material).toList) fun _ => secret.toList

/-- The fields of a session are the values of the terms. -/
structure Evaluates (kdf : DeriveKey) (secret : Vector UInt8 32) (s : RatchetSession)
    (t : SymbolicSession) : Prop where
  rootKey : s.rootKey.toList = value kdf secret t.rootKey
  sendChainKey : s.sendChainKey.toList = value kdf secret t.sendChainKey
  recvChainKey : s.recvChainKey.toList = value kdf secret t.recvChainKey
  sendCount : s.sendCount = t.sendCount
  recvCount : s.recvCount = t.recvCount

/-- The key that a call on a session encrypts or decrypts with. -/
def callKey (kdf : DeriveKey) (s : RatchetSession) : RatchetSession.Call → Option (Vector UInt8 32)
  | .toSeal _ => (s.nextSendKey kdf).1.toOption
  | .toOpen _ => (s.nextRecvKey kdf).1.toOption

variable {kdf : DeriveKey} {A : Aes256Gcm} {secret : Vector UInt8 32} {s : RatchetSession}
  {t : SymbolicSession}

theorem evaluates_new (kdf : DeriveKey) (secret : Vector UInt8 32) (isInitiator : Bool) :
    Evaluates kdf secret (.new kdf secret isInitiator) (new isInitiator) := by
  cases isInitiator <;> exact ⟨rfl, rfl, rfl, rfl, rfl⟩

theorem value_messageKey {chainKey : Vector UInt8 32} {u : KeyTerm} {count : UInt32}
    (h : chainKey.toList = value kdf secret u) :
    (RatchetSession.messageKey kdf chainKey count).toList =
      value kdf secret (messageKey u count) := by
  rw [RatchetSession.messageKey, h]
  rfl

theorem value_advance {chainKey : Vector UInt8 32} {u : KeyTerm}
    (h : chainKey.toList = value kdf secret u) :
    (RatchetSession.advanceKey kdf chainKey).toList =
      value kdf secret (.derive domains.chainAdvance u) := by
  rw [RatchetSession.advanceKey, h]
  rfl

/-- One call on the session and the same call over terms: the states correspond, and
    the key is the value of the term. -/
theorem evaluates_step (h : Evaluates kdf secret s t) (c : RatchetSession.Call) :
    Evaluates kdf secret (s.call kdf A c).2 (step t c.isSeal).1 ∧
      (callKey kdf s c).map Vector.toList = (step t c.isSeal).2.map (value kdf secret) := by
  cases c with
  | toSeal p =>
    rw [RatchetSession.call, RatchetSession.seal_snd, callKey, RatchetSession.nextSendKey, step,
      RatchetSession.Call.isSeal, if_pos rfl, nextSendKey, ← h.sendCount]
    split_ifs
    · exact ⟨h, rfl⟩
    · refine ⟨⟨h.rootKey, value_advance h.sendChainKey, h.recvChainKey, ?_, h.recvCount⟩, ?_⟩
      · rfl
      · exact congrArg some (value_messageKey h.sendChainKey)
  | toOpen c =>
    rw [RatchetSession.call, RatchetSession.open_snd, callKey, RatchetSession.nextRecvKey, step,
      RatchetSession.Call.isSeal, if_neg Bool.false_ne_true, nextRecvKey, ← h.recvCount]
    split_ifs
    · exact ⟨h, rfl⟩
    · refine ⟨⟨h.rootKey, h.sendChainKey, value_advance h.recvChainKey, h.sendCount, ?_⟩, ?_⟩
      · rfl
      · exact congrArg some (value_messageKey h.recvChainKey)

/-- After any calls the session consists of the values of the symbolic state. -/
theorem evaluates_stateAfter (kdf : DeriveKey) (A : Aes256Gcm) (secret : Vector UInt8 32)
    (isInitiator : Bool) (calls : List RatchetSession.Call) :
    Evaluates kdf secret ((RatchetSession.new kdf secret isInitiator).after kdf A calls)
      (stateAfter step (new isInitiator) (calls.map RatchetSession.Call.isSeal)) := by
  induction calls using List.reverseRecOn with
  | nil => exact evaluates_new kdf secret isInitiator
  | append_singleton calls c ih =>
    rw [List.map_append, List.map_singleton, stateAfter_concat, RatchetSession.after,
      List.foldl_append]
    exact (evaluates_step ih c).1

/-! ## Positions of the chains -/

/-- The context of the first key of the sending chain. -/
def sendContext (isInitiator : Bool) : String :=
  if isInitiator then domains.ratchetSend else domains.ratchetRecv

/-- The context of the first key of the receiving chain. -/
def recvContext (isInitiator : Bool) : String :=
  if isInitiator then domains.ratchetRecv else domains.ratchetSend

/-- The contexts of the two chains differ from each other and from all other contexts. -/
theorem contexts_ne (isInitiator : Bool) : sendContext isInitiator ≠ recvContext isInitiator ∧
    ∀ context ∈ [sendContext isInitiator, recvContext isInitiator],
      context ≠ domains.chainAdvance ∧ context ≠ domains.ratchetRoot ∧
        context ≠ domains.msgKey := by
  cases isInitiator <;> decide

/-- Chain key number `n` of the chain that starts in `context`. -/
def chainTerm (context : String) (n : ℕ) : KeyTerm :=
  (Term.derive domains.chainAdvance)^[n] (.derive context sharedSecret)

theorem chainTerm_succ (context : String) (n : ℕ) :
    chainTerm context (n + 1) = .derive domains.chainAdvance (chainTerm context n) :=
  Function.iterate_succ_apply' ..

/-- The chain keys stand at the positions that the counts say. -/
structure AtPosition (isInitiator : Bool) (s : SymbolicSession) : Prop where
  root : s.rootKey = .derive domains.ratchetRoot sharedSecret
  send : s.sendChainKey = chainTerm (sendContext isInitiator) s.sendCount.toNat
  recv : s.recvChainKey = chainTerm (recvContext isInitiator) s.recvCount.toNat

/-- The message key of an earlier position of one of the chains. -/
def OldKey (isInitiator : Bool) (s : SymbolicSession) (key : KeyTerm) : Prop :=
  (∃ i < s.sendCount.toNat, key = messageKey (chainTerm (sendContext isInitiator) i) (.ofNat i)) ∨
    ∃ i < s.recvCount.toNat, key = messageKey (chainTerm (recvContext isInitiator) i) (.ofNat i)

variable {isInitiator : Bool} {key : KeyTerm} {n : ℕ}

theorem OldKey.mono {t' : SymbolicSession} (h : OldKey isInitiator t key)
    (hsend : t.sendCount.toNat ≤ t'.sendCount.toNat)
    (hrecv : t.recvCount.toNat ≤ t'.recvCount.toNat) : OldKey isInitiator t' key := by
  rcases h with ⟨i, hi, hkey⟩ | ⟨i, hi, hkey⟩
  · exact .inl ⟨i, hi.trans_le hsend, hkey⟩
  · exact .inr ⟨i, hi.trans_le hrecv, hkey⟩

/-- A call moves a chain on to its next position, and the key that it uses belongs to
    the position that is left. -/
theorem atPosition_step (h : AtPosition isInitiator t) (isSeal : Bool) :
    AtPosition isInitiator (step t isSeal).1 ∧
      (t.sendCount.toNat ≤ (step t isSeal).1.sendCount.toNat ∧
        t.recvCount.toNat ≤ (step t isSeal).1.recvCount.toNat) ∧
      ∀ key, (step t isSeal).2 = some key → OldKey isInitiator (step t isSeal).1 key := by
  cases isSeal with
  | true =>
    rw [step, if_pos rfl, nextSendKey]
    split_ifs with hmax
    · exact ⟨h, ⟨le_rfl, le_rfl⟩, nofun⟩
    · have hsucc := RatchetSession.toNat_succ (UInt32.not_le.mp hmax)
      refine ⟨⟨h.root, ?_, h.recv⟩, ⟨?_, le_rfl⟩, fun key hkey => ?_⟩
      · simp only [hsucc, chainTerm_succ, h.send]
      · simp only [hsucc]
        exact Nat.le_succ _
      · refine .inl ⟨t.sendCount.toNat, ?_, ?_⟩
        · simp only [hsucc]
          exact Nat.lt_succ_self _
        · rw [UInt32.ofNat_toNat, ← h.send]
          exact (Option.some.inj hkey).symm
  | false =>
    rw [step, if_neg Bool.false_ne_true, nextRecvKey]
    split_ifs with hmax
    · exact ⟨h, ⟨le_rfl, le_rfl⟩, nofun⟩
    · have hsucc := RatchetSession.toNat_succ (UInt32.not_le.mp hmax)
      refine ⟨⟨h.root, h.send, ?_⟩, ⟨le_rfl, ?_⟩, fun key hkey => ?_⟩
      · simp only [hsucc, chainTerm_succ, h.recv]
      · simp only [hsucc]
        exact Nat.le_succ _
      · refine .inr ⟨t.recvCount.toNat, ?_, ?_⟩
        · simp only [hsucc]
          exact Nat.lt_succ_self _
        · rw [UInt32.ofNat_toNat, ← h.recv]
          exact (Option.some.inj hkey).symm

/-- After any calls the chains stand at their counts, and every key that was used
    belongs to an earlier position. -/
theorem old_of_mem_usedKeys (isInitiator : Bool) (calls : List Bool) :
    AtPosition isInitiator (stateAfter step (new isInitiator) calls) ∧
      ∀ key ∈ usedKeys (new isInitiator) calls,
        OldKey isInitiator (stateAfter step (new isInitiator) calls) key := by
  have hinv := @history_invariant _ _ _ step (new isInitiator) calls
    (fun log s => AtPosition isInitiator s ∧
      ∀ key ∈ log.filterMap Prod.snd, OldKey isInitiator s key) (fun _ _ => True)
    ⟨by cases isInitiator <;> exact ⟨rfl, rfl, rfl⟩, by simp⟩ ?_ fun _ _ _ _ => trivial
  · exact hinv
  · rintro before s isSeal ⟨hpos, hold⟩ -
    obtain ⟨hpos', ⟨hsend, hrecv⟩, hnew⟩ := atPosition_step hpos isSeal
    refine ⟨hpos', fun key hkey => ?_⟩
    rw [List.filterMap_append, List.mem_append] at hkey
    rcases hkey with hkey | hkey
    · exact (hold key hkey).mono hsend hrecv
    · refine hnew key ?_
      simpa using hkey

/-! ## What the state does not give away -/

/-- The chain terms in the complete state are the two chain keys and the root key. -/
theorem mem_knowledge (h : AtPosition isInitiator t) {context : String} {u : KeyTerm}
    (hcontext : context ≠ domains.chainAdvance)
    (hmem : (Term.derive domains.chainAdvance)^[n] (.derive context u) ∈ t.knowledge) :
    context = domains.ratchetRoot ∨
      (context = sendContext isInitiator ∧ n = t.sendCount.toNat) ∨
      (context = recvContext isInitiator ∧ n = t.recvCount.toNat) := by
  have hsend := ((contexts_ne isInitiator).2 (sendContext isInitiator) (by simp)).1
  have hrecv := ((contexts_ne isInitiator).2 (recvContext isInitiator) (by simp)).1
  have hbytes : ∀ b, (Term.derive domains.chainAdvance)^[n] (.derive context u) ≠ .bytes b := by
    obtain ⟨context', u', hterm⟩ := exists_iterate_derive domains.chainAdvance context u n
    rw [hterm]
    nofun
  rw [knowledge, h.root, h.send, h.recv] at hmem
  simp only [Set.mem_insert_iff, Set.mem_singleton_iff] at hmem
  rcases hmem with hroot | hchain | hchain | hcount | hcount
  · obtain ⟨-, hctx, -⟩ := iterate_derive_inj (n := 0) hcontext (by decide) hroot
    exact .inl hctx
  · obtain ⟨hn, hctx, -⟩ := iterate_derive_inj hcontext hsend hchain
    exact .inr (.inl ⟨hctx, hn⟩)
  · obtain ⟨hn, hctx, -⟩ := iterate_derive_inj hcontext hrecv hchain
    exact .inr (.inr ⟨hctx, hn⟩)
  · exact absurd hcount (hbytes _)
  · exact absurd hcount (hbytes _)

/-- The complete state holds derived terms and counts only. -/
theorem knowledge_cases (h : AtPosition isInitiator t) {u : KeyTerm} (hmem : u ∈ t.knowledge) :
    (∃ context v, u = .derive context v) ∨ ∃ b, u = .bytes b := by
  rw [knowledge, h.root, h.send, h.recv] at hmem
  simp only [Set.mem_insert_iff, Set.mem_singleton_iff] at hmem
  rcases hmem with rfl | rfl | rfl | rfl | rfl
  · exact .inl ⟨_, _, rfl⟩
  · exact .inl (exists_iterate_derive _ _ _ _)
  · exact .inl (exists_iterate_derive _ _ _ _)
  · exact .inr ⟨_, rfl⟩
  · exact .inr ⟨_, rfl⟩

theorem concat_notMem_knowledge (h : AtPosition isInitiator t) (u v : KeyTerm) :
    Term.concat u v ∉ t.knowledge := by
  intro hmem
  rcases knowledge_cases h hmem with ⟨_, _, he⟩ | ⟨_, he⟩ <;> cases he

/-- The earlier keys of a chain cannot be derived, by induction on the position. -/
theorem not_derivable_chainTerm (h : AtPosition isInitiator t) {context : String}
    (hnew : ∀ i < n, chainTerm context i ∉ t.knowledge) :
    ∀ i < n, ¬ Derivable t.knowledge (chainTerm context i) := by
  intro i
  induction i with
  | zero =>
    intro hn
    refine not_derivable_derive (concat_notMem_knowledge h) (hnew 0 hn) ?_
    refine not_derivable_secret (concat_notMem_knowledge h) fun hmem => ?_
    rcases knowledge_cases h hmem with ⟨_, _, he⟩ | ⟨_, he⟩ <;> cases he
  | succ i ih =>
    intro hn
    have hterm := hnew (i + 1) hn
    rw [chainTerm_succ] at hterm ⊢
    exact not_derivable_derive (concat_notMem_knowledge h) hterm (ih (Nat.lt_of_succ_lt hn))

/-- Nor can their message keys. -/
theorem not_derivable_messageKey (h : AtPosition isInitiator t) {context : String}
    (hnew : ∀ i < n, chainTerm context i ∉ t.knowledge) {i : ℕ} (hi : i < n) (count : UInt32) :
    ¬ Derivable t.knowledge (messageKey (chainTerm context i) count) := by
  refine not_derivable_derive (concat_notMem_knowledge h) (fun hmem => ?_) fun hconcat =>
    not_derivable_chainTerm h hnew i hi hconcat.left
  -- a message key is neither the root key nor a chain key
  have hsend := ((contexts_ne isInitiator).2 (sendContext isInitiator) (by simp)).2.2
  have hrecv := ((contexts_ne isInitiator).2 (recvContext isInitiator) (by simp)).2.2
  rcases mem_knowledge (n := 0) h (by decide) hmem with hctx | ⟨hctx, -⟩ | ⟨hctx, -⟩
  · exact absurd hctx (by decide)
  · exact hsend hctx.symm
  · exact hrecv hctx.symm

/-- Forward secrecy. After any calls of `seal` and `open`, no message key that one of
    them has used can be derived from the complete session state. -/
theorem forward_secrecy (isInitiator : Bool) (calls : List Bool) (key : KeyTerm)
    (hkey : key ∈ usedKeys (new isInitiator) calls) :
    ¬ Derivable (stateAfter step (new isInitiator) calls).knowledge key := by
  obtain ⟨hpos, hold⟩ := old_of_mem_usedKeys isInitiator calls
  generalize stateAfter step (new isInitiator) calls = t at hpos hold ⊢
  obtain ⟨hne, hother⟩ := contexts_ne isInitiator
  rcases hold key hkey with ⟨i, hi, rfl⟩ | ⟨i, hi, rfl⟩
  · obtain ⟨hadvance, hroot, -⟩ := hother (sendContext isInitiator) (by simp)
    refine not_derivable_messageKey hpos (fun j hj hmem => ?_) hi _
    rcases mem_knowledge hpos hadvance hmem with hctx | ⟨-, hn⟩ | ⟨hctx, -⟩
    · exact hroot hctx
    · exact absurd hn hj.ne
    · exact hne hctx
  · obtain ⟨hadvance, hroot, -⟩ := hother (recvContext isInitiator) (by simp)
    refine not_derivable_messageKey hpos (fun j hj hmem => ?_) hi _
    rcases mem_knowledge hpos hadvance hmem with hctx | ⟨hctx, -⟩ | ⟨-, hn⟩
    · exact hroot hctx
    · exact hne hctx.symm
    · exact absurd hn hj.ne

/-- One key was used for sealing and one for opening. -/
theorem forward_secrecy_run :
    ¬ Derivable (stateAfter step (new true) [true, false]).knowledge
      (messageKey (chainTerm domains.ratchetSend 0) 0) :=
  forward_secrecy true [true, false] _ (by decide +kernel)

end SymbolicSession

end FreeBox.Crypto
