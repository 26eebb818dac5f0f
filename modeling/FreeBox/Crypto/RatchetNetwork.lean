import FreeBox.Crypto.RatchetKeys

/-!
# Two ratchet sessions over a hostile network

The network presents to a party whatever bytes it likes, in any order: it may lose, repeat,
reorder and alter what was sent. The one thing that it cannot do is to make a ciphertext
under a message key of the parties.

Results:
* `follows_netStep`: what opens as number `n` was sealed as number `n`, in that direction.
* `network_integrity`: nothing opens but the message whose turn it is, and that one opens
  whatever was presented before.
-/

namespace FreeBox.Crypto.RatchetPair

open FreeBox.Lib RatchetSession

inductive NetStep
  /-- The party seals a plaintext. -/
  | toSeal (p : Party) (plaintext : Bytes)
  /-- The network presents the ciphertext to the peer of `p`. -/
  | deliver (p : Party) (ciphertext : Bytes)
  deriving DecidableEq

variable (kdf : DeriveKey) (A : Aes256Gcm)

def netStep (t : RatchetPair) : NetStep → Option RatchetPair
  | .toSeal p plaintext => step kdf A t (.toSeal p plaintext)
  | .deliver p ciphertext =>
    let result := (t.session p.peer).open kdf A ciphertext
    some
      { t with
        session := Function.update t.session p.peer result.2
        opened := Function.update t.opened p (t.opened p ++ [result.1]) }

/-- The key of message number `n` in the direction from `p` to its peer. -/
def keyAt (secret : Vector UInt8 32) (p : Party) (n : ℕ) : Vector UInt8 32 :=
  kdf domains.msgKey (messageInput kdf secret p n)

/-- The key with which the peer of `p` opens next. -/
def openKey (t : RatchetPair) (p : Party) : Vector UInt8 32 :=
  messageKey kdf (t.session p.peer).recvChainKey (t.session p.peer).recvCount

/-- What opens under a key was sealed under this key by one of the parties. -/
def noForgery (secret : Vector UInt8 32) (t : RatchetPair) : NetStep → Bool
  | .toSeal _ _ => true
  | .deliver p c => (A.decrypt (openKey kdf t p) (Vector.replicate 12 0) c).all fun m =>
    [Party.alice, .bob].any fun q => (t.sent q).zipIdx.any fun x =>
      x.1 = (m, c) ∧ keyAt kdf secret q x.2 = openKey kdf t p

/-- The guard of the runs: the parties seal what the cipher can encrypt, and the network
    forges nothing. -/
def Hostile (messages : Set Bytes) (secret : Vector UInt8 32) (t : RatchetPair) (a : NetStep) :
    Prop :=
  (∀ p m, a = .toSeal p m → m ∈ messages) ∧ noForgery kdf A secret t a = true

/-- Every message decrypts under the key of its position. -/
def Genuine (secret : Vector UInt8 32) (p : Party) (sent : List (Bytes × Bytes)) : Prop :=
  ∀ n m c, sent[n]? = some (m, c) →
    A.decrypt (keyAt kdf secret p n) (Vector.replicate 12 0) c = some m

/-- In the direction from `p` the sending chain has moved on once for each message sent, the
    receiving chain once for each ciphertext presented, and what was opened was sent at the
    same position. -/
structure Follows (secret : Vector UInt8 32) (t : RatchetPair) (p : Party) : Prop where
  sent_le : (t.sent p).length ≤ maxChainLength.toNat
  send : ChainAt kdf (chainStart kdf secret p) (t.sent p).length (t.session p).sendChainKey
    (t.session p).sendCount
  recv : ChainAt kdf (chainStart kdf secret p) (t.opened p).length
    (t.session p.peer).recvChainKey (t.session p.peer).recvCount
  genuine : Genuine kdf A secret p (t.sent p)
  faithful : ∀ (n : ℕ) (m : Bytes), (t.opened p)[n]? = some (.ok m) → ∃ c, (t.sent p)[n]? = some (m, c)

variable {kdf A} {secret : Vector UInt8 32} {t t' : RatchetPair} {p q : Party} {a : NetStep}
  {messages : Set Bytes} {m c : Bytes}

theorem follows_start (secret : Vector UInt8 32) (p : Party) :
    Follows kdf A secret (start kdf secret) p where
  sent_le := Nat.zero_le _
  send := .zero
  recv := (inStep_start (A := A) secret p).recv
  genuine := fun n m c h => by simp [start] at h
  faithful := fun n m h => by simp [start] at h

/-! ## Keys -/

/-- Before its chain is exhausted, the next key to seal with is that of the next position. -/
theorem Follows.sendKey (h : Follows kdf A secret t p)
    (hlt : (t.session p).sendCount < maxChainLength) :
    messageKey kdf (t.session p).sendChainKey (t.session p).sendCount =
      keyAt kdf secret p (t.sent p).length := by
  obtain ⟨hcount, hkey⟩ := h.send.eq (h.send.lt_iff.mp hlt)
  rw [hcount, hkey]
  rfl

/-- The same for the key to open with. -/
theorem Follows.openKey_eq (h : Follows kdf A secret t p)
    (hlt : (t.session p.peer).recvCount < maxChainLength) :
    openKey kdf t p = keyAt kdf secret p (t.opened p).length := by
  obtain ⟨hcount, hkey⟩ := h.recv.eq (h.recv.lt_iff.mp hlt)
  rw [openKey, hcount, hkey]
  rfl

theorem Genuine.concat {sent : List (Bytes × Bytes)} (h : Genuine kdf A secret p sent)
    (hdec : A.decrypt (keyAt kdf secret p sent.length) (Vector.replicate 12 0) c = some m) :
    Genuine kdf A secret p (sent ++ [(m, c)]) := by
  intro n m' c' hmessage
  rw [List.getElem?_append] at hmessage
  split_ifs at hmessage with hn
  · exact h n m' c' hmessage
  · obtain ⟨hlast, hpair⟩ := List.getElem?_eq_some_iff.mp hmessage
    obtain rfl : n = sent.length := by
      rw [List.length_singleton] at hlast
      omega
    simp only [Nat.sub_self, List.getElem_cons_zero, Prod.mk.injEq] at hpair
    rw [← hpair.1, ← hpair.2]
    exact hdec

/-- No two positions have one key. -/
theorem keyAt_inj (hkdf : InjectiveFor kdf secret)
    (hstart : chainStart kdf secret .alice ≠ chainStart kdf secret .bob) {i n : ℕ}
    (hi : i < maxChainLength.toNat) (hn : n < maxChainLength.toNat)
    (h : keyAt kdf secret q i = keyAt kdf secret p n) : q = p ∧ i = n :=
  messageInput_inj hkdf hstart hi hn (hkdf.message ⟨q, i, hi, rfl⟩ ⟨p, n, hn, rfl⟩ h)

/-! ## One step -/

/-- The direction from `p` depends on the sending half of one session and on the receiving half
    of the other. -/
theorem Follows.congr (h : Follows kdf A secret t p) (hsent : t'.sent p = t.sent p)
    (hopened : t'.opened p = t.opened p)
    (hsend : (t'.session p).sendChainKey = (t.session p).sendChainKey ∧
      (t'.session p).sendCount = (t.session p).sendCount)
    (hrecv : (t'.session p.peer).recvChainKey = (t.session p.peer).recvChainKey ∧
      (t'.session p.peer).recvCount = (t.session p.peer).recvCount) :
    Follows kdf A secret t' p where
  sent_le := by rw [hsent]; exact h.sent_le
  send := by rw [hsent, hsend.1, hsend.2]; exact h.send
  recv := by rw [hopened, hrecv.1, hrecv.2]; exact h.recv
  genuine := by rw [hsent]; exact h.genuine
  faithful := by rw [hopened, hsent]; exact h.faithful

/-- Sealing adds a message to the party's own direction. -/
theorem Follows.toSeal (h : Follows kdf A secret t p)
    (hlt : (t.session p).sendCount < maxChainLength)
    (hdec : A.decrypt (messageKey kdf (t.session p).sendChainKey (t.session p).sendCount)
      (Vector.replicate 12 0) c = some m)
    (hsent : t'.sent p = t.sent p ++ [(m, c)]) (hopened : t'.opened p = t.opened p)
    (hsession : t'.session p = (t.session p).advanceSend kdf)
    (hpeer : t'.session p.peer = t.session p.peer) : Follows kdf A secret t' p := by
  rw [h.sendKey hlt] at hdec
  have hlen : (t'.sent p).length = (t.sent p).length + 1 := by rw [hsent, List.length_append]; rfl
  constructor
  case sent_le => rw [hlen]; exact h.send.lt_iff.mp hlt
  case send => rw [hsession, hlen]; exact h.send.advance hlt
  case recv => rw [hpeer, hopened]; exact h.recv
  case genuine => rw [hsent]; exact h.genuine.concat hdec
  case faithful =>
    intro n m' hm'
    rw [hopened] at hm'
    obtain ⟨c', hc'⟩ := h.faithful n m' hm'
    refine ⟨c', ?_⟩
    rw [hsent, List.getElem?_append_left (List.getElem?_eq_some_iff.mp hc').1]
    exact hc'

/-- What the peer opens next, without forgery, is the message whose turn it is. -/
theorem sent_of_open (hkdf : InjectiveFor kdf secret)
    (hstart : chainStart kdf secret .alice ≠ chainStart kdf secret .bob)
    (h : ∀ p, Follows kdf A secret t p) (hok : noForgery kdf A secret t (.deliver p c) = true)
    (hm : ((t.session p.peer).open kdf A c).1 = .ok m) :
    (t.sent p)[(t.opened p).length]? = some (m, c) := by
  rcases open_cases kdf A (t.session p.peer) c with ⟨-, -, e, he⟩ | ⟨hlt, -, hdec⟩
  · rw [he] at hm
    cases hm
  · have hopens : A.decrypt (openKey kdf t p) (Vector.replicate 12 0) c = some m := (hdec m).mp hm
    rw [noForgery, hopens, Option.all_some, List.any_eq_true] at hok
    obtain ⟨q, -, hok⟩ := hok
    obtain ⟨⟨e, i⟩, hmem, hx⟩ := List.any_eq_true.mp hok
    obtain ⟨rfl, hkey⟩ := of_decide_eq_true hx
    have hsealed : (t.sent q)[i]? = some (m, c) := List.mem_zipIdx_iff_getElem?.mp hmem
    rw [(h p).openKey_eq hlt] at hkey
    have hi : i < maxChainLength.toNat :=
      (List.getElem?_eq_some_iff.mp hsealed).1.trans_le (h q).sent_le
    obtain ⟨rfl, rfl⟩ := keyAt_inj hkdf hstart hi ((h p).recv.lt_iff.mp hlt) hkey
    exact hsealed

/-- Whatever is presented, the receiving chain moves on as far as it can. -/
theorem recv_deliver (h : Follows kdf A secret t p) (c : Bytes) :
    ChainAt kdf (chainStart kdf secret p) ((t.opened p).length + 1)
      ((t.session p.peer).open kdf A c).2.recvChainKey
      ((t.session p.peer).open kdf A c).2.recvCount :=
  call_recvAt (A := A) (.toOpen c) h.recv

theorem Follows.deliver (hkdf : InjectiveFor kdf secret)
    (hstart : chainStart kdf secret .alice ≠ chainStart kdf secret .bob)
    (h : ∀ p, Follows kdf A secret t p) (hok : noForgery kdf A secret t (.deliver p c) = true)
    (hsent : t'.sent p = t.sent p)
    (hopened : t'.opened p = t.opened p ++ [((t.session p.peer).open kdf A c).1])
    (hsession : t'.session p = t.session p)
    (hpeer : t'.session p.peer = ((t.session p.peer).open kdf A c).2) :
    Follows kdf A secret t' p := by
  have hlen : (t'.opened p).length = (t.opened p).length + 1 := by
    rw [hopened, List.length_append]; rfl
  constructor
  case sent_le => rw [hsent]; exact (h p).sent_le
  case send => rw [hsession, hsent]; exact (h p).send
  case recv => rw [hpeer, hlen]; exact recv_deliver (h p) c
  case genuine => rw [hsent]; exact (h p).genuine
  case faithful =>
    intro n m hm
    rw [hsent]
    rw [hopened, List.getElem?_append] at hm
    split_ifs at hm with hn
    · exact (h p).faithful n m hm
    · obtain ⟨hlast, hresult⟩ := List.getElem?_eq_some_iff.mp hm
      obtain rfl : n = (t.opened p).length := by
        rw [List.length_singleton] at hlast
        omega
      simp only [Nat.sub_self, List.getElem_cons_zero] at hresult
      exact ⟨c, sent_of_open hkdf hstart h hok hresult⟩

/-- A step of a party or of the network keeps both directions. -/
theorem follows_netStep (hA : A.Inverts messages) (hkdf : InjectiveFor kdf secret)
    (hstart : chainStart kdf secret .alice ≠ chainStart kdf secret .bob)
    (h : ∀ p, Follows kdf A secret t p) (hok : Hostile kdf A messages secret t a)
    (hs : netStep kdf A t a = some t') (q : Party) : Follows kdf A secret t' q := by
  cases a with
  | toSeal p m =>
    rcases step_toSeal hA (hok.1 p m rfl) hs with ⟨-, rfl⟩ | ⟨hlt, c, hdec, rfl⟩
    · exact h q
    · rcases p.eq_or_eq_peer q with rfl | rfl
      · exact (h q).toSeal hlt hdec (Function.update_self ..) rfl (Function.update_self ..)
          (Function.update_of_ne q.peer_ne ..)
      · refine (h p.peer).congr (Function.update_of_ne p.peer_ne ..) rfl ?_ ?_
        · simp
        · simp [advanceSend]
  | deliver p c =>
    obtain rfl := Option.some.inj hs
    rcases p.eq_or_eq_peer q with rfl | rfl
    · exact .deliver hkdf hstart h hok.2 rfl (Function.update_self ..)
        (Function.update_of_ne q.ne_peer ..) (Function.update_self ..)
    · refine (h p.peer).congr rfl (Function.update_of_ne p.peer_ne ..) ?_ ?_
      · -- the peer's sending half is not touched
        rcases open_cases kdf A (t.session p.peer) c with ⟨-, hsame, -⟩ | ⟨-, hadvance, -⟩
        · simp [hsame]
        · simp [hadvance, advanceRecv]
      · simp

/-! ## Runs -/

/-- Whatever a network that forges nothing presents, in every state that a run leads to: what
    the peer of `p` has opened as number `n` is what `p` has sealed as number `n`; the message
    whose turn it is opens; and nothing else does. -/
theorem network_integrity (kdf : DeriveKey) (A : Aes256Gcm) (messages : Set Bytes)
    (hA : A.Inverts messages) (secret : Vector UInt8 32) (hkdf : InjectiveFor kdf secret)
    (hstart : kdf domains.ratchetSend secret.toList ≠ kdf domains.ratchetRecv secret.toList)
    (as : List NetStep) (t : RatchetPair)
    (hrun : Run (netStep kdf A) (Hostile kdf A messages secret) (start kdf secret) as t)
    (p : Party) :
    (∀ (n : ℕ) (m : Bytes), (t.opened p)[n]? = some (.ok m) → ∃ c, (t.sent p)[n]? = some (m, c)) ∧
      ∀ c, noForgery kdf A secret t (.deliver p c) = true →
        ∀ m, ((t.session p.peer).open kdf A c).1 = .ok m ↔
          (t.sent p)[(t.opened p).length]? = some (m, c) := by
  have hfollows := hrun.invariant (fun t => ∀ p, Follows kdf A secret t p) (follows_start secret)
    fun _ _ _ h hok hs => follows_netStep hA hkdf hstart h hok hs
  refine ⟨(hfollows p).faithful, fun c hok m => ⟨sent_of_open hkdf hstart hfollows hok, ?_⟩⟩
  intro hturn
  have hroom : (t.opened p).length < maxChainLength.toNat :=
    (List.getElem?_eq_some_iff.mp hturn).1.trans_le (hfollows p).sent_le
  have hlt := (hfollows p).recv.lt_iff.mpr hroom
  rcases open_cases kdf A (t.session p.peer) c with ⟨hmax, -⟩ | ⟨-, -, hdec⟩
  · exact absurd hmax (UInt32.not_le.mpr hlt)
  · refine (hdec m).mpr ?_
    rw [show messageKey kdf _ _ = openKey kdf t p from rfl, (hfollows p).openKey_eq hlt]
    exact (hfollows p).genuine _ m c hturn

/-- The ciphertext number `n` of Alice. -/
def runCiphertext (n : ℕ) (m : Bytes) : Bytes :=
  m ++ (keyAt countingKdf runSecret .alice n).toList

/-- Alice seals three messages. The network loses the first one, presents what it has made up in
    its place, then the second one twice. -/
def runHostile : List NetStep :=
  [.toSeal .alice [1], .toSeal .alice [2], .toSeal .alice [3], .deliver .alice [0],
    .deliver .alice (runCiphertext 1 [2]), .deliver .alice (runCiphertext 1 [2])]

/-- Only the second message was opened, and no further one is in its turn. -/
theorem network_integrity_run : ∃ t,
    Run (netStep countingKdf keyTagged) (Hostile countingKdf keyTagged Set.univ runSecret)
      (start countingKdf runSecret) runHostile t ∧
    (t.opened .alice).map Except.toOption = [none, some [2], none] ∧
    ∃ c, (t.sent .alice)[1]? = some ([2], c) := by
  obtain ⟨t, hrun, hp⟩ := exists_run_of_exec (netStep countingKdf keyTagged)
    (fun t a => noForgery countingKdf keyTagged runSecret t a = true)
    (start countingKdf runSecret) runHostile
    (fun t => (t.opened .alice).map Except.toOption = [none, some [2], none]) (by decide +kernel)
  have hhostile : Run (netStep countingKdf keyTagged)
      (Hostile countingKdf keyTagged Set.univ runSecret) (start countingKdf runSecret) runHostile t :=
    hrun.mono_of_invariant (fun _ => True) trivial (fun _ _ _ _ _ _ => trivial)
      fun _ _ _ hok => ⟨fun _ m _ => Set.mem_univ m, hok⟩
  have hopened := of_decide_eq_true hp
  refine ⟨t, hhostile, hopened, ?_⟩
  refine (network_integrity countingKdf keyTagged Set.univ (Aead.tagged_inverts _ _) runSecret
    countingKdf_injectiveFor (by decide +kernel) runHostile t hhostile .alice).1 1 [2] ?_
  have hsecond := congrArg (fun l => l[1]?) hopened
  simp only [List.getElem?_map] at hsecond
  cases hresult : (t.opened .alice)[1]? with
  | none => rw [hresult] at hsecond; cases hsecond
  | some r =>
    rw [hresult] at hsecond
    cases r with
    | error e => cases hsecond
    | ok m => cases hsecond; rfl

end FreeBox.Crypto.RatchetPair
