import FreeBox.Crypto.Ratchet
import FreeBox.Lib.Run
import Mathlib.Logic.Function.Basic

/-!
# Two ratchet sessions

Alice and Bob start from one shared secret and exchange messages over two channels,
one in each direction, that deliver in order. Either party may seal at any time, and
either may open the oldest ciphertext that it has not opened yet.

Results:
* `InStep`: how the receiving chain of one party follows the sending chain of the
  other, with any number of messages in flight.
* `inStep_step`: a step of either party keeps both directions in step.
* `in_step`: so every message opens to its plaintext.
-/

namespace FreeBox.Crypto

open FreeBox.Lib RatchetSession

inductive Party
  | alice
  | bob
  deriving DecidableEq

namespace Party

def peer : Party → Party
  | alice => bob
  | bob => alice

/-- Alice is the initiator. -/
def isInitiator : Party → Bool
  | alice => true
  | bob => false

@[simp] theorem peer_ne (p : Party) : p.peer ≠ p := by cases p <;> nofun

@[simp] theorem ne_peer (p : Party) : p ≠ p.peer := p.peer_ne.symm

@[simp] theorem peer_peer (p : Party) : p.peer.peer = p := by cases p <;> rfl

theorem eq_or_eq_peer (p q : Party) : q = p ∨ q = p.peer := by
  cases p <;> cases q <;> decide

end Party

/-- The sessions of the parties, the plaintexts that each has sealed with their
    ciphertexts, and what its peer has got by opening them, oldest first. -/
structure RatchetPair where
  session : Party → RatchetSession
  sent : Party → List (Bytes × Bytes)
  opened : Party → List (Except String Bytes)

namespace RatchetPair

inductive Step
  /-- The party seals a plaintext. -/
  | toSeal (p : Party) (plaintext : Bytes)
  /-- The peer opens the oldest ciphertext of the party that is undelivered. -/
  | toOpen (p : Party)
  deriving DecidableEq

variable (kdf : DeriveKey) (A : Aes256Gcm)

/-- Both sessions are new. -/
def start (secret : Vector UInt8 32) : RatchetPair where
  session p := .new kdf secret p.isInitiator
  sent _ := []
  opened _ := []

/-- A seal that fails sends nothing. -/
def step (t : RatchetPair) : Step → Option RatchetPair
  | .toSeal p plaintext =>
    let sealed := (t.session p).seal kdf A plaintext
    some
      { t with
        session := Function.update t.session p sealed.2
        sent := match sealed.1 with
          | .ok ciphertext => Function.update t.sent p (t.sent p ++ [(plaintext, ciphertext)])
          | .error _ => t.sent }
  | .toOpen p =>
    (t.sent p)[(t.opened p).length]?.map fun message =>
      let result := (t.session p.peer).open kdf A message.2
      { t with
        session := Function.update t.session p.peer result.2
        opened := Function.update t.opened p (t.opened p ++ [result.1]) }

/-- The runs seal messages that the cipher can encrypt. -/
def Seals (messages : Set Bytes) (_ : RatchetPair) (a : Step) : Prop :=
  ∀ p m, a = .toSeal p m → m ∈ messages

/-- The first key of the chain from a party to its peer. -/
def chainStart (secret : Vector UInt8 32) (p : Party) : Vector UInt8 32 :=
  (RatchetSession.new kdf secret p.isInitiator).sendChainKey

theorem chainStart_eq_recv (secret : Vector UInt8 32) (p : Party) :
    (RatchetSession.new kdf secret p.peer.isInitiator).recvChainKey = chainStart kdf secret p := by
  cases p <;> rfl

/-- The direction from `p` to its peer is in step: the sending chain has moved on once
    for each message sent, the receiving chain once for each message opened, and the
    messages opened are the first ones sent. -/
structure InStep (secret : Vector UInt8 32) (t : RatchetPair) (p : Party) : Prop where
  opened_le : (t.opened p).length ≤ (t.sent p).length
  sent_le : (t.sent p).length ≤ maxChainLength.toNat
  send : ChainAt kdf (chainStart kdf secret p) (t.sent p).length (t.session p).sendChainKey
    (t.session p).sendCount
  recv : ChainAt kdf (chainStart kdf secret p) (t.opened p).length
    (t.session p.peer).recvChainKey (t.session p.peer).recvCount
  genuine : ∀ i m c, (t.sent p)[i]? = some (m, c) →
    A.decrypt (messageKey kdf ((advanceKey kdf)^[i] (chainStart kdf secret p)) (.ofNat i))
      (Vector.replicate 12 0) c = some m
  faithful : t.opened p = ((t.sent p).take (t.opened p).length).map fun e => .ok e.1

variable {kdf A} {secret : Vector UInt8 32} {t t' : RatchetPair} {p : Party} {a : Step}
  {messages : Set Bytes}

theorem inStep_start (secret : Vector UInt8 32) (p : Party) :
    InStep kdf A secret (start kdf secret) p where
  opened_le := le_rfl
  sent_le := Nat.zero_le _
  send := .zero
  recv := by
    rw [show ((start kdf secret).session p.peer).recvChainKey = chainStart kdf secret p from
      chainStart_eq_recv kdf secret p]
    exact .zero
  genuine := fun i m c h => by simp [start] at h
  faithful := rfl

/-! ## One step -/

/-- A party seals nothing more once its chain is exhausted; before that it sends a
    genuine ciphertext and its sending chain moves on. -/
theorem step_toSeal (hA : A.Inverts messages) {m : Bytes} (hm : m ∈ messages)
    (hs : step kdf A t (.toSeal p m) = some t') :
    (maxChainLength ≤ (t.session p).sendCount ∧ t' = t) ∨
      ((t.session p).sendCount < maxChainLength ∧ ∃ c,
        A.decrypt (messageKey kdf (t.session p).sendChainKey (t.session p).sendCount)
          (Vector.replicate 12 0) c = some m ∧
        t' =
          { t with
            session := Function.update t.session p ((t.session p).advanceSend kdf)
            sent := Function.update t.sent p (t.sent p ++ [(m, c)]) }) := by
  obtain rfl := Option.some.inj hs
  rcases seal_cases kdf A (t.session p) m with ⟨hmax, hsame, e, he⟩ | ⟨hlt, hadvance, hok⟩
  · exact .inl ⟨hmax, by rw [hsame, he, Function.update_eq_self]⟩
  · obtain ⟨c, henc, hdec⟩ := hA (messageKey kdf (t.session p).sendChainKey (t.session p).sendCount)
      (Vector.replicate 12 0) m hm
    exact .inr ⟨hlt, c, hdec, by rw [hadvance, (hok c).mpr henc]⟩

/-- In step, the oldest ciphertext that is undelivered opens to its plaintext. -/
theorem step_toOpen (h : InStep kdf A secret t p) (hs : step kdf A t (.toOpen p) = some t') :
    ∃ m c, (t.sent p)[(t.opened p).length]? = some (m, c) ∧
      (t.session p.peer).recvCount < maxChainLength ∧
      t' =
        { t with
          session := Function.update t.session p.peer ((t.session p.peer).advanceRecv kdf)
          opened := Function.update t.opened p (t.opened p ++ [.ok m]) } := by
  obtain ⟨⟨m, c⟩, hmessage, rfl⟩ := Option.map_eq_some_iff.mp hs
  obtain ⟨hundelivered, -⟩ := List.getElem?_eq_some_iff.mp hmessage
  have hroom : (t.opened p).length < maxChainLength.toNat := hundelivered.trans_le h.sent_le
  obtain ⟨hcount, hkey⟩ := h.recv.eq hroom
  have hdec := h.genuine _ m c hmessage
  rw [← hkey, ← hcount] at hdec
  rcases open_cases kdf A (t.session p.peer) c with ⟨hmax, -⟩ | ⟨hlt, hadvance, hok⟩
  · exact absurd hmax (UInt32.not_le.mpr (h.recv.lt_iff.mpr hroom))
  · refine ⟨m, c, hmessage, hlt, ?_⟩
    simp only [hadvance, (hok m).mpr hdec]

/-- The direction from `p` depends on the sending half of one session and on the
    receiving half of the other. -/
theorem InStep.congr (h : InStep kdf A secret t p) (hsent : t'.sent p = t.sent p)
    (hopened : t'.opened p = t.opened p)
    (hsend : (t'.session p).sendChainKey = (t.session p).sendChainKey ∧
      (t'.session p).sendCount = (t.session p).sendCount)
    (hrecv : (t'.session p.peer).recvChainKey = (t.session p.peer).recvChainKey ∧
      (t'.session p.peer).recvCount = (t.session p.peer).recvCount) :
    InStep kdf A secret t' p where
  opened_le := by rw [hopened, hsent]; exact h.opened_le
  sent_le := by rw [hsent]; exact h.sent_le
  send := by rw [hsent, hsend.1, hsend.2]; exact h.send
  recv := by rw [hopened, hrecv.1, hrecv.2]; exact h.recv
  genuine := by rw [hsent]; exact h.genuine
  faithful := by rw [hopened, hsent]; exact h.faithful

/-- Sealing keeps the party's own direction in step. -/
theorem InStep.toSeal (h : InStep kdf A secret t p) {m c : Bytes}
    (hlt : (t.session p).sendCount < maxChainLength)
    (hdec : A.decrypt (messageKey kdf (t.session p).sendChainKey (t.session p).sendCount)
      (Vector.replicate 12 0) c = some m)
    (hsent : t'.sent p = t.sent p ++ [(m, c)]) (hopened : t'.opened p = t.opened p)
    (hsession : t'.session p = (t.session p).advanceSend kdf)
    (hpeer : t'.session p.peer = t.session p.peer) : InStep kdf A secret t' p := by
  have hroom := h.send.lt_iff.mp hlt
  have hlen : (t'.sent p).length = (t.sent p).length + 1 := by rw [hsent, List.length_append]; rfl
  constructor
  case opened_le => rw [hopened, hlen]; exact Nat.le_succ_of_le h.opened_le
  case sent_le => rw [hlen]; exact hroom
  case send => rw [hsession, hlen]; exact h.send.advance hlt
  case recv => rw [hpeer, hopened]; exact h.recv
  case genuine =>
    intro i m' c' hmessage
    rw [hsent, List.getElem?_append] at hmessage
    split_ifs at hmessage with hi
    · exact h.genuine i m' c' hmessage
    · -- the new message was sealed with the key of its position
      obtain ⟨hlast, hpair⟩ := List.getElem?_eq_some_iff.mp hmessage
      have hi' : i = (t.sent p).length := by
        rw [List.length_singleton] at hlast
        omega
      obtain ⟨hcount, hkey⟩ := h.send.eq hroom
      subst hi'
      simp only [Nat.sub_self, List.getElem_cons_zero, Prod.mk.injEq] at hpair
      rw [← hkey, ← hcount, ← hpair.1, ← hpair.2]
      exact hdec
  case faithful =>
    rw [hopened, hsent, List.take_append_of_le_length h.opened_le]
    exact h.faithful

/-- Opening the oldest undelivered ciphertext keeps its direction in step. -/
theorem InStep.toOpen (h : InStep kdf A secret t p) {m c : Bytes}
    (hmessage : (t.sent p)[(t.opened p).length]? = some (m, c))
    (hlt : (t.session p.peer).recvCount < maxChainLength) (hsent : t'.sent p = t.sent p)
    (hopened : t'.opened p = t.opened p ++ [.ok m]) (hsession : t'.session p = t.session p)
    (hpeer : t'.session p.peer = (t.session p.peer).advanceRecv kdf) :
    InStep kdf A secret t' p := by
  obtain ⟨hundelivered, -⟩ := List.getElem?_eq_some_iff.mp hmessage
  have hlen : (t'.opened p).length = (t.opened p).length + 1 := by
    rw [hopened, List.length_append]; rfl
  constructor
  case opened_le => rw [hlen, hsent]; exact hundelivered
  case sent_le => rw [hsent]; exact h.sent_le
  case send => rw [hsession, hsent]; exact h.send
  case recv => rw [hpeer, hlen]; exact h.recv.advance hlt
  case genuine => rw [hsent]; exact h.genuine
  case faithful =>
    rw [hlen, hopened, hsent, List.take_add_one, hmessage, List.map_append, ← h.faithful]
    rfl

/-- A step of either party keeps both directions in step. -/
theorem inStep_step (hA : A.Inverts messages) (h : ∀ p, InStep kdf A secret t p)
    (hok : Seals messages t a) (hs : step kdf A t a = some t') (q : Party) :
    InStep kdf A secret t' q := by
  cases a with
  | toSeal p m =>
    rcases step_toSeal hA (hok p m rfl) hs with ⟨-, rfl⟩ | ⟨hlt, c, hdec, rfl⟩
    · exact h q
    · rcases p.eq_or_eq_peer q with rfl | rfl
      · exact (h q).toSeal hlt hdec (Function.update_self ..) rfl (Function.update_self ..)
          (Function.update_of_ne q.peer_ne ..)
      · refine (h p.peer).congr (Function.update_of_ne p.peer_ne ..) rfl ?_ ?_
        · simp
        · simp [advanceSend]
  | toOpen p =>
    obtain ⟨m, c, hmessage, hlt, rfl⟩ := step_toOpen (h p) hs
    rcases p.eq_or_eq_peer q with rfl | rfl
    · exact (h q).toOpen hmessage hlt rfl (Function.update_self ..)
        (Function.update_of_ne q.ne_peer ..) (Function.update_self ..)
    · refine (h p.peer).congr rfl (Function.update_of_ne p.peer_ne ..) ?_ ?_
      · simp [advanceRecv]
      · simp

/-! ## Runs -/

theorem inStep_run (hA : A.Inverts messages) {as : List Step}
    (h : Run (step kdf A) (Seals messages) (start kdf secret) as t) (p : Party) :
    InStep kdf A secret t p :=
  h.invariant (fun t => ∀ p, InStep kdf A secret t p) (inStep_start secret)
    (fun _ _ _ h hok hs => inStep_step hA h hok hs) p

/-- Synchronisation. In every state that any interleaving of seals and of openings in
    order leads to: what was opened is the plaintexts that were sealed, in order;
    each receive count is the number of messages opened; the sending chain is ahead of
    the receiving chain by the messages in flight; and a party can seal another message
    as long as it has not sent `MAX_CHAIN_LENGTH`. -/
theorem in_step (kdf : DeriveKey) (A : Aes256Gcm) (messages : Set Bytes)
    (hA : A.Inverts messages) (secret : Vector UInt8 32) (as : List Step) (t : RatchetPair)
    (h : Run (step kdf A) (Seals messages) (start kdf secret) as t) (p : Party) :
    t.opened p = ((t.sent p).take (t.opened p).length).map (fun e => .ok e.1) ∧
      (t.session p.peer).recvCount.toNat = (t.opened p).length ∧
      (t.session p).sendCount.toNat =
        (t.session p.peer).recvCount.toNat + ((t.sent p).length - (t.opened p).length) ∧
      (t.session p).sendChainKey = (advanceKey kdf)^[(t.sent p).length - (t.opened p).length]
        (t.session p.peer).recvChainKey ∧
      ∀ m ∈ messages, (∃ c, ((t.session p).seal kdf A m).1 = .ok c) ↔
        (t.sent p).length < maxChainLength.toNat := by
  have hp := inStep_run hA h p
  have hopened := hp.opened_le
  have hsent := hp.sent_le
  obtain ⟨hsendCount, hsendKey⟩ := hp.send
  obtain ⟨hrecvCount, hrecvKey⟩ := hp.recv
  have hsends : (t.session p).sendCount.toNat = (t.sent p).length := by omega
  have hrecvs : (t.session p.peer).recvCount.toNat = (t.opened p).length := by omega
  refine ⟨hp.faithful, hrecvs, by omega, ?_, fun m hm => ?_⟩
  · rw [hsendKey, hrecvKey, ← Function.iterate_add_apply, hsends, hrecvs, Nat.sub_add_cancel hopened]
  · rw [← hp.send.lt_iff]
    rcases seal_cases kdf A (t.session p) m with ⟨hmax, -, e, he⟩ | ⟨hlt, -, hok⟩
    · rw [he]
      exact ⟨nofun, fun hlt => absurd hmax (UInt32.not_le.mpr hlt)⟩
    · obtain ⟨c, henc, -⟩ := hA (messageKey kdf (t.session p).sendChainKey
        (t.session p).sendCount) (Vector.replicate 12 0) m hm
      exact ⟨fun _ => hlt, fun _ => ⟨c, (hok c).mpr henc⟩⟩

/-- Both parties seal before either opens; one message of Alice stays in flight. -/
def runSteps : List Step :=
  [.toSeal .alice [1], .toSeal .bob [2], .toSeal .alice [3], .toOpen .alice, .toOpen .bob]

theorem in_step_run : ∃ t,
    Run (step runKdf keyTagged) (Seals Set.univ) (start runKdf runSecret) runSteps t ∧
    ((t.opened .alice).length = 1 ∧ (t.sent .alice).length = 2) ∧
    t.opened .alice = ((t.sent .alice).take (t.opened .alice).length).map (fun e => .ok e.1) := by
  obtain ⟨t, hrun, hlen⟩ := exists_run_of_exec (step runKdf keyTagged) anyStep
    (start runKdf runSecret) runSteps
    (fun t => (t.opened .alice).length = 1 ∧ (t.sent .alice).length = 2) (by decide +kernel)
  have hseals : Run (step runKdf keyTagged) (Seals Set.univ) (start runKdf runSecret) runSteps t :=
    hrun.mono_of_invariant (fun _ => True) trivial (fun _ _ _ _ _ _ => trivial)
      fun _ _ _ _ _ m _ => Set.mem_univ m
  exact ⟨t, hseals, of_decide_eq_true hlen, (in_step runKdf keyTagged Set.univ
    (Aead.tagged_inverts _ _) runSecret runSteps t hseals .alice).1⟩

end RatchetPair

end FreeBox.Crypto
