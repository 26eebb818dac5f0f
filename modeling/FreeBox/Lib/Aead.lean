import FreeBox.Lib.Bytes

/-!
# Authenticated ciphers

The interface of an authenticated cipher and the two assumptions that results
about its users rest on: decryption undoes encryption (`Aead.Correct`), and
under a given key nothing but the ciphertexts that were made under it can be
decrypted (`Aead.Ideal`).

Results:
* `Aead.oracle_ideal`: decryption by looking up what was encrypted is ideal.
* `Aead.tagged_correct`: a message followed by a tag that is checked is a
  correct cipher.
-/

namespace FreeBox.Lib

/-- Encryption and decryption under keys `K`, nonces `N`, of messages `M` into
    ciphertexts `C`. `none` is the cipher's error. -/
structure Aead (K N M C : Type*) where
  encrypt : K → N → M → Option C
  decrypt : K → N → C → Option M

namespace Aead

variable {K N M C : Type*} {A : Aead K N M C}

/-- Decryption undoes encryption. -/
def Correct (A : Aead K N M C) : Prop :=
  ∀ k v m c, A.encrypt k v m = some c → A.decrypt k v c = some m

/-- The messages in `messages` can be encrypted, and decryption undoes it. -/
def Inverts (A : Aead K N M C) (messages : Set M) : Prop :=
  ∀ k v m, m ∈ messages → ∃ c, A.encrypt k v m = some c ∧ A.decrypt k v c = some m

/-- Under `k`, where the pairs of a nonce and a message in `produced` have been
    encrypted, decryption succeeds exactly on the ciphertexts made from them,
    each under its own nonce, and returns the message. -/
def Ideal (A : Aead K N M C) (k : K) (produced : Set (N × M)) : Prop :=
  ∀ v c m, A.decrypt k v c = some m ↔ (v, m) ∈ produced ∧ A.encrypt k v m = some c

/-- A ciphertext is `n` places longer than its message. -/
def Expands {α β : Type*} (A : Aead K N (List α) (List β)) (n : ℕ) : Prop :=
  ∀ k v m c, A.encrypt k v m = some c → c.length = m.length + n

/-- Under `k` the ciphertexts of the pairs in `produced` can be decrypted. -/
def Opens (A : Aead K N M C) (k : K) (produced : Set (N × M)) : Prop :=
  ∀ v m c, (v, m) ∈ produced → A.encrypt k v m = some c → A.decrypt k v c = some m

theorem Correct.opens (h : A.Correct) (k : K) (produced : Set (N × M)) : A.Opens k produced :=
  fun v m c _ hc => h k v m c hc

theorem Inverts.opens {messages : Set M} (h : A.Inverts messages) (k : K) {produced : Set (N × M)}
    (hsub : ∀ v m, (v, m) ∈ produced → m ∈ messages) : A.Opens k produced := by
  intro v m c hm hc
  obtain ⟨c', hc', hdec⟩ := h k v m (hsub v m hm)
  rw [hc] at hc'
  rwa [Option.some.inj hc']

theorem Ideal.opens {k : K} {produced : Set (N × M)} (h : A.Ideal k produced) :
    A.Opens k produced :=
  fun v m c hm hc => (h v c m).mpr ⟨hm, hc⟩

/-! ## The oracle -/

section Oracle

variable [DecidableEq N] [DecidableEq C]

/-- Decryption that looks the ciphertext up among those of `produced`. -/
def oracle (enc : K → N → M → Option C) (produced : List (N × M)) : Aead K N M C where
  encrypt := enc
  decrypt k v c := (produced.find? fun x => x.1 = v ∧ enc k v x.2 = some c).map Prod.snd

theorem oracle_ideal {enc : K → N → M → Option C} (produced : List (N × M)) (k : K)
    (hinj : ∀ v m m' c, enc k v m = some c → enc k v m' = some c → m = m') :
    (oracle enc produced).Ideal k {x | x ∈ produced} := by
  intro v c m
  simp only [oracle, Option.map_eq_some_iff, Set.mem_ofPred_eq]
  constructor
  · rintro ⟨⟨v', m'⟩, hfind, rfl⟩
    have hp := List.find?_some hfind
    obtain ⟨rfl, henc⟩ := of_decide_eq_true hp
    exact ⟨List.mem_of_find?_eq_some hfind, henc⟩
  · rintro ⟨hmem, henc⟩
    have hsome : (produced.find? fun x => x.1 = v ∧ enc k v x.2 = some c).isSome := by
      rw [List.find?_isSome]
      exact ⟨(v, m), hmem, decide_eq_true ⟨rfl, henc⟩⟩
    obtain ⟨x, hx⟩ := Option.isSome_iff_exists.mp hsome
    have hp := List.find?_some hx
    exact ⟨x, hx, hinj v _ _ c (of_decide_eq_true hp).2 henc⟩

end Oracle

/-! ## A message followed by its tag -/

section Tagged

variable {α : Type*} [DecidableEq α]

/-- The ciphertext is the message followed by a tag of the key and the nonce. -/
def tagged (tag : K → N → List α) : Aead K N (List α) (List α) where
  encrypt k v m := some (m ++ tag k v)
  decrypt k v c :=
    if tag k v <:+ c then some (c.take (c.length - (tag k v).length)) else none

theorem tagged_inj {tag : K → N → List α} {k : K} {v : N} {m m' c : List α}
    (h : (tagged tag).encrypt k v m = some c) (h' : (tagged tag).encrypt k v m' = some c) :
    m = m' :=
  List.append_cancel_right (Option.some.inj (h.trans h'.symm))

theorem tagged_inverts (tag : K → N → List α) (messages : Set (List α)) :
    (tagged tag).Inverts messages :=
  fun k v m _ => ⟨m ++ tag k v, rfl, by simp [tagged]⟩

theorem tagged_expands {tag : K → N → List α} {n : ℕ} (h : ∀ k v, (tag k v).length = n) :
    (tagged tag).Expands n := by
  intro k v m c hc
  obtain rfl := Option.some.inj hc
  rw [List.length_append, h]

theorem tagged_correct (tag : K → N → List α) : (tagged tag).Correct := by
  intro k v m c h
  obtain rfl := Option.some.inj h
  simp [tagged]

end Tagged

end Aead

end FreeBox.Lib
