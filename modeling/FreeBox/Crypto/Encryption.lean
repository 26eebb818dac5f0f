import FreeBox.Lib.Aead

/-!
# Chunked file encryption

Model of `packages/crypto/src/encryption.rs`. AES-256-GCM is a parameter
`A : Aes256Gcm`; the key, which the code draws at random, is an argument.

Results:
* `decryptChunk_eq_ok`, `encryptChunk_eq_ok`: what a successful call says.
* `encryptChunks_getElem?`: each record of a file is the encryption of the piece
  at its place.
* `exists_encryptChunks`: pieces that are not too long can be encrypted.
-/

namespace FreeBox.Crypto

open FreeBox.Lib

/-- `encryption::CHUNK_SIZE`, 4 MiB. -/
def chunkSize : ℕ := 4 * 1024 * 1024

/-- `encryption::FileKey`. -/
structure FileKey where
  bytes : Vector UInt8 32
  deriving DecidableEq

/-- `Nonce<Aes256Gcm>`. -/
abbrev Nonce := Vector UInt8 12

/-- The cipher `aes_gcm::Aes256Gcm`. -/
abbrev Aes256Gcm := Aead (Vector UInt8 32) Nonce Bytes Bytes

/-- `encryption::ChunkCiphertext`. -/
structure ChunkCiphertext where
  index : UInt64
  nonce : Bytes
  ciphertext : Bytes
  deriving DecidableEq

/-- The nonce that `encrypt_chunk` builds: four zero bytes, then the index. -/
def chunkNonce (index : UInt64) : Nonce :=
  ⟨(List.replicate 4 0 ++ beBytes 8 index.toNat).toArray, by simp⟩

/-- `encryption::encrypt_chunk`. -/
def encryptChunk (A : Aes256Gcm) (key : FileKey) (index : UInt64) (data : Bytes) :
    Except String ChunkCiphertext :=
  if data.length > chunkSize then
    .error ("chunk size " ++ toString data.length ++ " exceeds maximum " ++ toString chunkSize ++
      " — caller must split before encrypting")
  else
    match A.encrypt key.bytes (chunkNonce index) data with
    | none => .error "AES-GCM encrypt failed: aead::Error"
    | some ciphertext => .ok { index, nonce := (chunkNonce index).toList, ciphertext }

/-- `encryption::decrypt_chunk`. The nonce that is used is the record's own;
    only its length is checked. -/
def decryptChunk (A : Aes256Gcm) (key : FileKey) (expectedIndex : UInt64)
    (chunk : ChunkCiphertext) : Except String Bytes :=
  if chunk.index ≠ expectedIndex then
    .error ("chunk index mismatch: expected " ++ toString expectedIndex ++ ", got " ++
      toString chunk.index)
  else if h : chunk.nonce.length = 12 then
    match A.decrypt key.bytes ⟨chunk.nonce.toArray, h⟩ chunk.ciphertext with
    | none => .error "AES-GCM authentication failed — data may be tampered"
    | some plaintext => .ok plaintext
  else
    .error ("invalid nonce length: expected 12, got " ++ toString chunk.nonce.length)

/-- `encrypt_chunk` on successive pieces, the first at index `i`. -/
def encryptChunks (A : Aes256Gcm) (key : FileKey) :
    (i : ℕ) → List Bytes → Except String (List ChunkCiphertext)
  | _, [] => .ok []
  | i, piece :: pieces => do
    let chunk ← encryptChunk A key (.ofNat i) piece
    let rest ← encryptChunks A key (i + 1) pieces
    return chunk :: rest

/-- `encryption::encrypt_file`. -/
def encryptFile (A : Aes256Gcm) (key : FileKey) (plaintext : Bytes) :
    Except String (List ChunkCiphertext) :=
  encryptChunks A key 0 (chunks chunkSize plaintext)

/-- The loop of `decrypt_file`, from position `i` on. -/
def decryptChunks (A : Aes256Gcm) (key : FileKey) :
    (i : ℕ) → List ChunkCiphertext → Except String Bytes
  | _, [] => .ok []
  | i, chunk :: rest => do
    let decrypted ← decryptChunk A key (.ofNat i) chunk
    let plaintext ← decryptChunks A key (i + 1) rest
    return decrypted ++ plaintext

/-- `encryption::decrypt_file`. -/
def decryptFile (A : Aes256Gcm) (key : FileKey) (chunks : List ChunkCiphertext) :
    Except String Bytes :=
  decryptChunks A key 0 chunks

/-- The nonces and messages that the cipher is given when `pieces` are
    encrypted from index 0 on. -/
def encryptCalls (pieces : List Bytes) : List (Nonce × Bytes) :=
  pieces.zipIdx.map fun (piece, i) => (chunkNonce (.ofNat i), piece)

/-! ## Single chunks -/

variable {A : Aes256Gcm} {key : FileKey}

theorem encryptChunk_eq_ok {index : UInt64} {data : Bytes} {c : ChunkCiphertext} :
    encryptChunk A key index data = .ok c ↔ data.length ≤ chunkSize ∧
      ∃ ciphertext, A.encrypt key.bytes (chunkNonce index) data = some ciphertext ∧
        c = { index, nonce := (chunkNonce index).toList, ciphertext } := by
  unfold encryptChunk
  split_ifs with hlen
  · simp only [false_iff]
    omega
  · cases A.encrypt key.bytes (chunkNonce index) data with
    | none => simp
    | some ct => simp [Nat.le_of_not_lt hlen, eq_comm]

theorem decryptChunk_eq_ok {i : UInt64} {c : ChunkCiphertext} {q : Bytes} :
    decryptChunk A key i c = .ok q ↔ c.index = i ∧
      ∃ v : Nonce, v.toList = c.nonce ∧ A.decrypt key.bytes v c.ciphertext = some q := by
  unfold decryptChunk
  split_ifs with hi hlen
  · simp [hi]
  · have hv : ∀ v : Nonce, v.toList = c.nonce ↔ v = ⟨c.nonce.toArray, hlen⟩ := by
      intro v
      constructor
      · intro h
        apply Vector.toList_inj.mp
        rw [h]
        rfl
      · rintro rfl; rfl
    simp only [hv, exists_eq_left, not_not.mp hi, true_and]
    cases A.decrypt key.bytes _ c.ciphertext <;> simp
  · simp only [false_iff, not_and, not_exists]
    rintro - v hv
    exact absurd (hv ▸ v.length_toList) hlen

/-- A record whose nonce and ciphertext the cipher opens decrypts at the
    position that its index field names. -/
theorem decryptChunk_of_decrypt {c : ChunkCiphertext} {v : Nonce} {q : Bytes}
    (hv : c.nonce = v.toList) (h : A.decrypt key.bytes v c.ciphertext = some q) :
    decryptChunk A key c.index c = .ok q :=
  decryptChunk_eq_ok.mpr ⟨rfl, v, hv.symm, h⟩

theorem mem_encryptCalls {pieces : List Bytes} {v : Nonce} {m : Bytes} :
    (v, m) ∈ encryptCalls pieces ↔
      ∃ j, pieces[j]? = some m ∧ v = chunkNonce (.ofNat j) := by
  simp only [encryptCalls, List.mem_map, Prod.exists, Prod.mk.injEq, List.mem_zipIdx_iff_getElem?]
  constructor
  · rintro ⟨p, j, hp, rfl, rfl⟩; exact ⟨j, hp, rfl⟩
  · rintro ⟨j, hp, rfl⟩; exact ⟨m, j, hp, rfl, rfl⟩

/-! ## Whole files -/

theorem encryptChunks_cons_eq_ok {i : ℕ} {p : Bytes} {ps : List Bytes}
    {recs : List ChunkCiphertext} :
    encryptChunks A key i (p :: ps) = .ok recs ↔ ∃ c rest, recs = c :: rest ∧
      encryptChunk A key (.ofNat i) p = .ok c ∧ encryptChunks A key (i + 1) ps = .ok rest := by
  simp only [encryptChunks, bind, Except.bind, pure, Except.pure]
  cases encryptChunk A key (.ofNat i) p with
  | error e => simp
  | ok c => cases encryptChunks A key (i + 1) ps <;> simp [eq_comm]

theorem decryptChunks_cons_eq_ok {i : ℕ} {c : ChunkCiphertext} {cs : List ChunkCiphertext}
    {q : Bytes} :
    decryptChunks A key i (c :: cs) = .ok q ↔ ∃ q₁ q₂, q = q₁ ++ q₂ ∧
      decryptChunk A key (.ofNat i) c = .ok q₁ ∧ decryptChunks A key (i + 1) cs = .ok q₂ := by
  simp only [decryptChunks, bind, Except.bind, pure, Except.pure]
  cases decryptChunk A key (.ofNat i) c with
  | error e => simp
  | ok q₁ => cases decryptChunks A key (i + 1) cs <;> simp [eq_comm]

/-- The record at each place is the encryption of the piece at that place. -/
theorem encryptChunks_getElem? {i : ℕ} {ps : List Bytes} {recs : List ChunkCiphertext}
    (h : encryptChunks A key i ps = .ok recs) (j : ℕ) :
    (ps[j]? = none ∧ recs[j]? = none) ∨ ∃ p c, ps[j]? = some p ∧ recs[j]? = some c ∧
      encryptChunk A key (.ofNat (i + j)) p = .ok c := by
  induction ps generalizing i recs j with
  | nil => obtain rfl := Except.ok.inj h; exact .inl ⟨rfl, rfl⟩
  | cons p ps ih =>
    obtain ⟨c, rest, rfl, hc, hrest⟩ := encryptChunks_cons_eq_ok.mp h
    cases j with
    | zero => exact .inr ⟨p, c, rfl, rfl, hc⟩
    | succ j =>
      simp only [List.getElem?_cons_succ]
      rw [show i + (j + 1) = i + 1 + j by omega]
      exact ih hrest j

theorem length_encryptChunks {i : ℕ} {ps : List Bytes} {recs : List ChunkCiphertext}
    (h : encryptChunks A key i ps = .ok recs) : recs.length = ps.length := by
  induction ps generalizing i recs with
  | nil => obtain rfl := Except.ok.inj h; rfl
  | cons p ps ih =>
    obtain ⟨c, rest, rfl, -, hrest⟩ := encryptChunks_cons_eq_ok.mp h
    rw [List.length_cons, ih hrest, List.length_cons]

theorem exists_encryptChunks (hA : A.Inverts {m | m.length ≤ chunkSize}) {ps : List Bytes}
    (h : ∀ p ∈ ps, p.length ≤ chunkSize) (i : ℕ) :
    ∃ recs, encryptChunks A key i ps = .ok recs := by
  induction ps generalizing i with
  | nil => exact ⟨[], rfl⟩
  | cons p ps ih =>
    have hp := h p List.mem_cons_self
    obtain ⟨ciphertext, hct, -⟩ := hA key.bytes (chunkNonce (.ofNat i)) p hp
    have hchunk := encryptChunk_eq_ok.mpr ⟨hp, ciphertext, hct, rfl⟩
    obtain ⟨rest, hrest⟩ := ih (fun p' hp' => h p' (List.mem_cons_of_mem p hp')) (i + 1)
    exact ⟨_, encryptChunks_cons_eq_ok.mpr ⟨_, rest, rfl, hchunk, hrest⟩⟩

theorem ofNat_inj_of_lt {i j : ℕ} (hi : i < 2 ^ 64) (hj : j < 2 ^ 64)
    (h : UInt64.ofNat i = UInt64.ofNat j) : i = j := by
  have := congrArg UInt64.toNat h
  rwa [UInt64.toNat_ofNat_of_lt' hi, UInt64.toNat_ofNat_of_lt' hj] at this

end FreeBox.Crypto
