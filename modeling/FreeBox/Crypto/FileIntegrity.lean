import FreeBox.Crypto.Encryption

/-!
# What the records of a file guarantee

The module documentation of `encryption.rs` promises that a changed order of
the chunks and a missing end of the file are detected. Both are settled here for
an ideal cipher.

Results:
* `decryptChunk_bound_iff`: a record that opens at position `i` is the chunk `i`,
  unless it carries the nonce and the ciphertext of another chunk under the
  index `i`. `decrypt_chunk` does not compare the nonce with the index.
* `decryptFile_detects_iff`: a list of records of one file is rejected or
  decrypts to the file, unless it is a proper prefix of the records.
* `decryptFile_encryptChunks`: decryption returns what was encrypted.
-/

namespace FreeBox.Crypto

open FreeBox.Lib

variable {A : Aes256Gcm} {key : FileKey}

/-- The record `c`, accepted at position `i`, holds the piece `i`. -/
def BoundAt (A : Aes256Gcm) (key : FileKey) (pieces : List Bytes) (i : UInt64)
    (c : ChunkCiphertext) : Prop :=
  ∀ q, decryptChunk A key i c = .ok q → pieces[i.toNat]? = some q

/-- `c` is a genuine record of another piece with its index field set to `i`. -/
def Relabelled (pieces : List Bytes) (recs : List ChunkCiphertext) (i : UInt64)
    (c : ChunkCiphertext) : Prop :=
  c.index = i ∧ ∃ (j : ℕ) (p : Bytes) (r : ChunkCiphertext), pieces[j]? = some p ∧ recs[j]? = some r ∧
    c.nonce = r.nonce ∧ c.ciphertext = r.ciphertext ∧ pieces[i.toNat]? ≠ some p

/-! ## Genuine records -/

section Genuine

variable {pieces : List Bytes} {recs : List ChunkCiphertext}

/-- A genuine record, at its place in the file, opens to the piece it was made
    from, and its index field is that place. -/
theorem genuine_getElem? (hopens : A.Opens key.bytes {x | x ∈ encryptCalls pieces})
    (henc : encryptChunks A key 0 pieces = .ok recs) {j : ℕ} {r : ChunkCiphertext}
    (hr : recs[j]? = some r) : ∃ p, pieces[j]? = some p ∧ r.index = .ofNat j ∧
      r.nonce = (chunkNonce (.ofNat j)).toList ∧
      A.encrypt key.bytes (chunkNonce (.ofNat j)) p = some r.ciphertext ∧
      decryptChunk A key (.ofNat j) r = .ok p := by
  rcases encryptChunks_getElem? henc j with ⟨-, hnone⟩ | ⟨p, c, hp, hc, hok⟩
  · rw [hnone] at hr; cases hr
  · obtain rfl := Option.some.inj (hc.symm.trans hr)
    rw [Nat.zero_add] at hok
    obtain ⟨-, ct, hct, rfl⟩ := encryptChunk_eq_ok.mp hok
    have hopen := hopens _ _ _ (mem_encryptCalls.mpr ⟨j, hp, rfl⟩) hct
    exact ⟨p, hp, rfl, rfl, hct, decryptChunk_eq_ok.mpr ⟨rfl, _, rfl, hopen⟩⟩

/-- Under an ideal cipher, whatever opens is a genuine nonce and ciphertext. -/
theorem genuine_of_decryptChunk (hideal : A.Ideal key.bytes {x | x ∈ encryptCalls pieces})
    (henc : encryptChunks A key 0 pieces = .ok recs) {i : UInt64} {c : ChunkCiphertext}
    {q : Bytes} (h : decryptChunk A key i c = .ok q) : c.index = i ∧ ∃ (j : ℕ) (r : ChunkCiphertext),
      pieces[j]? = some q ∧ recs[j]? = some r ∧ c.nonce = r.nonce ∧
        c.ciphertext = r.ciphertext := by
  obtain ⟨hi, v, hv, hdec⟩ := decryptChunk_eq_ok.mp h
  obtain ⟨hmem, hct⟩ := (hideal v _ q).mp hdec
  obtain ⟨j, hq, rfl⟩ := mem_encryptCalls.mp hmem
  rcases encryptChunks_getElem? henc j with ⟨hnone, -⟩ | ⟨p, r, hp, hr, hok⟩
  · rw [hnone] at hq; cases hq
  · obtain rfl := Option.some.inj (hp.symm.trans hq)
    rw [Nat.zero_add] at hok
    obtain ⟨-, ct, hct', rfl⟩ := encryptChunk_eq_ok.mp hok
    exact ⟨hi, j, _, hp, hr, hv.symm, Option.some.inj (hct.symm.trans hct')⟩

theorem boundAt_iff (hideal : A.Ideal key.bytes {x | x ∈ encryptCalls pieces})
    (henc : encryptChunks A key 0 pieces = .ok recs) (i : UInt64) (c : ChunkCiphertext) :
    BoundAt A key pieces i c ↔ ¬ Relabelled pieces recs i c := by
  constructor
  · rintro hbound ⟨rfl, j, p, r, hp, hr, hnonce, hct, hne⟩
    obtain ⟨p', hp', -, hn, -, hopen⟩ := genuine_getElem? hideal.opens henc hr
    obtain rfl := Option.some.inj (hp.symm.trans hp')
    -- the relabelled record opens because the cipher sees the nonce of chunk `j`
    obtain ⟨-, v, hv, hdec⟩ := decryptChunk_eq_ok.mp hopen
    rw [← hct] at hdec
    exact hne (hbound p (decryptChunk_of_decrypt (hnonce.trans hv.symm) hdec))
  · intro hrel q hq
    obtain ⟨hi, j, r, hp, hr, hnonce, hct⟩ := genuine_of_decryptChunk hideal henc hq
    by_contra hne
    exact hrel ⟨hi, j, q, r, hp, hr, hnonce, hct, hne⟩

/-- If each record is bound to its position, what `decrypt_file` returns are
    pieces of the file in their order. -/
theorem decryptChunks_of_boundAt {cs : List ChunkCiphertext} {i : ℕ} {q : Bytes}
    (hlen : i + cs.length ≤ 2 ^ 64)
    (hbound : ∀ k c, cs[k]? = some c → BoundAt A key pieces (.ofNat (i + k)) c)
    (h : decryptChunks A key i cs = .ok q) :
    i + cs.length ≤ max i pieces.length ∧ q = ((pieces.drop i).take cs.length).flatten := by
  induction cs generalizing i q with
  | nil => obtain rfl := Except.ok.inj h; simp
  | cons c cs ih =>
    obtain ⟨q₁, q₂, rfl, h₁, h₂⟩ := decryptChunks_cons_eq_ok.mp h
    rw [List.length_cons] at hlen ⊢
    have hp : pieces[i]? = some q₁ := by
      have := hbound 0 c rfl q₁ h₁
      rwa [Nat.add_zero, UInt64.toNat_ofNat_of_lt' (lt_of_lt_of_le (by omega) hlen)] at this
    obtain ⟨hi, hget⟩ := List.getElem?_eq_some_iff.mp hp
    obtain ⟨hle, rfl⟩ := ih (by omega) (fun k c hc => by
      rw [show i + 1 + k = i + (k + 1) by omega]
      exact hbound (k + 1) c hc) h₂
    refine ⟨by omega, ?_⟩
    rw [List.drop_eq_getElem_cons hi, List.take_succ_cons, List.flatten_cons, hget]

end Genuine

/-- Index binding. A record that opens at position `i` holds the piece `i` if and
    only if it is not a relabelled record of another piece; and if no record of a
    list is relabelled, `decrypt_file` returns the pieces in their order. -/
theorem decryptChunk_bound_iff (A : Aes256Gcm) (key : FileKey) (pieces : List Bytes)
    (recs : List ChunkCiphertext)
    (hideal : A.Ideal key.bytes {x | x ∈ encryptCalls pieces})
    (henc : encryptChunks A key 0 pieces = .ok recs) :
    (∀ i c, BoundAt A key pieces i c ↔ ¬ Relabelled pieces recs i c) ∧
      ∀ cs q, cs.length ≤ 2 ^ 64 → (∀ k c, cs[k]? = some c →
          ¬ Relabelled pieces recs (.ofNat k) c) → decryptFile A key cs = .ok q →
        cs.length ≤ pieces.length ∧ q = (pieces.take cs.length).flatten := by
  refine ⟨boundAt_iff hideal henc, fun cs q hlen hrel h => ?_⟩
  have hbound : ∀ k c, cs[k]? = some c → BoundAt A key pieces (.ofNat (0 + k)) c := by
    intro k c hc
    rw [Nat.zero_add]
    exact (boundAt_iff hideal henc _ c).mpr (hrel k c hc)
  have := decryptChunks_of_boundAt (by omega) hbound h
  simpa using this

/-! ### Two pieces that change places -/

/-- A cipher for concrete runs: the message and a tag of sixteen bytes. -/
def runTag (key : Vector UInt8 32) (v : Nonce) : Bytes := v.toList ++ key.toList.take 4

/-- The ideal cipher under which `pieces` have been encrypted. -/
def runCipher (pieces : List Bytes) : Aes256Gcm :=
  Aead.oracle (Aead.tagged runTag).encrypt (encryptCalls pieces)

theorem runCipher_ideal (pieces : List Bytes) (k : Vector UInt8 32) :
    (runCipher pieces).Ideal k {x | x ∈ encryptCalls pieces} :=
  Aead.oracle_ideal _ k fun _ _ _ _ => Aead.tagged_inj

def runKey : FileKey := ⟨Vector.replicate 32 7⟩

/-- The record of the one-byte piece `b` at index `i < 256`, with the index field `label`. -/
def runRecord (label : UInt64) (i b : UInt8) : ChunkCiphertext where
  index := label
  nonce := [0, 0, 0, 0, 0, 0, 0, 0, 0, 0, 0, i]
  ciphertext := [b, 0, 0, 0, 0, 0, 0, 0, 0, 0, 0, 0, i, 7, 7, 7, 7]

theorem decryptChunk_bound_iff_two : BoundAt (runCipher [[1], [2]]) runKey [[1], [2]] 1
    (runRecord 1 0 1) ↔ ¬ Relabelled [[1], [2]] [runRecord 0 0 1, runRecord 1 1 2] 1
      (runRecord 1 0 1) :=
  (decryptChunk_bound_iff (runCipher [[1], [2]]) runKey [[1], [2]] _ (runCipher_ideal _ _)
    rfl).1 _ _

/-- The records of `[1]` and `[2]`, exchanged and with their index fields set to
    their new places, decrypt to `[2, 1]`. -/
theorem decryptChunk_swapped :
    (runCipher [[1], [2]]).Ideal runKey.bytes {x | x ∈ encryptCalls [[1], [2]]} ∧
      encryptChunks (runCipher [[1], [2]]) runKey 0 [[1], [2]] =
        .ok [runRecord 0 0 1, runRecord 1 1 2] ∧
      ¬ BoundAt (runCipher [[1], [2]]) runKey [[1], [2]] 1 (runRecord 1 0 1) ∧
      decryptFile (runCipher [[1], [2]]) runKey [runRecord 0 1 2, runRecord 1 0 1] =
        .ok [2, 1] := by
  refine ⟨runCipher_ideal _ _, rfl, fun h => ?_, rfl⟩
  have := h [1] rfl
  revert this
  decide

/-! ## Truncation -/

section Truncation

variable {pieces : List Bytes} {recs : List ChunkCiphertext}

/-- Decrypting records of one file from position `i` on: they are the next
    records of the file and give the next pieces, or the call fails. -/
theorem decryptChunks_genuine (hopens : A.Opens key.bytes {x | x ∈ encryptCalls pieces})
    (henc : encryptChunks A key 0 pieces = .ok recs) (hlen : pieces.length < 2 ^ 64)
    {cs : List ChunkCiphertext} (hcs : ∀ c ∈ cs, c ∈ recs) {i : ℕ} (hi : i ≤ recs.length) :
    (cs <+: recs.drop i ∧
        decryptChunks A key i cs = .ok ((pieces.drop i).take cs.length).flatten) ∨
      (¬ cs <+: recs.drop i ∧ ∃ e, decryptChunks A key i cs = .error e) := by
  have hrlen := length_encryptChunks henc
  induction cs generalizing i with
  | nil => exact .inl ⟨List.nil_prefix, rfl⟩
  | cons c cs ih =>
    obtain ⟨j, hj⟩ := List.mem_iff_getElem?.mp (hcs c (List.mem_cons_self))
    obtain ⟨hjlt, -⟩ := List.getElem?_eq_some_iff.mp hj
    obtain ⟨p, hp, hindex, -, -, hopen⟩ := genuine_getElem? hopens henc hj
    by_cases hij : i = j
    · subst hij
      obtain ⟨_, hc⟩ := List.getElem?_eq_some_iff.mp hj
      obtain ⟨hpi, hpc⟩ := List.getElem?_eq_some_iff.mp hp
      have hdrop : recs.drop i = c :: recs.drop (i + 1) := by
        rw [List.drop_eq_getElem_cons hjlt, hc]
      have hdropp : pieces.drop i = p :: pieces.drop (i + 1) := by
        rw [List.drop_eq_getElem_cons hpi, hpc]
      rw [hdrop, hdropp, List.prefix_cons_inj, decryptChunks, hopen]
      rcases ih (fun c hc => hcs c (List.mem_cons_of_mem _ hc)) hjlt with
        ⟨hpre, hok⟩ | ⟨hpre, e, he⟩
      · exact .inl ⟨hpre, by rw [hok]; rfl⟩
      · exact .inr ⟨hpre, e, by rw [he]; rfl⟩
    · -- the record stands at a place that its index field does not name
      have hne : c.index ≠ .ofNat i := by
        rw [hindex]
        intro h
        exact hij (ofNat_inj_of_lt (by omega) (by omega) h).symm
      refine .inr ⟨fun hpre => ?_, ?_⟩
      · obtain ⟨t, ht⟩ := hpre
        have hci : recs[i]? = some c := by
          rw [← Nat.add_zero i, ← List.getElem?_drop, ← ht]
          rfl
        obtain ⟨-, -, hindex', -⟩ := genuine_getElem? hopens henc hci
        exact hne hindex'
      · rw [decryptChunks, decryptChunk, if_pos hne]
        exact ⟨_, rfl⟩

/-- Without its last pieces a file is another file. -/
theorem flatten_take_ne {ps : List Bytes} (hne : ∀ p ∈ ps, p ≠ []) {k : ℕ} (hk : k < ps.length) :
    (ps.take k).flatten ≠ ps.flatten := by
  intro h
  have hsplit : ps.flatten = (ps.take k).flatten ++ (ps.drop k).flatten := by
    rw [← List.flatten_append, List.take_append_drop]
  rw [hsplit, List.self_eq_append_right, List.drop_eq_getElem_cons hk, List.flatten_cons,
    List.append_eq_nil_iff] at h
  exact hne _ (List.getElem_mem hk) h.1

end Truncation

/-- Truncation. A list of records of one file is rejected or decrypts to the
    file if and only if it is not a proper prefix of the list of its records. -/
theorem decryptFile_detects_iff (A : Aes256Gcm) (key : FileKey) (plaintext : Bytes)
    (recs cs : List ChunkCiphertext)
    (hideal : A.Ideal key.bytes {x | x ∈ encryptCalls (chunks chunkSize plaintext)})
    (henc : encryptFile A key plaintext = .ok recs) (hlen : plaintext.length < 2 ^ 64)
    (hcs : ∀ c ∈ cs, c ∈ recs) :
    ((∃ e, decryptFile A key cs = .error e) ∨ decryptFile A key cs = .ok plaintext) ↔
      ¬ (cs <+: recs ∧ cs ≠ recs) := by
  have hpos : 0 < chunkSize := by decide
  have hchunks : (chunks chunkSize plaintext).length < 2 ^ 64 :=
    (length_chunks_le _ _).trans_lt hlen
  have hrlen := length_encryptChunks henc
  have hflat := flatten_chunks hpos plaintext
  rcases decryptChunks_genuine hideal.opens henc hchunks hcs (Nat.zero_le _) with
    ⟨hpre, hok⟩ | ⟨hpre, e, he⟩
  · rw [List.drop_zero] at hpre hok
    rw [decryptFile, hok]
    constructor
    · rintro (⟨e, he⟩ | hp) ⟨-, hne⟩
      · cases he
      · have hlt : cs.length < recs.length :=
          lt_of_le_of_ne hpre.length_le fun h => hne (hpre.eq_of_length h)
        refine flatten_take_ne (fun p hp => ne_nil_of_mem_chunks hpos hp) (hrlen ▸ hlt) ?_
        rw [hflat]
        exact Except.ok.inj hp
    · intro hnot
      have hall : cs = recs := by_contra fun h => hnot ⟨hpre, h⟩
      right
      rw [hall, hrlen, List.take_length, hflat]
  · rw [List.drop_zero] at hpre
    exact ⟨fun _ h => hpre h.1, fun _ => .inl ⟨e, he⟩⟩

/-- A file of one chunk of the largest size and one byte. -/
def twoChunks : Bytes := List.replicate (chunkSize + 1) 0

theorem length_twoChunks : twoChunks.length = chunkSize + 1 := List.length_replicate

theorem length_chunks_twoChunks : (chunks chunkSize twoChunks).length = 2 := by
  have hlow := lt_length_chunks (n := chunkSize) (by decide) (l := twoChunks) (i := 1)
  have hhigh := lt_length_chunks (n := chunkSize) (by decide) (l := twoChunks) (i := 2)
  rw [length_twoChunks] at hlow hhigh
  have hpos : 0 < chunkSize := by decide
  omega

theorem encryptChunks_runCipher (pieces : List Bytes) {i : ℕ} {ps : List Bytes} :
    encryptChunks (runCipher pieces) key i ps = encryptChunks (Aead.tagged runTag) key i ps := by
  induction ps generalizing i with
  | nil => rfl
  | cons p ps ih => rw [encryptChunks, encryptChunks, ih]; rfl

/-- The two records of `twoChunks`. -/
theorem exists_encryptFile_twoChunks : ∃ first second : ChunkCiphertext,
    first ≠ second ∧ encryptFile (runCipher (chunks chunkSize twoChunks)) runKey twoChunks =
      .ok [first, second] := by
  obtain ⟨recs, hrecs⟩ : ∃ recs, encryptChunks (Aead.tagged runTag) runKey 0
      (chunks chunkSize twoChunks) = .ok recs :=
    exists_encryptChunks (Aead.tagged_inverts runTag _) (fun _ hp => length_of_mem_chunks hp) 0
  have hlen := length_encryptChunks hrecs
  rw [length_chunks_twoChunks] at hlen
  obtain ⟨first, second, rfl⟩ := List.length_eq_two.mp hlen
  rw [← encryptChunks_runCipher (chunks chunkSize twoChunks)] at hrecs
  have hopens := (runCipher_ideal (chunks chunkSize twoChunks) runKey.bytes).opens
  obtain ⟨-, -, hfirst, -⟩ := genuine_getElem? hopens hrecs (j := 0) rfl
  obtain ⟨-, -, hsecond, -⟩ := genuine_getElem? hopens hrecs (j := 1) rfl
  refine ⟨first, second, fun h => ?_, hrecs⟩
  rw [h, hsecond] at hfirst
  exact absurd hfirst (by decide)

theorem decryptFile_detects_iff_one : ∃ A : Aes256Gcm, ∃ first second : ChunkCiphertext,
    encryptFile A runKey twoChunks = .ok [first, second] ∧
      ((∃ e, decryptFile A runKey [second, first] = .error e) ∨
        decryptFile A runKey [second, first] = .ok twoChunks) ∧
      ¬ ((∃ e, decryptFile A runKey [first] = .error e) ∨
        decryptFile A runKey [first] = .ok twoChunks) := by
  obtain ⟨first, second, hne, henc⟩ := exists_encryptFile_twoChunks
  have hiff (cs : List ChunkCiphertext) :=
    decryptFile_detects_iff (runCipher (chunks chunkSize twoChunks)) runKey twoChunks
      [first, second] cs (runCipher_ideal _ _) henc (by rw [length_twoChunks]; decide)
  refine ⟨_, first, second, henc, ?_, ?_⟩
  · -- the records exchanged
    refine (hiff [second, first] (by simp [or_comm])).mpr fun ⟨hpre, _⟩ => hne ?_
    exact (List.cons_prefix_cons.mp hpre).1.symm
  · -- the second record missing
    refine mt (hiff [first] (by simp)).mp (not_not_intro ⟨?_, ?_⟩)
    · exact List.prefix_append [first] [second]
    · simp

/-- Without its only record the file `[1]` decrypts to the empty file. -/
theorem decryptFile_truncated :
    (runCipher [[1]]).Ideal runKey.bytes {x | x ∈ encryptCalls (chunks chunkSize [1])} ∧
      encryptFile (runCipher [[1]]) runKey [1] = .ok [runRecord 0 0 1] ∧
      [] <+: [runRecord 0 0 1] ∧ decryptFile (runCipher [[1]]) runKey [] = .ok [] :=
  ⟨runCipher_ideal [[1]] _, rfl, List.nil_prefix, rfl⟩

/-- `decrypt_file` undoes the encryption of successive pieces. -/
theorem decryptFile_encryptChunks {pieces : List Bytes} {recs : List ChunkCiphertext}
    (hopens : A.Opens key.bytes {x | x ∈ encryptCalls pieces})
    (henc : encryptChunks A key 0 pieces = .ok recs) (hlen : pieces.length < 2 ^ 64) :
    decryptFile A key recs = .ok pieces.flatten := by
  rcases decryptChunks_genuine hopens henc hlen (fun c hc => hc) (Nat.zero_le _) with
    ⟨-, hok⟩ | ⟨hpre, -⟩
  · rw [decryptFile, hok, length_encryptChunks henc, List.drop_zero, List.take_length]
  · exact absurd (List.prefix_refl _) hpre

end FreeBox.Crypto
