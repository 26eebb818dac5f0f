import Mathlib.Data.List.Nodup
import FreeBox.Cli.Upload

/-!
# Nonces of one file

Every chunk of a file is encrypted under the one key of the file, so the nonces must differ.
`encrypt_chunk` derives the nonce from the index alone.

Results:
* `chunkNonce_injective`: different indices have different nonces.
* `encryptChunks_congr`: the cipher is given the calls of `encryptCalls` and no others.
* `nonces_encryptCalls_nodup`: their nonces are pairwise different.
* `nonces_unique`: this for `encrypt_file` and `encrypt_plaintext`, with the sizes and the
  number of the chunks.
-/

namespace FreeBox.Crypto

open FreeBox.Lib

variable {A B : Aes256Gcm} {key : FileKey} {pieces : List Bytes} {records : List ChunkCiphertext}

theorem toList_chunkNonce (index : UInt64) :
    (chunkNonce index).toList = List.replicate 4 0 ++ beBytes 8 index.toNat := rfl

theorem chunkNonce_injective : Function.Injective chunkNonce := by
  intro i j h
  have hlist : (chunkNonce i).toList = (chunkNonce j).toList := congrArg Vector.toList h
  rw [toList_chunkNonce, toList_chunkNonce] at hlist
  have hbytes : beBytes 8 i.toNat = beBytes 8 j.toNat := List.append_cancel_left hlist
  have hi : i.toNat < 256 ^ 8 := i.toNat_lt
  have hj : j.toNat < 256 ^ 8 := j.toNat_lt
  exact UInt64.toNat_inj.mp (beBytes_inj hi hj hbytes)

/-! ## The calls of the cipher -/

/-- The calls for pieces from index `i` on. -/
theorem encryptChunks_congr_from {i : ℕ}
    (h : ∀ (j : ℕ) m, pieces[j]? = some m →
      A.encrypt key.bytes (chunkNonce (.ofNat (i + j))) m =
        B.encrypt key.bytes (chunkNonce (.ofNat (i + j))) m) :
    encryptChunks A key i pieces = encryptChunks B key i pieces := by
  induction pieces generalizing i with
  | nil => rfl
  | cons p ps ih =>
    have hhead : encryptChunk A key (.ofNat i) p = encryptChunk B key (.ofNat i) p := by
      unfold encryptChunk
      rw [show A.encrypt key.bytes (chunkNonce (.ofNat i)) p = _ from h 0 p rfl, Nat.add_zero]
    have htail : encryptChunks A key (i + 1) ps = encryptChunks B key (i + 1) ps := by
      apply ih
      intro j m hm
      rw [show i + 1 + j = i + (j + 1) by omega]
      exact h (j + 1) m hm
    rw [encryptChunks, encryptChunks, hhead, htail]

/-- Two ciphers that agree on the calls for the pieces give the same result, so no other call
    is made. -/
theorem encryptChunks_congr
    (h : ∀ v m, (v, m) ∈ encryptCalls pieces → A.encrypt key.bytes v m = B.encrypt key.bytes v m) :
    encryptChunks A key 0 pieces = encryptChunks B key 0 pieces := by
  apply encryptChunks_congr_from
  intro j m hm
  rw [Nat.zero_add]
  exact h _ _ (mem_encryptCalls.mpr ⟨j, hm, rfl⟩)

/-- A slice has fewer than `2^64` elements, so no index is cut off by the cast to `u64`. -/
theorem nonces_encryptCalls_nodup (hlen : pieces.length < 2 ^ 64) :
    ((encryptCalls pieces).map Prod.fst).Nodup := by
  have hnonces : (encryptCalls pieces).map Prod.fst =
      (List.range pieces.length).map fun i => chunkNonce (.ofNat i) := by
    have hsnd : (encryptCalls pieces).map Prod.fst =
        (pieces.zipIdx.map Prod.snd).map fun i => chunkNonce (.ofNat i) := by
      rw [encryptCalls, List.map_map, List.map_map]
      rfl
    rw [hsnd, List.zipIdx_map_snd, List.range_eq_range']
  rw [hnonces]
  apply List.Nodup.map_on _ List.nodup_range
  intro i hi j hj heq
  rw [List.mem_range] at hi hj
  exact ofNat_inj_of_lt (by omega) (by omega) (chunkNonce_injective heq)

theorem map_nonce_encryptChunks (h : encryptChunks A key 0 pieces = .ok records) :
    records.map ChunkCiphertext.nonce = ((encryptCalls pieces).map Prod.fst).map Vector.toList := by
  apply List.ext_getElem?
  intro j
  rw [List.map_map, encryptCalls, List.map_map, List.getElem?_map, List.getElem?_map,
    List.getElem?_zipIdx, Option.map_map]
  rcases encryptChunks_getElem? h j with ⟨hp, hc⟩ | ⟨p, c, hp, hc, hok⟩
  · rw [hp, hc]
    rfl
  · obtain ⟨-, ciphertext, -, rfl⟩ := encryptChunk_eq_ok.mp hok
    rw [hp, hc]
    rfl

theorem encryptChunks_error {i : ℕ} {e : String} (h : ∀ p ∈ pieces, p.length ≤ chunkSize)
    (herror : encryptChunks A key i pieces = .error e) :
    e = "AES-GCM encrypt failed: aead::Error" := by
  induction pieces generalizing i with
  | nil => cases herror
  | cons p ps ih =>
    have hp : ¬ p.length > chunkSize := not_lt.mpr (h p List.mem_cons_self)
    rw [encryptChunks] at herror
    cases hchunk : encryptChunk A key (.ofNat i) p with
    | error e' =>
      rw [hchunk] at herror
      obtain rfl : e' = e := Except.error.inj herror
      rw [encryptChunk, if_neg hp] at hchunk
      split at hchunk
      · exact (Except.error.inj hchunk).symm
      · cases hchunk
    | ok c =>
      rw [hchunk] at herror
      cases hrest : encryptChunks A key (i + 1) ps with
      | error e' =>
        rw [hrest] at herror
        obtain rfl : e' = e := Except.error.inj herror
        exact ih (fun p' hp' => h p' (List.mem_cons_of_mem p hp')) hrest
      | ok rest =>
        rw [hrest] at herror
        cases herror

end FreeBox.Crypto

namespace FreeBox.Cli

open FreeBox.Lib FreeBox.Crypto

/-- The number of chunks is the length divided by the chunk size, rounded up. -/
theorem length_chunks (plaintext : Bytes) :
    (chunks chunkSize plaintext).length = (plaintext.length + (chunkSize - 1)) / chunkSize := by
  have hpos : 0 < chunkSize := by decide
  apply le_antisymm
  · by_contra hlt
    have hlast := (lt_length_chunks hpos).mp (not_le.mp hlt)
    have hdiv := Nat.lt_mul_div_succ (plaintext.length + (chunkSize - 1)) hpos
    rw [mul_add, mul_comm, mul_one] at hdiv
    omega
  · by_contra hlt
    have hend : ¬ (chunks chunkSize plaintext).length * chunkSize < plaintext.length :=
      fun h => lt_irrefl _ ((lt_length_chunks hpos).mpr h)
    have hle := (Nat.le_div_iff_mul_le hpos).mp (Nat.succ_le_of_lt (not_le.mp hlt))
    rw [Nat.succ_mul] at hle
    omega

/-- What holds of the nonces and of the errors when `pieces` are encrypted from index 0 on. -/
structure NoncesOk (A : Aes256Gcm) (key : FileKey) (pieces : List Bytes)
    (result : Except String (List ChunkCiphertext)) : Prop where
  sizes : ∀ piece ∈ pieces, piece.length ≤ chunkSize
  /-- The cipher is given these nonces and no others. -/
  calls : ∀ B : Aes256Gcm, (∀ v m, (v, m) ∈ encryptCalls pieces →
    A.encrypt key.bytes v m = B.encrypt key.bytes v m) → result = encryptChunks B key 0 pieces
  distinct : ((encryptCalls pieces).map Prod.fst).Nodup
  records : ∀ records, result = .ok records →
    (records.map ChunkCiphertext.nonce).Nodup ∧ (∀ c ∈ records, c.nonce.length = 12) ∧
      records.length = pieces.length
  /-- Only the cipher can fail. -/
  errors : ∀ e, result = .error e → e = "AES-GCM encrypt failed: aead::Error"

theorem noncesOk (A : Aes256Gcm) (key : FileKey) {pieces : List Bytes}
    (hsizes : ∀ piece ∈ pieces, piece.length ≤ chunkSize) (hlen : pieces.length < 2 ^ 64) :
    NoncesOk A key pieces (encryptChunks A key 0 pieces) where
  sizes := hsizes
  calls _ h := encryptChunks_congr h
  distinct := nonces_encryptCalls_nodup hlen
  records records h := by
    have hnonces := map_nonce_encryptChunks h
    refine ⟨?_, fun c hc => ?_, length_encryptChunks h⟩
    · rw [hnonces]
      exact List.Nodup.map (fun _ _ => Vector.toList_inj.mp) (nonces_encryptCalls_nodup hlen)
    · have hmem : c.nonce ∈ records.map ChunkCiphertext.nonce := List.mem_map_of_mem hc
      rw [hnonces] at hmem
      obtain ⟨v, -, hv⟩ := List.mem_map.mp hmem
      rw [← hv]
      exact v.length_toList
  errors _ h := encryptChunks_error hsizes h

/-- For every plaintext, whose length is a `usize`, and every cipher. -/
theorem nonces_unique (A : Aes256Gcm) (key : FileKey) (plaintext : Bytes)
    (hlen : plaintext.length < 2 ^ 64) :
    Function.Injective chunkNonce ∧
      NoncesOk A key (chunks chunkSize plaintext) (encryptFile A key plaintext) ∧
      NoncesOk A key (uploadPieces plaintext) (encryptPlaintext A key plaintext) ∧
      (chunks chunkSize plaintext).length =
        (plaintext.length + (chunkSize - 1)) / chunkSize := by
  have hpieces : (chunks chunkSize plaintext).length < 2 ^ 64 :=
    lt_of_le_of_lt (length_chunks_le chunkSize plaintext) hlen
  refine ⟨chunkNonce_injective, ?_, ?_, length_chunks plaintext⟩
  · exact noncesOk A key (fun _ hp => length_of_mem_chunks hp) hpieces
  · rw [encryptPlaintext_eq]
    refine noncesOk A key (fun _ hp => length_of_mem_uploadPieces hp) ?_
    unfold uploadPieces
    split_ifs with hnil
    · norm_num
    · exact hpieces

/-- A file of two chunks. -/
theorem nonces_unique_one : twoChunks.length < 2 ^ 64 ∧ ∃ first second : ChunkCiphertext,
    encryptFile (Aead.tagged runTag) runKey twoChunks = .ok [first, second] ∧
      first.nonce ≠ second.nonce := by
  have hlt : twoChunks.length < 2 ^ 64 := by rw [length_twoChunks]; decide
  obtain ⟨-, hfile, -, -⟩ := nonces_unique (Aead.tagged runTag) runKey twoChunks hlt
  obtain ⟨records, hrecords⟩ : ∃ records,
      encryptFile (Aead.tagged runTag) runKey twoChunks = .ok records :=
    exists_encryptChunks (Aead.tagged_inverts runTag _) hfile.sizes 0
  obtain ⟨hnodup, -, hcount⟩ := hfile.records records hrecords
  rw [length_chunks_twoChunks] at hcount
  obtain ⟨first, second, rfl⟩ := List.length_eq_two.mp hcount
  exact ⟨hlt, first, second, hrecords, by simpa using hnodup⟩

end FreeBox.Cli
