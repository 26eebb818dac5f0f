import FreeBox.Cli.Transfer
import FreeBox.Web.Upload

/-!
# The web client and the command line client

Both clients split a file in the same pieces, give each piece the same nonce and write
the same bodies, so each of them reads what the other one has uploaded. The cipher of
`crypto.subtle` is assumed to be the one that the command line client uses.

Results:
* `buildNonce_eq_chunkNonce`, `totalChunks_eq`, `slice_eq`: nonces, number of chunks and
  pieces agree.
* `chunkBody_eq`: so do the bodies.
* `upload_requests`: the requests of a completed upload, in terms of the records of the
  command line client.
* `clients_interoperate`: each client reads the uploads of the other one.
* `chunk_bodies_accepted`: the server takes every body of either client.
-/

namespace FreeBox.Web

open FreeBox.Lib FreeBox.Lib.Ecma FreeBox.Lib.Double
open FreeBox.Crypto (Aes256Gcm FileKey ChunkCiphertext chunkNonce encryptChunks)
open FreeBox.Cli (encryptPlaintext uploadPieces)

/-- The two implementations of AES-GCM agree on nonces of 12 bytes. -/
structure SameCipher (A : Aes256Gcm) (W : SubtleAesGcm) : Prop where
  encrypt : ∀ k v m, W.encrypt k v.toList m = A.encrypt k v m
  decrypt : ∀ k v c, W.decrypt k v.toList c = A.decrypt k v c

/-- `bodies` are answers of the server to the requests for the chunks of `upload`: each is
    a body that was sent under the index of the chunk. -/
structure Upload.AnsweredWith (upload : Upload) (bodies : List Bytes) : Prop where
  total : upload.init.totalChunks = bodies.length
  sent : ∀ (i : ℕ) b, bodies[i]? = some b →
    ∃ r ∈ upload.requests, r.header = indexHeader i ∧ r.body = b

/-- What `files.getMeta` returns for an upload of the command line client. -/
def fileMeta (u : Cli.PreparedUpload) : FileMeta where
  totalChunks := u.totalChunks.toNat
  encryptedKeyEnvelope := u.encryptedKeyEnvelope
  encryptedName := u.encryptedName

/-! ## Nonces and pieces -/

theorem buildNonce_eq_chunkNonce {index : ℕ} (h : index < 2 ^ 53) :
    buildNonce index = (chunkNonce (.ofNat index)).toList := by
  have hindex : (UInt64.ofNat index).toNat = index :=
    UInt64.toNat_ofNat_of_lt' (by rw [UInt64.size]; omega)
  have hnonce : ∀ x : UInt64, (chunkNonce x).toList = List.replicate 4 0 ++ beBytes 8 x.toNat :=
    fun _ => rfl
  rw [hnonce, hindex, buildNonce_natCast h]

theorem chunkSize_eq : chunkSize = 2 ^ 22 := by
  norm_num [chunkSize]

theorem getElem?_uploadPieces {plaintext : Bytes} {i : ℕ}
    (h : i < (uploadPieces plaintext).length) :
    (uploadPieces plaintext)[i]? = some ((plaintext.drop (i * 2 ^ 22)).take (2 ^ 22)) := by
  unfold Cli.uploadPieces at h ⊢
  split_ifs at h ⊢ with hnil
  · obtain rfl : i = 0 := Nat.lt_one_iff.mp h
    rw [hnil]
    rfl
  · have hlt := (lt_length_chunks (by decide)).mp h
    rw [chunks_getElem? (by decide), if_pos hlt]
    rfl

/-- The pieces before the last one are full. -/
theorem mul_lt_of_lt_pieces {plaintext : Bytes} {i : ℕ} (h : i < (uploadPieces plaintext).length) :
    i * 2 ^ 22 ≤ plaintext.length := by
  unfold Cli.uploadPieces at h
  split_ifs at h with hnil
  · obtain rfl : i = 0 := Nat.lt_one_iff.mp h
    exact Nat.zero_le _
  · exact ((lt_length_chunks (by decide)).mp h).le

theorem slice_eq {plaintext : Bytes} {i : ℕ} (hsize : plaintext.length < 2 ^ 53)
    (h : i < (uploadPieces plaintext).length) :
    slice plaintext (fl (i * chunkSize))
      (min (fl (fl (i * chunkSize) + chunkSize)) (fl plaintext.length)) =
        (plaintext.drop (i * 2 ^ 22)).take (2 ^ 22) := by
  have hi : i < 2 ^ 31 := by
    have := mul_lt_of_lt_pieces h
    omega
  have hstart : fl ((i : ℚ) * chunkSize) = (i * 2 ^ 22 : ℕ) := by
    rw [chunkSize_eq, fl_mul_two_pow (by omega)]
    norm_cast
  have hstop : fl (((i * 2 ^ 22 : ℕ) : ℚ) + chunkSize) = ((i + 1) * 2 ^ 22 : ℕ) := by
    have hsum : ((i * 2 ^ 22 : ℕ) : ℚ) + chunkSize = ((i + 1 : ℕ) : ℚ) * 2 ^ 22 := by
      rw [chunkSize_eq]
      push_cast
      ring
    rw [hsum, fl_mul_two_pow (by omega)]
    norm_cast
  rw [hstart, hstop, fl_natCast hsize, ← Nat.cast_min, slice, roundEven_natCast, roundEven_natCast,
    Int.toNat_natCast, Int.toNat_natCast, ← List.take_take, List.take_length, List.drop_take,
    Nat.succ_mul, Nat.add_sub_cancel_left]

/-! ## The number of chunks -/

theorem pieces_bounds (plaintext : Bytes) :
    1 ≤ (uploadPieces plaintext).length ∧
      ((uploadPieces plaintext).length = 1 ∨
        ((uploadPieces plaintext).length - 1) * 2 ^ 22 < plaintext.length) ∧
      plaintext.length ≤ (uploadPieces plaintext).length * 2 ^ 22 := by
  have hpos := List.length_pos_iff.mpr (Cli.uploadPieces_ne_nil plaintext)
  refine ⟨hpos, ?_, ?_⟩
  · by_cases hnil : plaintext = []
    · exact .inl (by rw [hnil]; rfl)
    · have hlast : (uploadPieces plaintext).length - 1 < (uploadPieces plaintext).length := by omega
      unfold Cli.uploadPieces at hlast ⊢
      rw [if_neg hnil] at hlast ⊢
      exact .inr ((lt_length_chunks (by decide)).mp hlast)
  · have hle := Cli.length_le_uploadPieces plaintext
    rwa [mul_comm] at hle

/-- The empty file is one chunk for both clients. -/
theorem totalChunks_eq {plaintext : Bytes} (hsize : plaintext.length < 2 ^ 53) :
    totalChunks (fl plaintext.length) = (uploadPieces plaintext).length := by
  obtain ⟨hpos, hlow, hhigh⟩ := pieces_bounds plaintext
  have hquot : fl (fl plaintext.length / chunkSize) = (plaintext.length : ℚ) / 2 ^ 22 := by
    rw [fl_natCast hsize, chunkSize_eq, fl_div_two_pow hsize (by norm_num)]
  rw [totalChunks, hquot]
  have hle : ⌈(plaintext.length : ℚ) / 2 ^ 22⌉ ≤ (uploadPieces plaintext).length := by
    rw [Int.ceil_le, div_le_iff₀ (by norm_num)]
    exact_mod_cast hhigh
  rcases hlow with hone | hlow
  · rw [hone] at hle ⊢
    exact max_eq_left (by exact_mod_cast hle)
  · have hlt : (uploadPieces plaintext).length - 1 < ⌈(plaintext.length : ℚ) / 2 ^ 22⌉ := by
      rw [Int.lt_ceil, lt_div_iff₀ (by norm_num)]
      have hcast : (((uploadPieces plaintext).length - 1 : ℕ) : ℚ) * 2 ^ 22 < plaintext.length := by
        exact_mod_cast hlow
      rw [Nat.cast_sub hpos] at hcast
      exact_mod_cast hcast
    have heq : ⌈(plaintext.length : ℚ) / 2 ^ 22⌉ = (uploadPieces plaintext).length := by omega
    rw [heq, Int.cast_natCast]
    exact max_eq_right (by exact_mod_cast hpos)

/-! ## The bodies -/

section Clients

variable {A : Aes256Gcm} {W : SubtleAesGcm} {key : FileKey} {plaintext : Bytes}
  {records : List ChunkCiphertext}

/-- What the record at a place says about the piece at that place. -/
theorem record_eq (h : encryptPlaintext A key plaintext = .ok records)
    (hsize : plaintext.length < 2 ^ 53) {i : ℕ} {c : ChunkCiphertext} (hc : records[i]? = some c) :
    i < 2 ^ 31 + 1 ∧ i < (uploadPieces plaintext).length ∧ ∃ piece ciphertext,
      (uploadPieces plaintext)[i]? = some piece ∧
      A.encrypt key.bytes (chunkNonce (.ofNat i)) piece = some ciphertext ∧
      c = { index := .ofNat i, nonce := (chunkNonce (.ofNat i)).toList, ciphertext } := by
  rw [Cli.encryptPlaintext_eq] at h
  rcases Crypto.encryptChunks_getElem? h i with ⟨-, hnone⟩ | ⟨piece, c', hpiece, hc', henc⟩
  · rw [hc] at hnone
    cases hnone
  · rw [hc] at hc'
    obtain rfl := Option.some.inj hc'
    rw [Nat.zero_add] at henc
    obtain ⟨-, ciphertext, henc, hrecord⟩ := Crypto.encryptChunk_eq_ok.mp henc
    have hlt : i < (uploadPieces plaintext).length := (List.getElem?_eq_some_iff.mp hpiece).1
    have hle := mul_lt_of_lt_pieces hlt
    exact ⟨by omega, hlt, piece, ciphertext, hpiece, henc, hrecord⟩

/-- The web client's body for an index is the record at that place. -/
theorem chunkBody_eq (hsame : SameCipher A W) (h : encryptPlaintext A key plaintext = .ok records)
    (hsize : plaintext.length < 2 ^ 53) {i : ℕ} {c : ChunkCiphertext} (hc : records[i]? = some c) :
    chunkBody W key.bytes plaintext i = .ok c.toVec := by
  obtain ⟨hi, hlt, piece, ciphertext, hpiece, henc, rfl⟩ := record_eq h hsize hc
  have hnonce := buildNonce_eq_chunkNonce (show i < 2 ^ 53 by omega)
  have hslice : (plaintext.drop (i * 2 ^ 22)).take (2 ^ 22) = piece := by
    rw [getElem?_uploadPieces hlt] at hpiece
    exact Option.some.inj hpiece
  have hbuffer : arrayBuffer piece = .ok piece := by
    rw [← hslice, arrayBuffer, if_pos]
    rw [List.length_take, List.length_drop, maxByteLength]
    omega
  have henc : W.encrypt key.bytes (buildNonce i) piece = some ciphertext := by
    rw [hnonce, hsame.encrypt, henc]
  have hbody := encryptChunk_natCast (show i < 2 ^ 53 by omega) henc
  rw [chunkBody, slice_eq hsize hlt, hslice, hbuffer, ← hnonce]
  exact hbody

/-! ## Uploads of the web client -/

theorem length_records (h : encryptPlaintext A key plaintext = .ok records) :
    records.length = (uploadPieces plaintext).length := by
  rw [Cli.encryptPlaintext_eq] at h
  exact Crypto.length_encryptChunks h

theorem indexHeader_natCast {i : ℕ} (h : i < 2 ^ 53) :
    indexHeader i = Json.toAscii (Json.number i) := by
  rw [indexHeader, numberText_natCast h, textEncode_ascii fun _ h => Json.ascii_number h]

theorem indexHeader_inj {i j : ℕ} (hi : i < 2 ^ 53) (hj : j < 2 ^ 53)
    (h : indexHeader i = indexHeader j) : i = j := by
  rw [indexHeader_natCast hi, indexHeader_natCast hj] at h
  have hdigits := congrArg Json.ofAscii h
  rw [Json.ofAscii_toAscii fun _ h => Json.ascii_number h,
    Json.ofAscii_toAscii fun _ h => Json.ascii_number h] at hdigits
  have hvalue := congrArg (fun ds => Nat.ofDigitChars 10 ds 0) hdigits
  simpa only [Json.number, Nat.ofDigitChars_ten_toDigits] using hvalue

variable {sha256 : Bytes → Bytes} {name : String} {upload : Upload}

/-- The totals that `uploadFile` computes, and the bodies of all its chunks. -/
theorem bodies_ok (hsame : SameCipher A W) (h : encryptPlaintext A key plaintext = .ok records)
    (hsize : plaintext.length < 2 ^ 53) :
    totalChunks (fl plaintext.length) = (records.length : ℕ) ∧ 0 < records.length ∧
      records.length < 2 ^ 53 ∧
      ∀ i < records.length, ∃ c, records[i]? = some c ∧
        chunkBody W key.bytes plaintext i = .ok c.toVec := by
  obtain ⟨hpos, hlow, -⟩ := pieces_bounds plaintext
  rw [totalChunks_eq hsize, length_records h]
  refine ⟨rfl, hpos, by omega, fun i hi => ?_⟩
  rw [← length_records h] at hi
  exact ⟨records[i], List.getElem?_eq_getElem hi,
    chunkBody_eq hsame h hsize (List.getElem?_eq_getElem hi)⟩

theorem exists_upload (hsame : SameCipher A W) (h : encryptPlaintext A key plaintext = .ok records)
    (hsize : plaintext.length < 2 ^ 53) (sha256 : Bytes → Bytes) (name : String) :
    ∃ upload, Uploads W sha256 key.bytes { name, content := plaintext } upload := by
  obtain ⟨htotal, hpos, hlt, hbodies⟩ := bodies_ok hsame h hsize
  have hsome : ∀ i < records.length,
      ∃ ciphertext, chunkBody W key.bytes plaintext i = .ok ciphertext := by
    intro i hi
    obtain ⟨c, -, hc⟩ := hbodies i hi
    exact ⟨_, hc⟩
  obtain ⟨labels, s, hrun, hs⟩ := Pool.exists_completed hpos hlt hsome
  rw [← htotal] at hrun
  have hbuffer : arrayBuffer plaintext = .ok plaintext :=
    if_pos (by rw [maxByteLength]; omega)
  have hctx : ∃ ctx, prepareUpload sha256 key.bytes { name, content := plaintext } = .ok ctx := by
    rw [prepareUpload, hbuffer]
    exact ⟨_, rfl⟩
  obtain ⟨ctx, hctx⟩ := hctx
  exact ⟨_, ctx, labels, s, hctx, hrun, hs, rfl⟩

/-- A completed upload has the number of chunks of the command line client and the same
    bodies under the same indices. -/
theorem upload_requests (hsame : SameCipher A W)
    (h : encryptPlaintext A key plaintext = .ok records) (hsize : plaintext.length < 2 ^ 53)
    (hup : Uploads W sha256 key.bytes { name, content := plaintext } upload) :
    upload.init.totalChunks = records.length ∧
      upload.init.encryptedKeyEnvelope = Cli.standardEncode key.bytes.toList ∧
      (∀ (i : ℕ) c, records[i]? = some c →
        ∃ r ∈ upload.requests, r.header = indexHeader i ∧ r.body = c.toVec) ∧
      ∀ r ∈ upload.requests, ∃ (i : ℕ) (c : _),
        records[i]? = some c ∧ r.header = indexHeader i ∧ r.body = c.toVec := by
  obtain ⟨htotal, hpos, hlt, hbodies⟩ := bodies_ok hsame h hsize
  obtain ⟨ctx, labels, s, hctx, hrun, hs, rfl⟩ := hup
  rw [htotal] at hrun
  obtain ⟨hsent, hrequest⟩ := Pool.completed_requests hpos hlt hrun hs
  have hbody : ∀ (i : ℕ) r, IsRequest (chunkBody W key.bytes plaintext) i r → ∀ c,
      records[i]? = some c → r.header = indexHeader i ∧ r.body = c.toVec := by
    rintro i r ⟨hr, hheader⟩ c hc
    rw [chunkBody_eq hsame h hsize hc] at hr
    exact ⟨hheader, (Except.ok.inj hr).symm⟩
  refine ⟨htotal, ?_, fun i c hc => ?_, fun r hr => ?_⟩
  · have hbuffer : arrayBuffer plaintext = .ok plaintext :=
      if_pos (by rw [maxByteLength]; omega)
    rw [prepareUpload, hbuffer] at hctx
    rw [← Except.ok.inj hctx]
    rfl
  · obtain ⟨r, hr, hri⟩ := hsent i (List.getElem?_eq_some_iff.mp hc).1
    exact ⟨r, hr, hbody i r hri c hc⟩
  · obtain ⟨i, hi, hri⟩ := hrequest r hr
    obtain ⟨c, hc, -⟩ := hbodies i hi
    exact ⟨i, c, hc, hbody i r hri c hc⟩

/-- The server's answers for the chunks are the records in their order. -/
theorem answers_eq (hsame : SameCipher A W) (h : encryptPlaintext A key plaintext = .ok records)
    (hsize : plaintext.length < 2 ^ 53)
    (hup : Uploads W sha256 key.bytes { name, content := plaintext } upload) {bodies : List Bytes}
    (hbodies : upload.AnsweredWith bodies) : bodies = records.map ChunkCiphertext.toVec := by
  obtain ⟨htotal, -, -, hrequests⟩ := upload_requests hsame h hsize hup
  obtain ⟨-, -, hlt, -⟩ := bodies_ok hsame h hsize
  have hlen : records.length = bodies.length :=
    Nat.cast_injective (htotal.symm.trans hbodies.total)
  refine List.ext_getElem? fun i => ?_
  rw [List.getElem?_map]
  cases hb : bodies[i]? with
  | none =>
    rw [List.getElem?_eq_none_iff, ← hlen, ← List.getElem?_eq_none_iff] at hb
    rw [hb]
    rfl
  | some b =>
    obtain ⟨r, hr, hheader, rfl⟩ := hbodies.sent i b hb
    obtain ⟨j, c, hc, hheader', hbody⟩ := hrequests r hr
    have hi : i < records.length := hlen ▸ (List.getElem?_eq_some_iff.mp hb).1
    have hj : j < records.length := (List.getElem?_eq_some_iff.mp hc).1
    obtain rfl := indexHeader_inj (hi.trans hlt) (hj.trans hlt) (hheader.symm.trans hheader')
    rw [hc, hbody]
    rfl

/-! ## Downloads of the web client -/

theorem base64ToBytes_standardEncode (b : Bytes) :
    base64ToBytes (Cli.standardEncode b) = .ok b := by
  rw [base64ToBytes, Cli.standardEncode, String.toList_ofList, Base64.forgivingDecode_encode]

/-- One chunk. -/
theorem decryptOne_record (hA : A.Inverts {m | m.length ≤ Crypto.chunkSize})
    (hsame : SameCipher A W) (h : encryptPlaintext A key plaintext = .ok records)
    (hsize : plaintext.length < 2 ^ 53) {downloadChunk : ℚ → Except String Bytes} {i : ℕ}
    {piece : Bytes} (hpiece : (uploadPieces plaintext)[i]? = some piece)
    (hget : ∀ c, records[i]? = some c → downloadChunk i = .ok c.toVec) :
    decryptOne W downloadChunk key.bytes i = .ok piece := by
  have hlt : i < records.length := by
    rw [length_records h]
    exact (List.getElem?_eq_some_iff.mp hpiece).1
  have hc := List.getElem?_eq_getElem hlt
  obtain ⟨hi, -, piece', ciphertext, hpiece', henc, hrecord⟩ := record_eq h hsize hc
  obtain rfl : piece = piece' := Option.some.inj (hpiece.symm.trans hpiece')
  obtain ⟨ciphertext', henc', hdec⟩ := hA key.bytes (chunkNonce (.ofNat i)) piece
    (Cli.length_of_mem_uploadPieces (List.mem_of_getElem? hpiece))
  obtain rfl : ciphertext = ciphertext' := Option.some.inj (henc.symm.trans henc')
  refine decryptOne_toVec (by omega) ?_ (hget _ hc) ?_
  · rw [hrecord]
    exact UInt64.toNat_ofNat_of_lt' (by rw [UInt64.size]; omega)
  · rw [hrecord, hsame.decrypt, hdec]

theorem downloadAndDecrypt_prepareUpload (hA : A.Inverts {m | m.length ≤ Crypto.chunkSize})
    (hsame : SameCipher A W) {blake3 : Bytes → String} {remoteName : String}
    {u : Cli.PreparedUpload} (h : Cli.prepareUpload A blake3 key remoteName plaintext = .ok u)
    (hsize : plaintext.length < 2 ^ 53) {downloadChunk : ℚ → Except String Bytes}
    (hget : ∀ (i : ℕ) c, u.chunks[i]? = some c → downloadChunk i = .ok c.toVec) {fuel : ℕ}
    (hfuel : u.chunks.length < fuel) :
    downloadAndDecrypt W downloadChunk fuel (fileMeta u) =
      some (.ok { name := decodeFileName u.encryptedName, content := plaintext }) := by
  obtain ⟨henc, hcount, henvelope, -⟩ := Cli.prepareUpload_eq_ok h
  obtain ⟨htotal, -, hlen⟩ := Cli.prepareUpload_totals h
  have htotal : u.totalChunks.toNat = (uploadPieces plaintext).length := by
    rw [htotal, UInt32.toNat_ofNat_of_lt' hcount, hlen]
  have hparts : ∀ (i : ℕ) piece, (uploadPieces plaintext)[i]? = some piece →
      decryptOne W downloadChunk key.bytes i = .ok piece :=
    fun i _ hpiece => decryptOne_record hA hsame henc hsize hpiece (hget i)
  have hloop := decryptLoop_eq (by omega) hparts (Nat.zero_le _) (show _ < 0 + fuel by omega) []
  rw [List.nil_append, List.drop_zero, Nat.cast_zero] at hloop
  have hconcat : concatParts (uploadPieces plaintext) = .ok plaintext := by
    rw [concatParts_of_lt (by rwa [Cli.flatten_uploadPieces]), Cli.flatten_uploadPieces]
  rw [downloadAndDecrypt, fileMeta, henvelope, base64ToBytes_standardEncode]
  dsimp only
  rw [dif_pos key.bytes.length_toList, htotal]
  have hkey : (⟨key.bytes.toList.toArray, key.bytes.length_toList⟩ : Vector UInt8 32) = key.bytes :=
    Vector.toArray_inj.mp rfl
  rw [hkey, hloop, Option.map_some]
  simp only [bind, Except.bind, hconcat]
  rfl

end Clients

/-- Interoperability, for files of fewer than `2^53` bytes; no byte array of a browser is
    longer. Nonces agree; uploads of the web client have the number of chunks and the
    records of the command line client, and complete when their requests are answered;
    `decrypt_file` opens what the web client has uploaded, and `downloadAndDecrypt` what
    the command line client has. -/
theorem clients_interoperate (A : Aes256Gcm) (hA : A.Inverts {m | m.length ≤ Crypto.chunkSize})
    (W : SubtleAesGcm) (hsame : SameCipher A W) (sha256 : Bytes → Bytes) (blake3 : Bytes → String)
    (key : FileKey) (name remoteName : String) :
    (∀ index : ℕ, index < 2 ^ 53 → buildNonce index = (chunkNonce (.ofNat index)).toList) ∧
      ∀ plaintext : Bytes, plaintext.length < 2 ^ 53 →
        ∃ records, encryptPlaintext A key plaintext = .ok records ∧
          (∃ upload, Uploads W sha256 key.bytes { name, content := plaintext } upload) ∧
          (∀ upload, Uploads W sha256 key.bytes { name, content := plaintext } upload →
            upload.init.totalChunks = records.length ∧
            (∀ (i : ℕ) c, records[i]? = some c → ∃ r ∈ upload.requests, r.header = indexHeader i ∧
              r.body = c.toVec ∧ ChunkCiphertext.fromSlice r.body = some c) ∧
            (∀ r ∈ upload.requests, ∃ (i : ℕ) (c : ChunkCiphertext), records[i]? = some c ∧
              r.header = indexHeader i ∧ ChunkCiphertext.fromSlice r.body = some c) ∧
            Cli.fileKeyFromEnvelope upload.init.encryptedKeyEnvelope = .ok key ∧
            ∀ bodies, upload.AnsweredWith bodies →
              ∃ chunks, bodies.mapM ChunkCiphertext.fromSlice = some chunks ∧
                Crypto.decryptFile A key chunks = .ok plaintext) ∧
          ∃ u, Cli.prepareUpload A blake3 key remoteName plaintext = .ok u ∧ u.chunks = records ∧
            ∀ downloadChunk : ℚ → Except String Bytes,
              (∀ (i : ℕ) c, records[i]? = some c → downloadChunk i = .ok c.toVec) →
              ∀ fuel > records.length, downloadAndDecrypt W downloadChunk fuel (fileMeta u) =
                some (.ok { name := decodeFileName u.encryptedName, content := plaintext }) := by
  refine ⟨fun index hindex => buildNonce_eq_chunkNonce hindex, fun plaintext hsize => ?_⟩
  have hcount : (uploadPieces plaintext).length < 2 ^ 32 := by
    obtain ⟨-, hlow, -⟩ := pieces_bounds plaintext
    omega
  obtain ⟨u, hu⟩ := Cli.exists_prepareUpload hA blake3 key remoteName hcount
  have henc := (Cli.prepareUpload_eq_ok hu).1
  have hdec := Cli.decryptFile_of_opens (Cli.inverts_opens hA key plaintext) hu
  refine ⟨u.chunks, henc, exists_upload hsame henc hsize sha256 name, fun upload hup => ?_, u, hu,
    rfl, fun downloadChunk hget fuel hfuel =>
      downloadAndDecrypt_prepareUpload hA hsame hu hsize hget hfuel⟩
  obtain ⟨htotal, henvelope, hsent, hrequests⟩ := upload_requests hsame henc hsize hup
  refine ⟨htotal, fun i c hc => ?_, fun r hr => ?_, ?_, fun bodies hbodies => ?_⟩
  · obtain ⟨r, hr, hheader, hbody⟩ := hsent i c hc
    exact ⟨r, hr, hheader, hbody, hbody ▸ ChunkCiphertext.fromSlice_toVec c⟩
  · obtain ⟨i, c, hc, hheader, hbody⟩ := hrequests r hr
    exact ⟨i, c, hc, hheader, hbody ▸ ChunkCiphertext.fromSlice_toVec c⟩
  · rw [henvelope, Cli.fileKeyFromEnvelope_standardEncode]
  · rw [answers_eq hsame henc hsize hup hbodies]
    exact ⟨u.chunks, Cli.mapM_fromSlice_toVec u.chunks, hdec⟩

/-- The tag of `runTag` for initialisation vectors of 12 bytes. -/
def webTag (key : Vector UInt8 32) (iv : Bytes) : Bytes :=
  if h : iv.length = 12 then Crypto.runTag key ⟨iv.toArray, h⟩ else []

theorem sameCipher_tagged : SameCipher (Aead.tagged Crypto.runTag) (Aead.tagged webTag) := by
  have htag : ∀ k (v : Vector UInt8 12), webTag k v.toList = Crypto.runTag k v :=
    fun k v => dif_pos v.length_toList
  constructor
  · intro k v m
    simp only [Aead.tagged, htag]
  · intro k v c
    simp only [Aead.tagged, htag]

/-- The answers of a server that has these chunks. -/
def runDownload (records : List ChunkCiphertext) (index : ℚ) : Except String Bytes :=
  match records[⌊index⌋.toNat]? with
  | some c => .ok c.toVec
  | none => .error "404"

/-- A file of two chunks, sent by each client and read by the other one. -/
theorem clients_interoperate_run :
    buildNonce ((2 ^ 32 + 1 : ℕ) : ℚ) = (chunkNonce (.ofNat (2 ^ 32 + 1))).toList ∧
      ∃ first second : ChunkCiphertext, ∃ upload u,
        encryptPlaintext (Aead.tagged Crypto.runTag) Crypto.runKey Crypto.twoChunks =
          .ok [first, second] ∧
        Uploads (Aead.tagged webTag) (fun _ => []) Crypto.runKey.bytes
          { name := "a", content := Crypto.twoChunks } upload ∧
        upload.init.totalChunks = 2 ∧
        (∃ r ∈ upload.requests, r.header = indexHeader (1 : ℕ) ∧ r.body = second.toVec) ∧
        Cli.fileKeyFromEnvelope upload.init.encryptedKeyEnvelope = .ok Crypto.runKey ∧
        (∃ chunks, [first.toVec, second.toVec].mapM ChunkCiphertext.fromSlice = some chunks ∧
          Crypto.decryptFile (Aead.tagged Crypto.runTag) Crypto.runKey chunks =
            .ok Crypto.twoChunks) ∧
        Cli.prepareUpload (Aead.tagged Crypto.runTag) (fun _ => "") Crypto.runKey "a"
          Crypto.twoChunks = .ok u ∧
        downloadAndDecrypt (Aead.tagged webTag) (runDownload [first, second]) 3 (fileMeta u) =
          some (.ok { name := decodeFileName u.encryptedName, content := Crypto.twoChunks }) := by
  obtain ⟨hnonce, hfiles⟩ := clients_interoperate (Aead.tagged Crypto.runTag)
    (Aead.tagged_inverts _ _) (Aead.tagged webTag) sameCipher_tagged (fun _ => []) (fun _ => "")
    Crypto.runKey "a" "a"
  obtain ⟨records, hrecords, ⟨upload, hupload⟩, hsent, u, hu, -, hdownload⟩ :=
    hfiles Crypto.twoChunks (by rw [Crypto.length_twoChunks]; decide)
  have hlen := length_records hrecords
  rw [Cli.length_uploadPieces_twoChunks] at hlen
  obtain ⟨first, second, rfl⟩ := List.length_eq_two.mp hlen
  obtain ⟨htotal, hbodies, -, henvelope, hopen⟩ := hsent upload hupload
  obtain ⟨r, hr, hheader, hbody, -⟩ := hbodies 0 first rfl
  obtain ⟨r', hr', hheader', hbody', -⟩ := hbodies 1 second rfl
  have hanswers : upload.AnsweredWith [first.toVec, second.toVec] := by
    refine ⟨htotal, fun i b hb => ?_⟩
    match i, hb with
    | 0, rfl => exact ⟨r, hr, hheader, hbody⟩
    | 1, rfl => exact ⟨r', hr', hheader', hbody'⟩
  refine ⟨hnonce _ (by norm_num), first, second, upload, u, hrecords, hupload, htotal,
    ⟨r', hr', hheader', hbody'⟩, henvelope, hopen _ hanswers, hu, ?_⟩
  refine hdownload (runDownload [first, second]) (fun i c hc => ?_) 3 (by simp)
  rw [runDownload, Int.floor_natCast, Int.toNat_natCast, hc]

/-- The web client cannot read a file of `2^53` bytes, which the command line client
    encrypts. -/
theorem large_file_refused :
    ∃ records, encryptPlaintext (Aead.tagged Crypto.runTag) Crypto.runKey
        (List.replicate (2 ^ 53) 0) = .ok records ∧ records.length = 2 ^ 31 ∧
      ∀ upload, ¬ Uploads (Aead.tagged webTag) (fun _ => []) Crypto.runKey.bytes
        { name := "a", content := List.replicate (2 ^ 53) 0 } upload := by
  have hlen : (List.replicate (2 ^ 53) (0 : UInt8)).length = 2 ^ 53 := List.length_replicate
  generalize List.replicate (2 ^ 53) (0 : UInt8) = plaintext at hlen ⊢
  obtain ⟨records, henc⟩ : ∃ records,
      encryptPlaintext (Aead.tagged Crypto.runTag) Crypto.runKey plaintext = .ok records := by
    rw [Cli.encryptPlaintext_eq]
    exact Crypto.exists_encryptChunks (Aead.tagged_inverts _ _)
      (fun _ hp => Cli.length_of_mem_uploadPieces hp) 0
  refine ⟨records, henc, ?_, ?_⟩
  · obtain ⟨-, hlow, hhigh⟩ := pieces_bounds plaintext
    rw [length_records henc]
    omega
  · rintro upload ⟨ctx, -, -, hctx, -⟩
    rw [prepareUpload, arrayBuffer, if_neg (by rw [hlen, maxByteLength]; norm_num)] at hctx
    cases hctx

/-! ## The server accepts the bodies -/

/-- What `upload_chunk` asks of a body. -/
structure AcceptedBody (body : Bytes) : Prop where
  nonempty : body ≠ []
  length_le : body.length ≤ Server.maxUploadChunkBodyBytes
  /-- Only the index can be refused. -/
  checks : ∀ (row : Server.UploadRow) (r : Server.ChunkRequest), r.body = body →
    r.chunkIndex.toNat < Server.asU32 row.totalChunks → Server.checkChunk row r = .ok ()

theorem acceptedBody_of_length_le {body : Bytes} (hne : body ≠ [])
    (hlen : body.length ≤ Server.maxUploadChunkBodyBytes) : AcceptedBody body := by
  refine ⟨hne, hlen, fun row r hbody hindex => ?_⟩
  subst hbody
  rw [Server.checkChunk, if_neg (Nat.not_le.mpr hindex), if_neg hne, Server.validateChunkBodySize,
    if_neg (Nat.not_lt.mpr hlen)]

/-- A text of one number of 20 digits, a nonce and a sealed piece fits. -/
theorem acceptedBody_chunkText {index : ℕ} (hindex : (Json.number index).length ≤ 20)
    {nonce ciphertext : Bytes} (hnonce : nonce.length = 12)
    (hciphertext : ciphertext.length ≤ Crypto.chunkSize + 16) :
    AcceptedBody (Json.toAscii (ChunkCiphertext.chunkText index nonce ciphertext)) := by
  have hlen := ChunkCiphertext.length_chunkText_le hindex nonce ciphertext
  apply acceptedBody_of_length_le
  · simp [ChunkCiphertext.chunkText, ChunkCiphertext.indexLead, Json.toAscii]
  · have hchunk : Crypto.chunkSize = 4194304 := rfl
    have hmax : Server.maxUploadChunkBodyBytes = 33554432 := rfl
    rw [Json.toAscii, List.length_map]
    omega

/-- Both clients make a body of every piece, at every index, and the server accepts it. The
index of the web client is a number. -/
theorem chunk_bodies_accepted (A : Aes256Gcm) (hA : A.Inverts {m | m.length ≤ Crypto.chunkSize})
    (hexpands : A.Expands 16) (W : SubtleAesGcm) (hsame : SameCipher A W) (key : FileKey)
    (index : UInt64) (plaintext : Bytes) (hlen : plaintext.length ≤ Crypto.chunkSize) :
    (∃ c, Crypto.encryptChunk A key index plaintext = .ok c ∧ AcceptedBody c.toVec) ∧
      ∃ body, encryptChunk W key.bytes (fl index.toNat) plaintext = .ok body ∧
        AcceptedBody body := by
  constructor
  · obtain ⟨ciphertext, henc, -⟩ := hA key.bytes (chunkNonce index) plaintext hlen
    refine ⟨_, Crypto.encryptChunk_eq_ok.mpr ⟨hlen, ciphertext, henc, rfl⟩, ?_⟩
    have hlength := hexpands _ _ _ _ henc
    rw [ChunkCiphertext.toVec, ChunkCiphertext.toJson_eq]
    refine acceptedBody_chunkText ?_ (chunkNonce index).length_toList ?_
    · exact Json.length_number_le (by decide) (lt_trans index.toNat_lt (by decide))
    · rw [hlength]
      exact Nat.add_le_add_right hlen 16
  · obtain ⟨nonce, hnonce⟩ : ∃ nonce : Crypto.Nonce,
        nonce.toList = buildNonce (fl index.toNat) :=
      ⟨⟨(buildNonce (fl index.toNat)).toArray, length_buildNonce _⟩, rfl⟩
    obtain ⟨ciphertext, henc, -⟩ := hA key.bytes nonce plaintext hlen
    have hlength := hexpands _ _ _ _ henc
    rw [← hsame.encrypt, hnonce] at henc
    refine ⟨_, encryptChunk_eq henc, acceptedBody_chunkText ?_ (length_buildNonce _) ?_⟩
    · apply length_numberText_le
      -- rounding at most doubles a number
      have hle := fl_le (Nat.cast_nonneg index.toNat)
      have hlt : (index.toNat : ℚ) < 2 ^ 64 := by exact_mod_cast index.toNat_lt
      linarith
    · rw [hlength]
      exact Nat.add_le_add_right hlen 16

/-- A chunk of one byte at the largest index, which the web client rounds to `2^64`. -/
theorem chunk_bodies_accepted_run :
    (∃ c, Crypto.encryptChunk (Aead.tagged Crypto.runTag) Crypto.runKey (.ofNat (2 ^ 64 - 1)) [42] =
      .ok c ∧ AcceptedBody c.toVec) ∧
    ∃ body, encryptChunk (Aead.tagged webTag) Crypto.runKey.bytes
      (fl (UInt64.ofNat (2 ^ 64 - 1)).toNat) [42] = .ok body ∧ AcceptedBody body :=
  chunk_bodies_accepted (Aead.tagged Crypto.runTag) (Aead.tagged_inverts _ _)
    (Aead.tagged_expands fun key v => by simp [Crypto.runTag]) (Aead.tagged webTag) sameCipher_tagged
    Crypto.runKey (.ofNat (2 ^ 64 - 1)) [42] (by decide)

end FreeBox.Web
