import FreeBox.Crypto.ChunkJson
import FreeBox.Crypto.FileIntegrity
import FreeBox.Lib.Base64

/-!
# What the command line client uploads

Model of `apps/cli/src/commands/upload.rs` (`prepare_upload`) and of the key and
name decoding in `download.rs`. AES-256-GCM and BLAKE3 are parameters; the file
key, which the code draws at random, is an argument.

Results:
* `decryptFile_prepareUpload`: the chunks decrypt to the plaintext.
* `exists_prepareUpload`, `prepareUpload_totals`: every file that is not too large can
  be prepared, and what the request says of its size.
* `server_reads_upload`: from what it receives in one upload the server computes
  the remote name and the plaintext, because the key envelope and the name are
  only base64.
-/

namespace FreeBox.Cli

open FreeBox.Lib FreeBox.Crypto

/-- `str::as_bytes`. -/
def asBytes (s : String) : Bytes := s.toUTF8.data.toList

/-- `String::from_utf8`. -/
def fromUtf8 (b : Bytes) : Option String := String.fromUTF8? ⟨b.toArray⟩

/-- `STANDARD.encode`. -/
def standardEncode (b : Bytes) : String := String.ofList (Base64.encode b)

/-- `STANDARD.decode`. -/
def standardDecode (s : String) : Option Bytes := Base64.decode s.toList

/-- `upload::PreparedUpload`. -/
structure PreparedUpload where
  totalChunks : UInt32
  sizeBytes : UInt64
  encryptedKeyEnvelope : String
  contentHash : String
  encryptedName : String
  chunks : List ChunkCiphertext
  deriving DecidableEq

/-- `upload::encrypt_plaintext`: an empty file is one empty chunk. -/
def encryptPlaintext (A : Aes256Gcm) (key : FileKey) (plaintext : Bytes) :
    Except String (List ChunkCiphertext) :=
  if plaintext = [] then do
    let chunk ← encryptChunk A key 0 []
    return [chunk]
  else encryptFile A key plaintext

/-- `upload::prepare_upload` with the key `key`; `blake3` is the hash in
    hexadecimal. -/
def prepareUpload (A : Aes256Gcm) (blake3 : Bytes → String) (key : FileKey) (remoteName : String)
    (plaintext : Bytes) : Except String PreparedUpload := do
  let chunks ← encryptPlaintext A key plaintext
  if chunks.length < 2 ^ 32 then
    return { totalChunks := .ofNat chunks.length
             sizeBytes := .ofNat plaintext.length
             encryptedKeyEnvelope := standardEncode key.bytes.toList
             contentHash := blake3 plaintext
             encryptedName := standardEncode (asBytes remoteName)
             chunks }
  else throw "file has too many chunks for upload protocol"

/-- `download::file_key_from_envelope`. -/
def fileKeyFromEnvelope (envelope : String) : Except String FileKey :=
  match standardDecode envelope with
  | none => .error "file key envelope is not valid base64"
  | some bytes =>
    if h : bytes.length = 32 then .ok ⟨⟨bytes.toArray, h⟩⟩
    else .error ("file key envelope must decode to 32 bytes, got " ++ toString bytes.length)

/-- The name that `resolve_name_to_id` decodes from `encrypted_name`. -/
def decodedName (encryptedName : String) : Option String :=
  (standardDecode encryptedName).bind fromUtf8

/-! ## Text forms -/

theorem standardDecode_standardEncode (b : Bytes) : standardDecode (standardEncode b) = some b := by
  rw [standardDecode, standardEncode, String.toList_ofList, Base64.decode_encode]

theorem fromUtf8_asBytes (s : String) : fromUtf8 (asBytes s) = some s := by
  rw [fromUtf8, asBytes, Array.toArray_toList]
  exact dif_pos s.isValidUTF8

theorem decodedName_standardEncode (name : String) :
    decodedName (standardEncode (asBytes name)) = some name := by
  rw [decodedName, standardDecode_standardEncode, Option.bind_some, fromUtf8_asBytes]

theorem fileKeyFromEnvelope_standardEncode (key : FileKey) :
    fileKeyFromEnvelope (standardEncode key.bytes.toList) = .ok key := by
  rw [fileKeyFromEnvelope, standardDecode_standardEncode]
  simp only [key.bytes.length_toList, dif_pos]
  rfl

/-! ## The uploaded chunks -/

variable {A : Aes256Gcm} {blake3 : Bytes → String} {key : FileKey} {remoteName : String}
  {plaintext : Bytes} {u : PreparedUpload}

/-- The pieces in which a plaintext is uploaded. -/
def uploadPieces (plaintext : Bytes) : List Bytes :=
  if plaintext = [] then [[]] else chunks chunkSize plaintext

theorem flatten_uploadPieces (plaintext : Bytes) : (uploadPieces plaintext).flatten = plaintext := by
  unfold uploadPieces
  split_ifs with h
  · rw [h]; rfl
  · exact flatten_chunks (by decide) plaintext

theorem encryptPlaintext_eq :
    encryptPlaintext A key plaintext = encryptChunks A key 0 (uploadPieces plaintext) := by
  unfold encryptPlaintext uploadPieces
  split_ifs with h
  · rw [encryptChunks]
    cases encryptChunk A key 0 [] <;> rfl
  · rfl

theorem prepareUpload_eq_ok (h : prepareUpload A blake3 key remoteName plaintext = .ok u) :
    encryptPlaintext A key plaintext = .ok u.chunks ∧ u.chunks.length < 2 ^ 32 ∧
      u.encryptedKeyEnvelope = standardEncode key.bytes.toList ∧
      u.encryptedName = standardEncode (asBytes remoteName) := by
  unfold prepareUpload at h
  cases hc : encryptPlaintext A key plaintext with
  | error e => rw [hc] at h; cases h
  | ok cs =>
    rw [hc] at h
    simp only [bind, Except.bind] at h
    split_ifs at h with hlen
    obtain rfl := Except.ok.inj h
    exact ⟨rfl, hlen, rfl, rfl⟩

theorem prepareUpload_totals (h : prepareUpload A blake3 key remoteName plaintext = .ok u) :
    u.totalChunks = .ofNat u.chunks.length ∧ u.sizeBytes = .ofNat plaintext.length ∧
      u.chunks.length = (uploadPieces plaintext).length := by
  have henc := (prepareUpload_eq_ok h).1
  have hlen : u.chunks.length = (uploadPieces plaintext).length := by
    rw [encryptPlaintext_eq] at henc
    exact length_encryptChunks henc
  unfold prepareUpload at h
  rw [henc] at h
  simp only [bind, Except.bind] at h
  split_ifs at h
  have hu := Except.ok.inj h
  exact ⟨(congrArg PreparedUpload.totalChunks hu).symm, (congrArg PreparedUpload.sizeBytes hu).symm,
    hlen⟩

theorem length_uploadPieces_twoChunks : (uploadPieces twoChunks).length = 2 := by
  rw [uploadPieces, if_neg, length_chunks_twoChunks]
  exact List.ne_nil_of_length_eq_add_one length_twoChunks

theorem length_of_mem_uploadPieces {piece : Bytes} (h : piece ∈ uploadPieces plaintext) :
    piece.length ≤ chunkSize := by
  unfold uploadPieces at h
  split_ifs at h
  · obtain rfl := List.mem_singleton.mp h
    exact Nat.zero_le _
  · exact length_of_mem_chunks h

theorem uploadPieces_ne_nil (plaintext : Bytes) : uploadPieces plaintext ≠ [] := by
  unfold uploadPieces
  split_ifs with h
  · exact List.cons_ne_nil _ _
  · intro hnil
    have hflatten := flatten_chunks (show 0 < chunkSize by decide) plaintext
    rw [hnil] at hflatten
    exact h hflatten.symm

theorem length_le_uploadPieces (plaintext : Bytes) :
    plaintext.length ≤ chunkSize * (uploadPieces plaintext).length := by
  have hle := length_flatten_le fun p (hp : p ∈ uploadPieces plaintext) =>
    length_of_mem_uploadPieces hp
  rwa [flatten_uploadPieces] at hle

theorem exists_prepareUpload (hA : A.Inverts {m | m.length ≤ chunkSize}) (blake3 : Bytes → String)
    (key : FileKey) (remoteName : String) (hlen : (uploadPieces plaintext).length < 2 ^ 32) :
    ∃ u, prepareUpload A blake3 key remoteName plaintext = .ok u := by
  obtain ⟨recs, hrecs⟩ := exists_encryptChunks hA
    (fun p (hp : p ∈ uploadPieces plaintext) => length_of_mem_uploadPieces hp) 0
  have henc : encryptPlaintext A key plaintext = .ok recs := encryptPlaintext_eq.trans hrecs
  rw [← length_encryptChunks hrecs] at hlen
  unfold prepareUpload
  rw [henc]
  exact ⟨_, if_pos hlen⟩

theorem exists_runUpload (blake3 : Bytes → String) (name : String) (plaintext : Bytes)
    (h : (uploadPieces plaintext).length < 2 ^ 32) :
    ∃ u, prepareUpload (Aead.tagged runTag) blake3 runKey name plaintext = .ok u :=
  exists_prepareUpload (Aead.tagged_inverts runTag _) blake3 runKey name h

theorem decryptFile_of_opens
    (hopens : A.Opens key.bytes {x | x ∈ encryptCalls (uploadPieces plaintext)})
    (h : prepareUpload A blake3 key remoteName plaintext = .ok u) :
    decryptFile A key u.chunks = .ok plaintext := by
  obtain ⟨henc, hlen, -, -⟩ := prepareUpload_eq_ok h
  rw [encryptPlaintext_eq] at henc
  have hpieces : (uploadPieces plaintext).length < 2 ^ 64 := by
    rw [← length_encryptChunks henc]; omega
  rw [decryptFile_encryptChunks hopens henc hpieces, flatten_uploadPieces]

theorem decryptFile_prepareUpload (hA : A.Correct)
    (h : prepareUpload A blake3 key remoteName plaintext = .ok u) :
    decryptFile A key u.chunks = .ok plaintext :=
  decryptFile_of_opens (hA.opens _ _) h

theorem inverts_opens (hA : A.Inverts {m | m.length ≤ chunkSize}) (key : FileKey)
    (plaintext : Bytes) :
    A.Opens key.bytes {x | x ∈ encryptCalls (uploadPieces plaintext)} := by
  refine hA.opens _ fun v m hm => ?_
  obtain ⟨j, hj, -⟩ := mem_encryptCalls.mp hm
  exact length_of_mem_uploadPieces (List.mem_of_getElem? hj)

/-! ## What the server learns -/

/-- The fields of `UploadInitRequest` and the bodies of the chunk requests, in
    the order of the chunk indices. -/
structure ServerView where
  totalChunks : UInt32
  sizeBytes : UInt64
  encryptedKeyEnvelope : String
  contentHash : String
  encryptedName : String
  bodies : List Bytes
  deriving DecidableEq

def serverView (u : PreparedUpload) : ServerView where
  totalChunks := u.totalChunks
  sizeBytes := u.sizeBytes
  encryptedKeyEnvelope := u.encryptedKeyEnvelope
  contentHash := u.contentHash
  encryptedName := u.encryptedName
  bodies := u.chunks.map ChunkCiphertext.toVec

/-- The name, from the field `encrypted_name`. -/
def recoverName (view : ServerView) : Option String := decodedName view.encryptedName

/-- The plaintext, with the key from the field `encrypted_key_envelope`. -/
def recoverPlaintext (A : Aes256Gcm) (view : ServerView) : Option Bytes :=
  match fileKeyFromEnvelope view.encryptedKeyEnvelope, view.bodies.mapM ChunkCiphertext.fromSlice with
  | .ok key, some chunks => (decryptFile A key chunks).toOption
  | _, _ => none

theorem recoverName_serverView (h : prepareUpload A blake3 key remoteName plaintext = .ok u) :
    recoverName (serverView u) = some remoteName := by
  obtain ⟨-, -, -, hname⟩ := prepareUpload_eq_ok h
  rw [recoverName, serverView, hname, decodedName_standardEncode]

theorem mapM_fromSlice_toVec (cs : List ChunkCiphertext) :
    (cs.map ChunkCiphertext.toVec).mapM ChunkCiphertext.fromSlice = some cs := by
  induction cs with
  | nil => rfl
  | cons c cs ih => rw [List.map_cons, List.mapM_cons, ChunkCiphertext.fromSlice_toVec, ih]; rfl

theorem recoverPlaintext_serverView (hA : A.Correct)
    (h : prepareUpload A blake3 key remoteName plaintext = .ok u) :
    recoverPlaintext A (serverView u) = some plaintext := by
  obtain ⟨-, -, hkey, -⟩ := prepareUpload_eq_ok h
  simp only [recoverPlaintext, serverView, hkey, fileKeyFromEnvelope_standardEncode,
    mapM_fromSlice_toVec, decryptFile_prepareUpload hA h]
  rfl

/-- One function gives the remote name and one the plaintext of every upload, from
    what the server receives. -/
theorem server_reads_upload (A : Aes256Gcm) (hA : A.Correct) :
    (∃ f : ServerView → Option String, ∀ blake3 key remoteName plaintext u,
        prepareUpload A blake3 key remoteName plaintext = .ok u →
          f (serverView u) = some remoteName) ∧
      ∃ f : ServerView → Option Bytes, ∀ blake3 key remoteName plaintext u,
        prepareUpload A blake3 key remoteName plaintext = .ok u →
          f (serverView u) = some plaintext :=
  ⟨⟨recoverName, fun _ _ _ _ _ h => recoverName_serverView h⟩,
    recoverPlaintext A, fun _ _ _ _ _ h => recoverPlaintext_serverView hA h⟩

theorem server_reads_upload_run :
    ∃ f : ServerView → Option Bytes, ∀ blake3 key remoteName plaintext u,
      prepareUpload (Aead.tagged runTag) blake3 key remoteName plaintext = .ok u →
        f (serverView u) = some plaintext :=
  (server_reads_upload (Aead.tagged runTag) (Aead.tagged_correct _)).2

/-- The upload of the byte `42` under the name `a` and the key of 32 bytes `7`. -/
def runUpload : PreparedUpload where
  totalChunks := 1
  sizeBytes := 1
  encryptedKeyEnvelope := "BwcHBwcHBwcHBwcHBwcHBwcHBwcHBwcHBwcHBwcHBwc="
  contentHash := ""
  encryptedName := "YQ=="
  chunks := [runRecord 0 0 42]

theorem upload_recovered : (Aead.tagged runTag).Correct ∧
    prepareUpload (Aead.tagged runTag) (fun _ => "") runKey "a" [42] = .ok runUpload ∧
    recoverName (serverView runUpload) = some "a" ∧
    recoverPlaintext (Aead.tagged runTag) (serverView runUpload) = some [42] := by
  have h : prepareUpload (Aead.tagged runTag) (fun _ => "") runKey "a" [42] = .ok runUpload := by
    decide +kernel
  exact ⟨Aead.tagged_correct _, h, recoverName_serverView h,
    recoverPlaintext_serverView (Aead.tagged_correct _) h⟩

end FreeBox.Cli
