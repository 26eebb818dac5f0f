import FreeBox.Crypto.ChunkJson
import FreeBox.Lib.Base64
import FreeBox.Lib.Ecma

/-!
# The web client's encryption

Model of `apps/web/src/lib/crypto.ts`. `crypto.subtle` with AES-GCM and SHA-256 are
parameters; the key, which the code draws at random, is an argument.

Results:
* `buildNonce_natCast`: the nonce of a chunk is four zero bytes and the index.
* `encryptChunk_natCast`, `parseRawChunk_toVec`: the body of a chunk is that of the
  command line client, and such bodies are read.
* `concatParts_of_lt`: the parts of a download are put one after another.
-/

namespace FreeBox.Web

open FreeBox.Lib FreeBox.Lib.Ecma FreeBox.Lib.Double
open FreeBox.Crypto (ChunkCiphertext)
open FreeBox.Crypto.ChunkCiphertext (indexLead nonceLead ciphertextLead)

/-- AES-GCM of `crypto.subtle` with keys of 32 bytes; it takes initialisation vectors of
    any length. -/
abbrev SubtleAesGcm := Aead (Vector UInt8 32) Bytes Bytes Bytes

/-- The name and the content of a `File`. -/
structure File where
  name : String
  content : Bytes

/-! ## Helpers -/

/-- `bytesToBase64`. -/
def bytesToBase64 (bytes : Bytes) : String := String.ofList (Base64.encode bytes)

/-- `base64ToBytes`. -/
def base64ToBytes (b64 : String) : Except String Bytes :=
  match Base64.forgivingDecode b64.toList with
  | none => .error "InvalidCharacterError: The string to be decoded is not correctly encoded."
  | some bytes => .ok bytes

/-- `buildNonce`. -/
def buildNonce (index : ℚ) : Bytes :=
  let view := List.replicate 12 0
  let view := setUint32 view 4 ⌊fl (index / 2 ^ 32)⌋
  setUint32 view 8 (toUint 32 index)

/-- `decodeFileName`. -/
def decodeFileName (encodedName : String) : String :=
  match base64ToBytes encodedName with
  | .error _ => "download.bin"
  | .ok bytes =>
    ((((textDecode bytes).splitOn '/').filter (· ≠ [])).getLast?.map String.ofList).getD
      "download.bin"

/-- `RawChunk`. -/
structure RawChunk where
  index : ℚ
  nonce : List ℚ
  ciphertext : List ℚ

/-- `JSON.parse` of a chunk without white space, its members in the order in which both
    clients write them. -/
def parseRawChunk (text : List Char) : Except String RawChunk :=
  let chunk := (Json.expect indexLead text).bind fun s =>
    let (index, s) := Json.readNumber 0 s
    (Json.expect nonceLead s).bind fun s => (Json.readArray s).bind fun (nonce, s) =>
      (Json.expect ciphertextLead s).bind fun s => (Json.readArray s).bind fun (ciphertext, s) =>
        if s = ['}'] then
          some { index := fl index, nonce := nonce.map fun n : ℕ => fl n
                 ciphertext := ciphertext.map fun n : ℕ => fl n : RawChunk }
        else none
  match chunk with
  | none => .error "SyntaxError"
  | some chunk => .ok chunk

/-! ## Upload -/

/-- What `prepareUpload` returns beside `encryptChunk`. -/
structure PreparedUpload where
  encryptedKeyEnvelope : String
  contentHash : String
  encryptedName : String

/-- `prepareUpload` with the key `rawKey`. -/
def prepareUpload (sha256 : Bytes → Bytes) (rawKey : Vector UInt8 32) (file : File) :
    Except String PreparedUpload := do
  let fileBuffer ← arrayBuffer file.content
  return { encryptedKeyEnvelope := bytesToBase64 rawKey.toList
           contentHash := bytesToBase64 (sha256 fileBuffer)
           encryptedName := bytesToBase64 (textEncode file.name.toList) }

/-- The function `encryptChunk` that `prepareUpload` returns. -/
def encryptChunk (W : SubtleAesGcm) (rawKey : Vector UInt8 32) (index : ℚ) (plaintext : Bytes) :
    Except String Bytes :=
  let nonce := buildNonce index
  match W.encrypt rawKey nonce plaintext with
  | none => .error "OperationError"
  | some ciphertext =>
    .ok (textEncode (stringify [("index", .number index), ("nonce", .array (arrayFrom nonce)),
      ("ciphertext", .array (arrayFrom ciphertext))]))

/-! ## Download -/

/-- The fields of `FileMeta` that a download reads. -/
structure FileMeta where
  totalChunks : ℚ
  encryptedKeyEnvelope : String
  encryptedName : String

section Download

variable (W : SubtleAesGcm) (downloadChunk : ℚ → Except String Bytes)

/-- One round of the loop in `downloadAndDecrypt`. -/
def decryptOne (cryptoKey : Vector UInt8 32) (i : ℚ) : Except String Bytes := do
  let buffer ← downloadChunk i
  let chunk ← parseRawChunk (textDecode buffer)
  if chunk.index ≠ i then
    throw ("Chunk reordering detected: expected index " ++ String.ofList (numberText i) ++
      ", got " ++ String.ofList (numberText chunk.index))
  match W.decrypt cryptoKey (uint8ArrayFrom chunk.nonce) (uint8ArrayFrom chunk.ciphertext) with
  | none => throw "OperationError"
  | some plaintext => return plaintext

/-- The loop of `downloadAndDecrypt`, from `i` on and in at most `fuel` rounds; `none`
    when they do not suffice. -/
def decryptLoop (cryptoKey : Vector UInt8 32) (totalChunks : ℚ) :
    (fuel : ℕ) → (i : ℚ) → (plaintextParts : List Bytes) → Option (Except String (List Bytes))
  | 0, _, _ => none
  | fuel + 1, i, plaintextParts =>
    if i < totalChunks then
      match decryptOne W downloadChunk cryptoKey i with
      | .error e => some (.error e)
      | .ok plaintext =>
        decryptLoop cryptoKey totalChunks fuel (fl (i + 1)) (plaintextParts ++ [plaintext])
    else some (.ok plaintextParts)

/-- The loop that copies the parts into `fullPlaintext`. -/
def copyParts : (parts : List Bytes) → (offset : ℚ) → (fullPlaintext : Bytes) → Except String Bytes
  | [], _, fullPlaintext => .ok fullPlaintext
  | part :: parts, offset, fullPlaintext => do
    let fullPlaintext ← setAt fullPlaintext part offset
    copyParts parts (fl (offset + part.length)) fullPlaintext

/-- The parts in a single buffer. -/
def concatParts (parts : List Bytes) : Except String Bytes := do
  let totalLength := parts.foldl (fun sum p => fl (sum + p.length)) 0
  let fullPlaintext ← newUint8Array totalLength
  copyParts parts 0 fullPlaintext

/-- `downloadAndDecrypt`: the name and the content of the file that is saved. -/
def downloadAndDecrypt (fuel : ℕ) (fileMeta : FileMeta) : Option (Except String File) :=
  match base64ToBytes fileMeta.encryptedKeyEnvelope with
  | .error e => some (.error e)
  | .ok keyBytes =>
    if h : keyBytes.length = 32 then
      (decryptLoop W downloadChunk ⟨keyBytes.toArray, h⟩ fileMeta.totalChunks fuel 0 []).map
        fun parts => do
          let plaintextParts ← parts
          let fullPlaintext ← concatParts plaintextParts
          return { name := decodeFileName fileMeta.encryptedName, content := fullPlaintext }
    else
      some (.error ("Invalid key envelope: expected 32 bytes, got " ++ toString keyBytes.length))

end Download

/-! ## The nonce -/

theorem floor_fl_div {n k : ℕ} (hn : n < 2 ^ 53) (hk : k ≤ 1074) :
    ⌊fl ((n : ℚ) / 2 ^ k)⌋ = (n / 2 ^ k : ℕ) := by
  rw [fl_div_two_pow hn hk]
  exact_mod_cast Rat.floor_natCast_div_natCast n (2 ^ k)

/-- The index is split into two halves of 32 bits and both are written. -/
theorem buildNonce_natCast {index : ℕ} (h : index < 2 ^ 53) :
    buildNonce index = List.replicate 4 0 ++ beBytes 8 index := by
  have hhigh : toUint 32 (⌊fl ((index : ℚ) / 2 ^ 32)⌋ : ℤ) = index / 2 ^ 32 % 2 ^ 32 := by
    rw [floor_fl_div h (by norm_num), Int.cast_natCast, toUint_natCast]
  have hlow : toUint 32 ((toUint 32 (index : ℚ) : ℕ) : ℚ) = index % 2 ^ 32 := by
    rw [toUint_natCast, toUint_natCast, Nat.mod_mod]
  have hmod : ∀ n, beBytes 4 (n % 2 ^ 32) = beBytes 4 n := fun n => beBytes_mod 4 n
  rw [buildNonce, setUint32, setUint32, hhigh, hlow, hmod, hmod, beBytes_add 4 4]
  simp [List.drop_append]

/-! ## Chunk bodies -/

/-- `JSON.stringify` writes the members in the form of the command line client. -/
theorem stringify_eq (index : ℚ) (nonce ciphertext : Bytes) :
    stringify [("index", .number index), ("nonce", .array (arrayFrom nonce)),
      ("ciphertext", .array (arrayFrom ciphertext))] =
        ChunkCiphertext.chunkText (shortest index 20) nonce ciphertext := by
  rw [stringify, membersTail, membersTail, membersTail, text_array_arrayFrom, text_array_arrayFrom]
  rfl

theorem length_buildNonce (index : ℚ) : (buildNonce index).length = 12 := by
  simp [buildNonce, setUint32]

/-- A body is text of ASCII characters. -/
theorem encryptChunk_eq {W : SubtleAesGcm} {rawKey : Vector UInt8 32} {index : ℚ}
    {plaintext ciphertext : Bytes}
    (henc : W.encrypt rawKey (buildNonce index) plaintext = some ciphertext) :
    encryptChunk W rawKey index plaintext = .ok (Json.toAscii
      (ChunkCiphertext.chunkText (shortest index 20) (buildNonce index) ciphertext)) := by
  rw [encryptChunk, henc]
  dsimp only
  rw [stringify_eq, textEncode_ascii fun _ hc => ChunkCiphertext.ascii_chunkText hc]

theorem encryptChunk_natCast {W : SubtleAesGcm} {rawKey : Vector UInt8 32} {index : ℕ}
    {plaintext ciphertext : Bytes} (h : index < 2 ^ 53)
    (henc : W.encrypt rawKey (buildNonce index) plaintext = some ciphertext) :
    encryptChunk W rawKey index plaintext =
      .ok (ChunkCiphertext.toVec
        { index := .ofNat index, nonce := buildNonce index, ciphertext }) := by
  have hindex : (UInt64.ofNat index).toNat = index :=
    UInt64.toNat_ofNat_of_lt' (by rw [UInt64.size]; omega)
  rw [encryptChunk_eq henc, shortest_natCast h, ChunkCiphertext.toVec, ChunkCiphertext.toJson_eq,
    hindex]

theorem map_fl_toNat (b : Bytes) :
    ((b.map UInt8.toNat).map fun n : ℕ => fl n) = arrayFrom b := by
  rw [List.map_map]
  refine List.map_congr_left fun x _ => ?_
  exact fl_natCast (lt_trans x.toNat_lt (by decide))

theorem parseRawChunk_toVec {c : ChunkCiphertext} (h : c.index.toNat < 2 ^ 53) :
    parseRawChunk (textDecode c.toVec) =
      .ok { index := c.index.toNat, nonce := arrayFrom c.nonce,
            ciphertext := arrayFrom c.ciphertext } := by
  rw [ChunkCiphertext.toVec, textDecode_toAscii fun _ hx => ChunkCiphertext.ascii_toJson hx,
    parseRawChunk, ChunkCiphertext.toJson, Json.expect_append, Option.bind_some,
    Json.readNumber_number _ (by simp [nonceLead])]
  simp only [Json.expect_append, Option.bind_some, Json.readArray_array, if_true, map_fl_toNat,
    fl_natCast h]

section Download

variable {W : SubtleAesGcm} {downloadChunk : ℚ → Except String Bytes}
  {cryptoKey : Vector UInt8 32}

theorem decryptOne_toVec {i : ℕ} {c : ChunkCiphertext} {plaintext : Bytes} (h : i < 2 ^ 53)
    (hindex : c.index.toNat = i) (hget : downloadChunk i = .ok c.toVec)
    (hdec : W.decrypt cryptoKey c.nonce c.ciphertext = some plaintext) :
    decryptOne W downloadChunk cryptoKey i = .ok plaintext := by
  rw [decryptOne, hget]
  simp only [bind, Except.bind, parseRawChunk_toVec (hindex ▸ h), hindex, ne_eq, not_true_eq_false,
    if_false, uint8ArrayFrom_arrayFrom, hdec]
  rfl

/-- The loop from `j` on appends the parts from `j` on. -/
theorem decryptLoop_eq {parts : List Bytes} (hlen : parts.length < 2 ^ 53)
    (hparts : ∀ (j : ℕ) p, parts[j]? = some p → decryptOne W downloadChunk cryptoKey j = .ok p)
    {fuel j : ℕ} (hj : j ≤ parts.length) (hfuel : parts.length < j + fuel) (front : List Bytes) :
    decryptLoop W downloadChunk cryptoKey parts.length fuel j front =
      some (.ok (front ++ parts.drop j)) := by
  induction fuel generalizing j front with
  | zero => omega
  | succ fuel ih =>
    rw [decryptLoop]
    rcases Nat.lt_or_eq_of_le hj with hlt | rfl
    · have hnext : fl ((j : ℚ) + 1) = (j + 1 : ℕ) := by
        rw [← Nat.cast_succ, fl_natCast (by omega)]
      rw [if_pos (Nat.cast_lt.mpr hlt), hparts j _ (List.getElem?_eq_getElem hlt)]
      dsimp only
      rw [hnext, ih (by omega) (by omega), List.append_assoc, List.singleton_append,
        List.getElem_cons_drop]
    · rw [if_neg (lt_irrefl _), List.drop_length, List.append_nil]

end Download

/-! ## Concatenation -/

theorem foldl_length {parts : List Bytes} {n : ℕ} (h : n + parts.flatten.length < 2 ^ 53) :
    parts.foldl (fun sum p => fl (sum + p.length)) (n : ℚ) = (n + parts.flatten.length : ℕ) := by
  induction parts generalizing n with
  | nil => rfl
  | cons p parts ih =>
    rw [List.flatten_cons, List.length_append] at h ⊢
    rw [List.foldl_cons, ← Nat.cast_add, fl_natCast (by omega), ih (by omega), Nat.add_assoc]

/-- After each part the buffer holds the parts so far. -/
theorem copyParts_eq {parts : List Bytes} {front rest : Bytes}
    (hrest : rest.length = parts.flatten.length) (h : front.length + rest.length < 2 ^ 53) :
    copyParts parts front.length (front ++ rest) = .ok (front ++ parts.flatten) := by
  induction parts generalizing front rest with
  | nil =>
    obtain rfl := List.length_eq_zero_iff.mp hrest
    rfl
  | cons p parts ih =>
    rw [List.flatten_cons, List.length_append] at hrest
    have hset : setAt (front ++ rest) p front.length =
        .ok ((front ++ p) ++ rest.drop p.length) := by
      rw [setAt, floor_natCast_toNat, if_pos (by rw [List.length_append]; omega),
        List.take_left, List.drop_append, List.drop_of_length_le (by omega), List.nil_append,
        Nat.add_sub_cancel_left, List.append_assoc]
    have hnext : fl ((front.length : ℚ) + p.length) = (front ++ p).length := by
      rw [← Nat.cast_add, fl_natCast (by omega), List.length_append]
    have hcopy : copyParts parts (front ++ p).length ((front ++ p) ++ rest.drop p.length) =
        .ok ((front ++ p) ++ parts.flatten) :=
      ih (by rw [List.length_drop]; omega) (by rw [List.length_append, List.length_drop]; omega)
    rw [copyParts, hset, hnext, List.flatten_cons, ← List.append_assoc]
    exact hcopy

theorem concatParts_of_lt {parts : List Bytes} (h : parts.flatten.length < 2 ^ 53) :
    concatParts parts = .ok parts.flatten := by
  have htotal : parts.foldl (fun sum p => fl (sum + p.length)) ((0 : ℕ) : ℚ) =
      (0 + parts.flatten.length : ℕ) := foldl_length (by omega)
  rw [Nat.cast_zero, Nat.zero_add] at htotal
  have hnew : newUint8Array (parts.flatten.length : ℕ) =
      .ok (List.replicate parts.flatten.length 0) := by
    rw [newUint8Array, if_pos (by rw [maxByteLength]; exact_mod_cast Nat.le_sub_one_of_lt h),
      floor_natCast_toNat]
  have hcopy : copyParts parts (([] : Bytes).length : ℕ)
      ([] ++ List.replicate parts.flatten.length 0) = .ok ([] ++ parts.flatten) :=
    copyParts_eq (by rw [List.length_replicate]) (by simpa using h)
  rw [concatParts, htotal, hnew]
  exact hcopy

end FreeBox.Web
