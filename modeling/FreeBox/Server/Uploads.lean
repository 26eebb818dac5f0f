import FreeBox.Lib.Bytes
import FreeBox.Lib.Interleaving
import FreeBox.Lib.Uuid
import FreeBox.Server.Http

/-!
# Uploads

Model of the upload handlers in `apps/server/src/api/files.rs` (`upload_init`,
`upload_chunk`, `upload_complete`) and of `purge_orphaned_uploads` in
`apps/server/src/main.rs`. Each SQL statement and each storage call is one atomic
call; requests and purge passes run concurrently.

Results:
* `asI32_ofNat`, `asI64_ofNat`, `asU32_of_nonneg`: casts that lose nothing.
* `chunkStorageKey_inj`, `startsWith_chunkStorageKey`, `chunk_keys_separate`: the storage
  keys of chunks.
* `advance_cases`, `environ_cases`: everything that one call, or an event outside
  the handlers, can do.
-/

namespace FreeBox.Server

open FreeBox.Lib

/-! ## Numbers in columns -/

/-- `n as i32`. -/
def asI32 (n : UInt32) : ℤ := if n.toNat < 2 ^ 31 then n.toNat else n.toNat - 2 ^ 32

/-- `n as i64`. -/
def asI64 (n : UInt64) : ℤ := if n.toNat < 2 ^ 63 then n.toNat else n.toNat - 2 ^ 64

/-- `n as u32` for an `INT` column. -/
def asU32 (n : ℤ) : ℕ := (n % 2 ^ 32).toNat

theorem toNat_ofNat_index {i : ℕ} (h : i < 2 ^ 31) : (UInt32.ofNat i).toNat = i :=
  UInt32.toNat_ofNat_of_lt' (by rw [UInt32.size]; omega)

theorem asI32_ofNat {n : ℕ} (h : n < 2 ^ 31) : asI32 (.ofNat n) = n := by
  rw [asI32, toNat_ofNat_index h, if_pos h]

theorem asI64_ofNat {n : ℕ} (h : n < 2 ^ 63) : asI64 (.ofNat n) = n := by
  have hn : (UInt64.ofNat n).toNat = n := UInt64.toNat_ofNat_of_lt' (by rw [UInt64.size]; omega)
  rw [asI64, hn, if_pos h]

theorem asU32_of_nonneg {n : ℤ} (h0 : 0 ≤ n) (h : n < 2 ^ 31) : (asU32 n : ℤ) = n := by
  unfold asU32; omega

/-! ## Tables -/

/-- A row of `uploads`. The last fields are the column type `INT` and the `CHECK`
    constraints. -/
structure UploadRow where
  userId : Uuid
  totalChunks : ℤ
  chunksReceived : ℤ
  sizeBytes : ℤ
  encryptedKeyEnvelope : String
  contentHash : String
  encryptedName : String
  createdAt : ℕ
  total_pos : 0 < totalChunks
  total_lt : totalChunks < 2 ^ 31
  received_nonneg : 0 ≤ chunksReceived
  received_lt : chunksReceived < 2 ^ 31
  size_nonneg : 0 ≤ sizeBytes
  deriving DecidableEq

/-- A row of `files`. -/
structure FileRow where
  userId : Uuid
  totalChunks : ℤ
  sizeBytes : ℤ
  encryptedKeyEnvelope : String
  contentHash : String
  encryptedName : String
  createdAt : ℕ
  deletedAt : Option ℕ
  total_pos : 0 < totalChunks
  total_lt : totalChunks < 2 ^ 31
  size_nonneg : 0 ≤ sizeBytes
  deriving DecidableEq

/-- The database tables, the object store and the clock (in microseconds).
    `issued` are the identifiers that `Uuid::new_v4` has returned so far. -/
structure World where
  now : ℕ
  uploads : Table Uuid UploadRow
  files : Table Uuid FileRow
  storage : Table String Bytes
  issued : List Uuid

def World.empty : World := { now := 0, uploads := ∅, files := ∅, storage := ∅, issued := [] }

/-- `INTERVAL '24 hours'`. -/
def day : ℕ := 24 * 60 * 60 * 1000000

/-! ## Storage keys -/

/-- `files::chunk_storage_key`. -/
def chunkStorageKey (fileId : Uuid) (chunkIndex : UInt32) : String :=
  "chunks/" ++ toString fileId ++ "/" ++ String.ofList (zeroPad 8 chunkIndex.toNat)

/-- The prefix under which `purge_orphaned_uploads` lists blobs. -/
def chunkPrefix (fileId : Uuid) : String := "chunks/" ++ toString fileId ++ "/"

theorem toList_chunkPrefix (id : Uuid) :
    (chunkPrefix id).toList = "chunks/".toList ++ (id.chars ++ ['/']) := by
  rw [chunkPrefix, String.toList_append, String.toList_append, Uuid.toList_toString,
    List.append_assoc, show "/".toList = ['/'] from rfl]

theorem chunkStorageKey_eq (id : Uuid) (i : UInt32) :
    chunkStorageKey id i = chunkPrefix id ++ String.ofList (zeroPad 8 i.toNat) := rfl

theorem toList_chunkStorageKey (id : Uuid) (i : UInt32) : (chunkStorageKey id i).toList =
    "chunks/".toList ++ (id.chars ++ (['/'] ++ zeroPad 8 i.toNat)) := by
  rw [chunkStorageKey_eq, String.toList_append, toList_chunkPrefix, List.append_assoc,
    List.append_assoc, String.toList_ofList (l := zeroPad 8 i.toNat)]

theorem chunkStorageKey_inj {a b : Uuid} {i j : UInt32}
    (h : chunkStorageKey a i = chunkStorageKey b j) : a = b ∧ i = j := by
  have h := congrArg String.toList h
  rw [toList_chunkStorageKey, toList_chunkStorageKey, List.append_cancel_left_eq] at h
  obtain ⟨hid, hindex⟩ := List.append_inj h (by rw [Uuid.length_chars, Uuid.length_chars])
  exact ⟨Uuid.chars_inj hid, UInt32.toNat_inj.mp (zeroPad_inj (List.cons.inj hindex).2)⟩

theorem startsWith_chunkStorageKey (a b : Uuid) (i : UInt32) :
    startsWith (chunkPrefix b) (chunkStorageKey a i) = true ↔ a = b := by
  rw [startsWith, List.isPrefixOf_iff_prefix, toList_chunkPrefix, toList_chunkStorageKey,
    List.prefix_append_right_inj]
  constructor
  · rintro ⟨t, ht⟩
    rw [List.append_assoc] at ht
    exact (Uuid.chars_inj (List.append_inj ht (by rw [Uuid.length_chars, Uuid.length_chars])).1).symm
  · rintro rfl
    rw [List.prefix_append_right_inj]
    exact ⟨_, rfl⟩

/-- No two chunks share a key, and the prefix of the purge catches the chunks of one upload
only. An index of more than eight digits is printed in full. -/
theorem chunk_keys_separate (a b : Uuid) (i j : UInt32) :
    (chunkStorageKey a i = chunkStorageKey b j ↔ a = b ∧ i = j) ∧
      (startsWith (chunkPrefix b) (chunkStorageKey a i) = true ↔ a = b) := by
  refine ⟨⟨chunkStorageKey_inj, ?_⟩, startsWith_chunkStorageKey a b i⟩
  intro h
  rw [h.1, h.2]

example : chunkStorageKey ⟨1⟩ 4294967295 =
    "chunks/00000000-0000-0000-0000-000000000001/4294967295" := by decide +kernel

/-! ## Requests and responses -/

/-- `files::UploadInitRequest`. -/
structure UploadInitRequest where
  totalChunks : UInt32
  sizeBytes : UInt64
  encryptedKeyEnvelope : String
  contentHash : String
  encryptedName : String
  deriving DecidableEq

/-- A request to `upload_chunk` whose index has been parsed. -/
structure ChunkRequest where
  userId : Uuid
  uploadId : Uuid
  chunkIndex : UInt32
  body : Bytes
  deriving DecidableEq

inductive Response
  /-- 201 with `UploadInitResponse`. -/
  | initialised (uploadId : Uuid) (chunkSize : UInt32)
  /-- 204. -/
  | noContent
  /-- 201 with `UploadCompleteResponse`. -/
  | completed (fileId : Uuid)
  | error (e : AppError)
  deriving DecidableEq

/-- `files::MAX_UPLOAD_CHUNK_BODY_BYTES`. -/
def maxUploadChunkBodyBytes : ℕ := 32 * 1024 * 1024

/-- `files::parse_chunk_index` on the value of the `x-chunk-index` header. -/
def parseChunkIndex (header : Option Bytes) : Except AppError UInt32 :=
  match header with
  | none => .error (.badRequest "missing X-Chunk-Index header")
  | some value =>
    match headerToStr value with
    | none => .error (.badRequest "X-Chunk-Index must be valid ASCII")
    | some raw =>
      match parseU32 raw with
      | none => .error (.badRequest "X-Chunk-Index must be a non-negative integer")
      | some index => .ok index

/-- `files::validate_chunk_body_size`. -/
def validateChunkBodySize (size : ℕ) : Except AppError Unit :=
  if size > maxUploadChunkBodyBytes then
    .error (.payloadTooLarge ("chunk body exceeds " ++ toString maxUploadChunkBodyBytes ++ " bytes"))
  else .ok ()

/-- The checks of `upload_chunk` between its query and its first storage call. -/
def checkChunk (row : UploadRow) (r : ChunkRequest) : Except AppError Unit :=
  if r.chunkIndex.toNat ≥ asU32 row.totalChunks then
    .error (.badRequest ("chunk index " ++ toString r.chunkIndex ++
      " out of range for upload with " ++ toString (asU32 row.totalChunks) ++ " chunks"))
  else if r.body = [] then .error (.badRequest "chunk body must not be empty")
  else validateChunkBodySize r.body.length

theorem checkChunk_ok {row : UploadRow} {r : ChunkRequest} (h : checkChunk row r = .ok ()) :
    (r.chunkIndex.toNat : ℤ) < row.totalChunks := by
  unfold checkChunk at h
  split_ifs at h with hindex
  have := asU32_of_nonneg row.total_pos.le row.total_lt
  omega

/-! ## Handlers -/

/-- A handler in flight, at its next call. A purge pass carries the rows that its
    query returned and that it has not come to yet. -/
inductive Job
  /-- `parse_chunk_index`. -/
  | chunkStart (userId uploadId : Uuid) (header : Option Bytes) (body : Bytes)
  /-- `SELECT … FROM uploads`. -/
  | chunkSelect (r : ChunkRequest)
  /-- `storage.exists`. -/
  | chunkExists (r : ChunkRequest)
  /-- `storage.put`. -/
  | chunkPut (r : ChunkRequest) (alreadyReceived : Bool)
  /-- `UPDATE uploads`. -/
  | chunkUpdate (r : ChunkRequest)
  /-- `SELECT … FROM uploads`. -/
  | completeSelect (userId uploadId : Uuid)
  /-- `INSERT INTO files`. -/
  | completeInsert (userId uploadId : Uuid) (row : UploadRow)
  /-- `DELETE FROM uploads`. -/
  | completeDelete (uploadId : Uuid)
  /-- `SELECT … FROM uploads`. -/
  | purgeSelect
  /-- `storage.list` for one of the rows. -/
  | purgeList (rows : List Uuid)
  /-- `storage.delete` of one of the keys. -/
  | purgeDelete (uploadId : Uuid) (keys : List String) (rows : List Uuid)
  /-- `DELETE FROM uploads`. -/
  | purgeRow (uploadId : Uuid) (rows : List Uuid)
  deriving DecidableEq

/-- What happens outside these handlers: `upload_init`, which is one statement,
    and the passing of time. -/
inductive Event
  | init (userId : Uuid) (req : UploadInitRequest) (newId : Uuid)
  | tick (d : ℕ)
  deriving DecidableEq

/-- The row that `upload_init` inserts, if the `CHECK` constraints accept it. -/
def stage (userId : Uuid) (req : UploadInitRequest) (now : ℕ) : Option UploadRow :=
  if h : 0 < asI32 req.totalChunks ∧ 0 ≤ asI64 req.sizeBytes then
    some
      { userId
        totalChunks := asI32 req.totalChunks
        chunksReceived := 0
        sizeBytes := asI64 req.sizeBytes
        encryptedKeyEnvelope := req.encryptedKeyEnvelope
        contentHash := req.contentHash
        encryptedName := req.encryptedName
        createdAt := now
        total_pos := h.1
        total_lt := by have := req.totalChunks.toNat_lt; unfold asI32; split_ifs <;> omega
        received_nonneg := le_rfl
        received_lt := by norm_num
        size_nonneg := h.2 }
  else none

theorem stage_received {userId : Uuid} {req : UploadInitRequest} {now : ℕ} {row : UploadRow}
    (h : stage userId req now = some row) : row.chunksReceived = 0 := by
  unfold stage at h
  split_ifs at h
  cases h
  rfl

/-- `files::upload_init` with the fresh identifier `newId`. -/
def uploadInit (w : World) (userId : Uuid) (req : UploadInitRequest) (newId : Uuid) :
    World × Response :=
  let w := { w with issued := newId :: w.issued }
  match (stage userId req w.now).bind fun row => Table.insertNew newId row w.uploads with
  | none => (w, .error .internal)
  | some uploads => ({ w with uploads }, .initialised newId (4 * 1024 * 1024))

/-- The row that `upload_complete` inserts. -/
def promote (userId : Uuid) (row : UploadRow) (now : ℕ) : FileRow where
  userId
  totalChunks := row.totalChunks
  sizeBytes := row.sizeBytes
  encryptedKeyEnvelope := row.encryptedKeyEnvelope
  contentHash := row.contentHash
  encryptedName := row.encryptedName
  createdAt := now
  deletedAt := none
  total_pos := row.total_pos
  total_lt := row.total_lt
  size_nonneg := row.size_nonneg

/-- `SET chunks_received = chunks_received + 1`, unless the column overflows. -/
def UploadRow.bump (row : UploadRow) : Option UploadRow :=
  if h : row.chunksReceived + 1 < 2 ^ 31 then
    some { row with
      chunksReceived := row.chunksReceived + 1
      received_nonneg := by have := row.received_nonneg; omega
      received_lt := h }
  else none

/-- `WHERE id = $1 AND user_id = $2`. -/
def selectUpload (w : World) (uploadId userId : Uuid) : Option UploadRow :=
  (w.uploads.lookup uploadId).filter fun row => row.userId = userId

/-- The upload is older than 24 hours. -/
def UploadRow.orphaned (row : UploadRow) (now : ℕ) : Bool := row.createdAt + day < now

/-- The identifiers that a purge pass fetches. -/
def fetchOrphans (w : World) : List Uuid :=
  (Table.selectWhere (fun _ row => row.orphaned w.now) w.uploads).map Prod.fst

/-- `storage.list`. -/
def listKeys (w : World) (lead : String) : List String :=
  (Table.selectWhere (fun key _ => startsWith lead key) w.storage).map Prod.fst

/-- The next row of a purge pass, if there is one. -/
def nextRow (rows : List Uuid) : Next Job Response :=
  if rows = [] then .done none else .goto (.purgeList rows)

/-- The next key of the row `id`, or the row itself after the last key. -/
def nextKey (id : Uuid) (keys : List String) (rows : List Uuid) : Next Job Response :=
  if keys = [] then .goto (.purgeRow id rows) else .goto (.purgeDelete id keys rows)

/-- The next call of `job` succeeds. `pick` chooses among rows and keys that come
    in no particular order. -/
def advance (w : World) (pick : ℕ) : Job → Option (World × Next Job Response)
  | .chunkStart userId uploadId header body =>
    match parseChunkIndex header with
    | .error e => some (w, .done (some (.error e)))
    | .ok chunkIndex => some (w, .goto (.chunkSelect { userId, uploadId, chunkIndex, body }))
  | .chunkSelect r =>
    match selectUpload w r.uploadId r.userId with
    | none => some (w, .done (some (.error (.notFound ("upload " ++ toString r.uploadId)))))
    | some row =>
      match checkChunk row r with
      | .error e => some (w, .done (some (.error e)))
      | .ok () => some (w, .goto (.chunkExists r))
  | .chunkExists r =>
    some (w, .goto (.chunkPut r (chunkStorageKey r.uploadId r.chunkIndex ∈ w.storage)))
  | .chunkPut r alreadyReceived =>
    some ({ w with storage := w.storage.insert (chunkStorageKey r.uploadId r.chunkIndex) r.body },
      if alreadyReceived then .done (some .noContent) else .goto (.chunkUpdate r))
  | .chunkUpdate r =>
    match w.uploads.lookup r.uploadId with
    | none => some (w, .done (some .noContent))
    | some row =>
      match row.bump with
      | none => some (w, .done (some (.error .internal)))
      | some row' => some ({ w with uploads := w.uploads.insert r.uploadId row' },
          .done (some .noContent))
  | .completeSelect userId uploadId =>
    match selectUpload w uploadId userId with
    | none => some (w, .done (some (.error (.notFound ("upload " ++ toString uploadId)))))
    | some row =>
      if row.chunksReceived < row.totalChunks then
        some (w, .done (some (.error (.badRequest ("missing chunks: expected " ++
          toString row.totalChunks ++ ", received " ++ toString row.chunksReceived)))))
      else some (w, .goto (.completeInsert userId uploadId row))
  | .completeInsert userId uploadId row =>
    match Table.insertNew uploadId (promote userId row w.now) w.files with
    | none => some (w, .done (some (.error .internal)))
    | some files => some ({ w with files }, .goto (.completeDelete uploadId))
  | .completeDelete uploadId =>
    some ({ w with uploads := w.uploads.erase uploadId }, .done (some (.completed uploadId)))
  | .purgeSelect => some (w, nextRow (fetchOrphans w))
  | .purgeList rows =>
    rows[pick]?.bind fun id => some (w, nextKey id (listKeys w (chunkPrefix id)) (rows.eraseIdx pick))
  | .purgeDelete id keys rows =>
    keys[pick]?.bind fun key =>
      some ({ w with storage := w.storage.erase key }, nextKey id (keys.eraseIdx pick) rows)
  | .purgeRow id rows => some ({ w with uploads := w.uploads.erase id }, nextRow rows)

/-- The next call of `job` fails. The last call of `upload_complete` is best
    effort, and a purge pass goes on after a failure. -/
def onFail (pick : ℕ) : Job → Option (Next Job Response)
  | .chunkStart .. => none
  | .chunkSelect _ | .chunkExists _ | .chunkPut .. | .chunkUpdate _ | .completeSelect ..
  | .completeInsert .. => some (.done (some (.error .internal)))
  | .completeDelete uploadId => some (.done (some (.completed uploadId)))
  | .purgeSelect => some (.done none)
  | .purgeList rows => rows[pick]?.map fun id => .goto (.purgeRow id (rows.eraseIdx pick))
  | .purgeDelete id keys rows => keys[pick]?.map fun _ => nextKey id (keys.eraseIdx pick) rows
  | .purgeRow _ rows => some (nextRow rows)

/-- Identifiers never repeat. -/
def environ (w : World) : Event → Option World
  | .init userId req newId =>
    if newId ∈ w.issued then none else some (uploadInit w userId req newId).1
  | .tick d => some { w with now := w.now + d }

/-- The upload handlers and purge passes. -/
def uploadHandlers : Handlers World Job Response Event where
  entry
    | .chunkStart .. | .completeSelect .. | .purgeSelect => true
    | _ => false
  advance := advance
  onFail := onFail
  environ := environ

abbrev State := Sys World Job Response

abbrev Step := Action Job Event

abbrev step : State → Step → Option State := uploadHandlers.step

/-! ## What one call can do -/

/-- The next call may end the request with an error that changes nothing. -/
def Job.mayReject : Job → Bool
  | .chunkStart .. | .chunkSelect _ | .completeSelect .. | .completeInsert .. => true
  | _ => false

/-- Everything that a successful call of `job` in the world `w` can do. -/
inductive CallCase (w : World) (pick : ℕ) : Job → World → Next Job Response → Prop
  | rejected {job : Job} {e : AppError} (hjob : job.mayReject = true) :
      CallCase w pick job w (.done (some (.error e)))
  | parsed {userId uploadId : Uuid} {header : Option Bytes} {body : Bytes} {chunkIndex : UInt32}
      (hindex : parseChunkIndex header = .ok chunkIndex) :
      CallCase w pick (.chunkStart userId uploadId header body) w
        (.goto (.chunkSelect { userId, uploadId, chunkIndex, body }))
  | selected {r : ChunkRequest} {row : UploadRow}
      (hrow : selectUpload w r.uploadId r.userId = some row) (hcheck : checkChunk row r = .ok ()) :
      CallCase w pick (.chunkSelect r) w (.goto (.chunkExists r))
  | probed {r : ChunkRequest} : CallCase w pick (.chunkExists r) w
      (.goto (.chunkPut r (chunkStorageKey r.uploadId r.chunkIndex ∈ w.storage)))
  | stored {r : ChunkRequest} {alreadyReceived : Bool} :
      CallCase w pick (.chunkPut r alreadyReceived)
        { w with storage := w.storage.insert (chunkStorageKey r.uploadId r.chunkIndex) r.body }
        (if alreadyReceived then .done (some .noContent) else .goto (.chunkUpdate r))
  | counted {r : ChunkRequest} {row row' : UploadRow} (hrow : w.uploads.lookup r.uploadId = some row)
      (hbump : row.bump = some row') :
      CallCase w pick (.chunkUpdate r) { w with uploads := w.uploads.insert r.uploadId row' }
        (.done (some .noContent))
  | uncounted {r : ChunkRequest} (hrow : w.uploads.lookup r.uploadId = none) :
      CallCase w pick (.chunkUpdate r) w (.done (some .noContent))
  | overflowed {r : ChunkRequest} {row : UploadRow} (hrow : w.uploads.lookup r.uploadId = some row)
      (hbump : row.bump = none) :
      CallCase w pick (.chunkUpdate r) w (.done (some (.error .internal)))
  | complete {userId uploadId : Uuid} {row : UploadRow}
      (hrow : selectUpload w uploadId userId = some row)
      (hall : row.totalChunks ≤ row.chunksReceived) :
      CallCase w pick (.completeSelect userId uploadId) w
        (.goto (.completeInsert userId uploadId row))
  | promoted {userId uploadId : Uuid} {row : UploadRow} (hnew : w.files.lookup uploadId = none) :
      CallCase w pick (.completeInsert userId uploadId row)
        { w with files := w.files.insert uploadId (promote userId row w.now) }
        (.goto (.completeDelete uploadId))
  | unstaged {uploadId : Uuid} :
      CallCase w pick (.completeDelete uploadId) { w with uploads := w.uploads.erase uploadId }
        (.done (some (.completed uploadId)))
  | fetched : CallCase w pick .purgeSelect w (nextRow (fetchOrphans w))
  | listed {rows : List Uuid} {id : Uuid} (hid : rows[pick]? = some id) :
      CallCase w pick (.purgeList rows) w
        (nextKey id (listKeys w (chunkPrefix id)) (rows.eraseIdx pick))
  | blobDeleted {id : Uuid} {keys : List String} {rows : List Uuid} {key : String}
      (hkey : keys[pick]? = some key) :
      CallCase w pick (.purgeDelete id keys rows) { w with storage := w.storage.erase key }
        (nextKey id (keys.eraseIdx pick) rows)
  | rowDeleted {id : Uuid} {rows : List Uuid} :
      CallCase w pick (.purgeRow id rows) { w with uploads := w.uploads.erase id } (nextRow rows)

variable {w w' : World} {pick : ℕ} {job : Job} {next : Next Job Response}

theorem advance_cases (h : advance w pick job = some (w', next)) :
    CallCase w pick job w' next := by
  cases job with
  | chunkStart userId uploadId header body =>
    simp only [advance] at h
    cases hindex : parseChunkIndex header <;> rw [hindex] at h <;> cases h
    · exact .rejected rfl
    · exact .parsed hindex
  | chunkSelect r =>
    simp only [advance] at h
    cases hrow : selectUpload w r.uploadId r.userId with
    | none => rw [hrow] at h; cases h; exact .rejected rfl
    | some row =>
      rw [hrow] at h
      cases hcheck : checkChunk row r <;> simp only [hcheck] at h <;> cases h
      · exact .rejected rfl
      · exact .selected hrow hcheck
  | chunkExists r => cases h; exact .probed
  | chunkPut r already => cases h; exact .stored
  | chunkUpdate r =>
    simp only [advance] at h
    cases hrow : w.uploads.lookup r.uploadId with
    | none => rw [hrow] at h; cases h; exact .uncounted hrow
    | some row =>
      rw [hrow] at h
      cases hbump : row.bump <;> simp only [hbump] at h <;> cases h
      · exact .overflowed hrow hbump
      · exact .counted hrow hbump
  | completeSelect userId uploadId =>
    simp only [advance] at h
    cases hrow : selectUpload w uploadId userId with
    | none => rw [hrow] at h; cases h; exact .rejected rfl
    | some row =>
      rw [hrow] at h
      simp only at h
      split_ifs at h with hmissing <;> cases h
      · exact .rejected rfl
      · exact .complete hrow (not_lt.mp hmissing)
  | completeInsert userId uploadId row =>
    simp only [advance] at h
    cases hins : Table.insertNew uploadId (promote userId row w.now) w.files with
    | none => rw [hins] at h; cases h; exact .rejected rfl
    | some files =>
      rw [hins] at h
      obtain ⟨hnew, rfl⟩ := Table.insertNew_eq_some hins
      cases h
      exact .promoted hnew
  | completeDelete uploadId => cases h; exact .unstaged
  | purgeSelect => cases h; exact .fetched
  | purgeList rows =>
    obtain ⟨id, hid, h⟩ := Option.bind_eq_some_iff.mp h
    cases h
    exact .listed hid
  | purgeDelete id keys rows =>
    obtain ⟨key, hkey, h⟩ := Option.bind_eq_some_iff.mp h
    cases h
    exact .blobDeleted hkey
  | purgeRow id rows => cases h; exact .rowDeleted

/-- Everything that `upload_init` can do. -/
inductive InitCase (w : World) (userId : Uuid) (req : UploadInitRequest) (newId : Uuid) :
    World × Response → Prop
  | refused : InitCase w userId req newId
      ({ w with issued := newId :: w.issued }, .error .internal)
  | initialised {row : UploadRow} (hnew : w.uploads.lookup newId = none)
      (hrow : stage userId req w.now = some row) :
      InitCase w userId req newId
        ({ w with issued := newId :: w.issued, uploads := w.uploads.insert newId row },
          .initialised newId (4 * 1024 * 1024))

theorem uploadInit_cases (w : World) (userId : Uuid) (req : UploadInitRequest) (newId : Uuid) :
    InitCase w userId req newId (uploadInit w userId req newId) := by
  unfold uploadInit
  dsimp only
  cases hbind : (stage userId req w.now).bind fun row => Table.insertNew newId row w.uploads with
  | none => exact .refused
  | some uploads =>
    obtain ⟨row, hrow, hins⟩ := Option.bind_eq_some_iff.mp hbind
    obtain ⟨hnew, rfl⟩ := Table.insertNew_eq_some hins
    exact .initialised hnew hrow

/-- Everything that an event outside the handlers can do. -/
inductive EventCase (w : World) : Event → World → Prop
  | ticked {d : ℕ} : EventCase w (.tick d) { w with now := w.now + d }
  | refused {userId newId : Uuid} {req : UploadInitRequest} :
      EventCase w (.init userId req newId) { w with issued := newId :: w.issued }
  | initialised {userId newId : Uuid} {req : UploadInitRequest} {row : UploadRow}
      (hissued : newId ∉ w.issued) (hnew : w.uploads.lookup newId = none)
      (hrow : stage userId req w.now = some row) :
      EventCase w (.init userId req newId)
        { w with issued := newId :: w.issued, uploads := w.uploads.insert newId row }

theorem environ_cases {e : Event} (h : environ w e = some w') : EventCase w e w' := by
  cases e with
  | tick d => cases h; exact .ticked
  | init userId req newId =>
    simp only [environ] at h
    split_ifs at h with hissued
    obtain rfl := Option.some.inj h
    have hcase := uploadInit_cases w userId req newId
    generalize uploadInit w userId req newId = result at hcase ⊢
    cases hcase with
    | refused => exact .refused
    | initialised hnew hrow => exact .initialised hissued hnew hrow

end FreeBox.Server
