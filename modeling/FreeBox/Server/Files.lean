import FreeBox.Server.Uploads

/-!
# Reading files

Model of `get_file_meta` and `download_chunk` in `apps/server/src/api/files.rs`.

Results:
* `getFileMeta_of_holdsFile`, `downloadChunk_of_holdsFile`: what the two handlers
  answer for a file whose row and blobs are there.
* `HoldsFile.of_sameFile`: a file is not touched by what happens to other identifiers.
-/

namespace FreeBox.Server

open FreeBox.Lib

/-- `n as u64` for a `BIGINT` column. -/
def asU64 (n : ℤ) : ℕ := (n % 2 ^ 64).toNat

/-- `files::FileMetaResponse`. -/
structure FileMetaResponse where
  fileId : Uuid
  encryptedName : String
  sizeBytes : ℕ
  totalChunks : ℕ
  encryptedKeyEnvelope : String
  contentHash : String
  createdAt : ℕ
  deriving DecidableEq

/-- `WHERE id = $1 AND user_id = $2 AND deleted_at IS NULL`. -/
def selectFile (w : World) (fileId userId : Uuid) : Option FileRow :=
  (w.files.lookup fileId).filter fun row => row.userId = userId ∧ row.deletedAt = none

/-- `files::get_file_meta`. -/
def getFileMeta (w : World) (userId fileId : Uuid) : Except AppError FileMetaResponse :=
  match selectFile w fileId userId with
  | none => .error (.notFound ("file " ++ toString fileId))
  | some row =>
    .ok
      { fileId
        encryptedName := row.encryptedName
        sizeBytes := asU64 row.sizeBytes
        totalChunks := asU32 row.totalChunks
        encryptedKeyEnvelope := row.encryptedKeyEnvelope
        contentHash := row.contentHash
        createdAt := row.createdAt }

/-- `files::download_chunk`. -/
def downloadChunk (w : World) (userId fileId : Uuid) (chunkIndex : UInt32) :
    Except AppError Bytes :=
  match selectFile w fileId userId with
  | none => .error (.notFound ("file " ++ toString fileId))
  | some row =>
    if chunkIndex.toNat ≥ asU32 row.totalChunks then
      .error (.badRequest ("chunk index " ++ toString chunkIndex ++
        " out of range for file with " ++ toString (asU32 row.totalChunks) ++ " chunks"))
    else
      match w.storage.lookup (chunkStorageKey fileId chunkIndex) with
      | none => .error (.notFound (chunkStorageKey fileId chunkIndex))
      | some chunk => .ok chunk

/-! ## Files that are there -/

/-- The file `id` with the row `row`, whose chunks have the bodies `bodies`. -/
structure HoldsFile (w : World) (id : Uuid) (row : FileRow) (bodies : List Bytes) : Prop where
  found : w.files.lookup id = some row
  total : row.totalChunks = bodies.length
  chunk : ∀ i : UInt32, i.toNat < bodies.length →
    w.storage.lookup (chunkStorageKey id i) = bodies[i.toNat]?

variable {w w' : World} {id userId : Uuid} {row : FileRow} {bodies : List Bytes}

theorem HoldsFile.length_lt (h : HoldsFile w id row bodies) : bodies.length < 2 ^ 31 := by
  have hlt := row.total_lt
  rw [h.total] at hlt
  omega

theorem HoldsFile.asU32_total (h : HoldsFile w id row bodies) :
    asU32 row.totalChunks = bodies.length := by
  have htotal := asU32_of_nonneg row.total_pos.le row.total_lt
  rw [h.total] at htotal ⊢
  omega

theorem HoldsFile.selectFile (h : HoldsFile w id row bodies) (hactive : row.deletedAt = none) :
    selectFile w id row.userId = some row := by
  rw [Server.selectFile, h.found, Option.filter_some, if_pos]
  exact decide_eq_true ⟨rfl, hactive⟩

theorem getFileMeta_of_holdsFile (h : HoldsFile w id row bodies) (hactive : row.deletedAt = none) :
    getFileMeta w row.userId id = .ok
      { fileId := id
        encryptedName := row.encryptedName
        sizeBytes := asU64 row.sizeBytes
        totalChunks := bodies.length
        encryptedKeyEnvelope := row.encryptedKeyEnvelope
        contentHash := row.contentHash
        createdAt := row.createdAt } := by
  rw [getFileMeta, h.selectFile hactive, ← h.asU32_total]

theorem downloadChunk_of_holdsFile (h : HoldsFile w id row bodies) (hactive : row.deletedAt = none)
    {i : ℕ} {body : Bytes} (hbody : bodies[i]? = some body) :
    downloadChunk w row.userId id (.ofNat i) = .ok body := by
  obtain ⟨hi, -⟩ := List.getElem?_eq_some_iff.mp hbody
  have hindex : (UInt32.ofNat i).toNat = i := toNat_ofNat_index (hi.trans h.length_lt)
  have hrange : ¬ (UInt32.ofNat i).toNat ≥ asU32 row.totalChunks := by
    rw [hindex, h.asU32_total]; omega
  have hchunk : w.storage.lookup (chunkStorageKey id (.ofNat i)) = some body := by
    rw [h.chunk _ (by rwa [hindex]), hindex, hbody]
  rw [downloadChunk, h.selectFile hactive]
  simp only [if_neg hrange, hchunk]

/-! ## Frame -/

/-- The row of the file `id` and its blobs are the same in both worlds. -/
structure SameFile (w w' : World) (id : Uuid) : Prop where
  found : w'.files.lookup id = w.files.lookup id
  chunk : ∀ i, w'.storage.lookup (chunkStorageKey id i) = w.storage.lookup (chunkStorageKey id i)

theorem SameFile.refl (w : World) (id : Uuid) : SameFile w w id := ⟨rfl, fun _ => rfl⟩

theorem SameFile.trans {w'' : World} (h : SameFile w w' id) (h' : SameFile w' w'' id) :
    SameFile w w'' id :=
  ⟨h'.found.trans h.found, fun i => (h'.chunk i).trans (h.chunk i)⟩

theorem HoldsFile.of_sameFile (h : HoldsFile w id row bodies) (hsame : SameFile w w' id) :
    HoldsFile w' id row bodies where
  found := hsame.found.trans h.found
  total := h.total
  chunk i hi := (hsame.chunk i).trans (h.chunk i hi)

end FreeBox.Server
