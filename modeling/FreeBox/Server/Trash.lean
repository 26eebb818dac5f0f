import FreeBox.Server.Files
import Mathlib.Data.Prod.Lex

/-!
# Listings and the trash

Model of `list_files`, `delete_file`, `list_trash`, `restore_file` and
`rename_file` in `apps/server/src/api/files.rs`. Each is one SQL statement.

Results:
* `mem_activeFiles`, `mem_trashedFiles`: the rows that a listing goes through.
* `listed_iff`, `listedInTrash_iff`: a file is on some page of a listing exactly when
  it is among these rows.
* `total_iff`: which totals ignore the paging.
* `updateFile_cases`: everything that an `UPDATE files` of one row can do.
-/

namespace FreeBox.Server

open FreeBox.Lib

/-! ## Paging -/

/-- `files::FileListQuery`. -/
structure FileListQuery where
  limit : Option ℤ
  offset : Option ℤ
  deriving DecidableEq

/-- `params.limit.unwrap_or(50).clamp(1, 200)`. -/
def FileListQuery.clampedLimit (query : FileListQuery) : ℤ := max 1 (min 200 (query.limit.getD 50))

/-- `params.offset.unwrap_or(0).max(0)`. -/
def FileListQuery.clampedOffset (query : FileListQuery) : ℤ := max (query.offset.getD 0) 0

/-- `LIMIT $2 OFFSET $3`. -/
def FileListQuery.page {α : Type*} (query : FileListQuery) (rows : List α) : List α :=
  (rows.drop query.clampedOffset.toNat).take query.clampedLimit.toNat

/-- `COUNT(*) OVER()` of the first row of the page, or 0 if the page is empty. -/
def FileListQuery.total {α : Type*} (query : FileListQuery) (rows : List α) : ℕ :=
  if query.page rows = [] then 0 else rows.length

/-- The sort key of `ORDER BY column DESC`. The database leaves the order of rows with
    the same time open; `rank` chooses it. -/
def descending (rank : Uuid → ℕ) (column : FileRow → ℕ) (e : Uuid × FileRow) :
    ℕᵒᵈ ×ₗ ℕ ×ₗ ℕ :=
  toLex (OrderDual.toDual (column e.2), toLex (rank e.1, e.1.value.toNat))

theorem descending_inj {rank : Uuid → ℕ} {column : FileRow → ℕ} {a b : Uuid × FileRow}
    (h : descending rank column a = descending rank column b) : a.1 = b.1 := by
  have hrest := congrArg Prod.snd (toLex.injective h)
  have hid : a.1.value.toNat = b.1.value.toNat := congrArg Prod.snd (toLex.injective hrest)
  have hvalue : a.1.value = b.1.value := BitVec.eq_of_toNat_eq hid
  exact congrArg Uuid.mk hvalue

/-! ## Listings -/

/-- The fields of a row that `get_file_meta` and `list_files` return. -/
def fileMeta (fileId : Uuid) (row : FileRow) : FileMetaResponse where
  fileId
  encryptedName := row.encryptedName
  sizeBytes := asU64 row.sizeBytes
  totalChunks := asU32 row.totalChunks
  encryptedKeyEnvelope := row.encryptedKeyEnvelope
  contentHash := row.contentHash
  createdAt := row.createdAt

/-- `files::FileListResponse`. -/
structure FileListResponse where
  files : List FileMetaResponse
  total : ℕ
  limit : ℤ
  offset : ℤ
  deriving DecidableEq

/-- `files::TrashFileResponse`. -/
structure TrashFileResponse where
  fileId : Uuid
  encryptedName : String
  sizeBytes : ℕ
  totalChunks : ℕ
  contentHash : String
  createdAt : ℕ
  deletedAt : ℕ
  deriving DecidableEq

/-- `files::TrashListResponse`. -/
structure TrashListResponse where
  files : List TrashFileResponse
  total : ℕ
  limit : ℤ
  offset : ℤ
  deriving DecidableEq

/-- `INTERVAL '30 days'`. -/
def retention : ℕ := 30 * day

/-- `user_id = $1 AND deleted_at IS NULL`. -/
def FileRow.active (userId : Uuid) (row : FileRow) : Bool :=
  row.userId = userId ∧ row.deletedAt = none

/-- `user_id = $1 AND deleted_at IS NOT NULL AND deleted_at > NOW() - INTERVAL '30 days'`. -/
def FileRow.trashed (userId : Uuid) (now : ℕ) (row : FileRow) : Bool :=
  row.userId = userId ∧ row.deletedAt.any fun t => now < t + retention

/-- The rows of `list_files` before `LIMIT`. -/
def activeFiles (w : World) (userId : Uuid) (rank : Uuid → ℕ) : List (Uuid × FileRow) :=
  Table.orderBy (descending rank FileRow.createdAt) (fun _ row => row.active userId) w.files

/-- The rows of `list_trash` before `LIMIT`. -/
def trashedFiles (w : World) (userId : Uuid) (rank : Uuid → ℕ) : List (Uuid × FileRow) :=
  Table.orderBy (descending rank fun row => row.deletedAt.getD 0)
    (fun _ row => row.trashed userId w.now) w.files

/-- `files::list_files`. -/
def listFiles (w : World) (userId : Uuid) (query : FileListQuery) (rank : Uuid → ℕ) :
    FileListResponse where
  files := (query.page (activeFiles w userId rank)).map fun (fileId, row) => fileMeta fileId row
  total := query.total (activeFiles w userId rank)
  limit := query.clampedLimit
  offset := query.clampedOffset

/-- `files::list_trash`. -/
def listTrash (w : World) (userId : Uuid) (query : FileListQuery) (rank : Uuid → ℕ) :
    TrashListResponse where
  files := (query.page (trashedFiles w userId rank)).map fun (fileId, row) =>
    { fileId
      encryptedName := row.encryptedName
      sizeBytes := asU64 row.sizeBytes
      totalChunks := asU32 row.totalChunks
      contentHash := row.contentHash
      createdAt := row.createdAt
      deletedAt := row.deletedAt.getD 0 }
  total := query.total (trashedFiles w userId rank)
  limit := query.clampedLimit
  offset := query.clampedOffset

/-! ## Updates -/

/-- `UPDATE files SET f WHERE id = fileId AND p`; no affected row is the error
    `missing`. -/
def updateFile (w : World) (fileId : Uuid) (p : FileRow → Bool) (f : FileRow → FileRow)
    (missing : String) : World × Except AppError Unit :=
  match (w.files.lookup fileId).filter p with
  | none => (w, .error (.notFound missing))
  | some row => ({ w with files := w.files.insert fileId (f row) }, .ok ())

/-- `files::delete_file`. -/
def deleteFile (w : World) (userId fileId : Uuid) : World × Except AppError Unit :=
  updateFile w fileId (FileRow.active userId) (fun row => { row with deletedAt := some w.now })
    ("file " ++ toString fileId)

/-- `files::restore_file`. -/
def restoreFile (w : World) (userId fileId : Uuid) : World × Except AppError Unit :=
  updateFile w fileId (FileRow.trashed userId w.now) (fun row => { row with deletedAt := none })
    ("file " ++ toString fileId ++
      " is not in trash or the 30-day restore window has expired")

/-- `req.encrypted_name.trim().is_empty()`. -/
def isBlank (name : String) : Bool := strTrim name = ""

/-- `files::rename_file`. -/
def renameFile (w : World) (userId fileId : Uuid) (encryptedName : String) :
    World × Except AppError Unit :=
  if isBlank encryptedName then (w, .error (.badRequest "encrypted_name must not be empty"))
  else if hasNul encryptedName then (w, .error .internal)
  else
    updateFile w fileId (FileRow.active userId) (fun row => { row with encryptedName })
      ("file " ++ toString fileId)

/-! ## What the listings show -/

variable {w w' : World} {userId fileId id : Uuid} {rank : Uuid → ℕ} {row : FileRow}

theorem active_iff : row.active userId = true ↔ row.userId = userId ∧ row.deletedAt = none := by
  rw [FileRow.active, decide_eq_true_eq]

theorem trashed_iff {now : ℕ} : row.trashed userId now = true ↔
    row.userId = userId ∧ ∃ t, row.deletedAt = some t ∧ now < t + retention := by
  rw [FileRow.trashed, decide_eq_true_eq, Option.any_eq_true]
  simp only [decide_eq_true_eq]

theorem mem_activeFiles : (id, row) ∈ activeFiles w userId rank ↔
    w.files.lookup id = some row ∧ row.active userId = true :=
  Table.mem_orderBy

theorem mem_trashedFiles : (id, row) ∈ trashedFiles w userId rank ↔
    w.files.lookup id = some row ∧ row.trashed userId w.now = true :=
  Table.mem_orderBy

theorem selectFile_eq (w : World) (fileId userId : Uuid) :
    selectFile w fileId userId = (w.files.lookup fileId).filter (FileRow.active userId) := rfl

theorem selectFile_eq_some : selectFile w fileId userId = some row ↔
    w.files.lookup fileId = some row ∧ row.active userId = true := by
  rw [selectFile_eq, Option.filter_eq_some_iff]

theorem getFileMeta_eq_ok {answer : FileMetaResponse} :
    getFileMeta w userId fileId = .ok answer ↔
      ∃ row, selectFile w fileId userId = some row ∧ fileMeta fileId row = answer := by
  unfold getFileMeta
  cases selectFile w fileId userId with
  | none => simp
  | some row => simp [fileMeta]

/-- Every row is on the page of one row that starts with it. -/
theorem exists_page {α : Type*} {rows : List α} {x : α} (h : x ∈ rows) :
    ∃ query : FileListQuery, x ∈ query.page rows := by
  obtain ⟨n, hn, rfl⟩ := List.getElem_of_mem h
  refine ⟨{ limit := some 1, offset := some n }, ?_⟩
  have hoffset : FileListQuery.clampedOffset { limit := some 1, offset := some n } = n :=
    max_eq_left (Int.natCast_nonneg n)
  have hlimit : FileListQuery.clampedLimit { limit := some 1, offset := some n } = 1 := rfl
  rw [FileListQuery.page, hoffset, hlimit, Int.toNat_natCast, List.drop_eq_getElem_cons hn]
  exact List.mem_cons_self

theorem mem_of_mem_page {α : Type*} {query : FileListQuery} {rows : List α} {x : α}
    (h : x ∈ query.page rows) : x ∈ rows :=
  List.mem_of_mem_drop (List.mem_of_mem_take h)

/-- The file is on some page of `list_files`. -/
def Listed (w : World) (userId id : Uuid) : Prop :=
  ∃ query rank, ∃ f ∈ (listFiles w userId query rank).files, f.fileId = id

/-- The file is on some page of `list_trash`. -/
def ListedInTrash (w : World) (userId id : Uuid) : Prop :=
  ∃ query rank, ∃ f ∈ (listTrash w userId query rank).files, f.fileId = id

theorem mem_listFiles {query : FileListQuery} {f : FileMetaResponse}
    (h : f ∈ (listFiles w userId query rank).files) :
    ∃ row, w.files.lookup f.fileId = some row ∧ row.active userId = true ∧
      f = fileMeta f.fileId row := by
  obtain ⟨⟨fileId, row⟩, hmem, rfl⟩ := List.mem_map.mp h
  obtain ⟨hrow, hactive⟩ := mem_activeFiles.mp (mem_of_mem_page hmem)
  exact ⟨row, hrow, hactive, rfl⟩

theorem listed_iff : Listed w userId id ↔
    ∃ row, w.files.lookup id = some row ∧ row.active userId = true := by
  constructor
  · rintro ⟨query, rank, f, hf, rfl⟩
    obtain ⟨row, hrow, hactive, -⟩ := mem_listFiles hf
    exact ⟨row, hrow, hactive⟩
  · rintro ⟨row, hrow, hactive⟩
    have hmem : (id, row) ∈ activeFiles w userId fun _ => 0 := mem_activeFiles.mpr ⟨hrow, hactive⟩
    obtain ⟨query, hpage⟩ := exists_page hmem
    exact ⟨query, fun _ => 0, _, List.mem_map_of_mem hpage, rfl⟩

theorem listedInTrash_iff : ListedInTrash w userId id ↔
    ∃ row, w.files.lookup id = some row ∧ row.trashed userId w.now = true := by
  constructor
  · rintro ⟨query, rank, f, hf, rfl⟩
    obtain ⟨⟨fileId, row⟩, hmem, rfl⟩ := List.mem_map.mp hf
    obtain ⟨hrow, htrashed⟩ := mem_trashedFiles.mp (mem_of_mem_page hmem)
    exact ⟨row, hrow, htrashed⟩
  · rintro ⟨row, hrow, htrashed⟩
    have hmem : (id, row) ∈ trashedFiles w userId fun _ => 0 :=
      mem_trashedFiles.mpr ⟨hrow, htrashed⟩
    obtain ⟨query, hpage⟩ := exists_page hmem
    exact ⟨query, fun _ => 0, _, List.mem_map_of_mem hpage, rfl⟩

/-! ## Totals -/

theorem FileListQuery.clampedLimit_pos (query : FileListQuery) : 0 < query.clampedLimit := by
  unfold clampedLimit
  omega

theorem FileListQuery.clampedOffset_nonneg (query : FileListQuery) : 0 ≤ query.clampedOffset :=
  le_max_right _ _

/-- The page is empty exactly when the offset is past the last row. -/
theorem FileListQuery.page_eq_nil {α : Type*} {query : FileListQuery} {rows : List α} :
    query.page rows = [] ↔ (rows.length : ℤ) ≤ query.clampedOffset := by
  have hlimit := query.clampedLimit_pos
  have hoffset := query.clampedOffset_nonneg
  rw [page, List.take_eq_nil_iff, List.drop_eq_nil_iff]
  omega

theorem FileListQuery.total_eq_length_iff {α : Type*} {query : FileListQuery} {rows : List α} :
    query.total rows = rows.length ↔ rows.length = 0 ∨ query.clampedOffset < rows.length := by
  have hoffset := query.clampedOffset_nonneg
  unfold total
  split_ifs with hpage
  · rw [page_eq_nil] at hpage
    omega
  · rw [page_eq_nil] at hpage
    omega

/-- The number of active files of a user. -/
def activeCount (w : World) (userId : Uuid) : ℕ :=
  Table.countWhere (fun _ row => row.active userId) w.files

/-- The number of files that a user has deleted within the last 30 days. -/
def trashedCount (w : World) (userId : Uuid) : ℕ :=
  Table.countWhere (fun _ row => row.trashed userId w.now) w.files

/-- The total is the number of files that match exactly when there are none or the offset
    leaves some of them on the page. -/
theorem total_iff (w : World) (userId : Uuid) (query : FileListQuery) (rank : Uuid → ℕ) :
    ((listFiles w userId query rank).total = activeCount w userId ↔
      activeCount w userId = 0 ∨ query.clampedOffset < activeCount w userId) ∧
    ((listTrash w userId query rank).total = trashedCount w userId ↔
      trashedCount w userId = 0 ∨ query.clampedOffset < trashedCount w userId) := by
  have hactive : (activeFiles w userId rank).length = activeCount w userId :=
    Table.length_orderBy ..
  have htrashed : (trashedFiles w userId rank).length = trashedCount w userId :=
    Table.length_orderBy ..
  rw [← hactive, ← htrashed]
  exact ⟨FileListQuery.total_eq_length_iff, FileListQuery.total_eq_length_iff⟩

/-- One file, and one in the trash. -/
def runListing : World :=
  let row : FileRow :=
    { userId := ⟨1⟩, totalChunks := 1, sizeBytes := 1, encryptedKeyEnvelope := "key",
      contentHash := "hash", encryptedName := "name", createdAt := 0, deletedAt := none,
      total_pos := Int.one_pos, total_lt := by norm_num, size_nonneg := Int.one_nonneg }
  { World.empty with
    files := (AList.singleton ⟨2⟩ row).insert ⟨3⟩ { row with deletedAt := some 0 } }

/-- The second page is empty, and so is its total. -/
theorem total_past_end :
    (listFiles runListing ⟨1⟩ { limit := some 1, offset := some 1 } fun _ => 0).total = 0 ∧
      activeCount runListing ⟨1⟩ = 1 ∧
    (listTrash runListing ⟨1⟩ { limit := some 1, offset := some 1 } fun _ => 0).total = 0 ∧
      trashedCount runListing ⟨1⟩ = 1 := by
  decide +kernel

/-! ## What an update can do -/

/-- Everything that an `UPDATE` of one row can do. -/
inductive UpdateCase (w : World) (fileId : Uuid) (p : FileRow → Bool) (f : FileRow → FileRow)
    (missing : String) : World × Except AppError Unit → Prop
  | missed (h : ∀ row, w.files.lookup fileId = some row → p row = false) :
      UpdateCase w fileId p f missing (w, .error (.notFound missing))
  | updated {row : FileRow} (hrow : w.files.lookup fileId = some row) (hp : p row = true) :
      UpdateCase w fileId p f missing
        ({ w with files := w.files.insert fileId (f row) }, .ok ())

theorem updateFile_cases (w : World) (fileId : Uuid) (p : FileRow → Bool) (f : FileRow → FileRow)
    (missing : String) : UpdateCase w fileId p f missing (updateFile w fileId p f missing) := by
  unfold updateFile
  cases h : (w.files.lookup fileId).filter p with
  | none =>
    refine .missed fun row hrow => ?_
    rw [Option.filter_eq_none_iff] at h
    exact Bool.eq_false_of_not_eq_true (h row hrow)
  | some row =>
    obtain ⟨hrow, hp⟩ := Option.filter_eq_some_iff.mp h
    exact .updated hrow hp

theorem updateFile_of_lookup {p : FileRow → Bool} (f : FileRow → FileRow) (missing : String)
    (hrow : w.files.lookup fileId = some row) (hp : p row = true) :
    updateFile w fileId p f missing =
      ({ w with files := w.files.insert fileId (f row) }, .ok ()) := by
  rw [updateFile, hrow, Option.filter_some, if_pos hp]

theorem updateFile_of_not {p : FileRow → Bool} (f : FileRow → FileRow) (missing : String)
    (h : ∀ row, w.files.lookup fileId = some row → p row = false) :
    updateFile w fileId p f missing = (w, .error (.notFound missing)) := by
  have hnone : (w.files.lookup fileId).filter p = none :=
    Option.filter_eq_none_iff.mpr fun row hrow hp => by rw [h row hrow] at hp; cases hp
  rw [updateFile, hnone]

end FreeBox.Server
