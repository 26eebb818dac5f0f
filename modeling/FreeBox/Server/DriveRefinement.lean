import FreeBox.Server.Drive
import FreeBox.Server.Metadata
import FreeBox.Server.PurgeAlone

/-!
# The server as a drive

The tables and the object store of the file server represent a drive, and the handlers
that run alone do what the drive does. A purge pass makes its calls in any order; it ends
in one way all the same. The calls of the database and of the store succeed here. A name
with U+0000 in `rename_file` is refused; such a text in any other request is a call that
fails, and is left out.

Results:
* `Represents`: what the tables and the store say of the drive.
* `Represents.uploadInit` to `Represents.purge`: one request.
* `server_logs`: the server and the drive give the same answers to the same requests.
-/

namespace FreeBox.Server

open FreeBox.Lib Handlers

/-! ## Rows -/

/-- The row of an upload in `uploads`. -/
def PartialFile.row (u : PartialFile) : UploadRow where
  userId := u.info.owner
  totalChunks := u.info.totalChunks
  chunksReceived := u.received
  sizeBytes := u.info.sizeBytes
  encryptedKeyEnvelope := u.info.encryptedKeyEnvelope
  contentHash := u.info.contentHash
  encryptedName := u.info.encryptedName
  createdAt := u.startedAt
  total_pos := Int.natCast_pos.mpr u.info.total_pos
  total_lt := by have := u.info.total_lt; omega
  received_nonneg := Int.natCast_nonneg _
  received_lt := by have := u.received_le; have := u.info.total_lt; omega
  size_nonneg := Int.natCast_nonneg _

/-- The row of a file in `files`. -/
def DriveFile.row (f : DriveFile) : FileRow where
  userId := f.info.owner
  totalChunks := f.info.totalChunks
  sizeBytes := f.info.sizeBytes
  encryptedKeyEnvelope := f.info.encryptedKeyEnvelope
  contentHash := f.info.contentHash
  encryptedName := f.info.encryptedName
  createdAt := f.createdAt
  deletedAt := f.deletedAt
  total_pos := Int.natCast_pos.mpr f.info.total_pos
  total_lt := by have := f.info.total_lt; omega
  size_nonneg := Int.natCast_nonneg _

/-- The chunk `i` of the upload or of the file `id`. -/
def Drive.chunk? (d : Drive) (id : Uuid) (i : ℕ) : Option Bytes :=
  match d.uploads.lookup id with
  | some u => u.chunks[i]?.join
  | none => (d.files.lookup id).bind fun f => f.content[i]?

/-- What the tables and the store say of the drive. -/
structure Represents (w : World) (d : Drive) : Prop where
  now : w.now = d.now
  issued : w.issued = d.issued
  uploads : ∀ id, w.uploads.lookup id = (d.uploads.lookup id).map PartialFile.row
  files : ∀ id, w.files.lookup id = (d.files.lookup id).map DriveFile.row
  chunks : ∀ id i, w.storage.lookup (chunkStorageKey id i) = d.chunk? id i.toNat
  /-- No upload has the identifier of a file. -/
  apart : ∀ id u, d.uploads.lookup id = some u → d.files.lookup id = none
  known : ∀ id, id ∉ d.issued → d.uploads.lookup id = none ∧ d.files.lookup id = none

theorem represents_empty : Represents World.empty Drive.empty where
  now := rfl
  issued := rfl
  uploads _ := rfl
  files _ := rfl
  chunks _ _ := rfl
  apart _ _ h := by cases h
  known _ _ := ⟨rfl, rfl⟩

theorem asU32_natCast {n : ℕ} (h : n < 2 ^ 31) : asU32 n = n := by
  unfold asU32
  omega

theorem asU64_natCast {n : ℕ} (h : n < 2 ^ 63) : asU64 n = n := by
  unfold asU64
  omega

variable {w w' : World} {d : Drive} {userId uploadId fileId id : Uuid} {u : PartialFile}
  {f : DriveFile} {i : UInt32} {body : Bytes}

theorem Drive.chunk?_upload (h : d.uploads.lookup id = some u) (i : ℕ) :
    d.chunk? id i = u.chunks[i]?.join := by
  rw [chunk?, h]

theorem Drive.chunk?_of_none (h : d.uploads.lookup id = none) (i : ℕ) :
    d.chunk? id i = (d.files.lookup id).bind fun f => f.content[i]? := by
  rw [chunk?, h]

/-! ## Uploads -/

/-- The `CHECK` constraints accept what the drive accepts. -/
theorem stage_eq (userId : Uuid) (req : UploadInitRequest) (now : ℕ) :
    stage userId req now =
      (FileInfo.ofRequest userId req).map fun info => (PartialFile.start info now).row := by
  have hsome : (stage userId req now).isSome = true ↔ _ := stage_isSome_iff
  unfold FileInfo.ofRequest
  split_ifs with h
  · obtain ⟨row, hrow⟩ := Option.isSome_iff_exists.mp (hsome.mpr h)
    have htotal := stage_total hrow
    unfold stage at hrow ⊢
    split_ifs at hrow ⊢ with hcheck
    have hsize : asI64 req.sizeBytes = req.sizeBytes.toNat := by
      unfold asI64
      rw [if_pos h.2]
    cases hrow
    simp only [Option.map_some, PartialFile.row, PartialFile.received_start, Option.some.injEq,
      UploadRow.mk.injEq]
    exact ⟨rfl, htotal, rfl, hsize, rfl, rfl, rfl, rfl⟩
  · exact Option.not_isSome_iff_eq_none.mp (mt hsome.mp h)

theorem checkChunk_row (u : PartialFile) (r : ChunkRequest) :
    checkChunk u.row r = u.check r.chunkIndex r.body := by
  have htotal : asU32 u.row.totalChunks = u.info.totalChunks := asU32_natCast u.info.total_lt
  unfold checkChunk PartialFile.check
  rw [htotal]

theorem PartialFile.check_ok (h : u.check i body = .ok ()) : i.toNat < u.chunks.length := by
  unfold check at h
  split_ifs at h with hindex
  rw [u.total]
  omega

theorem bump_row {i : ℕ} (h : u.chunks[i]? = some none) : u.row.bump = some (u.put i body).row := by
  have hreceived : (u.put i body).received = u.received + 1 := PartialFile.received_put_new h
  have hle : (u.put i body).received ≤ u.info.totalChunks := (u.put i body).received_le
  have hlt := u.info.total_lt
  have hbump : u.row.chunksReceived + 1 < 2 ^ 31 := by
    show (u.received : ℤ) + 1 < 2 ^ 31
    omega
  unfold UploadRow.bump
  rw [dif_pos hbump]
  simp [PartialFile.row, hreceived]

theorem row_put_old {i : ℕ} {old : Bytes} (h : u.chunks[i]? = some (some old)) :
    (u.put i body).row = u.row := by
  simp [PartialFile.row, PartialFile.received_put_old h]

theorem promote_row {now : ℕ} (h : u.finish now = some f) (howner : u.info.owner = userId) :
    promote userId u.row now = f.row := by
  unfold PartialFile.finish at h
  split_ifs at h with hall
  cases h
  subst howner
  rfl

theorem PartialFile.finish_eq_none {now : ℕ} : u.finish now = none ↔ none ∈ u.chunks := by
  unfold finish
  split_ifs with h
  · exact iff_of_true rfl h
  · exact iff_of_false (by simp) h

theorem PartialFile.finish_content {now : ℕ} (h : u.finish now = some f) (i : ℕ) :
    f.content[i]? = u.chunks[i]?.join := by
  unfold finish at h
  split_ifs at h with hall
  cases h
  exact u.content_getElem? hall i

namespace Represents

variable (h : Represents w d)

include h

theorem selectUpload (uploadId userId : Uuid) :
    selectUpload w uploadId userId = (d.findUpload uploadId userId).map PartialFile.row := by
  unfold Server.selectUpload Drive.findUpload
  rw [h.uploads, Option.filter_map]
  rfl

theorem hasChunk_iff (hu : d.uploads.lookup id = some u) (i : UInt32) :
    HasChunk w id i ↔ ∃ old, u.chunks[i.toNat]? = some (some old) := by
  rw [HasChunk, Table.mem_iff_lookup, h.chunks, Drive.chunk?_upload hu]
  simp only [Option.join_eq_some_iff]

theorem upload_none (hf : d.files.lookup id = some f) : d.uploads.lookup id = none := by
  cases hu : d.uploads.lookup id with
  | none => rfl
  | some u =>
    rw [h.apart id u hu] at hf
    cases hf

theorem issue (id : Uuid) :
    Represents { w with issued := id :: w.issued } { d with issued := id :: d.issued } where
  now := h.now
  issued := congrArg (id :: ·) h.issued
  uploads := h.uploads
  files := h.files
  chunks := h.chunks
  apart := h.apart
  known id' hid := h.known id' fun hmem => hid (List.mem_cons_of_mem id hmem)

/-- An upload begins, or a chunk of it arrives. -/
theorem setUpload (u : PartialFile) (hfile : d.files.lookup id = none) (hid : id ∈ d.issued)
    (hnow : w'.now = w.now) (hissued : w'.issued = w.issued) (hfiles : w'.files = w.files)
    (huploads : ∀ id', w'.uploads.lookup id' =
      if id' = id then some u.row else w.uploads.lookup id')
    (hchunks : ∀ id' (i : UInt32), w'.storage.lookup (chunkStorageKey id' i) =
      if id' = id then u.chunks[i.toNat]?.join else w.storage.lookup (chunkStorageKey id' i)) :
    Represents w' { d with uploads := d.uploads.insert id u } where
  now := hnow.trans h.now
  issued := hissued.trans h.issued
  uploads id' := by
    rw [huploads, Table.lookup_insert_eq]
    split_ifs
    · rfl
    · exact h.uploads id'
  files id' := by rw [hfiles, h.files]
  chunks id' i := by
    rw [hchunks]
    split_ifs with hsame
    · subst hsame
      exact (Drive.chunk?_upload (AList.lookup_insert _) _).symm
    · rw [h.chunks, Drive.chunk?, Drive.chunk?, Table.lookup_insert_eq, if_neg hsame]
  apart id' u' hu := by
    rw [Table.lookup_insert_eq] at hu
    split_ifs at hu with hsame
    · exact hsame ▸ hfile
    · exact h.apart id' u' hu
  known id' hunknown := by
    have hne : id' ≠ id := fun hsame => hunknown (hsame ▸ hid)
    rw [Table.lookup_insert_eq, if_neg hne]
    exact h.known id' hunknown

theorem uploadInit {newId : Uuid} (hnew : newId ∉ d.issued) (userId : Uuid)
    (req : UploadInitRequest) :
    Represents (Server.uploadInit w userId req newId).1 (d.start userId req newId).1 ∧
      (Server.uploadInit w userId req newId).2 = (d.start userId req newId).2 := by
  obtain ⟨hupload, hfile⟩ := h.known newId hnew
  have hrow : newId ∉ w.uploads := by
    rw [← AList.lookup_eq_none, h.uploads, hupload]
    rfl
  unfold Server.uploadInit Drive.start
  dsimp only
  rw [stage_eq]
  cases FileInfo.ofRequest userId req with
  | none => exact ⟨h.issue newId, rfl⟩
  | some info =>
    simp only [Option.map_some, Option.bind_some, Table.insertNew, if_neg hrow]
    refine ⟨?_, trivial⟩
    refine (h.issue newId).setUpload (.start info d.now) hfile List.mem_cons_self rfl rfl rfl
      (fun id' => ?_) fun id' i => ?_
    · rw [Table.lookup_insert_eq, h.now]
    · split_ifs with hsame
      · subst hsame
        rw [h.chunks, Drive.chunk?_of_none hupload, hfile]
        exact (PartialFile.start_getElem? ..).symm
      · rfl

theorem uploadChunk (userId uploadId : Uuid) (header : Option Bytes) (body : Bytes) :
    Represents (Server.uploadChunk w userId uploadId header body).1
        (d.put userId uploadId header body).1 ∧
      (Server.uploadChunk w userId uploadId header body).2 =
        (d.put userId uploadId header body).2 := by
  unfold Server.uploadChunk Drive.put
  cases parseChunkIndex header with
  | error e => exact ⟨h, rfl⟩
  | ok i =>
    dsimp only
    rw [h.selectUpload]
    cases hfind : d.findUpload uploadId userId with
    | none => exact ⟨h, rfl⟩
    | some u =>
      have hu : d.uploads.lookup uploadId = some u := (Option.filter_eq_some_iff.mp hfind).1
      dsimp only [Option.map_some]
      rw [checkChunk_row]
      cases hcheck : u.check i body with
      | error e => exact ⟨h, rfl⟩
      | ok =>
        dsimp only
        have hi := PartialFile.check_ok hcheck
        have hfile := h.apart uploadId u hu
        have hissued : uploadId ∈ d.issued := by
          by_contra hunknown
          rw [(h.known uploadId hunknown).1] at hu
          cases hu
        -- the store after the `put` that both branches share
        have hchunks : ∀ id' (j : UInt32),
            (w.storage.insert (chunkStorageKey uploadId i) body).lookup (chunkStorageKey id' j) =
              if id' = uploadId then (u.put i.toNat body).chunks[j.toNat]?.join
              else w.storage.lookup (chunkStorageKey id' j) := by
          intro id' j
          rw [Table.lookup_insert_eq]
          by_cases hsame : id' = uploadId
          · subst hsame
            rw [if_pos rfl, PartialFile.put_getElem? hi, h.chunks, Drive.chunk?_upload hu]
            refine if_congr ?_ rfl rfl
            constructor
            · exact fun hkey => congrArg UInt32.toNat (chunkStorageKey_inj hkey).2
            · exact fun hindex => congrArg (chunkStorageKey id') (UInt32.toNat_inj.mp hindex)
          · rw [if_neg hsame, if_neg fun hkey => hsame (chunkStorageKey_inj hkey).1]
        have hrow : w.uploads.lookup uploadId = some u.row := by rw [h.uploads, hu]; rfl
        split_ifs with hstored
        · obtain ⟨old, hold⟩ := (h.hasChunk_iff hu i).mp hstored
          refine ⟨h.setUpload (u.put i.toNat body) hfile hissued rfl rfl rfl (fun id' => ?_) hchunks,
            rfl⟩
          rw [row_put_old hold]
          split_ifs with hsame
          · rw [hsame, hrow]
          · rfl
        · have hnew : u.chunks[i.toNat]? = some none := by
            rw [List.getElem?_eq_getElem hi]
            cases hold : u.chunks[i.toNat] with
            | none => rfl
            | some old =>
              refine absurd ((h.hasChunk_iff hu i).mpr ⟨old, ?_⟩) hstored
              rw [List.getElem?_eq_getElem hi, hold]
          rw [bump_row hnew]
          exact ⟨h.setUpload (u.put i.toNat body) hfile hissued rfl rfl rfl
            (fun id' => Table.lookup_insert_eq ..) hchunks, rfl⟩

theorem uploadComplete (userId uploadId : Uuid) :
    Represents (Server.uploadComplete w userId uploadId).1 (d.finish userId uploadId).1 ∧
      (Server.uploadComplete w userId uploadId).2 = (d.finish userId uploadId).2 := by
  unfold Server.uploadComplete Drive.finish
  rw [h.selectUpload]
  cases hfind : d.findUpload uploadId userId with
  | none => exact ⟨h, rfl⟩
  | some u =>
    obtain ⟨hu, howner⟩ := Option.filter_eq_some_iff.mp hfind
    have hmissing : u.row.chunksReceived < u.row.totalChunks ↔ none ∈ u.chunks :=
      Int.ofNat_lt.trans PartialFile.received_lt_iff
    dsimp only [Option.map_some]
    cases hfinish : u.finish d.now with
    | none =>
      rw [if_pos (hmissing.mpr (PartialFile.finish_eq_none.mp hfinish))]
      exact ⟨h, rfl⟩
    | some f =>
      have hall : ¬ none ∈ u.chunks := fun hnone => by
        rw [PartialFile.finish_eq_none.mpr hnone] at hfinish
        cases hfinish
      have hnofile := h.apart uploadId u hu
      have hnew : uploadId ∉ w.files := by
        rw [← AList.lookup_eq_none, h.files, hnofile]
        rfl
      rw [if_neg (mt hmissing.mp hall), h.now, promote_row hfinish (of_decide_eq_true howner)]
      simp only [Table.insertNew, if_neg hnew]
      refine ⟨?_, trivial⟩
      exact
        { now := rfl
          issued := h.issued
          uploads := fun id => by
            rw [Table.lookup_erase_eq, Table.lookup_erase_eq]
            split_ifs
            · rfl
            · exact h.uploads id
          files := fun id => by
            rw [Table.lookup_insert_eq, Table.lookup_insert_eq]
            split_ifs
            · rfl
            · exact h.files id
          chunks := fun id i => by
            rw [h.chunks, Drive.chunk?, Drive.chunk?, Table.lookup_erase_eq, Table.lookup_insert_eq]
            split_ifs with hsame
            · rw [hsame, hu, Option.bind_some, PartialFile.finish_content hfinish]
            · rfl
          apart := fun id u' hu' => by
            rw [Table.lookup_erase_eq] at hu'
            rw [Table.lookup_insert_eq]
            split_ifs at hu' ⊢ with hsame
            exact h.apart id u' hu'
          known := fun id hunknown => by
            have hne : id ≠ uploadId := by
              rintro rfl
              rw [(h.known id hunknown).1] at hu
              cases hu
            rw [Table.lookup_erase_eq, Table.lookup_insert_eq, if_neg hne, if_neg hne]
            exact h.known id hunknown }

end Represents

/-! ## Files -/

theorem fileMeta_row (fileId : Uuid) (f : DriveFile) : fileMeta fileId f.row = f.describe fileId := by
  have htotal : asU32 f.row.totalChunks = f.info.totalChunks := asU32_natCast f.info.total_lt
  have hsize : asU64 f.row.sizeBytes = f.info.sizeBytes := asU64_natCast f.info.size_lt
  unfold fileMeta DriveFile.describe
  rw [htotal, hsize]
  rfl

/-- A page of rows in another form. -/
theorem FileListQuery.page_map {α β : Type*} (query : FileListQuery) (g : α → β) (rows : List α) :
    query.page (rows.map g) = (query.page rows).map g := by
  rw [page, page, ← List.map_drop, ← List.map_take]

theorem FileListQuery.total_map {α β : Type*} (query : FileListQuery) (g : α → β)
    (rows : List α) : query.total (rows.map g) = query.total rows := by
  unfold total
  simp only [page_map, List.map_eq_nil_iff, List.length_map]

namespace Represents

variable (h : Represents w d)

include h

theorem selectFile (fileId userId : Uuid) :
    selectFile w fileId userId = (d.findFile fileId userId).map DriveFile.row := by
  unfold Server.selectFile Drive.findFile
  rw [h.files, Option.filter_map]
  rfl

theorem rows_eq (rank : Uuid → ℕ) (column : FileRow → ℕ) (p : FileRow → Bool) :
    Table.orderBy (descending rank column) (fun _ row => p row) w.files =
      (d.latestFirst rank (fun f => column f.row) fun f => p f.row).map
        fun e => (e.1, e.2.row) :=
  Table.orderBy_map (fun _ _ => descending_inj) h.files

theorem listFiles (userId : Uuid) (query : FileListQuery) (rank : Uuid → ℕ) :
    listFiles w userId query rank = d.list userId query rank := by
  have hrows : activeFiles w userId rank =
      (d.latestFirst rank DriveFile.createdAt (DriveFile.active userId)).map
        fun e => (e.1, e.2.row) := h.rows_eq rank _ _
  unfold Server.listFiles Drive.list
  rw [hrows, FileListQuery.page_map, FileListQuery.total_map, List.map_map]
  simp only [FileListResponse.mk.injEq, and_true]
  exact List.map_congr_left fun e _ => fileMeta_row e.1 e.2

theorem listTrash (userId : Uuid) (query : FileListQuery) (rank : Uuid → ℕ) :
    listTrash w userId query rank = d.listTrashed userId query rank := by
  have hrows : trashedFiles w userId rank =
      (d.latestFirst rank (fun f => f.deletedAt.getD 0) (DriveFile.trashed userId d.now)).map
        fun e => (e.1, e.2.row) := by
    rw [← h.now]
    exact h.rows_eq rank _ _
  unfold Server.listTrash Drive.listTrashed
  rw [hrows, FileListQuery.page_map, FileListQuery.total_map, List.map_map]
  simp only [TrashListResponse.mk.injEq, and_true]
  refine List.map_congr_left fun e _ => ?_
  have htotal : asU32 e.2.row.totalChunks = e.2.info.totalChunks :=
    asU32_natCast e.2.info.total_lt
  have hsize : asU64 e.2.row.sizeBytes = e.2.info.sizeBytes := asU64_natCast e.2.info.size_lt
  show TrashFileResponse.mk .. = TrashFileResponse.mk ..
  rw [htotal, hsize]
  rfl

theorem getFileMeta (userId fileId : Uuid) : getFileMeta w userId fileId = d.describe userId fileId := by
  unfold Server.getFileMeta Drive.describe
  rw [h.selectFile]
  cases d.findFile fileId userId with
  | none => rfl
  | some f => exact congrArg Except.ok (fileMeta_row fileId f)

theorem downloadChunk (userId fileId : Uuid) (i : UInt32) :
    downloadChunk w userId fileId i = d.read userId fileId i := by
  unfold Server.downloadChunk Drive.read
  rw [h.selectFile]
  cases hfind : d.findFile fileId userId with
  | none => rfl
  | some f =>
    have hf : d.files.lookup fileId = some f := (Option.filter_eq_some_iff.mp hfind).1
    have hnoupload := h.upload_none hf
    have htotal : asU32 f.row.totalChunks = f.info.totalChunks := asU32_natCast f.info.total_lt
    dsimp only [Option.map_some]
    rw [htotal, h.chunks, Drive.chunk?_of_none hnoupload, hf, Option.bind_some, ← f.total]
    cases hchunk : f.content[i.toNat]? with
    | none => exact if_pos (List.getElem?_eq_none_iff.mp hchunk)
    | some body =>
      exact if_neg (not_le.mpr (List.getElem?_eq_some_iff.mp hchunk).1)

theorem updateFile {p : FileRow → Bool} {p' : DriveFile → Bool} {g : FileRow → FileRow}
    {g' : DriveFile → DriveFile} (hp : ∀ f : DriveFile, p f.row = p' f)
    (hg : ∀ f : DriveFile, g f.row = (g' f).row) (hcontent : ∀ f, (g' f).content = f.content)
    (fileId : Uuid) (missing : String) :
    Represents (updateFile w fileId p g missing).1 (d.edit fileId p' g' missing).1 ∧
      (Server.updateFile w fileId p g missing).2 = (d.edit fileId p' g' missing).2 := by
  have hp' : p ∘ DriveFile.row = p' := funext hp
  unfold Server.updateFile Drive.edit
  rw [h.files, Option.filter_map, hp']
  cases hfind : (d.files.lookup fileId).filter p' with
  | none => exact ⟨h, rfl⟩
  | some f =>
    have hf : d.files.lookup fileId = some f := (Option.filter_eq_some_iff.mp hfind).1
    dsimp only [Option.map_some]
    rw [hg]
    refine ⟨?_, rfl⟩
    exact
      { now := h.now
        issued := h.issued
        uploads := h.uploads
        files := fun id => by
          rw [Table.lookup_insert_eq, Table.lookup_insert_eq]
          split_ifs
          · rfl
          · exact h.files id
        chunks := fun id i => by
          rw [h.chunks, Drive.chunk?, Drive.chunk?, Table.lookup_insert_eq]
          split_ifs with hsame
          · rw [hsame, hf, Option.bind_some, Option.bind_some, hcontent]
          · rfl
        apart := fun id u hu => by
          rw [Table.lookup_insert_eq]
          split_ifs with hsame
          · rw [hsame] at hu
            rw [h.apart fileId u hu] at hf
            cases hf
          · exact h.apart id u hu
        known := fun id hunknown => by
          have hne : id ≠ fileId := by
            rintro rfl
            rw [(h.known id hunknown).2] at hf
            cases hf
          rw [Table.lookup_insert_eq, if_neg hne]
          exact h.known id hunknown }

theorem deleteFile (userId fileId : Uuid) :
    Represents (deleteFile w userId fileId).1 (d.delete userId fileId).1 ∧
      (Server.deleteFile w userId fileId).2 = (d.delete userId fileId).2 := by
  unfold Server.deleteFile Drive.delete
  rw [h.now]
  refine h.updateFile ?_ ?_ ?_ fileId _ <;> exact fun _ => rfl

theorem restoreFile (userId fileId : Uuid) :
    Represents (restoreFile w userId fileId).1 (d.restore userId fileId).1 ∧
      (Server.restoreFile w userId fileId).2 = (d.restore userId fileId).2 := by
  unfold Server.restoreFile Drive.restore
  rw [h.now]
  refine h.updateFile ?_ ?_ ?_ fileId _ <;> exact fun _ => rfl

theorem renameFile (userId fileId : Uuid) (encryptedName : String) :
    Represents (renameFile w userId fileId encryptedName).1
        (d.rename userId fileId encryptedName).1 ∧
      (Server.renameFile w userId fileId encryptedName).2 =
        (d.rename userId fileId encryptedName).2 := by
  unfold Server.renameFile Drive.rename
  split_ifs
  · exact ⟨h, rfl⟩
  · exact ⟨h, rfl⟩
  · refine h.updateFile ?_ ?_ ?_ fileId _ <;> exact fun _ => rfl

end Represents

/-! ## The purge pass -/

theorem Represents.mem_fetchOrphans (h : Represents w d) (id : Uuid) :
    id ∈ fetchOrphans w ↔ ∃ u, d.uploads.lookup id = some u ∧ u.startedAt + day < d.now := by
  rw [Server.mem_fetchOrphans, h.uploads, h.now]
  simp only [Option.map_eq_some_iff, UploadRow.orphaned, decide_eq_true_eq]
  constructor
  · rintro ⟨row, ⟨u, hu, rfl⟩, hold⟩
    exact ⟨u, hu, hold⟩
  · rintro ⟨u, hu, hold⟩
    exact ⟨u.row, ⟨u, hu, rfl⟩, hold⟩

theorem Represents.purge (h : Represents w d) : Represents (purgeOrphanedUploads w) d.purge where
  now := h.now
  issued := h.issued
  uploads id := by
    show _ = ((Table.deleteWhere _ d.uploads).lookup id).map _
    rw [lookup_purged, h.uploads, Option.filter_map, Table.lookup_deleteWhere, h.now]
    rfl
  files := h.files
  chunks id i := by
    have hpurged : d.purge.uploads.lookup id =
        (d.uploads.lookup id).filter fun u => !decide (u.startedAt + day < d.now) :=
      Table.lookup_deleteWhere ..
    have hfiles : d.purge.files = d.files := rfl
    rw [lookup_purged_blob, h.chunks, Drive.chunk?, Drive.chunk?, hpurged, hfiles]
    cases hu : d.uploads.lookup id with
    | none =>
      rw [if_neg]
      · rfl
      · rw [belongsTo_chunk, h.mem_fetchOrphans, hu]
        rintro ⟨u, hsome, -⟩
        cases hsome
    | some u =>
      have horphan : belongsTo (fetchOrphans w) (chunkStorageKey id i) = true ↔
          u.startedAt + day < d.now := by
        rw [belongsTo_chunk, h.mem_fetchOrphans, hu]
        exact ⟨fun ⟨u', hsome, hold⟩ => Option.some.inj hsome ▸ hold, fun hold => ⟨u, rfl, hold⟩⟩
      rw [Option.filter_some]
      by_cases hold : u.startedAt + day < d.now
      · -- there is no file under the identifier of an upload
        rw [if_pos (horphan.mpr hold), if_neg (by simp [hold]), h.apart id u hu]
        rfl
      · rw [if_neg (mt horphan.mp hold), if_pos (by simp [hold])]
  apart id u hu := by
    obtain ⟨hu, -⟩ := Table.lookup_deleteWhere_eq_some.mp hu
    exact h.apart id u hu
  known id hunknown := by
    obtain ⟨hupload, hfile⟩ := h.known id hunknown
    refine ⟨?_, hfile⟩
    show (Table.deleteWhere _ d.uploads).lookup id = none
    rw [Table.lookup_deleteWhere, hupload]
    rfl

/-! ## One request after another -/

/-- The handler of a request. -/
def DriveRequest.job? : DriveRequest → Option (Job ⊕ FileJob)
  | .uploadInit .. | .tick _ => none
  | .uploadChunk userId uploadId header body =>
    some (.inl (.chunkStart userId uploadId header body))
  | .uploadComplete userId uploadId => some (.inl (.completeSelect userId uploadId))
  | .purge => some (.inl .purgeSelect)
  | .listFiles userId query rank => some (.inr (.listFiles userId query rank))
  | .getFileMeta userId fileId => some (.inr (.getFileMeta userId fileId))
  | .downloadChunk userId fileId i => some (.inr (.downloadSelect userId fileId i))
  | .deleteFile userId fileId => some (.inr (.deleteFile userId fileId))
  | .listTrash userId query rank => some (.inr (.listTrash userId query rank))
  | .restoreFile userId fileId => some (.inr (.restoreFile userId fileId))
  | .renameFile userId fileId name => some (.inr (.renameFile userId fileId name))

/-- The file server does one request, alone, and no call fails. -/
inductive Alone : World → DriveRequest → World → DriveAnswer → Prop
  | uploadInit {w : World} {userId newId : Uuid} {req : UploadInitRequest}
      (hnew : newId ∉ w.issued) :
      Alone w (.uploadInit userId req newId) (uploadInit w userId req newId).1
        (some (.inl (uploadInit w userId req newId).2))
  | tick {w : World} {n : ℕ} : Alone w (.tick n) { w with now := w.now + n } none
  | handler {w w' : World} {request : DriveRequest} {job : Job ⊕ FileJob} {answer : DriveAnswer}
      (hjob : request.job? = some job) (hends : fileServer.Ends w job w' answer) :
      Alone w request w' answer

/-- The handlers as functions. -/
def World.serve (w : World) : DriveRequest → World × DriveAnswer
  | .uploadInit userId req newId => uploaded (uploadInit w userId req newId)
  | .uploadChunk userId uploadId header body => uploaded (uploadChunk w userId uploadId header body)
  | .uploadComplete userId uploadId => uploaded (uploadComplete w userId uploadId)
  | .purge => (purgeOrphanedUploads w, none)
  | .listFiles userId query rank => (w, some (.inr (.files (listFiles w userId query rank))))
  | .getFileMeta userId fileId => (w, some (.inr (.of .fileMeta (getFileMeta w userId fileId))))
  | .downloadChunk userId fileId i =>
    (w, some (.inr (.of .chunk (downloadChunk w userId fileId i))))
  | .deleteFile userId fileId => changed (deleteFile w userId fileId)
  | .listTrash userId query rank => (w, some (.inr (.trash (listTrash w userId query rank))))
  | .restoreFile userId fileId => changed (restoreFile w userId fileId)
  | .renameFile userId fileId name => changed (renameFile w userId fileId name)
  | .tick n => ({ w with now := w.now + n }, none)

/-- A new identifier is one that has not been given out. -/
def World.Accepts (w : World) : DriveRequest → Prop
  | .uploadInit _ _ newId => newId ∉ w.issued
  | _ => True

/-- Only a purge pass chooses. -/
theorem ends_upload_iff {job : Job} {answer : Option Response} {r : World × Response}
    (hjob : job.isPurge = false) (hselect : job ≠ .purgeSelect)
    (hserves : uploadHandlers.Serves w job r.1 r.2) :
    uploadHandlers.Ends w job w' answer ↔ w' = r.1 ∧ answer = some r.2 := by
  refine ends_iff_of_serves (fun job => job.isPurge = false ∧ job ≠ .purgeSelect) ?_ ?_
    ⟨hjob, hselect⟩ hserves
  · intro w pick job hj
    cases job with
    | purgeList | purgeDelete | purgeRow => cases hj.1
    | purgeSelect => exact absurd rfl hj.2
    | _ => rfl
  · intro w job w' job' hj hadv
    generalize hnext : Next.goto job' = next at hadv
    cases advance_cases hadv with
    | fetched => exact absurd rfl hj.2
    | listed | blobDeleted | rowDeleted => cases hj.1
    | rejected | counted | uncounted | overflowed | unstaged => cases hnext
    | parsed | selected | probed | complete | promoted =>
      cases hnext
      exact ⟨rfl, by simp⟩
    | stored =>
      split_ifs at hnext
      cases hnext
      exact ⟨rfl, by simp⟩

theorem ends_inl_iff {job : Job} {answer : DriveAnswer} {r : World × Option Response}
    (h : ∀ response, uploadHandlers.Ends w job w' response ↔ w' = r.1 ∧ response = r.2) :
    fileServer.Ends w (.inl job) w' answer ↔ (r.1, r.2.map .inl) = (w', answer) := by
  refine ends_par_left.trans ?_
  simp only [h, Prod.mk.injEq]
  constructor
  · rintro ⟨response, rfl, rfl, rfl⟩
    exact ⟨rfl, rfl⟩
  · rintro ⟨rfl, rfl⟩
    exact ⟨_, rfl, rfl, rfl⟩

theorem ends_inr_iff {job : FileJob} {answer : DriveAnswer} {r : World × FileResponse}
    (hserves : fileHandlers.Serves w job r.1 r.2) :
    fileServer.Ends w (.inr job) w' answer ↔ (r.1, some (.inr r.2)) = (w', answer) := by
  have hends : ∀ response, fileHandlers.Ends w job w' response ↔ w' = r.1 ∧ response = some r.2 :=
    fun response => ends_iff_of_serves (fun _ => True) (fun _ _ _ _ => rfl)
      (fun _ _ _ _ _ _ => trivial) trivial hserves
  refine ends_par_right.trans ?_
  simp only [hends, Prod.mk.injEq]
  constructor
  · rintro ⟨response, rfl, rfl, rfl⟩
    exact ⟨rfl, rfl⟩
  · rintro ⟨rfl, rfl⟩
    exact ⟨_, rfl, rfl, rfl⟩

theorem ends_call_iff {job : FileJob} {answer : DriveAnswer} {r : FileResponse} {w₁ : World}
    (hcall : fileCall w job = (w₁, .done (some r))) :
    fileServer.Ends w (.inr job) w' answer ↔ (w₁, some (.inr r)) = (w', answer) :=
  ends_inr_iff (r := (w₁, r)) (.done (congrArg some hcall))

theorem ends_request_iff {request : DriveRequest} {job : Job ⊕ FileJob} {answer : DriveAnswer}
    (hjob : request.job? = some job) :
    fileServer.Ends w job w' answer ↔ w.serve request = (w', answer) := by
  cases request with
  | uploadInit | tick => cases hjob
  | uploadChunk userId uploadId header body =>
    cases hjob
    exact ends_inl_iff (r := (_, some _)) fun _ =>
      ends_upload_iff rfl (by simp) ⟨5, serve_chunkStart w userId uploadId header body⟩
  | uploadComplete userId uploadId =>
    cases hjob
    exact ends_inl_iff (r := (_, some _)) fun _ =>
      ends_upload_iff rfl (by simp) ⟨3, serve_completeSelect w userId uploadId⟩
  | purge =>
    cases hjob
    exact ends_inl_iff (r := (_, none)) fun _ => ends_purge_iff
  | downloadChunk userId fileId i =>
    cases hjob
    exact ends_inr_iff (r := (w, _)) ⟨2, serve_downloadSelect w userId fileId i⟩
  | _ =>
    cases hjob
    exact ends_call_iff rfl

/-- The server that does one request at a time is a function of the request. -/
theorem alone_iff {request : DriveRequest} {answer : DriveAnswer} :
    Alone w request w' answer ↔ w.Accepts request ∧ w.serve request = (w', answer) := by
  constructor
  · intro h
    cases h with
    | uploadInit hnew => exact ⟨hnew, rfl⟩
    | tick => exact ⟨trivial, rfl⟩
    | handler hjob hends =>
      refine ⟨?_, (ends_request_iff hjob).mp hends⟩
      cases request with
      | uploadInit => cases hjob
      | _ => trivial
  · rintro ⟨haccepts, hserve⟩
    cases hjob : request.job? with
    | some job => exact .handler hjob ((ends_request_iff hjob).mpr hserve)
    | none =>
      cases request with
      | uploadInit =>
        cases hserve
        exact .uploadInit haccepts
      | tick =>
        cases hserve
        exact .tick
      | _ => cases hjob

/-- One request. -/
theorem Represents.serve (h : Represents w d) {request : DriveRequest}
    (haccepts : d.Accepts request) :
    Represents (w.serve request).1 (d.serve request).1 ∧
      (w.serve request).2 = (d.serve request).2 := by
  have huploaded {r : World × Response} {r' : Drive × Response}
      (hr : Represents r.1 r'.1 ∧ r.2 = r'.2) :
      Represents (uploaded r).1 (uploaded r').1 ∧ (uploaded r).2 = (uploaded r').2 :=
    ⟨hr.1, by rw [uploaded, uploaded, hr.2]⟩
  have hchanged {r : World × Except AppError Unit} {r' : Drive × Except AppError Unit}
      (hr : Represents r.1 r'.1 ∧ r.2 = r'.2) :
      Represents (changed r).1 (changed r').1 ∧ (changed r).2 = (changed r').2 :=
    ⟨hr.1, by rw [changed, changed, hr.2]⟩
  cases request with
  | uploadInit userId req newId => exact huploaded (h.uploadInit haccepts userId req)
  | uploadChunk userId uploadId header body =>
    exact huploaded (h.uploadChunk userId uploadId header body)
  | uploadComplete userId uploadId => exact huploaded (h.uploadComplete userId uploadId)
  | purge => exact ⟨h.purge, rfl⟩
  | listFiles => exact ⟨h, by simp only [World.serve, Drive.serve, h.listFiles]⟩
  | getFileMeta => exact ⟨h, by simp only [World.serve, Drive.serve, h.getFileMeta]⟩
  | downloadChunk => exact ⟨h, by simp only [World.serve, Drive.serve, h.downloadChunk]⟩
  | listTrash => exact ⟨h, by simp only [World.serve, Drive.serve, h.listTrash]⟩
  | deleteFile userId fileId => exact hchanged (h.deleteFile userId fileId)
  | restoreFile userId fileId => exact hchanged (h.restoreFile userId fileId)
  | renameFile userId fileId name => exact hchanged (h.renameFile userId fileId name)
  | tick n =>
    refine ⟨?_, rfl⟩
    exact { h with now := congrArg (· + n) h.now }

theorem Represents.accepts_iff (h : Represents w d) {request : DriveRequest} :
    w.Accepts request ↔ d.Accepts request := by
  cases request with
  | uploadInit => rw [World.Accepts, Drive.Accepts, h.issued]
  | _ => exact Iff.rfl

theorem simulates_drive : Simulates Alone Drive.Step Represents := by
  intro w d request w' answer h hstep
  obtain ⟨haccepts, hserve⟩ := alone_iff.mp hstep
  rw [h.accepts_iff] at haccepts
  obtain ⟨hrepresents, hanswer⟩ := h.serve haccepts
  rw [hserve] at hrepresents hanswer
  exact ⟨_, ⟨haccepts, Prod.ext rfl hanswer.symm⟩, hrepresents⟩

theorem simulates_server : Simulates Drive.Step Alone fun d w => Represents w d := by
  rintro d w request d' answer h ⟨haccepts, hserve⟩
  obtain ⟨hrepresents, hanswer⟩ := h.serve haccepts
  rw [hserve] at hrepresents hanswer
  exact ⟨_, alone_iff.mpr ⟨h.accepts_iff.mpr haccepts, Prod.ext rfl hanswer⟩, hrepresents⟩

/-- An observer who sees the requests and their answers cannot tell the server from a drive, as
long as the requests come one after another and no call fails. -/
theorem server_logs (log : List (DriveRequest × DriveAnswer)) :
    (∃ w, Log Alone World.empty log w) ↔ ∃ d, Log Drive.Step Drive.empty log d :=
  exists_log_iff simulates_drive simulates_server represents_empty

end FreeBox.Server
