import FreeBox.Lib.Parallel
import FreeBox.Lib.Sequential
import FreeBox.Server.Trash

/-!
# The file server

The handlers of `apps/server/src/api/files.rs` that work on completed files, next to
the upload handlers and the purge passes. `download_chunk` makes two calls, the
query and `storage.get`; the others make one.

Results:
* `serve_downloadSelect`: `download_chunk` as a function is what its handler does alone.
* `fileCall_cases`: everything that one call can do.
* `row_cases`: what one step of the server can do to the row of a file.
-/

namespace FreeBox.Server

open FreeBox.Lib Handlers

/-! ## Handlers -/

/-- A handler of a completed file, at its next call. -/
inductive FileJob
  | listFiles (userId : Uuid) (query : FileListQuery) (rank : Uuid → ℕ)
  | getFileMeta (userId fileId : Uuid)
  /-- `download_chunk`: `SELECT total_chunks …`. -/
  | downloadSelect (userId fileId : Uuid) (chunkIndex : UInt32)
  /-- `storage.get`. -/
  | downloadGet (userId fileId : Uuid) (chunkIndex : UInt32)
  | deleteFile (userId fileId : Uuid)
  | listTrash (userId : Uuid) (query : FileListQuery) (rank : Uuid → ℕ)
  | restoreFile (userId fileId : Uuid)
  | renameFile (userId fileId : Uuid) (encryptedName : String)

inductive FileResponse
  /-- 200 with `FileListResponse`. -/
  | files (response : FileListResponse)
  /-- 200 with `FileMetaResponse`. -/
  | fileMeta (response : FileMetaResponse)
  /-- 200 with the bytes of a chunk. -/
  | chunk (body : Bytes)
  /-- 200 with `TrashListResponse`. -/
  | trash (response : TrashListResponse)
  /-- 204. -/
  | noContent
  | error (e : AppError)

/-- The response to a request with this result. -/
def FileResponse.of {α : Type} (f : α → FileResponse) : Except AppError α → FileResponse
  | .ok x => f x
  | .error e => .error e

/-- `storage.get` for the chunk of a file. -/
def readChunk (w : World) (fileId : Uuid) (chunkIndex : UInt32) : Except AppError Bytes :=
  match w.storage.lookup (chunkStorageKey fileId chunkIndex) with
  | none => .error (.notFound (chunkStorageKey fileId chunkIndex))
  | some chunk => .ok chunk

/-- The request ends with this response. -/
abbrev answer (w : World) (r : FileResponse) : World × Next FileJob FileResponse :=
  (w, .done (some r))

/-- The request ends with the outcome of its `UPDATE`. -/
abbrev answerUpdate (r : World × Except AppError Unit) : World × Next FileJob FileResponse :=
  answer r.1 (.of (fun _ => .noContent) r.2)

/-- The next call of `job` succeeds. -/
def fileCall (w : World) : FileJob → World × Next FileJob FileResponse
  | .listFiles userId query rank => answer w (.files (listFiles w userId query rank))
  | .getFileMeta userId fileId => answer w (.of .fileMeta (getFileMeta w userId fileId))
  | .downloadSelect userId fileId chunkIndex =>
    match selectFile w fileId userId with
    | none => answer w (.error (.notFound ("file " ++ toString fileId)))
    | some row =>
      if chunkIndex.toNat ≥ asU32 row.totalChunks then
        answer w (.error (.badRequest ("chunk index " ++ toString chunkIndex ++
          " out of range for file with " ++ toString (asU32 row.totalChunks) ++ " chunks")))
      else (w, .goto (.downloadGet userId fileId chunkIndex))
  | .downloadGet _ fileId chunkIndex => answer w (.of .chunk (readChunk w fileId chunkIndex))
  | .deleteFile userId fileId => answerUpdate (deleteFile w userId fileId)
  | .listTrash userId query rank => answer w (.trash (listTrash w userId query rank))
  | .restoreFile userId fileId => answerUpdate (restoreFile w userId fileId)
  | .renameFile userId fileId encryptedName =>
    answerUpdate (renameFile w userId fileId encryptedName)

/-- A call that fails ends its request. A blank name is rejected before any call. -/
def fileFail : FileJob → Option (Next FileJob FileResponse)
  | .renameFile _ _ encryptedName =>
    if isBlank encryptedName then none else some (.done (some (.error .internal)))
  | _ => some (.done (some (.error .internal)))

/-- The handlers of completed files. -/
def fileHandlers : Handlers World FileJob FileResponse Empty where
  entry
    | .downloadGet .. => false
    | _ => true
  advance w _ job := some (fileCall w job)
  onFail _ := fileFail
  environ _ := Empty.elim

/-- All handlers of files, and the purge passes. -/
def fileServer : Handlers World (Job ⊕ FileJob) (Response ⊕ FileResponse) (Event ⊕ Empty) :=
  uploadHandlers.par fileHandlers

abbrev ServerState := Sys World (Job ⊕ FileJob) (Response ⊕ FileResponse)

abbrev ServerStep := Action (Job ⊕ FileJob) (Event ⊕ Empty)

abbrev serverStep : ServerState → ServerStep → Option ServerState := fileServer.step

variable {w w' : World} {userId fileId id : Uuid} {job : FileJob}
  {next : Next FileJob FileResponse}

theorem serve_downloadSelect (w : World) (userId fileId : Uuid) (chunkIndex : UInt32) :
    fileHandlers.serve 2 w (.downloadSelect userId fileId chunkIndex) =
      (w, some (.of .chunk (downloadChunk w userId fileId chunkIndex))) := by
  unfold downloadChunk
  cases hrow : selectFile w fileId userId with
  | none => exact serve_done (by simp only [fileHandlers, fileCall, hrow]; rfl)
  | some row =>
    by_cases hrange : chunkIndex.toNat ≥ asU32 row.totalChunks
    · simp only [if_pos hrange]
      exact serve_done (by simp only [fileHandlers, fileCall, hrow, if_pos hrange]; rfl)
    · simp only [if_neg hrange]
      have hselect : fileHandlers.advance w 0 (.downloadSelect userId fileId chunkIndex) =
          some (w, .goto (.downloadGet userId fileId chunkIndex)) := by
        simp only [fileHandlers, fileCall, hrow, if_neg hrange]
      rw [serve_goto hselect]
      exact serve_done rfl

/-! ## What one call can do -/

/-- What a successful `UPDATE` for `job` does to the row of the file `id`. -/
inductive Edit (now : ℕ) (id : Uuid) : FileJob → FileRow → FileRow → Prop
  | delete {userId : Uuid} {row : FileRow} (hactive : row.active userId = true) :
      Edit now id (.deleteFile userId id) row { row with deletedAt := some now }
  | restore {userId : Uuid} {row : FileRow} (htrashed : row.trashed userId now = true) :
      Edit now id (.restoreFile userId id) row { row with deletedAt := none }
  | rename {userId : Uuid} {row : FileRow} {encryptedName : String}
      (hactive : row.active userId = true) (hblank : isBlank encryptedName = false) :
      Edit now id (.renameFile userId id encryptedName) row { row with encryptedName }

/-- Everything that a successful call of `job` can do. -/
inductive FileCase (w : World) : FileJob → World → Next FileJob FileResponse → Prop
  | answered {job : FileJob} {r : FileResponse} : FileCase w job w (.done (some r))
  | selected {userId fileId : Uuid} {chunkIndex : UInt32} {row : FileRow}
      (hrow : selectFile w fileId userId = some row)
      (hindex : chunkIndex.toNat < asU32 row.totalChunks) :
      FileCase w (.downloadSelect userId fileId chunkIndex) w
        (.goto (.downloadGet userId fileId chunkIndex))
  | edited {id : Uuid} {job : FileJob} {row row' : FileRow} (hrow : w.files.lookup id = some row)
      (hedit : Edit w.now id job row row') :
      FileCase w job { w with files := w.files.insert id row' } (.done (some .noContent))

theorem answerUpdate_cases {p : FileRow → Bool} {f : FileRow → FileRow} {missing : String}
    (hedit : ∀ row, p row = true → Edit w.now fileId job row (f row)) :
    FileCase w job (answerUpdate (updateFile w fileId p f missing)).1
      (answerUpdate (updateFile w fileId p f missing)).2 := by
  have hcase := updateFile_cases w fileId p f missing
  generalize updateFile w fileId p f missing = result at hcase ⊢
  cases hcase with
  | missed => exact .answered
  | updated hrow hp => exact .edited hrow (hedit _ hp)

theorem fileCall_cases (w : World) (job : FileJob) :
    FileCase w job (fileCall w job).1 (fileCall w job).2 := by
  cases job with
  | listFiles | getFileMeta | downloadGet | listTrash => exact .answered
  | downloadSelect userId fileId chunkIndex =>
    simp only [fileCall]
    cases hrow : selectFile w fileId userId with
    | none => exact .answered
    | some row =>
      dsimp only
      split_ifs with hrange
      · exact .answered
      · exact .selected hrow (not_le.mp hrange)
  | deleteFile userId fileId => exact answerUpdate_cases fun row => .delete
  | restoreFile userId fileId => exact answerUpdate_cases fun row => .restore
  | renameFile userId fileId encryptedName =>
    simp only [fileCall, renameFile]
    split_ifs with hblank
    · exact .answered
    · exact .answered
    · exact answerUpdate_cases fun row hp => .rename hp (Bool.eq_false_of_not_eq_true hblank)

theorem fileHandlers_cases {pick : ℕ} (h : fileHandlers.advance w pick job = some (w', next)) :
    FileCase w job w' next := by
  obtain ⟨rfl, rfl⟩ := Prod.mk.inj (Option.some.inj h)
  exact fileCall_cases w job

/-- Only the rows of files change. -/
theorem FileCase.world_eq (h : FileCase w job w' next) : ∃ files, w' = { w with files } := by
  cases h with
  | answered | selected => exact ⟨w.files, rfl⟩
  | edited => exact ⟨_, rfl⟩

/-! ## What one step can do to the row of a file -/

/-- What a step can do to the row of the file `id`. -/
inductive RowCase (s : ServerState) (id : Uuid) : ServerStep → Option FileRow → Prop
  | same {a : ServerStep} : RowCase s id a (s.world.files.lookup id)
  | inserted {rid pick : ℕ} {userId : Uuid} {row : UploadRow}
      (hjob : s.jobs.lookup rid = some (.inl (.completeInsert userId id row)))
      (hnew : s.world.files.lookup id = none) :
      RowCase s id (.advance rid pick) (some (promote userId row s.world.now))
  | edited {rid pick : ℕ} {job : FileJob} {row row' : FileRow}
      (hjob : s.jobs.lookup rid = some (.inr job)) (hrow : s.world.files.lookup id = some row)
      (hedit : Edit s.world.now id job row row') : RowCase s id (.advance rid pick) (some row')

variable {s t : ServerState} {a : ServerStep}

theorem row_cases (hs : serverStep s a = some t) (id : Uuid) :
    RowCase s id a (t.world.files.lookup id) := by
  cases step_cases hs with
  | arrive | fail | cancel => exact .same
  | @advance rid pick x w next hx hadv =>
    cases par_advance_cases hadv with
    | left hcall =>
      cases advance_cases hcall with
      | @promoted userId uploadId row hnew =>
        simp only [Sys.settle_world, Table.lookup_insert_eq]
        split_ifs with hid
        · subst hid; exact .inserted hx hnew
        · exact .same
      | _ => exact .same
    | right hcall =>
      cases fileHandlers_cases hcall with
      | answered | selected => exact .same
      | @edited id' job row row' hrow hedit =>
        simp only [Sys.settle_world, Table.lookup_insert_eq]
        split_ifs with hid
        · subst hid; exact .edited hx hrow hedit
        · exact .same
  | @env e w henv =>
    cases e with
    | inl e => cases environ_cases henv <;> exact .same
    | inr e => exact e.elim

end FreeBox.Server
