import FreeBox.Server.KeyServer
import FreeBox.Server.Metadata

/-!
# Requests of one user and the data of another

The requests that `require_auth` lets through carry the claims of one user. Most
statements repeat `user_id = $n`; the second statements of `upload_chunk` and
`upload_complete` and the storage keys know the identifier only, and rely on the row
that the first statement has found.

Results:
* `sole_owner`: in a reachable world an identifier belongs to one user.
* `respond_keeps`: a request changes nothing that belongs to another user.
* `respond_agrees`: a response depends on nothing that belongs to another user.
* `user_isolation`: both, for every request.
-/

namespace FreeBox.Server

open FreeBox.Lib Handlers Table

/-! ## Requests -/

/-- The database, the object store and the clocks. -/
structure Backend where
  files : World
  keys : KeyServer.World

/-- A request of a user. `newId` is what `upload_init` draws, `rank` is the order in which
    the database returns rows with the same time. -/
inductive UserRequest
  | uploadInit (req : UploadInitRequest) (newId : Uuid)
  | uploadChunk (uploadId : Uuid) (header : Option Bytes) (body : Bytes)
  | uploadComplete (uploadId : Uuid)
  | listFiles (query : FileListQuery) (rank : Uuid → ℕ)
  | getFileMeta (fileId : Uuid)
  | downloadChunk (fileId : Uuid) (chunkIndex : UInt32)
  | deleteFile (fileId : Uuid)
  | listTrash (query : FileListQuery) (rank : Uuid → ℕ)
  | restoreFile (fileId : Uuid)
  | renameFile (fileId : Uuid) (encryptedName : String)
  | replenishOneTime (dbFails : Bool) (newKeys : List Crypto.OneTimePrekey)
  | logout (dbFails : Bool) (refreshToken : String)

inductive UserResponse
  | upload (r : Response)
  | file (r : FileResponse)
  | account (r : KeyServer.Response)

/-- The request `UPDATE`s a file. -/
def Backend.update (b : Backend) (r : World × Except AppError Unit) : Backend × UserResponse :=
  ({ b with files := r.1 }, .file (.of (fun _ => .noContent) r.2))

/-- The request with the claims of its user, while no other request is in flight. -/
def respond (claims : Claims) (b : Backend) : UserRequest → Backend × UserResponse
  | .uploadInit req newId =>
    let r := uploadInit b.files claims.sub req newId
    ({ b with files := r.1 }, .upload r.2)
  | .uploadChunk uploadId header body =>
    let r := uploadChunk b.files claims.sub uploadId header body
    ({ b with files := r.1 }, .upload r.2)
  | .uploadComplete uploadId =>
    let r := uploadComplete b.files claims.sub uploadId
    ({ b with files := r.1 }, .upload r.2)
  | .listFiles query rank => (b, .file (.files (listFiles b.files claims.sub query rank)))
  | .getFileMeta fileId => (b, .file (.of .fileMeta (getFileMeta b.files claims.sub fileId)))
  | .downloadChunk fileId chunkIndex =>
    (b, .file (.of .chunk (downloadChunk b.files claims.sub fileId chunkIndex)))
  | .deleteFile fileId => b.update (deleteFile b.files claims.sub fileId)
  | .listTrash query rank => (b, .file (.trash (listTrash b.files claims.sub query rank)))
  | .restoreFile fileId => b.update (restoreFile b.files claims.sub fileId)
  | .renameFile fileId encryptedName =>
    b.update (renameFile b.files claims.sub fileId encryptedName)
  | .replenishOneTime dbFails newKeys =>
    let r := KeyServer.replenishOneTime b.keys dbFails claims newKeys
    ({ b with keys := r.1 }, .account r.2)
  | .logout dbFails refreshToken =>
    let r := KeyServer.logout b.keys dbFails claims refreshToken
    ({ b with keys := r.1 }, .account r.2)

/-- `Uuid::new_v4` has not returned this identifier before. -/
def UserRequest.Fresh (w : World) : UserRequest → Prop
  | .uploadInit _ newId => newId ∉ w.issued
  | _ => True

/-- Some interleaving of requests, purge passes and failures leads to the world. -/
abbrev Reached (w : World) : Prop := fileServer.Reachable World.empty w

/-! ## What belongs to a user -/

/-- The identifier is that of an upload or of a file of the user. -/
def OwnedBy (w : World) (user id : Uuid) : Prop :=
  (∃ row, w.uploads.lookup id = some row ∧ row.userId = user) ∨
    ∃ row, w.files.lookup id = some row ∧ row.userId = user

/-- The rows of `user` and the blobs under the identifiers of `user` are the same. -/
structure KeepsDataOf (user : Uuid) (b b' : Backend) : Prop where
  uploads : SameRows (fun row => row.userId = user) b.files.uploads b'.files.uploads
  files : SameRows (fun row => row.userId = user) b.files.files b'.files.files
  blobs : ∀ id, OwnedBy b.files user id → ∀ i,
    b'.files.storage.lookup (chunkStorageKey id i) = b.files.storage.lookup (chunkStorageKey id i)
  bundle : b'.keys.bundles.lookup user = b.keys.bundles.lookup user
  tokens : SameRows (fun row => row.userId = user) b.keys.db.refreshTokens
    b'.keys.db.refreshTokens

/-- The two states differ at most in the rows of `user` and in the blobs under the
    identifiers of `user`. -/
structure AgreeOutside (user : Uuid) (b b' : Backend) : Prop where
  now : b'.files.now = b.files.now
  keysNow : b'.keys.now = b.keys.now
  uploads : SameRows (fun row => row.userId ≠ user) b.files.uploads b'.files.uploads
  files : SameRows (fun row => row.userId ≠ user) b.files.files b'.files.files
  blobs : ∀ id, ¬ OwnedBy b.files user id → ¬ OwnedBy b'.files user id → ∀ i,
    b'.files.storage.lookup (chunkStorageKey id i) = b.files.storage.lookup (chunkStorageKey id i)
  bundles : ∀ u, u ≠ user → b'.keys.bundles.lookup u = b.keys.bundles.lookup u
  tokens : SameRows (fun row => row.userId ≠ user) b.keys.db.refreshTokens
    b'.keys.db.refreshTokens

variable {w w' : World} {user other id : Uuid} {b b' : Backend} {claims : Claims}

theorem reached_untouched (h : Reached w) (id : Uuid) : Untouched id w := by
  obtain ⟨as, s, hrun, rfl⟩ := h
  exact (notIssued_run hrun id).1

/-- An identifier belongs to the user who has initiated the upload. -/
theorem sole_owner (h : Reached w) (hother : OwnedBy w other id) (huser : OwnedBy w user id) :
    other = user := by
  by_cases hissued : id ∈ w.issued
  · obtain ⟨as, s, hrun, rfl⟩ := h
    obtain ⟨staged, horigin, -⟩ := exists_origin hrun hissued
    have howner : ∀ u, OwnedBy s.world u id → u = staged.userId := by
      rintro u (⟨row, hrow, rfl⟩ | ⟨row, hrow, rfl⟩)
      · exact (horigin.upload row hrow).user
      · exact (horigin.file row hrow).user
    rw [howner other hother, howner user huser]
  · obtain ⟨hupload, hfile, -⟩ := reached_untouched h id hissued
    rcases huser with ⟨row, hrow, -⟩ | ⟨row, hrow, -⟩
    · rw [hupload] at hrow; cases hrow
    · rw [hfile] at hrow; cases hrow

theorem ownedBy_of_select {row : UploadRow} (h : selectUpload w id user = some row) :
    OwnedBy w user id :=
  .inl ⟨row, lookup_of_selectUpload h⟩

theorem ownedBy_of_selectFile {row : FileRow} (h : selectFile w id user = some row) :
    OwnedBy w user id := by
  obtain ⟨hrow, hactive⟩ := selectFile_eq_some.mp h
  exact .inr ⟨row, hrow, (active_iff.mp hactive).1⟩

/-! ## Integrity -/

theorem KeepsDataOf.refl (user : Uuid) (b : Backend) : KeepsDataOf user b b :=
  ⟨.refl _ _, .refl _ _, fun _ _ _ => rfl, rfl, .refl _ _⟩

/-- Only `files` and `uploads` change, and the blobs under one identifier. -/
theorem keepsDataOf_files (id : Uuid) (hreach : Reached b.files) (hne : user ≠ other)
    (huploads : SameRows (fun row => row.userId = other) b.files.uploads w.uploads)
    (hfiles : SameRows (fun row => row.userId = other) b.files.files w.files)
    (hblobs : w.storage = b.files.storage ∨ ∃ i body, OwnedBy b.files user id ∧
      w.storage = b.files.storage.insert (chunkStorageKey id i) body) :
    KeepsDataOf other b { b with files := w } := by
  refine ⟨huploads, hfiles, fun id' hid' j => ?_, rfl, .refl _ _⟩
  rcases hblobs with hsame | ⟨i, body, hid, hput⟩
  · simp only [hsame]
  · have hkey : chunkStorageKey id' j ≠ chunkStorageKey id i := by
      intro hkey
      obtain ⟨rfl, -⟩ := chunkStorageKey_inj hkey
      exact hne (sole_owner hreach hid hid')
    simp only [hput]
    exact (lookup_insert_eq _ _ _ _).trans (if_neg hkey)

/-- A row of another user is found by no condition on `userId`. -/
theorem notOwned {row : UploadRow} {rows : Table Uuid UploadRow} (hne : user ≠ other)
    (hrow : rows.lookup id = some row) (huser : row.userId = user) :
    ∀ r, rows.lookup id = some r → decide (r.userId = other) = false := by
  intro r hr
  rw [hrow] at hr
  cases hr
  exact decide_eq_false (huser ▸ hne)

theorem uploadInit_keeps (hreach : Reached b.files) (hne : user ≠ other) {req : UploadInitRequest}
    (newId : Uuid) :
    KeepsDataOf other b { b with files := (uploadInit b.files user req newId).1 } := by
  have hcase := uploadInit_cases b.files user req newId
  generalize uploadInit b.files user req newId = result at hcase ⊢
  cases hcase with
  | refused => exact keepsDataOf_files newId hreach hne (.refl _ _) (.refl _ _) (.inl rfl)
  | @initialised row hnew hrow =>
    refine keepsDataOf_files newId hreach hne (sameRows_insert ?_ ?_) (.refl _ _) (.inl rfl)
    · intro r hr; rw [hnew] at hr; cases hr
    · exact decide_eq_false ((stage_fields hrow).1 ▸ hne)

theorem uploadChunk_keeps (hreach : Reached b.files) (hne : user ≠ other) {uploadId : Uuid}
    {header : Option Bytes} {body : Bytes} :
    KeepsDataOf other b { b with files := (uploadChunk b.files user uploadId header body).1 } := by
  have hcase := uploadChunk_cases b.files user uploadId header body
  generalize uploadChunk b.files user uploadId header body = result at hcase ⊢
  cases hcase with
  | rejected => exact .refl other b
  | repeated _ hrow | overflowed _ hrow =>
    exact keepsDataOf_files uploadId hreach hne (.refl _ _) (.refl _ _)
      (.inr ⟨_, _, ownedBy_of_select hrow, rfl⟩)
  | @counted i row row' _ hrow _ _ hbump =>
    obtain ⟨hlookup, huser⟩ := lookup_of_selectUpload hrow
    refine keepsDataOf_files uploadId hreach hne (sameRows_insert (notOwned hne hlookup huser) ?_) (.refl _ _)
      (.inr ⟨_, _, ownedBy_of_select hrow, rfl⟩)
    exact decide_eq_false ((UploadRow.bump_eq_some hbump).2.2.trans huser ▸ hne)

theorem uploadComplete_keeps (hreach : Reached b.files) (hne : user ≠ other) {uploadId : Uuid} :
    KeepsDataOf other b { b with files := (uploadComplete b.files user uploadId).1 } := by
  have hcase := uploadComplete_cases b.files user uploadId
  generalize uploadComplete b.files user uploadId = result at hcase ⊢
  cases hcase with
  | rejected => exact .refl other b
  | @completed row hrow _ hnew =>
    obtain ⟨hlookup, huser⟩ := lookup_of_selectUpload hrow
    refine keepsDataOf_files uploadId hreach hne (sameRows_erase (notOwned hne hlookup huser))
      (sameRows_insert ?_ (decide_eq_false hne)) (.inl rfl)
    intro r hr; rw [hnew] at hr; cases hr

theorem update_keeps (hreach : Reached b.files) (hne : user ≠ other) {fileId : Uuid}
    {p : FileRow → Bool} {f : FileRow → FileRow} {missing : String}
    (hp : ∀ row, p row = true → row.userId = user) (hf : ∀ row, (f row).userId = row.userId) :
    KeepsDataOf other b (b.update (updateFile b.files fileId p f missing)).1 := by
  have hcase := updateFile_cases b.files fileId p f missing
  generalize updateFile b.files fileId p f missing = result at hcase ⊢
  cases hcase with
  | missed => exact .refl other b
  | @updated row hrow hpred =>
    have huser := hp row hpred
    refine keepsDataOf_files fileId hreach hne (.refl _ _) (sameRows_insert ?_ ?_) (.inl rfl)
    · intro r hr
      rw [hrow] at hr
      cases hr
      exact decide_eq_false (huser ▸ hne)
    · exact decide_eq_false (((hf row).trans huser).symm ▸ hne)

theorem user_of_active {row : FileRow} (h : row.active user = true) : row.userId = user :=
  (active_iff.mp h).1

theorem user_of_trashed {row : FileRow} {now : ℕ} (h : row.trashed user now = true) :
    row.userId = user :=
  (trashed_iff.mp h).1

/-- A request changes nothing that belongs to another user. -/
theorem respond_keeps (hreach : Reached b.files) (hne : claims.sub ≠ other)
    (request : UserRequest) : KeepsDataOf other b (respond claims b request).1 := by
  cases request with
  | uploadInit req newId => exact uploadInit_keeps hreach hne newId
  | uploadChunk => exact uploadChunk_keeps hreach hne
  | uploadComplete => exact uploadComplete_keeps hreach hne
  | listFiles | getFileMeta | downloadChunk | listTrash => exact .refl other b
  | deleteFile => exact update_keeps hreach hne (fun _ => user_of_active) fun _ => rfl
  | restoreFile => exact update_keeps hreach hne (fun _ => user_of_trashed) fun _ => rfl
  | renameFile fileId encryptedName =>
    simp only [respond, renameFile]
    split_ifs
    · exact .refl other b
    · exact .refl other b
    · exact update_keeps hreach hne (fun _ => user_of_active) fun _ => rfl
  | replenishOneTime dbFails newKeys =>
    simp only [respond, KeyServer.replenishOneTime]
    split
    · exact .refl other b
    · split_ifs
      · exact .refl other b
      · refine ⟨.refl _ _, .refl _ _, fun _ _ _ => rfl, ?_, .refl _ _⟩
        exact (lookup_modify _ _ _ _).trans (if_neg (Ne.symm hne))
  | logout dbFails refreshToken =>
    simp only [respond, KeyServer.logout]
    split_ifs
    · exact .refl other b
    · refine ⟨.refl _ _, .refl _ _, fun _ _ _ => rfl, rfl, sameRows_deleteWhere fun k r hr => ?_⟩
      rw [decide_eq_true_eq] at hr
      exact decide_eq_false fun hdel => hne (hdel.2.symm.trans hr)

/-! ## Confidentiality -/

theorem AgreeOutside.selectUpload_eq (h : AgreeOutside other b b') (hne : user ≠ other) (id : Uuid) :
    selectUpload b'.files id user = selectUpload b.files id user := by
  refine (h.uploads.filter_eq (fun row hrow => ?_) id).symm
  rw [decide_eq_true_eq] at hrow
  exact decide_eq_true (hrow ▸ hne)

theorem AgreeOutside.filter_files (h : AgreeOutside other b b') (hne : user ≠ other)
    {p : FileRow → Bool} (hp : ∀ row, p row = true → row.userId = user) (id : Uuid) :
    (b'.files.files.lookup id).filter p = (b.files.files.lookup id).filter p :=
  (h.files.filter_eq (fun row hrow => decide_eq_true (hp row hrow ▸ hne)) id).symm

/-- The blobs under an identifier of `user` are the same. -/
theorem AgreeOutside.blob_eq (h : AgreeOutside other b b') (hne : user ≠ other)
    (hreach : Reached b.files) (hreach' : Reached b'.files) (hid : OwnedBy b.files user id)
    (hid' : OwnedBy b'.files user id) (i : UInt32) :
    b'.files.storage.lookup (chunkStorageKey id i) = b.files.storage.lookup (chunkStorageKey id i) :=
  h.blobs id (fun hother => hne (sole_owner hreach hid hother))
    (fun hother => hne (sole_owner hreach' hid' hother)) i

/-- The file of an identifier of `user` is the same. -/
theorem AgreeOutside.file_eq (h : AgreeOutside other b b') (hne : user ≠ other)
    (hreach : Reached b.files) (hreach' : Reached b'.files) (hid : OwnedBy b.files user id)
    (hid' : OwnedBy b'.files user id) : b'.files.files.lookup id = b.files.files.lookup id := by
  have hall : ∀ {w : World}, Reached w → OwnedBy w user id →
      (w.files.lookup id).filter (fun row => row.userId ≠ other) = w.files.lookup id := by
    intro w hw howned
    cases hrow : w.files.lookup id with
    | none => rfl
    | some row =>
      have huser : user = row.userId := sole_owner hw howned (.inr ⟨row, hrow, rfl⟩)
      rw [Option.filter_some, if_pos (decide_eq_true (huser ▸ hne))]
  rw [← hall hreach hid, ← hall hreach' hid']
  exact (h.files id).symm

theorem uploadInit_response {req : UploadInitRequest} {newId : Uuid}
    (hnew : w.uploads.lookup newId = none) : (uploadInit w user req newId).2 =
      if (stage user req w.now).isSome then .initialised newId (4 * 1024 * 1024)
      else .error .internal := by
  simp only [uploadInit]
  cases hstage : stage user req w.now with
  | none => rfl
  | some row =>
    have hinsert : Table.insertNew newId row w.uploads = some (w.uploads.insert newId row) :=
      if_neg (AList.lookup_eq_none.mp hnew)
    simp only [Option.bind_some, hinsert]
    rfl

theorem uploadChunk_agrees (h : AgreeOutside other b b') (hne : user ≠ other)
    (hreach : Reached b.files) (hreach' : Reached b'.files) {uploadId : Uuid}
    {header : Option Bytes} {body : Bytes} : (uploadChunk b'.files user uploadId header body).2 =
      (uploadChunk b.files user uploadId header body).2 := by
  have hselect := h.selectUpload_eq hne uploadId
  simp only [uploadChunk, hselect]
  cases parseChunkIndex header with
  | error e => rfl
  | ok i =>
    cases hrow : selectUpload b.files uploadId user with
    | none => rfl
    | some row =>
      have hblob := h.blob_eq hne hreach hreach' (ownedBy_of_select hrow)
        (ownedBy_of_select (hselect.trans hrow)) i
      have hstored : chunkStorageKey uploadId i ∈ b'.files.storage ↔
          chunkStorageKey uploadId i ∈ b.files.storage := by
        rw [← AList.lookup_isSome, hblob, AList.lookup_isSome]
      simp only [hstored]
      split
      · rfl
      · split_ifs
        · rfl
        · split <;> rfl

theorem uploadComplete_agrees (h : AgreeOutside other b b') (hne : user ≠ other)
    (hreach : Reached b.files) (hreach' : Reached b'.files) {uploadId : Uuid} :
    (uploadComplete b'.files user uploadId).2 = (uploadComplete b.files user uploadId).2 := by
  have hselect := h.selectUpload_eq hne uploadId
  simp only [uploadComplete, hselect]
  cases hrow : selectUpload b.files uploadId user with
  | none => rfl
  | some row =>
    have hfile := h.file_eq hne hreach hreach' (ownedBy_of_select hrow)
      (ownedBy_of_select (hselect.trans hrow))
    have hmem : uploadId ∈ b'.files.files ↔ uploadId ∈ b.files.files := by
      rw [← AList.lookup_isSome, hfile, AList.lookup_isSome]
    simp only [Table.insertNew, hmem]
    split_ifs <;> rfl

theorem updateFile_agrees (h : AgreeOutside other b b') (hne : user ≠ other) {fileId : Uuid}
    {p : FileRow → Bool} {f f' : FileRow → FileRow} {missing : String}
    (hp : ∀ row, p row = true → row.userId = user) :
    (updateFile b'.files fileId p f' missing).2 = (updateFile b.files fileId p f missing).2 := by
  simp only [updateFile, h.filter_files hne hp fileId]
  split <;> rfl

/-- A response depends on nothing that belongs to another user. -/
theorem respond_agrees (hreach : Reached b.files) (hreach' : Reached b'.files)
    (hne : claims.sub ≠ other) (h : AgreeOutside other b b') {request : UserRequest}
    (hfresh : request.Fresh b.files) (hfresh' : request.Fresh b'.files) :
    (respond claims b' request).2 = (respond claims b request).2 := by
  have hselect : ∀ fileId, selectFile b'.files fileId claims.sub =
      selectFile b.files fileId claims.sub :=
    h.filter_files hne fun _ => user_of_active
  cases request with
  | uploadInit req newId =>
    obtain ⟨hnew, -⟩ := reached_untouched hreach newId hfresh
    obtain ⟨hnew', -⟩ := reached_untouched hreach' newId hfresh'
    simp only [respond, uploadInit_response hnew, uploadInit_response hnew', h.now]
  | uploadChunk => exact congrArg UserResponse.upload (uploadChunk_agrees h hne hreach hreach')
  | uploadComplete =>
    exact congrArg UserResponse.upload (uploadComplete_agrees h hne hreach hreach')
  | listFiles query rank =>
    have hrows : activeFiles b'.files claims.sub rank = activeFiles b.files claims.sub rank :=
      h.files.symm.orderBy_eq (fun _ _ => descending_inj) fun _ row hrow =>
        decide_eq_true (user_of_active hrow ▸ hne)
    simp only [respond, listFiles, hrows]
  | getFileMeta fileId => simp only [respond, getFileMeta, hselect]
  | downloadChunk fileId i =>
    simp only [respond, downloadChunk, hselect]
    cases hrow : selectFile b.files fileId claims.sub with
    | none => rfl
    | some row =>
      simp only [h.blob_eq hne hreach hreach' (ownedBy_of_selectFile hrow)
        (ownedBy_of_selectFile ((hselect fileId).trans hrow)) i]
  | deleteFile =>
    exact congrArg (fun r => UserResponse.file (.of (fun _ => .noContent) r))
      (updateFile_agrees h hne fun _ => user_of_active)
  | listTrash query rank =>
    have hrows : trashedFiles b'.files claims.sub rank = trashedFiles b.files claims.sub rank := by
      rw [trashedFiles, trashedFiles, h.now]
      exact h.files.symm.orderBy_eq (fun _ _ => descending_inj) fun _ row hrow =>
        decide_eq_true (user_of_trashed hrow ▸ hne)
    simp only [respond, listTrash, hrows]
  | restoreFile fileId =>
    simp only [respond, Backend.update, restoreFile, h.now]
    exact congrArg (fun r => UserResponse.file (.of (fun _ => .noContent) r))
      (updateFile_agrees h hne fun _ => user_of_trashed)
  | renameFile fileId encryptedName =>
    simp only [respond, Backend.update, renameFile]
    split_ifs
    · rfl
    · rfl
    · exact congrArg (fun r => UserResponse.file (.of (fun _ => .noContent) r))
        (updateFile_agrees h hne fun _ => user_of_active)
  | replenishOneTime dbFails newKeys =>
    simp only [respond, KeyServer.replenishOneTime]
    split
    · rfl
    · split_ifs <;> rfl
  | logout dbFails refreshToken =>
    simp only [respond, KeyServer.logout]
    split_ifs <;> rfl

/-- Isolation. In every state that any interleaving of requests can reach, a request of
    one user changes no row of another user and no blob under an identifier of that
    user, and its response is the same in all states that differ only in these. -/
theorem user_isolation (hreach : Reached b.files) (hne : claims.sub ≠ other)
    (request : UserRequest) (hfresh : request.Fresh b.files) :
    KeepsDataOf other b (respond claims b request).1 ∧
      ∀ b', Reached b'.files → request.Fresh b'.files → AgreeOutside other b b' →
        (respond claims b' request).2 = (respond claims b request).2 :=
  ⟨respond_keeps hreach hne request,
    fun _ hreach' hfresh' h => respond_agrees hreach hreach' hne h hfresh hfresh'⟩

def runClaims : Claims := { sub := ⟨2⟩, username := "bob", exp := 900, iat := 0 }

def runEmpty : Backend := { files := World.empty, keys := KeyServer.runStart }

/-- Another user has an open upload. -/
def runOwned : Backend :=
  { runEmpty with files := (uploadInit World.empty runUser runRequest runId).1 }

/-- To guess its identifier is of no use. -/
theorem user_isolation_run :
    KeepsDataOf runUser runOwned (respond runClaims runOwned (.uploadComplete runId)).1 ∧
      (respond runClaims runEmpty (.uploadComplete runId)).2 =
        (respond runClaims runOwned (.uploadComplete runId)).2 := by
  have henv : fileServer.environ World.empty (.inl (.init runUser runRequest runId)) =
      some runOwned.files := rfl
  have hreach : Reached runOwned.files := Reachable.env (.refl World.empty) henv
  have hagree : AgreeOutside runUser runOwned runEmpty := by
    have hcase := uploadInit_cases World.empty runUser runRequest runId
    unfold runOwned
    generalize uploadInit World.empty runUser runRequest runId = result at hcase
    cases hcase with
    | refused => exact ⟨rfl, rfl, .refl _ _, .refl _ _, fun _ _ _ _ => rfl, fun _ _ => rfl, .refl _ _⟩
    | @initialised row _ hrow =>
      have hsame : SameRows (fun row : UploadRow => row.userId ≠ runUser) ∅
          (AList.insert runId row ∅) := by
        refine sameRows_insert (fun r hr => by cases hr) (decide_eq_false (not_not_intro ?_))
        exact (stage_fields hrow).1
      exact ⟨rfl, rfl, hsame.symm, .refl _ _, fun _ _ _ _ => rfl, fun _ _ => rfl, .refl _ _⟩
  have hne : runClaims.sub ≠ runUser := by decide
  obtain ⟨hkeeps, hsame⟩ := user_isolation hreach hne (.uploadComplete runId) trivial
  exact ⟨hkeeps, hsame runEmpty (.refl World.empty) trivial hagree⟩

end FreeBox.Server
