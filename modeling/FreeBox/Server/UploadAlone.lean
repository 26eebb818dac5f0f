import FreeBox.Lib.Parallel
import FreeBox.Lib.Sequential
import FreeBox.Server.ChunkAccounting
import FreeBox.Server.Files

/-!
# An upload whose requests are processed one at a time

`upload_chunk` and `upload_complete` as functions of the world, for a server that
processes one request after another and whose calls succeed, and what such an
upload leaves behind.

Results:
* `serve_chunkStart`, `serve_completeSelect`: the two functions are what the
  handlers do when they run alone.
* `untouched_of_reachable`: the server knows nothing under an identifier that it
  has not issued.
* `Receiving.uploadChunk`, `Receiving.uploadComplete`: the counter is the number
  of different chunks received so far, and the last request finds the upload
  complete.
-/

namespace FreeBox.Server

open FreeBox.Lib Handlers

/-! ## The handlers alone -/

/-- `files::upload_chunk`. -/
def uploadChunk (w : World) (userId uploadId : Uuid) (header : Option Bytes) (body : Bytes) :
    World × Response :=
  match parseChunkIndex header with
  | .error e => (w, .error e)
  | .ok chunkIndex =>
    match selectUpload w uploadId userId with
    | none => (w, .error (.notFound ("upload " ++ toString uploadId)))
    | some row =>
      match checkChunk row { userId, uploadId, chunkIndex, body } with
      | .error e => (w, .error e)
      | .ok () =>
        let storageKey := chunkStorageKey uploadId chunkIndex
        let stored := { w with storage := w.storage.insert storageKey body }
        if storageKey ∈ w.storage then (stored, .noContent)
        else
          match row.bump with
          | none => (stored, .error .internal)
          | some row' =>
            ({ stored with uploads := w.uploads.insert uploadId row' }, .noContent)

/-- `files::upload_complete`. -/
def uploadComplete (w : World) (userId uploadId : Uuid) : World × Response :=
  match selectUpload w uploadId userId with
  | none => (w, .error (.notFound ("upload " ++ toString uploadId)))
  | some row =>
    if row.chunksReceived < row.totalChunks then
      (w, .error (.badRequest ("missing chunks: expected " ++ toString row.totalChunks ++
        ", received " ++ toString row.chunksReceived)))
    else
      match Table.insertNew uploadId (promote userId row w.now) w.files with
      | none => (w, .error .internal)
      | some files => ({ w with files, uploads := w.uploads.erase uploadId }, .completed uploadId)

/-- Everything that `upload_chunk` can do when it runs alone. -/
inductive ChunkCase (w : World) (userId uploadId : Uuid) (header : Option Bytes) (body : Bytes) :
    World × Response → Prop
  | rejected {e : AppError} : ChunkCase w userId uploadId header body (w, .error e)
  | repeated {i : UInt32} {row : UploadRow} (hindex : parseChunkIndex header = .ok i)
      (hrow : selectUpload w uploadId userId = some row)
      (hcheck : checkChunk row { userId, uploadId, chunkIndex := i, body } = .ok ())
      (hstored : HasChunk w uploadId i) :
      ChunkCase w userId uploadId header body
        ({ w with storage := w.storage.insert (chunkStorageKey uploadId i) body }, .noContent)
  | counted {i : UInt32} {row row' : UploadRow} (hindex : parseChunkIndex header = .ok i)
      (hrow : selectUpload w uploadId userId = some row)
      (hcheck : checkChunk row { userId, uploadId, chunkIndex := i, body } = .ok ())
      (hstored : ¬ HasChunk w uploadId i) (hbump : row.bump = some row') :
      ChunkCase w userId uploadId header body
        ({ w with
            storage := w.storage.insert (chunkStorageKey uploadId i) body
            uploads := w.uploads.insert uploadId row' }, .noContent)
  | overflowed {i : UInt32} {row : UploadRow} (hindex : parseChunkIndex header = .ok i)
      (hrow : selectUpload w uploadId userId = some row)
      (hcheck : checkChunk row { userId, uploadId, chunkIndex := i, body } = .ok ())
      (hstored : ¬ HasChunk w uploadId i) (hbump : row.bump = none) :
      ChunkCase w userId uploadId header body
        ({ w with storage := w.storage.insert (chunkStorageKey uploadId i) body }, .error .internal)

theorem uploadChunk_cases (w : World) (userId uploadId : Uuid) (header : Option Bytes)
    (body : Bytes) :
    ChunkCase w userId uploadId header body (uploadChunk w userId uploadId header body) := by
  unfold uploadChunk
  cases hindex : parseChunkIndex header with
  | error e => exact .rejected
  | ok i =>
    dsimp only
    cases hrow : selectUpload w uploadId userId with
    | none => exact .rejected
    | some row =>
      dsimp only
      cases hcheck : checkChunk row { userId, uploadId, chunkIndex := i, body } with
      | error e => exact .rejected
      | ok =>
        dsimp only
        split_ifs with hstored
        · exact .repeated hindex hrow hcheck hstored
        · cases hbump : row.bump with
          | none => exact .overflowed hindex hrow hcheck hstored hbump
          | some row' => exact .counted hindex hrow hcheck hstored hbump

/-- Everything that `upload_complete` can do when it runs alone. -/
inductive CompleteCase (w : World) (userId uploadId : Uuid) : World × Response → Prop
  | rejected {e : AppError} : CompleteCase w userId uploadId (w, .error e)
  | completed {row : UploadRow} (hrow : selectUpload w uploadId userId = some row)
      (hall : row.totalChunks ≤ row.chunksReceived) (hnew : w.files.lookup uploadId = none) :
      CompleteCase w userId uploadId
        ({ w with
            files := w.files.insert uploadId (promote userId row w.now)
            uploads := w.uploads.erase uploadId }, .completed uploadId)

theorem uploadComplete_cases (w : World) (userId uploadId : Uuid) :
    CompleteCase w userId uploadId (uploadComplete w userId uploadId) := by
  unfold uploadComplete
  cases hrow : selectUpload w uploadId userId with
  | none => exact .rejected
  | some row =>
    dsimp only
    split_ifs with hmissing
    · exact .rejected
    · cases hinsert : Table.insertNew uploadId (promote userId row w.now) w.files with
      | none => exact .rejected
      | some files =>
        obtain ⟨hnew, rfl⟩ := Table.insertNew_eq_some hinsert
        exact .completed hrow (not_lt.mp hmissing) hnew

variable {w w' : World} {userId uploadId id : Uuid} {header : Option Bytes} {body : Bytes}

theorem serve_chunkStart (w : World) (userId uploadId : Uuid) (header : Option Bytes)
    (body : Bytes) :
    uploadHandlers.serve 5 w (.chunkStart userId uploadId header body) =
      ((uploadChunk w userId uploadId header body).1,
        some (uploadChunk w userId uploadId header body).2) := by
  unfold uploadChunk
  cases hindex : parseChunkIndex header with
  | error e => exact serve_done (by simp only [uploadHandlers, advance, hindex])
  | ok chunkIndex =>
    have hparse : uploadHandlers.advance w 0 (.chunkStart userId uploadId header body) =
        some (w, .goto (.chunkSelect { userId, uploadId, chunkIndex, body })) := by
      simp only [uploadHandlers, advance, hindex]
    rw [serve_goto hparse]
    cases hrow : selectUpload w uploadId userId with
    | none => exact serve_done (by simp only [uploadHandlers, advance, hrow])
    | some row =>
      dsimp only
      cases hcheck : checkChunk row { userId, uploadId, chunkIndex, body } with
      | error e => exact serve_done (by simp only [uploadHandlers, advance, hrow, hcheck])
      | ok =>
        have hselect : uploadHandlers.advance w 0
            (.chunkSelect { userId, uploadId, chunkIndex, body }) =
              some (w, .goto (.chunkExists { userId, uploadId, chunkIndex, body })) := by
          simp only [uploadHandlers, advance, hrow, hcheck]
        have hexists : uploadHandlers.advance w 0
            (.chunkExists { userId, uploadId, chunkIndex, body }) =
              some (w, .goto (.chunkPut { userId, uploadId, chunkIndex, body }
                (chunkStorageKey uploadId chunkIndex ∈ w.storage))) := rfl
        rw [serve_goto hselect, serve_goto hexists]
        by_cases hstored : chunkStorageKey uploadId chunkIndex ∈ w.storage
        · simp only [if_pos hstored]
          exact serve_done (by simp only [uploadHandlers, advance, hstored, decide_true, if_true])
        · simp only [if_neg hstored]
          have hput : uploadHandlers.advance w 0 (.chunkPut { userId, uploadId, chunkIndex, body }
              (chunkStorageKey uploadId chunkIndex ∈ w.storage)) =
                some ({ w with
                    storage := w.storage.insert (chunkStorageKey uploadId chunkIndex) body },
                  .goto (.chunkUpdate { userId, uploadId, chunkIndex, body })) := by
            simp only [uploadHandlers, advance, hstored, decide_false, Bool.false_eq_true, if_false]
          rw [serve_goto hput]
          -- the row that the query has found is still there
          have hlookup := (lookup_of_selectUpload hrow).1
          cases hbump : row.bump with
          | none => exact serve_done (by simp only [uploadHandlers, advance, hlookup, hbump])
          | some row' => exact serve_done (by simp only [uploadHandlers, advance, hlookup, hbump])

theorem serve_completeSelect (w : World) (userId uploadId : Uuid) :
    uploadHandlers.serve 3 w (.completeSelect userId uploadId) =
      ((uploadComplete w userId uploadId).1, some (uploadComplete w userId uploadId).2) := by
  unfold uploadComplete
  cases hrow : selectUpload w uploadId userId with
  | none => exact serve_done (by simp only [uploadHandlers, advance, hrow])
  | some row =>
    by_cases hmissing : row.chunksReceived < row.totalChunks
    · simp only [if_pos hmissing]
      exact serve_done (by simp only [uploadHandlers, advance, hrow, if_pos hmissing])
    · simp only [if_neg hmissing]
      have hselect : uploadHandlers.advance w 0 (.completeSelect userId uploadId) =
          some (w, .goto (.completeInsert userId uploadId row)) := by
        simp only [uploadHandlers, advance, hrow, if_neg hmissing]
      rw [serve_goto hselect]
      cases hinsert : Table.insertNew uploadId (promote userId row w.now) w.files with
      | none => exact serve_done (by simp only [uploadHandlers, advance, hinsert])
      | some files =>
        have hpromote : uploadHandlers.advance w 0 (.completeInsert userId uploadId row) =
            some ({ w with files }, .goto (.completeDelete uploadId)) := by
          simp only [uploadHandlers, advance, hinsert]
        rw [serve_goto hpromote]
        exact serve_done rfl

/-! ## Reachable worlds -/

/-- Some interleaving of requests and purge passes, with failures, leads to `w`. -/
abbrev ReachableWorld (w : World) : Prop := uploadHandlers.Reachable World.empty w

theorem ReachableWorld.uploadInit {req : UploadInitRequest} {newId : Uuid} (h : ReachableWorld w)
    (hnew : newId ∉ w.issued) : ReachableWorld (uploadInit w userId req newId).1 := by
  have henv : uploadHandlers.environ w (.init userId req newId) =
      some (Server.uploadInit w userId req newId).1 := if_neg hnew
  exact Reachable.env h henv

theorem ReachableWorld.uploadChunk (h : ReachableWorld w) (userId uploadId : Uuid)
    (header : Option Bytes) (body : Bytes) :
    ReachableWorld (uploadChunk w userId uploadId header body).1 :=
  Reachable.serve h rfl (serve_chunkStart w userId uploadId header body)

theorem ReachableWorld.uploadComplete (h : ReachableWorld w) (userId uploadId : Uuid) :
    ReachableWorld (uploadComplete w userId uploadId).1 :=
  Reachable.serve h rfl (serve_completeSelect w userId uploadId)

/-! ## Identifiers that have not been issued -/

/-- The server knows nothing under an identifier that it has not issued. -/
def Untouched (id : Uuid) (w : World) : Prop :=
  id ∉ w.issued →
    w.uploads.lookup id = none ∧ w.files.lookup id = none ∧ ∀ i, ¬ HasChunk w id i

/-- A handler in flight that is about to write under `id` has found it issued. -/
structure JobIssued (id : Uuid) (w : World) (job : Job) : Prop where
  chunk : ∀ r, job.chunk? = some r → r.uploadId = id → id ∈ w.issued
  insert : ∀ userId row, job = .completeInsert userId id row → id ∈ w.issued

variable {job job' : Job} {pick : ℕ} {next : Next Job Response}

theorem jobIssued_of_none (hchunk : job.chunk? = none)
    (hinsert : ∀ userId row, job ≠ .completeInsert userId id row) : JobIssued id w job where
  chunk r hr := by rw [hchunk] at hr; cases hr
  insert userId row hjob := absurd hjob (hinsert userId row)

theorem jobIssued_of_isPurge (h : job.isPurge = true) : JobIssued id w job := by
  cases job with
  | purgeList | purgeDelete | purgeRow => exact jobIssued_of_none rfl fun _ _ hjob => by cases hjob
  | _ => cases h

theorem Untouched.unissued (h : Untouched id w) : Unissued id w :=
  fun hid => ⟨(h hid).1, (h hid).2.2⟩

theorem CallCase.untouched (h : CallCase w pick job w' next) (hw : Untouched id w)
    (hjob : JobIssued id w job) : Untouched id w' := by
  intro hid
  rw [h.issued_eq] at hid
  obtain ⟨hupload, hfile, hchunks⟩ := hw hid
  cases h with
  | @stored r b =>
    refine ⟨hupload, hfile, fun i hi => ?_⟩
    rcases (AList.mem_insert _).mp hi with hkey | hi
    · exact hid (hjob.chunk r rfl (chunkStorageKey_inj hkey).1.symm)
    · exact hchunks i hi
  | @counted r row row' hrow hbump =>
    have hne : id ≠ r.uploadId := by
      rintro rfl
      exact hid (hw.unissued.issued_of_lookup hrow)
    exact ⟨by rw [Table.lookup_insert_eq, if_neg hne, hupload], hfile, hchunks⟩
  | @promoted userId uploadId row hnew =>
    have hne : id ≠ uploadId := by
      rintro rfl
      exact hid (hjob.insert userId row rfl)
    exact ⟨hupload, by rw [Table.lookup_insert_eq, if_neg hne, hfile], hchunks⟩
  | unstaged | rowDeleted =>
    refine ⟨?_, hfile, hchunks⟩
    rw [Table.lookup_erase_eq, hupload, ite_self]
  | blobDeleted => exact ⟨hupload, hfile, fun i hi => hchunks i (AList.mem_erase.mp hi).2⟩
  | _ => exact ⟨hupload, hfile, hchunks⟩

theorem CallCase.jobIssued (h : CallCase w pick job w' (.goto job')) (hw : Untouched id w)
    (hjob : JobIssued id w job) : JobIssued id w' job' := by
  generalize hnext : Next.goto job' = next at h
  cases h with
  | rejected | counted | uncounted | overflowed | unstaged => cases hnext
  | parsed | promoted => cases hnext; exact jobIssued_of_none rfl fun _ _ hjob => by cases hjob
  | @selected r row hrow hcheck =>
    cases hnext
    refine ⟨fun r' hr hid => ?_, fun _ _ hjob => by cases hjob⟩
    cases hr
    exact hw.unissued.issued_of_lookup (hid ▸ (lookup_of_selectUpload hrow).1)
  | probed => cases hnext; exact ⟨fun r hr => hjob.chunk r hr, fun _ _ hjob => by cases hjob⟩
  | @stored r b =>
    split_ifs at hnext
    cases hnext
    exact ⟨fun r' hr => hjob.chunk r' hr, fun _ _ hjob => by cases hjob⟩
  | @complete userId uploadId row hrow hall =>
    cases hnext
    refine ⟨fun r hr => (by cases hr), fun userId' row' hinsert => ?_⟩
    cases hinsert
    exact hw.unissued.issued_of_lookup (lookup_of_selectUpload hrow).1
  | fetched | rowDeleted => exact jobIssued_of_isPurge (nextRow_isPurge hnext.symm)
  | listed | blobDeleted => exact jobIssued_of_isPurge (nextKey_isPurge hnext.symm)

theorem EventCase.issued_subset {e : Event} (h : EventCase w e w') {id : Uuid}
    (hid : id ∈ w.issued) : id ∈ w'.issued := by
  cases h with
  | ticked => exact hid
  | refused | initialised => exact List.mem_cons_of_mem _ hid

theorem EventCase.untouched {e : Event} (h : EventCase w e w') (hw : Untouched id w) :
    Untouched id w' := by
  intro hid
  obtain ⟨hupload, hfile, hchunks⟩ := hw (mt h.issued_subset hid)
  cases h with
  | ticked | refused => exact ⟨hupload, hfile, hchunks⟩
  | initialised =>
    have hne := (not_or.mp (mt List.mem_cons.mpr hid)).1
    exact ⟨by rw [Table.lookup_insert_eq, if_neg hne, hupload], hfile, hchunks⟩

theorem issued_annotates (id : Uuid) :
    uploadHandlers.Annotates (Untouched id) (JobIssued id) where
  arrive w job _ hentry := by
    cases job with
    | chunkStart | completeSelect | purgeSelect =>
      exact jobIssued_of_none rfl fun _ _ hjob => by cases hjob
    | _ => cases hentry
  advance w pick job w' next hw hjob hadv := by
    have hcase := advance_cases hadv
    refine ⟨hcase.untouched hw hjob, fun job' hnext => ?_⟩
    subst hnext
    exact hcase.jobIssued hw hjob
  fail w pick job job' _ _ hfail := jobIssued_of_isPurge (onFail_isPurge hfail)
  env w e w' hw henv := (environ_cases henv).untouched hw

theorem issued_spares (id : Uuid) :
    uploadHandlers.Spares (Untouched id) (JobIssued id) (JobIssued id) where
  advance w pick job w' next other _ _ hother hadv := by
    have hissued := (advance_cases hadv).issued_eq
    exact ⟨fun r hr hid => hissued ▸ hother.chunk r hr hid,
      fun u row hr => hissued ▸ hother.insert u row hr⟩
  env w e w' other _ hother henv := by
    have hcase := environ_cases henv
    exact ⟨fun r hr hid => hcase.issued_subset (hother.chunk r hr hid),
      fun u row hr => hcase.issued_subset (hother.insert u row hr)⟩

theorem issued_outline (id : Uuid) :
    uploadHandlers.ProofOutline anyStep (Untouched id) (JobIssued id) :=
  .of_annotates (issued_annotates id) (issued_spares id)

theorem untouched_of_reachable (h : ReachableWorld w) (id : Uuid) : Untouched id w :=
  (issued_outline id).reachable (fun _ => ⟨rfl, rfl, fun _ => AList.notMem_empty _⟩) h

/-! ## Receiving the chunks -/

theorem promote_bump {row row' : UploadRow} (h : row.bump = some row') (now : ℕ) :
    promote userId row' now = promote userId row now := by
  unfold UploadRow.bump at h
  split_ifs at h
  cases h
  rfl

theorem checkChunk_eq_ok {row : UploadRow} {r : ChunkRequest}
    (hindex : (r.chunkIndex.toNat : ℤ) < row.totalChunks) (hne : r.body ≠ [])
    (hlen : r.body.length ≤ maxUploadChunkBodyBytes) : checkChunk row r = .ok () := by
  have htotal := asU32_of_nonneg row.total_pos.le row.total_lt
  have hrange : ¬ r.chunkIndex.toNat ≥ asU32 row.totalChunks := by omega
  rw [checkChunk, if_neg hrange, if_neg hne, validateChunkBodySize, if_neg (not_lt.mpr hlen)]

/-- The upload `id`, staged as `staged`, is to have the bodies `bodies`; those at the
    indices in `received` have arrived. -/
structure Receiving (w : World) (id : Uuid) (staged : UploadRow) (bodies : List Bytes)
    (received : Finset ℕ) : Prop where
  row : ∃ row, w.uploads.lookup id = some row ∧ row.userId = staged.userId ∧
    row.chunksReceived = received.card ∧
    ∀ now, promote staged.userId row now = promote staged.userId staged now
  total : staged.totalChunks = bodies.length
  within : received ⊆ Finset.range bodies.length
  chunk : ∀ i : UInt32, w.storage.lookup (chunkStorageKey id i) =
    if i.toNat ∈ received then bodies[i.toNat]? else none
  new : w.files.lookup id = none

variable {staged : UploadRow} {bodies : List Bytes} {received : Finset ℕ}

/-- The row has the total of the request. -/
theorem Receiving.row_total (h : Receiving w id staged bodies received) {row : UploadRow}
    (hrow : ∀ now, promote staged.userId row now = promote staged.userId staged now) :
    row.totalChunks = bodies.length :=
  (congrArg FileRow.totalChunks (hrow 0)).trans h.total

theorem selectUpload_of_lookup {row : UploadRow} (h : w.uploads.lookup id = some row)
    (huser : row.userId = userId) : selectUpload w id userId = some row := by
  rw [selectUpload, h, Option.filter_some, if_pos (decide_eq_true huser)]

/-- The store after a chunk has been put: the chunk is one of those received. -/
theorem Receiving.lookup_insert (h : Receiving w id staged bodies received) {i : UInt32}
    (hbody : bodies[i.toNat]? = some body) (j : UInt32) :
    (w.storage.insert (chunkStorageKey id i) body).lookup (chunkStorageKey id j) =
      if j.toNat ∈ insert i.toNat received then bodies[j.toNat]? else none := by
  rw [Table.lookup_insert_eq]
  by_cases hj : j = i
  · rw [hj, if_pos rfl, if_pos (Finset.mem_insert_self _ _), hbody]
  · have hkey : chunkStorageKey id j ≠ chunkStorageKey id i :=
      fun hkey => hj (chunkStorageKey_inj hkey).2
    have hindex : j.toNat ≠ i.toNat := fun hindex => hj (UInt32.toNat_inj.mp hindex)
    simp only [if_neg hkey, h.chunk j, Finset.mem_insert, hindex, false_or]

/-- The counter has room for every chunk that is still to come. -/
theorem Receiving.exists_bump (h : Receiving w id staged bodies received) {row : UploadRow}
    (hcount : row.chunksReceived = received.card) {i : ℕ} (hi : i < bodies.length)
    (hmem : i ∉ received) : ∃ row', row.bump = some row' := by
  have hwithin : insert i received ⊆ Finset.range bodies.length :=
    Finset.insert_subset (Finset.mem_range.mpr hi) h.within
  have hcard : (insert i received).card = received.card + 1 := Finset.card_insert_of_notMem hmem
  have hle : (insert i received).card ≤ bodies.length :=
    (Finset.card_le_card hwithin).trans (Finset.card_range _).le
  have hlt := staged.total_lt
  rw [h.total] at hlt
  exact ⟨_, dif_pos (by omega)⟩

/-- One more chunk, or one that is there already. -/
theorem Receiving.uploadChunk (h : Receiving w id staged bodies received) {i : UInt32}
    (hbody : bodies[i.toNat]? = some body) (hne : body ≠ [])
    (hlen : body.length ≤ maxUploadChunkBodyBytes) (hheader : parseChunkIndex header = .ok i) :
    ∃ w', uploadChunk w staged.userId id header body = (w', .noContent) ∧
      Receiving w' id staged bodies (insert i.toNat received) := by
  obtain ⟨row, hlookup, huser, hcount, hrow⟩ := h.row
  obtain ⟨hi, -⟩ := List.getElem?_eq_some_iff.mp hbody
  have hselect : selectUpload w id staged.userId = some row := selectUpload_of_lookup hlookup huser
  have hcheck : checkChunk row { userId := staged.userId, uploadId := id, chunkIndex := i, body } =
      .ok () :=
    checkChunk_eq_ok (by rw [h.row_total hrow]; exact Int.ofNat_lt.mpr hi) hne hlen
  have hwithin : insert i.toNat received ⊆ Finset.range bodies.length :=
    Finset.insert_subset (Finset.mem_range.mpr hi) h.within
  simp only [Server.uploadChunk, hheader, hselect, hcheck]
  by_cases hmem : i.toNat ∈ received
  · have hstored : chunkStorageKey id i ∈ w.storage :=
      Table.mem_iff_lookup.mpr ⟨body, by rw [h.chunk, if_pos hmem, hbody]⟩
    have hsame : insert i.toNat received = received := Finset.insert_eq_of_mem hmem
    rw [if_pos hstored]
    refine ⟨_, rfl, ⟨row, hlookup, huser, ?_, hrow⟩, h.total, hwithin, h.lookup_insert hbody, h.new⟩
    rw [hsame, hcount]
  · have hstored : chunkStorageKey id i ∉ w.storage := by
      rw [← AList.lookup_eq_none, h.chunk, if_neg hmem]
    obtain ⟨row', hbump⟩ := h.exists_bump hcount hi hmem
    obtain ⟨hcount', -, huser'⟩ := UploadRow.bump_eq_some hbump
    rw [if_neg hstored, hbump]
    refine ⟨_, rfl, ⟨row', AList.lookup_insert _, huser'.trans huser, ?_, fun now => ?_⟩, h.total,
      hwithin, h.lookup_insert hbody, h.new⟩
    · rw [hcount', hcount, Finset.card_insert_of_notMem hmem]; push_cast; rfl
    · rw [promote_bump hbump, hrow]

/-- After the last chunk the upload becomes a file. -/
theorem Receiving.uploadComplete
    (h : Receiving w id staged bodies (Finset.range bodies.length)) :
    ∃ w', uploadComplete w staged.userId id = (w', .completed id) ∧
      HoldsFile w' id (promote staged.userId staged w.now) bodies := by
  obtain ⟨row, hlookup, huser, hcount, hrow⟩ := h.row
  have hselect : selectUpload w id staged.userId = some row := selectUpload_of_lookup hlookup huser
  have hall : ¬ row.chunksReceived < row.totalChunks := by
    rw [hcount, h.row_total hrow, Finset.card_range]
    exact lt_irrefl _
  have hnew : id ∉ w.files := AList.lookup_eq_none.mp h.new
  have hinsert : Table.insertNew id (promote staged.userId row w.now) w.files =
      some (w.files.insert id (promote staged.userId row w.now)) := if_neg hnew
  simp only [Server.uploadComplete, hselect, if_neg hall, hinsert]
  refine ⟨_, rfl, ?_, h.total, fun i hi => ?_⟩
  · rw [AList.lookup_insert, hrow]
  · rw [h.chunk, if_pos (Finset.mem_range.mpr hi)]

/-- An accepted request for a new upload. -/
theorem receiving_uploadInit {req : UploadInitRequest} (hw : Untouched id w) (hid : id ∉ w.issued)
    (hstage : stage userId req w.now = some staged) (htotal : staged.totalChunks = bodies.length) :
    ∃ w', uploadInit w userId req id = (w', .initialised id (4 * 1024 * 1024)) ∧
      Receiving w' id staged bodies ∅ := by
  obtain ⟨hupload, hfile, hchunks⟩ := hw hid
  have hnew : id ∉ w.uploads := AList.lookup_eq_none.mp hupload
  have hinsert : Table.insertNew id staged w.uploads = some (w.uploads.insert id staged) :=
    if_neg hnew
  simp only [uploadInit, hstage, Option.bind_some, hinsert]
  refine ⟨_, rfl, ⟨staged, AList.lookup_insert _, rfl, ?_, fun _ => rfl⟩, htotal,
    Finset.empty_subset _, fun i => ?_, hfile⟩
  · rw [stage_received hstage]; rfl
  · rw [if_neg (Finset.notMem_empty _)]
    exact AList.lookup_eq_none.mpr (hchunks i)

/-! ## Requests about one upload -/

/-- Requests about the upload `id`, processed one after another, lead from `w` to `w'`:
    a run of the server that touches nothing else. -/
structure Processes (id : Uuid) (w w' : World) : Prop where
  reachable : ReachableWorld w → ReachableWorld w'
  issued : ∀ x ∈ w'.issued, x = id ∨ x ∈ w.issued
  others : ∀ x, x ≠ id → SameFile w w' x

namespace Processes

theorem refl (id : Uuid) (w : World) : Processes id w w :=
  ⟨fun h => h, fun _ hx => .inr hx, fun x _ => .refl w x⟩

theorem trans {w'' : World} (h : Processes id w w') (h' : Processes id w' w'') :
    Processes id w w'' :=
  ⟨fun hw => h'.reachable (h.reachable hw), fun x hx => (h'.issued x hx).elim .inl (h.issued x),
    fun x hx => (h.others x hx).trans (h'.others x hx)⟩

theorem uploadInit_world (w : World) (userId newId : Uuid) (req : UploadInitRequest) :
    ∃ uploads, (uploadInit w userId req newId).1 =
      { w with uploads, issued := newId :: w.issued } := by
  have hcase := uploadInit_cases w userId req newId
  generalize Server.uploadInit w userId req newId = result at hcase ⊢
  cases hcase with
  | refused => exact ⟨w.uploads, rfl⟩
  | initialised => exact ⟨_, rfl⟩

theorem uploadInit {newId : Uuid} {req : UploadInitRequest} (hnew : newId ∉ w.issued) :
    Processes newId w (uploadInit w userId req newId).1 := by
  obtain ⟨uploads, hworld⟩ := uploadInit_world w userId newId req
  refine ⟨fun hw => hw.uploadInit hnew, ?_, ?_⟩
  · rw [hworld]; exact fun _ hx => List.mem_cons.mp hx
  · rw [hworld]; exact fun _ _ => ⟨rfl, fun _ => rfl⟩

/-- `upload_chunk` writes at most one blob, under its own identifier. -/
theorem uploadChunk (w : World) (userId uploadId : Uuid) (header : Option Bytes) (body : Bytes) :
    Processes uploadId w (uploadChunk w userId uploadId header body).1 := by
  have hreach : ReachableWorld w →
      ReachableWorld (Server.uploadChunk w userId uploadId header body).1 :=
    fun hw => hw.uploadChunk userId uploadId header body
  have hcase := uploadChunk_cases w userId uploadId header body
  generalize Server.uploadChunk w userId uploadId header body = result at hreach hcase ⊢
  cases hcase with
  | rejected => exact .refl uploadId w
  | @repeated i | @counted i | @overflowed i =>
    refine ⟨hreach, fun _ hx => .inr hx, fun x hx => ⟨rfl, fun j => ?_⟩⟩
    have hkey : chunkStorageKey x j ≠ chunkStorageKey uploadId i :=
      fun hkey => hx (chunkStorageKey_inj hkey).1
    exact (Table.lookup_insert_eq _ _ _ _).trans (if_neg hkey)

/-- `upload_complete` inserts at most one file, under its own identifier. -/
theorem uploadComplete (w : World) (userId uploadId : Uuid) :
    Processes uploadId w (uploadComplete w userId uploadId).1 := by
  have hreach : ReachableWorld w → ReachableWorld (Server.uploadComplete w userId uploadId).1 :=
    fun hw => hw.uploadComplete userId uploadId
  have hcase := uploadComplete_cases w userId uploadId
  generalize Server.uploadComplete w userId uploadId = result at hreach hcase ⊢
  cases hcase with
  | rejected => exact .refl uploadId w
  | completed =>
    refine ⟨hreach, fun _ hx => .inr hx, fun x hx => ⟨?_, fun _ => rfl⟩⟩
    exact (Table.lookup_insert_eq _ _ _ _).trans (if_neg hx)

end Processes

end FreeBox.Server
