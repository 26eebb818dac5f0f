import FreeBox.Server.Uploads

/-!
# The orphan cleanup and completed files

A file keeps the identifier of its upload, so `purge_orphaned_uploads` would
delete the blobs of a file whose row in `uploads` is still there. The row is
there when the best-effort `DELETE` of `upload_complete` has failed, and a purge
pass that has fetched the row may meet an `upload_complete` that inserts the
file.

Results:
* `purge_outline`: under the guard, a purge pass in flight is about no file.
* `purge_spares_files`: in guarded runs a completed file keeps its blobs.
* `purge_deletes_file`: a run with one failed `DELETE` in which it does not.
-/

namespace FreeBox.Server

open FreeBox.Lib Handlers

/-- The purge pass may still list or delete blobs of the upload `id`. -/
def Job.willPurge (id : Uuid) : Job → Bool
  | .purgeList rows => id ∈ rows
  | .purgeDelete id' _ rows => id = id' ∨ id ∈ rows
  | .purgeRow _ rows => id ∈ rows
  | _ => false

/-- When a purge pass fetches its rows, no fetched identifier is that of a file; and
    when `upload_complete` inserts a file, no purge pass in flight may still delete
    its blobs. -/
def purgeGuard (s : State) : Step → Bool
  | .advance rid _ =>
    match s.jobs.lookup rid with
    | some .purgeSelect => (fetchOrphans s.world).all fun id => id ∉ s.world.files
    | some (.completeInsert _ id _) => Table.countWhere (fun _ j => j.willPurge id) s.jobs = 0
    | _ => true
  | _ => true

/-! ## What a purge pass may delete -/

/-- `job` purges only uploads in `P`, and each under its own prefix. -/
structure PurgesOnly (P : Uuid → Prop) (job : Job) : Prop where
  only : ∀ id, job.willPurge id = true → P id
  prefixed : ∀ id keys rows, job = .purgeDelete id keys rows →
    ∀ key ∈ keys, startsWith (chunkPrefix id) key = true

variable {P : Uuid → Prop} {w w' : World} {pick : ℕ} {job job' : Job} {next : Next Job Response}

theorem PurgesOnly.mono {Q : Uuid → Prop} (h : PurgesOnly P job)
    (hPQ : ∀ id, job.willPurge id = true → P id → Q id) : PurgesOnly Q job :=
  ⟨fun id hid => hPQ id hid (h.only id hid), h.prefixed⟩

theorem purgesOnly_of_idle (h : ∀ id, job.willPurge id = false) : PurgesOnly P job where
  only id hid := absurd hid (by rw [h]; exact Bool.false_ne_true)
  prefixed id keys rows hjob := by
    have := h id
    rw [hjob] at this
    simp [Job.willPurge] at this

theorem purgesOnly_nextRow {rows : List Uuid} (h : nextRow rows = .goto job)
    (hrows : ∀ id ∈ rows, P id) : PurgesOnly P job := by
  unfold nextRow at h
  split_ifs at h
  cases h
  exact ⟨fun id hid => hrows id (by simpa [Job.willPurge] using hid), fun _ _ _ he => by cases he⟩

theorem purgesOnly_nextKey {id : Uuid} {keys : List String} {rows : List Uuid}
    (h : nextKey id keys rows = .goto job) (hid : P id) (hrows : ∀ id ∈ rows, P id)
    (hkeys : ∀ key ∈ keys, startsWith (chunkPrefix id) key = true) : PurgesOnly P job := by
  unfold nextKey at h
  split_ifs at h <;> cases h
  · exact ⟨fun id' h' => hrows id' (by simpa [Job.willPurge] using h'), fun _ _ _ he => by cases he⟩
  · refine ⟨fun id' h' => ?_, fun _ _ _ he => by cases he; exact hkeys⟩
    rcases (by simpa [Job.willPurge] using h' : id' = id ∨ id' ∈ rows) with rfl | hmem
    · exact hid
    · exact hrows id' hmem

/-- `job` is a purge pass that has fetched its rows. -/
def Job.isPurge : Job → Bool
  | .purgeList _ | .purgeDelete .. | .purgeRow .. => true
  | _ => false

theorem nextRow_isPurge {rows : List Uuid} (h : nextRow rows = .goto job) : job.isPurge = true := by
  unfold nextRow at h
  split_ifs at h
  cases h
  rfl

theorem nextKey_isPurge {id : Uuid} {keys : List String} {rows : List Uuid}
    (h : nextKey id keys rows = .goto job) : job.isPurge = true := by
  unfold nextKey at h
  split_ifs at h <;> · cases h; rfl

/-- After a failed call only a purge pass goes on. -/
theorem onFail_isPurge (h : onFail pick job = some (.goto job')) : job'.isPurge = true := by
  cases job with
  | purgeList rows => obtain ⟨_, -, h⟩ := Option.map_eq_some_iff.mp h; cases h; rfl
  | purgeDelete => obtain ⟨_, -, h⟩ := Option.map_eq_some_iff.mp h; exact nextKey_isPurge h
  | purgeRow => exact nextRow_isPurge (Option.some.inj h)
  | _ => cases h

theorem mem_listKeys {lead key : String} :
    key ∈ listKeys w lead ↔ key ∈ w.storage ∧ startsWith lead key = true := by
  simp only [listKeys, List.mem_map, Prod.exists, exists_and_right, exists_eq_right,
    Table.mem_selectWhere, Table.mem_iff_lookup]

/-- A purge pass goes on with the rows that it has fetched. -/
theorem CallCase.purgesOnly (h : CallCase w pick job w' (.goto job')) (hjob : PurgesOnly P job)
    (hfetch : job = .purgeSelect → ∀ id ∈ fetchOrphans w, P id) : PurgesOnly P job' := by
  generalize hnext : Next.goto job' = next at h
  cases h with
  | rejected | counted | uncounted | overflowed | unstaged => cases hnext
  | parsed | selected | probed | complete | promoted =>
    cases hnext
    exact purgesOnly_of_idle fun _ => rfl
  | stored =>
    split_ifs at hnext
    cases hnext
    exact purgesOnly_of_idle fun _ => rfl
  | fetched => exact purgesOnly_nextRow hnext.symm (hfetch rfl)
  | @listed rows id hid =>
    have hrows : ∀ id' ∈ rows, P id' := fun id' h' => hjob.only id' (by simpa [Job.willPurge] using h')
    exact purgesOnly_nextKey hnext.symm (hrows id (List.mem_of_getElem? hid))
      (fun id' h' => hrows id' (List.mem_of_mem_eraseIdx h')) fun key hkey => (mem_listKeys.mp hkey).2
  | @blobDeleted id keys rows key hkey =>
    exact purgesOnly_nextKey hnext.symm (hjob.only id (by simp [Job.willPurge]))
      (fun id' h' => hjob.only id' (by simp [Job.willPurge, h']))
      fun k hk => hjob.prefixed id keys rows rfl k (List.mem_of_mem_eraseIdx hk)
  | rowDeleted =>
    exact purgesOnly_nextRow hnext.symm fun id' h' =>
      hjob.only id' (by simpa [Job.willPurge] using h')

theorem onFail_purgesOnly (h : onFail pick job = some (.goto job')) (hjob : PurgesOnly P job) :
    PurgesOnly P job' := by
  cases job with
  | purgeList rows =>
    obtain ⟨id, hid, h⟩ := Option.map_eq_some_iff.mp h
    cases h
    refine ⟨fun id' h' => hjob.only id' ?_, fun _ _ _ he => by cases he⟩
    simp only [Job.willPurge, decide_eq_true_eq] at h' ⊢
    exact List.mem_of_mem_eraseIdx h'
  | purgeDelete id keys rows =>
    obtain ⟨key, hkey, h⟩ := Option.map_eq_some_iff.mp h
    exact purgesOnly_nextKey h (hjob.only id (by simp [Job.willPurge]))
      (fun id' h' => hjob.only id' (by simp [Job.willPurge, h']))
      fun k hk => hjob.prefixed id keys rows rfl k (List.mem_of_mem_eraseIdx hk)
  | purgeRow id rows =>
    exact purgesOnly_nextRow (Option.some.inj h) fun id' h' =>
      hjob.only id' (by simpa [Job.willPurge] using h')
  | _ => cases h

/-- No call of a handler that does not purge the upload `id` removes a chunk of it. -/
theorem CallCase.keeps_chunk (h : CallCase w pick job w' next) (hjob : PurgesOnly P job) {id : Uuid}
    (hid : ¬ P id) {i : UInt32} (hblob : chunkStorageKey id i ∈ w.storage) :
    chunkStorageKey id i ∈ w'.storage := by
  cases h with
  | stored => exact AList.mem_insert _ |>.mpr (.inr hblob)
  | @blobDeleted id' keys rows key hkey =>
    refine AList.mem_erase.mpr ⟨?_, hblob⟩
    rintro rfl
    have hlead := hjob.prefixed id' keys rows rfl _ (List.mem_of_getElem? hkey)
    obtain rfl := (startsWith_chunkStorageKey id id' i).mp hlead
    exact hid (hjob.only id (by simp [Job.willPurge]))
  | _ => exact hblob

/-- Only `upload_complete` inserts files. -/
theorem CallCase.files_lookup (h : CallCase w pick job w' next) (id : Uuid) :
    w'.files.lookup id = w.files.lookup id ∨ ∃ userId row, job = .completeInsert userId id row := by
  cases h with
  | @promoted userId uploadId row hnew =>
    by_cases hid : id = uploadId
    · subst hid; exact .inr ⟨userId, row, rfl⟩
    · left; simp only [Table.lookup_insert_eq, if_neg hid]
  | _ => exact .inl rfl

theorem CallCase.keeps_file (h : CallCase w pick job w' next) {id : Uuid} (hid : id ∈ w.files) :
    id ∈ w'.files := by
  cases h with
  | promoted => exact AList.mem_insert _ |>.mpr (.inr hid)
  | _ => exact hid

/-! ## Guarded runs -/

/-- No blob that `job` may delete belongs to a file. -/
def PurgeSpares (w : World) : Job → Prop := PurgesOnly fun id => id ∉ w.files

/-- Under the guard every purge pass in flight spares all files. -/
theorem purge_outline : uploadHandlers.ProofOutline (fun s a => purgeGuard s a = true)
    (fun _ => True) PurgeSpares where
  arrive s rid job _ _ hentry := by
    cases job with
    | chunkStart | completeSelect | purgeSelect => exact purgesOnly_of_idle fun _ => rfl
    | _ => cases hentry
  advance s rid pick job w next h hok hjob hadv := by
    refine ⟨trivial, fun job' hnext => ?_⟩
    subst hnext
    have hcase := advance_cases hadv
    refine (hcase.purgesOnly (h.2 rid job hjob) fun hselect id hid => ?_).mono fun id _ hid hfile => ?_
    · subst hselect
      simp only [purgeGuard, hjob, List.all_eq_true, decide_eq_true_eq] at hok
      exact hok id hid
    · -- a call that inserts a file is not a purge pass
      rcases hcase.files_lookup id with heq | ⟨userId, row, rfl⟩
      · rw [← AList.lookup_isSome, heq, AList.lookup_isSome] at hfile
        exact hid hfile
      · cases hcase
        contradiction
  undisturbed s rid pick job w next rid' job' h hok hjob hadv _ hjob' := by
    refine (h.2 rid' job' hjob').mono fun id hpurge hid hfile => ?_
    rcases (advance_cases hadv).files_lookup id with heq | ⟨userId, row, rfl⟩
    · rw [← AList.lookup_isSome, heq, AList.lookup_isSome] at hfile
      exact hid hfile
    · -- the guard forbids this insertion while `job'` may purge the same upload
      simp only [purgeGuard, hjob, decide_eq_true_eq] at hok
      have hpos := Table.countWhere_pos (p := fun _ j => j.willPurge id).mpr
        ⟨rid', job', hjob', hpurge⟩
      omega
  fail w pick job job' _ hjob hfail := onFail_purgesOnly hfail hjob
  env s e w _ _ henv := by
    refine ⟨trivial, fun job hjob => hjob.mono fun id _ hid => ?_⟩
    cases environ_cases henv <;> exact hid

theorem step_keeps_blob {s t : State} {a : Step} (h : Holds (fun _ => True) PurgeSpares s)
    (hs : step s a = some t) {id : Uuid} (hid : id ∈ s.world.files) {i : UInt32}
    (hblob : chunkStorageKey id i ∈ s.world.storage) :
    id ∈ t.world.files ∧ chunkStorageKey id i ∈ t.world.storage := by
  cases step_cases hs with
  | @advance rid pick job w next hjob hadv =>
    have hcase := advance_cases hadv
    exact ⟨hcase.keeps_file hid, hcase.keeps_chunk (h.2 rid job hjob) (not_not_intro hid) hblob⟩
  | @env e w henv =>
    cases environ_cases henv <;> exact ⟨hid, hblob⟩
  | _ => exact ⟨hid, hblob⟩

/-- In a run whose steps all meet the guard, a blob of a completed file stays. -/
theorem purge_spares_files {w : World} {s t : State} {as bs : List Step}
    (hbefore : Run step (fun s a => purgeGuard s a = true) (Sys.idle w) as s)
    (hafter : Run step (fun s a => purgeGuard s a = true) s bs t)
    {id : Uuid} (hid : id ∈ s.world.files) {i : UInt32}
    (hblob : chunkStorageKey id i ∈ s.world.storage) :
    id ∈ t.world.files ∧ chunkStorageKey id i ∈ t.world.storage := by
  have hs := purge_outline.holds hbefore (holds_idle trivial)
  have hinv := hafter.invariant
    (fun u => Holds (fun _ => True) PurgeSpares u ∧ id ∈ u.world.files ∧
      chunkStorageKey id i ∈ u.world.storage)
    ⟨hs, hid, hblob⟩ fun u a v ⟨hu, hfile, hkey⟩ hok hstep =>
      ⟨purge_outline.preserves hu hok hstep, step_keeps_blob hu hstep hfile hkey⟩
  exact hinv.2

/-! ### A failed `DELETE` -/

/-- The identifier of the upload in concrete runs. -/
def runId : Uuid := ⟨7⟩

/-- Its owner. -/
def runUser : Uuid := ⟨1⟩

/-- An upload of `n` chunks begins. -/
def runInit (n : UInt32) : Step :=
  .env (.init runUser { totalChunks := n, sizeBytes := 1, encryptedKeyEnvelope := "",
                        contentHash := "", encryptedName := "" } runId)

/-- Request `rid` sends a chunk; `header` is the text of its index. -/
def runChunk (rid : ℕ) (header : Bytes) : Step :=
  .arrive rid (.chunkStart runUser runId (some header) [1])

/-- One chunk arrives and `upload_complete` inserts the file, but its `DELETE`
    fails. -/
def runStaged : List Step :=
  [runInit 1, runChunk 0 [48], .advance 0 0, .advance 0 0, .advance 0 0, .advance 0 0, .advance 0 0,
    .arrive 1 (.completeSelect runUser runId), .advance 1 0, .advance 1 0, .fail 1 0]

/-- Another upload, of which one chunk arrives and which is not completed. -/
def runOther : Uuid := ⟨8⟩

/-- The other upload is begun, and the file is completed. -/
def runTwo : List Step :=
  [.env (.init runUser { totalChunks := 2, sizeBytes := 1, encryptedKeyEnvelope := "",
                         contentHash := "", encryptedName := "" } runOther),
    .arrive 2 (.chunkStart runUser runOther (some [48]) [2]), .advance 2 0, .advance 2 0,
    .advance 2 0, .advance 2 0, .advance 2 0] ++
  runStaged.dropLast ++ [.advance 1 0]

/-- A day later a purge pass deletes the blob and the row of the other upload. -/
def runPurge : List Step :=
  [.env (.tick (day + 1)), .arrive 3 .purgeSelect, .advance 3 0, .advance 3 0, .advance 3 0,
    .advance 3 0]

theorem purge_spares_files_run : ∃ s t,
    Run step (fun s a => purgeGuard s a = true) (Sys.idle World.empty) runTwo s ∧
    Run step (fun s a => purgeGuard s a = true) s runPurge t ∧
    chunkStorageKey runOther 0 ∈ s.world.storage ∧ chunkStorageKey runOther 0 ∉ t.world.storage ∧
    runOther ∉ t.world.uploads ∧
    runId ∈ t.world.files ∧ chunkStorageKey runId 0 ∈ t.world.storage := by
  obtain ⟨s, hs, hp⟩ := exists_run_of_exec step (fun s a => purgeGuard s a = true)
    (Sys.idle World.empty) runTwo
    (fun s => decide (runId ∈ s.world.files ∧ chunkStorageKey runId 0 ∈ s.world.storage ∧
        chunkStorageKey runOther 0 ∈ s.world.storage) &&
      (exec step (fun s a => purgeGuard s a = true) s runPurge).any fun t : State =>
        decide (chunkStorageKey runOther 0 ∉ t.world.storage ∧ runOther ∉ t.world.uploads))
    (by decide +kernel)
  simp only [Bool.and_eq_true, Option.any_eq_true, decide_eq_true_eq] at hp
  obtain ⟨⟨hid, hblob, hother⟩, t, ht, hgone, hrow⟩ := hp
  have hpurge := run_iff_exec.mpr ht
  exact ⟨s, t, hs, hpurge, hother, hgone, hrow, purge_spares_files hs hpurge hid hblob⟩

/-- A day later the row is still in `uploads`, and the next purge pass deletes the
    blob of the file. -/
theorem purge_deletes_file : ∃ s a t, Run step anyStep (Sys.idle World.empty)
    (runStaged ++ [.env (.tick (day + 1)), .arrive 2 .purgeSelect, .advance 2 0, .advance 2 0]) s ∧
      step s a = some t ∧ runId ∈ s.world.files ∧ chunkStorageKey runId 0 ∈ s.world.storage ∧
      chunkStorageKey runId 0 ∉ t.world.storage := by
  obtain ⟨s, hs, hp⟩ := exists_run_of_exec step anyStep (Sys.idle World.empty)
    (runStaged ++ [.env (.tick (day + 1)), .arrive 2 .purgeSelect, .advance 2 0, .advance 2 0])
    (fun s => runId ∈ s.world.files ∧ chunkStorageKey runId 0 ∈ s.world.storage ∧
      (step s (.advance 2 0)).any fun t => chunkStorageKey runId 0 ∉ t.world.storage)
    (by decide +kernel)
  obtain ⟨hid, hblob, ht⟩ := of_decide_eq_true hp
  obtain ⟨t, ht, hgone⟩ := Option.any_eq_true _ _ |>.mp ht
  exact ⟨s, _, t, hs, ht, hid, hblob, of_decide_eq_true hgone⟩

end FreeBox.Server
