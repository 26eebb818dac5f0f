import FreeBox.Server.Metadata

/-!
# Completed files and late chunks

A chunk is written under its final key while it is uploaded, and `upload_chunk`
reads the row of the upload long before it comes to `storage.put`. A request that
is in flight when `upload_complete` inserts the file, or that finds the row because
the best-effort `DELETE` has failed, writes into a completed file. A `storage.put`
that fails is taken to have stored nothing.

Results:
* `settled_outline`: in guarded runs nobody in flight writes to a completed file.
* `completed_file_kept`: in guarded runs `download_chunk` returns what was stored when
  the file was inserted.
* `completed_file_changed`: a run in which it does not.
-/

namespace FreeBox.Server

open FreeBox.Lib Handlers

/-- The chunks of `id` are the same in both worlds. -/
def SameChunks (id : Uuid) (w w' : World) : Prop :=
  ∀ i, w'.storage.lookup (chunkStorageKey id i) = w.storage.lookup (chunkStorageKey id i)

/-- An `upload_chunk` request for `id` between its `SELECT` and its `storage.put`. -/
def Job.willPut (id : Uuid) : Job → Bool
  | .chunkExists r | .chunkPut r _ => r.uploadId = id
  | _ => false

/-- A request that has read the row of the upload `id` and may still change its chunks. -/
def changesLater (id : Uuid) : Job ⊕ FileJob → Bool
  | .inl job => job.willPut id || job.willPurge id
  | .inr _ => false

/-- The guard of the runs that leave the completed file `id` as it is. When `upload_complete`
    inserts the file, no request that has read the row of the upload may still change its
    chunks; and as long as that row is there, no `upload_chunk` request passes its `SELECT`
    and no purge pass fetches it. -/
def fileGuard (id : Uuid) (s : ServerState) : ServerStep → Bool
  | .advance rid _ =>
    match s.jobs.lookup rid with
    | some (.inl (.completeInsert _ uploadId _)) => uploadId = id →
        Table.countWhere (fun _ => changesLater id) s.jobs = 0
    | some (.inl (.chunkSelect r)) => id ∈ s.world.files → r.uploadId = id →
        (selectUpload s.world id r.userId).all fun row => checkChunk row r != .ok ()
    | some (.inl .purgeSelect) => id ∈ s.world.files → id ∉ fetchOrphans s.world
    | _ => true
  | _ => true

variable {id : Uuid} {s t u : ServerState} {a : ServerStep} {as : List ServerStep}

theorem SameChunks.refl (id : Uuid) (w : World) : SameChunks id w w := fun _ => rfl

theorem SameChunks.trans {w w' w'' : World} (h : SameChunks id w w') (h' : SameChunks id w' w'') :
    SameChunks id w w'' :=
  fun i => (h' i).trans (h i)

theorem SameChunks.readChunk {w w' : World} (h : SameChunks id w w') (i : UInt32) :
    readChunk w' id i = readChunk w id i := by
  rw [Server.readChunk, Server.readChunk, h i]

/-! ## Guarded runs -/

/-- Once the file is there, the request does not write to it. -/
structure Spares (id : Uuid) (w : World) (job : Job) : Prop where
  put : id ∈ w.files → job.willPut id = false
  purge : PurgesOnly (fun id' => id ∈ w.files → id' ≠ id) job

/-- Once the file is there, nobody in flight writes to it. -/
def Settled (id : Uuid) (w : World) : Job ⊕ FileJob → Prop
  | .inl job => Spares id w job
  | .inr _ => True

theorem Spares.of_files {w w' : World} {job : Job} (h : Spares id w job)
    (hfiles : id ∈ w'.files → id ∈ w.files) : Spares id w' job where
  put hfile := h.put (hfiles hfile)
  purge := h.purge.mono fun _ _ hne hfile => hne (hfiles hfile)

theorem spares_of_idle {w : World} {job : Job} (hput : job.willPut id = false)
    (hpurge : ∀ id', job.willPurge id' = false) : Spares id w job :=
  ⟨fun _ => hput, purgesOnly_of_idle hpurge⟩

/-- The handlers of completed files insert and remove none. -/
theorem FileCase.mem_files {w w' : World} {job : FileJob} {next : Next FileJob FileResponse}
    (h : FileCase w job w' next) (hid : id ∈ w'.files) : id ∈ w.files := by
  cases h with
  | answered | selected => exact hid
  | @edited id' _ _ _ hrow =>
    rcases AList.mem_insert _ |>.mp hid with rfl | hold
    · exact Table.mem_iff_lookup.mpr ⟨_, hrow⟩
    · exact hold

/-- Only an `INSERT` of `upload_complete` makes `id` a file. -/
theorem CallCase.mem_files {w w' : World} {pick : ℕ} {job : Job} {next : Next Job Response}
    (h : CallCase w pick job w' next) (hid : id ∈ w'.files) :
    id ∈ w.files ∨ ∃ userId row, job = .completeInsert userId id row := by
  rcases h.files_lookup id with heq | hinsert
  · rw [← AList.lookup_isSome, heq, AList.lookup_isSome] at hid
    exact .inl hid
  · exact .inr hinsert

theorem willPut_of_isPurge {job : Job} (h : job.isPurge = true) : job.willPut id = false := by
  cases job with
  | purgeList | purgeDelete | purgeRow => rfl
  | _ => cases h

/-- A guarded call of an upload handler leads to a point that spares the file. -/
theorem CallCase.settles {w' : World} {pick rid : ℕ} {job job' : Job}
    (h : CallCase s.world pick job w' (.goto job')) (hspares : Spares id s.world job)
    (hx : s.jobs.lookup rid = some (.inl job))
    (hok : fileGuard id s (.advance rid pick) = true) : Spares id w' job' := by
  have hpurge : PurgesOnly (fun id' => id ∈ s.world.files → id' ≠ id) job' := by
    refine h.purgesOnly hspares.purge ?_
    rintro rfl id' hid' hfile rfl
    simp only [fileGuard, hx, decide_eq_true_eq] at hok
    exact hok hfile hid'
  generalize hnext : Next.goto job' = next at h
  cases h with
  | rejected | counted | uncounted | overflowed | unstaged => cases hnext
  | parsed | complete | promoted =>
    cases hnext
    exact spares_of_idle rfl fun _ => rfl
  | @selected r row hrow hcheck =>
    cases hnext
    refine ⟨fun hfile => ?_, hpurge⟩
    simp only [fileGuard, hx, decide_eq_true_eq] at hok
    show decide (r.uploadId = id) = false
    rw [decide_eq_false_iff_not]
    rintro rfl
    have hrefused := hok hfile rfl
    rw [hrow, Option.all_some, hcheck] at hrefused
    exact absurd hrefused (by decide)
  | probed =>
    cases hnext
    exact ⟨hspares.put, hpurge⟩
  | stored =>
    split_ifs at hnext
    cases hnext
    exact spares_of_idle rfl fun _ => rfl
  | fetched => exact ⟨fun _ => willPut_of_isPurge (nextRow_isPurge hnext.symm), hpurge⟩
  | listed | blobDeleted => exact ⟨fun _ => willPut_of_isPurge (nextKey_isPurge hnext.symm), hpurge⟩
  | rowDeleted => exact ⟨fun _ => willPut_of_isPurge (nextRow_isPurge hnext.symm), hpurge⟩

/-- In guarded runs nobody in flight writes to a completed file. -/
theorem settled_outline (id : Uuid) :
    fileServer.ProofOutline (fun s a => fileGuard id s a = true) (fun _ => True) (Settled id) where
  arrive s rid x _ _ hentry := by
    cases x with
    | inl job =>
      cases job with
      | chunkStart | completeSelect | purgeSelect => exact spares_of_idle rfl fun _ => rfl
      | _ => cases hentry
    | inr job => trivial
  advance s rid pick x w next h hok hx hadv := by
    refine ⟨trivial, fun y hy => ?_⟩
    cases par_advance_cases hadv with
    | left hcall =>
      obtain ⟨job', rfl, rfl⟩ := Next.map_eq_goto hy
      exact (advance_cases hcall).settles (h.2 rid _ hx) hx hok
    | right hcall =>
      obtain ⟨job', rfl, rfl⟩ := Next.map_eq_goto hy
      trivial
  undisturbed s rid pick x w next rid' y h hok hx hadv hne hy := by
    cases y with
    | inr job => trivial
    | inl job =>
      have hjob : Spares id s.world job := h.2 rid' _ hy
      cases par_advance_cases hadv with
      | right hcall => exact hjob.of_files (fileHandlers_cases hcall).mem_files
      | left hcall =>
        by_cases hfile : id ∈ s.world.files
        · exact hjob.of_files fun _ => hfile
        by_cases hinserted : id ∈ w.files
        · -- The guard admits this `INSERT` when nobody may change the file later.
          obtain hold | ⟨userId, row, rfl⟩ := (advance_cases hcall).mem_files hinserted
          · exact absurd hold hfile
          simp only [fileGuard, hx, decide_eq_true_eq, forall_const] at hok
          have hquiet : changesLater id (.inl job) = false := by
            by_contra hchanges
            have hpos := Table.countWhere_pos (p := fun _ => changesLater id).mpr
              ⟨rid', .inl job, hy, Bool.eq_true_of_not_eq_false hchanges⟩
            omega
          obtain ⟨hput, hpurge⟩ := Bool.or_eq_false_iff.mp hquiet
          refine ⟨fun _ => hput, hjob.purge.mono ?_⟩
          rintro id' hid' - - rfl
          rw [hpurge] at hid'
          cases hid'
        · exact hjob.of_files fun h => absurd h hinserted
  fail w pick x y _ hA hfail := by
    rcases par_onFail_cases hfail with ⟨job, job', rfl, rfl, hj⟩ | ⟨k, k', rfl, rfl, hk⟩
    · have hjob : Spares id w job := hA
      exact ⟨fun _ => willPut_of_isPurge (onFail_isPurge hj), onFail_purgesOnly hj hjob.purge⟩
    · trivial
  env s e w _ _ henv := by
    refine ⟨trivial, fun x hx => ?_⟩
    cases x with
    | inr job => trivial
    | inl job =>
      cases e with
      | inr e => exact e.elim
      | inl e =>
        refine Spares.of_files hx fun hfile => ?_
        cases environ_cases henv <;> exact hfile

/-- A step changes no chunk of a completed file that nobody in flight writes to. -/
theorem sameChunks_step (h : Holds (fun _ => True) (Settled id) s) (hs : serverStep s a = some t)
    (hfile : id ∈ s.world.files) : SameChunks id s.world t.world := by
  cases step_cases hs with
  | arrive | fail | cancel => exact .refl id s.world
  | @advance rid pick x w next hx hadv =>
    cases par_advance_cases hadv with
    | left hcall =>
      have hspares : Spares id s.world _ := h.2 rid _ hx
      cases advance_cases hcall with
      | @stored r already =>
        intro i
        rw [Sys.settle_world, Table.lookup_insert_eq]
        split_ifs with hkey
        · obtain ⟨rfl, rfl⟩ := chunkStorageKey_inj hkey
          have hput := hspares.put hfile
          simp [Job.willPut] at hput
        · rfl
      | @blobDeleted id' keys rows key hkey =>
        intro i
        rw [Sys.settle_world, Table.lookup_erase_eq]
        split_ifs with hkey'
        · subst hkey'
          have hlead := hspares.purge.prefixed id' keys rows rfl _ (List.mem_of_getElem? hkey)
          obtain rfl := (startsWith_chunkStorageKey id id' i).mp hlead
          exact absurd rfl (hspares.purge.only id (by simp [Job.willPurge]) hfile)
        · rfl
      | _ => exact .refl id s.world
    | right hcall =>
      obtain ⟨files, rfl⟩ := (fileHandlers_cases hcall).world_eq
      exact .refl id s.world
  | @env e w henv =>
    cases e with
    | inl e => cases environ_cases henv <;> exact .refl id s.world
    | inr e => exact e.elim

/-- The owner and the total of a file never change. -/
theorem file_total_stays {row : FileRow} {ok : ServerState → ServerStep → Prop}
    (h : Run serverStep ok s as t) (hrow : s.world.files.lookup id = some row) :
    ∃ row', t.world.files.lookup id = some row' ∧ row'.userId = row.userId ∧
      row'.totalChunks = row.totalChunks := by
  refine h.invariant (fun t => ∃ row', t.world.files.lookup id = some row' ∧
    row'.userId = row.userId ∧ row'.totalChunks = row.totalChunks) ⟨row, hrow, rfl, rfl⟩ ?_
  rintro t a u ⟨row₁, hrow₁, huser, htotal⟩ - hstep
  have hcase := row_cases hstep id
  generalize u.world.files.lookup id = found at hcase ⊢
  cases hcase with
  | same => exact ⟨row₁, hrow₁, huser, htotal⟩
  | inserted _ hnew => rw [hrow₁] at hnew; cases hnew
  | @edited rid pick job row₂ row₃ hjob hrow₂ hedit =>
    rw [hrow₁] at hrow₂
    cases hrow₂
    cases hedit <;> exact ⟨_, rfl, huser, htotal⟩

/-- The query of `download_chunk` returns nothing but the total. -/
theorem downloadChunk_congr {w w' : World} {row row' : FileRow} {user : Uuid}
    (hrow : selectFile w id user = some row) (hrow' : selectFile w' id user = some row')
    (htotal : row'.totalChunks = row.totalChunks) (h : SameChunks id w w') (i : UInt32) :
    downloadChunk w' user id i = downloadChunk w user id i := by
  simp only [downloadChunk, hrow, hrow', htotal, h i]

/-- Immutability. After the row of the file has been inserted, in a run whose steps all
    meet the guard, `storage.get` of `download_chunk` returns for every index what was
    stored then, and so does the whole handler as long as the file is not in the
    trash. -/
theorem completed_file_kept (id : Uuid) {w : World} {row : FileRow} {bs : List ServerStep}
    (hbefore : Run serverStep (fun s a => fileGuard id s a = true) (Sys.idle w) as s)
    (hok : fileGuard id s a = true) (hinsert : serverStep s a = some t)
    (hnew : s.world.files.lookup id = none) (hrow : t.world.files.lookup id = some row)
    (hafter : Run serverStep (fun s a => fileGuard id s a = true) t bs u) (i : UInt32) :
    readChunk u.world id i = readChunk t.world id i ∧
      ∀ user, (selectFile u.world id user).isSome = true →
        downloadChunk u.world user id i = downloadChunk t.world user id i := by
  have hsettled : Holds (fun _ => True) (Settled id) t :=
    (settled_outline id).preserves ((settled_outline id).holds hbefore (holds_idle trivial)) hok
      hinsert
  have hsame : id ∈ u.world.files ∧ SameChunks id t.world u.world := by
    have hinv := hafter.invariant
      (fun u => Holds (fun _ => True) (Settled id) u ∧ id ∈ u.world.files ∧
        SameChunks id t.world u.world)
      ⟨hsettled, Table.mem_iff_lookup.mpr ⟨row, hrow⟩, .refl id t.world⟩ ?_
    · exact hinv.2
    rintro v b v' ⟨hv, hfile, hsame⟩ hok hstep
    obtain ⟨row₁, hrow₁⟩ := Table.mem_iff_lookup.mp hfile
    have hone : Run serverStep anyStep v [b] v' := .snoc .nil trivial hstep
    obtain ⟨row₂, hrow₂, -⟩ := file_total_stays hone hrow₁
    exact ⟨(settled_outline id).preserves hv hok hstep, Table.mem_iff_lookup.mpr ⟨row₂, hrow₂⟩,
      hsame.trans (sameChunks_step hv hstep hfile)⟩
  refine ⟨hsame.2.readChunk i, fun user hsome => ?_⟩
  obtain ⟨row', hselect⟩ := Option.isSome_iff_exists.mp hsome
  obtain ⟨hrow', hactive⟩ := selectFile_eq_some.mp hselect
  obtain ⟨row₁, hrow₁, huser, htotal⟩ := file_total_stays hafter hrow
  rw [hrow'] at hrow₁
  cases hrow₁
  -- the row has been inserted as an active one
  have hactive' : row.active user = true := by
    have hcase := row_cases hinsert id
    rw [hrow] at hcase
    generalize hfound : some row = found at hcase
    cases hcase with
    | same => rw [hnew] at hfound; cases hfound
    | inserted =>
      cases hfound
      exact active_iff.mpr ⟨huser.symm.trans (active_iff.mp hactive).1, rfl⟩
    | edited _ hrow₂ => rw [hnew] at hrow₂; cases hrow₂
  exact downloadChunk_congr (selectFile_eq_some.mpr ⟨hrow, hactive'⟩) hselect htotal hsame.2 i

/-! ### A late chunk -/

/-- The owner sends the byte `body` as the chunk 0 of the upload. -/
def runSend (rid : ℕ) (body : UInt8) : ServerStep :=
  .arrive rid (.inl (.chunkStart runUser runId (some [48]) [body]))

/-- The chunk is sent and counted; `upload_complete` comes to its `INSERT`. -/
def runInFlight : List ServerStep :=
  [.env (.inl (.init runUser runRequest runId)), runSend 0 1, .advance 0 0, .advance 0 0,
    .advance 0 0, .advance 0 0, .advance 0 0, runSend 1 2, .advance 1 0, .advance 1 0, .advance 1 0,
    .arrive 2 (.inl (.completeSelect runUser runId)), .advance 2 0]

/-- `download_chunk` returns one byte. -/
def returns (w : World) (body : UInt8) : Bool :=
  match downloadChunk w runUser runId 0 with
  | .ok chunk => chunk = [body]
  | .error _ => false

/-- `upload_complete` has answered last. -/
def hasCompleted (s : ServerState) : Bool :=
  match s.answers with
  | (_, .inl (.completed id)) :: _ => id = runId
  | _ => false

/-- A second request for the only chunk has come to its `storage.put` when
    `upload_complete` answers; then it writes, and the bytes of the file have changed. -/
theorem completed_file_changed : ∃ s t, Run serverStep anyStep (Sys.idle World.empty)
      (runInFlight ++ [.advance 2 0, .advance 2 0]) s ∧
    hasCompleted s = true ∧ returns s.world 1 = true ∧
    serverStep s (.advance 1 0) = some t ∧ returns t.world 2 = true := by
  obtain ⟨s, hrun, hs⟩ := exists_run_of_exec serverStep anyStep (Sys.idle World.empty)
    (runInFlight ++ [.advance 2 0, .advance 2 0])
    (fun s => hasCompleted s && returns s.world 1 &&
      (serverStep s (.advance 1 0)).any fun t => returns t.world 2) (by decide +kernel)
  rw [Bool.and_eq_true, Bool.and_eq_true, Option.any_eq_true] at hs
  obtain ⟨⟨hcompleted, hbefore⟩, t, hstep, hafter⟩ := hs
  exact ⟨s, t, hrun, hcompleted, hbefore, hstep, hafter⟩

/-- The chunk is sent twice and stored twice, and `upload_complete` comes to its `INSERT`. -/
def runResent : List ServerStep :=
  runInFlight ++ [.advance 1 0]

/-- The file is completed. The chunk is sent once more, a day passes, and a purge pass comes. -/
def runLate : List ServerStep :=
  [.advance 2 0, runSend 3 3, .advance 3 0, .advance 3 0, .env (.inl (.tick (day + 1))),
    .arrive 4 (.inl .purgeSelect), .advance 4 0]

theorem completed_file_kept_run : ∃ s t u,
    Run serverStep (fun s a => fileGuard runId s a = true) (Sys.idle World.empty) runResent s ∧
    serverStep s (.advance 2 0) = some t ∧
    Run serverStep (fun s a => fileGuard runId s a = true) t runLate u ∧ u.jobs.entries = [] ∧
    readChunk t.world runId 0 = .ok [2] ∧
    readChunk u.world runId 0 = readChunk t.world runId 0 := by
  obtain ⟨s, hrun, hs⟩ := exists_run_of_exec serverStep (fun s a => fileGuard runId s a = true)
    (Sys.idle World.empty) runResent
    (fun s => (s.world.files.lookup runId).isNone && fileGuard runId s (.advance 2 0) &&
      (serverStep s (.advance 2 0)).any fun t => (t.world.files.lookup runId).isSome &&
        decide (readChunk t.world runId 0 = .ok [2]) &&
        (exec serverStep (fun s a => fileGuard runId s a = true) t runLate).any fun u =>
          u.jobs.entries.isEmpty) (by decide +kernel)
  simp only [Bool.and_eq_true, Option.any_eq_true, decide_eq_true_eq, List.isEmpty_iff] at hs
  obtain ⟨⟨hnew, hok⟩, t, hinsert, ⟨hfile, hread⟩, u, hafter, hended⟩ := hs
  obtain ⟨row, hrow⟩ := Option.isSome_iff_exists.mp hfile
  have hafter := run_iff_exec.mpr hafter
  exact ⟨s, t, u, hrun, hinsert, hafter, hended, hread,
    (completed_file_kept runId hrun hok hinsert (Option.isNone_iff_eq_none.mp hnew) hrow
      hafter 0).1⟩

end FreeBox.Server
