import FreeBox.Server.PurgeSafety

/-!
# Blobs without a row

`purge_orphaned_uploads` deletes the blobs that `storage.list` returns, and then the
row of the upload, whether or not the listing and the deletions have worked. Once
the row is gone nothing looks at the blobs again.

Results:
* `CallCase.owned`: what one call does to a blob and to the rows that account for it.
* `blob_has_row`: a blob that no failed call and no late chunk is about has a row.
* `blob_leaked`: runs that leave a blob without a row.
-/

namespace FreeBox.Server

open FreeBox.Lib Handlers

/-- The purge pass has asked for the keys of the upload `id` and will delete its row. -/
def Job.purging (id : Uuid) : Job → Bool
  | .purgeDelete id' _ _ | .purgeRow id' _ => id' = id
  | _ => false

/-- The upload or the file `id` has a row. -/
def HasRow (w : World) (id : Uuid) : Prop := id ∈ w.uploads ∨ id ∈ w.files

instance (w : World) (id : Uuid) : Decidable (HasRow w id) :=
  inferInstanceAs (Decidable (_ ∨ _))

/-- No `upload_chunk` stores the blob `key` of `id` when the row is gone or a purge pass
    that is about to remove it has listed the blobs already. -/
def timely (id : Uuid) (key : String) (s : State) : Step → Bool
  | .advance rid _ =>
    match s.jobs.lookup rid with
    | some (.chunkPut r _) => chunkStorageKey r.uploadId r.chunkIndex = key →
        id ∈ s.world.files ∨
          id ∈ s.world.uploads ∧ Table.countWhere (fun _ j => j.purging id) s.jobs = 0
    | _ => true
  | _ => true

/-- In a purge pass neither `storage.list` for `id` nor `storage.delete` of `key` fails. -/
def cleaned (id : Uuid) (key : String) (s : State) : Step → Bool
  | .fail rid pick =>
    match s.jobs.lookup rid with
    | some (.purgeList rows) => rows[pick]? ≠ some id
    | some (.purgeDelete _ keys _) => keys[pick]? ≠ some key
    | _ => true
  | _ => true

/-- The guard of the runs that leave no blob `key` of `id` behind. -/
def blobGuard (id : Uuid) (key : String) (s : State) (a : Step) : Prop :=
  timely id key s a = true ∧ cleaned id key s a = true

instance (id : Uuid) (key : String) (s : State) (a : Step) : Decidable (blobGuard id key s a) :=
  inferInstanceAs (Decidable (_ ∧ _))

/-! ## What is known of the blob -/

/-- If the blob is stored, its identifier has a row. -/
def Owned (id : Uuid) (key : String) (w : World) : Prop := key ∈ w.storage → HasRow w id

/-- What a handler in flight that is about to remove the row knows. -/
structure BlobJob (id : Uuid) (key : String) (w : World) (job : Job) : Prop where
  delete : ∀ keys rows, job = .purgeDelete id keys rows → id ∉ w.files → key ∈ w.storage →
    key ∈ keys
  remove : ∀ rows, job = .purgeRow id rows → id ∉ w.files → key ∉ w.storage
  complete : job = .completeDelete id → id ∈ w.files

variable {id : Uuid} {key : String} {w w' : World} {pick : ℕ} {job job' : Job}
  {next : Next Job Response}

theorem blobJob_of_not_purging (hpurge : job.purging id = false)
    (hcomplete : ∀ id, job ≠ .completeDelete id) : BlobJob id key w job where
  delete keys rows hjob := by rw [hjob, Job.purging, decide_eq_false_iff_not] at hpurge; contradiction
  remove rows hjob := by rw [hjob, Job.purging, decide_eq_false_iff_not] at hpurge; contradiction
  complete hjob := absurd hjob (hcomplete id)

theorem BlobJob.congr (h : BlobJob id key w job) (hstorage : w'.storage = w.storage)
    (hfiles : w'.files = w.files) : BlobJob id key w' job :=
  ⟨by rw [hstorage, hfiles]; exact h.delete, by rw [hstorage, hfiles]; exact h.remove,
    by rw [hfiles]; exact h.complete⟩

theorem blobJob_nextRow {rows : List Uuid} (h : nextRow rows = .goto job) : BlobJob id key w job := by
  unfold nextRow at h
  split_ifs at h
  cases h
  exact blobJob_of_not_purging rfl fun _ hjob => by cases hjob

theorem blobJob_nextKey {id' : Uuid} {keys : List String} {rows : List Uuid}
    (h : nextKey id' keys rows = .goto job)
    (hkeys : id' = id → id ∉ w.files → key ∈ w.storage → key ∈ keys) : BlobJob id key w job := by
  unfold nextKey at h
  split_ifs at h with hempty <;> cases h
  · refine ⟨fun _ _ hjob => (by cases hjob), fun rows hjob hfile hkey => ?_, fun hjob => by cases hjob⟩
    cases hjob
    rw [hempty] at hkeys
    exact absurd (hkeys rfl hfile hkey) List.not_mem_nil
  · refine ⟨fun keys' rows' hjob => ?_, fun _ hjob => (by cases hjob), fun hjob => by cases hjob⟩
    cases hjob
    exact hkeys rfl

theorem mem_eraseIdx_of_ne {keys : List String} {n : ℕ} (hmem : key ∈ keys)
    (hne : keys[n]? ≠ some key) : key ∈ keys.eraseIdx n := by
  obtain ⟨m, hm⟩ := List.mem_iff_getElem?.mp hmem
  exact List.mem_eraseIdx_iff_getElem?.mpr ⟨m, fun hnm => hne (hnm ▸ hm), hm⟩

/-- The blobs after a call. -/
theorem CallCase.mem_storage (h : CallCase w pick job w' next) (hkey : key ∈ w'.storage) :
    key ∈ w.storage ∨ ∃ r b, job = .chunkPut r b ∧ chunkStorageKey r.uploadId r.chunkIndex = key := by
  cases h with
  | @stored r b =>
    rcases (AList.mem_insert _).mp hkey with rfl | hold
    · exact .inr ⟨r, b, rfl, rfl⟩
    · exact .inl hold
  | blobDeleted => exact .inl (AList.mem_erase.mp hkey).2
  | _ => exact .inl hkey

/-- A call that removes the row of an upload leaves a file, or no blob. -/
theorem CallCase.owned (h : CallCase w pick job w' next) (hw : Owned id key w)
    (hjob : BlobJob id key w job)
    (hput : ∀ r b, job = .chunkPut r b → chunkStorageKey r.uploadId r.chunkIndex = key →
      HasRow w id) : Owned id key w' := by
  intro hkey
  have hrow : HasRow w id := by
    rcases h.mem_storage hkey with hold | ⟨r, b, hr, hr'⟩
    · exact hw hold
    · exact hput r b hr hr'
  rcases hrow with hupload | hfile
  · cases h with
    | counted => exact .inl ((AList.mem_insert _).mpr (.inr hupload))
    | @unstaged id' =>
      by_cases hid : id = id'
      · subst hid; exact .inr (hjob.complete rfl)
      · exact .inl (AList.mem_erase.mpr ⟨hid, hupload⟩)
    | @rowDeleted id' rows =>
      by_cases hid : id = id'
      · subst hid
        by_contra hnone
        exact hjob.remove rows rfl (fun hfile => hnone (.inr hfile)) hkey
      · exact .inl (AList.mem_erase.mpr ⟨hid, hupload⟩)
    | _ => exact .inl hupload
  · exact .inr (h.keeps_file hfile)

theorem CallCase.blobJob (h : CallCase w pick job w' (.goto job')) (hjob : BlobJob id key w job)
    (hlead : startsWith (chunkPrefix id) key = true) : BlobJob id key w' job' := by
  generalize hnext : Next.goto job' = next at h
  cases h with
  | rejected | counted | uncounted | overflowed | unstaged => cases hnext
  | parsed | selected | probed | complete =>
    cases hnext
    exact blobJob_of_not_purging rfl fun _ hjob => by cases hjob
  | stored =>
    split_ifs at hnext
    cases hnext
    exact blobJob_of_not_purging rfl fun _ hjob => by cases hjob
  | promoted =>
    cases hnext
    refine ⟨fun _ _ hjob => (by cases hjob), fun _ hjob => (by cases hjob), fun hjob => ?_⟩
    cases hjob
    exact (AList.mem_insert _).mpr (.inl rfl)
  | fetched | rowDeleted => exact blobJob_nextRow hnext.symm
  | listed hid =>
    refine blobJob_nextKey hnext.symm fun hid' _ hkey => ?_
    subst hid'
    exact mem_listKeys.mpr ⟨hkey, hlead⟩
  | @blobDeleted id' keys rows key' hkey' =>
    refine blobJob_nextKey hnext.symm fun hid' hfile hkey => ?_
    subst hid'
    obtain ⟨hne, hstored⟩ := AList.mem_erase.mp hkey
    refine mem_eraseIdx_of_ne (hjob.delete keys rows rfl hfile hstored) fun hpick => hne ?_
    rw [hkey'] at hpick
    exact (Option.some.inj hpick).symm

/-- A call disturbs no purge pass, if it stores the blob only while there is none. -/
theorem CallCase.spares (h : CallCase w pick job w' next) {other : Job}
    (hother : BlobJob id key w other)
    (hput : ∀ r b, job = .chunkPut r b → chunkStorageKey r.uploadId r.chunkIndex = key →
      id ∈ w.files ∨ other.purging id = false) : BlobJob id key w' other := by
  have hold : other.purging id = true → id ∉ w'.files → key ∈ w'.storage →
      id ∉ w.files ∧ key ∈ w.storage := by
    intro hpurging hfile hkey
    have hfile : id ∉ w.files := fun hmem => hfile (h.keeps_file hmem)
    rcases h.mem_storage hkey with hkey | ⟨r, b, hr, hr'⟩
    · exact ⟨hfile, hkey⟩
    · rcases hput r b hr hr' with hmem | hnot
      · exact absurd hmem hfile
      · rw [hnot] at hpurging; cases hpurging
  refine ⟨fun keys rows hjob hfile hkey => ?_, fun rows hjob hfile hkey => ?_,
    fun hjob => h.keeps_file (hother.complete hjob)⟩
  · obtain ⟨hfile, hkey⟩ := hold (by rw [hjob]; exact decide_eq_true rfl) hfile hkey
    exact hother.delete keys rows hjob hfile hkey
  · obtain ⟨hfile, hkey⟩ := hold (by rw [hjob]; exact decide_eq_true rfl) hfile hkey
    exact hother.remove rows hjob hfile hkey

/-- A purge pass goes on after a failure that is not about the blob. -/
theorem onFail_blobJob (h : onFail pick job = some (.goto job')) (hjob : BlobJob id key w job)
    (hlist : ∀ rows, job = .purgeList rows → rows[pick]? ≠ some id)
    (hdelete : ∀ id' keys rows, job = .purgeDelete id' keys rows → keys[pick]? ≠ some key) :
    BlobJob id key w job' := by
  cases job with
  | purgeList rows =>
    obtain ⟨id', hid', h⟩ := Option.map_eq_some_iff.mp h
    cases h
    refine ⟨fun _ _ hjob => (by cases hjob), fun rows' hjob => ?_, fun hjob => by cases hjob⟩
    cases hjob
    exact absurd hid' (hlist rows rfl)
  | purgeDelete id' keys rows =>
    obtain ⟨key', -, h⟩ := Option.map_eq_some_iff.mp h
    refine blobJob_nextKey h fun hid' hfile hkey => ?_
    subst hid'
    exact mem_eraseIdx_of_ne (hjob.delete keys rows rfl hfile hkey) (hdelete _ keys rows rfl)
  | purgeRow => exact blobJob_nextRow (Option.some.inj h)
  | _ => cases h

/-! ## Guarded runs -/

variable {s t : State} {a : Step} {as : List Step}

theorem blob_step (hlead : startsWith (chunkPrefix id) key = true)
    (h : Holds (Owned id key) (BlobJob id key) s) (hok : blobGuard id key s a)
    (hs : step s a = some t) : Holds (Owned id key) (BlobJob id key) t := by
  cases step_cases hs with
  | @arrive rid job hentry =>
    refine ⟨h.1, fun rid' other hother => ?_⟩
    rw [Table.lookup_insert_eq] at hother
    split_ifs at hother
    · cases hother
      cases job with
      | chunkStart | completeSelect | purgeSelect =>
        exact blobJob_of_not_purging rfl fun _ hjob => by cases hjob
      | _ => cases hentry
    · exact h.2 rid' other hother
  | @advance rid pick job w next hjob hadv =>
    have hcase := advance_cases hadv
    have hput : ∀ r b, job = .chunkPut r b → chunkStorageKey r.uploadId r.chunkIndex = key →
        id ∈ s.world.files ∨
          id ∈ s.world.uploads ∧ Table.countWhere (fun _ j => j.purging id) s.jobs = 0 := by
      rintro r b rfl hr
      have htimely := hok.1
      simp only [timely, hjob, decide_eq_true_eq] at htimely
      exact htimely hr
    refine ⟨hcase.owned h.1 (h.2 rid job hjob) fun r b hr hr' =>
      (hput r b hr hr').elim .inr fun hupload => .inl hupload.1, fun rid' other hother => ?_⟩
    rcases Sys.of_lookup_settle hother with ⟨-, hold⟩ | ⟨-, rfl⟩
    · refine hcase.spares (h.2 rid' other hold) fun r b hr hr' => (hput r b hr hr').imp_right ?_
      rintro ⟨-, hnone⟩
      by_contra hpurging
      have hpos := Table.countWhere_pos (p := fun _ j => j.purging id).mpr
        ⟨rid', other, hold, Bool.eq_true_of_not_eq_false hpurging⟩
      omega
    · exact hcase.blobJob (h.2 rid job hjob) hlead
  | @fail rid pick job next hjob hfail =>
    refine ⟨h.1, fun rid' other hother => ?_⟩
    rcases Sys.of_lookup_settle hother with ⟨-, hold⟩ | ⟨-, rfl⟩
    · exact h.2 rid' other hold
    · have hcleaned := hok.2
      refine onFail_blobJob hfail (h.2 rid job hjob) ?_ ?_
      · rintro rows rfl
        simpa only [cleaned, hjob, decide_eq_true_eq] using hcleaned
      · rintro id' keys rows rfl
        simpa only [cleaned, hjob, decide_eq_true_eq] using hcleaned
  | cancel =>
    refine ⟨h.1, fun rid' other hother => ?_⟩
    rw [Table.lookup_erase_eq] at hother
    split_ifs at hother
    exact h.2 rid' other hother
  | @env e w henv =>
    cases environ_cases henv with
    | ticked | refused =>
      exact ⟨h.1, fun rid' other hother => (h.2 rid' other hother).congr rfl rfl⟩
    | initialised =>
      exact ⟨fun hkey => (h.1 hkey).imp_left fun hmem => (AList.mem_insert _).mpr (.inr hmem),
        fun rid' other hother => (h.2 rid' other hother).congr rfl rfl⟩

/-- In a run whose steps all meet the guard, a blob under the prefix of an identifier
    belongs to an upload or to a file, in every state. -/
theorem blob_has_row (hrun : Run step (blobGuard id key) (Sys.idle World.empty) as s)
    (hlead : startsWith (chunkPrefix id) key = true) (hkey : key ∈ s.world.storage) :
    id ∈ s.world.uploads ∨ id ∈ s.world.files := by
  have hholds := hrun.invariant (Holds (Owned id key) (BlobJob id key))
    (holds_idle fun hempty => absurd hempty (AList.notMem_empty _))
    fun _ _ _ h hok hs => blob_step hlead h hok hs
  exact hholds.1 hkey

/-- An upload of one chunk is purged a day after the chunk has arrived. -/
def runPurged : List Step :=
  [runInit 1, runChunk 0 [48], .advance 0 0, .advance 0 0, .advance 0 0, .advance 0 0, .advance 0 0,
    .env (.tick (day + 1)), .arrive 1 .purgeSelect, .advance 1 0]

theorem blob_has_row_run : ∃ s, Run step (blobGuard runId (chunkStorageKey runId 0))
    (Sys.idle World.empty) runPurged s ∧ (runId ∈ s.world.uploads ∨ runId ∈ s.world.files) := by
  obtain ⟨s, hrun, hkey⟩ := exists_run_of_exec step (blobGuard runId (chunkStorageKey runId 0))
    (Sys.idle World.empty) runPurged (fun s => chunkStorageKey runId 0 ∈ s.world.storage)
    (by decide +kernel)
  exact ⟨s, hrun, blob_has_row hrun ((startsWith_chunkStorageKey runId runId 0).mpr rfl)
    (of_decide_eq_true hkey)⟩

/-! ### Blobs that stay -/

/-- No request is in flight, and the chunk 0 is stored without a row. -/
def leaked (s : State) : Bool :=
  s.jobs.keys = [] ∧ chunkStorageKey runId 0 ∈ s.world.storage ∧ ¬ HasRow s.world runId

/-- `storage.list` fails, and the pass deletes the row. -/
def runUnlisted : List Step := runPurged ++ [.fail 1 0, .advance 1 0]

/-- A second request for the chunk has passed its checks when the pass begins; it comes
    to its `storage.put` when the pass has ended. -/
def runLateChunk : List Step :=
  runPurged.take 8 ++ [runChunk 2 [48], .advance 2 0, .advance 2 0, .advance 2 0,
    .arrive 1 .purgeSelect, .advance 1 0, .advance 1 0, .advance 1 0, .advance 1 0, .advance 2 0]

theorem blob_leaked :
    (∃ s, Run step anyStep (Sys.idle World.empty) runUnlisted s ∧ leaked s = true) ∧
      ∃ s, Run step anyStep (Sys.idle World.empty) runLateChunk s ∧ leaked s = true :=
  ⟨exists_run_of_exec step anyStep (Sys.idle World.empty) runUnlisted leaked (by decide +kernel),
    exists_run_of_exec step anyStep (Sys.idle World.empty) runLateChunk leaked (by decide +kernel)⟩

end FreeBox.Server
