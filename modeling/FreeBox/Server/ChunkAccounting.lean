import FreeBox.Server.PurgeSafety
import Mathlib.Data.Finset.Card
import Mathlib.Data.Finset.Range

/-!
# The chunk counter and the stored chunks

`upload_chunk` asks the store whether the chunk is there, stores it, and counts
it if it was not there; `upload_complete` looks at the counter only. Here the
counter of one upload `id` is related to the chunks in the store.

Results:
* `chunk_outline`: what a request at each of its calls knows about its chunk.
* `CallCase.tally`, `accounts_step`: no call counts a chunk that is not stored.
* `completed_is_stored`: if no chunk is stored by two requests that both found it
  absent, every completed file has all its chunks.
* `completed_without_chunk`: a run with two such requests.
-/

namespace FreeBox.Server

open FreeBox.Lib Handlers

/-! ## Requests for chunks -/

/-- The request whose upload has been found. -/
def Job.chunk? : Job → Option ChunkRequest
  | .chunkExists r | .chunkPut r _ | .chunkUpdate r => some r
  | _ => none

/-- The next call counts a chunk of `id`. -/
def Job.updates (id : Uuid) : Job → Bool
  | .chunkUpdate r => r.uploadId = id
  | _ => false

/-- The next call stores or counts a chunk of `id`. -/
def Job.touches (id : Uuid) : Job → Bool
  | .chunkPut r _ | .chunkUpdate r => r.uploadId = id
  | _ => false

/-- The next call stores the chunk `i` of `id`, which was not there. -/
def Job.freshPut (id : Uuid) (i : UInt32) : Job → Bool
  | .chunkPut r false => r.uploadId = id ∧ r.chunkIndex = i
  | _ => false

/-- The chunk `i` of `id` is in the store. -/
def HasChunk (w : World) (id : Uuid) (i : UInt32) : Prop := chunkStorageKey id i ∈ w.storage

instance (w : World) (id : Uuid) (i : UInt32) : Decidable (HasChunk w id i) :=
  inferInstanceAs (Decidable (chunkStorageKey id i ∈ w.storage))

/-- The indices below `n` whose chunks are stored. -/
def storedChunks (w : World) (id : Uuid) (n : ℤ) : Finset ℕ :=
  (Finset.range n.toNat).filter fun i => HasChunk w id (.ofNat i)

/-- The requests in flight that are about to count a chunk of `id`. -/
def pending (s : State) (id : Uuid) : ℕ := Table.countWhere (fun _ j => j.updates id) s.jobs

/-- No purge pass fetches the upload `id`. -/
def unpurged (id : Uuid) (s : State) : Step → Bool
  | .advance rid _ => s.jobs.lookup rid = some .purgeSelect → id ∉ fetchOrphans s.world
  | _ => true

/-- When a request stores a chunk of `id` that it has found absent, no other request
    in flight is about to store the same chunk and has found it absent. -/
def noTwin (id : Uuid) (s : State) : Step → Bool
  | .advance rid _ =>
    match s.jobs.lookup rid with
    | some (.chunkPut r false) =>
      r.uploadId = id → Table.countWhere (fun _ j => j.freshPut id r.chunkIndex) s.jobs ≤ 1
    | _ => true
  | _ => true

def countGuard (id : Uuid) (s : State) (a : Step) : Prop :=
  unpurged id s a = true ∧ noTwin id s a = true

instance (id : Uuid) (s : State) (a : Step) : Decidable (countGuard id s a) :=
  inferInstanceAs (Decidable (_ ∧ _))

variable {id : Uuid} {w w' : World} {pick : ℕ} {job job' : Job} {next : Next Job Response}

/-! ## Stored chunks -/

theorem mem_storedChunks {n : ℤ} {i : ℕ} :
    i ∈ storedChunks w id n ↔ (i : ℤ) < n ∧ HasChunk w id (.ofNat i) := by
  rw [storedChunks, Finset.mem_filter, Finset.mem_range, Int.lt_toNat]

theorem storedChunks_congr (h : ∀ i, HasChunk w' id i ↔ HasChunk w id i) (n : ℤ) :
    storedChunks w' id n = storedChunks w id n := by
  ext i; rw [mem_storedChunks, mem_storedChunks, h]

theorem card_storedChunks_of_none (h : ∀ i, ¬ HasChunk w id i) (n : ℤ) :
    (storedChunks w id n).card = 0 :=
  Finset.card_eq_zero.mpr (Finset.filter_eq_empty_iff.mpr fun _ _ => h _)

/-- One more chunk is stored. -/
theorem card_storedChunks_put {n : ℤ} {k : UInt32} (hn : n < 2 ^ 31) (hk : (k.toNat : ℤ) < n)
    (habs : ¬ HasChunk w id k) (h : ∀ i, HasChunk w' id i ↔ HasChunk w id i ∨ i = k) :
    (storedChunks w' id n).card = (storedChunks w id n).card + 1 := by
  have hinsert : storedChunks w' id n = insert k.toNat (storedChunks w id n) := by
    ext i
    rw [Finset.mem_insert, mem_storedChunks, mem_storedChunks, h]
    constructor
    · rintro ⟨hi, hhas | rfl⟩
      · exact .inr ⟨hi, hhas⟩
      · left; rw [toNat_ofNat_index (by omega)]
    · rintro (rfl | ⟨hi, hhas⟩)
      · exact ⟨hk, .inr UInt32.ofNat_toNat⟩
      · exact ⟨hi, .inl hhas⟩
  rw [hinsert, Finset.card_insert_of_notMem]
  rw [mem_storedChunks, UInt32.ofNat_toNat]
  exact fun h => habs h.2

theorem card_storedChunks_le (w : World) (id : Uuid) (n : ℤ) :
    (storedChunks w id n).card ≤ n.toNat :=
  (Finset.card_filter_le _ _).trans (Finset.card_range _).le

/-- As many chunks as there are indices: all of them. -/
theorem hasChunk_of_card {n : ℤ} (h : n.toNat ≤ (storedChunks w id n).card) {i : UInt32}
    (hi : (i.toNat : ℤ) < n) : HasChunk w id i := by
  have hall : storedChunks w id n = Finset.range n.toNat :=
    Finset.eq_of_subset_of_card_le (Finset.filter_subset _ _) (by rwa [Finset.card_range])
  have hmem : i.toNat ∈ storedChunks w id n := by
    rw [hall, Finset.mem_range, Int.lt_toNat]; exact hi
  rw [mem_storedChunks, UInt32.ofNat_toNat] at hmem
  exact hmem.2

/-! ## What each request knows -/

/-- What a handler in flight relies on about the upload `id`. -/
structure ChunkJobOk (id : Uuid) (w : World) (job : Job) : Prop where
  issued : ∀ r, job.chunk? = some r → r.uploadId = id → id ∈ w.issued
  inRange : ∀ r row, job.chunk? = some r → r.uploadId = id → w.uploads.lookup id = some row →
    (r.chunkIndex.toNat : ℤ) < row.totalChunks
  absent : ∀ r, job = .chunkPut r false → r.uploadId = id → ¬ HasChunk w id r.chunkIndex
  present : ∀ r, job = .chunkPut r true ∨ job = .chunkUpdate r → r.uploadId = id →
    HasChunk w id r.chunkIndex
  purges : PurgesOnly (· ≠ id) job

/-- Nothing is known under an identifier that has not been issued. -/
def Unissued (id : Uuid) (w : World) : Prop :=
  id ∉ w.issued → w.uploads.lookup id = none ∧ ∀ i, ¬ HasChunk w id i

theorem chunkJobOk_of_none (h : job.chunk? = none) (hpurges : PurgesOnly (· ≠ id) job) :
    ChunkJobOk id w job where
  issued r hr := by rw [h] at hr; cases hr
  inRange r row hr := by rw [h] at hr; cases hr
  absent r hr := by rw [hr] at h; cases h
  present r hr := by rcases hr with hr | hr <;> rw [hr] at h <;> cases h
  purges := hpurges

/-- The chunks of `id` after a call that does not purge it. -/
theorem CallCase.hasChunk (h : CallCase w pick job w' next) (hjob : PurgesOnly (· ≠ id) job)
    (i : UInt32) : HasChunk w' id i ↔ HasChunk w id i ∨
      ∃ r b, job = .chunkPut r b ∧ r.uploadId = id ∧ r.chunkIndex = i := by
  constructor
  · intro hi
    cases h with
    | @stored r b =>
      rcases (AList.mem_insert _).mp hi with heq | hi
      · obtain ⟨hid, hindex⟩ := chunkStorageKey_inj heq
        exact .inr ⟨r, b, rfl, hid.symm, hindex.symm⟩
      · exact .inl hi
    | blobDeleted => exact .inl (AList.mem_erase.mp hi).2
    | _ => exact .inl hi
  · rintro (hi | ⟨r, b, rfl, rfl, rfl⟩)
    · exact h.keeps_chunk hjob (not_not_intro rfl) hi
    · generalize hput : Job.chunkPut r b = put at h
      cases h with
      | stored => cases hput; exact (AList.mem_insert _).mpr (.inl rfl)
      | rejected hreject => subst hput; cases hreject
      | _ => cases hput

theorem UploadRow.bump_eq_some {row row' : UploadRow} (h : row.bump = some row') :
    row'.chunksReceived = row.chunksReceived + 1 ∧ row'.totalChunks = row.totalChunks ∧
      row'.userId = row.userId := by
  unfold bump at h
  split_ifs at h
  cases h
  exact ⟨rfl, rfl, rfl⟩

/-- A row of `uploads` after a call was there before, with the same total. -/
theorem CallCase.row (h : CallCase w pick job w' next) {row' : UploadRow}
    (hrow' : w'.uploads.lookup id = some row') :
    ∃ row, w.uploads.lookup id = some row ∧ row'.totalChunks = row.totalChunks := by
  cases h with
  | @counted r row₀ row₁ hrow hbump =>
    rw [Table.lookup_insert_eq] at hrow'
    split_ifs at hrow' with hid
    · cases hrow'
      subst hid
      exact ⟨row₀, hrow, (UploadRow.bump_eq_some hbump).2.1⟩
    · exact ⟨row', hrow', rfl⟩
  | unstaged | rowDeleted =>
    rw [Table.lookup_erase_eq] at hrow'
    split_ifs at hrow'
    exact ⟨row', hrow', rfl⟩
  | _ => exact ⟨row', hrow', rfl⟩

theorem CallCase.issued_eq (h : CallCase w pick job w' next) : w'.issued = w.issued := by
  cases h <;> rfl

/-- A row that is found was issued before. -/
theorem Unissued.issued_of_lookup (h : Unissued id w) {row : UploadRow}
    (hrow : w.uploads.lookup id = some row) : id ∈ w.issued := by
  by_contra hid
  rw [(h hid).1] at hrow
  cases hrow

theorem lookup_of_selectUpload {userId uploadId : Uuid} {row : UploadRow}
    (h : selectUpload w uploadId userId = some row) :
    w.uploads.lookup uploadId = some row ∧ row.userId = userId := by
  rw [selectUpload, Option.filter_eq_some_iff] at h
  exact ⟨h.1, of_decide_eq_true h.2⟩

/-- The point to which a call leads knows what it relies on. -/
theorem CallCase.chunkJobOk (h : CallCase w pick job w' (.goto job')) (hw : Unissued id w)
    (hjob : ChunkJobOk id w job) (hfetch : job = .purgeSelect → id ∉ fetchOrphans w) :
    ChunkJobOk id w' job' := by
  have hpurges : PurgesOnly (· ≠ id) job' := h.purgesOnly hjob.purges fun hsel id' hid' heq =>
    hfetch hsel (heq ▸ hid')
  have hput := h.hasChunk hjob.purges
  generalize hnext : Next.goto job' = next at h
  cases h with
  | rejected | counted | uncounted | overflowed | unstaged => cases hnext
  | @selected r row hrow hcheck =>
    cases hnext
    have hlookup := (lookup_of_selectUpload hrow).1
    refine ⟨fun _ hr hid => ?_, fun _ row' hr hid hrow' => ?_, fun _ hr => ?_, fun _ hr => ?_, hpurges⟩
    · cases hr
      exact hw.issued_of_lookup (hid ▸ hlookup)
    · cases hr
      rw [hid, hrow'] at hlookup
      cases hlookup
      exact checkChunk_ok hcheck
    · cases hr
    · rcases hr with hr | hr <;> cases hr
  | @probed r =>
    cases hnext
    refine ⟨fun _ hr => hjob.issued _ hr, fun _ _ hr => hjob.inRange _ _ hr, fun _ hr hid => ?_,
      fun _ hr hid => ?_, hpurges⟩
    · obtain ⟨rfl, habs⟩ := Job.chunkPut.inj hr
      subst hid
      exact of_decide_eq_false habs
    · rcases hr with hr | hr
      · obtain ⟨rfl, hpres⟩ := Job.chunkPut.inj hr
        subst hid
        exact of_decide_eq_true hpres
      · cases hr
  | @stored r b =>
    split_ifs at hnext with hb
    cases hnext
    refine ⟨fun _ hr => hjob.issued _ hr, fun _ _ hr => hjob.inRange _ _ hr, fun _ hr => ?_,
      fun _ hr hid => ?_, hpurges⟩
    · cases hr
    · rcases hr with hr | hr <;> cases hr
      exact (hput _).mpr (.inr ⟨_, _, rfl, hid, rfl⟩)
  | parsed | complete | promoted => cases hnext; exact chunkJobOk_of_none rfl hpurges
  | fetched =>
    unfold nextRow at hnext
    split_ifs at hnext
    cases hnext
    exact chunkJobOk_of_none rfl hpurges
  | listed | blobDeleted =>
    unfold nextKey at hnext
    split_ifs at hnext <;> cases hnext <;> exact chunkJobOk_of_none rfl hpurges
  | rowDeleted =>
    unfold nextRow at hnext
    split_ifs at hnext
    cases hnext
    exact chunkJobOk_of_none rfl hpurges

/-- A call disturbs no other request that is about to store or count a chunk of
    `id`, unless both have found the same chunk absent. -/
theorem CallCase.undisturbed (h : CallCase w pick job w' next) (hjob : ChunkJobOk id w job)
    {other : Job} (hother : ChunkJobOk id w other)
    (htwin : ∀ i, ¬ (job.freshPut id i = true ∧ other.freshPut id i = true)) :
    ChunkJobOk id w' other where
  issued r hr hid := by rw [h.issued_eq]; exact hother.issued r hr hid
  inRange r row' hr hid hrow' := by
    obtain ⟨row, hrow, htotal⟩ := h.row hrow'
    rw [htotal]
    exact hother.inRange r row hr hid hrow
  absent r hr hid hhas := by
    rcases (h.hasChunk hjob.purges _).mp hhas with hold | ⟨r', b, rfl, hid', hindex⟩
    · exact hother.absent r hr hid hold
    · cases b with
      | false => exact htwin r.chunkIndex (by simp [Job.freshPut, hr, hid, hid', hindex])
      | true => exact hother.absent r hr hid (hindex ▸ hjob.present r' (.inl rfl) hid')
  present r hr hid := (h.hasChunk hjob.purges _).mpr (.inl (hother.present r hr hid))
  purges := hother.purges

theorem CallCase.unissued (h : CallCase w pick job w' next) (hw : Unissued id w)
    (hjob : ChunkJobOk id w job) : Unissued id w' := by
  intro hid
  rw [h.issued_eq] at hid
  obtain ⟨hrow, hchunks⟩ := hw hid
  constructor
  · cases hrow' : w'.uploads.lookup id with
    | none => rfl
    | some row' =>
      obtain ⟨row, hrow', -⟩ := h.row hrow'
      rw [hrow] at hrow'
      cases hrow'
  · intro i hi
    rcases (h.hasChunk hjob.purges i).mp hi with hi | ⟨r, b, rfl, hr, -⟩
    · exact hchunks i hi
    · exact hid (hjob.issued r rfl hr)

theorem onFail_chunkJobOk (h : onFail pick job = some (.goto job')) (hjob : ChunkJobOk id w job) :
    ChunkJobOk id w job' := by
  have hpurge := onFail_isPurge h
  exact chunkJobOk_of_none (by cases job' <;> first | rfl | cases hpurge)
    (onFail_purgesOnly h hjob.purges)

theorem EventCase.chunkJobOk {e : Event} (h : EventCase w e w') (hjob : ChunkJobOk id w job) :
    ChunkJobOk id w' job := by
  cases h with
  | ticked => exact ⟨hjob.issued, hjob.inRange, hjob.absent, hjob.present, hjob.purges⟩
  | refused =>
    exact ⟨fun r hr hid => List.mem_cons_of_mem _ (hjob.issued r hr hid), hjob.inRange, hjob.absent,
      hjob.present, hjob.purges⟩
  | @initialised userId newId req row hissued hnew hstage =>
    refine ⟨fun r hr hid => List.mem_cons_of_mem _ (hjob.issued r hr hid), fun r row' hr hid hrow' => ?_,
      hjob.absent, hjob.present, hjob.purges⟩
    rw [Table.lookup_insert_eq] at hrow'
    split_ifs at hrow' with heq
    · -- no request can be about an identifier that is issued only now
      exact absurd (heq ▸ hjob.issued r hr hid) hissued
    · exact hjob.inRange r row' hr hid hrow'

theorem EventCase.unissued {e : Event} (h : EventCase w e w') (hw : Unissued id w) :
    Unissued id w' := by
  cases h with
  | ticked => exact hw
  | refused => exact fun hid => hw fun h => hid (List.mem_cons_of_mem _ h)
  | initialised =>
    intro hid
    obtain ⟨hne, hid⟩ := not_or.mp (mt List.mem_cons.mpr hid)
    obtain ⟨hrow, hchunks⟩ := hw hid
    refine ⟨?_, hchunks⟩
    rw [Table.lookup_insert_eq, if_neg hne, hrow]

theorem chunk_outline (id : Uuid) :
    uploadHandlers.ProofOutline (countGuard id) (Unissued id) (ChunkJobOk id) where
  arrive s rid job _ _ hentry := by
    cases job with
    | chunkStart | completeSelect | purgeSelect =>
      exact chunkJobOk_of_none rfl (purgesOnly_of_idle fun _ => rfl)
    | _ => cases hentry
  advance s rid pick job w next h hok hjob hadv := by
    have hcase := advance_cases hadv
    refine ⟨hcase.unissued h.1 (h.2 rid job hjob), fun job' hnext => ?_⟩
    subst hnext
    refine hcase.chunkJobOk h.1 (h.2 rid job hjob) fun hsel => ?_
    exact of_decide_eq_true hok.1 (hsel ▸ hjob)
  undisturbed s rid pick job w next rid' other h hok hjob hadv hne hother := by
    refine (advance_cases hadv).undisturbed (h.2 rid job hjob) (h.2 rid' other hother) ?_
    rintro i ⟨hfresh, hfresh'⟩
    -- two requests that have found the same chunk absent, and one of them stores it
    obtain ⟨r, rfl, hid, rfl⟩ : ∃ r, job = .chunkPut r false ∧ r.uploadId = id ∧ r.chunkIndex = i := by
      cases job with
      | chunkPut r b => cases b <;> simp_all [Job.freshPut]
      | _ => cases hfresh
    have hguard := hok.2
    simp only [noTwin, hjob, decide_eq_true_eq] at hguard
    have htwo := Table.two_le_countWhere (p := fun _ j => j.freshPut id r.chunkIndex) hjob hother hne
      hfresh hfresh'
    have := hguard hid
    omega
  fail w pick job job' _ hjob hfail := onFail_chunkJobOk hfail hjob
  env s e w h _ henv :=
    ⟨(environ_cases henv).unissued h.1, fun _ hjob => (environ_cases henv).chunkJobOk hjob⟩

/-! ## The counter -/

/-- A purge pass does not lead to a count. -/
theorem any_updates_of_isPurge (h : ∀ job, next = .goto job → job.isPurge = true) :
    next.job?.any (Job.updates id) = false := by
  cases next with
  | done r => rfl
  | goto job => cases job <;> first | rfl | cases h _ rfl

theorem Job.updates_of_not_touches (h : job.touches id = false) : job.updates id = false := by
  cases job with
  | chunkUpdate r => exact h
  | _ => rfl

/-- A call that neither stores nor counts a chunk of `id` leaves the counter and the
    chunks of `id` alone and does not lead to a count. -/
theorem CallCase.quiet (h : CallCase w pick job w' next) (hjob : PurgesOnly (· ≠ id) job)
    (hquiet : job.touches id = false) :
    (∀ row, w'.uploads.lookup id = some row → w.uploads.lookup id = some row) ∧
      (∀ i, HasChunk w' id i ↔ HasChunk w id i) ∧ next.job?.any (Job.updates id) = false := by
  refine ⟨fun row hrow => ?_, fun i => ?_, ?_⟩
  · cases h with
    | counted =>
      rwa [Table.lookup_insert_eq, if_neg (Ne.symm (of_decide_eq_false hquiet))] at hrow
    | unstaged | rowDeleted =>
      rw [Table.lookup_erase_eq] at hrow
      split_ifs at hrow
      exact hrow
    | _ => exact hrow
  · rw [h.hasChunk hjob i, or_iff_left]
    rintro ⟨r, b, rfl, hid, -⟩
    exact of_decide_eq_false hquiet hid
  · cases h with
    | @stored r b =>
      have := of_decide_eq_false hquiet
      cases b <;> simp [Job.updates, this]
    | fetched | rowDeleted => exact any_updates_of_isPurge fun _ => nextRow_isPurge
    | listed | blobDeleted => exact any_updates_of_isPurge fun _ => nextKey_isPurge
    | _ => rfl

/-- A request that stores a chunk of `id` stores a new one exactly if it has found it
    absent, and then it is about to count it. -/
theorem card_storedChunks_stored {r : ChunkRequest} {b : Bool} {row : UploadRow}
    (hjob : ChunkJobOk id w (.chunkPut r b)) (hid : r.uploadId = id)
    (hrow : w.uploads.lookup id = some row)
    (hput : ∀ i, HasChunk w' id i ↔ HasChunk w id i ∨ i = r.chunkIndex) :
    (storedChunks w' id row.totalChunks).card =
      (storedChunks w id row.totalChunks).card + if b then 0 else 1 := by
  cases b with
  | false =>
    exact card_storedChunks_put row.total_lt (hjob.inRange r row rfl hid hrow)
      (hjob.absent r rfl hid) hput
  | true =>
    rw [storedChunks_congr fun i => ?_]
    · rfl
    · rw [hput, or_iff_left_iff_imp]
      rintro rfl
      exact hjob.present r (.inl rfl) hid

/-- One call changes the counter together with the number of requests about to count
    by as much as the number of stored chunks; only an overflow of the column loses
    a count. -/
theorem CallCase.tally (h : CallCase w pick job w' next) (hjob : ChunkJobOk id w job)
    {row' : UploadRow} (hrow' : w'.uploads.lookup id = some row') :
    ∃ row, ∃ lost : ℕ, w.uploads.lookup id = some row ∧ row'.totalChunks = row.totalChunks ∧
      row'.chunksReceived + (if next.job?.any (Job.updates id) then 1 else 0) +
          (storedChunks w id row.totalChunks).card + lost =
        row.chunksReceived + (if job.updates id then 1 else 0) +
          (storedChunks w' id row.totalChunks).card ∧
      (lost ≠ 0 → job.updates id = true ∧ row.bump = none) := by
  have hput := h.hasChunk hjob.purges
  cases htouch : job.touches id with
  | false =>
    obtain ⟨hrow, hchunks, hnext⟩ := h.quiet hjob.purges htouch
    refine ⟨row', 0, hrow row' hrow', rfl, ?_, fun h => absurd rfl h⟩
    rw [hnext, Job.updates_of_not_touches htouch, storedChunks_congr hchunks]
    simp
  | true =>
    cases h with
    | @stored r b =>
      have hid : r.uploadId = id := of_decide_eq_true htouch
      have hcard := card_storedChunks_stored hjob hid hrow'
        fun i => (hput i).trans (by simp [hid, eq_comm])
      refine ⟨row', 0, hrow', rfl, ?_, fun h => absurd rfl h⟩
      rw [hcard]
      cases b <;> simp [Job.updates, hid]
      omega
    | @counted r row row₁ hrow hbump =>
      have hid : r.uploadId = id := of_decide_eq_true htouch
      rw [hid] at hrow
      rw [hid, Table.lookup_insert_eq, if_pos rfl] at hrow'
      cases hrow'
      obtain ⟨hreceived, htotal, -⟩ := UploadRow.bump_eq_some hbump
      refine ⟨row, 0, hrow, htotal, ?_, fun h => absurd rfl h⟩
      rw [hreceived]
      simp [Job.updates, hid]
      exact congrArg Finset.card (storedChunks_congr (fun _ => Iff.rfl) _).symm
    | @uncounted r hrow =>
      rw [of_decide_eq_true htouch, hrow'] at hrow
      cases hrow
    | @overflowed r row hrow hbump =>
      have hid : r.uploadId = id := of_decide_eq_true htouch
      rw [hid, hrow'] at hrow
      cases hrow
      refine ⟨row', 1, hrow', rfl, ?_, fun _ => ⟨htouch, hbump⟩⟩
      simp [Job.updates, hid]
      omega
    | rejected hreject => cases job <;> first | cases htouch | cases hreject
    | _ => cases htouch

/-- While the row of `id` exists, no chunk is counted that is not stored; and what
    `upload_complete` has read as complete is stored. -/
structure Accounts (id : Uuid) (s : State) : Prop where
  outline : Holds (Unissued id) (ChunkJobOk id) s
  tally : ∀ row, s.world.uploads.lookup id = some row →
    row.chunksReceived + pending s id ≤ (storedChunks s.world id row.totalChunks).card
  complete : ∀ rid userId row, s.jobs.lookup rid = some (.completeInsert userId id row) →
    ∀ i : UInt32, (i.toNat : ℤ) < row.totalChunks → HasChunk s.world id i

theorem accounts_idle (id : Uuid) : Accounts id (Sys.idle World.empty) where
  outline := holds_idle fun _ => ⟨rfl, fun i hi => absurd hi (AList.notMem_empty _)⟩
  tally row hrow := by cases hrow
  complete rid userId row h := by cases h

variable {s t : State} {a : Step} {rid : ℕ}

theorem pending_settle (w : World) (next : Next Job Response) (id : Uuid)
    (hjob : s.jobs.lookup rid = some job) :
    pending (s.settle rid job w next) id + (if job.updates id then 1 else 0) =
      pending s id + if next.job?.any (Job.updates id) then 1 else 0 :=
  Sys.countWhere_settle hjob

theorem pending_erase_le (s : State) (rid : ℕ) (id : Uuid) :
    pending { s with jobs := s.jobs.erase rid } id ≤ pending s id := by
  cases hjob : s.jobs.lookup rid with
  | none => simp only [Table.erase_of_lookup_none hjob, le_refl]
  | some job =>
    have hcount := Table.countWhere_erase (p := fun _ j => j.updates id) hjob
    simp only [pending]
    omega

theorem pending_arrive {job : Job} (hentry : uploadHandlers.entry job = true)
    (hnew : s.jobs.lookup rid = none) :
    pending { s with jobs := s.jobs.insert rid job } id = pending s id := by
  have hquiet : job.updates id = false := by cases job <;> first | rfl | cases hentry
  rw [pending, Table.countWhere_insert_new hnew, hquiet]
  rfl

theorem pending_eq_zero (h : ∀ rid j, s.jobs.lookup rid = some j → j.updates id = false) :
    pending s id = 0 := by
  by_contra hne
  obtain ⟨rid, j, hj, hu⟩ := Table.countWhere_pos.mp (Nat.pos_of_ne_zero hne)
  rw [h rid j hj] at hu
  cases hu

/-- A request about to count a chunk of `id` is about an issued upload. -/
theorem pending_unissued (h : Holds (Unissued id) (ChunkJobOk id) s) (hid : id ∉ s.world.issued) :
    pending s id = 0 := by
  refine pending_eq_zero fun rid j hj => ?_
  cases j with
  | chunkUpdate r =>
    by_contra hu
    rw [Bool.not_eq_false] at hu
    exact hid ((h.2 rid _ hj).issued r rfl (of_decide_eq_true hu))
  | _ => rfl

/-- No step counts a chunk that is not stored. -/
theorem tally_step (h : Accounts id s) (hs : step s a = some t) {row' : UploadRow}
    (hrow' : t.world.uploads.lookup id = some row') :
    row'.chunksReceived + pending t id ≤ (storedChunks t.world id row'.totalChunks).card := by
  cases step_cases hs with
  | @arrive rid job hentry hnew =>
    rw [pending_arrive hentry hnew]
    exact h.tally row' hrow'
  | @advance rid pick job w next hjob hadv =>
    obtain ⟨row, lost, hrow, htotal, hbalance, -⟩ :=
      (advance_cases hadv).tally (h.outline.2 rid job hjob) hrow'
    have hpending := pending_settle w next id hjob
    have hbefore := h.tally row hrow
    rw [htotal, Sys.settle_world]
    split_ifs at hbalance hpending <;> omega
  | @fail rid pick job next hjob hfail =>
    have hpending := pending_settle s.world next id hjob
    rw [any_updates_of_isPurge fun _ h => onFail_isPurge (hfail.trans (congrArg some h))] at hpending
    have hbefore := h.tally row' hrow'
    simp only [Bool.false_eq_true, if_false, Sys.settle_world] at hpending ⊢
    omega
  | @cancel rid job hjob =>
    have := pending_erase_le s rid id
    have hbefore := h.tally row' hrow'
    simp only at this ⊢
    omega
  | @env e w henv =>
    cases environ_cases henv with
    | ticked | refused => exact h.tally row' hrow'
    | @initialised userId newId req row hissued hnew hstage =>
      simp only [Table.lookup_insert_eq] at hrow'
      split_ifs at hrow' with hid
      · cases hrow'
        subst hid
        have hzero : pending s id = 0 := pending_unissued h.outline hissued
        simp only [pending] at hzero ⊢
        rw [stage_received hstage, hzero]
        omega
      · exact h.tally row' hrow'

/-- A step that no purge pass makes on `id` removes no chunk of it. -/
theorem step_keeps_chunk (h : Holds (Unissued id) (ChunkJobOk id) s) (hs : step s a = some t)
    {i : UInt32} (hi : HasChunk s.world id i) : HasChunk t.world id i := by
  cases step_cases hs with
  | @advance rid pick job w next hjob hadv =>
    exact (advance_cases hadv).keeps_chunk (h.2 rid job hjob).purges (not_not_intro rfl) hi
  | @env e w henv => cases environ_cases henv <;> exact hi
  | _ => exact hi

/-- A request comes to the insertion of a file by reading a complete row. -/
theorem completeInsert_origin (hs : step s a = some t) {userId : Uuid} {row : UploadRow}
    (h : t.jobs.lookup rid = some (.completeInsert userId id row)) :
    s.jobs.lookup rid = some (.completeInsert userId id row) ∨
      (s.world.uploads.lookup id = some row ∧ row.totalChunks ≤ row.chunksReceived) := by
  cases job_cases hs h with
  | old h => exact .inl h
  | arrived hentry => cases hentry
  | advanced hjob hadv =>
    generalize hnext : (Next.goto (Job.completeInsert userId id row) : Next Job Response) = next
      at hadv
    cases advance_cases hadv with
    | complete hrow hall =>
      cases hnext
      exact .inr ⟨(lookup_of_selectUpload hrow).1, hall⟩
    | @stored r b => cases b <;> cases hnext
    | fetched | rowDeleted => cases nextRow_isPurge hnext.symm
    | listed | blobDeleted => cases nextKey_isPurge hnext.symm
    | _ => cases hnext
  | failed hjob hfail => cases onFail_isPurge hfail

theorem accounts_step (h : Accounts id s) (hok : countGuard id s a) (hs : step s a = some t) :
    Accounts id t where
  outline := (chunk_outline id).preserves h.outline hok hs
  tally _ hrow := tally_step h hs hrow
  complete rid userId row hjob i hi := by
    refine step_keeps_chunk h.outline hs ?_
    rcases completeInsert_origin hs hjob with hold | ⟨hrow, hall⟩
    · exact h.complete rid userId row hold i hi
    · have htally := h.tally row hrow
      exact hasChunk_of_card (by omega) hi

theorem accounts_run {as : List Step} (hrun : Run step (countGuard id) (Sys.idle World.empty) as s) :
    Accounts id s :=
  hrun.invariant _ (accounts_idle id) fun _ _ _ h hok hs => accounts_step h hok hs

/-- If, in a run, no chunk of `id` is stored by a request while another one is about
    to store it that has found it absent as well, then all chunks are stored when
    `upload_complete` inserts the file. -/
theorem completed_is_stored {as : List Step}
    (hrun : Run step (countGuard id) (Sys.idle World.empty) as s) (hs : step s a = some t)
    (hnew : s.world.files.lookup id = none) {file : FileRow}
    (hfile : t.world.files.lookup id = some file) :
    ∀ i : UInt32, (i.toNat : ℤ) < file.totalChunks → HasChunk t.world id i := by
  intro i hi
  have h := accounts_run hrun
  refine step_keeps_chunk h.outline hs ?_
  cases step_cases hs with
  | @advance rid pick job w next hjob hadv =>
    cases advance_cases hadv with
    | @promoted userId uploadId row hfree =>
      simp only [Sys.settle_world, Table.lookup_insert_eq] at hfile
      split_ifs at hfile with hid
      · cases hfile
        subst hid
        exact h.complete rid userId row hjob i hi
      · rw [hnew] at hfile; cases hfile
    | _ => rw [Sys.settle_world, hnew] at hfile; cases hfile
  | @env e w henv => cases environ_cases henv <;> · rw [hnew] at hfile; cases hfile
  | arrive | fail | cancel => exact absurd (hnew.symm.trans hfile) nofun

/-! ### Two requests for one chunk -/

/-- A request for `upload_complete` that has read the row. -/
def runComplete (rid : ℕ) : List Step := [.arrive rid (.completeSelect runUser runId), .advance rid 0]

/-- Two requests send the chunks of an upload at the same time. A third one sends the
    chunk `0` again and finds it there. -/
def runBoth : List Step :=
  [runInit 2, runChunk 0 [48], .advance 0 0, runChunk 1 [49], .advance 1 0, .advance 1 0,
    .advance 0 0, .advance 0 0, .advance 1 0, .advance 1 0, .advance 0 0, runChunk 2 [48],
    .advance 2 0, .advance 2 0, .advance 2 0, .advance 1 0, .advance 0 0, .advance 2 0]

theorem completed_is_stored_run : ∃ s t a,
    Run step (countGuard runId) (Sys.idle World.empty) (runBoth ++ runComplete 3) s ∧
      step s a = some t ∧ s.world.files.lookup runId = none ∧
      HasChunk t.world runId 0 ∧ HasChunk t.world runId 1 := by
  obtain ⟨s, hs, hp⟩ := exists_run_of_exec step (countGuard runId) (Sys.idle World.empty)
    (runBoth ++ runComplete 3)
    (fun s => s.world.files.lookup runId = none ∧ (step s (.advance 3 0)).any fun t =>
      (t.world.files.lookup runId).any fun file => file.totalChunks = 2)
    (by decide +kernel)
  obtain ⟨hnew, ht⟩ := of_decide_eq_true hp
  obtain ⟨t, ht, hfile⟩ := Option.any_eq_true _ _ |>.mp ht
  obtain ⟨file, hfile, htotal⟩ := Option.any_eq_true _ _ |>.mp hfile
  have hstored := completed_is_stored hs ht hnew hfile
  rw [of_decide_eq_true htotal] at hstored
  exact ⟨s, t, _, hs, ht, hnew, hstored 0 (by decide), hstored 1 (by decide)⟩

/-- Two requests send the chunk `0` of two; both look before either stores it, and
    both count it. The file is inserted without the chunk `1`. -/
theorem completed_without_chunk : ∃ s a t, Run step anyStep (Sys.idle World.empty)
    ([runInit 2, runChunk 0 [48], .advance 0 0, .advance 0 0, .advance 0 0, runChunk 1 [48],
      .advance 1 0, .advance 1 0, .advance 1 0, .advance 0 0, .advance 0 0, .advance 1 0,
      .advance 1 0] ++ runComplete 2) s ∧ step s a = some t ∧
    s.world.files.lookup runId = none ∧
    (t.world.files.lookup runId).any (fun file => file.totalChunks = 2) ∧
    ¬ HasChunk t.world runId 1 := by
  obtain ⟨s, hs, hp⟩ := exists_run_of_exec step anyStep (Sys.idle World.empty)
    ([runInit 2, runChunk 0 [48], .advance 0 0, .advance 0 0, .advance 0 0, runChunk 1 [48],
      .advance 1 0, .advance 1 0, .advance 1 0, .advance 0 0, .advance 0 0, .advance 1 0,
      .advance 1 0] ++ runComplete 2)
    (fun s => s.world.files.lookup runId = none ∧ (step s (.advance 2 0)).any fun t =>
      (t.world.files.lookup runId).any (fun file => file.totalChunks = 2) ∧
        ¬ HasChunk t.world runId 1)
    (by decide +kernel)
  obtain ⟨hnew, ht⟩ := of_decide_eq_true hp
  obtain ⟨t, ht, hgone⟩ := Option.any_eq_true _ _ |>.mp ht
  obtain ⟨hfile, hchunk⟩ := of_decide_eq_true hgone
  exact ⟨s, _, t, hs, ht, hnew, hfile, hchunk⟩

end FreeBox.Server
