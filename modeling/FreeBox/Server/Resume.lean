import FreeBox.Server.ChunkAccounting

/-!
# Resuming an upload

The documented way to resume an interrupted upload is to send the missing chunks
again. A chunk that was stored but not counted is found in the store when it is
sent again, and is never counted. A `storage.put` that fails is taken to have stored
nothing.

Results:
* `resumes_step`: while no `UPDATE` is lost, a client that sends one request
  after another has every stored chunk counted.
* `resumed_is_complete`: then the upload can be completed when every chunk has
  been answered with 204.
* `resumed_missing_chunks`: a run with one lost `UPDATE` in which it cannot.
-/

namespace FreeBox.Server

open FreeBox.Lib Handlers

/-- A request to `upload_chunk` for `id`. -/
def Job.onChunk (id : Uuid) : Job → Bool
  | .chunkStart _ id' _ _ => id' = id
  | .chunkSelect r | .chunkExists r | .chunkPut r _ | .chunkUpdate r => r.uploadId = id
  | _ => false

/-- The request has found the chunk `i` of `id` absent and has not counted it yet. -/
def Job.willCount (id : Uuid) (i : UInt32) : Job → Bool
  | .chunkPut r false | .chunkUpdate r => r.uploadId = id ∧ r.chunkIndex = i
  | _ => false

/-- A request that has sent 204 for the chunk `i` of `id`. -/
def acknowledges (id : Uuid) (i : UInt32) : Job × Response → Bool
  | (job, response) =>
    response = .noContent ∧ job.chunk?.any (fun r => r.uploadId = id ∧ r.chunkIndex = i)

/-- The requests in flight for chunks of `id`. -/
def requests (s : State) (id : Uuid) : ℕ := Table.countWhere (fun _ j => j.onChunk id) s.jobs

/-- The client has received 204 for the chunk `i` of `id`. -/
def acked (s : State) (id : Uuid) (i : UInt32) : Bool := s.answers.any (acknowledges id i)

/-- The requests for chunks of `id` come one after another, and no purge pass fetches
    `id`. -/
def clientGuard (id : Uuid) (s : State) (a : Step) : Bool :=
  match a with
  | .arrive _ job => job.onChunk id → requests s id = 0
  | _ => unpurged id s a

/-- No `UPDATE` of the counter of `id` fails, and no request is cancelled before it. -/
def updateKept (id : Uuid) (s : State) : Step → Bool
  | .fail rid _ | .cancel rid => (s.jobs.lookup rid).all fun job => !job.updates id
  | _ => true

def resumeGuard (id : Uuid) (s : State) (a : Step) : Prop :=
  clientGuard id s a = true ∧ updateKept id s a = true

instance (id : Uuid) (s : State) (a : Step) : Decidable (resumeGuard id s a) :=
  inferInstanceAs (Decidable (_ ∧ _))

/-- Every stored chunk is counted or about to be, and an acknowledged chunk is stored
    and counted. -/
structure Resumes (id : Uuid) (s : State) : Prop where
  accounts : Accounts id s
  single : requests s id ≤ 1
  tally : ∀ row, s.world.uploads.lookup id = some row →
    (storedChunks s.world id row.totalChunks).card ≤ row.chunksReceived + pending s id
  acks : ∀ i, acked s id i = true → HasChunk s.world id i ∧
    ∀ rid j, s.jobs.lookup rid = some j → j.willCount id i = false

variable {id : Uuid} {s t : State} {a : Step} {w w' : World} {pick rid : ℕ} {job job' : Job}
  {next : Next Job Response} {i : UInt32}

/-! ## One request at a time -/

theorem Job.onChunk_of_willCount (h : job.willCount id i = true) : job.onChunk id = true := by
  cases job with
  | chunkPut r b => cases b <;> simp_all [willCount, onChunk]
  | chunkUpdate r => simp_all [willCount, onChunk]
  | _ => cases h

theorem any_onChunk_of_isPurge (h : ∀ job, next = .goto job → job.isPurge = true) :
    next.job?.any (Job.onChunk id) = false := by
  cases next with
  | done r => rfl
  | goto job => cases job <;> first | rfl | cases h _ rfl

/-- A request stays a request for the same upload. -/
theorem CallCase.onChunk (h : CallCase w pick job w' next)
    (hnext : next.job?.any (Job.onChunk id) = true) : job.onChunk id = true := by
  cases h with
  | @stored r b => cases b <;> first | exact hnext | cases hnext
  | fetched | rowDeleted =>
    rw [any_onChunk_of_isPurge fun _ => nextRow_isPurge] at hnext
    cases hnext
  | listed | blobDeleted =>
    rw [any_onChunk_of_isPurge fun _ => nextKey_isPurge] at hnext
    cases hnext
  | parsed | selected | probed => exact hnext
  | _ => cases hnext

theorem onFail_onChunk (h : onFail pick job = some next)
    (hnext : next.job?.any (Job.onChunk id) = true) : job.onChunk id = true := by
  rw [any_onChunk_of_isPurge fun _ he => onFail_isPurge (h.trans (congrArg some he))] at hnext
  cases hnext

theorem requests_step (h : Resumes id s) (hok : clientGuard id s a = true)
    (hs : step s a = some t) : requests t id ≤ 1 := by
  refine single_step h.single (fun rid job ha hjob => ?_) (fun _ _ _ _ _ hadv =>
    (advance_cases hadv).onChunk) (fun _ _ _ => onFail_onChunk) hs
  subst ha
  simp only [clientGuard, decide_eq_true_eq] at hok
  exact hok hjob

/-- With one request at a time no chunk is stored by two requests at once. -/
theorem countGuard_of_resumes (h : Resumes id s) (hok : clientGuard id s a = true) :
    countGuard id s a := by
  cases a with
  | advance rid pick =>
    refine ⟨hok, ?_⟩
    simp only [noTwin]
    split
    · rename_i r _
      rw [decide_eq_true_eq]
      intro _
      refine le_trans (List.countP_mono_left fun e _ he => ?_) h.single
      obtain ⟨rid', j⟩ := e
      cases j with
      | chunkPut r b => cases b <;> simp_all [Job.freshPut, Job.onChunk]
      | _ => cases he
    · rfl
  | _ => exact ⟨by first | exact hok | rfl, rfl⟩

/-! ## Every stored chunk is counted -/

/-- The column cannot overflow: a chunk is about to be counted that the counter lacks. -/
theorem bump_ne_none (h : Resumes id s) (hjob : s.jobs.lookup rid = some job)
    (hupdates : job.updates id = true) {row : UploadRow}
    (hrow : s.world.uploads.lookup id = some row) : row.bump ≠ none := by
  have hpos : 0 < pending s id := Table.countWhere_pos.mpr ⟨rid, job, hjob, hupdates⟩
  have hcounted := h.accounts.tally row hrow
  have hcard := card_storedChunks_le s.world id row.totalChunks
  have hlt := row.total_lt
  have hroom : row.chunksReceived + 1 < 2 ^ 31 := by omega
  rw [UploadRow.bump, dif_pos hroom]
  exact Option.some_ne_none _

theorem EventCase.hasChunk {e : Event} (h : EventCase w e w') (i : UInt32) :
    HasChunk w' id i ↔ HasChunk w id i := by
  cases h <;> exact Iff.rfl

/-- A row that is there after an event was there before, or its upload is new and has
    no chunks. -/
theorem EventCase.row_cases {e : Event} (h : EventCase w e w') (hw : Unissued id w)
    {row' : UploadRow} (hrow' : w'.uploads.lookup id = some row') :
    w.uploads.lookup id = some row' ∨ ∀ i, ¬ HasChunk w' id i := by
  cases h with
  | ticked | refused => exact .inl hrow'
  | @initialised userId newId req row hissued hnew hstage =>
    simp only [Table.lookup_insert_eq] at hrow'
    split_ifs at hrow' with hid
    · subst hid
      exact .inr (hw hissued).2
    · exact .inl hrow'

theorem exact_step (h : Resumes id s) (hok : updateKept id s a = true) (hs : step s a = some t)
    {row' : UploadRow} (hrow' : t.world.uploads.lookup id = some row') :
    (storedChunks t.world id row'.totalChunks).card ≤ row'.chunksReceived + pending t id := by
  cases step_cases hs with
  | @arrive rid job hentry hnew =>
    rw [pending_arrive hentry hnew]
    exact h.tally row' hrow'
  | @advance rid pick job w next hjob hadv =>
    obtain ⟨row, lost, hrow, htotal, hbalance, hlost⟩ :=
      (advance_cases hadv).tally (h.accounts.outline.2 rid job hjob) hrow'
    have hpending := pending_settle w next id hjob
    have hbefore := h.tally row hrow
    have hnolost : lost = 0 := by
      by_contra hne
      obtain ⟨hupdates, hbump⟩ := hlost hne
      exact bump_ne_none h hjob hupdates hrow hbump
    rw [htotal, Sys.settle_world]
    split_ifs at hbalance hpending <;> omega
  | @fail rid pick job next hjob hfail =>
    have hpending := pending_settle s.world next id hjob
    simp only [updateKept, hjob, Option.all_some, Bool.not_eq_true'] at hok
    rw [any_updates_of_isPurge fun _ h => onFail_isPurge (hfail.trans (congrArg some h)), hok]
      at hpending
    have hbefore := h.tally row' hrow'
    simp only [Bool.false_eq_true, if_false, Sys.settle_world] at hpending ⊢
    omega
  | @cancel rid job hjob =>
    simp only [updateKept, hjob, Option.all_some, Bool.not_eq_true'] at hok
    have hcount := Table.countWhere_erase (p := fun _ j => Job.updates id j) hjob
    have hbefore := h.tally row' hrow'
    rw [hok] at hcount
    simp only [pending, Bool.false_eq_true, if_false] at hcount hbefore ⊢
    omega
  | @env e w henv =>
    have hcase := environ_cases henv
    rcases hcase.row_cases h.accounts.outline.1 hrow' with hrow | hnone
    · rw [storedChunks_congr hcase.hasChunk]
      exact h.tally row' hrow
    · have hreceived := row'.received_nonneg
      have hcard := card_storedChunks_of_none hnone row'.totalChunks
      simp only [hcard]
      omega

/-! ## Acknowledged chunks -/

/-- A chunk that is stored is not found absent any more. -/
theorem CallCase.willCount (h : CallCase w pick job w' (.goto job')) (hstored : HasChunk w id i)
    (hjob : job.willCount id i = false) : job'.willCount id i = false := by
  generalize hnext : Next.goto job' = next at h
  cases h with
  | @probed r =>
    cases hnext
    rw [Bool.eq_false_iff]
    intro hcount
    by_cases hhas : chunkStorageKey r.uploadId r.chunkIndex ∈ w.storage
    · simp [Job.willCount, hhas] at hcount
    · simp only [Job.willCount, hhas, decide_false, decide_eq_true_eq] at hcount
      obtain ⟨rfl, rfl⟩ := hcount
      exact hhas hstored
  | @stored r b =>
    split_ifs at hnext with hb
    cases hnext
    rw [Bool.not_eq_true] at hb
    subst hb
    exact hjob
  | fetched | rowDeleted =>
    have := nextRow_isPurge hnext.symm
    cases job' <;> first | rfl | cases this
  | listed | blobDeleted =>
    have := nextKey_isPurge hnext.symm
    cases job' <;> first | rfl | cases this
  | parsed | selected | complete | promoted => cases hnext; rfl
  | _ => cases hnext

theorem acknowledges_iff {response : Response} : acknowledges id i (job, response) = true ↔
    response = .noContent ∧ ∃ r, job.chunk? = some r ∧ r.uploadId = id ∧ r.chunkIndex = i := by
  simp only [acknowledges, decide_eq_true_eq]
  cases job.chunk? <;> simp

/-- The chunk is stored when 204 is sent. -/
theorem CallCase.stored_of_ack {response : Response}
    (h : CallCase w pick job w' (.done (some response))) (hjob : ChunkJobOk id w job)
    (hack : acknowledges id i (job, response) = true) :
    HasChunk w' id i ∧ job.onChunk id = true := by
  obtain ⟨rfl, r, hchunk, rfl, rfl⟩ := acknowledges_iff.mp hack
  have hput := h.hasChunk hjob.purges
  generalize hnext : Next.done (some Response.noContent) = next at h
  cases h with
  | @stored r' b =>
    cases hchunk
    exact ⟨(hput _).mpr (.inr ⟨r, b, rfl, rfl, rfl⟩), decide_eq_true rfl⟩
  | counted | uncounted =>
    cases hchunk
    exact ⟨(hput _).mpr (.inl (hjob.present r (.inr rfl) rfl)), decide_eq_true rfl⟩
  | _ => first | cases hnext | cases hchunk

/-- No request for a stored chunk comes to count it. -/
theorem willCount_step (hstored : HasChunk s.world id i)
    (hjobs : ∀ rid j, s.jobs.lookup rid = some j → j.willCount id i = false)
    (hs : step s a = some t) {j : Job} (hj : t.jobs.lookup rid = some j) :
    j.willCount id i = false := by
  cases job_cases hs hj with
  | old hold => exact hjobs rid j hold
  | arrived hentry => cases j <;> first | rfl | cases hentry
  | advanced hold hadv => exact (advance_cases hadv).willCount hstored (hjobs rid _ hold)
  | failed hold hfail =>
    have := onFail_isPurge hfail
    cases j <;> first | rfl | cases this

theorem acks_step (h : Resumes id s) (hs : step s a = some t) (hack : acked t id i = true) :
    HasChunk t.world id i ∧
      ∀ rid j, t.jobs.lookup rid = some j → j.willCount id i = false := by
  by_cases hold : acked s id i = true
  · obtain ⟨hstored, hjobs⟩ := h.acks i hold
    exact ⟨step_keeps_chunk h.accounts.outline hs hstored,
      fun rid j hj => willCount_step hstored hjobs hs hj⟩
  have hnew : ∀ x ∈ s.answers, acknowledges id i x = false := by
    intro x hx
    by_contra hxa
    exact hold (List.any_eq_true.mpr ⟨x, hx, (Bool.not_eq_false _).mp hxa⟩)
  obtain ⟨⟨job₀, response⟩, hmem, hx⟩ := List.any_eq_true.mp hack
  cases step_cases hs with
  | @advance rid pick job w next hjob hadv =>
    rcases Sys.mem_answers_settle hmem with hmem | ⟨rfl, rfl⟩
    · rw [hnew _ hmem] at hx; cases hx
    · -- this call has sent the answer, and no other request for `id` is in flight
      obtain ⟨hstored, honly⟩ :=
        (advance_cases hadv).stored_of_ack (h.accounts.outline.2 rid job₀ hjob) hx
      refine ⟨hstored, fun rid' j hj => ?_⟩
      rcases Sys.of_lookup_settle hj with ⟨hrid, hj⟩ | ⟨-, hnext⟩
      · by_contra hcount
        rw [Bool.not_eq_false] at hcount
        have htwo := Table.two_le_countWhere (p := fun _ j => j.onChunk id) hjob hj hrid honly
          (Job.onChunk_of_willCount hcount)
        exact absurd (htwo.trans h.single) (by decide)
      · cases hnext
  | @fail rid pick job next hjob hfail =>
    rcases Sys.mem_answers_settle hmem with hmem | ⟨rfl, rfl⟩
    · rw [hnew _ hmem] at hx; cases hx
    · obtain ⟨rfl, r, hchunk, -⟩ := acknowledges_iff.mp hx
      cases job₀ <;> first | cases hfail | cases hchunk
  | _ => rw [hnew _ hmem] at hx; cases hx

theorem resumes_step (h : Resumes id s) (hok : resumeGuard id s a) (hs : step s a = some t) :
    Resumes id t where
  accounts := accounts_step h.accounts (countGuard_of_resumes h hok.1) hs
  single := requests_step h hok.1 hs
  tally _ hrow := exact_step h hok.2 hs hrow
  acks _ hack := acks_step h hs hack

theorem resumes_run {as : List Step}
    (hrun : Run step (resumeGuard id) (Sys.idle World.empty) as s) : Resumes id s :=
  hrun.invariant _
    { accounts := accounts_idle id
      single := Nat.zero_le 1
      tally := fun _ hrow => by cases hrow
      acks := fun _ hack => by cases hack }
    fun _ _ _ h hok hs => resumes_step h hok hs

/-- A client sends chunk requests one after another, and no `UPDATE` of the counter is
    lost. When it has received 204 for every chunk, `upload_complete` goes on to insert
    the file. -/
theorem resumed_is_complete {as : List Step}
    (hrun : Run step (resumeGuard id) (Sys.idle World.empty) as s) {row : UploadRow}
    (hrow : s.world.uploads.lookup id = some row)
    (hall : ∀ i : UInt32, (i.toNat : ℤ) < row.totalChunks → acked s id i = true) (pick : ℕ) :
    row.totalChunks ≤ row.chunksReceived ∧
      advance s.world pick (.completeSelect row.userId id) =
        some (s.world, .goto (.completeInsert row.userId id row)) := by
  have h := resumes_run hrun
  have htally := h.tally row hrow
  have hstored : storedChunks s.world id row.totalChunks = Finset.range row.totalChunks.toNat := by
    refine Finset.filter_true_of_mem fun i hi => ?_
    have hi := Finset.mem_range.mp hi
    have hlt := row.total_lt
    refine (h.acks _ (hall _ ?_)).1
    rw [toNat_ofNat_index (by omega)]
    omega
  -- a request about to count its chunk would be one whose chunk is acknowledged
  have hpending : pending s id = 0 := by
    refine pending_eq_zero fun rid j hj => ?_
    cases j with
    | chunkUpdate r =>
      by_contra hupdates
      rw [Bool.not_eq_false] at hupdates
      have hid : r.uploadId = id := of_decide_eq_true hupdates
      have hi := (h.accounts.outline.2 rid _ hj).inRange r row rfl hid hrow
      have := (h.acks _ (hall _ hi)).2 rid _ hj
      simp [Job.willCount, hid] at this
    | _ => rfl
  rw [hstored, Finset.card_range, hpending] at htally
  have hcomplete : row.totalChunks ≤ row.chunksReceived := by omega
  refine ⟨hcomplete, ?_⟩
  simp only [advance, selectUpload, hrow, Option.filter_some, decide_true, if_true,
    not_lt.mpr hcomplete, if_false]

/-! ### A lost `UPDATE` -/

/-- The client sends the chunks of an upload one after the other. The `storage.put` of
    the chunk `1` fails, and the client sends it again. -/
def runResumed : List Step :=
  [runInit 2, runChunk 0 [48], .advance 0 0, .advance 0 0, .advance 0 0, .advance 0 0,
    .advance 0 0, runChunk 1 [49], .advance 1 0, .advance 1 0, .advance 1 0, .fail 1 0,
    runChunk 2 [49], .advance 2 0, .advance 2 0, .advance 2 0, .advance 2 0, .advance 2 0]

theorem resumed_is_complete_run : ∃ s row,
    Run step (resumeGuard runId) (Sys.idle World.empty) runResumed s ∧
      s.world.uploads.lookup runId = some row ∧ row.totalChunks = 2 ∧
      row.totalChunks ≤ row.chunksReceived := by
  obtain ⟨s, hs, hp⟩ := exists_run_of_exec step (resumeGuard runId) (Sys.idle World.empty)
    runResumed
    (fun s => acked s runId 0 ∧ acked s runId 1 ∧
      (s.world.uploads.lookup runId).any fun row => row.totalChunks = 2)
    (by decide +kernel)
  obtain ⟨hfirst, hsecond, hrow⟩ := of_decide_eq_true hp
  obtain ⟨row, hrow, htotal⟩ := Option.any_eq_true _ _ |>.mp hrow
  rw [decide_eq_true_eq] at htotal
  refine ⟨s, row, hs, hrow, htotal, (resumed_is_complete hs hrow (fun i hi => ?_) 0).1⟩
  rw [htotal] at hi
  obtain hi | hi : i.toNat = 0 ∨ i.toNat = 1 := by omega
  · rw [show i = 0 from UInt32.toNat_inj.mp hi]; exact hfirst
  · rw [show i = 1 from UInt32.toNat_inj.mp hi]; exact hsecond

/-- The `UPDATE` of the first request fails; the client sends the chunk again and
    receives 204. The upload has all its chunks and cannot be completed. -/
theorem resumed_missing_chunks : ∃ s t a,
    Run step (fun s a => clientGuard runId s a = true) (Sys.idle World.empty)
      ([runInit 1, runChunk 0 [48], .advance 0 0, .advance 0 0, .advance 0 0, .advance 0 0,
        .fail 0 0, runChunk 1 [48], .advance 1 0, .advance 1 0, .advance 1 0, .advance 1 0,
        .arrive 2 (.completeSelect runUser runId)]) s ∧
    (s.world.uploads.lookup runId).any (fun row => row.totalChunks = 1) ∧
    acked s runId 0 = true ∧ step s a = some t ∧
    t.answers.head? = some (.completeSelect runUser runId,
      .error (.badRequest "missing chunks: expected 1, received 0")) := by
  obtain ⟨s, hs, hp⟩ := exists_run_of_exec step (fun s a => clientGuard runId s a = true)
    (Sys.idle World.empty)
    ([runInit 1, runChunk 0 [48], .advance 0 0, .advance 0 0, .advance 0 0, .advance 0 0,
      .fail 0 0, runChunk 1 [48], .advance 1 0, .advance 1 0, .advance 1 0, .advance 1 0,
      .arrive 2 (.completeSelect runUser runId)])
    (fun s => (s.world.uploads.lookup runId).any (fun row => row.totalChunks = 1) ∧
      acked s runId 0 = true ∧ (step s (.advance 2 0)).any fun t =>
        t.answers.head? = some (.completeSelect runUser runId,
          .error (.badRequest "missing chunks: expected 1, received 0")))
    (by decide +kernel)
  obtain ⟨hrow, hack, ht⟩ := of_decide_eq_true hp
  obtain ⟨t, ht, hanswer⟩ := Option.any_eq_true _ _ |>.mp ht
  exact ⟨s, t, _, hs, hrow, hack, ht, of_decide_eq_true hanswer⟩

end FreeBox.Server
