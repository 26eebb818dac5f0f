import FreeBox.Server.FileServer
import FreeBox.Server.UploadAlone

/-!
# Where the rows of an identifier come from

`upload_init` draws a fresh identifier; every row of `uploads` and `files` under
it, and every request in flight about it, goes back to the row that it staged.

Results:
* `server_issued_outline`: the file server knows nothing under an identifier that
  it has not issued.
* `origin_outline`: everything under `id` goes back to one staged row.
* `exists_origin`: in every run each identifier is unused or has such a row.
-/

namespace FreeBox.Server

open FreeBox.Lib Handlers

/-- The upload goes back to `staged`: only the counter and the time differ. -/
structure UploadRow.Continues (staged row : UploadRow) : Prop where
  user : row.userId = staged.userId
  total : row.totalChunks = staged.totalChunks
  size : row.sizeBytes = staged.sizeBytes
  envelope : row.encryptedKeyEnvelope = staged.encryptedKeyEnvelope
  hash : row.contentHash = staged.contentHash
  name : row.encryptedName = staged.encryptedName

/-- The file goes back to `staged`, up to its name, which can be changed, and to when
    it was completed and deleted. -/
structure FileRow.Completes (staged : UploadRow) (row : FileRow) : Prop where
  user : row.userId = staged.userId
  total : row.totalChunks = staged.totalChunks
  size : row.sizeBytes = staged.sizeBytes
  envelope : row.encryptedKeyEnvelope = staged.encryptedKeyEnvelope
  hash : row.contentHash = staged.contentHash

/-- Everything under `id` goes back to `staged`. -/
structure Origin (id : Uuid) (staged : UploadRow) (w : World) : Prop where
  issued : id ∈ w.issued
  upload : ∀ row, w.uploads.lookup id = some row → staged.Continues row
  file : ∀ row, w.files.lookup id = some row → row.Completes staged

/-- A request in flight about `id` is one of the owner and for a chunk of the upload. -/
structure JobOrigin (id : Uuid) (staged : UploadRow) (job : Job) : Prop where
  chunk : ∀ r, job.chunk? = some r → r.uploadId = id →
    r.userId = staged.userId ∧ (r.chunkIndex.toNat : ℤ) < staged.totalChunks
  insert : ∀ userId row, job = .completeInsert userId id row →
    userId = staged.userId ∧ staged.Continues row

variable {id : Uuid} {staged row : UploadRow} {w w' : World} {pick : ℕ} {job job' : Job}
  {next : Next Job Response}

/-! ## Uploads -/

theorem UploadRow.Continues.refl (staged : UploadRow) : staged.Continues staged :=
  ⟨rfl, rfl, rfl, rfl, rfl, rfl⟩

theorem UploadRow.Continues.bump {row' : UploadRow} (h : staged.Continues row)
    (hbump : row.bump = some row') : staged.Continues row' := by
  unfold UploadRow.bump at hbump
  split_ifs at hbump
  cases hbump
  exact ⟨h.user, h.total, h.size, h.envelope, h.hash, h.name⟩

theorem UploadRow.Continues.promote (h : staged.Continues row) (now : ℕ) :
    (promote staged.userId row now).Completes staged :=
  ⟨rfl, h.total, h.size, h.envelope, h.hash⟩

theorem jobOrigin_of_none (hchunk : job.chunk? = none)
    (hinsert : ∀ userId row, job ≠ .completeInsert userId id row) : JobOrigin id staged job where
  chunk r hr := by rw [hchunk] at hr; cases hr
  insert userId row hjob := absurd hjob (hinsert userId row)

theorem jobOrigin_of_isPurge (h : job.isPurge = true) : JobOrigin id staged job := by
  cases job with
  | purgeList | purgeDelete | purgeRow => exact jobOrigin_of_none rfl fun _ _ hjob => by cases hjob
  | _ => cases h

theorem CallCase.origin (h : CallCase w pick job w' next) (hw : Origin id staged w)
    (hjob : JobOrigin id staged job) : Origin id staged w' := by
  obtain ⟨hissued, hupload, hfile⟩ := hw
  cases h with
  | @counted r row row' hrow hbump =>
    refine ⟨hissued, fun row₁ hrow₁ => ?_, hfile⟩
    rw [Table.lookup_insert_eq] at hrow₁
    split_ifs at hrow₁ with hid
    · subst hid
      cases hrow₁
      exact (hupload row hrow).bump hbump
    · exact hupload row₁ hrow₁
  | @promoted userId uploadId row hnew =>
    refine ⟨hissued, hupload, fun row₁ hrow₁ => ?_⟩
    rw [Table.lookup_insert_eq] at hrow₁
    split_ifs at hrow₁ with hid
    · subst hid
      cases hrow₁
      obtain ⟨rfl, hrow⟩ := hjob.insert userId row rfl
      exact hrow.promote w.now
    · exact hfile row₁ hrow₁
  | unstaged | rowDeleted =>
    refine ⟨hissued, fun row₁ hrow₁ => ?_, hfile⟩
    rw [Table.lookup_erase_eq] at hrow₁
    split_ifs at hrow₁
    exact hupload row₁ hrow₁
  | _ => exact ⟨hissued, hupload, hfile⟩

theorem CallCase.jobOrigin (h : CallCase w pick job w' (.goto job')) (hw : Origin id staged w)
    (hjob : JobOrigin id staged job) : JobOrigin id staged job' := by
  generalize hnext : Next.goto job' = next at h
  cases h with
  | rejected | counted | uncounted | overflowed | unstaged => cases hnext
  | parsed | promoted => cases hnext; exact jobOrigin_of_none rfl fun _ _ hjob => by cases hjob
  | @selected r row hrow hcheck =>
    cases hnext
    refine ⟨fun r' hr hid => ?_, fun _ _ hjob => by cases hjob⟩
    cases hr
    obtain ⟨hlookup, huser⟩ := lookup_of_selectUpload hrow
    have hcontinues := hw.upload row (hid ▸ hlookup)
    exact ⟨huser.symm.trans hcontinues.user, hcontinues.total ▸ checkChunk_ok hcheck⟩
  | probed => cases hnext; exact ⟨fun r hr => hjob.chunk r hr, fun _ _ hjob => by cases hjob⟩
  | stored =>
    split_ifs at hnext
    cases hnext
    exact ⟨fun r hr => hjob.chunk r hr, fun _ _ hjob => by cases hjob⟩
  | @complete userId uploadId row hrow hall =>
    cases hnext
    refine ⟨fun r hr => (by cases hr), fun userId' row' hinsert => ?_⟩
    cases hinsert
    obtain ⟨hlookup, huser⟩ := lookup_of_selectUpload hrow
    have hcontinues := hw.upload row hlookup
    exact ⟨huser.symm.trans hcontinues.user, hcontinues⟩
  | fetched | rowDeleted => exact jobOrigin_of_isPurge (nextRow_isPurge hnext.symm)
  | listed | blobDeleted => exact jobOrigin_of_isPurge (nextKey_isPurge hnext.symm)

theorem EventCase.origin {e : Event} (h : EventCase w e w') (hw : Origin id staged w) :
    Origin id staged w' := by
  obtain ⟨hissued, hupload, hfile⟩ := hw
  cases h with
  | ticked => exact ⟨hissued, hupload, hfile⟩
  | refused => exact ⟨List.mem_cons_of_mem _ hissued, hupload, hfile⟩
  | @initialised userId newId req row hnew =>
    refine ⟨List.mem_cons_of_mem _ hissued, fun row₁ hrow₁ => ?_, hfile⟩
    rw [Table.lookup_insert_eq] at hrow₁
    split_ifs at hrow₁ with hid
    · exact absurd (hid ▸ hissued) hnew
    · exact hupload row₁ hrow₁

theorem origin_annotates (id : Uuid) (staged : UploadRow) :
    uploadHandlers.Annotates (Origin id staged) fun _ => JobOrigin id staged where
  arrive w job _ hentry := by
    cases job with
    | chunkStart | completeSelect | purgeSelect =>
      exact jobOrigin_of_none rfl fun _ _ hjob => by cases hjob
    | _ => cases hentry
  advance w pick job w' next hw hjob hadv := by
    have hcase := advance_cases hadv
    refine ⟨hcase.origin hw hjob, fun job' hnext => ?_⟩
    subst hnext
    exact hcase.jobOrigin hw hjob
  fail w pick job job' _ _ hfail := jobOrigin_of_isPurge (onFail_isPurge hfail)
  env w e w' hw henv := (environ_cases henv).origin hw

/-! ## Completed files -/

/-- An `UPDATE` of a file changes its name or the time of its deletion. -/
theorem Edit.completes {now : ℕ} {job : FileJob} {row row' : FileRow}
    (h : Edit now id job row row') (hrow : row.Completes staged) : row'.Completes staged := by
  cases h <;> exact ⟨hrow.user, hrow.total, hrow.size, hrow.envelope, hrow.hash⟩

theorem FileCase.origin {job : FileJob} {next : Next FileJob FileResponse}
    (h : FileCase w job w' next) (hw : Origin id staged w) : Origin id staged w' := by
  cases h with
  | answered | selected => exact hw
  | @edited id' job row row' hrow hedit =>
    refine ⟨hw.issued, hw.upload, fun row₁ hrow₁ => ?_⟩
    rw [Table.lookup_insert_eq] at hrow₁
    split_ifs at hrow₁ with hid
    · subst hid
      cases hrow₁
      exact hedit.completes (hw.file row hrow)
    · exact hw.file row₁ hrow₁

theorem FileCase.untouched {job : FileJob} {next : Next FileJob FileResponse}
    (h : FileCase w job w' next) (hw : Untouched id w) : Untouched id w' := by
  cases h with
  | answered | selected => exact hw
  | @edited id' job row row' hrow hedit =>
    intro hid
    obtain ⟨hupload, hfile, hchunks⟩ := hw hid
    refine ⟨hupload, ?_, hchunks⟩
    have hne : id ≠ id' := by
      rintro rfl
      rw [hrow] at hfile
      cases hfile
    exact (Table.lookup_insert_eq _ _ _ _).trans ((if_neg hne).trans hfile)

/-- The handlers of completed files keep an invariant that each of their calls keeps. -/
theorem fileHandlers_annotates {I : World → Prop}
    (h : ∀ w job w' next, FileCase w job w' next → I w → I w') :
    fileHandlers.Annotates I fun _ _ => True where
  arrive _ _ _ _ := trivial
  advance _ _ _ _ _ hw _ hadv := ⟨h _ _ _ _ (fileHandlers_cases hadv) hw, fun _ _ => trivial⟩
  fail _ _ _ _ _ _ _ := trivial
  env _ e := e.elim

theorem fileHandlers_spares {I : World → Prop} {K : Type} {B : World → K → Prop}
    (h : ∀ w job w' next k, FileCase w job w' next → B w k → B w' k) :
    fileHandlers.Spares I (fun _ _ => True) B where
  advance _ _ _ _ _ k _ _ hk hadv := h _ _ _ _ k (fileHandlers_cases hadv) hk
  env _ e := e.elim

/-! ## All handlers -/

theorem server_issued_outline (id : Uuid) :
    fileServer.ProofOutline anyStep (Untouched id) fun w =>
      Sum.elim (JobIssued id w) fun _ => True :=
  .par (issued_annotates id)
    (fileHandlers_annotates fun _ _ _ _ hcase hw => hcase.untouched hw)
    (issued_spares id) spares_true
    (fileHandlers_spares fun _ _ _ _ _ hcase hk => by
      obtain ⟨files, rfl⟩ := hcase.world_eq
      exact ⟨hk.chunk, hk.insert⟩)
    spares_true

theorem origin_outline (id : Uuid) (staged : UploadRow) :
    fileServer.ProofOutline anyStep (Origin id staged) fun _ =>
      Sum.elim (JobOrigin id staged) fun _ => True :=
  .par (origin_annotates id staged)
    (fileHandlers_annotates fun _ _ _ _ hcase hw => hcase.origin hw)
    ⟨fun _ _ _ _ _ _ _ _ hk _ => hk, fun _ _ _ _ _ hk _ => hk⟩ spares_true
    (fileHandlers_spares fun _ _ _ _ _ _ hk => hk) spares_true

variable {s t : ServerState} {as : List ServerStep}

/-- Nothing is known under `id`, and no request in flight is about it. -/
abbrev NotIssued (id : Uuid) (s : ServerState) : Prop :=
  Holds (Untouched id) (fun w => Sum.elim (JobIssued id w) fun _ => True) s

/-- Everything under `id` goes back to `staged`. -/
abbrev HasOrigin (id : Uuid) (staged : UploadRow) (s : ServerState) : Prop :=
  Holds (Origin id staged) (fun _ => Sum.elim (JobOrigin id staged) fun _ => True) s

theorem notIssued_idle (id : Uuid) : NotIssued id (Sys.idle World.empty) :=
  holds_idle fun _ => ⟨rfl, rfl, fun _ => AList.notMem_empty _⟩

theorem notIssued_run (h : Run serverStep anyStep (Sys.idle World.empty) as s) (id : Uuid) :
    NotIssued id s :=
  (server_issued_outline id).holds h (notIssued_idle id)

/-- A row of an upload of one chunk. -/
def runRow : UploadRow where
  userId := runUser
  totalChunks := 1
  chunksReceived := 0
  sizeBytes := 1
  encryptedKeyEnvelope := ""
  contentHash := ""
  encryptedName := ""
  createdAt := 0
  total_pos := by decide
  total_lt := by decide
  received_nonneg := by decide
  received_lt := by decide
  size_nonneg := by decide

/-- When `id` is issued, no request in flight is about it. -/
theorem hasOrigin_of_new (h : NotIssued id s) (hissued : id ∉ s.world.issued) (hid : id ∈ w.issued)
    (hupload : ∀ row, w.uploads.lookup id = some row → row = staged)
    (hfiles : w.files = s.world.files) : HasOrigin id staged { s with world := w } := by
  obtain ⟨-, hfile, -⟩ := h.1 hissued
  refine ⟨⟨hid, fun row hrow => ?_, fun row hrow => ?_⟩, fun rid x hx => ?_⟩
  · exact hupload row hrow ▸ .refl staged
  · simp only [hfiles, hfile] at hrow
    cases hrow
  · cases x with
    | inl job =>
      obtain ⟨hchunk, hins⟩ := h.2 rid _ hx
      exact ⟨fun r hr hr' => absurd (hchunk r hr hr') hissued,
        fun u row hjob => absurd (hins u row hjob) hissued⟩
    | inr job => trivial

/-- The row that `upload_init` inserts is the origin of its identifier. -/
theorem HasOrigin.init {userId : Uuid} {req : UploadInitRequest} (h : NotIssued id s)
    (hs : serverStep s (.env (.inl (.init userId req id))) = some t)
    (hstage : stage userId req s.world.now = some staged) :
    (uploadInit s.world userId req id).2 = .initialised id (4 * 1024 * 1024) ∧
      t.world.uploads.lookup id = some staged ∧ HasOrigin id staged t := by
  cases step_cases hs with
  | env henv =>
    simp only [fileServer, par, uploadHandlers, environ] at henv
    split_ifs at henv with hissued
    cases henv
    obtain ⟨hupload, -, -⟩ := h.1 hissued
    have hinsert : Table.insertNew id staged s.world.uploads =
        some (s.world.uploads.insert id staged) := if_neg (AList.lookup_eq_none.mp hupload)
    have hworld : uploadInit s.world userId req id =
        ({ s.world with issued := id :: s.world.issued
                        uploads := s.world.uploads.insert id staged },
          .initialised id (4 * 1024 * 1024)) := by
      simp only [uploadInit, hstage, Option.bind_some, hinsert]
    rw [hworld]
    refine ⟨rfl, AList.lookup_insert _, ?_⟩
    refine hasOrigin_of_new h hissued List.mem_cons_self (fun row hrow => ?_) rfl
    rw [Table.lookup_insert_eq, if_pos rfl] at hrow
    exact (Option.some.inj hrow).symm

/-- An identifier is issued by `upload_init`, which may insert its row. -/
theorem exists_origin_of_issue (h : NotIssued id s) {a : ServerStep} (hs : serverStep s a = some t)
    (hold : id ∉ s.world.issued) (hnew : id ∈ t.world.issued) : ∃ staged, HasOrigin id staged t := by
  cases step_cases hs with
  | arrive | fail | cancel => exact absurd hnew hold
  | advance hx hadv =>
    cases par_advance_cases hadv with
    | left hcall => exact absurd ((advance_cases hcall).issued_eq ▸ hnew) hold
    | right hcall =>
      obtain ⟨files, rfl⟩ := (fileHandlers_cases hcall).world_eq
      exact absurd hnew hold
  | @env e w henv =>
    cases e with
    | inr e => exact e.elim
    | inl e =>
      obtain ⟨hupload, -, -⟩ := h.1 hold
      cases environ_cases henv with
      | ticked => exact absurd hnew hold
      | refused =>
        refine ⟨runRow, hasOrigin_of_new h hold hnew (fun row hrow => ?_) rfl⟩
        exact absurd (hupload.symm.trans hrow) nofun
      | @initialised userId newId req row hissued hfree hstage =>
        refine ⟨row, hasOrigin_of_new h hold hnew (fun row₁ hrow₁ => ?_) rfl⟩
        rw [Table.lookup_insert_eq] at hrow₁
        split_ifs at hrow₁
        · exact (Option.some.inj hrow₁).symm
        · exact absurd (hupload.symm.trans hrow₁) nofun

/-- Everything under an identifier that has been issued goes back to one row. -/
theorem exists_origin (h : Run serverStep anyStep (Sys.idle World.empty) as s)
    (hid : id ∈ s.world.issued) : ∃ staged, HasOrigin id staged s := by
  induction h with
  | nil => cases hid
  | @snoc as u v a hr hok hs ih =>
    by_cases hold : id ∈ u.world.issued
    · obtain ⟨staged, horigin⟩ := ih hold
      exact ⟨staged, (origin_outline id staged).preserves horigin trivial hs⟩
    · exact exists_origin_of_issue (notIssued_run hr id) hs hold hid

end FreeBox.Server
