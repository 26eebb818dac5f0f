import FreeBox.Server.Provenance

/-!
# The metadata of an upload and of its file

`upload_init` casts a `u32` and a `u64` to signed columns; `upload_complete` copies
the row to another table; `list_files` and `get_file_meta` cast back.

Results:
* `stage_fields`: a request that passes the `CHECK` constraints loses nothing in the
  casts.
* `stage_isSome_iff`: the constraints reject exactly the values that the casts would
  change, and an upload of no chunks.
* `metadata_kept`: in every later state the server shows what was sent.
-/

namespace FreeBox.Server

open FreeBox.Lib Handlers

/-! ## Casts -/

theorem asI32_of_pos {n : UInt32} (h : 0 < asI32 n) : asI32 n = n.toNat := by
  have hlt := n.toNat_lt
  unfold asI32 at h ⊢
  split_ifs at h ⊢ with hsmall
  · rfl
  · omega

theorem asU64_of_asI64 (n : UInt64) : asU64 (asI64 n) = n.toNat := by
  have hlt := n.toNat_lt
  unfold asU64 asI64
  split_ifs <;> omega

theorem asU32_of_asI32 (n : UInt32) : asU32 (asI32 n) = n.toNat := by
  have hlt := n.toNat_lt
  unfold asU32 asI32
  split_ifs <;> omega

variable {userId id : Uuid} {req : UploadInitRequest} {now : ℕ} {staged : UploadRow}

/-- The columns of the row that `upload_init` inserts. -/
theorem stage_fields (h : stage userId req now = some staged) :
    staged.userId = userId ∧ staged.totalChunks = asI32 req.totalChunks ∧
      staged.sizeBytes = asI64 req.sizeBytes ∧
      staged.encryptedKeyEnvelope = req.encryptedKeyEnvelope ∧
      staged.contentHash = req.contentHash ∧ staged.encryptedName = req.encryptedName := by
  unfold stage at h
  split_ifs at h
  cases h
  exact ⟨rfl, rfl, rfl, rfl, rfl, rfl⟩

theorem stage_total (h : stage userId req now = some staged) :
    staged.totalChunks = req.totalChunks.toNat := by
  obtain ⟨-, htotal, -⟩ := stage_fields h
  have hpos := staged.total_pos
  rw [htotal] at hpos ⊢
  exact asI32_of_pos hpos

theorem stage_isSome_iff : (stage userId req now).isSome = true ↔
    (0 < req.totalChunks.toNat ∧ req.totalChunks.toNat < 2 ^ 31) ∧ req.sizeBytes.toNat < 2 ^ 63 := by
  have htotal := req.totalChunks.toNat_lt
  have hsize := req.sizeBytes.toNat_lt
  have hcheck : (0 < asI32 req.totalChunks ∧ 0 ≤ asI64 req.sizeBytes) ↔
      (0 < req.totalChunks.toNat ∧ req.totalChunks.toNat < 2 ^ 31) ∧
        req.sizeBytes.toNat < 2 ^ 63 := by
    unfold asI32 asI64
    split_ifs <;> omega
  rw [← hcheck]
  unfold stage
  split_ifs with h
  · exact iff_of_true rfl h
  · exact iff_of_false Bool.false_ne_true h

/-! ## What the server shows -/

/-- The answer of `get_file_meta` or an entry of `list_files` repeats the request. -/
structure FileMetaResponse.Repeats (req : UploadInitRequest) (answer : FileMetaResponse) : Prop where
  total : answer.totalChunks = req.totalChunks.toNat
  size : answer.sizeBytes = req.sizeBytes.toNat
  envelope : answer.encryptedKeyEnvelope = req.encryptedKeyEnvelope
  hash : answer.contentHash = req.contentHash

/-- What the server shows under `id`, which `userId` has initialised with `req`. -/
structure Shows (userId : Uuid) (req : UploadInitRequest) (id : Uuid) (w : World) : Prop where
  /-- The indices that `upload_chunk` accepts. -/
  uploadRange : ∀ (r : ChunkRequest) (row : UploadRow), r.uploadId = id →
    selectUpload w id r.userId = some row → r.body ≠ [] →
    r.body.length ≤ maxUploadChunkBodyBytes →
    (checkChunk row r = .ok () ↔ r.chunkIndex.toNat < req.totalChunks.toNat)
  /-- The indices that `download_chunk` rejects. -/
  downloadRange : ∀ (user : Uuid) (i : UInt32), (selectFile w id user).isSome = true →
    ((∃ m, downloadChunk w user id i = .error (.badRequest m)) ↔
      req.totalChunks.toNat ≤ i.toNat)
  owner : ∀ row, w.files.lookup id = some row → row.userId = userId
  fileMeta : ∀ user answer, getFileMeta w user id = .ok answer →
    user = userId ∧ answer.Repeats req
  listed : ∀ user query rank, ∀ f ∈ (listFiles w user query rank).files, f.fileId = id →
    user = userId ∧ f.Repeats req

variable {w : World} {row : FileRow}

theorem FileRow.Completes.repeats (h : row.Completes staged)
    (hstage : stage userId req now = some staged) : (Server.fileMeta id row).Repeats req := by
  obtain ⟨-, htotal, hsize, henvelope, hhash, -⟩ := stage_fields hstage
  refine ⟨?_, ?_, h.envelope.trans henvelope, h.hash.trans hhash⟩
  · rw [Server.fileMeta, h.total, htotal, asU32_of_asI32]
  · rw [Server.fileMeta, h.size, hsize, asU64_of_asI64]

theorem FileRow.Completes.user_eq (h : row.Completes staged)
    (hstage : stage userId req now = some staged) {user : Uuid} (hactive : row.active user = true) :
    user = userId := by
  rw [← (active_iff.mp hactive).1, h.user, (stage_fields hstage).1]

theorem downloadChunk_eq_badRequest {user : Uuid} {i : UInt32}
    (hrow : selectFile w id user = some row) :
    (∃ m, downloadChunk w user id i = .error (.badRequest m)) ↔
      asU32 row.totalChunks ≤ i.toNat := by
  simp only [downloadChunk, hrow]
  split_ifs with hrange
  · exact iff_of_true ⟨_, rfl⟩ hrange
  · refine iff_of_false ?_ hrange
    rintro ⟨m, hm⟩
    cases hget : w.storage.lookup (chunkStorageKey id i) <;> rw [hget] at hm <;> cases hm

theorem Origin.shows (h : Origin id staged w) (hstage : stage userId req now = some staged) :
    Shows userId req id w where
  uploadRange r row hid hrow hne hlen := by
    have hcontinues := h.upload row (lookup_of_selectUpload hrow).1
    have htotal : row.totalChunks = req.totalChunks.toNat :=
      hcontinues.total.trans (stage_total hstage)
    constructor
    · intro hcheck
      have hindex := checkChunk_ok hcheck
      omega
    · intro hindex
      exact checkChunk_eq_ok (by omega) hne hlen
  downloadRange user i hsome := by
    obtain ⟨row, hrow⟩ := Option.isSome_iff_exists.mp hsome
    have hcompletes := h.file row (selectFile_eq_some.mp hrow).1
    rw [downloadChunk_eq_badRequest hrow, hcompletes.total, (stage_fields hstage).2.1,
      asU32_of_asI32]
  owner row hrow := (h.file row hrow).user.trans (stage_fields hstage).1
  fileMeta user answer hanswer := by
    obtain ⟨row, hrow, rfl⟩ := getFileMeta_eq_ok.mp hanswer
    obtain ⟨hlookup, hactive⟩ := selectFile_eq_some.mp hrow
    have hcompletes := h.file row hlookup
    exact ⟨hcompletes.user_eq hstage hactive, hcompletes.repeats hstage⟩
  listed user query rank f hf hid := by
    obtain ⟨row, hlookup, hactive, hmeta⟩ := mem_listFiles hf
    have hcompletes := h.file row (hid ▸ hlookup)
    rw [hmeta]
    exact ⟨hcompletes.user_eq hstage hactive, hcompletes.repeats hstage⟩

/-! ## Names -/

/-- In the run from `s` the owner's `rename_file` comes to its `UPDATE` with this name. -/
def Renamed (s : ServerState) (as : List ServerStep) (userId id : Uuid) (name : String) : Prop :=
  ∃ before rid pick rest t, as = before ++ .advance rid pick :: rest ∧
    Run serverStep anyStep s before t ∧
    t.jobs.lookup rid = some (.inr (.renameFile userId id name))

variable {s t u : ServerState} {as bs : List ServerStep} {a : ServerStep}

theorem Renamed.append {name : String} (h : Renamed s as userId id name) (bs : List ServerStep) :
    Renamed s (as ++ bs) userId id name := by
  obtain ⟨before, rid, pick, rest, t, rfl, hrun, hjob⟩ := h
  exact ⟨before, rid, pick, rest ++ bs, t, by simp, hrun, hjob⟩

/-- Only the owner's `rename_file` changes the name of a file. -/
theorem Edit.name {job : FileJob} {row' : FileRow} (h : Edit now id job row row') :
    row'.encryptedName = row.encryptedName ∨
      job = .renameFile row.userId id row'.encryptedName := by
  cases h with
  | delete | restore => exact .inl rfl
  | rename hactive => exact .inr (by rw [(active_iff.mp hactive).1])

/-- The name of a file is the one that was sent, or one that the owner gave it. -/
theorem name_kept (hs : HasOrigin id staged s) (hnew : s.world.files.lookup id = none)
    (h : Run serverStep anyStep s as t) (hrow : t.world.files.lookup id = some row) :
    row.encryptedName = staged.encryptedName ∨ Renamed s as staged.userId id row.encryptedName := by
  induction h generalizing row with
  | nil => rw [hnew] at hrow; cases hrow
  | @snoc as t u a hr hok hstep ih =>
    have horigin := (origin_outline id staged).holds hr hs
    have hcase := row_cases hstep id
    rw [hrow] at hcase
    generalize hlookup : some row = row₁ at hcase
    cases hcase with
    | same =>
      rcases ih hlookup.symm with hname | hrenamed
      · exact .inl hname
      · exact .inr (hrenamed.append [a])
    | @inserted rid pick userId row₀ hjob =>
      cases hlookup
      have hinsert := (horigin.2 rid _ hjob).insert userId row₀ rfl
      exact .inl hinsert.2.name
    | @edited rid pick job row₀ row₁ hjob hrow₀ hedit =>
      cases hlookup
      rcases hedit.name with hname | rfl
      · rw [hname]
        rcases ih hrow₀ with hname₀ | hrenamed
        · exact .inl hname₀
        · exact .inr (hrenamed.append [_])
      · rw [(horigin.1.file row₀ hrow₀).user] at hjob
        exact .inr ⟨as, rid, pick, [], _, rfl, hr, hjob⟩

/-! ## One row -/

theorem Edit.createdAt {job : FileJob} {row' : FileRow} (h : Edit now id job row row') :
    row'.createdAt = row.createdAt := by
  cases h <;> rfl

/-- A row of `files` is never removed or replaced. -/
theorem file_row_stays (h : Run serverStep anyStep s as t)
    (hrow : s.world.files.lookup id = some row) :
    ∃ row', t.world.files.lookup id = some row' ∧ row'.createdAt = row.createdAt := by
  refine h.invariant (fun t => ∃ row', t.world.files.lookup id = some row' ∧
    row'.createdAt = row.createdAt) ⟨row, hrow, rfl⟩ ?_
  rintro t a u ⟨row₁, hrow₁, hcreated⟩ - hstep
  have hcase := row_cases hstep id
  generalize hlookup : u.world.files.lookup id = found at hcase ⊢
  cases hcase with
  | same => exact ⟨row₁, hrow₁, hcreated⟩
  | inserted _ hnew => rw [hrow₁] at hnew; cases hnew
  | @edited rid pick job row₂ row₃ hjob hrow₂ hedit =>
    rw [hrow₁] at hrow₂
    cases hrow₂
    exact ⟨row₃, rfl, hedit.createdAt.trans hcreated⟩

/-! ## The round trip -/

/-- The metadata of an upload. Either `upload_init` fails and inserts nothing, or in
    every later state of every interleaving the server shows what was sent; there is
    at most one row of `files`, and only the owner's `rename_file` gives it a name
    other than the one sent. -/
theorem metadata_kept (hbefore : Run serverStep anyStep (Sys.idle World.empty) as s) (userId : Uuid)
    (req : UploadInitRequest) (id : Uuid)
    (hinit : serverStep s (.env (.inl (.init userId req id))) = some t) :
    ((uploadInit s.world userId req id).2 = .error .internal ∧
        t.world.uploads = s.world.uploads ∧ t.world.files = s.world.files) ∨
      ((uploadInit s.world userId req id).2 = .initialised id (4 * 1024 * 1024) ∧
        ∀ bs u, Run serverStep anyStep t bs u → Shows userId req id u.world ∧
          ∀ row, u.world.files.lookup id = some row →
            (row.encryptedName = req.encryptedName ∨ Renamed t bs userId id row.encryptedName) ∧
            ∀ cs v, Run serverStep anyStep u cs v → ∃ row', v.world.files.lookup id = some row' ∧
              row'.createdAt = row.createdAt) := by
  have hnot := notIssued_run hbefore id
  cases hstage : stage userId req s.world.now with
  | none =>
    left
    cases step_cases hinit with
    | env henv =>
      simp only [fileServer, par, uploadHandlers, environ] at henv
      split_ifs at henv
      cases henv
      simp only [uploadInit, hstage, Option.bind_none]
      exact ⟨trivial, trivial, trivial⟩
  | some staged =>
    right
    obtain ⟨hanswer, -, horigin⟩ := HasOrigin.init hnot hinit hstage
    have huser := (stage_fields hstage).1
    have hname := (stage_fields hstage).2.2.2.2.2
    refine ⟨hanswer, fun bs u hrun => ⟨?_, fun row hrow => ⟨?_, fun cs v hrun' => ?_⟩⟩⟩
    · exact ((origin_outline id staged).holds hrun horigin).1.shows hstage
    · have hnew : t.world.files.lookup id = none := by
        cases step_cases hinit with
        | env henv =>
          simp only [fileServer, par, uploadHandlers, environ] at henv
          split_ifs at henv with hissued
          cases henv
          obtain ⟨uploads, hworld⟩ := Processes.uploadInit_world s.world userId id req
          simp only [hworld]
          exact (hnot.1 hissued).2.1
      rw [← hname, ← huser]
      exact name_kept horigin hnew hrun hrow
    · exact file_row_stays hrun' hrow

/-! ### A concrete run -/

def runRequest : UploadInitRequest where
  totalChunks := 1
  sizeBytes := 1
  encryptedKeyEnvelope := "key"
  contentHash := "hash"
  encryptedName := "name"

/-- The chunk arrives, the upload is completed, and the owner renames the file. -/
def runCompleted : List ServerStep :=
  [.arrive 0 (.inl (.chunkStart runUser runId (some [48]) [1])), .advance 0 0, .advance 0 0,
    .advance 0 0, .advance 0 0, .advance 0 0, .arrive 1 (.inl (.completeSelect runUser runId)),
    .advance 1 0, .advance 1 0, .arrive 2 (.inr (.renameFile runUser runId "other")),
    .advance 2 0]

theorem metadata_kept_run : ∃ t u, Run serverStep anyStep t runCompleted u ∧
    (u.world.files.lookup runId).isSome = true ∧ Shows runUser runRequest runId u.world := by
  obtain ⟨t, hinit⟩ := Option.isSome_iff_exists.mp (show (serverStep (Sys.idle World.empty)
    (.env (.inl (.init runUser runRequest runId)))).isSome = true by decide +kernel)
  have hexec : ((serverStep (Sys.idle World.empty)
      (.env (.inl (.init runUser runRequest runId)))).bind fun t =>
        exec serverStep anyStep t runCompleted).any
          (fun u => (u.world.files.lookup runId).isSome) = true := by decide +kernel
  rw [hinit, Option.bind_some] at hexec
  obtain ⟨u, hrun, hfile⟩ := exists_run_of_exec serverStep anyStep t runCompleted
    (fun u => (u.world.files.lookup runId).isSome) hexec
  rcases metadata_kept .nil runUser runRequest runId hinit with ⟨hfailed, -⟩ | ⟨-, hshows⟩
  · exact absurd hfailed (by decide +kernel)
  · exact ⟨t, u, hrun, hfile, (hshows _ u hrun).1⟩

end FreeBox.Server
