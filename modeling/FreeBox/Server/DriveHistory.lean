import FreeBox.Server.DriveRefinement

/-!
# What a download returns

The log of a server that does one request at a time says which chunks have arrived:
`upload_chunk` has answered 204. A download returns the last of them, whatever the other
requests between were about, and however often the chunk was sent.

Results:
* `Recalls.step`: what the drive holds is what the log says.
* `download_is_last_put`: a download returns what has arrived last.
-/

namespace FreeBox.Server

open FreeBox.Lib

/-- The body that has arrived for the chunk `i` of `id` by this request. -/
def arrived (id : Uuid) (i : UInt32) : DriveRequest × DriveAnswer → Option Bytes
  | (.uploadChunk _ uploadId header body, some (.inl .noContent)) =>
    if uploadId = id ∧ parseChunkIndex header = .ok i then some body else none
  | _ => none

/-- The body that has arrived last. -/
def lastPut (id : Uuid) (i : UInt32) (log : List (DriveRequest × DriveAnswer)) : Option Bytes :=
  (log.filterMap (arrived id i)).getLast?

variable {log : List (DriveRequest × DriveAnswer)} {d d' : Drive} {request : DriveRequest}
  {answer : DriveAnswer} {id : Uuid} {i : UInt32}

theorem lastPut_snoc (id : Uuid) (i : UInt32) (log : List (DriveRequest × DriveAnswer))
    (entry : DriveRequest × DriveAnswer) :
    lastPut id i (log ++ [entry]) = (arrived id i entry).or (lastPut id i log) := by
  unfold lastPut
  rw [List.filterMap_append]
  cases harrived : arrived id i entry with
  | none => simp [harrived]
  | some body => simp [harrived]

/-- There is an upload or a file under `id`. -/
def Drive.Has (d : Drive) (id : Uuid) : Prop :=
  d.uploads.lookup id ≠ none ∨ d.files.lookup id ≠ none

/-- What the drive holds is what the log says. -/
structure Recalls (log : List (DriveRequest × DriveAnswer)) (d : Drive) : Prop where
  chunk : ∀ id, d.Has id → ∀ i, d.chunk? id i.toNat = lastPut id i log
  unknown : ∀ id, id ∉ d.issued → ∀ i, lastPut id i log = none

theorem recalls_empty : Recalls [] Drive.empty where
  chunk _ h := by rcases h with h | h <;> exact absurd rfl h
  unknown _ _ _ := rfl

/-- A request that brings no chunk and keeps those of the uploads and files that are left. -/
theorem Recalls.keep (h : Recalls log d) (harrived : ∀ id i, arrived id i (request, answer) = none)
    (hissued : ∀ id, id ∈ d.issued → id ∈ d'.issued)
    (hkeep : ∀ id, d'.Has id → d.Has id ∧ ∀ i, d'.chunk? id i = d.chunk? id i) :
    Recalls (log ++ [(request, answer)]) d' where
  chunk id hid i := by
    obtain ⟨hhad, hchunk⟩ := hkeep id hid
    rw [lastPut_snoc, harrived, hchunk, h.chunk id hhad]
    rfl
  unknown id hid i := by
    rw [lastPut_snoc, harrived, h.unknown id (mt (hissued id) hid)]
    rfl

theorem Recalls.same (h : Recalls log d) (harrived : ∀ id i, arrived id i (request, answer) = none)
    (hissued : d'.issued = d.issued) (huploads : d'.uploads = d.uploads)
    (hfiles : d'.files = d.files) : Recalls (log ++ [(request, answer)]) d' := by
  refine h.keep harrived (fun id hid => hissued ▸ hid) fun id hid => ⟨?_, fun i => ?_⟩
  · rwa [Drive.Has, huploads, hfiles] at hid
  · rw [Drive.chunk?, Drive.chunk?, huploads, hfiles]

/-! ## The requests that change the drive -/

theorem Recalls.start (h : Recalls log d) {userId newId : Uuid} {req : UploadInitRequest}
    (hnew : newId ∉ d.issued) (hnofile : d.files.lookup newId = none) :
    Recalls (log ++ [(.uploadInit userId req newId, answer)]) (d.start userId req newId).1 := by
  unfold Drive.start
  cases FileInfo.ofRequest userId req with
  | none =>
    exact h.keep (fun _ _ => rfl) (fun _ => List.mem_cons_of_mem newId) fun id hid =>
      ⟨hid, fun _ => rfl⟩
  | some info =>
    refine ⟨fun id hid i => ?_, fun id hid i => ?_⟩
    · rw [lastPut_snoc]
      show _ = lastPut id i log
      rw [Drive.chunk?, Table.lookup_insert_eq]
      split_ifs with hsame
      · subst hsame
        rw [h.unknown id hnew]
        exact PartialFile.start_getElem? ..
      · rw [← h.chunk id ?_, Drive.chunk?]
        rwa [Drive.Has, Table.lookup_insert_eq, if_neg hsame] at hid
    · rw [lastPut_snoc]
      exact h.unknown id (fun hmem => hid (List.mem_cons_of_mem newId hmem)) i

theorem Recalls.put (h : Recalls log d) (hknown : ∀ id, d.Has id → id ∈ d.issued)
    {userId uploadId : Uuid} {header : Option Bytes} {body : Bytes} :
    Recalls (log ++ [(.uploadChunk userId uploadId header body,
        some (.inl (d.put userId uploadId header body).2))])
      (d.put userId uploadId header body).1 := by
  unfold Drive.put
  cases hindex : parseChunkIndex header with
  | error e => exact h.same (fun _ _ => rfl) rfl rfl rfl
  | ok k =>
    cases hfind : d.findUpload uploadId userId with
    | none => exact h.same (fun _ _ => rfl) rfl rfl rfl
    | some u =>
      have hu : d.uploads.lookup uploadId = some u := (Option.filter_eq_some_iff.mp hfind).1
      have hhas : d.Has uploadId := .inl (by rw [hu]; simp)
      dsimp only
      cases hcheck : u.check k body with
      | error e => exact h.same (fun _ _ => rfl) rfl rfl rfl
      | ok =>
        have harrived (id : Uuid) (i : UInt32) : arrived id i
            (.uploadChunk userId uploadId header body, some (.inl .noContent)) =
              if id = uploadId ∧ i = k then some body else none := by
          show (if uploadId = id ∧ parseChunkIndex header = .ok i then _ else _) = _
          rw [hindex]
          refine if_congr (and_congr eq_comm ?_) rfl rfl
          exact ⟨fun heq => (Except.ok.inj heq).symm, fun heq => heq ▸ rfl⟩
        refine ⟨fun id hid i => ?_, fun id hid i => ?_⟩
        · rw [lastPut_snoc, harrived]
          by_cases hsame : id = uploadId
          · subst hsame
            rw [Drive.chunk?_upload (AList.lookup_insert _),
              PartialFile.put_getElem? (PartialFile.check_ok hcheck), ← h.chunk id hhas,
              Drive.chunk?_upload hu]
            by_cases hi : i = k
            · subst hi
              simp
            · have hne : i.toNat ≠ k.toNat := fun heq => hi (UInt32.toNat_inj.mp heq)
              simp [hi, hne]
          · have hhad : d.Has id := by
              rwa [Drive.Has, Table.lookup_insert_eq, if_neg hsame] at hid
            rw [if_neg fun hboth => hsame hboth.1, ← h.chunk id hhad, Drive.chunk?, Drive.chunk?,
              Table.lookup_insert_eq, if_neg hsame]
            rfl
        · have hne : id ≠ uploadId := fun heq => hid (heq ▸ hknown uploadId hhas)
          rw [lastPut_snoc, harrived, if_neg fun hboth => hne hboth.1]
          exact h.unknown id hid i

theorem Recalls.finish (h : Recalls log d) {userId uploadId : Uuid} :
    Recalls (log ++ [(.uploadComplete userId uploadId, answer)]) (d.finish userId uploadId).1 := by
  unfold Drive.finish
  cases hfind : d.findUpload uploadId userId with
  | none => exact h.same (fun _ _ => rfl) rfl rfl rfl
  | some u =>
    have hu : d.uploads.lookup uploadId = some u := (Option.filter_eq_some_iff.mp hfind).1
    dsimp only
    cases hfinish : u.finish d.now with
    | none => exact h.same (fun _ _ => rfl) rfl rfl rfl
    | some f =>
      refine h.keep (fun _ _ => rfl) (fun _ hid => hid) fun id hid => ?_
      by_cases hsame : id = uploadId
      · subst hsame
        refine ⟨.inl (by rw [hu]; simp), fun i => ?_⟩
        rw [Drive.chunk?_upload hu, Drive.chunk?_of_none (AList.lookup_erase ..),
          AList.lookup_insert, Option.bind_some, PartialFile.finish_content hfinish]
      · refine ⟨?_, fun i => ?_⟩
        · rwa [Drive.Has, Table.lookup_erase_eq, Table.lookup_insert_eq, if_neg hsame,
            if_neg hsame] at hid
        · rw [Drive.chunk?, Drive.chunk?, Table.lookup_erase_eq, Table.lookup_insert_eq,
            if_neg hsame, if_neg hsame]

theorem Recalls.purge {w : World} (h : Recalls log d) (hw : Represents w d) :
    Recalls (log ++ [(.purge, answer)]) d.purge := by
  refine h.keep (fun _ _ => rfl) (fun _ hid => hid) fun id hid => ?_
  have hpurged : d.purge.uploads.lookup id =
      (d.uploads.lookup id).filter fun u => !decide (u.startedAt + day < d.now) :=
    Table.lookup_deleteWhere ..
  have hfiles : d.purge.files = d.files := rfl
  rw [Drive.Has, hpurged, hfiles] at hid
  cases hu : d.uploads.lookup id with
  | none =>
    refine ⟨.inr ?_, fun i => ?_⟩
    · rw [hu] at hid
      rcases hid with hid | hid
      · exact absurd rfl hid
      · exact hid
    · rw [Drive.chunk?, Drive.chunk?, hpurged, hfiles, hu]
      rfl
  | some u =>
    refine ⟨.inl (by rw [hu]; simp), fun i => ?_⟩
    rw [hu, hw.apart id u hu, Option.filter_some] at hid
    rw [Drive.chunk?, Drive.chunk?, hpurged, hfiles, hu, Option.filter_some]
    by_cases hold : u.startedAt + day < d.now
    · simp [hold] at hid
    · simp [hold]

theorem Recalls.edit {w : World} (h : Recalls log d) (hw : Represents w d)
    (harrived : ∀ id i, arrived id i (request, answer) = none)
    {fileId : Uuid} {p : DriveFile → Bool} {g : DriveFile → DriveFile} {missing : String}
    (hcontent : ∀ f, (g f).content = f.content) :
    Recalls (log ++ [(request, answer)]) (d.edit fileId p g missing).1 := by
  unfold Drive.edit
  cases hfind : (d.files.lookup fileId).filter p with
  | none => exact h.same harrived rfl rfl rfl
  | some f =>
    have hf : d.files.lookup fileId = some f := (Option.filter_eq_some_iff.mp hfind).1
    show Recalls _ { d with files := d.files.insert fileId (g f) }
    refine h.keep harrived (fun _ hid => hid) fun id hid => ?_
    by_cases hsame : id = fileId
    · subst hsame
      have hnone := hw.upload_none hf
      refine ⟨.inr (by rw [hf]; simp), fun i => ?_⟩
      simp only [Drive.chunk?, hnone, AList.lookup_insert, hf, Option.bind_some, hcontent]
    · refine ⟨?_, fun i => ?_⟩
      · rwa [Drive.Has, Table.lookup_insert_eq, if_neg hsame] at hid
      · rw [Drive.chunk?, Drive.chunk?, Table.lookup_insert_eq, if_neg hsame]

/-! ## Every request -/

theorem Recalls.step {w : World} (h : Recalls log d) (hw : Represents w d)
    (hstep : Drive.Step d request d' answer) : Recalls (log ++ [(request, answer)]) d' := by
  obtain ⟨haccepts, hserve⟩ := hstep
  have hknown : ∀ id, d.Has id → id ∈ d.issued := by
    intro id hid
    by_contra hunknown
    obtain ⟨hupload, hfile⟩ := hw.known id hunknown
    rcases hid with hid | hid
    · exact hid hupload
    · exact hid hfile
  cases request with
  | uploadInit userId req newId =>
    cases hserve
    exact h.start haccepts (hw.known newId haccepts).2
  | uploadChunk => cases hserve; exact h.put hknown
  | uploadComplete => cases hserve; exact h.finish
  | purge => cases hserve; exact h.purge hw
  | listFiles | getFileMeta | downloadChunk | listTrash | tick =>
    cases hserve
    exact h.same (fun _ _ => rfl) rfl rfl rfl
  | deleteFile | restoreFile =>
    cases hserve
    exact h.edit hw (fun _ _ => rfl) fun _ => rfl
  | renameFile userId fileId name =>
    cases hserve
    unfold Drive.rename
    split_ifs
    · exact h.same (fun _ _ => rfl) rfl rfl rfl
    · exact h.same (fun _ _ => rfl) rfl rfl rfl
    · exact h.edit hw (fun _ _ => rfl) fun _ => rfl

theorem recalls_of_log (hlog : Log Drive.Step Drive.empty log d) : Recalls log d := by
  induction hlog with
  | nil => exact recalls_empty
  | snoc hrest hstep ih =>
    obtain ⟨w, -, hw⟩ := simulates_server.run represents_empty hrest
    exact ih.step hw hstep

/-- A download returns the body that has arrived last for its chunk. -/
theorem download_is_last_put {w : World} {userId fileId : Uuid} {i : UInt32} {body : Bytes}
    (hlog : Log Alone World.empty
      (log ++ [(.downloadChunk userId fileId i, some (.inr (.chunk body)))]) w) :
    lastPut fileId i log = some body := by
  obtain ⟨w₁, hlog, hstep⟩ := log_snoc_iff.mp hlog
  obtain ⟨d, hlog, hw⟩ := simulates_drive.run represents_empty hlog
  have hanswer := congrArg Prod.snd (alone_iff.mp hstep).2
  simp only [World.serve, hw.downloadChunk, Drive.read] at hanswer
  cases hfind : d.findFile fileId userId with
  | none => rw [hfind] at hanswer; cases hanswer
  | some f =>
    have hf : d.files.lookup fileId = some f := (Option.filter_eq_some_iff.mp hfind).1
    have hnone := hw.upload_none hf
    rw [← (recalls_of_log hlog).chunk fileId (.inr (by rw [hf]; simp)) i,
      Drive.chunk?_of_none hnone, hf, Option.bind_some]
    rw [hfind] at hanswer
    cases hchunk : f.content[i.toNat]? with
    | none => simp only [hchunk] at hanswer; cases hanswer
    | some chunk => simp only [hchunk] at hanswer; cases hanswer; rfl

/-! ### A run -/

/-- The requests with their answers. -/
def World.answers (w : World) : List DriveRequest → List (DriveRequest × DriveAnswer)
  | [] => []
  | request :: requests => (request, (w.serve request).2) :: (w.serve request).1.answers requests

/-- The world after the requests. -/
def World.after (w : World) : List DriveRequest → World
  | [] => w
  | request :: requests => (w.serve request).1.after requests

def World.AcceptsAll (w : World) : List DriveRequest → Prop
  | [] => True
  | request :: requests => w.Accepts request ∧ (w.serve request).1.AcceptsAll requests

theorem log_answers {w₀ w : World} (hlog : Log Alone w₀ log w) (requests : List DriveRequest)
    (haccepts : w.AcceptsAll requests) :
    Log Alone w₀ (log ++ w.answers requests) (w.after requests) := by
  induction requests generalizing w log with
  | nil => rwa [World.answers, List.append_nil]
  | cons request requests ih =>
    have hstep : Alone w request (w.serve request).1 (w.serve request).2 :=
      alone_iff.mpr ⟨haccepts.1, rfl⟩
    have hrest := ih (hlog.snoc hstep) haccepts.2
    rwa [List.append_assoc] at hrest

/-- The requests of a user who sends the only chunk of a file twice. -/
def runDrive : List DriveRequest :=
  let req : UploadInitRequest :=
    { totalChunks := 1, sizeBytes := 1, encryptedKeyEnvelope := "", contentHash := "",
      encryptedName := "" }
  [.uploadInit runUser req runId, .uploadChunk runUser runId (some [48]) [1],
    .uploadChunk runUser runId (some [48]) [2], .uploadComplete runUser runId]

theorem download_is_last_put_run :
    lastPut runId 0 (World.empty.answers runDrive) = some [2] := by
  have hlog : Log Alone World.empty (World.empty.answers runDrive) (World.empty.after runDrive) :=
    log_answers .nil runDrive ⟨show runId ∉ [] by decide, trivial, trivial, trivial, trivial⟩
  have hdownload : downloadChunk (World.empty.after runDrive) runUser runId 0 = .ok [2] := by
    decide +kernel
  have hserve : (World.empty.after runDrive).serve (.downloadChunk runUser runId 0) =
      (World.empty.after runDrive, some (.inr (.chunk [2]))) := by
    rw [World.serve, hdownload]
    rfl
  exact download_is_last_put (hlog.snoc (alone_iff.mpr ⟨trivial, hserve⟩))

end FreeBox.Server
