import FreeBox.Server.Provenance

/-!
# The life of a file in the trash

`list_files`, `get_file_meta`, `download_chunk`, `delete_file` and `rename_file` each
repeat one condition on the row of a file, `list_trash` and `restore_file` another one,
which depends on the time.

Results:
* `existsUnique_phase`: at every time the handlers agree on one of three phases.
* `renameFile_of_hasNul`: a name with U+0000 is answered with 500 in all of them.
* `deleted_row_kept`: no step but a `restore_file` changes the row of a deleted file.
* `expired_kept`: an expired file stays expired in every run.
* `trash_life`: all of this together, for a file and its owner.
-/

namespace FreeBox.Server

open FreeBox.Lib Handlers

/-! ## Phases -/

/-- The request is answered with 404. -/
def AnswersNotFound {α : Type} (r : Except AppError α) : Prop := ∃ m, r = .error (.notFound m)

/-- Everything but `restore_file` works. -/
structure Active (w : World) (userId id : Uuid) : Prop where
  listed : Listed w userId id
  notInTrash : ¬ ListedInTrash w userId id
  getMeta : ∃ answer, getFileMeta w userId id = .ok answer
  download : ∀ row i chunk, w.files.lookup id = some row → i.toNat < asU32 row.totalChunks →
    w.storage.lookup (chunkStorageKey id i) = some chunk → downloadChunk w userId id i = .ok chunk
  rename : ∀ name, isBlank name = false → hasNul name = false →
    (renameFile w userId id name).2 = .ok ()
  delete : (deleteFile w userId id).2 = .ok ()
  restore : AnswersNotFound (restoreFile w userId id).2

/-- Nothing works, `restore_file` apart. -/
structure Hidden (w : World) (userId id : Uuid) : Prop where
  notListed : ¬ Listed w userId id
  getMeta : AnswersNotFound (getFileMeta w userId id)
  download : ∀ i, AnswersNotFound (downloadChunk w userId id i)
  rename : ∀ name, isBlank name = false → hasNul name = false →
    AnswersNotFound (renameFile w userId id name).2
  delete : AnswersNotFound (deleteFile w userId id).2

/-- Only `restore_file` works. -/
structure InTrash (w : World) (userId id : Uuid) : Prop extends Hidden w userId id where
  inTrash : ListedInTrash w userId id
  restore : (restoreFile w userId id).2 = .ok ()

/-- The file has been deleted at least 30 days ago, and nothing works. -/
structure Expired (w : World) (userId id : Uuid) : Prop extends Hidden w userId id where
  notInTrash : ¬ ListedInTrash w userId id
  restore : AnswersNotFound (restoreFile w userId id).2
  deleted : ∃ row t, w.files.lookup id = some row ∧ row.deletedAt = some t ∧ t + retention ≤ w.now

inductive Phase
  | active
  | trashed
  | expired
  deriving DecidableEq

/-- The file is in this phase, as far as its owner can tell. -/
def InPhase (w : World) (userId id : Uuid) : Phase → Prop
  | .active => Active w userId id
  | .trashed => InTrash w userId id
  | .expired => Expired w userId id

variable {w : World} {userId id : Uuid} {row : FileRow} {t : ℕ}

theorem not_listedInTrash (hrow : w.files.lookup id = some row)
    (h : row.trashed userId w.now = false) : ¬ ListedInTrash w userId id := by
  rw [listedInTrash_iff]
  rintro ⟨row', hrow', htrashed⟩
  rw [hrow] at hrow'
  cases hrow'
  rw [h] at htrashed
  cases htrashed

theorem updateFile_notFound {p : FileRow → Bool} {f : FileRow → FileRow} {missing : String}
    (hrow : w.files.lookup id = some row) (hp : p row = false) :
    updateFile w id p f missing = (w, .error (.notFound missing)) := by
  refine updateFile_of_not f missing fun row' hrow' => ?_
  rw [hrow] at hrow'
  cases hrow'
  exact hp

theorem active_of_lookup (hrow : w.files.lookup id = some row) (hdeleted : row.deletedAt = none) :
    Active w row.userId id := by
  have hactive : row.active row.userId = true := active_iff.mpr ⟨rfl, hdeleted⟩
  have htrashed : row.trashed row.userId w.now = false := by
    rw [FileRow.trashed, hdeleted, Option.any_none, decide_eq_false_iff_not]
    exact fun h => Bool.false_ne_true h.2
  have hselect : selectFile w id row.userId = some row := selectFile_eq_some.mpr ⟨hrow, hactive⟩
  refine ⟨listed_iff.mpr ⟨row, hrow, hactive⟩, not_listedInTrash hrow htrashed,
    ⟨_, getFileMeta_eq_ok.mpr ⟨row, hselect, rfl⟩⟩, fun row' i chunk hrow' hi hchunk => ?_,
    fun name hname hnul => ?_, ?_, ?_⟩
  · rw [hrow] at hrow'
    cases hrow'
    simp only [downloadChunk, hselect, if_neg (not_le.mpr hi), hchunk]
  · rw [renameFile, hname, hnul, if_neg Bool.false_ne_true, if_neg Bool.false_ne_true,
      updateFile_of_lookup _ _ hrow hactive]
  · rw [deleteFile, updateFile_of_lookup _ _ hrow hactive]
  · rw [restoreFile, updateFile_notFound hrow htrashed]
    exact ⟨_, rfl⟩

theorem hidden_of_lookup (hrow : w.files.lookup id = some row) (hdeleted : row.deletedAt = some t) :
    Hidden w userId id := by
  have hactive : row.active userId = false := by
    rw [FileRow.active, decide_eq_false_iff_not, hdeleted]
    exact fun h => Option.some_ne_none t h.2
  have hselect : selectFile w id userId = none := by
    rw [selectFile_eq, hrow, Option.filter_some, hactive, if_neg Bool.false_ne_true]
  refine ⟨?_, ?_, fun i => ?_, fun name hname hnul => ?_, ?_⟩
  · rw [listed_iff]
    rintro ⟨row', hrow', hactive'⟩
    rw [hrow] at hrow'
    cases hrow'
    rw [hactive] at hactive'
    cases hactive'
  · simp only [getFileMeta, hselect]
    exact ⟨_, rfl⟩
  · simp only [downloadChunk, hselect]
    exact ⟨_, rfl⟩
  · rw [renameFile, hname, hnul, if_neg Bool.false_ne_true, if_neg Bool.false_ne_true,
      updateFile_notFound hrow hactive]
    exact ⟨_, rfl⟩
  · rw [deleteFile, updateFile_notFound hrow hactive]
    exact ⟨_, rfl⟩

theorem inTrash_of_lookup (hrow : w.files.lookup id = some row) (hdeleted : row.deletedAt = some t)
    (hnow : w.now < t + retention) : InTrash w row.userId id := by
  have htrashed : row.trashed row.userId w.now = true := trashed_iff.mpr ⟨rfl, t, hdeleted, hnow⟩
  refine ⟨hidden_of_lookup hrow hdeleted, listedInTrash_iff.mpr ⟨row, hrow, htrashed⟩, ?_⟩
  rw [restoreFile, updateFile_of_lookup _ _ hrow htrashed]

theorem expired_of_lookup (hrow : w.files.lookup id = some row) (hdeleted : row.deletedAt = some t)
    (hnow : t + retention ≤ w.now) : Expired w userId id := by
  have htrashed : row.trashed userId w.now = false := by
    rw [FileRow.trashed, hdeleted, Option.any_some, decide_eq_false_iff_not, decide_eq_true_eq]
    exact fun h => absurd h.2 (not_lt.mpr hnow)
  refine ⟨hidden_of_lookup hrow hdeleted, not_listedInTrash hrow htrashed, ?_,
    ⟨row, t, hrow, hdeleted, hnow⟩⟩
  rw [restoreFile, updateFile_notFound hrow htrashed]
  exact ⟨_, rfl⟩

/-- The phase of a file, told by the time of its deletion. -/
theorem existsUnique_phase (hrow : w.files.lookup id = some row) :
    ∃! phase, InPhase w row.userId id phase := by
  have hunique : ∀ p q, InPhase w row.userId id p → InPhase w row.userId id q → p = q := by
    intro p q hp hq
    cases p <;> cases q
    case active.active | trashed.trashed | expired.expired => rfl
    case active.trashed | active.expired => exact absurd hp.listed hq.notListed
    case trashed.active | expired.active => exact absurd hq.listed hp.notListed
    case trashed.expired => exact absurd hp.inTrash hq.notInTrash
    case expired.trashed => exact absurd hq.inTrash hp.notInTrash
  have hexists : ∃ phase, InPhase w row.userId id phase := by
    cases hdeleted : row.deletedAt with
    | none => exact ⟨.active, active_of_lookup hrow hdeleted⟩
    | some t =>
      rcases lt_or_ge w.now (t + retention) with hnow | hnow
      · exact ⟨.trashed, inTrash_of_lookup hrow hdeleted hnow⟩
      · exact ⟨.expired, expired_of_lookup hrow hdeleted hnow⟩
  obtain ⟨phase, hphase⟩ := hexists
  exact ⟨phase, hphase, fun q hq => hunique q phase hq hphase⟩

/-- `restore_file` accepts exactly the files that `list_trash` shows. -/
theorem restoreFile_eq_ok : (restoreFile w userId id).2 = .ok () ↔ ListedInTrash w userId id := by
  rw [listedInTrash_iff, restoreFile]
  constructor
  · intro h
    have hcase := updateFile_cases w id (FileRow.trashed userId w.now)
      (fun row => { row with deletedAt := none })
      ("file " ++ toString id ++ " is not in trash or the 30-day restore window has expired")
    generalize updateFile w id _ _ _ = result at h hcase
    cases hcase with
    | missed => cases h
    | updated hrow hp => exact ⟨_, hrow, hp⟩
  · rintro ⟨row, hrow, htrashed⟩
    rw [updateFile_of_lookup _ _ hrow htrashed]

/-! ## Runs -/

/-- The step is no `UPDATE` of `restore_file` for `id`. -/
def noRestore (id : Uuid) (s : ServerState) : ServerStep → Prop
  | .advance rid _ => ∀ userId, s.jobs.lookup rid ≠ some (.inr (.restoreFile userId id))
  | _ => True

variable {s u : ServerState} {a : ServerStep} {as : List ServerStep}

theorem now_mono (hs : serverStep s a = some u) : s.world.now ≤ u.world.now := by
  cases step_cases hs with
  | arrive | fail | cancel => exact le_rfl
  | advance hx hadv =>
    cases par_advance_cases hadv with
    | left hcall => cases advance_cases hcall <;> exact le_rfl
    | right hcall =>
      obtain ⟨files, rfl⟩ := (fileHandlers_cases hcall).world_eq
      exact le_rfl
  | @env e w henv =>
    cases e with
    | inl e =>
      cases environ_cases henv with
      | ticked => exact Nat.le_add_right _ _
      | _ => exact le_rfl
    | inr e => exact e.elim

/-- The row of a deleted file can be changed by `restore_file` in time, and by nothing else. -/
theorem deleted_row_step (hs : serverStep s a = some u)
    (hrow : s.world.files.lookup id = some row) (hdeleted : row.deletedAt = some t) :
    u.world.files.lookup id = some row ∨ s.world.now < t + retention ∧ ¬ noRestore id s a := by
  have hcase := row_cases hs id
  generalize u.world.files.lookup id = found at hcase ⊢
  cases hcase with
  | same => exact .inl hrow
  | inserted _ hnew => rw [hrow] at hnew; cases hnew
  | @edited rid pick job row₁ row₂ hjob hrow₁ hedit =>
    rw [hrow] at hrow₁
    cases hrow₁
    cases hedit with
    | delete hactive | rename hactive =>
      rw [(active_iff.mp hactive).2] at hdeleted
      cases hdeleted
    | @restore user _ htrashed =>
      obtain ⟨-, t', hdeleted', hnow⟩ := trashed_iff.mp htrashed
      rw [hdeleted] at hdeleted'
      cases hdeleted'
      exact .inr ⟨hnow, fun h => h user hjob⟩

theorem deleted_row_kept (h : Run serverStep (noRestore id) s as u)
    (hrow : s.world.files.lookup id = some row) (hdeleted : row.deletedAt = some t) :
    u.world.files.lookup id = some row := by
  refine h.invariant (fun u => u.world.files.lookup id = some row) hrow ?_
  intro v a v' hv hok hstep
  rcases deleted_row_step hstep hv hdeleted with hsame | ⟨-, hrestore⟩
  · exact hsame
  · exact absurd hok hrestore

theorem expired_kept (h : Run serverStep anyStep s as u) (hexpired : Expired s.world userId id) :
    Expired u.world userId id := by
  obtain ⟨row, t, hrow, hdeleted, hnow⟩ := hexpired.deleted
  have hkept : u.world.files.lookup id = some row ∧ t + retention ≤ u.world.now := by
    refine h.invariant (fun u => u.world.files.lookup id = some row ∧ t + retention ≤ u.world.now)
      ⟨hrow, hnow⟩ ?_
    rintro v a v' ⟨hv, hvnow⟩ - hstep
    rcases deleted_row_step hstep hv hdeleted with hsame | ⟨hlt, -⟩
    · exact ⟨hsame, hvnow.trans (now_mono hstep)⟩
    · exact absurd hlt (not_lt.mpr hvnow)
  exact expired_of_lookup hkept.1 hdeleted hkept.2

/-- The state after the owner's `delete_file` of `id` has been answered. -/
def afterDelete (s : ServerState) (userId id : Uuid) : ServerState :=
  { s with world := (deleteFile s.world userId id).1 }

/-- What `delete_file` has done to the file until the next `restore_file` of it. -/
structure Deleted (row : FileRow) (id : Uuid) (t : ℕ) (w : World) : Prop where
  /-- Deleting again changes nothing; the 30 days are not extended. -/
  again : ∀ user, (deleteFile w user id).1 = w
  /-- `restore_file` gives back the row as it was. -/
  undone : w.now < t + retention → InTrash w row.userId id ∧
    (restoreFile w row.userId id).1 = { w with files := w.files.insert id row }
  expired : t + retention ≤ w.now → Expired w row.userId id

theorem Deleted.of_lookup (hactive : row.deletedAt = none)
    (hrow : w.files.lookup id = some { row with deletedAt := some t }) : Deleted row id t w where
  again user := by
    have hp : FileRow.active user { row with deletedAt := some t } = false := by
      rw [FileRow.active, decide_eq_false_iff_not]
      exact fun h => Option.some_ne_none t h.2
    rw [deleteFile, updateFile_notFound hrow hp]
  undone hnow := by
    have htrash := inTrash_of_lookup hrow rfl hnow
    refine ⟨htrash, ?_⟩
    rw [restoreFile, updateFile_of_lookup _ _ hrow (trashed_iff.mpr ⟨rfl, t, rfl, hnow⟩)]
    have hsame : { row with deletedAt := none } = row := by rw [← hactive]
    rw [hsame]
  expired hnow := expired_of_lookup hrow rfl hnow

/-- PostgreSQL has no value of type `TEXT` with U+0000, so the `UPDATE` fails in every phase. -/
theorem renameFile_of_hasNul {name : String} (hblank : isBlank name = false)
    (hnul : hasNul name = true) : renameFile w userId id name = (w, .error .internal) := by
  rw [renameFile, hblank, hnul, if_neg Bool.false_ne_true, if_pos rfl]

/-- The life of a file, in every state and for every later run, at whatever time. -/
theorem trash_life (s : ServerState) (hrow : s.world.files.lookup id = some row) :
    (∃! phase, InPhase s.world row.userId id phase) ∧
    (∀ name, isBlank name = false → hasNul name = true →
      renameFile s.world row.userId id name = (s.world, .error .internal)) ∧
    ((restoreFile s.world row.userId id).2 = .ok () ↔ ListedInTrash s.world row.userId id) ∧
    (Active s.world row.userId id → ∀ as u,
      Run serverStep (noRestore id) (afterDelete s row.userId id) as u →
        Deleted row id s.world.now u.world) ∧
    (Expired s.world row.userId id → ∀ as u, Run serverStep anyStep s as u →
      Expired u.world row.userId id) := by
  refine ⟨existsUnique_phase hrow, fun name => renameFile_of_hasNul, restoreFile_eq_ok,
    fun hactive as u hrun => ?_, fun hexpired as u hrun => expired_kept hrun hexpired⟩
  obtain ⟨row', hrow', hactive'⟩ := listed_iff.mp hactive.listed
  rw [hrow] at hrow'
  cases hrow'
  have hlookup : (afterDelete s row.userId id).world.files.lookup id =
      some { row with deletedAt := some s.world.now } := by
    rw [afterDelete, deleteFile, updateFile_of_lookup _ _ hrow hactive']
    exact AList.lookup_insert _
  exact .of_lookup (active_iff.mp hactive').2 (deleted_row_kept hrun hlookup rfl)

/-- A state in which the owner has one file. -/
def runTrash : ServerState :=
  Sys.idle { World.empty with files := AList.singleton runId (promote runUser runRow 0) }

/-- The file is deleted, and 30 days pass. -/
theorem trash_life_run : (∃! phase, InPhase runTrash.world runUser runId phase) ∧
    ∃ u, Run serverStep (noRestore runId) (afterDelete runTrash runUser runId)
      [.env (.inl (.tick retention))] u ∧ Expired u.world runUser runId := by
  have hrow : runTrash.world.files.lookup runId = some (promote runUser runRow 0) := by
    decide +kernel
  obtain ⟨hphase, -, -, hdelete, -⟩ := trash_life runTrash hrow
  have hstep : ∃ u, serverStep (afterDelete runTrash runUser runId) (.env (.inl (.tick retention))) =
      some u := ⟨_, rfl⟩
  obtain ⟨u, hu⟩ := hstep
  have hrun : Run serverStep (noRestore runId) (afterDelete runTrash runUser runId)
      [.env (.inl (.tick retention))] u := .snoc .nil trivial hu
  have hnow : runTrash.world.now + retention ≤ u.world.now := by
    cases step_cases hu with
    | env henv => cases henv; exact le_rfl
  exact ⟨hphase, u, hrun, (hdelete (active_of_lookup hrow rfl) _ u hrun).expired hnow⟩

/-- The file is active, and its owner renames it to a text of U+0000 alone. The answer is
    neither 204 nor 404. -/
theorem rename_answers_internal : Active runTrash.world runUser runId ∧
    isBlank "\x00" = false ∧
    (renameFile runTrash.world runUser runId "\x00").2 = .error .internal := by
  have hrow : runTrash.world.files.lookup runId = some (promote runUser runRow 0) := by
    decide +kernel
  exact ⟨active_of_lookup hrow rfl, by decide +kernel, by decide +kernel⟩

end FreeBox.Server
