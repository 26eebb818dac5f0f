import FreeBox.Lib.Sequential
import FreeBox.Server.PurgeSafety

/-!
# A purge pass that runs alone

`purge_orphaned_uploads` fetches the rows of old uploads, and for each of them lists the
blobs, deletes them and deletes the row. The database and the store return rows and keys in
any order. A pass that runs alone and whose calls succeed ends, and it removes the same
whatever the order is.

Results:
* `advance_clears`: what a call and the calls after it remove.
* `halts_purge`: every pass ends, whatever is chosen at each call.
* `ends_purge_iff`: a pass as a function of the world.
* `purge_removes_orphans`: what it leaves.
-/

namespace FreeBox.Server

open FreeBox.Lib Handlers

/-- `w` without these rows of `uploads` and without these blobs. -/
def World.clear (w : World) (rows : Uuid → Bool) (keys : String → Bool) : World :=
  { w with
    uploads := Table.deleteWhere (fun id _ => rows id) w.uploads
    storage := Table.deleteWhere (fun key _ => keys key) w.storage }

/-- The blob belongs to one of the uploads. -/
def belongsTo (rows : List Uuid) (key : String) : Bool :=
  rows.any fun id => startsWith (chunkPrefix id) key

/-- `main::purge_orphaned_uploads`. -/
def purgeOrphanedUploads (w : World) : World :=
  w.clear (· ∈ fetchOrphans w) (belongsTo (fetchOrphans w))

/-! ## What is left to do -/

/-- The pass at this point removes the row of the upload `id`. -/
def Job.clearsRow (id : Uuid) : Job → Bool
  | .purgeList rows => id ∈ rows
  | .purgeDelete id' _ rows | .purgeRow id' rows => id = id' ∨ id ∈ rows
  | _ => false

/-- The pass at this point removes the blob under `key` if it is there. -/
def Job.clearsKey (key : String) : Job → Bool
  | .purgeList rows | .purgeRow _ rows => belongsTo rows key
  | .purgeDelete _ keys rows => key ∈ keys ∨ belongsTo rows key
  | _ => false

variable {w w' : World} {pick : ℕ} {job : Job} {next : Next Job Response} {id : Uuid}
  {rows : List Uuid} {keys : List String}

/-- What the pass removes after a call. -/
def afterwards (next : Next Job Response) (w : World) : World :=
  w.clear (fun id => next.job?.any (Job.clearsRow id)) fun key => next.job?.any (Job.clearsKey key)

theorem clear_none (w : World) : w.clear (fun _ => false) (fun _ => false) = w := by
  have huploads : Table.deleteWhere (fun _ _ => false) w.uploads = w.uploads :=
    AList.ext (List.filter_eq_self.mpr fun _ _ => rfl)
  have hstorage : Table.deleteWhere (fun _ _ => false) w.storage = w.storage :=
    AList.ext (List.filter_eq_self.mpr fun _ _ => rfl)
  rw [World.clear, huploads, hstorage]

theorem clear_clear (w : World) (r r' : Uuid → Bool) (k k' : String → Bool) :
    (w.clear r k).clear r' k' = w.clear (fun id => r id || r' id) fun key => k key || k' key := by
  unfold World.clear
  dsimp only
  rw [Table.deleteWhere_deleteWhere, Table.deleteWhere_deleteWhere]

theorem clear_congr {r r' : Uuid → Bool} {k k' : String → Bool} (hrows : ∀ id, r id = r' id)
    (hkeys : ∀ key ∈ w.storage, k key = k' key) : w.clear r k = w.clear r' k' := by
  have hstorage : Table.deleteWhere (fun key _ => k key) w.storage =
      Table.deleteWhere (fun key _ => k' key) w.storage :=
    Table.deleteWhere_congr fun e he =>
      hkeys e.1 (AList.mem_keys.mpr (List.mem_map_of_mem he))
  rw [funext hrows, World.clear, hstorage]
  rfl

theorem erase_row (w : World) (id : Uuid) :
    { w with uploads := w.uploads.erase id } = w.clear (· = id) fun _ => false := by
  rw [World.clear, Table.erase_eq_deleteWhere]
  congr
  exact (congrArg World.storage (clear_none w)).symm

theorem erase_blob (w : World) (key : String) :
    { w with storage := w.storage.erase key } = w.clear (fun _ => false) (· = key) := by
  rw [World.clear, Table.erase_eq_deleteWhere]
  congr
  exact (congrArg World.uploads (clear_none w)).symm

theorem afterwards_done (r : Option Response) (w : World) : afterwards (.done r) w = w :=
  clear_none w

theorem afterwards_nextRow (rows : List Uuid) (w : World) :
    afterwards (nextRow rows) w = w.clear (· ∈ rows) (belongsTo rows) := by
  unfold nextRow
  split_ifs with hrows
  · subst hrows
    rw [afterwards_done]
    exact (clear_none w).symm
  · rfl

theorem afterwards_nextKey (id : Uuid) (keys : List String) (rows : List Uuid) (w : World) :
    afterwards (nextKey id keys rows) w =
      w.clear (fun id' => id' = id ∨ id' ∈ rows) fun key => key ∈ keys ∨ belongsTo rows key := by
  unfold nextKey
  split_ifs with hkeys
  · subst hkeys
    refine clear_congr (fun _ => rfl) fun key _ => ?_
    show belongsTo rows key = decide (key ∈ [] ∨ belongsTo rows key = true)
    simp
  · rfl

theorem nextKey_goto (id : Uuid) (keys : List String) (rows : List Uuid) :
    ∃ job, nextKey id keys rows = .goto job := by
  unfold nextKey
  split_ifs <;> exact ⟨_, rfl⟩

/-! ## Calls -/

/-- What a call removes, and what is removed after it, is what was left to do. -/
theorem advance_clears (h : advance w pick job = some (w', next)) (hjob : job.isPurge = true) :
    afterwards next w' = afterwards (.goto job) w ∧ ∀ r, next = .done r → r = none := by
  have hcase := advance_cases h
  cases hcase with
  | @listed rows id hid =>
    obtain ⟨job, hgoto⟩ := nextKey_goto id (listKeys w (chunkPrefix id)) (rows.eraseIdx pick)
    refine ⟨?_, fun r hr => by rw [hgoto] at hr; cases hr⟩
    obtain ⟨hpick, rfl⟩ := List.getElem?_eq_some_iff.mp hid
    have hperm := List.getElem_cons_eraseIdx_perm hpick
    rw [afterwards_nextKey]
    refine clear_congr (fun id => ?_) fun key hkey => ?_
    · show decide (id = rows[pick] ∨ id ∈ rows.eraseIdx pick) = decide (id ∈ rows)
      rw [decide_eq_decide, ← List.mem_cons, hperm.mem_iff]
    · have hlist : key ∈ listKeys w (chunkPrefix rows[pick]) ↔
          startsWith (chunkPrefix rows[pick]) key = true :=
        mem_listKeys.trans (and_iff_right hkey)
      show decide (key ∈ listKeys w (chunkPrefix rows[pick]) ∨
        belongsTo (rows.eraseIdx pick) key = true) = belongsTo rows key
      unfold belongsTo
      rw [← hperm.any_eq, List.any_cons, Bool.eq_iff_iff, decide_eq_true_eq, hlist, Bool.or_eq_true]
  | @blobDeleted id keys rows key hkey =>
    obtain ⟨job, hgoto⟩ := nextKey_goto id (keys.eraseIdx pick) rows
    refine ⟨?_, fun r hr => by rw [hgoto] at hr; cases hr⟩
    obtain ⟨hpick, rfl⟩ := List.getElem?_eq_some_iff.mp hkey
    have hperm := List.getElem_cons_eraseIdx_perm hpick
    rw [afterwards_nextKey, erase_blob, clear_clear]
    refine clear_congr (fun _ => rfl) fun key _ => ?_
    show (decide (key = keys[pick]) || decide (key ∈ keys.eraseIdx pick ∨ belongsTo rows key = true)) =
      decide (key ∈ keys ∨ belongsTo rows key = true)
    rw [← Bool.decide_or, decide_eq_decide, ← or_assoc, ← List.mem_cons, hperm.mem_iff]
  | @rowDeleted id rows =>
    refine ⟨?_, fun r hr => ?_⟩
    · rw [afterwards_nextRow, erase_row, clear_clear]
      refine clear_congr (fun id' => ?_) fun _ _ => rfl
      exact (Bool.decide_or ..).symm
    · unfold nextRow at hr
      split_ifs at hr
      cases hr
      rfl
  | @rejected job e hreject => cases job <;> contradiction
  | _ => cases hjob

theorem CallCase.isPurge (h : CallCase w pick job w' next) (hjob : job.isPurge = true) {job' : Job}
    (hnext : next = .goto job') : job'.isPurge = true := by
  cases h with
  | listed | blobDeleted => exact nextKey_isPurge hnext
  | rowDeleted => exact nextRow_isPurge hnext
  | rejected => cases hnext
  | _ => cases hjob

/-- A pass removes what is left to do. -/
theorem ends_clears {answer : Option Response} (h : uploadHandlers.Ends w job w' answer)
    (hjob : job.isPurge = true) : w' = afterwards (.goto job) w ∧ answer = none := by
  induction h with
  | done hadv =>
    obtain ⟨hclear, hnone⟩ := advance_clears hadv hjob
    rw [afterwards_done] at hclear
    exact ⟨hclear, hnone _ rfl⟩
  | goto hadv _ ih =>
    obtain ⟨hclear, -⟩ := advance_clears hadv hjob
    rw [← hclear]
    exact ih ((advance_cases hadv).isPurge hjob rfl)

/-! ## Every pass ends -/

theorem halts_purgeRow (hrows : rows ≠ [] → ∀ w, uploadHandlers.Halts w (.purgeList rows))
    (id : Uuid) (w : World) : uploadHandlers.Halts w (.purgeRow id rows) := by
  refine .intro ⟨0, _, rfl⟩ fun pick w' job hadv => ?_
  have hnext : nextRow rows = .goto job := (Prod.mk.inj (Option.some.inj hadv)).2
  unfold nextRow at hnext
  split_ifs at hnext with hnil
  cases hnext
  exact hrows hnil w'

/-- Each round of the loop over the blobs of an upload takes one key away. -/
theorem halts_nextKey (hrows : rows ≠ [] → ∀ w, uploadHandlers.Halts w (.purgeList rows)) (n : ℕ) :
    ∀ {keys w job}, keys.length = n → nextKey id keys rows = .goto job →
      uploadHandlers.Halts w job := by
  induction n with
  | zero =>
    intro keys w job hlen hjob
    rw [nextKey, if_pos (List.length_eq_zero_iff.mp hlen)] at hjob
    cases hjob
    exact halts_purgeRow hrows id w
  | succ n ih =>
    intro keys w job hlen hjob
    have hne : keys ≠ [] := List.length_pos_iff.mp (by omega)
    rw [nextKey, if_neg hne] at hjob
    cases hjob
    obtain ⟨key, hkey⟩ : ∃ key, keys[0]? = some key := ⟨_, List.getElem?_eq_getElem (by omega)⟩
    have hfirst : uploadHandlers.advance w 0 (.purgeDelete id keys rows) =
        some ({ w with storage := w.storage.erase key }, nextKey id (keys.eraseIdx 0) rows) := by
      show Option.bind keys[0]? _ = _
      rw [hkey]
      rfl
    refine .intro ⟨0, _, hfirst⟩ fun pick w' job hadv => ?_
    obtain ⟨key, hkey, hadv⟩ := Option.bind_eq_some_iff.mp hadv
    obtain ⟨hpick, -⟩ := List.getElem?_eq_some_iff.mp hkey
    refine ih ?_ (Prod.mk.inj (Option.some.inj hadv)).2
    rw [List.length_eraseIdx_of_lt hpick, hlen]
    rfl

/-- Each round of the loop over the uploads takes one row away. -/
theorem halts_purgeList (n : ℕ) : ∀ {rows w}, rows.length = n → rows ≠ [] →
    uploadHandlers.Halts w (.purgeList rows) := by
  induction n with
  | zero =>
    intro rows w hlen hne
    exact absurd (List.length_eq_zero_iff.mp hlen) hne
  | succ n ih =>
    intro rows w hlen hne
    obtain ⟨id, hid⟩ : ∃ id, rows[0]? = some id := ⟨_, List.getElem?_eq_getElem (by omega)⟩
    have hfirst : uploadHandlers.advance w 0 (.purgeList rows) =
        some (w, nextKey id (listKeys w (chunkPrefix id)) (rows.eraseIdx 0)) := by
      show Option.bind rows[0]? _ = _
      rw [hid]
      rfl
    refine .intro ⟨0, _, hfirst⟩ fun pick w' job hadv => ?_
    obtain ⟨id, hid, hadv⟩ := Option.bind_eq_some_iff.mp hadv
    obtain ⟨hpick, -⟩ := List.getElem?_eq_some_iff.mp hid
    have hrest : (rows.eraseIdx pick).length = n := by
      rw [List.length_eraseIdx_of_lt hpick, hlen]
      rfl
    exact halts_nextKey (fun hne w => ih hrest hne) _ rfl (Prod.mk.inj (Option.some.inj hadv)).2

theorem halts_purge (w : World) : uploadHandlers.Halts w .purgeSelect := by
  refine .intro ⟨0, _, rfl⟩ fun pick w' job hadv => ?_
  have hnext : nextRow (fetchOrphans w) = .goto job := (Prod.mk.inj (Option.some.inj hadv)).2
  unfold nextRow at hnext
  split_ifs at hnext with hnil
  cases hnext
  exact halts_purgeList _ rfl hnil

theorem eq_of_ends_purge {answer : Option Response}
    (h : uploadHandlers.Ends w .purgeSelect w' answer) :
    w' = purgeOrphanedUploads w ∧ answer = none := by
  have hfetched : afterwards (nextRow (fetchOrphans w)) w = purgeOrphanedUploads w :=
    afterwards_nextRow ..
  cases h with
  | done hadv =>
    obtain ⟨hw, hnext⟩ := Prod.mk.inj (Option.some.inj hadv)
    rw [hnext, afterwards_done] at hfetched
    unfold nextRow at hnext
    split_ifs at hnext
    cases hnext
    exact ⟨hw.symm.trans hfetched, rfl⟩
  | goto hadv hrest =>
    obtain ⟨hw, hnext⟩ := Prod.mk.inj (Option.some.inj hadv)
    rw [← hfetched, hnext]
    subst hw
    exact ends_clears hrest (nextRow_isPurge hnext)

/-- A pass ends in one way, whatever the order of the rows and of the keys. -/
theorem ends_purge_iff {answer : Option Response} :
    uploadHandlers.Ends w .purgeSelect w' answer ↔ w' = purgeOrphanedUploads w ∧ answer = none := by
  constructor
  · exact eq_of_ends_purge
  · rintro ⟨rfl, rfl⟩
    obtain ⟨w', answer, hends⟩ := (halts_purge w).exists_ends
    obtain ⟨rfl, rfl⟩ := eq_of_ends_purge hends
    exact hends

/-! ## What is left -/

theorem mem_fetchOrphans :
    id ∈ fetchOrphans w ↔ ∃ row, w.uploads.lookup id = some row ∧ row.orphaned w.now = true :=
  Table.mem_keys_selectWhere

theorem lookup_purged (w : World) (id : Uuid) : (purgeOrphanedUploads w).uploads.lookup id =
    (w.uploads.lookup id).filter fun row => !row.orphaned w.now := by
  ext row
  show (Table.deleteWhere _ w.uploads).lookup id = some row ↔ _
  rw [Table.lookup_deleteWhere_eq_some, Option.filter_eq_some_iff]
  refine and_congr_right fun hrow => ?_
  rw [decide_eq_false_iff_not, mem_fetchOrphans, hrow]
  simp

theorem belongsTo_chunk (rows : List Uuid) (id : Uuid) (i : UInt32) :
    belongsTo rows (chunkStorageKey id i) = true ↔ id ∈ rows := by
  rw [belongsTo, List.any_eq_true]
  simp only [startsWith_chunkStorageKey, exists_eq_right']

theorem lookup_purged_blob (w : World) (key : String) :
    (purgeOrphanedUploads w).storage.lookup key =
      if belongsTo (fetchOrphans w) key = true then none else w.storage.lookup key := by
  show (Table.deleteWhere _ w.storage).lookup _ = _
  rw [Table.lookup_deleteWhere]
  cases w.storage.lookup key with
  | none => exact (ite_self none).symm
  | some body =>
    rw [Option.filter_some]
    by_cases horphan : belongsTo (fetchOrphans w) key = true <;> simp [horphan]

/-- A pass that runs alone ends, in whatever order the rows and the keys come. It removes the
uploads that are older than a day, with their chunks, and nothing else. -/
theorem purge_removes_orphans (w : World) :
    uploadHandlers.Halts w .purgeSelect ∧
      ∀ w' answer, uploadHandlers.Ends w .purgeSelect w' answer →
        answer = none ∧ w'.now = w.now ∧ w'.files = w.files ∧ w'.issued = w.issued ∧
          (∀ id, w'.uploads.lookup id =
            (w.uploads.lookup id).filter fun row => !row.orphaned w.now) ∧
          (∀ key, w'.storage.lookup key =
            if belongsTo (fetchOrphans w) key = true then none else w.storage.lookup key) ∧
          (∀ id i, belongsTo (fetchOrphans w) (chunkStorageKey id i) = true ↔
            ∃ row, w.uploads.lookup id = some row ∧ row.createdAt + day < w.now) ∧
          fetchOrphans w' = [] := by
  refine ⟨halts_purge w, fun w' answer hends => ?_⟩
  obtain ⟨rfl, rfl⟩ := ends_purge_iff.mp hends
  refine ⟨rfl, rfl, rfl, rfl, lookup_purged w, lookup_purged_blob w, fun id i => ?_, ?_⟩
  · rw [belongsTo_chunk, mem_fetchOrphans]
    simp only [UploadRow.orphaned, decide_eq_true_eq]
  · refine List.eq_nil_iff_forall_not_mem.mpr fun id hid => ?_
    obtain ⟨row, hrow, horphan⟩ := mem_fetchOrphans.mp hid
    rw [lookup_purged, Option.filter_eq_some_iff] at hrow
    have hkept : row.orphaned w.now = false := by simpa using hrow.2
    rw [show (purgeOrphanedUploads w).now = w.now from rfl, hkept] at horphan
    cases horphan

end FreeBox.Server
