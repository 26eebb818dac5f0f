import FreeBox.Lib.Trace
import FreeBox.Server.UploadAlone
import Mathlib.Data.Set.Card

/-!
# Uploads one request at a time

`upload_init`, `upload_chunk` and `upload_complete` of any users as one machine that
processes a request after the other, at any times. The counter of an upload is in
the database, its chunks are in the object store, and what the clients know are the
answers.

Results:
* `Accounted.call`: what one request does to the counter, the chunks and the answers.
* `exact_accounting`: the counter is the number of stored chunks, and an upload can be
  completed exactly when each of its chunks has been accepted.
-/

namespace FreeBox.Server

open FreeBox.Lib Handlers

/-! ## The machine -/

/-- A request, with the identifier that `upload_init` draws. -/
inductive UploadCall
  | init (userId : Uuid) (req : UploadInitRequest) (newId : Uuid)
  | chunk (userId uploadId : Uuid) (header : Option Bytes) (body : Bytes)
  | complete (userId uploadId : Uuid)

/-- The handlers of `uploads`. -/
def UploadCall.answer (w : World) : UploadCall → World × Response
  | .init userId req newId => uploadInit w userId req newId
  | .chunk userId uploadId header body => uploadChunk w userId uploadId header body
  | .complete userId uploadId => uploadComplete w userId uploadId

/-- The request arrives some time after the one before it. -/
def handle (w : World) (c : ℕ × UploadCall) : World × Response :=
  c.2.answer { w with now := w.now + c.1 }

/-- The identifier that the request draws. -/
def UploadCall.newId? : UploadCall → Option Uuid
  | .init _ _ newId => some newId
  | _ => none

/-- The identifiers that the requests draw. -/
def newIds (calls : List (ℕ × UploadCall)) : List Uuid := calls.filterMap fun c => c.2.newId?

/-- What has been asked and answered. -/
abbrev History := List ((ℕ × UploadCall) × Response)

/-- An `upload_chunk` for this index has been answered with 204. -/
def Accepted (history : History) (id : Uuid) (i : UInt32) : Prop :=
  ∃ wait userId header body, ((wait, .chunk userId id header body), .noContent) ∈ history ∧
    parseChunkIndex header = .ok i

/-- `upload_init` has returned this identifier. -/
def Opened (history : History) (id : Uuid) : Prop := ∃ c n, (c, .initialised id n) ∈ history

/-- `upload_complete` has returned this identifier. -/
def Completed (history : History) (id : Uuid) : Prop := ∃ c, (c, .completed id) ∈ history

/-! ## The counter, the chunks and the answers -/

/-- What holds of the upload `id` between two requests. -/
structure Accounted (id : Uuid) (history : History) (w : World) : Prop where
  reachable : ReachableWorld w
  issued : ∀ x ∈ w.issued, x ∈ newIds (history.map Prod.fst)
  stored : ∀ i, HasChunk w id i ↔ Accepted history id i
  row : ∀ row, w.uploads.lookup id = some row → w.files.lookup id = none ∧
    row.chunksReceived = (storedChunks w id row.totalChunks).card ∧
    ∀ i, HasChunk w id i → (i.toNat : ℤ) < row.totalChunks
  opened : Opened history id → Completed history id ∨ ∃ row, w.uploads.lookup id = some row

variable {id : Uuid} {history : History} {w w' : World} {c : ℕ × UploadCall} {response : Response}

theorem accepted_concat {i : UInt32} :
    Accepted (history ++ [(c, response)]) id i ↔ Accepted history id i ∨
      response = .noContent ∧ ∃ userId header body, c.2 = .chunk userId id header body ∧
        parseChunkIndex header = .ok i := by
  simp only [Accepted, List.mem_append, List.mem_singleton]
  constructor
  · rintro ⟨wait, userId, header, body, hmem | hlast, hindex⟩
    · exact .inl ⟨wait, userId, header, body, hmem, hindex⟩
    · cases hlast
      exact .inr ⟨rfl, userId, header, body, rfl, hindex⟩
  · rintro (⟨wait, userId, header, body, hmem, hindex⟩ | ⟨rfl, userId, header, body, hcall, hindex⟩)
    · exact ⟨wait, userId, header, body, .inl hmem, hindex⟩
    · exact ⟨c.1, userId, header, body, .inr (by rw [← hcall]), hindex⟩

theorem opened_concat : Opened (history ++ [(c, response)]) id ↔
    Opened history id ∨ ∃ n, response = .initialised id n := by
  simp only [Opened, List.mem_append, List.mem_singleton, Prod.mk.injEq]
  constructor
  · rintro ⟨c', n, hmem | ⟨-, hlast⟩⟩
    · exact .inl ⟨c', n, hmem⟩
    · exact .inr ⟨n, hlast.symm⟩
  · rintro (⟨c', n, hmem⟩ | ⟨n, rfl⟩)
    · exact ⟨c', n, .inl hmem⟩
    · exact ⟨c, n, .inr ⟨rfl, rfl⟩⟩

theorem Completed.append (h : Completed history id) (rest : History) :
    Completed (history ++ rest) id := by
  obtain ⟨c, hc⟩ := h
  exact ⟨c, List.mem_append_left rest hc⟩

theorem newIds_append (cs ds : List (ℕ × UploadCall)) : newIds (cs ++ ds) = newIds cs ++ newIds ds :=
  List.filterMap_append

theorem accounted_empty (id : Uuid) : Accounted id [] World.empty where
  reachable := .refl World.empty
  issued x hx := by cases hx
  stored i := iff_of_false (AList.notMem_empty _) (by rintro ⟨_, _, _, _, hmem, -⟩; cases hmem)
  row row hrow := by cases hrow
  opened := by rintro ⟨_, _, hmem⟩; cases hmem

/-- Time passes. -/
theorem Accounted.wait (h : Accounted id history w) (d : ℕ) :
    Accounted id history { w with now := w.now + d } where
  reachable := Reachable.env h.reachable (e := .tick d) rfl
  issued := h.issued
  stored := h.stored
  row := h.row
  opened := h.opened

/-- A request that draws no identifier. -/
theorem Accounted.issued_append (h : Accounted id history w) {x : Uuid} (hx : x ∈ w.issued) :
    x ∈ newIds ((history ++ [(c, response)]).map Prod.fst) := by
  rw [List.map_append, newIds_append]
  exact List.mem_append_left _ (h.issued x hx)

/-- A request that leaves the upload alone. -/
theorem Accounted.same (h : Accounted id history w) (hreach : ReachableWorld w')
    (hissued : ∀ x ∈ w'.issued, c.2.newId? = some x ∨ x ∈ w.issued)
    (hchunk : ∀ i, HasChunk w' id i ↔ HasChunk w id i)
    (hupload : w'.uploads.lookup id = w.uploads.lookup id)
    (hfile : w'.files.lookup id = w.files.lookup id)
    (haccepted : ∀ userId header body i, c.2 = .chunk userId id header body →
      parseChunkIndex header = .ok i → response = .noContent → Accepted history id i)
    (hopened : ∀ n, response ≠ .initialised id n) :
    Accounted id (history ++ [(c, response)]) w' where
  reachable := hreach
  issued x hx := by
    rw [List.map_append, newIds_append, List.mem_append]
    rcases hissued x hx with hnew | hold
    · exact .inr (List.mem_filterMap.mpr ⟨c, List.mem_singleton_self c, hnew⟩)
    · exact .inl (h.issued x hold)
  stored i := by
    rw [hchunk, h.stored, accepted_concat]
    refine ⟨.inl, ?_⟩
    rintro (hold | ⟨hresponse, userId, header, body, hcall, hindex⟩)
    · exact hold
    · exact haccepted userId header body i hcall hindex hresponse
  row row hrow := by
    rw [hupload] at hrow
    obtain ⟨hnew, hcount, hrange⟩ := h.row row hrow
    exact ⟨hfile.trans hnew, by rw [storedChunks_congr hchunk, hcount],
      fun i hi => hrange i ((hchunk i).mp hi)⟩
  opened hopen := by
    rcases opened_concat.mp hopen with hold | ⟨n, hnew⟩
    · rw [hupload]
      exact (h.opened hold).imp_left fun hdone => hdone.append _
    · exact absurd hnew (hopened n)

/-- `upload_init`, with an identifier that has not been drawn before. -/
theorem Accounted.init (h : Accounted id history w) {d : ℕ} {userId newId : Uuid}
    {req : UploadInitRequest} (hfresh : newId ∉ newIds (history.map Prod.fst)) :
    Accounted id (history ++ [((d, .init userId req newId), (uploadInit w userId req newId).2)])
      (uploadInit w userId req newId).1 := by
  have hissued : newId ∉ w.issued := fun hmem => hfresh (h.issued newId hmem)
  have hreach : ReachableWorld (uploadInit w userId req newId).1 := h.reachable.uploadInit hissued
  have hcase := uploadInit_cases w userId req newId
  generalize uploadInit w userId req newId = result at hreach hcase ⊢
  have hdrawn : ∀ x ∈ newId :: w.issued,
      (UploadCall.init userId req newId).newId? = some x ∨ x ∈ w.issued := by
    intro x hx
    rcases List.mem_cons.mp hx with rfl | hx
    · exact .inl rfl
    · exact .inr hx
  cases hcase with
  | refused =>
    exact h.same hreach hdrawn (fun _ => .rfl) rfl rfl (fun _ _ _ _ hcall => by cases hcall)
      fun _ hresponse => by cases hresponse
  | @initialised row hnew hrow =>
    by_cases hid : newId = id
    · subst hid
      obtain ⟨-, hfile, hchunks⟩ := untouched_of_reachable h.reachable newId hissued
      refine ⟨hreach, ?_, fun i => ?_, fun row₁ hrow₁ => ?_, fun _ => ?_⟩
      · intro x hx
        rw [List.map_append, newIds_append, List.mem_append]
        rcases List.mem_cons.mp hx with rfl | hx
        · exact .inr List.mem_cons_self
        · exact .inl (h.issued x hx)
      · rw [accepted_concat, ← h.stored]
        exact ⟨.inl, fun hi => hi.elim (fun hi => hi) fun hi => by cases hi.1⟩
      · rw [Table.lookup_insert_eq, if_pos rfl] at hrow₁
        cases hrow₁
        refine ⟨hfile, ?_, fun i hi => absurd hi (hchunks i)⟩
        rw [stage_received hrow]
        exact congrArg Int.ofNat (card_storedChunks_of_none (w := w) hchunks _).symm
      · exact .inr ⟨row, AList.lookup_insert _⟩
    · refine h.same hreach hdrawn (fun _ => .rfl) ?_ rfl (fun _ _ _ _ hcall => by cases hcall)
        fun n hresponse => ?_
      · exact (Table.lookup_insert_eq _ _ _ _).trans (if_neg (Ne.symm hid))
      · cases hresponse
        exact hid rfl

theorem hasChunk_put {uploadId : Uuid} {i j : UInt32} {body : Bytes} {uploads : Table Uuid UploadRow} :
    HasChunk { w with
        storage := w.storage.insert (chunkStorageKey uploadId i) body, uploads } id j ↔
      HasChunk w id j ∨ uploadId = id ∧ i = j := by
  rw [HasChunk, AList.mem_insert]
  constructor
  · rintro (hkey | hold)
    · obtain ⟨hid, hindex⟩ := chunkStorageKey_inj hkey
      exact .inr ⟨hid.symm, hindex.symm⟩
    · exact .inl hold
  · rintro (hold | ⟨rfl, rfl⟩)
    · exact .inr hold
    · exact .inl rfl

/-- A chunk of another upload. -/
theorem hasChunk_put_ne {uploadId : Uuid} {i : UInt32} {body : Bytes}
    {uploads : Table Uuid UploadRow} (hid : uploadId ≠ id) (j : UInt32) :
    HasChunk { w with
        storage := w.storage.insert (chunkStorageKey uploadId i) body, uploads } id j ↔
      HasChunk w id j :=
  hasChunk_put.trans (or_iff_left fun hj => hid hj.1)

/-- A chunk of the upload itself. -/
theorem hasChunk_put_self {i : UInt32} {body : Bytes} {uploads : Table Uuid UploadRow}
    (j : UInt32) :
    HasChunk { w with
        storage := w.storage.insert (chunkStorageKey id i) body, uploads } id j ↔
      HasChunk w id j ∨ j = i :=
  hasChunk_put.trans (or_congr_right ⟨fun hj => hj.2.symm, fun hj => ⟨rfl, hj.symm⟩⟩)

/-- The counter of an upload that lacks a chunk has not reached its bound. -/
theorem Accounted.exists_bump (h : Accounted id history w) {row : UploadRow} {i : UInt32}
    (hrow : w.uploads.lookup id = some row) (hi : (i.toNat : ℤ) < row.totalChunks)
    (habsent : ¬ HasChunk w id i) : row.bump ≠ none := by
  obtain ⟨-, hcount, -⟩ := h.row row hrow
  have hfew : (storedChunks w id row.totalChunks).card < row.totalChunks.toNat :=
    not_le.mp fun hall => habsent (hasChunk_of_card hall hi)
  have htotal := row.total_lt
  unfold UploadRow.bump
  rw [dif_pos (by omega)]
  exact Option.some_ne_none _

/-- A chunk that is stored for the first time is counted. -/
theorem Accounted.counted (h : Accounted id history w) {d : ℕ} {userId : Uuid}
    {header : Option Bytes} {body : Bytes} {i : UInt32} {row row' : UploadRow}
    (hreach : ReachableWorld { w with
      storage := w.storage.insert (chunkStorageKey id i) body
      uploads := w.uploads.insert id row' })
    (hindex : parseChunkIndex header = .ok i) (hrow : w.uploads.lookup id = some row)
    (hi : (i.toNat : ℤ) < row.totalChunks) (habsent : ¬ HasChunk w id i)
    (hbump : row.bump = some row') :
    Accounted id (history ++ [((d, .chunk userId id header body), .noContent)])
      { w with
        storage := w.storage.insert (chunkStorageKey id i) body
        uploads := w.uploads.insert id row' } := by
  obtain ⟨hnew, hcount, hrange⟩ := h.row row hrow
  obtain ⟨hreceived, htotal, -⟩ := UploadRow.bump_eq_some hbump
  refine ⟨hreach, fun x hx => h.issued_append hx, fun j => ?_, fun row₁ hrow₁ => ?_, fun _ => ?_⟩
  · rw [hasChunk_put_self, h.stored, accepted_concat]
    refine or_congr_right ⟨?_, ?_⟩
    · rintro rfl
      exact ⟨rfl, userId, header, body, rfl, hindex⟩
    · rintro ⟨-, userId', header', body', hcall, hindex'⟩
      cases hcall
      exact Except.ok.inj (hindex'.symm.trans hindex)
  · rw [Table.lookup_insert_eq, if_pos rfl] at hrow₁
    obtain rfl := Option.some.inj hrow₁
    refine ⟨hnew, ?_, fun j hj => ?_⟩
    · rw [htotal, card_storedChunks_put row.total_lt hi habsent hasChunk_put_self, hreceived,
        hcount]
      exact (Int.natCast_succ _).symm
    · rw [htotal]
      rcases (hasChunk_put_self j).mp hj with hold | rfl
      · exact hrange j hold
      · exact hi
  · exact .inr ⟨row', AList.lookup_insert _⟩

/-- `upload_chunk`. -/
theorem Accounted.chunk (h : Accounted id history w) {d : ℕ} {userId uploadId : Uuid}
    {header : Option Bytes} {body : Bytes} :
    Accounted id (history ++ [((d, .chunk userId uploadId header body),
      (uploadChunk w userId uploadId header body).2)])
      (uploadChunk w userId uploadId header body).1 := by
  have hreach : ReachableWorld (uploadChunk w userId uploadId header body).1 :=
    h.reachable.uploadChunk userId uploadId header body
  have hcase := uploadChunk_cases w userId uploadId header body
  generalize uploadChunk w userId uploadId header body = result at hreach hcase ⊢
  cases hcase with
  | rejected =>
    exact h.same hreach (fun _ hx => .inr hx) (fun _ => .rfl) rfl rfl
      (fun _ _ _ _ _ _ hresponse => by cases hresponse) fun _ hresponse => by cases hresponse
  | @repeated i row hindex hrow hcheck hstored =>
    refine h.same hreach (fun _ hx => .inr hx) (fun j => ?_) rfl rfl ?_
      fun _ hresponse => by cases hresponse
    · rw [hasChunk_put]
      refine ⟨?_, .inl⟩
      rintro (hold | ⟨rfl, rfl⟩)
      · exact hold
      · exact hstored
    · rintro userId' header' body' j hcall hindex' -
      cases hcall
      obtain rfl := Except.ok.inj (hindex'.symm.trans hindex)
      exact (h.stored j).mp hstored
  | @counted i row row' hindex hrow hcheck hstored hbump =>
    obtain ⟨hlookup, -⟩ := lookup_of_selectUpload hrow
    by_cases hid : uploadId = id
    · subst hid
      exact h.counted hreach hindex hlookup (checkChunk_ok hcheck) hstored hbump
    · refine h.same hreach (fun _ hx => .inr hx) (hasChunk_put_ne hid) ?_ rfl ?_
        fun _ hresponse => by cases hresponse
      · exact (Table.lookup_insert_eq _ _ _ _).trans (if_neg (Ne.symm hid))
      · rintro userId' header' body' j hcall - -
        cases hcall
        exact absurd rfl hid
  | @overflowed i row hindex hrow hcheck hstored hbump =>
    obtain ⟨hlookup, -⟩ := lookup_of_selectUpload hrow
    have hid : uploadId ≠ id := by
      rintro rfl
      exact h.exists_bump hlookup (checkChunk_ok hcheck) hstored hbump
    exact h.same hreach (fun _ hx => .inr hx) (hasChunk_put_ne hid) rfl rfl
      (fun _ _ _ _ _ _ hresponse => by cases hresponse) fun _ hresponse => by cases hresponse

/-- `upload_complete`. -/
theorem Accounted.complete (h : Accounted id history w) {d : ℕ} {userId uploadId : Uuid} :
    Accounted id (history ++ [((d, .complete userId uploadId),
      (uploadComplete w userId uploadId).2)]) (uploadComplete w userId uploadId).1 := by
  have hreach : ReachableWorld (uploadComplete w userId uploadId).1 :=
    h.reachable.uploadComplete userId uploadId
  have hcase := uploadComplete_cases w userId uploadId
  generalize uploadComplete w userId uploadId = result at hreach hcase ⊢
  cases hcase with
  | rejected =>
    exact h.same hreach (fun _ hx => .inr hx) (fun _ => .rfl) rfl rfl
      (fun _ _ _ _ hcall => by cases hcall) fun _ hresponse => by cases hresponse
  | @completed row hrow hall hnew =>
    by_cases hid : uploadId = id
    · subst hid
      refine ⟨hreach, fun x hx => h.issued_append hx, fun i => ?_, fun row₁ hrow₁ => ?_,
        fun _ => .inl ?_⟩
      · rw [accepted_concat, ← h.stored]
        exact ⟨.inl, fun hi => hi.elim (fun hi => hi) fun hi => by cases hi.1⟩
      · rw [Table.lookup_erase_eq, if_pos rfl] at hrow₁
        cases hrow₁
      · exact ⟨_, List.mem_append_right _ (List.mem_singleton_self _)⟩
    · refine h.same hreach (fun _ hx => .inr hx) (fun _ => .rfl) ?_ ?_
        (fun _ _ _ _ hcall => by cases hcall) fun _ hresponse => by cases hresponse
      · exact (Table.lookup_erase_eq _ _ _).trans (if_neg (Ne.symm hid))
      · exact (Table.lookup_insert_eq _ _ _ _).trans (if_neg (Ne.symm hid))

theorem Accounted.handle (h : Accounted id history w)
    (hfresh : ∀ newId, c.2.newId? = some newId → newId ∉ newIds (history.map Prod.fst)) :
    Accounted id (history ++ [(c, (handle w c).2)]) (handle w c).1 := by
  obtain ⟨d, call⟩ := c
  have h := h.wait d
  cases call with
  | init userId req newId => exact h.init (hfresh newId rfl)
  | chunk => exact h.chunk
  | complete => exact h.complete

/-! ## Runs -/

/-- The server after the requests. -/
abbrev worldAfter (calls : List (ℕ × UploadCall)) : World := stateAfter handle World.empty calls

/-- What has been asked and answered. -/
abbrev uploadHistory (calls : List (ℕ × UploadCall)) : History := trace handle World.empty calls

variable {calls : List (ℕ × UploadCall)}

theorem accounted_run (hfresh : (newIds calls).Nodup) (id : Uuid) :
    Accounted id (uploadHistory calls) (worldAfter calls) := by
  refine history_invariant (Accounted id)
    (fun before e => ∀ newId, e.1.2.newId? = some newId → newId ∉ newIds (before.map Prod.fst))
    (accounted_empty id) (fun before w c h hok => h.handle hok) ?_
  intro before e rest hsplit newId hnew hmem
  obtain ⟨-, -, hcalls⟩ := trace_split hsplit
  rw [hcalls, newIds_append] at hfresh
  have hlater : newId ∈ newIds (e.1 :: rest.map Prod.fst) :=
    List.mem_filterMap.mpr ⟨e.1, List.mem_cons_self, hnew⟩
  exact List.disjoint_of_nodup_append hfresh hmem hlater

theorem ncard_hasChunk {n : ℤ} (hn : n < 2 ^ 31)
    (hrange : ∀ i, HasChunk w id i → (i.toNat : ℤ) < n) :
    {i | HasChunk w id i}.ncard = (storedChunks w id n).card := by
  have himage : UInt32.toNat '' {i | HasChunk w id i} = ↑(storedChunks w id n) := by
    ext k
    rw [Finset.mem_coe, mem_storedChunks]
    constructor
    · rintro ⟨i, hi, rfl⟩
      exact ⟨hrange i hi, by rwa [UInt32.ofNat_toNat]⟩
    · rintro ⟨hk, hchunk⟩
      exact ⟨.ofNat k, hchunk, toNat_ofNat_index (by omega)⟩
  rw [← Set.ncard_coe_finset, ← himage,
    Set.ncard_image_of_injective _ fun i j h => UInt32.toNat_inj.mp h]

/-- What `upload_complete` needs of an open upload. -/
theorem uploadComplete_iff {row : UploadRow} (hrow : w.uploads.lookup id = some row)
    (hnew : w.files.lookup id = none) : (uploadComplete w row.userId id).2 = .completed id ↔
      row.totalChunks ≤ row.chunksReceived := by
  have hinsert : Table.insertNew id (promote row.userId row w.now) w.files =
      some (w.files.insert id (promote row.userId row w.now)) :=
    if_neg (AList.lookup_eq_none.mp hnew)
  simp only [uploadComplete, selectUpload_of_lookup hrow rfl, hinsert]
  split_ifs with hmissing
  · exact iff_of_false (by simp) (not_le.mpr hmissing)
  · exact iff_of_true rfl (not_lt.mp hmissing)

/-- Exact accounting, for every sequence of requests of any users. `upload_complete` may
    arrive at any later time `d`. -/
theorem exact_accounting (hfresh : (newIds calls).Nodup) (id : Uuid) :
    (∀ row, (worldAfter calls).uploads.lookup id = some row →
      row.chunksReceived = {i | HasChunk (worldAfter calls) id i}.ncard ∧
      row.chunksReceived ≤ row.totalChunks ∧
      ∀ d, (handle (worldAfter calls) (d, .complete row.userId id)).2 = .completed id ↔
        ∀ i : UInt32, (i.toNat : ℤ) < row.totalChunks → Accepted (uploadHistory calls) id i) ∧
    (Opened (uploadHistory calls) id → ¬ Completed (uploadHistory calls) id →
      ∃ row, (worldAfter calls).uploads.lookup id = some row) := by
  have h := accounted_run hfresh id
  refine ⟨fun row hrow => ?_, fun hopen hnot => (h.opened hopen).resolve_left hnot⟩
  obtain ⟨hnew, hcount, hrange⟩ := h.row row hrow
  have hle := card_storedChunks_le (worldAfter calls) id row.totalChunks
  have hpos := row.total_pos
  refine ⟨?_, by omega, fun d => ?_⟩
  · rw [ncard_hasChunk row.total_lt hrange, hcount]
  · have hcomplete : (handle (worldAfter calls) (d, .complete row.userId id)).2 = .completed id ↔
        row.totalChunks ≤ row.chunksReceived :=
      uploadComplete_iff (w := { worldAfter calls with now := (worldAfter calls).now + d }) hrow hnew
    rw [hcomplete]
    constructor
    · intro hall i hi
      exact (h.stored i).mp (hasChunk_of_card (by omega) hi)
    · intro hall
      have hsubset : Finset.range row.totalChunks.toNat ⊆
          storedChunks (worldAfter calls) id row.totalChunks := by
        intro k hk
        rw [Finset.mem_range, Int.lt_toNat] at hk
        have hlt := row.total_lt
        have hindex : (UInt32.ofNat k).toNat = k := toNat_ofNat_index (by omega)
        exact mem_storedChunks.mpr ⟨hk, (h.stored _).mpr (hall _ (by rwa [hindex]))⟩
      have hcard := Finset.card_le_card hsubset
      rw [Finset.card_range] at hcard
      omega

/-- The only chunk of an upload arrives twice. -/
def runCalls : List (ℕ × UploadCall) :=
  [(0, .init runUser
      { totalChunks := 1, sizeBytes := 1, encryptedKeyEnvelope := "", contentHash := ""
        encryptedName := "" } runId),
    (0, .chunk runUser runId (some [48]) [1]), (5, .chunk runUser runId (some [48]) [2])]

theorem exact_accounting_run : ∃ row, (worldAfter runCalls).uploads.lookup runId = some row ∧
    row.chunksReceived = {i | HasChunk (worldAfter runCalls) runId i}.ncard ∧
    row.chunksReceived ≤ row.totalChunks := by
  have hfresh : (newIds runCalls).Nodup := by decide
  obtain ⟨row, hrow⟩ := Option.isSome_iff_exists.mp (show
    ((worldAfter runCalls).uploads.lookup runId).isSome = true by decide +kernel)
  obtain ⟨hcount, hle, -⟩ := (exact_accounting hfresh runId).1 row hrow
  exact ⟨row, hrow, hcount, hle⟩

end FreeBox.Server
