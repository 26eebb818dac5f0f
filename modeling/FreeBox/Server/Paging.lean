import FreeBox.Lib.Paging
import FreeBox.Server.Trash

/-!
# Reading a whole listing

A client that reads `list_files` or `list_trash` from the first page on, with the limit that
the answers repeat, until a page has fewer files. `ORDER BY created_at DESC` leaves the order
of files with the same time open, and each page is a query of its own.

Results:
* `exists_rank`: `rank` gives every order that the database may choose.
* `walk_listing`: a walk ends, with the pages of its queries one after another.
* `walks_complete_iff`: it always gives every file exactly once when no page ends between two
  files with the same time, and only then.
* `walk_misses_file`: two files with the same time.
-/

namespace FreeBox.Server

open FreeBox.Lib

/-! ## The walk -/

/-- The offset of the next page, unless the page is not full. -/
def nextOffset (count : ℕ) (limit offset : ℤ) : Option ℤ :=
  if (count : ℤ) < limit then none else some (offset + limit)

section Walk

variable (w : ℕ → World) (userId : Uuid) (limit : Option ℤ) (rank : ℕ → Uuid → ℕ) (fuel : ℕ)

/-- All pages of `list_files`. At request `k` the server's world is `w k`, and the database
    chooses the order `rank k`. -/
def walkFiles : Option (List FileMetaResponse) :=
  walk (fun k offset =>
    let answer := listFiles (w k) userId { limit, offset := some offset } (rank k)
    (answer.files, nextOffset answer.files.length answer.limit offset)) fuel 0 0

/-- All pages of `list_trash`. -/
def walkTrash : Option (List TrashFileResponse) :=
  walk (fun k offset =>
    let answer := listTrash (w k) userId { limit, offset := some offset } (rank k)
    (answer.files, nextOffset answer.files.length answer.limit offset)) fuel 0 0

end Walk

/-! ## Orders of the database -/

section Orders

variable {column : FileRow → ℕ} {p p' : Uuid → FileRow → Bool} {t t' : Table Uuid FileRow}
  {l : List (Uuid × FileRow)}

theorem arrangement_orderBy (rank : Uuid → ℕ) (column : FileRow → ℕ) (p : Uuid → FileRow → Bool)
    (t : Table Uuid FileRow) :
    Arrangement (fun e => column e.2) (Table.selectWhere p t)
      (Table.orderBy (descending rank column) p t) where
  perm := List.perm_insertionSort _ _
  sorted := by
    refine (Table.pairwise_orderBy (descending rank column) p t).imp fun {a b} hle => ?_
    rcases Prod.Lex.toLex_le_toLex.mp hle with hlt | ⟨heq, -⟩
    · exact le_of_lt hlt
    · exact le_of_eq (OrderDual.toDual_inj.mp heq).symm

theorem arrangement_congr (hsame : ∀ id row, t.lookup id = some row ∧ p id row = true ↔
      t'.lookup id = some row ∧ p' id row = true)
    (h : Arrangement (fun e : Uuid × FileRow => column e.2) (Table.selectWhere p t) l) :
    Arrangement (fun e => column e.2) (Table.selectWhere p' t') l where
  perm := by
    refine h.perm.trans ((List.perm_ext_iff_of_nodup (Table.nodup_selectWhere p t)
      (Table.nodup_selectWhere p' t')).mpr ?_)
    intro e
    obtain ⟨id, row⟩ := e
    rw [Table.mem_selectWhere, Table.mem_selectWhere]
    exact hsame id row
  sorted := h.sorted

theorem exists_rank (h : Arrangement (fun e => column e.2) (Table.selectWhere p t) l) :
    ∃ rank, Table.orderBy (descending rank column) p t = l := by
  have hnodup : (l.map Prod.fst).Nodup :=
    (h.perm.map Prod.fst).nodup_iff.mpr (Table.nodup_keys_selectWhere p t)
  refine ⟨fun id => (l.map Prod.fst).idxOf id,
    Table.orderBy_eq_of_sorted (fun a b => descending_inj) h.perm ?_⟩
  rw [List.pairwise_iff_getElem]
  intro i j hi hj hij
  have hidx : ∀ (k : ℕ) (hk : k < l.length), (l.map Prod.fst).idxOf l[k].1 = k := by
    intro k hk
    have hget := hnodup.idxOf_getElem k (by rwa [List.length_map])
    rwa [List.getElem_map] at hget
  have hle : column l[j].2 ≤ column l[i].2 := List.pairwise_iff_getElem.mp h.sorted i j hi hj hij
  rcases lt_or_eq_of_le hle with hlt | heq
  · exact Prod.Lex.toLex_le_toLex.mpr (.inl hlt)
  · refine Prod.Lex.toLex_le_toLex.mpr (.inr ⟨congrArg OrderDual.toDual heq.symm, ?_⟩)
    refine Prod.Lex.toLex_le_toLex.mpr (.inl ?_)
    dsimp only
    rw [hidx i hi, hidx j hj]
    exact hij

end Orders

/-! ## Pages -/

/-- The limit that the answers repeat. -/
def pageSize (limit : Option ℤ) : ℕ :=
  (FileListQuery.clampedLimit { limit, offset := none }).toNat

section Pages

variable {γ : Type} {f : Uuid × FileRow → γ} {limit : Option ℤ} {l : List (Uuid × FileRow)}

theorem pageSize_pos (limit : Option ℤ) : 0 < pageSize limit := by
  have h := FileListQuery.clampedLimit_pos { limit, offset := none }
  unfold pageSize
  omega

theorem natCast_pageSize (limit offset : Option ℤ) :
    FileListQuery.clampedLimit { limit, offset } = pageSize limit :=
  (Int.toNat_of_nonneg (le_of_lt (FileListQuery.clampedLimit_pos { limit, offset }))).symm

theorem page_eq_pageAt (limit : Option ℤ) (k : ℕ) (l : List (Uuid × FileRow)) :
    FileListQuery.page { limit, offset := some ((k * pageSize limit : ℕ) : ℤ) } l =
      pageAt (pageSize limit) k l := by
  have hoffset : FileListQuery.clampedOffset
      { limit, offset := some ((k * pageSize limit : ℕ) : ℤ) } = (k * pageSize limit : ℕ) :=
    max_eq_left (Int.natCast_nonneg _)
  rw [FileListQuery.page, natCast_pageSize, hoffset, Int.toNat_natCast, Int.toNat_natCast]
  rfl

/-- A page that is not full is the last one. -/
theorem nextOffset_eq {n count : ℕ} (k : ℕ) (hle : count ≤ n) :
    nextOffset count n ((k * n : ℕ) : ℤ) =
      if count = n then some (((k + 1) * n : ℕ) : ℤ) else none := by
  unfold nextOffset
  split_ifs with hlt heq heq
  · omega
  · rfl
  · rw [Nat.succ_mul, Int.natCast_add]
  · omega

/-- One request of a walk: the page of `rows`, and the next offset. -/
def listingPage (f : Uuid × FileRow → γ) (limit : Option ℤ) (rows : List (Uuid × FileRow))
    (offset : ℤ) : List γ × Option ℤ :=
  let query : FileListQuery := { limit, offset := some offset }
  let files := (query.page rows).map f
  (files, nextOffset files.length query.clampedLimit offset)

theorem walk_listing {rows : ℕ → List (Uuid × FileRow)} {total fuel : ℕ}
    (hrows : ∀ k, (rows k).length = total) (hfuel : total / pageSize limit < fuel) :
    walk (fun k => listingPage f limit (rows k)) fuel 0 0 =
      some (((List.range (total / pageSize limit + 1)).flatMap fun k =>
        pageAt (pageSize limit) k (rows k)).map f) := by
  have hpage : ∀ k, ((pageAt (pageSize limit) k (rows k)).map f).length =
      min (pageSize limit) (total - k * pageSize limit) := by
    intro k
    rw [List.length_map, length_pageAt, hrows]
  have hrequest : ∀ k : ℕ, listingPage f limit (rows k) ((k * pageSize limit : ℕ) : ℤ) =
      ((pageAt (pageSize limit) k (rows k)).map f,
        if ((pageAt (pageSize limit) k (rows k)).map f).length = pageSize limit then
          some (((k + 1) * pageSize limit : ℕ) : ℤ) else none) := by
    intro k
    rw [listingPage, page_eq_pageAt, natCast_pageSize,
      nextOffset_eq k (by rw [hpage]; exact min_le_left _ _)]
  have hwalk := walk_pages (fun k => ((k * pageSize limit : ℕ) : ℤ)) (pageSize_pos limit)
    (fun k _ => hrequest k) hpage hfuel
  rw [Nat.zero_mul] at hwalk
  rw [List.map_flatMap]
  exact hwalk

/-- Walks over a listing in which the database may choose every order of `base` in every
    request. -/
theorem listing_complete_iff {column : FileRow → ℕ} {base : List (Uuid × FileRow)}
    (rows : ℕ → (Uuid → ℕ) → List (Uuid × FileRow)) {fileId : γ → Uuid}
    (hid : ∀ e, fileId (f e) = e.1) (hbase : (base.map Prod.fst).Nodup)
    (hrows : ∀ k rank, Arrangement (fun e => column e.2) base (rows k rank))
    (hall : ∀ k l, Arrangement (fun e => column e.2) base l → ∃ rank, rows k rank = l) :
    (∀ rank : ℕ → Uuid → ℕ, ∃ fuel files,
        walk (fun k => listingPage f limit (rows k (rank k))) fuel 0 0 = some files ∧
          EachOnce (files.map fileId) fun id => id ∈ base.map Prod.fst) ↔
      ∀ k, ¬ SplitsTie (fun e => column e.2) base (k * pageSize limit) := by
  have hids : ∀ l : List (Uuid × FileRow), (l.map f).map fileId = l.map Prod.fst := by
    intro l
    rw [List.map_map]
    exact List.map_congr_left fun e _ => hid e
  have hwalk : ∀ rank : ℕ → Uuid → ℕ, ∀ {fuel}, base.length / pageSize limit < fuel →
      walk (fun k => listingPage f limit (rows k (rank k))) fuel 0 0 =
        some (((List.range (base.length / pageSize limit + 1)).flatMap fun k =>
          pageAt (pageSize limit) k (rows k (rank k))).map f) := by
    intro rank fuel hfuel
    exact walk_listing (fun k => (hrows k (rank k)).perm.length_eq) hfuel
  constructor
  · intro h k hsplit
    obtain ⟨L, hL, hrepeat⟩ := pages_repeat (pageSize_pos limit) hsplit
    choose rank hrank using fun k => hall k (L k) (hL k)
    obtain ⟨fuel, files, hfiles, hnodup, -⟩ := h rank
    rw [walk_right_unique hfiles (hwalk rank (Nat.lt_succ_self _)), hids] at hnodup
    simp only [hrank] at hnodup
    exact hrepeat hnodup.of_map
  · intro h rank
    refine ⟨_, _, hwalk rank (Nat.lt_succ_self _), ?_⟩
    have hperm := pages_perm (pageSize_pos limit) h fun k => hrows k (rank k)
    rw [hids]
    refine ⟨(hperm.map Prod.fst).nodup_iff.mpr hbase, fun id => ?_⟩
    exact (hperm.map Prod.fst).mem_iff

end Pages

/-! ## The two listings -/

/-- The rows with `p` are the same at every request. -/
def Steady (p : ℕ → FileRow → Bool) (w : ℕ → World) : Prop :=
  ∀ k id row, (w k).files.lookup id = some row ∧ p k row = true ↔
    (w 0).files.lookup id = some row ∧ p 0 row = true

/-- Some page ends between two rows with the same time in `column`. -/
def PageSplitsTie (column : FileRow → ℕ) (p : FileRow → Bool) (w : World) (limit : Option ℤ) :
    Prop :=
  ∃ k, SplitsTie (fun e => column e.2) (Table.selectWhere (fun _ => p) w.files)
    (k * pageSize limit)

theorem table_complete_iff {γ : Type} {f : Uuid × FileRow → γ} {fileId : γ → Uuid}
    {p : ℕ → FileRow → Bool} {w : ℕ → World} {limit : Option ℤ} (column : FileRow → ℕ)
    (hid : ∀ e, fileId (f e) = e.1) (hsteady : Steady p w) :
    (∀ rank : ℕ → Uuid → ℕ, ∃ fuel files,
        walk (fun k => listingPage f limit
          (Table.orderBy (descending (rank k) column) (fun _ => p k) (w k).files)) fuel 0 0 =
            some files ∧
          EachOnce (files.map fileId) fun id =>
            ∃ row, (w 0).files.lookup id = some row ∧ p 0 row = true) ↔
      ¬ PageSplitsTie column (p 0) (w 0) limit := by
  have hmem : (fun id => ∃ row, (w 0).files.lookup id = some row ∧ p 0 row = true) =
      fun id => id ∈ (Table.selectWhere (fun _ => p 0) (w 0).files).map Prod.fst := by
    funext id
    exact propext (Table.mem_keys_selectWhere (p := fun _ => p 0)).symm
  rw [hmem, PageSplitsTie, not_exists]
  refine listing_complete_iff
    (fun k rank => Table.orderBy (descending rank column) (fun _ => p k) (w k).files)
    hid (Table.nodup_keys_selectWhere _ _) (fun k rank => ?_) (fun k l hl => ?_)
  · exact arrangement_congr (hsteady k) (arrangement_orderBy rank column _ _)
  · exact exists_rank (arrangement_congr (fun id row => (hsteady k id row).symm) hl)

/-- For a user, a limit and the worlds at the requests, in which the files that are listed do
    not change. -/
theorem walks_complete_iff (w : ℕ → World) (userId : Uuid) (limit : Option ℤ) :
    (Steady (fun _ => FileRow.active userId) w →
      ((∀ rank, ∃ fuel files, walkFiles w userId limit rank fuel = some files ∧
          EachOnce (files.map FileMetaResponse.fileId) fun id =>
            ∃ row, (w 0).files.lookup id = some row ∧ row.active userId = true) ↔
        ¬ PageSplitsTie FileRow.createdAt (FileRow.active userId) (w 0) limit)) ∧
    (Steady (fun k => FileRow.trashed userId (w k).now) w →
      ((∀ rank, ∃ fuel files, walkTrash w userId limit rank fuel = some files ∧
          EachOnce (files.map TrashFileResponse.fileId) fun id =>
            ∃ row, (w 0).files.lookup id = some row ∧ row.trashed userId (w 0).now = true) ↔
        ¬ PageSplitsTie (fun row => row.deletedAt.getD 0) (FileRow.trashed userId (w 0).now) (w 0)
          limit)) := by
  constructor
  · intro h
    exact table_complete_iff FileRow.createdAt (fun _ => rfl) h
  · intro h
    exact table_complete_iff (fun row => row.deletedAt.getD 0) (fun _ => rfl) h

theorem one_lt_total : (1 : ℤ) < 2 ^ 31 := by norm_num

/-- Two files created at the times `0` and `created`, and two deleted at the times `0` and
    `deleted`. -/
def runFiles (created deleted : ℕ) : World :=
  let row : FileRow :=
    { userId := ⟨1⟩, totalChunks := 1, sizeBytes := 1, encryptedKeyEnvelope := "key",
      contentHash := "hash", encryptedName := "name", createdAt := 0, deletedAt := none,
      total_pos := Int.one_pos, total_lt := one_lt_total, size_nonneg := Int.one_nonneg }
  { World.empty with
    files := (((AList.singleton ⟨2⟩ row).insert ⟨3⟩ { row with createdAt := created }).insert ⟨4⟩
      { row with deletedAt := some 0 }).insert ⟨5⟩ { row with deletedAt := some deleted } }

/-- Pages of one file, of files with different times. -/
theorem walks_complete_one :
    (∀ rank, ∃ fuel files, walkFiles (fun _ => runFiles 1 1) ⟨1⟩ (some 1) rank fuel = some files ∧
      EachOnce (files.map FileMetaResponse.fileId) fun id =>
        ∃ row, (runFiles 1 1).files.lookup id = some row ∧ row.active ⟨1⟩ = true) ∧
    ∀ rank, ∃ fuel files, walkTrash (fun _ => runFiles 1 1) ⟨1⟩ (some 1) rank fuel = some files ∧
      EachOnce (files.map TrashFileResponse.fileId) fun id =>
        ∃ row, (runFiles 1 1).files.lookup id = some row ∧
          row.trashed ⟨1⟩ (runFiles 1 1).now = true := by
  obtain ⟨hactive, htrash⟩ := walks_complete_iff (fun _ => runFiles 1 1) ⟨1⟩ (some 1)
  constructor
  · exact (hactive fun _ _ _ => Iff.rfl).mpr fun ⟨k, hk⟩ =>
      not_splitsTie_of_nodup (by decide +kernel) hk
  · exact (htrash fun _ _ _ => Iff.rfl).mpr fun ⟨k, hk⟩ =>
      not_splitsTie_of_nodup (by decide +kernel) hk

/-- Two files created at the same time, and two deleted at the same time. -/
def runTies : World := runFiles 0 0

/-- The database turns the order of the two files around after the first request, and the
    second file is on no page. -/
theorem walk_misses_file :
    let rank : ℕ → Uuid → ℕ := fun k id => if k = 0 then id.value.toNat else 9 - id.value.toNat
    (walkFiles (fun _ => runTies) ⟨1⟩ (some 1) rank 3).map (·.map FileMetaResponse.fileId) =
        some [⟨2⟩, ⟨2⟩] ∧
      (walkTrash (fun _ => runTies) ⟨1⟩ (some 1) rank 3).map (·.map TrashFileResponse.fileId) =
        some [⟨4⟩, ⟨4⟩] ∧
      (runTies.files.lookup ⟨3⟩).any (FileRow.active ⟨1⟩) = true ∧
      (runTies.files.lookup ⟨5⟩).any (FileRow.trashed ⟨1⟩ runTies.now) = true := by
  decide +kernel

end FreeBox.Server
