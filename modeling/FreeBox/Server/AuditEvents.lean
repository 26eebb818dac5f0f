import FreeBox.Lib.Paging
import FreeBox.Lib.Table
import FreeBox.Lib.Uuid
import FreeBox.Server.Error

/-!
# The audit log for administrators

Model of `list_account_audit_events_admin` in `apps/server/src/api/oauth.rs`. Limits and
offsets are `i64`; their sum wraps around, as in a release build. The `details` of an event are
any JSON value.

Results:
* `nextOffset_toInt`: the sum does not overflow, because it is formed only when a full page lies
  before it.
* `listAccountAuditEventsAdmin_of_hasNul`: a filter with U+0000 is answered with 500.
* `audit_walk`: with other filters, following `next_offset` from 0 on ends, and gives the
  matching events in order, each once.
-/

namespace FreeBox.Server

open FreeBox.Lib

variable {J : Type}

/-- A row of `account_audit_events` without its key `id`. -/
structure AuditEventRow (J : Type) where
  userId : Uuid
  eventType : String
  source : String
  provider : Option String
  providerUserId : Option String
  details : J
  createdAt : ℤ

/-- `oauth::ListAdminAuditEventsQuery`. -/
structure ListAdminAuditEventsQuery where
  limit : Option Int64
  offset : Option Int64
  userId : Option Uuid
  eventType : Option String
  source : Option String
  provider : Option String

/-- `oauth::AdminAccountAuditEvent`. -/
structure AdminAccountAuditEvent (J : Type) where
  id : Uuid
  userId : Uuid
  eventType : String
  source : String
  provider : Option String
  providerUserId : Option String
  details : J
  createdAt : ℤ

/-- `oauth::ListAdminAuditEventsResponse`. -/
structure ListAdminAuditEventsResponse (J : Type) where
  events : List (AdminAccountAuditEvent J)
  limit : Int64
  offset : Int64
  nextOffset : Option Int64

/-! ## The query -/

/-- `Ord::clamp`. -/
def clamp (lo hi x : Int64) : Int64 := if x < lo then lo else if hi < x then hi else x

/-- `query.limit.unwrap_or(100).clamp(1, 200)`. -/
def ListAdminAuditEventsQuery.clampedLimit (query : ListAdminAuditEventsQuery) : Int64 :=
  clamp 1 200 (query.limit.getD 100)

/-- `query.offset.unwrap_or(0).max(0)`. -/
def ListAdminAuditEventsQuery.clampedOffset (query : ListAdminAuditEventsQuery) : Int64 :=
  max (query.offset.getD 0) 0

/-- The `WHERE` clause. A row without a provider is not equal to any. -/
def ListAdminAuditEventsQuery.admits (query : ListAdminAuditEventsQuery) (row : AuditEventRow J) :
    Bool :=
  query.userId.all (row.userId = ·) ∧ query.eventType.all (row.eventType = ·) ∧
    query.source.all (row.source = ·) ∧ query.provider.all (row.provider = some ·)

/-- The sort key of `ORDER BY created_at DESC`. The order of events with the same time is
    fixed by `rank`. -/
def newestFirst (rank : Uuid → ℕ) (e : Uuid × AuditEventRow J) : ℤᵒᵈ ×ₗ ℕ ×ₗ ℕ :=
  toLex (OrderDual.toDual e.2.createdAt, toLex (rank e.1, e.1.value.toNat))

/-- The rows before `LIMIT`. -/
def matchingEvents (rank : Uuid → ℕ) (table : Table Uuid (AuditEventRow J))
    (query : ListAdminAuditEventsQuery) : List (Uuid × AuditEventRow J) :=
  Table.orderBy (newestFirst rank) (fun _ row => query.admits row) table

def auditEvent (e : Uuid × AuditEventRow J) : AdminAccountAuditEvent J where
  id := e.1
  userId := e.2.userId
  eventType := e.2.eventType
  source := e.2.source
  provider := e.2.provider
  providerUserId := e.2.providerUserId
  details := e.2.details
  createdAt := e.2.createdAt

/-- A filter that PostgreSQL refuses. -/
def ListAdminAuditEventsQuery.hasNul (query : ListAdminAuditEventsQuery) : Bool :=
  query.eventType.any Lib.hasNul || query.source.any Lib.hasNul || query.provider.any Lib.hasNul

/-- `oauth::is_admin_user`. -/
def isAdminUser (adminUserIds : List Uuid) (userId : Uuid) : Bool := adminUserIds.contains userId

section Handler

variable (adminUserIds : List Uuid) (rank : Uuid → ℕ) (table : Table Uuid (AuditEventRow J))
  (sub : Uuid) (query : ListAdminAuditEventsQuery)

/-- The answer to a query that PostgreSQL does not refuse. -/
def auditAnswer : ListAdminAuditEventsResponse J :=
  let limit := query.clampedLimit
  let offset := query.clampedOffset
  let rows := ((matchingEvents rank table query).drop offset.toInt.toNat).take limit.toInt.toNat
  let events := rows.map auditEvent
  let nextOffset := if events.length = limit.toInt.toNat then some (offset + limit) else none
  { events, limit, offset, nextOffset }

/-- `oauth::list_account_audit_events_admin`; `sub` is the user of the access token. -/
def listAccountAuditEventsAdmin : Except AppError (ListAdminAuditEventsResponse J) :=
  if isAdminUser adminUserIds sub then
    if query.hasNul then .error .internal else .ok (auditAnswer rank table query)
  else .error (.forbidden "admin privileges required for account audit event access")

/-- All pages from an offset on, for a client that follows `next_offset`. There are none when
    a request is refused. -/
def walkAuditEvents : (fuel : ℕ) → (offset : Int64) → Option (List (AdminAccountAuditEvent J))
  | 0, _ => none
  | fuel + 1, offset =>
    match listAccountAuditEventsAdmin adminUserIds rank table sub
        { query with offset := some offset } with
    | .error _ => none
    | .ok answer =>
      match answer.nextOffset with
      | none => some answer.events
      | some next => (walkAuditEvents fuel next).map (answer.events ++ ·)

end Handler

/-! ## Limits and offsets -/

variable {query : ListAdminAuditEventsQuery} {adminUserIds : List Uuid} {rank : Uuid → ℕ}
  {table : Table Uuid (AuditEventRow J)} {sub : Uuid}

theorem clampedLimit_bounds (query : ListAdminAuditEventsQuery) :
    1 ≤ query.clampedLimit.toInt ∧ query.clampedLimit.toInt ≤ 200 := by
  have h1 : (1 : Int64).toInt = 1 := rfl
  have h200 : (200 : Int64).toInt = 200 := rfl
  unfold ListAdminAuditEventsQuery.clampedLimit clamp
  split_ifs with hlow hhigh
  · omega
  · omega
  · rw [Int64.lt_iff_toInt_lt] at hlow hhigh
    omega

theorem toInt_max_zero (x : Int64) : (max x 0).toInt = max x.toInt 0 := by
  have h0 : (0 : Int64).toInt = 0 := rfl
  show (if x ≤ 0 then 0 else x : Int64).toInt = max x.toInt 0
  split_ifs with hle <;> rw [Int64.le_iff_toInt_le, h0] at hle
  · rw [max_eq_right hle]
    rfl
  · rw [max_eq_left (by omega)]

theorem clampedOffset_nonneg (query : ListAdminAuditEventsQuery) :
    0 ≤ query.clampedOffset.toInt := by
  unfold ListAdminAuditEventsQuery.clampedOffset
  rw [toInt_max_zero]
  exact le_max_right _ _

theorem toInt_add_of_lt {a b : Int64} (ha : 0 ≤ a.toInt) (hb : 0 ≤ b.toInt)
    (h : a.toInt + b.toInt < 2 ^ 63) : (a + b).toInt = a.toInt + b.toInt := by
  rw [Int64.toInt_add, Int.bmod_eq_of_le] <;> omega

/-- The number of rows of a full page. -/
def auditPageSize (query : ListAdminAuditEventsQuery) : ℕ := query.clampedLimit.toInt.toNat

theorem auditPageSize_pos (query : ListAdminAuditEventsQuery) : 0 < auditPageSize query := by
  have h := clampedLimit_bounds query
  unfold auditPageSize
  omega

theorem toInt_clampedLimit (query : ListAdminAuditEventsQuery) :
    query.clampedLimit.toInt = auditPageSize query := by
  have h := clampedLimit_bounds query
  exact (Int.toNat_of_nonneg (by omega)).symm

/-- A full page at `offset` has all rows before its end, and they are at most those of the
    table. -/
theorem end_le_of_full {α : Type*} {rows : List α} {offset n : ℕ} (hn : 0 < n)
    (hfull : ((rows.drop offset).take n).length = n) : offset + n ≤ rows.length := by
  rw [List.length_take, List.length_drop] at hfull
  omega

theorem length_matchingEvents_le (rank : Uuid → ℕ) (table : Table Uuid (AuditEventRow J))
    (query : ListAdminAuditEventsQuery) :
    (matchingEvents rank table query).length ≤ table.entries.length := by
  rw [matchingEvents, Table.length_orderBy]
  exact List.countP_le_length

/-! ## One answer -/

theorem listAccountAuditEventsAdmin_of_hasNul (hadmin : isAdminUser adminUserIds sub = true)
    (hnul : query.hasNul = true) :
    listAccountAuditEventsAdmin adminUserIds rank table sub query = .error .internal := by
  rw [listAccountAuditEventsAdmin, if_pos hadmin, if_pos hnul]

theorem auditAnswer_nextOffset (rank : Uuid → ℕ) (table : Table Uuid (AuditEventRow J))
    (query : ListAdminAuditEventsQuery) : (auditAnswer rank table query).nextOffset =
      if (auditAnswer rank table query).events.length = auditPageSize query then
        some (query.clampedOffset + query.clampedLimit) else none := rfl

theorem listAccountAuditEventsAdmin_eq_ok {answer : ListAdminAuditEventsResponse J}
    (h : listAccountAuditEventsAdmin adminUserIds rank table sub query = .ok answer) :
    answer = auditAnswer rank table query := by
  unfold listAccountAuditEventsAdmin at h
  split_ifs at h
  exact (Except.ok.inj h).symm

/-- The sum of offset and limit is formed for a full page only, and then it is at most the
    number of rows. -/
theorem nextOffset_toInt (hsize : table.entries.length < 2 ^ 63) {next : Int64}
    (hnext : (auditAnswer rank table query).nextOffset = some next) :
    next.toInt = query.clampedOffset.toInt + query.clampedLimit.toInt := by
  rw [auditAnswer_nextOffset] at hnext
  split_ifs at hnext with hfull
  rw [auditAnswer, List.length_map] at hfull
  have hend := end_le_of_full (auditPageSize_pos query) hfull
  have hlength := length_matchingEvents_le rank table query
  have hnonneg := clampedOffset_nonneg query
  have hlimit := toInt_clampedLimit query
  rw [← Option.some.inj hnext]
  refine toInt_add_of_lt hnonneg (by omega) (by omega)

/-! ## The walk -/

theorem clampedOffset_ofNat {m : ℕ} (hm : m < 2 ^ 63) (query : ListAdminAuditEventsQuery) :
    ListAdminAuditEventsQuery.clampedOffset { query with offset := some (.ofNat m) } =
      Int64.ofNat m := by
  have hvalue : (Int64.ofNat m).toInt = m := Int64.toInt_ofNat_of_lt hm
  apply Int64.toInt_inj.mp
  unfold ListAdminAuditEventsQuery.clampedOffset
  rw [toInt_max_zero, Option.getD_some, hvalue]
  exact max_eq_left (Int.natCast_nonneg m)

theorem ofNat_add_clampedLimit {m : ℕ} (query : ListAdminAuditEventsQuery)
    (h : m + auditPageSize query < 2 ^ 63) :
    Int64.ofNat m + query.clampedLimit = Int64.ofNat (m + auditPageSize query) := by
  have hm : (Int64.ofNat m).toInt = m := Int64.toInt_ofNat_of_lt (by omega)
  have hlimit := toInt_clampedLimit query
  apply Int64.toInt_inj.mp
  rw [toInt_add_of_lt (by omega) (by omega) (by omega), Int64.toInt_ofNat_of_lt h, hm, hlimit,
    Int.natCast_add]

/-- The page and the next offset of one answer. -/
def auditPage (rank : Uuid → ℕ) (table : Table Uuid (AuditEventRow J))
    (query : ListAdminAuditEventsQuery) (offset : Int64) :
    List (AdminAccountAuditEvent J) × Option Int64 :=
  let answer := auditAnswer rank table { query with offset := some offset }
  (answer.events, answer.nextOffset)

/-- A client whose requests are answered walks through the pages. -/
theorem walkAuditEvents_eq_walk (hadmin : isAdminUser adminUserIds sub = true)
    (hnul : query.hasNul = false) (fuel : ℕ) : ∀ k offset,
    walkAuditEvents adminUserIds rank table sub query fuel offset =
      walk (fun _ => auditPage rank table query) fuel k offset := by
  have hanswer : ∀ offset, listAccountAuditEventsAdmin adminUserIds rank table sub
      { query with offset := some offset } =
        .ok (auditAnswer rank table { query with offset := some offset }) := by
    intro offset
    have hnul' : ListAdminAuditEventsQuery.hasNul { query with offset := some offset } = false :=
      hnul
    rw [listAccountAuditEventsAdmin, if_pos hadmin, hnul', if_neg Bool.false_ne_true]
  induction fuel with
  | zero => exact fun _ _ => rfl
  | succ fuel ih =>
    intro k offset
    rw [walkAuditEvents, hanswer, walk, auditPage]
    dsimp only
    cases (auditAnswer rank table { query with offset := some offset }).nextOffset with
    | none => rfl
    | some next => simp only [ih (k + 1) next]

theorem auditPage_eq (hsize : table.entries.length < 2 ^ 63) {k : ℕ}
    (hk : k ≤ (matchingEvents rank table query).length / auditPageSize query) :
    auditPage rank table query (.ofNat (k * auditPageSize query)) =
      ((pageAt (auditPageSize query) k (matchingEvents rank table query)).map auditEvent,
        if ((pageAt (auditPageSize query) k (matchingEvents rank table query)).map
            auditEvent).length = auditPageSize query then
          some (.ofNat ((k + 1) * auditPageSize query)) else none) := by
  have hn := auditPageSize_pos query
  have hlength := length_matchingEvents_le rank table query
  have hbefore := (Nat.le_div_iff_mul_le hn).mp hk
  have hoffset := clampedOffset_ofNat
    (show k * auditPageSize query < 2 ^ 63 by omega) query
  have hpage : (auditAnswer rank table
      { query with offset := some (.ofNat (k * auditPageSize query)) }).events =
        (pageAt (auditPageSize query) k (matchingEvents rank table query)).map auditEvent := by
    unfold auditAnswer
    dsimp only
    rw [hoffset, Int64.toInt_ofNat_of_lt (by omega), Int.toNat_natCast]
    rfl
  have hlimit : ListAdminAuditEventsQuery.clampedLimit
      { query with offset := some (.ofNat (k * auditPageSize query)) } = query.clampedLimit := rfl
  have hsame : auditPageSize { query with offset := some (.ofNat (k * auditPageSize query)) } =
      auditPageSize query := rfl
  unfold auditPage
  dsimp only
  rw [auditAnswer_nextOffset, hpage, hoffset, hlimit, hsame]
  refine congrArg (Prod.mk _) ?_
  split_ifs with hfull
  · rw [List.length_map] at hfull
    have hend := end_le_of_full hn hfull
    refine congrArg some ((ofNat_add_clampedLimit query (by omega)).trans ?_)
    rw [Nat.succ_mul]
  · rfl

theorem walkAuditEvents_eq (hadmin : isAdminUser adminUserIds sub = true)
    (hsize : table.entries.length < 2 ^ 63) (hnul : query.hasNul = false) {fuel : ℕ}
    (hfuel : (matchingEvents rank table query).length / auditPageSize query < fuel) :
    walkAuditEvents adminUserIds rank table sub query fuel 0 =
      some ((matchingEvents rank table query).map auditEvent) := by
  have hn := auditPageSize_pos query
  have hpage : ∀ k, ((pageAt (auditPageSize query) k (matchingEvents rank table query)).map
      auditEvent).length = min (auditPageSize query)
        ((matchingEvents rank table query).length - k * auditPageSize query) := by
    intro k
    rw [List.length_map, length_pageAt]
  have hwalk := walk_pages (fun k => Int64.ofNat (k * auditPageSize query)) hn
    (fun k hk => auditPage_eq hsize hk) hpage hfuel
  rw [Nat.zero_mul, ← List.map_flatMap, flatMap_pages hn] at hwalk
  exact (walkAuditEvents_eq_walk hadmin hnul fuel 0 0).trans hwalk

theorem eachOnce_matchingEvents (rank : Uuid → ℕ) (table : Table Uuid (AuditEventRow J))
    (query : ListAdminAuditEventsQuery) :
    EachOnce (((matchingEvents rank table query).map auditEvent).map AdminAccountAuditEvent.id)
      fun id => ∃ row, table.lookup id = some row ∧ query.admits row = true := by
  have hperm : (((matchingEvents rank table query).map auditEvent).map
      AdminAccountAuditEvent.id).Perm
        ((Table.selectWhere (fun _ row => query.admits row) table).map Prod.fst) := by
    rw [List.map_map]
    exact (List.perm_insertionSort _ _).map Prod.fst
  refine ⟨hperm.nodup_iff.mpr (Table.nodup_keys_selectWhere _ _), fun id => ?_⟩
  rw [hperm.mem_iff, Table.mem_keys_selectWhere]

/-- For every table that `i64` can count, every filter and every limit. `next` of the last
    part is the sum as the code computes it. -/
theorem audit_walk (rank : Uuid → ℕ) (table : Table Uuid (AuditEventRow J))
    (query : ListAdminAuditEventsQuery) (hadmin : isAdminUser adminUserIds sub = true)
    (hsize : table.entries.length < 2 ^ 63 - 200) :
    (query.hasNul = false → ∃ fuel events,
      walkAuditEvents adminUserIds rank table sub query fuel 0 = some events ∧
      events = (matchingEvents rank table query).map auditEvent ∧
      EachOnce (events.map AdminAccountAuditEvent.id) fun id =>
        ∃ row, table.lookup id = some row ∧ query.admits row = true) ∧
    (query.hasNul = true → ∀ offset, listAccountAuditEventsAdmin adminUserIds rank table sub
      { query with offset } = .error .internal) ∧
    ∀ offset answer next,
      listAccountAuditEventsAdmin adminUserIds rank table sub { query with offset } = .ok answer →
        answer.nextOffset = some next → next.toInt = answer.offset.toInt + answer.limit.toInt := by
  have hsize' : table.entries.length < 2 ^ 63 := by omega
  refine ⟨fun hnul => ⟨_, _, walkAuditEvents_eq hadmin hsize' hnul (Nat.lt_succ_self _), rfl,
    eachOnce_matchingEvents rank table query⟩,
    fun hnul offset => listAccountAuditEventsAdmin_of_hasNul hadmin hnul, ?_⟩
  intro offset answer next hanswer hnext
  obtain rfl := listAccountAuditEventsAdmin_eq_ok hanswer
  exact nextOffset_toInt hsize' hnext

/-- Two events, the one with the identifier 3 being the latest. -/
def runAudit : Table Uuid (AuditEventRow Unit) :=
  let row : AuditEventRow Unit :=
    { userId := ⟨7⟩, eventType := "account_reactivated", source := "oauth"
      provider := some "github", providerUserId := none, details := (), createdAt := 0 }
  (AList.singleton ⟨2⟩ row).insert ⟨3⟩ { row with createdAt := 1 }

/-- Pages of one event: the second page is full, and the third one is empty. -/
theorem audit_walk_two : ∃ fuel events,
    walkAuditEvents [⟨1⟩] (fun _ => 0) runAudit ⟨1⟩
        { limit := some 1, offset := none, userId := some ⟨7⟩, eventType := none, source := none
          provider := some "github" } fuel 0 = some events ∧
      events.map AdminAccountAuditEvent.id = [⟨3⟩, ⟨2⟩] := by
  obtain ⟨hwalk, -⟩ :=
    audit_walk (fun _ => 0) runAudit
      { limit := some 1, offset := none, userId := some ⟨7⟩, eventType := none, source := none
        provider := some "github" } (show isAdminUser [⟨1⟩] ⟨1⟩ = true by decide) (by decide)
  obtain ⟨fuel, events, hwalk, rfl, -⟩ := hwalk (by decide +kernel)
  exact ⟨fuel, _, hwalk, by decide +kernel⟩

/-- `event_type=%00`: the first request is refused, so no walk gives the (empty) list of the
    matching events. -/
theorem audit_walk_refused :
    let query : ListAdminAuditEventsQuery :=
      { limit := none, offset := none, userId := none, eventType := some "\x00", source := none
        provider := none }
    (matchingEvents (fun _ => 0) runAudit query).length = 0 ∧
      listAccountAuditEventsAdmin [⟨1⟩] (fun _ => 0) runAudit ⟨1⟩
        { query with offset := some 0 } = .error .internal ∧
      ∀ fuel, walkAuditEvents [⟨1⟩] (fun _ => 0) runAudit ⟨1⟩ query fuel 0 = none := by
  intro query
  have hrefused : listAccountAuditEventsAdmin [⟨1⟩] (fun _ => 0) runAudit ⟨1⟩
      { query with offset := some 0 } = .error .internal :=
    listAccountAuditEventsAdmin_of_hasNul (by decide) (by decide +kernel)
  refine ⟨by decide +kernel, hrefused, fun fuel => ?_⟩
  cases fuel with
  | zero => rfl
  | succ fuel => rw [walkAuditEvents, hrefused]

end FreeBox.Server
