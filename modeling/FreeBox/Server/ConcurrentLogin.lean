import FreeBox.Lib.Interleaving
import FreeBox.Server.Transactions

/-!
# Concurrent logins

`find_or_create_user` in `apps/server/src/api/oauth.rs`, statement by statement.
Any number of logins run concurrently, each in a transaction under READ COMMITTED;
any statement may fail, and a transaction may be ended by the database at any time.

Results:
* `advance_cases`: everything that one statement can do.
* `CallCase.links`, `CallCase.opened`: no identity loses its user, and no login touches the
  transaction of another.
-/

namespace FreeBox.Server.OAuth.Concurrent

open FreeBox.Lib Handlers

/-- A call of `find_or_create_user`, with what it draws. -/
structure Login where
  provider : String
  profile : OAuthUserProfile
  draws : Draws
  deriving DecidableEq

/-- `(provider, provider_user_id)`. -/
def Login.identity (c : Login) : String × String := (c.provider, c.profile.providerUserId)

/-- The number of a transaction, and `NOW()` in it. -/
structure Tx where
  id : ℕ
  began : Timestamp

/-- The two matches of an existing user. -/
inductive Matched
  | identity
  | email

def Matched.reason : Matched → String
  | .identity => "oauth_identity_match"
  | .email => "oauth_email_match"

/-- A login at its next statement. -/
inductive Job
  | begin (c : Login)
  /-- `SELECT … FROM oauth_accounts oa JOIN users u …`. -/
  | linkSelect (tx : Tx) (c : Login)
  /-- `SELECT … FROM users WHERE email = $1`. -/
  | emailSelect (tx : Tx) (c : Login)
  /-- `UPDATE users SET deleted_at = NULL WHERE id = $1`. -/
  | restore (tx : Tx) (c : Login) (m : Matched) (userId : Uuid) (username : String)
      (deletedAt : Timestamp)
  /-- `write_reactivation_audit_event`. -/
  | audit (tx : Tx) (c : Login) (m : Matched) (userId : Uuid) (username : String)
      (deletedAt : Timestamp)
  /-- `UPDATE oauth_accounts …`. -/
  | refresh (tx : Tx) (c : Login) (userId : Uuid) (username : String)
  /-- `INSERT INTO users … ON CONFLICT (email) DO UPDATE …`. -/
  | upsert (tx : Tx) (c : Login)
  /-- `INSERT INTO oauth_accounts … ON CONFLICT … DO NOTHING`. -/
  | link (tx : Tx) (c : Login) (userId : Uuid) (username : String)
  | commit (tx : Tx) (c : Login) (userId : Uuid) (username : String)
  /-- `tx.rollback().await.ok()`. -/
  | giveUp (tx : Tx) (c : Login)
  /-- `fetch_linked_oauth_user`. -/
  | fetch (c : Login)
  /-- The transaction is dropped on the way out with an error. -/
  | drop (tx : Tx) (c : Login) (e : AppError)

structure Answer where
  login : Login
  result : Except AppError (Uuid × String)

structure World where
  now : Timestamp
  store : Store Db Write

inductive Event
  | tick (d : ℕ)
  /-- The database ends a transaction. -/
  | abort (tx : ℕ)

/-- The next statement after a matched user has been taken. -/
def Matched.next (m : Matched) (tx : Tx) (c : Login) (userId : Uuid) (username : String) : Job :=
  match m with
  | .identity => .refresh tx c userId username
  | .email => .link tx c userId username

/-- The branch `if let Some(row)` of a match. -/
def take (maxDays : UInt32) (w : World) (tx : Tx) (c : Login) (m : Matched) (userId : Uuid)
    (user : UserRow) : Job :=
  match user.deletedAt with
  | none => m.next tx c userId user.username
  | some deletedAt =>
    match ensureReactivationAllowed maxDays w.now deletedAt with
    | .error e => .drop tx c e
    | .ok () => .restore tx c m userId user.username deletedAt

/-- A statement that reads. An aborted transaction fails. -/
def reading (w : World) (tx : Tx) (c : Login) (k : Db → Job) : Option (World × Next Job Answer) :=
  match writes.view w.store tx.id with
  | none => some (w, .goto (.drop tx c .internal))
  | some db => some (w, .goto (k db))

/-- A statement that writes, and goes on at `job`. -/
def writing (w : World) (tx : Tx) (c : Login) (write : Write) (e : AppError) (job : Job) :
    Option (World × Next Job Answer) :=
  match writes.write w.store tx.id write with
  | .waits => none
  | .violates => some (w, .goto (.drop tx c e))
  | .done store => some ({ w with store }, .goto job)

/-- The next statement succeeds, or is refused by the database. There is none while it
    waits. With `pick = 0` the answer to `COMMIT` arrives, else it is lost. -/
def advance (maxDays : UInt32) (w : World) (pick : ℕ) : Job → Option (World × Next Job Answer)
  | .begin c =>
    some ({ w with store := w.store.begin }, .goto (.linkSelect ⟨w.store.next, w.now⟩ c))
  | .linkSelect tx c =>
    reading w tx c fun db =>
      match db.linkedUser c.provider c.profile.providerUserId with
      | some (userId, user) => take maxDays w tx c .identity userId user
      | none => if c.profile.email.isSome then .emailSelect tx c else .upsert tx c
  | .emailSelect tx c =>
    reading w tx c fun db =>
      match c.profile.email.bind db.users.byEmail with
      | some (userId, user) => take maxDays w tx c .email userId user
      | none => .upsert tx c
  | .restore tx c m userId username deletedAt =>
    writing w tx c (.restoreUser userId) .internal (.audit tx c m userId username deletedAt)
  | .audit tx c m userId username deletedAt =>
    let event :=
      { userId
        eventType := "account_reactivated"
        source := "oauth"
        provider := c.provider
        providerUserId := c.profile.providerUserId
        details := { reason := m.reason, deletedAt }
        createdAt := tx.began }
    writing w tx c (.logEvent event) .internal (m.next tx c userId username)
  | .refresh tx c userId username =>
    writing w tx c (.refreshAccount c.identity c.profile.email c.profile.username c.profile.avatarUrl
      tx.began) .internal (.commit tx c userId username)
  | .upsert tx c =>
    let row := newUser c.provider c.profile c.draws tx.began
    match writes.view w.store tx.id with
    | none => some (w, .goto (.drop tx c .internal))
    | some db =>
      -- another login may have inserted the address, and may still roll back
      if w.store.othersWrote tx.id (Write.insertsEmail row.email) then none
      else
        match db.users.byEmail row.email with
        | some (userId, user) =>
          writing w tx c (.restoreUser userId) .internal (.link tx c userId user.username)
        | none =>
          writing w tx c (.insertUser c.draws.userId row)
            (.conflict "an account with this username or email already exists")
            (.link tx c c.draws.userId row.username)
  | .link tx c userId username =>
    match writes.view w.store tx.id with
    | none => some (w, .goto (.drop tx c .internal))
    | some db =>
      if c.identity ∈ db.accounts then some (w, .goto (.giveUp tx c))
      else
        writing w tx c (.insertAccount c.identity (newAccount c.profile userId tx.began)) .internal
          (.commit tx c userId username)
  | .commit tx c userId username =>
    match writes.commit w.store tx.id with
    | none => some (w, .goto (.drop tx c .internal))
    | some store =>
      let result := if pick = 0 then .ok (userId, username) else .error .internal
      some ({ w with store }, .done (some ⟨c, result⟩))
  | .giveUp tx c => some ({ w with store := w.store.rollback tx.id }, .goto (.fetch c))
  | .fetch c =>
    let result := fetchLinkedOAuthUser c.provider c.profile.providerUserId w.store.committed
    some (w, .done (some ⟨c, result⟩))
  | .drop tx c e =>
    some ({ w with store := w.store.rollback tx.id }, .done (some ⟨c, .error e⟩))

/-- The next statement fails. -/
def onFail : Job → Next Job Answer
  | .begin c | .fetch c => .done (some ⟨c, .error .internal⟩)
  | .giveUp _ c => .goto (.fetch c)
  | .drop _ c e => .done (some ⟨c, .error e⟩)
  | .linkSelect tx c | .emailSelect tx c | .restore tx c .. | .audit tx c .. | .refresh tx c ..
  | .upsert tx c | .link tx c .. | .commit tx c .. => .goto (.drop tx c .internal)

/-- Concurrent calls of `find_or_create_user`. -/
def loginHandlers (maxDays : UInt32) : Handlers World Job Answer Event where
  entry
    | .begin _ => true
    | _ => false
  advance := advance maxDays
  onFail _ job := some (onFail job)
  environ
    | w, .tick d => some { w with now := w.now + d }
    | w, .abort tx => some { w with store := w.store.rollback tx }

abbrev State := Sys World Job Answer

abbrev Step := Action Job Event

abbrev step (maxDays : UInt32) : State → Step → Option State := (loginHandlers maxDays).step

/-! ## What one statement can do -/

/-- The transaction of the login, once it is open. -/
def Job.tx? : Job → Option Tx
  | .linkSelect tx _ | .emailSelect tx _ | .restore tx .. | .audit tx .. | .refresh tx ..
  | .upsert tx _ | .link tx .. | .commit tx .. | .giveUp tx _ | .drop tx .. => some tx
  | .begin _ | .fetch _ => none

def Job.login : Job → Login
  | .begin c | .linkSelect _ c | .emailSelect _ c | .restore _ c .. | .audit _ c ..
  | .refresh _ c .. | .upsert _ c | .link _ c .. | .commit _ c .. | .giveUp _ c | .fetch c
  | .drop _ c _ => c

/-- Everything that the next statement can do. -/
inductive CallCase (w : World) : Job → World → Next Job Answer → Prop
  | began {c : Login} : CallCase w (.begin c) { w with store := w.store.begin }
      (.goto (.linkSelect ⟨w.store.next, w.now⟩ c))
  | failed {job : Job} {tx : Tx} {e : AppError} (htx : job.tx? = some tx) :
      CallCase w job w (.goto (.drop tx job.login e))
  | identityFound {tx : Tx} {c : Login} {db : Db} {userId : Uuid} {user : UserRow} {job : Job}
      (hview : writes.view w.store tx.id = some db)
      (hlink : db.linkedUser c.provider c.profile.providerUserId = some (userId, user))
      (hnext : job = .refresh tx c userId user.username ∨
        ∃ t, job = .restore tx c .identity userId user.username t) :
      CallCase w (.linkSelect tx c) w (.goto job)
  | notLinked {tx : Tx} {c : Login} {job : Job}
      (hnext : job = .emailSelect tx c ∨ job = .upsert tx c) :
      CallCase w (.linkSelect tx c) w (.goto job)
  | emailFound {tx : Tx} {c : Login} {userId : Uuid} {username : String} {job : Job}
      (hnext : job = .link tx c userId username ∨
        ∃ t, job = .restore tx c .email userId username t) :
      CallCase w (.emailSelect tx c) w (.goto job)
  | emailMissed {tx : Tx} {c : Login} : CallCase w (.emailSelect tx c) w (.goto (.upsert tx c))
  | restored {tx : Tx} {c : Login} {m : Matched} {userId : Uuid} {username : String}
      {t : Timestamp} {store : Store Db Write}
      (hwrite : writes.write w.store tx.id (.restoreUser userId) = .done store) :
      CallCase w (.restore tx c m userId username t) { w with store }
        (.goto (.audit tx c m userId username t))
  | audited {tx : Tx} {c : Login} {m : Matched} {userId : Uuid} {username : String} {t : Timestamp}
      {event : AuditEvent} {store : Store Db Write}
      (hwrite : writes.write w.store tx.id (.logEvent event) = .done store) :
      CallCase w (.audit tx c m userId username t) { w with store }
        (.goto (m.next tx c userId username))
  | refreshed {tx : Tx} {c : Login} {userId : Uuid} {username : String}
      {email name url : Option String} {now : Timestamp} {store : Store Db Write}
      (hwrite : writes.write w.store tx.id (.refreshAccount c.identity email name url now) =
        .done store) :
      CallCase w (.refresh tx c userId username) { w with store }
        (.goto (.commit tx c userId username))
  | upsertedOld {tx : Tx} {c : Login} {userId : Uuid} {username : String} {store : Store Db Write}
      (hwrite : writes.write w.store tx.id (.restoreUser userId) = .done store) :
      CallCase w (.upsert tx c) { w with store } (.goto (.link tx c userId username))
  | upsertedNew {tx : Tx} {c : Login} {row : UserRow} {store : Store Db Write}
      (hwrite : writes.write w.store tx.id (.insertUser c.draws.userId row) = .done store) :
      CallCase w (.upsert tx c) { w with store } (.goto (.link tx c c.draws.userId row.username))
  | linkTaken {tx : Tx} {c : Login} {userId : Uuid} {username : String} :
      CallCase w (.link tx c userId username) w (.goto (.giveUp tx c))
  | linkInserted {tx : Tx} {c : Login} {userId : Uuid} {username : String} {store : Store Db Write}
      (hwrite : writes.write w.store tx.id
        (.insertAccount c.identity (newAccount c.profile userId tx.began)) = .done store) :
      CallCase w (.link tx c userId username) { w with store }
        (.goto (.commit tx c userId username))
  | committed {tx : Tx} {c : Login} {userId : Uuid} {username : String} {store : Store Db Write}
      {result : Except AppError (Uuid × String)} (hcommit : writes.commit w.store tx.id = some store)
      (hresult : ∀ found, result = .ok found → found = (userId, username)) :
      CallCase w (.commit tx c userId username) { w with store } (.done (some ⟨c, result⟩))
  | gaveUp {tx : Tx} {c : Login} : CallCase w (.giveUp tx c)
      { w with store := w.store.rollback tx.id } (.goto (.fetch c))
  | fetched {c : Login} : CallCase w (.fetch c) w
      (.done (some ⟨c, fetchLinkedOAuthUser c.provider c.profile.providerUserId w.store.committed⟩))
  | dropped {tx : Tx} {c : Login} {e : AppError} : CallCase w (.drop tx c e)
      { w with store := w.store.rollback tx.id } (.done (some ⟨c, .error e⟩))

variable {maxDays : UInt32} {w w' : World} {pick : ℕ} {job job' : Job} {next : Next Job Answer}
  {tx : Tx} {c : Login} {u : Uuid} {key : String × String}

theorem take_cases (maxDays : UInt32) (w : World) (tx : Tx) (c : Login) (m : Matched) (u : Uuid)
    (user : UserRow) :
    (∃ e, take maxDays w tx c m u user = .drop tx c e) ∨
      take maxDays w tx c m u user = m.next tx c u user.username ∨
      ∃ t, take maxDays w tx c m u user = .restore tx c m u user.username t := by
  unfold take
  split
  · exact .inr (.inl rfl)
  · next t _ =>
    split
    · next e _ => exact .inl ⟨e, rfl⟩
    · exact .inr (.inr ⟨t, rfl⟩)

/-- A statement that writes fails, or makes its write. -/
theorem writing_cases {write : Write} {e : AppError}
    (h : writing w tx c write e job' = some (w', next)) :
    (w' = w ∧ next = .goto (.drop tx c e)) ∨
      ∃ store, writes.write w.store tx.id write = .done store ∧ w' = { w with store } ∧
        next = .goto job' := by
  unfold writing at h
  split at h
  · cases h
  · cases h; exact .inl ⟨rfl, rfl⟩
  · next store hwrite => cases h; exact .inr ⟨store, hwrite, rfl, rfl⟩

theorem advance_cases (h : advance maxDays w pick job = some (w', next)) :
    CallCase w job w' next := by
  cases job with
  | begin c => cases h; exact .began
  | linkSelect tx c =>
    simp only [advance, reading] at h
    split at h
    · cases h; exact .failed rfl
    · next db hview =>
      split at h
      · next u user hlink =>
        cases h
        rcases take_cases maxDays w tx c .identity u user with ⟨e, htake⟩ | htake | ⟨t, htake⟩
        · rw [htake]; exact .failed rfl
        · rw [htake]; exact .identityFound hview hlink (.inl rfl)
        · rw [htake]; exact .identityFound hview hlink (.inr ⟨t, rfl⟩)
      · cases h
        refine .notLinked ?_
        split_ifs
        · exact .inl rfl
        · exact .inr rfl
  | emailSelect tx c =>
    simp only [advance, reading] at h
    split at h
    · cases h; exact .failed rfl
    · split at h
      · next u user _ =>
        cases h
        rcases take_cases maxDays w tx c .email u user with ⟨e, htake⟩ | htake | ⟨t, htake⟩
        · rw [htake]; exact .failed rfl
        · rw [htake]; exact .emailFound (.inl rfl)
        · rw [htake]; exact .emailFound (.inr ⟨t, rfl⟩)
      · cases h; exact .emailMissed
  | restore tx c m u name t =>
    obtain ⟨rfl, rfl⟩ | ⟨store, hwrite, rfl, rfl⟩ := writing_cases h
    · exact .failed rfl
    · exact .restored hwrite
  | audit tx c m u name t =>
    obtain ⟨rfl, rfl⟩ | ⟨store, hwrite, rfl, rfl⟩ := writing_cases h
    · exact .failed rfl
    · exact .audited hwrite
  | refresh tx c u name =>
    obtain ⟨rfl, rfl⟩ | ⟨store, hwrite, rfl, rfl⟩ := writing_cases h
    · exact .failed rfl
    · exact .refreshed hwrite
  | upsert tx c =>
    simp only [advance] at h
    split at h
    · cases h; exact .failed rfl
    · split_ifs at h
      split at h
      · obtain ⟨rfl, rfl⟩ | ⟨store, hwrite, rfl, rfl⟩ := writing_cases h
        · exact .failed rfl
        · exact .upsertedOld hwrite
      · obtain ⟨rfl, rfl⟩ | ⟨store, hwrite, rfl, rfl⟩ := writing_cases h
        · exact .failed rfl
        · exact .upsertedNew hwrite
  | link tx c u name =>
    simp only [advance] at h
    split at h
    · cases h; exact .failed rfl
    · split_ifs at h
      · cases h; exact .linkTaken
      · obtain ⟨rfl, rfl⟩ | ⟨store, hwrite, rfl, rfl⟩ := writing_cases h
        · exact .failed rfl
        · exact .linkInserted hwrite
  | commit tx c u name =>
    simp only [advance] at h
    split at h
    · cases h; exact .failed rfl
    · next store hcommit =>
      cases h
      refine .committed hcommit fun found hfound => ?_
      split_ifs at hfound
      exact (Except.ok.inj hfound).symm
  | giveUp tx c => cases h; exact .gaveUp
  | fetch c => cases h; exact .fetched
  | drop tx c e => cases h; exact .dropped

/-! ## What a statement leaves alone -/

theorem committed_write {write : Write} {store : Store Db Write}
    (h : writes.write w.store tx.id write = .done store) : store.committed = w.store.committed := by
  obtain ⟨-, -, rfl⟩ := Writes.write_eq_done h
  rfl

/-- No identity loses its user. -/
theorem CallCase.links (h : CallCase w job w' next) (hlinks : Links w.store.committed key u) :
    Links w'.store.committed key u := by
  cases h with
  | restored hwrite | audited hwrite | refreshed hwrite | upsertedOld hwrite | upsertedNew hwrite
  | linkInserted hwrite => exact (committed_write hwrite).symm ▸ hlinks
  | committed hcommit =>
    obtain ⟨ws, d, -, hall, rfl⟩ := Writes.commit_eq_some hcommit
    exact hlinks.applyAll hall
  | _ => exact hlinks

theorem CallCase.next_le (h : CallCase w job w' next) : w.store.next ≤ w'.store.next := by
  cases h with
  | began => exact Nat.le_succ _
  | restored hwrite | audited hwrite | refreshed hwrite | upsertedOld hwrite | upsertedNew hwrite
  | linkInserted hwrite => obtain ⟨-, -, rfl⟩ := Writes.write_eq_done hwrite; exact le_rfl
  | committed hcommit => obtain ⟨ws, d, -, -, rfl⟩ := Writes.commit_eq_some hcommit; exact le_rfl
  | _ => exact le_rfl

theorem opened_write {id : ℕ} {write : Write} {store : Store Db Write}
    (h : writes.write w.store tx.id write = .done store) (hid : tx.id ≠ id) :
    store.opened.lookup id = w.store.opened.lookup id := by
  obtain ⟨-, -, rfl⟩ := Writes.write_eq_done h
  exact (Table.lookup_modify ..).trans (if_neg hid.symm)

/-- The writes of other open transactions stay as they are. -/
theorem CallCase.opened {id : ℕ} (h : CallCase w job w' next) (hid : id < w.store.next)
    (hother : ∀ tx, job.tx? = some tx → tx.id ≠ id) :
    w'.store.opened.lookup id = w.store.opened.lookup id := by
  cases h with
  | began => exact (Table.lookup_insert_eq ..).trans (if_neg hid.ne)
  | restored hwrite | audited hwrite | refreshed hwrite | upsertedOld hwrite | upsertedNew hwrite
  | linkInserted hwrite => exact opened_write hwrite (hother _ rfl)
  | committed hcommit =>
    obtain ⟨ws, d, -, -, rfl⟩ := Writes.commit_eq_some hcommit
    exact (Table.lookup_erase_eq ..).trans (if_neg (hother _ rfl).symm)
  | gaveUp | dropped => exact (Table.lookup_erase_eq ..).trans (if_neg (hother _ rfl).symm)
  | _ => rfl

/-- A login keeps its transaction, which nobody had before it. -/
theorem CallCase.tx_cases (h : CallCase w job w' (.goto job')) (htx : job'.tx? = some tx) :
    job.tx? = some tx ∨ (tx.id = w.store.next ∧ w'.store.next = w.store.next + 1) := by
  generalize hnext : Next.goto job' = next at h
  cases h with
  | began => cases hnext; cases htx; exact .inr ⟨rfl, rfl⟩
  | failed hold => cases hnext; cases htx; exact .inl hold
  | identityFound _ _ hjob | emailFound hjob =>
    cases hnext
    obtain rfl | ⟨t, rfl⟩ := hjob <;> exact .inl htx
  | notLinked hjob => cases hnext; obtain rfl | rfl := hjob <;> exact .inl htx
  | @audited _ _ m => cases hnext; cases m <;> exact .inl htx
  | gaveUp => cases hnext; cases htx
  | committed | fetched | dropped => cases hnext
  | _ => cases hnext; exact .inl htx

theorem CallCase.login (h : CallCase w job w' (.goto job')) : job'.login = job.login := by
  generalize hnext : Next.goto job' = next at h
  cases h with
  | identityFound _ _ hjob | emailFound hjob =>
    cases hnext
    obtain rfl | ⟨t, rfl⟩ := hjob <;> rfl
  | notLinked hjob => cases hnext; obtain rfl | rfl := hjob <;> rfl
  | @audited _ _ m => cases hnext; cases m <;> rfl
  | committed | fetched | dropped => cases hnext
  | _ => cases hnext; rfl

end FreeBox.Server.OAuth.Concurrent
