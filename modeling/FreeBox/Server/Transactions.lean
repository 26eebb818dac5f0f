import FreeBox.Lib.ReadCommitted
import FreeBox.Server.OAuth

/-!
# The writes of a login transaction

The statements of `find_or_create_user` that write, as writes of an open
transaction. Two of them clash when they are about the same row, or about rows that a
unique index does not allow side by side.

Results:
* `discipline`: writes that do not clash leave each other possible.
* `applyAll_linked`, `applyAll_users`: the identities and the users after a transaction.
-/

namespace FreeBox.Server.OAuth

open FreeBox.Lib

/-- A write of an open transaction. -/
inductive Write
  | insertUser (id : Uuid) (row : UserRow)
  | restoreUser (id : Uuid)
  | logEvent (event : AuditEvent)
  | insertAccount (key : String × String) (account : OAuthAccountRow)
  | refreshAccount (key : String × String) (email username avatarUrl : Option String)
      (now : Timestamp)
  deriving DecidableEq

namespace Write

def apply : Write → Db → Option Db
  | .insertUser id row, db => db.insertUser id row
  | .restoreUser id, db => some (db.clearDeletedAt id)
  | .logEvent event, db => some (db.logEvent event)
  | .insertAccount key account, db => db.insertAccount key.1 key.2 account
  | .refreshAccount key email username avatarUrl now, db =>
    some (db.refreshAccount key.1 key.2 email username avatarUrl now)

/-- One of the writes waits for the transaction of the other. -/
def clash : Write → Write → Bool
  | .insertUser id row, .insertUser id' row' =>
    id = id' ∨ row.username = row'.username ∨ row.email = row'.email
  | .restoreUser id, .restoreUser id' => id = id'
  | .insertAccount key _, .insertAccount key' _ => key = key'
  | .refreshAccount key .., .refreshAccount key' .. => key = key'
  | _, _ => false

/-- It inserts a user with this address. -/
def insertsEmail (email : String) : Write → Bool
  | .insertUser _ row => row.email = email
  | _ => false

end Write

/-- The writes of `Db`. -/
def writes : Writes Db Write where
  apply := Write.apply
  clash := Write.clash

/-! ## What a write needs -/

variable {db db' d e : Db} {u v : Uuid} {row row' : UserRow} {w w' : Write} {ws : List Write}
  {key : String × String} {account : OAuthAccountRow}

/-- `db'` has all that `w` needs of `db`. -/
structure KeepsFor (w : Write) (db db' : Db) : Prop where
  users : ∀ u, (db.users.rows.lookup u).isSome = true → (db'.users.rows.lookup u).isSome = true
  admits : ∀ u row, w = .insertUser u row → db.users.admits u row = true →
    db'.users.admits u row = true
  free : ∀ key account, w = .insertAccount key account → db.accounts.lookup key = none →
    db'.accounts.lookup key = none

theorem KeepsFor.refl (w : Write) (db : Db) : KeepsFor w db db :=
  ⟨fun _ h => h, fun _ _ _ h => h, fun _ _ _ h => h⟩

theorem KeepsFor.trans {db'' : Db} (h : KeepsFor w db db') (h' : KeepsFor w db' db'') :
    KeepsFor w db db'' where
  users u hu := h'.users u (h.users u hu)
  admits u row hw hadmits := h'.admits u row hw (h.admits u row hw hadmits)
  free key account hw hfree := h'.free key account hw (h.free key account hw hfree)

/-! ## The discipline -/

theorem clash_comm (w w' : Write) : w.clash w' = w'.clash w := by
  cases w <;> cases w' <;> simp only [Write.clash, eq_comm]

theorem users_of_apply (h : w.apply db = some db') : (db'.users.rows.lookup u).isSome = true ↔
    (db.users.rows.lookup u).isSome = true ∨ ∃ row, w = .insertUser u row := by
  cases w with
  | insertUser v row =>
    rw [(Db.insertUser_eq_some h).2.1, Table.lookup_insert_eq]
    split_ifs with hv
    · simp [hv]
    · simp [Ne.symm hv]
  | restoreUser v =>
    cases h
    rw [show (db.clearDeletedAt v).users = db.users.clearDeletedAt v from rfl,
      Users.lookup_clearDeletedAt]
    split_ifs with hv
    · subst hv; simp
    · simp
  | logEvent => cases h; simp [Db.logEvent]
  | insertAccount => rw [(Db.insertAccount_eq_some h).2.2.1]; simp
  | refreshAccount => cases h; simp [Db.refreshAccount]

/-- A write stands in the way of a new user just when it clashes with its insertion. -/
theorem admits_of_apply (h : w.apply db = some db') : db'.users.admits u row = true ↔
    db.users.admits u row = true ∧ (Write.insertUser u row).clash w = false := by
  cases w with
  | insertUser v row' =>
    rw [Users.admits_insertNew (Db.insertUser_users h)]
    simp only [Write.clash, decide_eq_false_iff_not, not_or, ne_eq, @eq_comm _ row'.username,
      @eq_comm _ row'.email]
  | restoreUser v => cases h; exact Users.admits_clearDeletedAt.trans (by simp [Write.clash])
  | logEvent => cases h; simp [Write.clash, Db.logEvent]
  | insertAccount => rw [(Db.insertAccount_eq_some h).2.2.1]; simp [Write.clash]
  | refreshAccount => cases h; simp [Write.clash, Db.refreshAccount]

/-- A write stands in the way of a new identity just when it clashes with its insertion. -/
theorem free_of_apply (h : w.apply db = some db') : db'.accounts.lookup key = none ↔
    db.accounts.lookup key = none ∧ (Write.insertAccount key account).clash w = false := by
  cases w with
  | insertUser v row' => rw [(Db.insertUser_eq_some h).2.2.1]; simp [Write.clash]
  | restoreUser v => cases h; simp [Write.clash, Db.clearDeletedAt]
  | logEvent => cases h; simp [Write.clash, Db.logEvent]
  | insertAccount key' account' =>
    rw [(Db.insertAccount_eq_some h).2.1, Table.lookup_insert_eq]
    split_ifs with hkey
    · simp [Write.clash, hkey]
    · simp [Write.clash, hkey]
  | refreshAccount key' =>
    cases h
    rw [show (db.refreshAccount key'.1 key'.2 _ _ _ _).accounts = Table.modify key' _ db.accounts
      from rfl, Table.lookup_modify]
    split_ifs with hkey
    · subst hkey; simp [Write.clash]
    · simp [Write.clash]

/-- What a write needs is enough for it. -/
theorem KeepsFor.apply (h : KeepsFor w db db') (hw : w.apply db = some d) :
    ∃ d', w.apply db' = some d' := by
  cases w with
  | insertUser u row =>
    have hadmits : db.users.admits u row = true := by
      by_contra hno
      have hnew := Db.insertUser_users hw
      rw [Users.insertNew, dif_neg hno] at hnew
      cases hnew
    exact Db.exists_insertUser (h.admits u row rfl hadmits)
  | insertAccount key account =>
    have hins : db.insertAccount key.1 key.2 account = some d := hw
    unfold Db.insertAccount at hins
    split_ifs at hins with hcond
    exact Db.exists_insertAccount account (h.free key account rfl hcond.1)
      (h.users account.userId hcond.2)
  | _ => exact ⟨_, rfl⟩

theorem KeepsFor.later (h : KeepsFor w' db db') (hw : w.apply db = some d)
    (hw' : w.apply db' = some e) : KeepsFor w' d e where
  users u hu := by
    rw [users_of_apply hw] at hu
    rw [users_of_apply hw']
    exact hu.imp_left (h.users u)
  admits u row hrow hadmits := by
    rw [admits_of_apply hw] at hadmits
    rw [admits_of_apply hw']
    exact ⟨h.admits u row hrow hadmits.1, hadmits.2⟩
  free key account hkey hfree := by
    rw [@free_of_apply _ _ _ _ account hw] at hfree
    rw [@free_of_apply _ _ _ _ account hw']
    exact ⟨h.free key account hkey hfree.1, hfree.2⟩

def discipline : Writes.Discipline writes where
  keeps := KeepsFor
  symm := clash_comm
  refl := KeepsFor.refl
  trans _ _ _ _ h h' := h.trans h'
  other w w' d d' hclash h :=
    ⟨fun u hu => (users_of_apply h).mpr (.inl hu),
      fun u row hw hadmits => (admits_of_apply h).mpr ⟨hadmits, hw ▸ hclash⟩,
      fun key account hw hfree => (free_of_apply h).mpr ⟨hfree, hw ▸ hclash⟩⟩
  later w d d' d₁ h hw := by
    obtain ⟨d₁', hw'⟩ := h.apply hw
    exact ⟨d₁', hw', fun w' h' => h'.later hw hw'⟩

/-! ## After a transaction -/

/-- An identity stays linked to its user. -/
theorem linked_of_apply (h : w.apply db = some db') (hacc : db.accounts.lookup key = some account) :
    ∃ account', db'.accounts.lookup key = some account' ∧ account'.userId = account.userId := by
  cases w with
  | insertUser => exact (Db.keeps_insertUser h).account key account hacc
  | restoreUser => cases h; exact ⟨account, hacc, rfl⟩
  | logEvent => cases h; exact ⟨account, hacc, rfl⟩
  | insertAccount => exact (Db.keeps_insertAccount h).account key account hacc
  | refreshAccount => cases h; exact (Db.keeps_refreshAccount ..).account key account hacc

/-- The identity is linked to the user. -/
def Links (db : Db) (key : String × String) (u : Uuid) : Prop :=
  ∃ account, db.accounts.lookup key = some account ∧ account.userId = u

theorem Links.functional (h : Links db key u) (h' : Links db key v) : u = v := by
  obtain ⟨account, hacc, rfl⟩ := h
  obtain ⟨account', hacc', rfl⟩ := h'
  rw [hacc] at hacc'
  cases hacc'
  rfl

theorem Links.apply (h : Links db key u) (hw : w.apply db = some db') : Links db' key u := by
  obtain ⟨account, hacc, rfl⟩ := h
  exact linked_of_apply hw hacc

theorem Links.applyAll (h : Links db key u) (hws : writes.applyAll ws db = some db') :
    Links db' key u :=
  Writes.applyAll_invariant (fun d => Links d key u) h (fun _ _ _ _ hd hw => hd.apply hw) hws

/-- A transaction that inserts an identity leaves it linked. -/
theorem links_of_mem (hmem : .insertAccount key account ∈ ws)
    (hws : writes.applyAll ws db = some db') : Links db' key account.userId := by
  induction ws generalizing db with
  | nil => cases hmem
  | cons w ws ih =>
    rw [Writes.applyAll_cons] at hws
    obtain ⟨d, hw, hrest⟩ := Option.bind_eq_some_iff.mp hws
    rcases List.mem_cons.mp hmem with rfl | hmem
    · have hlinked : Links d key account.userId := by
        refine ⟨account, ?_, rfl⟩
        rw [(Db.insertAccount_eq_some hw).2.1]
        exact AList.lookup_insert _
      exact hlinked.applyAll hrest
    · exact ih hmem hrest

/-- A user after a transaction was there before, or has been inserted by it. -/
theorem user_of_applyAll (hws : writes.applyAll ws db = some db')
    (hu : (db'.users.rows.lookup u).isSome = true) :
    (db.users.rows.lookup u).isSome = true ∨ ∃ row, .insertUser u row ∈ ws := by
  refine Writes.applyAll_invariant (fun d => (d.users.rows.lookup u).isSome = true →
    (db.users.rows.lookup u).isSome = true ∨ ∃ row, .insertUser u row ∈ ws) .inl ?_ hws hu
  intro w hmem d d' hd hw hu
  rcases (users_of_apply hw).mp hu with hold | ⟨row, rfl⟩
  · exact hd hold
  · exact .inr ⟨row, hmem⟩

end FreeBox.Server.OAuth
