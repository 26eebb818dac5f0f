import FreeBox.Lib.Sequential
import FreeBox.Server.ConcurrentLogin

/-!
# A login that runs alone

While no other transaction is open, the statements of `find_or_create_user` amount to
one step of the database: the function `findOrCreateUser`.

Results:
* `login_alone`: the concurrent model, run alone, computes `findOrCreateUser`.
-/

namespace FreeBox.Server.OAuth.Concurrent

open FreeBox.Lib Handlers Writes

variable {maxDays : UInt32} {now : Timestamp} {db d : Db} {n : ℕ} {ws : List Write} {c : Login}
  {u : Uuid} {name : String} {w' : World} {ans : Answer}

/-- One login is running, and has made the writes `ws`. -/
def alone (now : Timestamp) (db : Db) (n : ℕ) (ws : List Write) : World :=
  { now, store := .solo db n ws }

/-- No login is running. -/
def quiet (now : Timestamp) (db : Db) (n : ℕ) : World :=
  { now, store := { committed := db, opened := ∅, next := n } }

theorem drop_alone (e : AppError) : (loginHandlers maxDays).Serves (alone now db n ws)
    (.drop ⟨n, now⟩ c e) (quiet now db (n + 1)) ⟨c, .error e⟩ := by
  refine .done ?_
  simp only [loginHandlers, advance, alone, rollback_solo]
  rfl

theorem commit_alone (h : writes.applyAll ws db = some d) :
    (loginHandlers maxDays).Serves (alone now db n ws) (.commit ⟨n, now⟩ c u name)
      (quiet now d (n + 1)) ⟨c, .ok (u, name)⟩ := by
  refine .done ?_
  simp only [loginHandlers, advance, alone, commit_solo h]
  rfl

/-- A write that violates no constraint is made at once. -/
theorem writing_alone {write : Write} {job : Job} {e : AppError}
    (h : writes.applyAll (ws ++ [write]) db = some d) :
    writing (alone now db n ws) ⟨n, now⟩ c write e job =
      some (alone now db n (ws ++ [write]), .goto job) := by
  simp only [writing, alone, write_solo, h, Option.isSome_some, if_true]

theorem writing_alone_violates {write : Write} {job : Job} {e : AppError}
    (h : writes.applyAll (ws ++ [write]) db = none) :
    writing (alone now db n ws) ⟨n, now⟩ c write e job =
      some (alone now db n ws, .goto (.drop ⟨n, now⟩ c e)) := by
  simp only [writing, alone, write_solo, h, Option.isSome_none, Bool.false_eq_true, if_false]

/-- The block of a matched user, up to the statement after it. -/
theorem take_alone {m : Matched} {user : UserRow}
    (h : reactivateMatched maxDays now c.provider c.profile.providerUserId m.reason u user db = .ok d)
    (hrest : ∀ ws, writes.applyAll ws db = some d → (loginHandlers maxDays).Serves
      (alone now db n ws) (m.next ⟨n, now⟩ c u user.username) w' ans) :
    (loginHandlers maxDays).Serves (alone now db n [])
      (take maxDays (alone now db n []) ⟨n, now⟩ c m u user) w' ans := by
  unfold reactivateMatched at h
  unfold take
  cases ht : user.deletedAt with
  | none =>
    rw [ht] at h
    cases h
    exact hrest [] rfl
  | some t =>
    rw [ht] at h
    cases hallowed : ensureReactivationAllowed maxDays now t with
    | error e => simp only [hallowed, Except.map] at h; cases h
    | ok =>
      simp only [hallowed, Except.map, Except.ok.injEq] at h
      simp only [alone, hallowed]
      refine .goto (writing_alone (d := db.clearDeletedAt u) rfl) ?_
      exact .goto (writing_alone (d := d) (h ▸ rfl)) (hrest _ (h ▸ rfl))

theorem take_alone_refused {m : Matched} {user : UserRow} {e : AppError}
    (h : reactivateMatched maxDays now c.provider c.profile.providerUserId m.reason u user db =
      .error e) :
    (loginHandlers maxDays).Serves (alone now db n [])
      (take maxDays (alone now db n []) ⟨n, now⟩ c m u user) (quiet now db (n + 1)) ⟨c, .error e⟩ := by
  unfold reactivateMatched at h
  unfold take
  cases ht : user.deletedAt with
  | none => rw [ht] at h; cases h
  | some t =>
    rw [ht] at h
    cases hallowed : ensureReactivationAllowed maxDays now t with
    | ok => simp only [hallowed, Except.map] at h; cases h
    | error e' =>
      simp only [hallowed, Except.map, Except.error.injEq] at h
      simp only [alone, hallowed, h]
      exact drop_alone e

/-- The identity is linked, and the transaction commits. -/
theorem link_alone {db' : Db} (hws : writes.applyAll ws db = some d)
    (hins : d.insertAccount c.provider c.profile.providerUserId (newAccount c.profile u now) =
      some db') :
    (loginHandlers maxDays).Serves (alone now db n ws) (.link ⟨n, now⟩ c u name)
      (quiet now db' (n + 1)) ⟨c, .ok (u, name)⟩ := by
  have hfree : c.identity ∉ d.accounts := AList.lookup_eq_none.mp (Db.insertAccount_eq_some hins).1
  have hall : writes.applyAll
      (ws ++ [.insertAccount c.identity (newAccount c.profile u now)]) db = some db' := by
    rw [applyAll_concat, hws]
    exact hins
  refine .goto ?_ (commit_alone hall)
  have hview : writes.view (alone now db n ws).store n = some d := view_solo.trans hws
  simp only [loginHandlers, advance, hview, if_neg hfree]
  exact writing_alone hall

/-- `upsertUser`, which is refused or goes on to the link. -/
theorem upsert_alone
    (hrefused : ∀ e, upsertUser c.provider c.profile c.draws now db = .error e →
      w' = quiet now db (n + 1) ∧ ans = ⟨c, .error e⟩)
    (hrest : ∀ d u name ws, upsertUser c.provider c.profile c.draws now db = .ok (d, u, name) →
      writes.applyAll ws db = some d →
        (loginHandlers maxDays).Serves (alone now db n ws) (.link ⟨n, now⟩ c u name) w' ans) :
    (loginHandlers maxDays).Serves (alone now db n []) (.upsert ⟨n, now⟩ c) w' ans := by
  have hview : writes.view (alone now db n []).store n = some db := view_solo
  have hfree : ∀ p, (alone now db n []).store.othersWrote n p = false := othersWrote_solo
  unfold upsertUser at hrefused hrest
  cases hemail : db.users.byEmail (oauthEmail c.provider c.profile c.draws.emailTag) with
  | some found =>
    obtain ⟨u, user⟩ := found
    rw [hemail] at hrest
    refine .goto ?_ (hrest _ u user.username [.restoreUser u] rfl rfl)
    simp only [loginHandlers, advance, hview, hfree, newUser, hemail, Bool.false_eq_true, if_false]
    exact writing_alone rfl
  | none =>
    rw [hemail] at hrest hrefused
    have hstep : advance maxDays (alone now db n []) 0 (.upsert ⟨n, now⟩ c) =
        writing (alone now db n []) ⟨n, now⟩ c
          (.insertUser c.draws.userId (newUser c.provider c.profile c.draws now))
          (.conflict "an account with this username or email already exists")
          (.link ⟨n, now⟩ c c.draws.userId (newUser c.provider c.profile c.draws now).username) := by
      simp only [advance, hview, hfree, newUser, hemail, Bool.false_eq_true, if_false]
    cases hins : db.insertUser c.draws.userId (newUser c.provider c.profile c.draws now) with
    | none =>
      rw [hins] at hrefused
      obtain ⟨rfl, rfl⟩ := hrefused _ rfl
      have hnone : writes.applyAll
          [.insertUser c.draws.userId (newUser c.provider c.profile c.draws now)] db = none := by
        rw [applyAll_cons, show writes.apply (.insertUser c.draws.userId _) db = none from hins]
        rfl
      exact .goto (hstep.trans (writing_alone_violates hnone)) (drop_alone _)
    | some d =>
      rw [hins] at hrest
      have hall : writes.applyAll
          [.insertUser c.draws.userId (newUser c.provider c.profile c.draws now)] db = some d := by
        rw [applyAll_cons, show writes.apply (.insertUser c.draws.userId _) db = some d from hins]
        rfl
      exact .goto (hstep.trans (writing_alone hall)) (hrest d _ _ _ rfl hall)

/-- `resolveUser`, from the second statement, which is refused or goes on to the link. -/
theorem resolve_alone
    (hrefused : ∀ e, resolveUser maxDays now c.provider c.profile c.draws db = .error e →
      w' = quiet now db (n + 1) ∧ ans = ⟨c, .error e⟩)
    (hrest : ∀ d u name ws,
      resolveUser maxDays now c.provider c.profile c.draws db = .ok (d, u, name) →
      writes.applyAll ws db = some d →
        (loginHandlers maxDays).Serves (alone now db n ws) (.link ⟨n, now⟩ c u name) w' ans) :
    (loginHandlers maxDays).Serves (alone now db n [])
      (if c.profile.email.isSome then .emailSelect ⟨n, now⟩ c else .upsert ⟨n, now⟩ c) w' ans := by
  have hview : writes.view (alone now db n []).store n = some db := view_solo
  unfold resolveUser at hrefused hrest
  cases hmatch : c.profile.email.bind db.users.byEmail with
  | none =>
    rw [hmatch] at hrefused hrest
    have hupsert : (loginHandlers maxDays).Serves (alone now db n []) (.upsert ⟨n, now⟩ c) w' ans :=
      upsert_alone hrefused hrest
    split_ifs
    · refine .goto ?_ hupsert
      simp only [loginHandlers, advance, reading, hview, hmatch]
    · exact hupsert
  | some found =>
    obtain ⟨u, user⟩ := found
    have hsome : c.profile.email.isSome = true := by
      obtain ⟨address, haddress, -⟩ := Option.bind_eq_some_iff.mp hmatch
      rw [haddress]
      rfl
    have hselect : advance maxDays (alone now db n []) 0 (.emailSelect ⟨n, now⟩ c) =
        some (alone now db n [], .goto (take maxDays (alone now db n []) ⟨n, now⟩ c .email u
          user)) := by
      simp only [advance, reading, hview, hmatch]
    rw [if_pos hsome]
    refine .goto hselect ?_
    rw [hmatch] at hrefused hrest
    cases hre : reactivateMatched maxDays now c.provider c.profile.providerUserId
      "oauth_email_match" u user db with
    | error e =>
      simp only [hre] at hrefused
      obtain ⟨rfl, rfl⟩ := hrefused e rfl
      exact take_alone_refused hre
    | ok d =>
      simp only [hre] at hrest
      exact take_alone hre fun ws hws => hrest d u user.username ws rfl hws

theorem login_alone (maxDays : UInt32) (now : Timestamp) (db : Db) (n : ℕ) (c : Login) :
    (loginHandlers maxDays).Serves (quiet now db n) (.begin c)
      (quiet now (findOrCreateUser maxDays now c.provider c.profile c.draws db).1 (n + 1))
      ⟨c, (findOrCreateUser maxDays now c.provider c.profile c.draws db).2⟩ := by
  have hbegin : advance maxDays (quiet now db n) 0 (.begin c) =
      some (alone now db n [], .goto (.linkSelect ⟨n, now⟩ c)) := rfl
  have hview : writes.view (alone now db n []).store n = some db := view_solo
  refine .goto hbegin ?_
  cases hlink : db.linkedUser c.provider c.profile.providerUserId with
  | some found =>
    obtain ⟨u, user⟩ := found
    have hselect : advance maxDays (alone now db n []) 0 (.linkSelect ⟨n, now⟩ c) =
        some (alone now db n [], .goto (take maxDays (alone now db n []) ⟨n, now⟩ c .identity u
          user)) := by
      simp only [advance, reading, hview, hlink]
    refine .goto hselect ?_
    simp only [findOrCreateUser, hlink]
    cases hmatch : reactivateMatched maxDays now c.provider c.profile.providerUserId
      "oauth_identity_match" u user db with
    | error e => exact take_alone_refused hmatch
    | ok d =>
      refine take_alone hmatch fun ws hws => ?_
      have hall : writes.applyAll (ws ++ [.refreshAccount c.identity c.profile.email
          c.profile.username c.profile.avatarUrl now]) db =
          some (d.refreshAccount c.provider c.profile.providerUserId c.profile.email
            c.profile.username c.profile.avatarUrl now) := by
        rw [applyAll_concat, hws]
        rfl
      exact .goto (writing_alone hall) (commit_alone hall)
  | none =>
    have hselect : advance maxDays (alone now db n []) 0 (.linkSelect ⟨n, now⟩ c) =
        some (alone now db n [], .goto (if c.profile.email.isSome then .emailSelect ⟨n, now⟩ c
          else .upsert ⟨n, now⟩ c)) := by
      simp only [advance, reading, hview, hlink]
    refine .goto hselect (resolve_alone (fun e hres => ?_) fun d u name ws hres hws => ?_)
    · simp only [findOrCreateUser, hlink, hres, and_self]
    · obtain ⟨db', hins, hrun⟩ := findOrCreateUser_of_resolve hlink hres
      rw [hrun]
      exact link_alone hws hins

end FreeBox.Server.OAuth.Concurrent
