import FreeBox.Server.OAuth

/-!
# What a login leaves behind

`find_or_create_user` in `apps/server/src/api/oauth.rs` ends in one of three ways, and
may reactivate the user on two of them. Here it runs alone.

Results:
* `ResolveCase.active`, `ResolveCase.othersKept`: the user that a new identity is linked
  to is active, and no other user is touched.
* `findOrCreateUser_again`: an identity that is linked to an active user resolves to it.
* `findOrCreateUser_post`: the postcondition of every login.
-/

namespace FreeBox.Server.OAuth

open FreeBox.Lib Table

/-! ## Other users -/

/-- Between `db` and `db'` no row of a user other than `u` changes. -/
structure OthersKept (u : Uuid) (db db' : Db) : Prop where
  user : ∀ v, v ≠ u → db'.users.rows.lookup v = db.users.rows.lookup v
  accounts : SameRows (fun account => account.userId ≠ u) db.accounts db'.accounts
  audit : db'.auditEvents.filter (fun event => event.userId ≠ u) =
    db.auditEvents.filter fun event => event.userId ≠ u
  tokens : db'.refreshTokens = db.refreshTokens
  states : db'.oauthStates = db.oauthStates

variable {maxDays : UInt32} {now : Timestamp} {provider providerUserId reason name : String}
  {profile : OAuthUserProfile} {draws : Draws} {db db' db'' : Db} {u : Uuid} {user : UserRow}
  {account : OAuthAccountRow}

theorem OthersKept.refl (u : Uuid) (db : Db) : OthersKept u db db :=
  ⟨fun _ _ => rfl, .refl _ _, rfl, rfl, rfl⟩

theorem OthersKept.trans (h : OthersKept u db db') (h' : OthersKept u db' db'') :
    OthersKept u db db'' where
  user v hv := (h'.user v hv).trans (h.user v hv)
  accounts k := (h.accounts k).trans (h'.accounts k)
  audit := h'.audit.trans h.audit
  tokens := h'.tokens.trans h.tokens
  states := h'.states.trans h.states

theorem othersKept_clearDeletedAt (db : Db) (u : Uuid) : OthersKept u db (db.clearDeletedAt u) where
  user _ hv := Users.lookup_clearDeletedAt.trans (if_neg hv)
  accounts := .refl _ _
  audit := rfl
  tokens := rfl
  states := rfl

theorem othersKept_logEvent {event : AuditEvent} (h : event.userId = u) :
    OthersKept u db (db.logEvent event) where
  user _ _ := rfl
  accounts := .refl _ _
  audit := List.filter_cons_of_neg (by simp [h])
  tokens := rfl
  states := rfl

theorem othersKept_refreshAccount {email name url : Option String}
    (h : ∀ account, db.accounts.lookup (provider, providerUserId) = some account →
      account.userId = u) :
    OthersKept u db (db.refreshAccount provider providerUserId email name url now) where
  user _ _ := rfl
  accounts := sameRows_modify (fun account hacc => decide_eq_false (not_not_intro (h account hacc)))
    fun _ => rfl
  audit := rfl
  tokens := rfl
  states := rfl

theorem othersKept_insertUser (h : db.insertUser u user = some db') : OthersKept u db db' := by
  obtain ⟨-, hrows, haccounts, haudit⟩ := Db.insertUser_eq_some h
  have hrest : db'.refreshTokens = db.refreshTokens ∧ db'.oauthStates = db.oauthStates := by
    unfold Db.insertUser at h
    split at h <;> cases h
    exact ⟨rfl, rfl⟩
  refine ⟨fun v hv => ?_, haccounts ▸ .refl _ _, by rw [haudit], hrest.1, hrest.2⟩
  rw [hrows]
  exact (lookup_insert_eq _ _ _ _).trans (if_neg hv)

theorem othersKept_insertAccount
    (h : db.insertAccount provider providerUserId account = some db') :
    OthersKept account.userId db db' := by
  obtain ⟨hfree, haccounts, husers, haudit⟩ := Db.insertAccount_eq_some h
  have hrest : db'.refreshTokens = db.refreshTokens ∧ db'.oauthStates = db.oauthStates := by
    unfold Db.insertAccount at h
    split_ifs at h
    cases h
    exact ⟨rfl, rfl⟩
  refine ⟨fun v _ => by rw [husers], ?_, by rw [haudit], hrest.1, hrest.2⟩
  rw [haccounts]
  refine sameRows_insert (fun r hr => ?_) (decide_eq_false (not_not_intro rfl))
  rw [hfree] at hr
  cases hr

/-! ## The resolved user -/

/-- The user is there, is not deleted, and has this name. -/
def IsActive (db : Db) (u : Uuid) (name : String) : Prop :=
  ∃ row, db.users.rows.lookup u = some row ∧ row.deletedAt = none ∧ row.username = name

theorem isActive_clearDeletedAt (h : db.users.rows.lookup u = some user) :
    IsActive (db.clearDeletedAt u) u user.username := by
  refine ⟨{ user with deletedAt := none }, ?_, rfl, rfl⟩
  refine Users.lookup_clearDeletedAt.trans ?_
  rw [if_pos rfl, h]
  rfl

theorem matched_active (hu : db.users.rows.lookup u = some user)
    (h : reactivateMatched maxDays now provider providerUserId reason u user db = .ok db') :
    IsActive db' u user.username ∧ OthersKept u db db' := by
  obtain ⟨hactive, rfl⟩ | ⟨t, -, -, rfl⟩ := reactivateMatched_ok h
  · exact ⟨⟨user, hu, hactive, rfl⟩, .refl u db'⟩
  · exact ⟨isActive_clearDeletedAt hu,
      (othersKept_clearDeletedAt db u).trans (othersKept_logEvent rfl)⟩

theorem ResolveCase.active (h : ResolveCase maxDays now provider profile draws db db' u name) :
    IsActive db' u name := by
  cases h with
  | email huser hre =>
    obtain ⟨address, -, hmatch⟩ := Option.bind_eq_some_iff.mp huser
    exact (matched_active (Users.byEmail_eq_some.mp hmatch).1 hre).1
  | upsert _ huser => exact isActive_clearDeletedAt (Users.byEmail_eq_some.mp huser).1
  | created _ _ hins =>
    obtain ⟨-, hrows, -⟩ := Db.insertUser_eq_some hins
    exact ⟨newUser provider profile draws now, by rw [hrows, AList.lookup_insert], rfl, rfl⟩

theorem ResolveCase.othersKept (h : ResolveCase maxDays now provider profile draws db db' u name) :
    OthersKept u db db' := by
  cases h with
  | email huser hre =>
    obtain ⟨address, -, hmatch⟩ := Option.bind_eq_some_iff.mp huser
    exact (matched_active (Users.byEmail_eq_some.mp hmatch).1 hre).2
  | upsert => exact othersKept_clearDeletedAt db u
  | created _ _ hins => exact othersKept_insertUser hins

/-! ## The postcondition -/

/-- The identity belongs to `u`, and to no other user. -/
def LinkedTo (db : Db) (provider providerUserId : String) (u : Uuid) : Prop :=
  (∃ account, db.accounts.lookup (provider, providerUserId) = some account ∧ account.userId = u) ∧
    ∀ key account, key = (provider, providerUserId) → db.accounts.lookup key = some account →
      account.userId = u

theorem linkedTo_of_lookup (hacc : db.accounts.lookup (provider, providerUserId) = some account)
    (hu : account.userId = u) : LinkedTo db provider providerUserId u := by
  refine ⟨⟨account, hacc, hu⟩, ?_⟩
  rintro _ account' rfl hacc'
  rw [hacc] at hacc'
  cases hacc'
  exact hu

theorem linkedTo_refreshAccount {email username url : Option String}
    (hacc : db.accounts.lookup (provider, providerUserId) = some account) (hu : account.userId = u) :
    LinkedTo (db.refreshAccount provider providerUserId email username url now) provider
      providerUserId u := by
  have hlookup : (db.refreshAccount provider providerUserId email username url now).accounts.lookup
      (provider, providerUserId) = some { account with
        providerEmail := email, providerUsername := username, avatarUrl := url, updatedAt := now } := by
    refine (lookup_modify _ _ _ _).trans ?_
    rw [if_pos rfl, hacc]
    rfl
  exact linkedTo_of_lookup hlookup hu

/-- What a login as `u` has established. -/
structure LoggedIn (provider : String) (profile : OAuthUserProfile) (u : Uuid) (name : String)
    (db db' : Db) : Prop where
  linked : LinkedTo db' provider profile.providerUserId u
  active : IsActive db' u name
  others : OthersKept u db db'
  /-- The next login with the profile, at whatever time. -/
  again : ∀ maxDays now draws,
    (findOrCreateUser maxDays now provider profile draws db').2 = .ok (u, name)

/-- An identity that is linked to an active user resolves to that user. -/
theorem findOrCreateUser_again (hlink : LinkedTo db provider profile.providerUserId u)
    (hactive : IsActive db u name) :
    (findOrCreateUser maxDays now provider profile draws db).2 = .ok (u, name) := by
  obtain ⟨⟨account, hacc, hu⟩, -⟩ := hlink
  obtain ⟨row, hrow, hdeleted, rfl⟩ := hactive
  have hfound : db.linkedUser provider profile.providerUserId = some (u, row) :=
    Db.linkedUser_eq_some.mpr ⟨account, hacc, hu, hrow⟩
  simp only [findOrCreateUser, hfound, reactivateMatched, hdeleted]

theorem LoggedIn.of_linked (hlink : LinkedTo db' provider profile.providerUserId u)
    (hactive : IsActive db' u name) (hothers : OthersKept u db db') :
    LoggedIn provider profile u name db db' :=
  ⟨hlink, hactive, hothers, fun _ _ _ => findOrCreateUser_again hlink hactive⟩

/-- The postcondition of a login that runs alone, in every state of the database. -/
theorem findOrCreateUser_post (maxDays : UInt32) (now : Timestamp) (provider : String)
    (profile : OAuthUserProfile) (draws : Draws) (db : Db) :
    match findOrCreateUser maxDays now provider profile draws db with
    | (db', .ok (u, name)) => LoggedIn provider profile u name db db'
    | (db', .error _) => db' = db := by
  have hcase := findOrCreateUser_cases maxDays now provider profile draws db
  generalize findOrCreateUser maxDays now provider profile draws db = result at hcase ⊢
  obtain ⟨db', outcome⟩ := result
  cases hcase with
  | refused => rfl
  | @identity u user db₁ hlink hre =>
    obtain ⟨account, hacc, hu, hrow⟩ := Db.linkedUser_eq_some.mp hlink
    obtain ⟨hactive, hothers⟩ := matched_active hrow hre
    have haccounts : db₁.accounts = db.accounts := by
      obtain ⟨-, rfl⟩ | ⟨t, -, -, rfl⟩ := reactivateMatched_ok hre <;> rfl
    have hacc₁ : db₁.accounts.lookup (provider, profile.providerUserId) = some account := by
      rw [haccounts]; exact hacc
    refine .of_linked (linkedTo_refreshAccount hacc₁ hu) hactive
      (hothers.trans (othersKept_refreshAccount fun account' hacc' => ?_))
    rw [hacc₁] at hacc'
    cases hacc'
    exact hu
  | @resolved u name db₁ _ hlink hres hins =>
    obtain ⟨-, haccounts, husers, -⟩ := Db.insertAccount_eq_some hins
    have hothers : OthersKept u db₁ db' := othersKept_insertAccount hins
    refine .of_linked (linkedTo_of_lookup (by rw [haccounts, AList.lookup_insert]) rfl) ?_
      (hres.othersKept.trans hothers)
    unfold IsActive
    rw [husers]
    exact hres.active

end FreeBox.Server.OAuth
