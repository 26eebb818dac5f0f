import FreeBox.Server.AccountTokens

/-!
# Users stay who they are

No handler removes a user, or changes a name, an address, a password or a salt, and
`deleted_at` is only ever cleared. So what `issue_token_pair` writes into a token pair stays
true, and whoever has registered can log in.

Results:
* `usersStay_run`: what a run does to the rows of `users`.
* `token_pairs_name_users`: to whom the token pairs of a run belong.
-/

namespace FreeBox.Server

open FreeBox.Lib

/-- Nothing but `deleted_at` differs, and an active user stays active. -/
structure UserRow.Stays (row row' : UserRow) : Prop where
  username : row'.username = row.username
  email : row'.email = row.email
  passwordHash : row'.passwordHash = row.passwordHash
  argon2Salt : row'.argon2Salt = row.argon2Salt
  createdAt : row'.createdAt = row.createdAt
  active : row.deletedAt = none → row'.deletedAt = none

theorem UserRow.Stays.refl (row : UserRow) : row.Stays row :=
  ⟨rfl, rfl, rfl, rfl, rfl, id⟩

theorem UserRow.Stays.trans {row row' row'' : UserRow} (h : row.Stays row')
    (h' : row'.Stays row'') : row.Stays row'' where
  username := h'.username.trans h.username
  email := h'.email.trans h.email
  passwordHash := h'.passwordHash.trans h.passwordHash
  argon2Salt := h'.argon2Salt.trans h.argon2Salt
  createdAt := h'.createdAt.trans h.createdAt
  active hactive := h'.active (h.active hactive)

/-- The users of `db` are users of `db'`. -/
def Db.UsersStay (db db' : Db) : Prop :=
  ∀ u row, db.users.rows.lookup u = some row →
    ∃ row', db'.users.rows.lookup u = some row' ∧ row.Stays row'

namespace Db.UsersStay

variable {db db' db'' : Db} {u : Uuid} {row : UserRow}

theorem refl (db : Db) : db.UsersStay db := fun _ row hrow => ⟨row, hrow, .refl row⟩

theorem trans (h : db.UsersStay db') (h' : db'.UsersStay db'') : db.UsersStay db'' := by
  intro u row hrow
  obtain ⟨row', hrow', hstays⟩ := h u row hrow
  obtain ⟨row'', hrow'', hstays'⟩ := h' u row' hrow'
  exact ⟨row'', hrow'', hstays.trans hstays'⟩

theorem of_eq (h : db'.users = db.users) : db.UsersStay db' :=
  fun _ row hrow => ⟨row, h ▸ hrow, .refl row⟩

theorem clearDeletedAt (db : Db) (v : Uuid) : db.UsersStay (db.clearDeletedAt v) := by
  intro u row hrow
  rw [show (db.clearDeletedAt v).users = db.users.clearDeletedAt v from rfl,
    Users.lookup_clearDeletedAt]
  split_ifs with hu
  · refine ⟨_, by rw [← hu, hrow]; rfl, ?_⟩
    exact ⟨rfl, rfl, rfl, rfl, rfl, fun _ => rfl⟩
  · exact ⟨row, hrow, .refl row⟩

theorem insert (hnew : db.users.rows.lookup u = none)
    (hrows : db'.users.rows = db.users.rows.insert u row) : db.UsersStay db' := by
  intro v row' hrow'
  refine ⟨row', ?_, .refl row'⟩
  rw [hrows, Table.lookup_insert_eq, if_neg]
  · exact hrow'
  · rintro rfl
    rw [hnew] at hrow'
    cases hrow'

end Db.UsersStay

namespace OAuth

variable {db db' : Db}

theorem usersStay_reactivateMatched {maxDays : UInt32} {now : Timestamp}
    {provider id reason : String} {u : Uuid} {user : UserRow}
    (h : reactivateMatched maxDays now provider id reason u user db = .ok db') :
    db.UsersStay db' := by
  obtain ⟨-, rfl⟩ | ⟨t, -, -, rfl⟩ := reactivateMatched_ok h
  · exact .refl _
  · exact (Db.UsersStay.clearDeletedAt _ u).trans (.of_eq rfl)

theorem LoginCase.usersStay {maxDays : UInt32} {now : Timestamp} {provider : String}
    {profile : OAuthUserProfile} {draws : Draws} {outcome : Except AppError (Uuid × String)}
    (h : LoginCase maxDays now provider profile draws db db' outcome) : db.UsersStay db' := by
  cases h with
  | refused => exact .refl db
  | identity _ hre => exact (usersStay_reactivateMatched hre).trans (.of_eq rfl)
  | resolved _ hres hins =>
    refine Db.UsersStay.trans ?_ (.of_eq (Db.insertAccount_eq_some hins).2.2.1)
    cases hres with
    | email _ hre => exact usersStay_reactivateMatched hre
    | upsert => exact .clearDeletedAt _ _
    | created _ _ hnew =>
      obtain ⟨hfree, hrows, -⟩ := Db.insertUser_eq_some hnew
      exact .insert hfree hrows

theorem usersStay_advance {st : AppState} {w w' : World} {job : Job} {next : Next Job Response}
    (h : advance st w job = some (w', next)) : w.db.UsersStay w'.db := by
  have heffect := (advance_cases h).effect
  generalize w'.db = db' at heffect ⊢
  cases heffect with
  | quiet husers => exact .of_eq husers
  | link hins => exact .of_eq (Db.insertAccount_eq_some hins).2.2.1
  | login hcase => exact hcase.usersStay
  | unlink => exact .of_eq rfl

end OAuth

namespace Auth

open Handlers

variable {st : AppState} {w w' : KeyServer.World} {job : Job} {next : Next Job Response}

theorem CallCase.usersStay (h : CallCase st w job w' next) : w.db.UsersStay w'.db := by
  cases h with
  | committed hcommit =>
    have hrows := registered_of_commit hcommit
    exact .insert hrows.newUser hrows.users
  | taken htake =>
    obtain ⟨-, -, rfl⟩ := Db.takeToken_eq_some.mp htake
    exact .of_eq rfl
  | issued _ hstore =>
    obtain ⟨-, rfl⟩ := Db.storeToken_eq_some hstore
    exact .of_eq rfl
  | loggedOut => exact .of_eq rfl
  | _ => exact .refl w.db

theorem account_usersStay {pick : ℕ} {x : Job ⊕ OAuth.Job}
    {next : Next (Job ⊕ OAuth.Job) (Response ⊕ OAuth.Response)}
    (h : (accountHandlers st).advance w pick x = some (w', next)) : w.db.UsersStay w'.db := by
  cases par_advance_cases h with
  | left hcall => exact (advance_cases hcall).usersStay
  | right hzoom =>
    obtain ⟨oauth, hcall, rfl⟩ := zoom_advance_cases hzoom
    exact OAuth.usersStay_advance hcall

theorem account_environ_db {e : Event ⊕ OAuth.Event}
    (h : (accountHandlers st).environ w e = some w') : w'.db = w.db := by
  cases e with
  | inl e => cases e; cases h; rfl
  | inr e => cases e; cases h; rfl

variable {s t : AccountState} {a : AccountStep} {as : List AccountStep}

theorem usersStay_step (hs : (accountHandlers st).step s a = some t) :
    s.world.db.UsersStay t.world.db := by
  cases step_cases hs with
  | arrive | fail | cancel => exact .refl s.world.db
  | advance _ hadv => exact account_usersStay hadv
  | env henv => exact .of_eq (congrArg Db.users (account_environ_db henv))

/-- No run takes a user away, and none changes who a user is. -/
theorem usersStay_run (hrun : Run (accountHandlers st).step anyStep s as t) :
    s.world.db.UsersStay t.world.db :=
  hrun.invariant (fun u => s.world.db.UsersStay u.world.db) (.refl _)
    fun _ _ _ h _ hs => h.trans (usersStay_step hs)

/-! ## Token pairs -/

/-- There is a user `u` with this name. -/
def Named (db : Db) (u : Uuid) (username : String) : Prop :=
  ∃ row, db.users.rows.lookup u = some row ∧ row.username = username

theorem Named.stays {db db' : Db} {u : Uuid} {username : String} (h : Named db u username)
    (hstay : db.UsersStay db') : Named db' u username := by
  obtain ⟨row, hrow, hname⟩ := h
  obtain ⟨row', hrow', hstays⟩ := hstay u row hrow
  exact ⟨row', hrow', hstays.username.trans hname⟩

/-- Every refresh token carries the name of its user. -/
def TokensNamed (w : KeyServer.World) : Prop :=
  ∀ token row, w.db.refreshTokens.lookup token = some row → Named w.db row.userId row.username

/-- `issue_token_pair` is called with a user and the name of the user. -/
def NamedJob (w : KeyServer.World) : Job → Prop
  | .issueTokens _ u username _ => Named w.db u username
  | _ => True

def OAuthNamedJob (w : KeyServer.World) : OAuth.Job → Prop
  | .issueTokens u username _ => Named w.db u username
  | _ => True

theorem TokensNamed.stays (h : TokensNamed w) (hstay : w.db.UsersStay w'.db)
    (htokens : ∀ token row, w'.db.refreshTokens.lookup token = some row →
      w.db.refreshTokens.lookup token = some row) : TokensNamed w' :=
  fun token row hrow => (h token row (htokens token row hrow)).stays hstay

theorem NamedJob.stays {job : Job} (h : NamedJob w job) (hstay : w.db.UsersStay w'.db) :
    NamedJob w' job := by
  cases job with
  | issueTokens => exact Named.stays h hstay
  | _ => trivial

theorem OAuthNamedJob.stays {job : OAuth.Job} (h : OAuthNamedJob w job)
    (hstay : w.db.UsersStay w'.db) : OAuthNamedJob w' job := by
  cases job with
  | issueTokens => exact Named.stays h hstay
  | _ => trivial

/-- A token that is stored for a user with the user's name. -/
theorem TokensNamed.store {token : String} {row : RefreshTokenRow} {db : Db} (h : TokensNamed w)
    (hstore : w.db.storeToken token row = some db)
    (hrow : Named w.db row.userId row.username) : TokensNamed { w with db } := by
  obtain ⟨-, rfl⟩ := Db.storeToken_eq_some hstore
  intro token' row' hrow'
  rw [Table.lookup_insert_eq] at hrow'
  split_ifs at hrow'
  · cases hrow'
    exact hrow
  · exact h token' row' hrow'

theorem named_of_checkPassword {r : LoginRequest} {u : Uuid} {username : String}
    (h : checkPassword st r (activeUser w.db r.username) = .ok (u, username)) :
    Named w.db u username := by
  cases huser : activeUser w.db r.username with
  | none => rw [huser] at h; cases h
  | some found =>
    obtain ⟨hrow, -⟩ := Table.firstWhere_eq_some huser
    rw [huser] at h
    simp only [checkPassword] at h
    split at h
    · cases h
    · split at h <;> cases h
      exact ⟨_, hrow, rfl⟩

theorem CallCase.named (h : CallCase st w job w' next) (hw : TokensNamed w)
    (hjob : NamedJob w job) :
    TokensNamed w' ∧ ∀ job', next = .goto job' → NamedJob w' job' := by
  have hstay := h.usersStay
  cases h with
  | rejected => exact ⟨hw, fun job' hnext => by cases hnext⟩
  | begun | userInserted | bundleInserted =>
    refine ⟨hw, fun job' hnext => ?_⟩
    cases hnext
    trivial
  | loggedIn hcheck =>
    refine ⟨hw, fun job' hnext => ?_⟩
    cases hnext
    exact named_of_checkPassword hcheck
  | loggedOut =>
    refine ⟨hw.stays hstay fun token row hrow => ?_, fun job' hnext => by cases hnext⟩
    exact (Table.lookup_deleteWhere_eq_some.mp hrow).1
  | committed hcommit =>
    have hrows := registered_of_commit hcommit
    have htokens : w'.db.refreshTokens = w.db.refreshTokens := commitRegistration_tokens hcommit
    refine ⟨hw.stays hstay fun token row hrow => htokens ▸ hrow, fun job' hnext => ?_⟩
    cases hnext
    exact ⟨_, by rw [hrows.users, AList.lookup_insert], rfl⟩
  | taken htake =>
    obtain ⟨hrow, -, rfl⟩ := Db.takeToken_eq_some.mp htake
    refine ⟨hw.stays hstay fun token row hrow => ?_, fun job' hnext => ?_⟩
    · rw [Table.lookup_erase_eq] at hrow
      split_ifs at hrow
      exact hrow
    · cases hnext
      exact hw _ _ hrow
  | issued _ hstore => exact ⟨hw.store hstore hjob, fun job' hnext => by cases hnext⟩

theorem named_of_login {maxDays : UInt32} {now : Timestamp} {provider : String}
    {profile : OAuth.OAuthUserProfile} {draws : OAuth.Draws} {db db' : Db} {u : Uuid}
    {name : String}
    (h : OAuth.LoginCase maxDays now provider profile draws db db' (.ok (u, name))) :
    Named db' u name := by
  have hstay := h.usersStay
  generalize houtcome : Except.ok (u, name) = outcome at h
  cases h with
  | refused => cases houtcome
  | identity hlink =>
    cases houtcome
    obtain ⟨account, -, -, hrow⟩ := Db.linkedUser_eq_some.mp hlink
    exact Named.stays ⟨_, hrow, rfl⟩ hstay
  | @resolved _ _ db₁ _ _ hres hins =>
    cases houtcome
    cases hres with
    | email huser =>
      obtain ⟨address, -, hmatch⟩ := Option.bind_eq_some_iff.mp huser
      exact Named.stays ⟨_, (Users.byEmail_eq_some.mp hmatch).1, rfl⟩ hstay
    | upsert _ huser => exact Named.stays ⟨_, (Users.byEmail_eq_some.mp huser).1, rfl⟩ hstay
    | created _ _ hnew =>
      refine ⟨_, ?_, rfl⟩
      rw [(Db.insertAccount_eq_some hins).2.2.1, (Db.insertUser_eq_some hnew).2.1,
        AList.lookup_insert]

/-- The pair that is answered, and the row that is stored. -/
theorem issueTokenPair_eq_ok {ost : OAuth.AppState} {ow ow' : OAuth.World} {u : Uuid}
    {username : String} {token : Uuid × Uuid} {pair : OAuth.AuthResponse}
    (h : OAuth.issueTokenPair ost ow u username token = .ok (ow', pair)) :
    pair.userId = u ∧
      ost.encode (OAuth.newClaims ost u username ow.now) = some pair.accessToken ∧
      ∃ row db, row.userId = u ∧ row.username = username ∧
        ow.db.storeToken pair.refreshToken row = some db ∧ ow' = { ow with db } := by
  unfold OAuth.issueTokenPair at h
  split at h
  · cases h
  · next accessToken hencode =>
    dsimp only at h
    split at h
    · cases h
    · next db hstore =>
      cases h
      exact ⟨rfl, hencode, _, db, rfl, rfl, hstore, rfl⟩

theorem oauth_tokens_kept {ost : OAuth.AppState} {ow ow' : OAuth.World} {job : OAuth.Job}
    {next : Next OAuth.Job OAuth.Response} (h : OAuth.CallCase ost ow job ow' next)
    (hjob : ∀ u username draws, job ≠ .issueTokens u username draws) :
    ow'.db.refreshTokens = ow.db.refreshTokens := by
  cases h with
  | initiated hstore | linkStored hstore =>
    obtain ⟨-, rfl⟩ := Db.storeState_eq_some hstore
    rfl
  | stateWasted htake | stateTaken htake => rw [(Db.takeState_eq_some htake).2.2]
  | linked hins => exact (OAuth.othersKept_insertAccount hins).tokens
  | loginFailed | loggedIn => exact (OAuth.findOrCreateUser_cases ..).tokens
  | issued => exact absurd rfl (hjob _ _ _)
  | _ => rfl

/-- What one call of the OAuth handlers does. -/
theorem oauth_named {ost : OAuth.AppState} {ow : OAuth.World} {job : OAuth.Job}
    {next : Next OAuth.Job OAuth.Response}
    (h : OAuth.advance ost w.toWorld job = some (ow, next)) (hw : TokensNamed w)
    (hjob : OAuthNamedJob w job) : TokensNamed { w with toWorld := ow } ∧
      ∀ job', next = .goto job' → OAuthNamedJob { w with toWorld := ow } job' := by
  by_cases hissue : ∃ u username draws, job = .issueTokens u username draws
  · obtain ⟨u, username, draws, rfl⟩ := hissue
    simp only [OAuth.advance] at h
    split at h
    · cases h
      exact ⟨hw, fun job' hnext => by cases hnext⟩
    · next ow' pair hpair =>
      cases h
      obtain ⟨-, -, row, db, rfl, rfl, hstore, rfl⟩ := issueTokenPair_eq_ok hpair
      exact ⟨hw.store hstore hjob, fun job' hnext => by cases hnext⟩
  · have hcase := OAuth.advance_cases h
    have hkept := oauth_tokens_kept hcase fun u username draws heq =>
      hissue ⟨u, username, draws, heq⟩
    have hstay := OAuth.usersStay_advance h
    refine ⟨hw.stays hstay fun token row hrow => hkept ▸ hrow, fun job' hnext => ?_⟩
    subst hnext
    generalize hgoto : Next.goto job' = next at hcase
    cases hcase with
    | named huser => cases hgoto; exact ⟨_, huser, rfl⟩
    | loggedIn hresult =>
      cases hgoto
      exact named_of_login (hresult ▸ OAuth.findOrCreateUser_cases ..)
    | _ => cases hgoto <;> trivial

/-! ## Every run -/

theorem auth_named (st : AppState) : (authHandlers st).Annotates TokensNamed NamedJob where
  arrive w job _ hentry := by
    cases job with
    | issueTokens => cases hentry
    | _ => trivial
  advance w pick job w' next hw hjob hadv := (advance_cases hadv).named hw hjob
  fail w pick job job' _ _ hfail := by
    obtain ⟨e, hdone⟩ := onFail_done st job
    have hfail : some (onFail st job) = some (.goto job') := hfail
    rw [hdone] at hfail
    cases hfail
  env w e w' hw henv := by
    cases e
    cases henv
    exact hw

theorem oauth_named_annotates (st : OAuth.AppState) :
    ((OAuth.oauthHandlers st).zoom KeyServer.World.toWorld fun (w : KeyServer.World) oauth =>
      { w with toWorld := oauth }).Annotates TokensNamed OAuthNamedJob where
  arrive w job _ hentry := by
    cases job with
    | issueTokens => cases hentry
    | _ => trivial
  advance w pick job w' next hw hjob hadv := by
    obtain ⟨oauth, hcall, rfl⟩ := zoom_advance_cases hadv
    exact oauth_named hcall hw hjob
  fail _ _ _ _ _ _ hfail := by cases hfail
  env w e w' hw henv := by
    cases e
    cases henv
    exact hw

theorem named_outline (st : AppState) :
    (accountHandlers st).ProofOutline anyStep TokensNamed fun w =>
      Sum.elim (NamedJob w) (OAuthNamedJob w) := by
  have hauth {w w' : KeyServer.World} {pick : ℕ} {job : Job} {next : Next Job Response}
      (h : (authHandlers st).advance w pick job = some (w', next)) : w.db.UsersStay w'.db :=
    (advance_cases h).usersStay
  have hoauth {w w' : KeyServer.World} {pick : ℕ} {job : OAuth.Job}
      {next : Next OAuth.Job OAuth.Response}
      (h : ((OAuth.oauthHandlers st.toAppState).zoom KeyServer.World.toWorld
        fun (w : KeyServer.World) oauth => { w with toWorld := oauth }).advance w pick job =
          some (w', next)) :
      w.db.UsersStay w'.db := by
    obtain ⟨oauth, hcall, rfl⟩ := zoom_advance_cases h
    exact OAuth.usersStay_advance hcall
  refine .par (auth_named st) (oauth_named_annotates st.toAppState)
    ⟨fun _ _ _ _ _ _ _ _ hk h => hk.stays (hauth h), ?_⟩
    ⟨fun _ _ _ _ _ _ _ _ hk h => hk.stays (hauth h), ?_⟩
    ⟨fun _ _ _ _ _ _ _ _ hk h => hk.stays (hoauth h), ?_⟩
    ⟨fun _ _ _ _ _ _ _ _ hk h => hk.stays (hoauth h), ?_⟩
  all_goals
    intro w e w' k _ hk henv
    cases e
    cases henv
    exact hk

/-! ## The pairs that are sent -/

/-- The token pair of an answer. -/
def tokenPair? : Response ⊕ OAuth.Response → Option OAuth.AuthResponse
  | .inl (.created pair) | .inl (.tokens pair) | .inr (.tokens pair) => some pair
  | .inl .noContent | .inl (.error _) => none
  | .inr (.initiated _) | .inr .noContent | .inr (.error _) => none

/-- The user and the name that `issue_token_pair` is called with. -/
def issuee? : Job ⊕ OAuth.Job → Option (Uuid × String)
  | .inl (.issueTokens _ u username _) | .inr (.issueTokens u username _) => some (u, username)
  | _ => none

theorem oauth_pair {ost : OAuth.AppState} {ow ow' : OAuth.World} {job : OAuth.Job}
    {pair : OAuth.AuthResponse}
    (h : OAuth.advance ost ow job = some (ow', .done (some (.tokens pair)))) :
    ∃ username draws, job = .issueTokens pair.userId username draws ∧
      ost.encode (OAuth.newClaims ost pair.userId username ow.now) = some pair.accessToken := by
  have hcase := OAuth.advance_cases h
  generalize hnext : Next.done (some (OAuth.Response.tokens pair)) = next at hcase
  generalize ow' = ow₁ at hcase
  cases hcase with
  | @issued u username _ draws =>
    simp only [OAuth.advance] at h
    split at h
    · cases h
    · next ow' pair' hpair =>
      cases h
      obtain ⟨rfl, hencode, -⟩ := issueTokenPair_eq_ok hpair
      exact ⟨username, draws, rfl, hencode⟩
  | @unlinked u provider =>
    split_ifs at hnext
    · cases hnext
    · cases hnext
  | _ => cases hnext

/-- Only `issue_token_pair` answers with a pair, and it signs what it is called with. -/
theorem pair_advance {pick : ℕ} {j : Job ⊕ OAuth.Job} {r : Response ⊕ OAuth.Response}
    {pair : OAuth.AuthResponse}
    (hw : (accountHandlers st).advance w pick j = some (w', .done (some r)))
    (hpair : tokenPair? r = some pair) : ∃ username, issuee? j = some (pair.userId, username) ∧
      st.encode (OAuth.newClaims st.toAppState pair.userId username w.now) =
        some pair.accessToken := by
  rcases par_advance_done hw with ⟨j, r, rfl, rfl, hcall⟩ | ⟨j, r, rfl, rfl, hcall⟩
  · have hcall : advance st w j = some (w', .done (some r)) := hcall
    generalize hnext : Next.done (some r) = next at hcall
    cases advance_cases hcall with
    | @issued caller u username accessToken token db hencode =>
      cases hnext
      cases caller with
      | _ =>
        cases hpair
        exact ⟨username, rfl, hencode⟩
    | rejected => cases hnext; cases hpair
    | loggedOut => cases hnext; cases hpair
    | _ => cases hnext
  · obtain ⟨ow, hadv, rfl⟩ := zoom_advance_cases hcall
    cases r with
    | tokens pair' =>
      cases hpair
      obtain ⟨username, draws, rfl, hencode⟩ := oauth_pair hadv
      exact ⟨username, rfl, hencode⟩
    | _ => cases hpair

/-- A call that fails answers no pair. -/
theorem tokenPair_fail {pick : ℕ} {j : Job ⊕ OAuth.Job} {r : Response ⊕ OAuth.Response}
    (hn : (accountHandlers st).onFail pick j = some (.done (some r))) : tokenPair? r = none := by
  rcases j with j | j
  · obtain ⟨e, he⟩ := onFail_done st j
    have hn : some ((onFail st j).map Sum.inl Sum.inl) = some (.done (some r)) := hn
    rw [he] at hn
    cases hn
    rfl
  · cases hn
    rfl

/-- The access token of the pair was signed for the user and under the name that the user
    has now. -/
def PairNamed (st : AppState) (w : KeyServer.World) (pair : OAuth.AuthResponse) : Prop :=
  ∃ row t, w.db.users.rows.lookup pair.userId = some row ∧ t ≤ w.now ∧
    st.encode (OAuth.newClaims st.toAppState pair.userId row.username t) = some pair.accessToken

theorem PairNamed.stays {pair : OAuth.AuthResponse} (h : PairNamed st w pair)
    (hstay : w.db.UsersStay w'.db) (hnow : w.now ≤ w'.now) : PairNamed st w' pair := by
  obtain ⟨row, time, hrow, htime, hencode⟩ := h
  obtain ⟨row', hrow', hstays⟩ := hstay _ row hrow
  exact ⟨row', time, hrow', htime.trans hnow, by rw [hstays.username]; exact hencode⟩

/-- Every pair that was sent is a pair for its user. -/
def PairsNamed (st : AppState) (s : AccountState) : Prop :=
  ∀ j r pair, (j, r) ∈ s.answers → tokenPair? r = some pair → PairNamed st s.world pair

theorem pairsNamed_step (h : PairsNamed st s)
    (hholds : Holds TokensNamed (fun w => Sum.elim (NamedJob w) (OAuthNamedJob w)) s)
    (hs : (accountHandlers st).step s a = some t) : PairsNamed st t := by
  have hstay := usersStay_step hs
  have hnow := account_now hs
  have hkept : ∀ j r pair, (j, r) ∈ s.answers → tokenPair? r = some pair →
      PairNamed st t.world pair :=
    fun j r pair hmem hpair => (h j r pair hmem hpair).stays hstay hnow
  cases answer_cases hs with
  | silent heq =>
    intro j r pair hmem hpair
    exact hkept j r pair (heq ▸ hmem) hpair
  | @advanced rid pick j r _ hj hw hdone heq =>
    intro j' r' pair hmem hpair
    rw [heq] at hmem
    rcases List.mem_cons.mp hmem with heq | hmem
    · cases heq
      obtain ⟨username, hissuee, hencode⟩ := pair_advance hw hpair
      have hnamed : Named s.world.db pair.userId username := by
        have hjob := hholds.2 rid j hj
        rcases j with j | j
        · cases j with
          | issueTokens => cases hissuee; exact hjob
          | _ => cases hissuee
        · cases j with
          | issueTokens => cases hissuee; exact hjob
          | _ => cases hissuee
      obtain ⟨row, hrow, rfl⟩ := hnamed
      exact PairNamed.stays ⟨row, _, hrow, le_rfl, hencode⟩ hstay hnow
    · exact hkept j' r' pair hmem hpair
  | @failed rid pick j r _ hj hn heq =>
    intro j' r' pair hmem hpair
    rw [heq] at hmem
    rcases List.mem_cons.mp hmem with heq | hmem
    · cases heq
      rw [tokenPair_fail hn] at hpair
      cases hpair
    · exact hkept j' r' pair hmem hpair

/-- In every state that a run of the account handlers leads to, the refresh tokens carry the
    names of their users, and every token pair that was sent is for a user who exists and
    names the user. -/
theorem token_pairs_name_users (st : AppState) (now : Timestamp) (as : List AccountStep)
    (t : AccountState)
    (hrun : Run (accountHandlers st).step anyStep (Sys.idle (startWorld now)) as t) :
    TokensNamed t.world ∧ PairsNamed st t := by
  have hidle : Holds TokensNamed (fun w => Sum.elim (NamedJob w) (OAuthNamedJob w))
      (Sys.idle (startWorld now) : AccountState) :=
    holds_idle fun token row hrow => by simp [startWorld, Db.empty] at hrow
  have hboth := hrun.invariant
    (fun s => Holds TokensNamed (fun w => Sum.elim (NamedJob w) (OAuthNamedJob w)) s ∧
      PairsNamed st s)
    ⟨hidle, fun j r pair hmem => by cases hmem⟩
    fun _ _ _ h hok hs => ⟨(named_outline st).preserves h.1 hok hs, pairsNamed_step h.2 h.1 hs⟩
  exact ⟨hboth.1.1, hboth.2⟩

theorem token_pairs_name_users_run : ∃ t : AccountState,
    (∃ j r pair, (j, r) ∈ t.answers ∧ tokenPair? r = some pair ∧ pair.userId = ⟨2⟩) ∧
    TokensNamed t.world ∧ PairsNamed accountServer t := by
  obtain ⟨t, hrun, hp⟩ := exists_run_of_exec (accountHandlers accountServer).step anyStep
    (Sys.idle (startWorld 0)) runAccounts
    (fun t => t.answers.any fun x => (tokenPair? x.2).any fun pair => pair.userId = ⟨2⟩)
    (by decide +kernel)
  obtain ⟨x, hx, hpair⟩ := List.any_eq_true.mp hp
  obtain ⟨pair, hsome, huser⟩ := (Option.any_eq_true _ _).mp hpair
  exact ⟨t, ⟨x.1, x.2, pair, hx, hsome, of_decide_eq_true huser⟩,
    token_pairs_name_users accountServer 0 runAccounts t hrun⟩

end Auth

end FreeBox.Server
