import FreeBox.Server.Rotation

/-!
# Failed registrations and refreshes

`register` and `refresh` alone, with any of their calls failing. `register` commits its
two rows before `issue_token_pair` stores the refresh token, and `refresh` deletes the
presented token before.

Results:
* `answers_register`: `register` alone does what `KeyServer.register` says.
* `failed_request`: what a request that answers with an error has changed.
-/

namespace FreeBox.Server.Auth

open FreeBox.Lib FreeBox.Crypto Handlers
open KeyServer (RegisterRequest RegisterDraws World checkRegister)
open OAuth (AuthResponse issueTokenPair)

variable {st : AppState} {fails : Job → Bool} {w w' : World} {job : Job} {next : Next Job Response}
  {r : RegisterRequest} {draws : RegisterDraws} {tx : Registration} {token : Uuid × Uuid}
  {e : AppError}

/-! ## One call -/

theorem call_cases (h : (authHandlers st).call fails w job = some (w', next)) :
    (w' = w ∧ ∃ e, next = .done (some (.error e))) ∨
      fails job = false ∧ CallCase st w job w' next := by
  by_cases hfails : fails job = true
  · rw [call_eq_onFail hfails] at h
    obtain ⟨e, hfail⟩ := onFail_done st job
    have honFail : (authHandlers st).onFail 0 job = some (.done (some (.error e))) :=
      congrArg some hfail
    rw [honFail] at h
    cases h
    exact .inl ⟨rfl, e, rfl⟩
  · rw [call_eq_advance (Bool.eq_false_of_not_eq_true hfails)] at h
    exact .inr ⟨Bool.eq_false_of_not_eq_true hfails, advance_cases h⟩

theorem commitRegistration_eq_ok (h : commitRegistration w tx = .ok w') :
    ∃ db, w.db.insertUser tx.userId tx.row = some db ∧ tx.userId ∉ w.bundles ∧
      w' = { w with
        db
        bundles := w.bundles.insert tx.userId
          { bundle := tx.bundle, updatedAt := tx.row.createdAt } } := by
  unfold commitRegistration at h
  split at h
  · cases h
  · next db huser =>
    split at h
    · cases h
    · next bundles hbundle =>
      obtain ⟨hnew, rfl⟩ := Table.insertNew_eq_some hbundle
      cases h
      exact ⟨db, huser, AList.lookup_eq_none.mp hnew, rfl⟩

/-! ## Registration alone -/

/-- The answer of `register` as a single step. -/
def registered : KeyServer.Response → Option Response
  | .created tokens => some (.created tokens)
  | .error e => some (.error e)
  | _ => none

/-- What `register` does before its transaction depends on the time only in `created_at`. -/
theorem prepareRegister_eq (st : AppState) (now : Timestamp) (r : RegisterRequest)
    (draws : RegisterDraws) : prepareRegister st now r draws =
      (prepareRegister st 0 r draws).map fun tx =>
        { tx with row := { tx.row with createdAt := now } } := by
  unfold prepareRegister
  cases checkRegister st.toKeyServer r with
  | error e => rfl
  | ok bundle =>
    cases st.hashPasswordServer r.passwordHash draws.salt with
    | error e => rfl
    | ok serverHash => rfl

theorem register_eq (st : AppState) (w : World) (dbFails : Bool) (r : RegisterRequest)
    (draws : RegisterDraws) : KeyServer.register st.toKeyServer w dbFails r draws =
      match prepareRegister st w.now r draws with
      | .error e => (w, .error e)
      | .ok tx =>
        if dbFails then (w, .error .internal) else
        match commitRegistration w tx with
        | .error e => (w, .error e)
        | .ok w' =>
          match issueTokenPair st.toAppState w'.toWorld tx.userId tx.row.username draws.token with
          | .error e => (w', .error e)
          | .ok (oauth, tokens) => ({ w' with toWorld := oauth }, .created tokens) := by
  unfold KeyServer.register prepareRegister
  cases checkRegister st.toKeyServer r with
  | error e => rfl
  | ok bundle =>
    cases st.hashPasswordServer r.passwordHash draws.salt with
    | error e => rfl
    | ok serverHash => rfl

/-- What the `COMMIT` would refuse, an `INSERT` before it refuses. -/
theorem answers_insertUser_error (hcommit : commitRegistration w tx = .error e) :
    (authHandlers st).Answers (fun _ => false) w (.insertUser tx token) w (.error e) := by
  unfold commitRegistration at hcommit
  by_cases hadmits : w.db.users.admits tx.userId tx.row = true
  · obtain ⟨db, hins⟩ := Db.exists_insertUser hadmits
    have hgoto : advance st w (.insertUser tx token) = some (w, .goto (.insertBundle tx token)) := by
      simp only [advance, if_pos hadmits]
    refine .goto hgoto (.done (?_ : advance st w (.insertBundle tx token) = _))
    rw [hins] at hcommit
    by_cases hbundle : tx.userId ∈ w.bundles
    · rw [Table.insertNew, if_pos hbundle] at hcommit
      cases hcommit
      simp only [advance, if_pos hbundle]
    · rw [Table.insertNew, if_neg hbundle] at hcommit
      cases hcommit
  · have hnone : w.db.insertUser tx.userId tx.row = none := by
      by_contra hsome
      obtain ⟨db, hins⟩ := Option.ne_none_iff_exists'.mp hsome
      have husers := Db.insertUser_users hins
      rw [Users.insertNew, dif_neg hadmits] at husers
      cases husers
    rw [hnone] at hcommit
    cases hcommit
    refine .done (?_ : advance st w (.insertUser tx token) = _)
    simp only [advance, if_neg hadmits]

/-- A transaction that can be committed comes to its `COMMIT`. -/
theorem answers_insertUser_ok {w₁ : World} {response : Response}
    (hcommit : commitRegistration w tx = .ok w₁)
    (hrest : (authHandlers st).Answers (fun _ => false) w₁
      (.issueTokens .register tx.userId tx.row.username token) w' response) :
    (authHandlers st).Answers (fun _ => false) w (.insertUser tx token) w' response := by
  obtain ⟨db, hins, hbundle, -⟩ := commitRegistration_eq_ok hcommit
  have hadmits : w.db.users.admits tx.userId tx.row = true := by
    have husers := Db.insertUser_users hins
    unfold Users.insertNew at husers
    split_ifs at husers with hadmits
    exact hadmits
  have huser : advance st w (.insertUser tx token) = some (w, .goto (.insertBundle tx token)) := by
    simp only [advance, if_pos hadmits]
  have hnext : advance st w (.insertBundle tx token) = some (w, .goto (.commit tx token)) := by
    simp only [advance, if_neg hbundle]
  have hlast : advance st w (.commit tx token) =
      some (w₁, .goto (.issueTokens .register tx.userId tx.row.username token)) := by
    simp only [advance, hcommit]
  exact .goto huser (.goto hnext (.goto hlast hrest))

/-- `register` alone, with all of its calls failing or none, does what `KeyServer.register`
    says. -/
theorem answers_register (st : AppState) (dbFails : Bool) (w : World) (r : RegisterRequest)
    (draws : RegisterDraws) : ∃ response,
      registered (KeyServer.register st.toKeyServer w dbFails r draws).2 = some response ∧
      (authHandlers st).Answers (fun _ => dbFails) w (.register r draws)
        (KeyServer.register st.toKeyServer w dbFails r draws).1 response := by
  rw [register_eq]
  cases hprepare : prepareRegister st w.now r draws with
  | error e =>
    refine ⟨.error e, rfl, .done ?_⟩
    cases dbFails with
    | false =>
      show advance st w (.register r draws) = _
      simp only [advance, hprepare]
    | true =>
      have hzero : prepareRegister st 0 r draws = .error e := by
        rw [prepareRegister_eq] at hprepare
        cases h₀ : prepareRegister st 0 r draws with
        | error e' => rw [h₀] at hprepare; exact hprepare
        | ok tx => rw [h₀] at hprepare; cases hprepare
      show some (w, onFail st (.register r draws)) = _
      simp only [onFail, hzero]
  | ok tx =>
    cases dbFails with
    | true =>
      obtain ⟨tx₀, hzero⟩ : ∃ tx₀, prepareRegister st 0 r draws = .ok tx₀ := by
        rw [prepareRegister_eq] at hprepare
        cases h₀ : prepareRegister st 0 r draws with
        | error e' => rw [h₀] at hprepare; cases hprepare
        | ok tx₀ => exact ⟨tx₀, rfl⟩
      refine ⟨.error .internal, rfl, .done ?_⟩
      show some (w, onFail st (.register r draws)) = _
      simp only [onFail, hzero, if_true]
    | false =>
      have hbegin : advance st w (.register r draws) = some (w, .goto (.insertUser tx draws.token)) := by
        simp only [advance, hprepare]
      simp only [Bool.false_eq_true, if_false]
      cases hcommit : commitRegistration w tx with
      | error e => exact ⟨.error e, rfl, .goto hbegin (answers_insertUser_error hcommit)⟩
      | ok w₁ =>
        dsimp only
        cases hissue : issueTokenPair st.toAppState w₁.toWorld tx.userId tx.row.username
          draws.token with
        | error e =>
          refine ⟨.error e, rfl, .goto hbegin (answers_insertUser_ok hcommit (.done ?_))⟩
          show advance st w₁ (.issueTokens .register tx.userId tx.row.username draws.token) = _
          simp only [advance, hissue]
        | ok issued =>
          refine ⟨.created issued.2, rfl, .goto hbegin (answers_insertUser_ok hcommit (.done ?_))⟩
          show advance st w₁ (.issueTokens .register tx.userId tx.row.username draws.token) = _
          simp only [advance, hissue]
          rfl

/-! ## What a failed request has changed -/

/-- `issue_token_pair` fails: its `INSERT` does, or it makes no tokens that can be stored. -/
def IssueFails (st : AppState) (fails : Job → Bool) (w : World) (caller : Caller) (userId : Uuid)
    (username : String) (token : Uuid × Uuid) : Prop :=
  fails (.issueTokens caller userId username token) = true ∨
    ∃ e, issueTokenPair st.toAppState w.toWorld userId username token = .error e

/-- `w'` is `w` with the two rows of a registration, and nothing else is different. -/
structure Registered (w w' : World) (tx : Registration) : Prop where
  newUser : w.db.users.rows.lookup tx.userId = none
  newBundle : w.bundles.lookup tx.userId = none
  rows : ∃ (users : Users) (haccounts : ∀ key account, w.db.accounts.lookup key = some account →
      (users.rows.lookup account.userId).isSome = true),
    users.rows = w.db.users.rows.insert tx.userId tx.row ∧
    w' = { w with
      db := { w.db with users, accounts_user := haccounts }
      bundles := w.bundles.insert tx.userId
        { bundle := tx.bundle, updatedAt := tx.row.createdAt } }

/-- `w` without a refresh token, and nothing else is different. -/
def removed (w : World) (refreshToken : String) : World :=
  { w with db := { w.db with refreshTokens := w.db.refreshTokens.erase refreshToken } }

/-- The transaction that a handler of `register` is going to commit, with the identifiers
    of its token. -/
def Job.registers (st : AppState) (now : Timestamp) : Job → Option (Registration × (Uuid × Uuid))
  | .register r draws => (prepareRegister st now r draws).toOption.map fun tx => (tx, draws.token)
  | .insertUser tx token | .insertBundle tx token | .commit tx token => some (tx, token)
  | _ => none

/-- What a handler that ends with an error can leave behind. -/
inductive FailureCase (st : AppState) (fails : Job → Bool) (w : World) : Job → World → Prop
  | unchanged {job : Job} : FailureCase st fails w job w
  | registered {job : Job} {tx : Registration} {token : Uuid × Uuid} {w' : World}
      (hjob : job.registers st w.now = some (tx, token)) (hrows : Registered w w' tx)
      (hissue : IssueFails st fails w' .register tx.userId tx.row.username token) :
      FailureCase st fails w job w'
  | refreshed {refreshToken : String} {token : Uuid × Uuid} {row : RefreshTokenRow} {w' : World}
      (hrow : w.db.refreshTokens.lookup refreshToken = some row) (hlive : w.now < row.expiresAt)
      (hremoved : w' = removed w refreshToken)
      (hissue : IssueFails st fails w' (.refresh refreshToken) row.userId row.username token) :
      FailureCase st fails w (.refresh refreshToken token) w'

theorem Registered.users (h : Registered w w' tx) :
    w'.db.users.rows = w.db.users.rows.insert tx.userId tx.row := by
  obtain ⟨users, -, hrows, rfl⟩ := h.rows
  exact hrows

theorem Registered.bundles (h : Registered w w' tx) : w'.bundles = w.bundles.insert tx.userId
    { bundle := tx.bundle, updatedAt := tx.row.createdAt } := by
  obtain ⟨users, -, -, rfl⟩ := h.rows
  rfl

theorem registered_of_commit (h : commitRegistration w tx = .ok w') : Registered w w' tx := by
  obtain ⟨db, huser, hbundle, rfl⟩ := commitRegistration_eq_ok h
  have hnew := (Db.insertUser_eq_some huser).1
  obtain ⟨users, haccounts, hrows, rfl⟩ := Db.insertUser_eq_update huser
  exact ⟨hnew, AList.lookup_eq_none.mpr hbundle, users, haccounts, hrows, rfl⟩

theorem issue_failed {caller : Caller} {userId : Uuid} {username : String}
    (h : (authHandlers st).Answers fails w (.issueTokens caller userId username token) w'
      (.error e)) : w' = w ∧ IssueFails st fails w caller userId username token := by
  by_cases hfails : fails (.issueTokens caller userId username token) = true
  · obtain ⟨hw, -⟩ := h.inv_done (call_eq_onFail hfails)
    exact ⟨hw, .inl hfails⟩
  · have hcall := call_eq_advance (H := authHandlers st) (w := w)
      (Bool.eq_false_of_not_eq_true hfails)
    cases hissue : issueTokenPair st.toAppState w.toWorld userId username token with
    | error e' =>
      have hadv : (authHandlers st).advance w 0 (.issueTokens caller userId username token) =
          some (w, .done (some (.error e'))) := by
        show Auth.advance st w (.issueTokens caller userId username token) = _
        simp only [advance, hissue]
      obtain ⟨hw, -⟩ := h.inv_done (hcall.trans hadv)
      exact ⟨hw, .inr ⟨e', hissue⟩⟩
    | ok issued =>
      have hadv : (authHandlers st).advance w 0 (.issueTokens caller userId username token) =
          some ({ w with toWorld := issued.1 }, .done (some (caller.response issued.2))) := by
        show Auth.advance st w (.issueTokens caller userId username token) = _
        simp only [advance, hissue]
      obtain ⟨-, hanswer⟩ := h.inv_done (hcall.trans hadv)
      cases caller <;> cases hanswer

/-- The tables are as before, unless `issue_token_pair` fails. Then `register` has added its
    two rows and `refresh` has removed the presented token. -/
theorem failed_request (h : (authHandlers st).Answers fails w job w' (.error e)) :
    FailureCase st fails w job w' := by
  generalize hresponse : Response.error e = response at h
  -- on the calls of the handler
  induction h with
  | done hcall =>
    rcases call_cases hcall with ⟨rfl, -⟩ | ⟨-, hcase⟩
    · exact .unchanged
    · cases hcase with
      | rejected => exact .unchanged
      | @issued caller => cases caller <;> cases hresponse
      | loggedOut => cases hresponse
  | goto hcall hrest ih =>
    rcases call_cases hcall with ⟨-, e', hnext⟩ | ⟨-, hcase⟩
    · cases hnext
    · subst hresponse
      cases hcase with
      | begun hprepare =>
        cases ih rfl with
        | unchanged => exact .unchanged
        | registered hjob hrows hissue =>
          cases hjob
          exact .registered (by simp [Job.registers, hprepare, Except.toOption]) hrows hissue
      | userInserted =>
        cases ih rfl with
        | unchanged => exact .unchanged
        | registered hjob hrows hissue => exact .registered hjob hrows hissue
      | bundleInserted =>
        cases ih rfl with
        | unchanged => exact .unchanged
        | registered hjob hrows hissue => exact .registered hjob hrows hissue
      | committed hcommit =>
        obtain ⟨rfl, hissue⟩ := issue_failed hrest
        exact .registered rfl (registered_of_commit hcommit) hissue
      | loggedIn =>
        obtain ⟨rfl, -⟩ := issue_failed hrest
        exact .unchanged
      | taken htake =>
        obtain ⟨rfl, hissue⟩ := issue_failed hrest
        obtain ⟨hrow, hlive, rfl⟩ := Db.takeToken_eq_some.mp htake
        exact .refreshed hrow hlive rfl hissue

/-! ### Concrete failures -/

/-- The `INSERT` of `issue_token_pair` fails, and no other call. -/
def insertTokenFails : Job → Bool
  | .issueTokens .. => true
  | _ => false

def runRegistration : Job :=
  .register
    { username := "bob"
      email := "bob@example.com"
      passwordHash := "hash"
      argon2Salt := "salt"
      bundleSize := 1000
      prekeyBundle := .ok (KeyServer.runBundle 1) }
    { salt := "salt", userId := ⟨2⟩, token := (⟨20⟩, ⟨20⟩) }

/-- The refresh token of the user of concrete runs. -/
def runToken : String := refreshTokenOf (⟨10⟩, ⟨10⟩)

/-- The user has logged in. -/
def loggedInWorld : World :=
  { runWorld with
    db := (runWorld.db.storeToken runToken
      { userId := runUser, username := "alice", expiresAt := 1, createdAt := 0 }).getD .empty }

theorem exists_error (st : AppState) (fails : Job → Bool) (w : World) (job : Job)
    (p : World → Bool) (h : ((authHandlers st).answer fails 5 w job).any (fun x => match x.2 with
      | .error _ => p x.1
      | _ => false) = true) :
    ∃ w' e, (authHandlers st).Answers fails w job w' (.error e) ∧ p w' = true := by
  obtain ⟨w', response, hanswer, hp⟩ := exists_answers (authHandlers st) fails 5 w job _ h
  cases response with
  | error e => exact ⟨w', e, hanswer, hp⟩
  | _ => cases hp

theorem failed_request_refresh : ∃ w' e, (authHandlers runServer).Answers insertTokenFails
    loggedInWorld (.refresh runToken (⟨11⟩, ⟨11⟩)) w' (.error e) ∧
    FailureCase runServer insertTokenFails loggedInWorld (.refresh runToken (⟨11⟩, ⟨11⟩)) w' := by
  obtain ⟨w', e, h, -⟩ := exists_error runServer insertTokenFails loggedInWorld
    (.refresh runToken (⟨11⟩, ⟨11⟩)) (fun _ => true) (by decide +kernel)
  exact ⟨w', e, h, failed_request h⟩

/-- A registration fails and takes the username, and a refresh fails and takes the token. -/
theorem failed_requests_persist :
    (∃ w' e, (authHandlers runServer).Answers insertTokenFails loggedInWorld runRegistration w'
        (.error e) ∧
      activeUser loggedInWorld.db "bob" = none ∧ activeUser w'.db "bob" ≠ none) ∧
    ∃ w' e, (authHandlers runServer).Answers insertTokenFails loggedInWorld
        (.refresh runToken (⟨11⟩, ⟨11⟩)) w' (.error e) ∧
      loggedInWorld.db.refreshTokens.lookup runToken ≠ none ∧
      w'.db.refreshTokens.lookup runToken = none := by
  constructor
  · obtain ⟨w', e, h, hp⟩ := exists_error runServer insertTokenFails loggedInWorld runRegistration
      (fun w' => activeUser w'.db "bob" ≠ none) (by decide +kernel)
    exact ⟨w', e, h, by decide +kernel, of_decide_eq_true hp⟩
  · obtain ⟨w', e, h, hp⟩ := exists_error runServer insertTokenFails loggedInWorld
      (.refresh runToken (⟨11⟩, ⟨11⟩)) (fun w' => w'.db.refreshTokens.lookup runToken = none)
      (by decide +kernel)
    exact ⟨w', e, h, by decide +kernel, of_decide_eq_true hp⟩

end FreeBox.Server.Auth
