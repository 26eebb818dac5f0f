import FreeBox.Server.Http
import FreeBox.Server.UserRows

/-!
# Where token pairs come from

A token pair is issued after a registration, a password or an OAuth login, in exchange for
another refresh token, or at the end of a link flow, which its user has started with an access
token. Requests run concurrently, and any of their calls may fail.

Results:
* `grounded_advance`: a call acts for the user that it acted for before, unless it
  authenticates the user.
* `token_pairs_authenticated`: no one has a token pair of a user who was never authenticated.
-/

namespace FreeBox.Server.Auth

open FreeBox.Lib Handlers
open OAuth (AuthResponse findOrCreateUser readFlow)

/-- The next call of the handler authenticates `u`: the user registers, knows the password, or
    logs in with an identity. -/
inductive Authenticates (st : AppState) (w : KeyServer.World) (u : Uuid) : Job ⊕ OAuth.Job → Prop
  | registered {tx : Registration} {token : Uuid × Uuid} {w' : KeyServer.World}
      (huser : tx.userId = u) (hcommit : commitRegistration w tx = .ok w') :
      Authenticates st w u (.inl (.commit tx token))
  | password {r : LoginRequest} {token : Uuid × Uuid} {username : String}
      (hcheck : checkPassword st r (activeUser w.db r.username) = .ok (u, username)) :
      Authenticates st w u (.inl (.login r token))
  | identity {provider username : String} {profile : OAuth.OAuthUserProfile} {draws : OAuth.Draws}
      (hlogin : (findOrCreateUser st.oauthReactivationMaxAgeDays w.now provider profile draws
        w.db).2 = .ok (u, username)) :
      Authenticates st w u (.inr (.login provider profile draws))

/-- The user that the handler acts for. -/
def subject? : Job ⊕ OAuth.Job → Option Uuid
  | .inl (.issueTokens _ u _ _) | .inr (.issueTokens u _ _) => some u
  | .inr (.linkCount u _ _ _) | .inr (.linkStore u _ _ _ _) => some u
  | .inr (.exchange linkUserId _ _) => linkUserId
  | .inr (.linkSelect u _ _ _) | .inr (.linkInsert u _ _ _) | .inr (.linkUsername u _) => some u
  | _ => none

/-- Everyone for whom there is a refresh token or a link flow is one of `P`. -/
structure Grounds (P : Uuid → Prop) (w : KeyServer.World) : Prop where
  tokens : ∀ token row, w.db.refreshTokens.lookup token = some row → P row.userId
  flows : ∀ token row provider u, w.db.oauthStates.lookup token = some row →
    readFlow row.provider provider = .ok (some u) → P u

/-- Everyone for whom the server acts, or has acted, is one of `P`. -/
structure Grounded (st : AppState) (P : Uuid → Prop) (s : AccountState) : Prop where
  world : Grounds P s.world
  jobs : ∀ rid j u, s.jobs.lookup rid = some j → subject? j = some u → P u
  answers : ∀ j r pair, (j, r) ∈ s.answers → tokenPair? r = some pair → P pair.userId ∧
    ∃ username t, st.encode (OAuth.newClaims st.toAppState pair.userId username t) =
      some pair.accessToken

variable {st : AppState} {P Q : Uuid → Prop} {w w' : KeyServer.World} {s t : AccountState}
  {a : AccountStep}

theorem Grounds.mono (h : Grounds P w) (himp : ∀ u, P u → Q u) : Grounds Q w where
  tokens token row hrow := himp _ (h.tokens token row hrow)
  flows token row provider u hrow hread := himp u (h.flows token row provider u hrow hread)

theorem Grounded.mono (h : Grounded st P s) (himp : ∀ u, P u → Q u) : Grounded st Q s where
  world := h.world.mono himp
  jobs rid j u hj hu := himp u (h.jobs rid j u hj hu)
  answers j r pair hmem hpair :=
    ⟨himp _ (h.answers j r pair hmem hpair).1, (h.answers j r pair hmem hpair).2⟩

theorem grounded_idle (st : AppState) (P : Uuid → Prop) (now : Timestamp) :
    Grounded st P (Sys.idle (startWorld now)) where
  world := ⟨fun token row hrow => by simp [Sys.idle, startWorld, Db.empty] at hrow,
    fun token row provider u hrow => by simp [Sys.idle, startWorld, Db.empty] at hrow⟩
  jobs rid j u hj := by simp [Sys.idle] at hj
  answers j r pair hmem := by cases hmem

/-! ## One call -/

theorem Grounds.of_eq (h : Grounds P w) (htokens : w'.db.refreshTokens = w.db.refreshTokens)
    (hflows : w'.db.oauthStates = w.db.oauthStates) : Grounds P w' where
  tokens token row hrow := h.tokens token row (htokens ▸ hrow)
  flows token row provider u hrow := h.flows token row provider u (hflows ▸ hrow)

/-- A refresh token is stored for one of `P`, and flows are not. -/
theorem Grounds.store {token : String} {row : RefreshTokenRow} {db : Db} (h : Grounds P w)
    (hstore : w.db.storeToken token row = some db) (hrow : P row.userId) :
    Grounds P { w with db } := by
  obtain ⟨-, rfl⟩ := Db.storeToken_eq_some hstore
  refine ⟨fun token' row' hlookup => ?_, h.flows⟩
  rw [Table.lookup_insert_eq] at hlookup
  split_ifs at hlookup
  · cases hlookup
    exact hrow
  · exact h.tokens token' row' hlookup

theorem states_of_commit {tx : Registration} (h : commitRegistration w tx = .ok w') :
    w'.db.oauthStates = w.db.oauthStates := by
  obtain ⟨db, hins, -, rfl⟩ := commitRegistration_eq_ok h
  unfold Db.insertUser at hins
  split at hins
  · cases hins
  · cases hins
    rfl

theorem CallCase.grounds {job : Job} {next : Next Job Response} (h : CallCase st w job w' next)
    (hw : Grounds P w) (hjob : ∀ u, subject? (.inl job) = some u → P u)
    (hauth : ∀ u, Authenticates st w u (.inl job) → P u) :
    Grounds P w' ∧ ∀ job' u, next = .goto job' → subject? (.inl job') = some u → P u := by
  cases h with
  | rejected => exact ⟨hw, fun job' u hnext => by cases hnext⟩
  | begun | userInserted | bundleInserted =>
    refine ⟨hw, fun job' u hnext hu => ?_⟩
    cases hnext
    cases hu
  | loggedIn hcheck =>
    refine ⟨hw, fun job' u hnext hu => ?_⟩
    cases hnext
    cases hu
    exact hauth _ (.password hcheck)
  | loggedOut =>
    refine ⟨⟨fun token row hrow => ?_, hw.flows⟩, fun job' u hnext => by cases hnext⟩
    exact hw.tokens token row (Table.lookup_deleteWhere_eq_some.mp hrow).1
  | committed hcommit =>
    refine ⟨hw.of_eq (commitRegistration_tokens hcommit) (states_of_commit hcommit),
      fun job' u hnext hu => ?_⟩
    cases hnext
    cases hu
    exact hauth _ (.registered rfl hcommit)
  | taken htake =>
    obtain ⟨hrow, -, rfl⟩ := Db.takeToken_eq_some.mp htake
    refine ⟨⟨fun token row hlookup => ?_, hw.flows⟩, fun job' u hnext hu => ?_⟩
    · rw [Table.lookup_erase_eq] at hlookup
      split_ifs at hlookup
      exact hw.tokens token row hlookup
    · cases hnext
      cases hu
      exact hw.tokens _ _ hrow
  | issued _ hstore => exact ⟨hw.store hstore (hjob _ rfl), fun job' u hnext => by cases hnext⟩

/-- A link flow is stored for the user that the request acts for. -/
theorem flows_advance {ost : OAuth.AppState} {ow ow' : OAuth.World} {job : OAuth.Job}
    {next : Next OAuth.Job OAuth.Response} (h : OAuth.advance ost ow job = some (ow', next))
    {token provider : String} {row : OAuthStateRow} {u : Uuid}
    (hrow : ow'.db.oauthStates.lookup token = some row)
    (hread : readFlow row.provider provider = .ok (some u)) :
    ow.db.oauthStates.lookup token = some row ∨ subject? (.inr job) = some u := by
  have heffect := OAuth.advance_states h
  generalize ow'.db.oauthStates = states at heffect hrow
  cases heffect with
  | same => exact .inl hrow
  | taken =>
    rw [Table.lookup_erase_eq] at hrow
    split_ifs at hrow
    exact .inl hrow
  | @created f pkceVerifier hflow hplain =>
    rw [Table.lookup_insert_eq] at hrow
    split_ifs at hrow
    · right
      cases hrow
      rw [show (OAuth.stateRow pkceVerifier f.stored ow.now).provider = f.stored from rfl,
        OAuth.readFlow_stored hplain] at hread
      split_ifs at hread
      have hlink : f.linkUserId = some u := Except.ok.inj hread
      cases job with
      | initiate => cases hflow; cases hlink
      | linkCount => cases hflow; exact hlink
      | linkStore => cases hflow; exact hlink
      | _ => cases hflow
    · exact .inl hrow

theorem oauth_grounds {ow : OAuth.World} {job : OAuth.Job} {next : Next OAuth.Job OAuth.Response}
    (h : OAuth.advance st.toAppState w.toWorld job = some (ow, next)) (hw : Grounds P w)
    (hjob : ∀ u, subject? (.inr job) = some u → P u) : Grounds P { w with toWorld := ow } := by
  refine ⟨?_, fun token row provider u hrow hread => ?_⟩
  · by_cases hissue : ∃ u username draws, job = .issueTokens u username draws
    · obtain ⟨u, username, draws, rfl⟩ := hissue
      simp only [OAuth.advance] at h
      split at h
      · cases h
        exact hw.tokens
      · next ow' pair hpair =>
        cases h
        obtain ⟨-, -, row, db, rfl, rfl, hstore, rfl⟩ := issueTokenPair_eq_ok hpair
        exact (hw.store hstore (hjob _ rfl)).tokens
    · have hkept := oauth_tokens_kept (OAuth.advance_cases h) fun u username draws heq =>
        hissue ⟨u, username, draws, heq⟩
      exact fun token row hrow => hw.tokens token row (hkept ▸ hrow)
  · rcases flows_advance h hrow hread with hold | hsubject
    · exact hw.flows token row provider u hold hread
    · exact hjob u hsubject

/-- A handler goes on for the user that it acts for. It begins to act for a user whom it
    authenticates, and for the user of a link flow. -/
theorem oauth_subject {ow : OAuth.World} {job job' : OAuth.Job} {u : Uuid}
    (h : OAuth.advance st.toAppState w.toWorld job = some (ow, .goto job')) (hw : Grounds P w)
    (hjob : ∀ u, subject? (.inr job) = some u → P u)
    (hauth : ∀ u, Authenticates st w u (.inr job) → P u) (hu : subject? (.inr job') = some u) :
    P u := by
  have hcase := OAuth.advance_cases h
  generalize hnext : Next.goto job' = next at hcase
  generalize ow = ow₁ at hcase
  cases hcase with
  | mayLink | profileForLink | alreadyLinked | notLinked | linked | named =>
    cases hnext
    exact hjob u hu
  | stateTaken htake hflow =>
    cases hnext
    obtain rfl : _ = some u := hu
    exact hw.flows _ _ _ u (Db.takeState_eq_some htake).1 hflow
  | loggedIn hresult =>
    cases hnext
    cases hu
    exact hauth _ (.identity hresult)
  | _ => cases hnext <;> cases hu

/-- A call acts for the user that it acted for before, unless it authenticates the user. -/
theorem grounded_advance {pick : ℕ} {j : Job ⊕ OAuth.Job}
    {next : Next (Job ⊕ OAuth.Job) (Response ⊕ OAuth.Response)}
    (h : (accountHandlers st).advance w pick j = some (w', next)) (hw : Grounds P w)
    (hjob : ∀ u, subject? j = some u → P u) (hauth : ∀ u, Authenticates st w u j → P u) :
    Grounds P w' ∧ ∀ j' u, next = .goto j' → subject? j' = some u → P u := by
  cases par_advance_cases h with
  | @left job _ next hcall =>
    obtain ⟨hworld, hgoto⟩ := (advance_cases hcall).grounds hw hjob hauth
    refine ⟨hworld, fun j' u hnext hu => ?_⟩
    obtain ⟨job', rfl, rfl⟩ := Next.map_eq_goto hnext
    exact hgoto job' u rfl hu
  | @right job _ next hzoom =>
    obtain ⟨ow, hcall, rfl⟩ := zoom_advance_cases hzoom
    refine ⟨oauth_grounds hcall hw hjob, fun j' u hnext hu => ?_⟩
    obtain ⟨job', rfl, rfl⟩ := Next.map_eq_goto hnext
    exact oauth_subject hcall hw hjob hauth hu

/-! ## One step -/

/-- A request to link a provider comes with an access token that was sent to someone. `decode`
    is that of `require_auth`. -/
def showsSentToken (decode : String → Option FreeBox.Server.Claims) (s : AccountState) :
    AccountStep → Bool
  | .arrive _ (.inr (.linkCount u _ _ _)) =>
    s.answers.any fun x => (tokenPair? x.2).any fun pair =>
      (decode pair.accessToken).any fun claims => claims.sub = u
  | _ => true

/-- No one forges an access token. -/
def NoForgery (decode : String → Option FreeBox.Server.Claims) (s : AccountState)
    (a : AccountStep) : Prop := showsSentToken decode s a = true

instance {decode : String → Option FreeBox.Server.Claims} {s : AccountState} {a : AccountStep} :
    Decidable (NoForgery decode s a) := inferInstanceAs (Decidable (_ = true))

/-- The step is a call that authenticates `u`. -/
def AuthenticatedBy (st : AppState) (u : Uuid) (s : AccountState) (a : AccountStep) : Prop :=
  ∃ rid pick j, a = .advance rid pick ∧ s.jobs.lookup rid = some j ∧
    Authenticates st s.world u j

/-- A call that fails ends its request. -/
theorem account_fail_done {pick : ℕ} {j j' : Job ⊕ OAuth.Job} :
    (accountHandlers st).onFail pick j ≠ some (.goto j') := by
  intro h
  rcases par_onFail_cases h with ⟨j, j', rfl, rfl, hfail⟩ | ⟨j, j', rfl, rfl, hfail⟩
  · obtain ⟨e, hdone⟩ := onFail_done st j
    have hfail : some (onFail st j) = some (.goto j') := hfail
    rw [hdone] at hfail
    cases hfail
  · cases hfail

theorem subject_of_issuee {j : Job ⊕ OAuth.Job} {u : Uuid} {username : String}
    (h : issuee? j = some (u, username)) : subject? j = some u := by
  rcases j with j | j
  · cases j with
    | issueTokens => cases h; rfl
    | _ => cases h
  · cases j with
    | issueTokens => cases h; rfl
    | _ => cases h

theorem grounded_step (h : Grounded st P s) (hs : (accountHandlers st).step s a = some t)
    (harrive : ∀ rid j u, a = .arrive rid j → subject? j = some u → P u)
    (hauth : ∀ u, AuthenticatedBy st u s a → P u) : Grounded st P t where
  world := by
    cases step_cases hs with
    | arrive | fail | cancel => exact h.world
    | @advance rid pick j w next hj hadv =>
      exact (grounded_advance hadv h.world (fun u => h.jobs rid j u hj)
        fun u hu => hauth u ⟨rid, pick, j, rfl, hj, hu⟩).1
    | env henv =>
      have hdb := account_environ_db henv
      exact h.world.of_eq (congrArg Db.refreshTokens hdb) (congrArg Db.oauthStates hdb)
  jobs rid k u hk hu := by
    cases job_origin hs hk with
    | old hold => exact h.jobs rid k u hold hu
    | arrived => exact harrive rid k u rfl hu
    | @advanced pick j _ hj hadv =>
      exact (grounded_advance hadv h.world (fun u => h.jobs rid j u hj)
        fun u hu => hauth u ⟨rid, pick, j, rfl, hj, hu⟩).2 k u rfl hu
    | failed _ hfail => exact absurd hfail account_fail_done
  answers k r pair hmem hpair := by
    cases answer_cases hs with
    | silent heq => exact h.answers k r pair (heq ▸ hmem) hpair
    | @advanced rid pick j r' _ hj hadv hdone heq =>
      rw [heq] at hmem
      rcases List.mem_cons.mp hmem with heq | hmem
      · cases heq
        obtain ⟨username, hissuee, hencode⟩ := pair_advance hadv hpair
        exact ⟨h.jobs rid k _ hj (subject_of_issuee hissuee), username, _, hencode⟩
      · exact h.answers k r pair hmem hpair
    | @failed rid pick j r' _ hj hn heq =>
      rw [heq] at hmem
      rcases List.mem_cons.mp hmem with heq | hmem
      · cases heq
        rw [tokenPair_fail hn] at hpair
        cases hpair
      · exact h.answers k r pair hmem hpair

/-! ## Every run -/

/-- In every run in which no one forges access tokens, whoever holds a refresh token or was sent
    a token pair was authenticated before: refreshing and linking give tokens to no one else. -/
theorem token_pairs_authenticated (st : AppState) (decode : String → Option FreeBox.Server.Claims)
    (hdecode : ∀ claims token claims', st.encode claims = some token →
      decode token = some claims' → claims'.sub = claims.sub)
    (now : Timestamp) (as : List AccountStep) (t : AccountState)
    (hrun : Run (accountHandlers st).step (NoForgery decode) (Sys.idle (startWorld now)) as t)
    (u : Uuid)
    (hu : (∃ token row, t.world.db.refreshTokens.lookup token = some row ∧ row.userId = u) ∨
      ∃ j r pair, (j, r) ∈ t.answers ∧ tokenPair? r = some pair ∧ pair.userId = u) :
    Occurs (accountHandlers st).step (NoForgery decode) (Sys.idle (startWorld now))
      (AuthenticatedBy st u) as := by
  have hgrounded : Grounded st (fun u => Occurs (accountHandlers st).step (NoForgery decode)
      (Sys.idle (startWorld now)) (AuthenticatedBy st u) as) t := by
    refine hrun.history_invariant (fun as t => Grounded st (fun u => Occurs
      (accountHandlers st).step (NoForgery decode) (Sys.idle (startWorld now))
      (AuthenticatedBy st u) as) t) (grounded_idle st _ now) ?_
    intro as t a t' hrun h hok hs
    refine grounded_step (h.mono fun u hu => hrun.occurs_concat.mpr (.inl hu)) hs ?_
      fun u hu => hrun.occurs_concat.mpr (.inr hu)
    intro rid j u ha hu
    subst ha
    have hentry : (accountHandlers st).entry j = true := by
      cases step_cases hs with
      | arrive hentry => exact hentry
    rcases j with j | j
    · cases j with
      | issueTokens => cases hentry
      | _ => cases hu
    · cases j with
      | linkCount v path csrfState pkceVerifier =>
        -- the access token was issued for `u`
        cases hu
        obtain ⟨⟨k, r⟩, hmem, hx⟩ := List.any_eq_true.mp hok
        obtain ⟨pair, hpair, hclaims⟩ := (Option.any_eq_true _ _).mp hx
        obtain ⟨claims, hdecoded, hsub⟩ := (Option.any_eq_true _ _).mp hclaims
        obtain ⟨hbefore, username, time, hencode⟩ := h.answers k r pair hmem hpair
        have hsame := hdecode _ _ _ hencode hdecoded
        rw [of_decide_eq_true hsub] at hsame
        rw [hsame]
        exact hrun.occurs_concat.mpr (.inl hbefore)
      | initiate | callback | unlinkPassword => cases hu
      | _ => cases hentry
  rcases hu with ⟨token, row, hrow, rfl⟩ | ⟨j, r, pair, hmem, hpair, rfl⟩
  · exact hgrounded.world.tokens token row hrow
  · exact (hgrounded.answers j r pair hmem hpair).1

/-- `bob` registers and links an identity at GitHub with the access token. -/
def runLink : List AccountStep :=
  .arrive 0 (.inl runRegistration) :: .replicate 5 (.advance 0 0) ++
    [.arrive 1 (.inr (.linkCount ⟨2⟩ "github" "state" "verifier")), .advance 1 0, .advance 1 0,
      .arrive 2 (.inr (.callback
        { provider := "github"
          state := "state"
          answer := .ok
            { providerUserId := "583231", email := none, username := none, avatarUrl := none }
          draws := { userId := ⟨3⟩, usernameTag := ⟨4⟩, emailTag := ⟨5⟩, token := (⟨6⟩, ⟨6⟩) } }))] ++
    .replicate 6 (.advance 2 0)

/-- The access token of the server of the run is the user. -/
def runDecode (token : String) : Option FreeBox.Server.Claims :=
  (Uuid.parseStr token.toList).map fun sub => { sub, username := "", exp := 0, iat := 0 }

theorem token_pairs_authenticated_run :
    Occurs (accountHandlers accountServer).step (NoForgery runDecode)
      (Sys.idle (startWorld 0)) (AuthenticatedBy accountServer ⟨2⟩) runLink := by
  obtain ⟨t, hrun, hp⟩ := exists_run_of_exec (accountHandlers accountServer).step
    (NoForgery runDecode) (Sys.idle (startWorld 0)) runLink
    (fun t => t.answers.any fun x => (tokenPair? x.2).any fun pair =>
      pair.userId = ⟨2⟩ ∧ pair.refreshToken = refreshTokenOf (⟨6⟩, ⟨6⟩)) (by decide +kernel)
  obtain ⟨⟨j, r⟩, hmem, hx⟩ := List.any_eq_true.mp hp
  obtain ⟨pair, hpair, huser⟩ := (Option.any_eq_true _ _).mp hx
  refine token_pairs_authenticated accountServer runDecode ?_ 0 runLink t hrun ⟨2⟩
    (.inr ⟨j, r, pair, hmem, hpair, (of_decide_eq_true huser).1⟩)
  intro claims token claims' hencode hdecode
  obtain rfl : toString claims.sub = token := Option.some.inj hencode
  rw [runDecode, Uuid.toList_toString, Uuid.parseStr_chars] at hdecode
  obtain rfl := Option.some.inj hdecode
  rfl

end FreeBox.Server.Auth
