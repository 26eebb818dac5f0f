import FreeBox.Server.Identity
import FreeBox.Server.Linking

/-!
# The states of OAuth flows

`oauth_states` holds login flows and link flows in one text column, and a callback
reads from it which one it continues. Requests come in any order and run
concurrently; a CSRF token is drawn once.

Results:
* `readFlow_stored`: the column is read as the flow that it was written for.
* `advance_states`: what one call does to the table.
* `state_binding`: a callback continues the flow that its token was drawn for, once
  and in time.
-/

namespace FreeBox.Server.OAuth

open FreeBox.Lib Handlers

/-! ## Flows -/

/-- A flow: who links an identity, or nobody in a login, at which provider and under
    which CSRF token. -/
structure Flow where
  linkUserId : Option Uuid
  provider : String
  csrfState : String
  deriving DecidableEq

/-- The `provider` column of the flow. -/
def Flow.stored (f : Flow) : String :=
  match f.linkUserId with
  | some userId => linkProvider userId f.provider
  | none => f.provider

/-- A login flow is at a provider whose name does not look like a link flow. -/
def Flow.Plain (f : Flow) : Prop := f.linkUserId = none → startsWith "link:" f.provider = false

/-- The flow that an `initiate` or a `link_provider` in flight creates. -/
def Job.flow? (st : AppState) : Job → Option Flow
  | .initiate path csrfState _ => some ⟨none, st.toLowercase path, csrfState⟩
  | .linkCount userId path csrfState _ => some ⟨some userId, st.toLowercase path, csrfState⟩
  | .linkStore userId provider csrfState _ _ => some ⟨some userId, provider, csrfState⟩
  | _ => none

/-- The CSRF tokens that the requests of a run draw. -/
def drawn (st : AppState) (as : List Step) : List String :=
  as.filterMap fun
    | .arrive _ job => (job.flow? st).map Flow.csrfState
    | _ => none

/-! ## Events -/

variable (st : AppState)

/-- A request for the flow arrives: an `initiate`, or a `link_provider` of the user. -/
def Requests (f : Flow) (_ : State) (a : Step) : Prop :=
  ∃ rid path pkceVerifier, st.toLowercase path = f.provider ∧
    a = .arrive rid (match f.linkUserId with
      | none => .initiate path f.csrfState pkceVerifier
      | some userId => .linkCount userId path f.csrfState pkceVerifier)

/-- The request for the flow makes its `INSERT INTO oauth_states`. -/
structure Creates (f : Flow) (created : Timestamp) (s : State) (a : Step) : Prop where
  time : s.world.now = created
  call : ∃ rid pick job, a = .advance rid pick ∧ s.jobs.lookup rid = some job ∧
    job.flow? st = some f
  insert : s.world.db.oauthStates.lookup f.csrfState = none ∧ ∃ t pkceVerifier,
    step st s a = some t ∧ t.world.db.oauthStates.lookup f.csrfState =
      some (stateRow pkceVerifier f.stored created)

/-- The `DELETE … RETURNING` of a callback returns the row of the token. -/
def Accepts (token : String) (s : State) (a : Step) : Prop :=
  ∃ rid pick r, a = .advance rid pick ∧ s.jobs.lookup rid = some (.callback r) ∧
    r.state = token ∧ (s.world.db.takeState token s.world.now).isSome = true

/-- This has happened in the run. -/
abbrev Happened (w : World) (as : List Step) (P : State → Step → Prop) : Prop :=
  Occurs (step st) anyStep (Sys.idle w) P as

/-! ## Reading the column -/

theorem splitn_linkProvider (userId : Uuid) (provider : String) :
    splitn ':' 3 (linkProvider userId provider).toList =
      ["link".toList, (toString userId).toList, provider.toList] := by
  have hcolumn : (linkProvider userId provider).toList =
      "link".toList ++ ':' :: (userId.chars ++ ':' :: provider.toList) := by
    simp [linkProvider]
  rw [hcolumn, splitn_append (by decide), splitn_append userId.colon_notMem_chars,
    Uuid.toList_toString]
  rfl

theorem startsWith_linkProvider (userId : Uuid) (provider : String) :
    startsWith "link:" (linkProvider userId provider) = true := by
  simp [startsWith, linkProvider, List.isPrefixOf]

theorem startsWith_stored {f : Flow} (h : f.Plain) :
    startsWith "link:" f.stored = f.linkUserId.isSome := by
  unfold Flow.stored
  cases hlink : f.linkUserId with
  | some userId => exact startsWith_linkProvider userId f.provider
  | none => exact h hlink

/-- The column is read as the flow that it was written for, at its provider only. -/
theorem readFlow_stored {f : Flow} (h : f.Plain) (provider : String) :
    readFlow f.stored provider = if f.provider = provider then .ok f.linkUserId
      else .error (.unauthorized "OAuth state provider mismatch") := by
  unfold readFlow
  cases hlink : f.linkUserId with
  | some userId =>
    have hstored : f.stored = linkProvider userId f.provider := by rw [Flow.stored, hlink]
    simp only [hstored, startsWith_linkProvider, if_true, splitn_linkProvider,
      Uuid.toList_toString, String.ofList_toList, Uuid.parseStr_chars]
  | none =>
    have hstored : f.stored = f.provider := by rw [Flow.stored, hlink]
    simp only [hstored, h hlink, Bool.false_eq_true, if_false]

variable {st} {w w' : World} {job job' : Job} {next : Next Job Response}

/-- No known provider looks like a link flow. -/
theorem providerMeta_plain {provider : String} {pm : ProviderMeta}
    (h : providerMeta provider = .ok pm) : startsWith "link:" provider = false := by
  unfold providerMeta at h
  split_ifs at h with h₁ h₂ h₃ h₄ h₅
  · subst h₁; decide
  · subst h₂; decide
  · subst h₃; decide
  · subst h₄; decide
  · subst h₅; decide

theorem clientFor_plain {provider : String} {client : OAuthClient}
    (h : clientFor st provider = .ok client) : startsWith "link:" provider = false := by
  unfold clientFor checkProvider at h
  cases hmeta : providerMeta provider with
  | error e =>
    rw [hmeta] at h
    cases hconfig : configOf st provider <;> rw [hconfig] at h <;> cases h
  | ok pm => exact providerMeta_plain hmeta

/-! ## The table -/

/-- What one call does to `oauth_states`. -/
inductive StateEffect (st : AppState) (w : World) (job : Job) (next : Next Job Response) :
    Table String OAuthStateRow → Prop
  | same (hkept : ∀ r, job = .callback r → w.db.takeState r.state w.now = none) :
      StateEffect st w job next w.db.oauthStates
  | created {f : Flow} {pkceVerifier : String} (hflow : job.flow? st = some f) (hplain : f.Plain)
      (hfree : w.db.oauthStates.lookup f.csrfState = none) (hdone : next.job? = none) :
      StateEffect st w job next
        (w.db.oauthStates.insert f.csrfState (stateRow pkceVerifier f.stored w.now))
  | taken {r : CallbackRequest} (hjob : job = .callback r)
      (htake : (w.db.takeState r.state w.now).isSome = true) :
      StateEffect st w job next (w.db.oauthStates.erase r.state)

theorem LoginCase.states {maxDays : UInt32} {now : Timestamp} {provider : String}
    {profile : OAuthUserProfile} {draws : Draws} {db db' : Db}
    {outcome : Except AppError (Uuid × String)}
    (h : LoginCase maxDays now provider profile draws db db' outcome) :
    db'.oauthStates = db.oauthStates := by
  cases h with
  | refused => rfl
  | identity hlink hre =>
    obtain ⟨-, rfl⟩ | ⟨t, -, -, rfl⟩ := reactivateMatched_ok hre <;> rfl
  | resolved hlink hres hins =>
    exact (othersKept_insertAccount hins).states.trans hres.othersKept.states

/-- A callback that finds the row of its token deletes it. -/
theorem advance_callback {r : CallbackRequest} (h : advance st w (.callback r) = some (w', next))
    (htake : (w.db.takeState r.state w.now).isSome = true) :
    w'.db.oauthStates.lookup r.state = none := by
  obtain ⟨⟨row, db⟩, htake⟩ := Option.isSome_iff_exists.mp htake
  have hdb : w'.db = db := by
    simp only [advance, htake] at h
    split at h
    · cases h; rfl
    · split at h <;> cases h <;> rfl
  rw [hdb, (Db.takeState_eq_some htake).2.2]
  exact AList.lookup_erase ..

theorem advance_states (h : advance st w job = some (w', next)) :
    StateEffect st w job next w'.db.oauthStates := by
  have hcase := advance_cases h
  cases hcase with
  | rejected =>
    refine .same fun r hr => ?_
    subst hr
    by_contra htake
    obtain ⟨⟨row, db⟩, htake⟩ := Option.ne_none_iff_exists'.mp htake
    have hnone := advance_callback h (Option.isSome_of_eq_some htake)
    rw [(Db.takeState_eq_some htake).1] at hnone
    cases hnone
  | @initiated path csrfState pkceVerifier url db hstore =>
    have hplain : Flow.Plain ⟨none, st.toLowercase path, csrfState⟩ := by
      intro _
      simp only [advance] at h
      split at h
      · simp at h
      · next hclient => exact clientFor_plain hclient
    obtain ⟨hfree, rfl⟩ := Db.storeState_eq_some hstore
    exact .created rfl hplain hfree rfl
  | @linkStored userId provider csrfState pkceVerifier url db hstore =>
    have hplain : Flow.Plain ⟨some userId, provider, csrfState⟩ := fun hnone => by cases hnone
    obtain ⟨hfree, rfl⟩ := Db.storeState_eq_some hstore
    exact .created rfl hplain hfree rfl
  | stateWasted htake | stateTaken htake =>
    rw [(Db.takeState_eq_some htake).2.2]
    exact .taken rfl (Option.isSome_of_eq_some htake)
  | linked hins =>
    have hstates := (othersKept_insertAccount hins).states
    simp only [hstates]
    exact .same fun _ hjob => by cases hjob
  | loginFailed | loggedIn =>
    simp only [(findOrCreateUser_cases ..).states]
    exact .same fun _ hjob => by cases hjob
  | issued hstore =>
    rw [(Db.storeToken_eq_some hstore).2]
    exact .same fun _ hjob => by cases hjob
  | _ => exact .same fun _ hjob => by cases hjob

/-- No call changes the clock. -/
theorem advance_now (h : advance st w job = some (w', next)) : w'.now = w.now := by
  cases advance_cases h <;> rfl

/-- A call that goes on with a flow goes on with its own. -/
theorem advance_flow {f : Flow} (h : advance st w job = some (w', .goto job'))
    (hflow : job'.flow? st = some f) : job.flow? st = some f := by
  generalize hnext : Next.goto job' = next at h
  cases advance_cases h with
  | rejected | initiated | linkStored | stateWasted | loginFailed | issued | unlinked => cases hnext
  | mayLink => cases hnext; exact hflow
  | _ => cases hnext; cases hflow

/-! ## One step -/

variable {s t : State} {a : Step} {f f' : Flow} {created created' : Timestamp} {token : String}
  {rid rid' : ℕ}

/-- The request is about to create a flow under the token. -/
def Starting (st : AppState) (token : String) (s : State) (rid : ℕ) : Prop :=
  ∃ job f, s.jobs.lookup rid = some job ∧ job.flow? st = some f ∧ f.csrfState = token

theorem Creates.unique (h : Creates st f created s a) (h' : Creates st f' created' s a) :
    f' = f ∧ created' = created := by
  obtain ⟨rid, pick, job, rfl, hjob, hflow⟩ := h.call
  obtain ⟨rid', pick', job', heq, hjob', hflow'⟩ := h'.call
  cases heq
  rw [hjob] at hjob'
  cases hjob'
  rw [hflow] at hflow'
  cases hflow'
  exact ⟨rfl, h'.time.symm.trans h.time⟩

/-- A request that is about to create a flow was so before, or has just arrived. -/
theorem flow_step {job : Job} (hs : step st s a = some t) (hjob : t.jobs.lookup rid = some job)
    (hflow : job.flow? st = some f) :
    (∃ job₀, s.jobs.lookup rid = some job₀ ∧ job₀.flow? st = some f) ∨ a = .arrive rid job := by
  cases job_origin hs hjob with
  | old hold => exact .inl ⟨job, hold, hflow⟩
  | arrived => exact .inr rfl
  | advanced hj hw => exact .inl ⟨_, hj, advance_flow hw hflow⟩
  | failed _ hn => cases hn

theorem requests_of_arrive {job : Job} (hs : step st s (.arrive rid job) = some t)
    (hflow : job.flow? st = some f) : Requests st f s (.arrive rid job) := by
  cases step_cases hs with
  | arrive hentry =>
    cases job with
    | initiate path csrfState pkceVerifier =>
      cases hflow; exact ⟨rid, path, pkceVerifier, rfl, rfl⟩
    | linkCount userId path csrfState pkceVerifier =>
      cases hflow; exact ⟨rid, path, pkceVerifier, rfl, rfl⟩
    | linkStore => cases hentry
    | _ => cases hflow

/-- A row of the table was there before, or has just been inserted for its flow. -/
theorem row_step {row : OAuthStateRow} (hs : step st s a = some t)
    (hrow : t.world.db.oauthStates.lookup token = some row) :
    (s.world.db.oauthStates.lookup token = some row ∧ ¬ Accepts token s a) ∨
      ∃ f pkceVerifier, f.csrfState = token ∧ f.Plain ∧ Creates st f s.world.now s a ∧
        row = stateRow pkceVerifier f.stored s.world.now := by
  have hs₀ := hs
  cases step_cases hs with
  | @advance rid pick job w next hj hw =>
    have heffect := advance_states hw
    rw [Sys.settle_world] at hrow
    generalize hstates : w.db.oauthStates = states at heffect hrow
    cases heffect with
    | same hkept =>
      refine .inl ⟨hrow, ?_⟩
      rintro ⟨rid', pick', r, heq, hjob, rfl, htake⟩
      cases heq
      rw [hj] at hjob
      rw [hkept r (Option.some.inj hjob)] at htake
      cases htake
    | @created f pkceVerifier hflow hplain hfree hdone =>
      rw [Table.lookup_insert_eq] at hrow
      split_ifs at hrow with htoken
      · cases hrow
        refine .inr ⟨f, pkceVerifier, htoken.symm, hplain, ⟨rfl, ⟨rid, pick, job, rfl, hj, hflow⟩,
          hfree, _, pkceVerifier, hs₀, ?_⟩, rfl⟩
        rw [Sys.settle_world, hstates, AList.lookup_insert]
      · refine .inl ⟨hrow, ?_⟩
        rintro ⟨rid', pick', r, heq, hjob, -⟩
        cases heq
        rw [hj] at hjob
        cases hjob
        cases hflow
    | @taken r hjob htake =>
      rw [Table.lookup_erase_eq] at hrow
      split_ifs at hrow with htoken
      refine .inl ⟨hrow, ?_⟩
      rintro ⟨rid', pick', r', heq, hjob', hstate, -⟩
      cases heq
      rw [hj, hjob] at hjob'
      cases hjob'
      exact htoken hstate.symm
  | @env e w hw =>
    cases e with
    | tick d => cases hw; exact .inl ⟨hrow, by rintro ⟨rid, pick, r, heq, -⟩; cases heq⟩
  | _ => exact .inl ⟨hrow, by rintro ⟨rid, pick, r, heq, -⟩; cases heq⟩

theorem now_step (hs : step st s a = some t) : s.world.now ≤ t.world.now := by
  cases step_cases hs with
  | advance hj hw => rw [Sys.settle_world, advance_now hw]
  | fail hj hn => exact le_rfl
  | @env e w hw =>
    cases e with
    | tick d => cases hw; exact Int.le_add_of_nonneg_right (Int.natCast_nonneg d)
  | _ => exact le_rfl

/-- The request that creates a flow is about to do so, and then no more. -/
theorem Creates.holds (h : Creates st f created s a) (hs : step st s a = some t) :
    ∃ rid, Starting st f.csrfState s rid ∧ ¬ Starting st f.csrfState t rid := by
  obtain ⟨rid, pick, job, rfl, hjob, hflow⟩ := h.call
  obtain ⟨hfree, t', pkceVerifier, hs', hrow⟩ := h.insert
  rw [hs] at hs'
  obtain rfl := Option.some.inj hs'
  refine ⟨rid, ⟨job, f, hjob, hflow, rfl⟩, ?_⟩
  cases step_cases hs with
  | @advance _ _ job w next hj hw =>
    have heffect := advance_states hw
    rw [Sys.settle_world] at hrow
    generalize w.db.oauthStates = states at heffect hrow
    cases heffect with
    | same => rw [hfree] at hrow; cases hrow
    | created _ _ _ hdone =>
      rintro ⟨job', f', hjob', -⟩
      rw [Sys.lookup_settle, if_pos rfl, hdone] at hjob'
      cases hjob'
    | taken =>
      rw [Table.lookup_erase_eq, hfree, ite_self] at hrow
      cases hrow

theorem Accepts.stored (h : Accepts token s a) :
    ∃ row, s.world.db.oauthStates.lookup token = some row := by
  obtain ⟨rid, pick, r, -, -, -, htake⟩ := h
  obtain ⟨⟨row, db⟩, htake⟩ := Option.isSome_iff_exists.mp htake
  exact ⟨row, (Db.takeState_eq_some htake).1⟩

/-! ## Runs -/

variable {w₀ : World} {as : List Step}

/-- The row of the token has been written for the flow `f` at the time `created`. -/
structure WrittenFor (st : AppState) (w₀ : World) (as : List Step) (now : Timestamp)
    (token : String) (row : OAuthStateRow) (f : Flow) (created : Timestamp) : Prop where
  state : f.csrfState = token
  plain : f.Plain
  row : ∃ pkceVerifier, row = stateRow pkceVerifier f.stored created
  time : created ≤ now
  requested : Happened st w₀ as (Requests st f)
  creates : Happened st w₀ as (Creates st f created)
  unique : ∀ f' created', f'.csrfState = token → Happened st w₀ as (Creates st f' created') →
    f' = f ∧ created' = created

/-- What has become of a token so far: a request is about to create its flow, or has
    done so, and then at most one callback has accepted it. -/
structure TokenLife (st : AppState) (w₀ : World) (token : String) (as : List Step) (s : State) :
    Prop where
  requested : ∀ rid job f, s.jobs.lookup rid = some job → job.flow? st = some f →
    Happened st w₀ as (Requests st f)
  drawn : ∀ rid, Starting st token s rid → token ∈ drawn st as
  single : ∀ rid rid', Starting st token s rid → Starting st token s rid' → rid = rid'
  waiting : ∀ rid f created, Starting st token s rid → f.csrfState = token →
    ¬ Happened st w₀ as (Creates st f created)
  created : ∀ f created, f.csrfState = token → Happened st w₀ as (Creates st f created) →
    token ∈ OAuth.drawn st as
  accepted : Happened st w₀ as (Accepts token) → ∃ f created, f.csrfState = token ∧
    Happened st w₀ as (Creates st f created)
  stored : ∀ row, s.world.db.oauthStates.lookup token = some row →
    ¬ Happened st w₀ as (Accepts token) ∧
      ∃ f created, WrittenFor st w₀ as s.world.now token row f created

theorem tokenLife_idle (hw : w₀.db.oauthStates = ∅) (token : String) :
    TokenLife st w₀ token [] (Sys.idle w₀) where
  requested rid job f hjob := by cases hjob
  drawn rid h := by obtain ⟨job, f, hjob, -⟩ := h; cases hjob
  single rid rid' h := by obtain ⟨job, f, hjob, -⟩ := h; cases hjob
  waiting rid f created h := by obtain ⟨job, f, hjob, -⟩ := h; cases hjob
  created f created _ h := absurd h Run.not_occurs_nil
  accepted h := absurd h Run.not_occurs_nil
  stored row hrow := by
    rw [show (Sys.idle w₀ : State).world.db.oauthStates = ∅ from hw] at hrow
    cases hrow

theorem drawn_concat (as : List Step) (a : Step) : drawn st (as ++ [a]) = drawn st as ++ drawn st [a] :=
  List.filterMap_append

/-- A row that stays is that of the same flow. -/
theorem WrittenFor.step {row : OAuthStateRow}
    (h : WrittenFor st w₀ as s.world.now token row f created)
    (hr : Run (step st) anyStep (Sys.idle w₀) as s) (hs : OAuth.step st s a = some t)
    (hrow : s.world.db.oauthStates.lookup token = some row) :
    WrittenFor st w₀ (as ++ [a]) t.world.now token row f created where
  state := h.state
  plain := h.plain
  row := h.row
  time := h.time.trans (now_step hs)
  requested := (Run.occurs_concat hr).mpr (.inl h.requested)
  creates := (Run.occurs_concat hr).mpr (.inl h.creates)
  unique f' created' htoken hcreates := by
    rcases (Run.occurs_concat hr).mp hcreates with hbefore | hnow
    · exact h.unique f' created' htoken hbefore
    · have hfree := hnow.insert.1
      rw [htoken, hrow] at hfree
      cases hfree

/-- A row that is inserted is that of the flow of its request. -/
theorem TokenLife.writtenFor {pkceVerifier : String} (h : TokenLife st w₀ token as s)
    (hr : Run (step st) anyStep (Sys.idle w₀) as s) (hs : OAuth.step st s a = some t)
    (htoken : f.csrfState = token) (hplain : f.Plain) (hnow : Creates st f s.world.now s a) :
    WrittenFor st w₀ (as ++ [a]) t.world.now token (stateRow pkceVerifier f.stored s.world.now) f
      s.world.now where
  state := htoken
  plain := hplain
  row := ⟨pkceVerifier, rfl⟩
  time := now_step hs
  requested := by
    obtain ⟨rid, pick, job, -, hjob, hflow⟩ := hnow.call
    exact (Run.occurs_concat hr).mpr (.inl (h.requested rid job f hjob hflow))
  creates := (Run.occurs_concat hr).mpr (.inr hnow)
  unique f' created' htoken' hcreates := by
    rcases (Run.occurs_concat hr).mp hcreates with hbefore | hnow'
    · obtain ⟨rid, hold, -⟩ := hnow.holds hs
      exact absurd hbefore (h.waiting rid f' created' (htoken ▸ hold) htoken')
    · exact hnow.unique hnow'

/-- A request that will create the flow of the token arrives. -/
def Arrives (st : AppState) (token : String) (a : Step) (rid : ℕ) : Prop :=
  ∃ job f, a = .arrive rid job ∧ job.flow? st = some f ∧ f.csrfState = token

/-- A request at its start was there before, or arrives now. -/
theorem starting_step {rid : ℕ} (hs : OAuth.step st s a = some t) (h : Starting st token t rid) :
    Starting st token s rid ∨ Arrives st token a rid := by
  obtain ⟨job, f, hjob, hflow, htoken⟩ := h
  rcases flow_step hs hjob hflow with ⟨job₀, hjob₀, hflow₀⟩ | ha
  · exact .inl ⟨job₀, f, hjob₀, hflow₀, htoken⟩
  · exact .inr ⟨job, f, ha, hflow, htoken⟩

theorem Arrives.mem_drawn {rid : ℕ} (h : Arrives st token a rid) : token ∈ OAuth.drawn st [a] := by
  obtain ⟨job, f, rfl, hflow, htoken⟩ := h
  simp [OAuth.drawn, hflow, htoken]

/-- The first request for a token: the token is drawn once. -/
theorem Arrives.not_drawn {rid : ℕ} (h : Arrives st token a rid)
    (hfresh : (OAuth.drawn st as ++ OAuth.drawn st [a]).Nodup) : token ∉ OAuth.drawn st as :=
  fun hdrawn => List.disjoint_of_nodup_append hfresh hdrawn h.mem_drawn

theorem TokenLife.single_step (h : TokenLife st w₀ token as s) (hs : OAuth.step st s a = some t)
    (hfresh : (OAuth.drawn st as ++ OAuth.drawn st [a]).Nodup) {rid rid' : ℕ}
    (hrid : Starting st token t rid) (hrid' : Starting st token t rid') : rid = rid' := by
  rcases starting_step hs hrid with hold | hnew
  · rcases starting_step hs hrid' with hold' | hnew'
    · exact h.single rid rid' hold hold'
    · exact absurd (h.drawn rid hold) (hnew'.not_drawn hfresh)
  · rcases starting_step hs hrid' with hold' | ⟨job', f', ha', -⟩
    · exact absurd (h.drawn rid' hold') (hnew.not_drawn hfresh)
    · obtain ⟨job, f, rfl, -⟩ := hnew
      cases ha'
      rfl

/-- While a request is at its start no flow has been created. -/
theorem TokenLife.waiting_step (h : TokenLife st w₀ token as s)
    (hr : Run (step st) anyStep (Sys.idle w₀) as s) (hs : OAuth.step st s a = some t)
    (hfresh : (OAuth.drawn st as ++ OAuth.drawn st [a]).Nodup) {rid : ℕ} {f : Flow}
    {created : Timestamp} (hrid : Starting st token t rid) (htoken : f.csrfState = token) :
    ¬ Happened st w₀ (as ++ [a]) (Creates st f created) := by
  rw [Happened, Run.occurs_concat hr]
  rintro (hbefore | hnow)
  · rcases starting_step hs hrid with hold | hnew
    · exact h.waiting rid f created hold htoken hbefore
    · exact hnew.not_drawn hfresh (h.created f created htoken hbefore)
  · obtain ⟨rid', hold', hgone⟩ := hnow.holds hs
    rw [htoken] at hold' hgone
    rcases starting_step hs hrid with hold | ⟨job, f', ha, -⟩
    · rw [h.single rid rid' hold hold'] at hrid
      exact hgone hrid
    · obtain ⟨_, _, _, ha', -⟩ := hnow.call
      rw [ha] at ha'
      cases ha'

theorem TokenLife.stored_step (h : TokenLife st w₀ token as s)
    (hr : Run (step st) anyStep (Sys.idle w₀) as s) (hs : OAuth.step st s a = some t)
    {row : OAuthStateRow} (hrow : t.world.db.oauthStates.lookup token = some row) :
    ¬ Happened st w₀ (as ++ [a]) (Accepts token) ∧
      ∃ f created, WrittenFor st w₀ (as ++ [a]) t.world.now token row f created := by
  rw [Happened, Run.occurs_concat hr]
  rcases row_step hs hrow with ⟨hold, hquiet⟩ | ⟨f, pkceVerifier, htoken, hplain, hnow, rfl⟩
  · obtain ⟨hunused, f, created, hwritten⟩ := h.stored row hold
    refine ⟨?_, f, created, hwritten.step hr hs hold⟩
    rintro (hbefore | hnow)
    · exact hunused hbefore
    · exact hquiet hnow
  · refine ⟨?_, f, s.world.now, h.writtenFor hr hs htoken hplain hnow⟩
    obtain ⟨rid, hold, -⟩ := hnow.holds hs
    rintro (hbefore | haccepts)
    · obtain ⟨f', created', htoken', hcreates⟩ := h.accepted hbefore
      exact h.waiting rid f' created' (htoken ▸ hold) htoken' hcreates
    · obtain ⟨row, hrow⟩ := haccepts.stored
      rw [← htoken, hnow.insert.1] at hrow
      cases hrow

theorem TokenLife.step (h : TokenLife st w₀ token as s)
    (hr : Run (step st) anyStep (Sys.idle w₀) as s) (hs : OAuth.step st s a = some t)
    (hfresh : (OAuth.drawn st (as ++ [a])).Nodup) : TokenLife st w₀ token (as ++ [a]) t := by
  rw [drawn_concat] at hfresh
  refine
    { requested := ?_
      drawn := ?_
      single := fun _ _ hrid hrid' => h.single_step hs hfresh hrid hrid'
      waiting := fun _ _ _ hrid htoken => h.waiting_step hr hs hfresh hrid htoken
      created := ?_
      accepted := ?_
      stored := fun _ hrow => h.stored_step hr hs hrow }
  · intro rid job f hjob hflow
    rw [Happened, Run.occurs_concat hr]
    rcases flow_step hs hjob hflow with ⟨job₀, hjob₀, hflow₀⟩ | rfl
    · exact .inl (h.requested rid job₀ f hjob₀ hflow₀)
    · exact .inr (requests_of_arrive hs hflow)
  · intro rid hrid
    rw [drawn_concat, List.mem_append]
    exact (starting_step hs hrid).imp (h.drawn rid) Arrives.mem_drawn
  · intro f created htoken
    rw [Happened, Run.occurs_concat hr, drawn_concat, List.mem_append]
    rintro (hbefore | hnow)
    · exact .inl (h.created f created htoken hbefore)
    · obtain ⟨rid, hold, -⟩ := hnow.holds hs
      exact .inl (h.drawn rid (htoken ▸ hold))
  · rw [Happened, Run.occurs_concat hr]
    rintro (hbefore | hnow)
    · obtain ⟨f, created, htoken, hcreates⟩ := h.accepted hbefore
      exact ⟨f, created, htoken, (Run.occurs_concat hr).mpr (.inl hcreates)⟩
    · obtain ⟨row, hrow⟩ := hnow.stored
      obtain ⟨-, f, created, hwritten⟩ := h.stored row hrow
      exact ⟨f, created, hwritten.state, (Run.occurs_concat hr).mpr (.inl hwritten.creates)⟩

theorem tokenLife_run (hw : w₀.db.oauthStates = ∅)
    (hr : Run (OAuth.step st) anyStep (Sys.idle w₀) as s) (hfresh : (drawn st as).Nodup)
    (token : String) : TokenLife st w₀ token as s := by
  refine hr.history_invariant (fun as s => (drawn st as).Nodup → TokenLife st w₀ token as s)
    (fun _ => tokenLife_idle hw token) ?_ hfresh
  intro as s a t hr ih _ hs hfresh
  have hbefore : (drawn st as).Nodup := by
    rw [drawn_concat] at hfresh
    exact hfresh.of_append_left
  exact (ih hbefore).step hr hs hfresh

/-! ## State binding -/

/-- A callback goes on with the flow that it reads from its row. -/
theorem callback_goes_on {r r' : CallbackRequest} {pick : ℕ} {row : OAuthStateRow} {db : Db}
    {linkUserId : Option Uuid} {provider : String}
    (hjob : s.jobs.lookup rid = some (.callback r))
    (htake : s.world.db.takeState r.state s.world.now = some (row, db))
    (hs : OAuth.step st s (.advance rid pick) = some t)
    (ht : t.jobs.lookup rid = some (.exchange linkUserId provider r')) :
    readFlow row.provider (st.toLowercase r.provider) = .ok linkUserId ∧
      provider = st.toLowercase r.provider ∧ r' = r := by
  cases step_cases hs with
  | advance hj hw =>
    rw [hjob] at hj
    cases hj
    rw [Sys.lookup_settle, if_pos rfl] at ht
    have hnext := Next.eq_goto_of_job? ht
    subst hnext
    have hcall : advance st s.world (.callback r) = some (_, _) := hw
    cases advance_cases hcall with
    | stateTaken htake' hflow =>
      rw [htake] at htake'
      cases htake'
      exact ⟨hflow, rfl, rfl⟩

/-- State binding. In any run of requests with fresh tokens, a callback whose `DELETE`
    returns a row is the first one for its token. The row was written for exactly one
    flow, less than 5 minutes ago, by a request for that flow: an `initiate`, or a
    `link_provider` of the user. The column is read as this flow at its provider and
    at no other, a login never as a link nor a link as a login, and with this flow the
    callback goes on, if it does. The parts of a link column are those it was made of. -/
theorem state_binding (hw : w₀.db.oauthStates = ∅) {r : CallbackRequest} {pick : ℕ}
    (hr : Run (OAuth.step st) anyStep (Sys.idle w₀) as s) (hfresh : (drawn st as).Nodup)
    (hjob : s.jobs.lookup rid = some (.callback r)) {row : OAuthStateRow} {db : Db}
    (htake : s.world.db.takeState r.state s.world.now = some (row, db)) :
    ¬ Happened st w₀ as (Accepts r.state) ∧
    (∃ f created, f.csrfState = r.state ∧
      Happened st w₀ as (Requests st f) ∧ Happened st w₀ as (Creates st f created) ∧
      (∀ f' created', f'.csrfState = r.state → Happened st w₀ as (Creates st f' created') →
        f' = f ∧ created' = created) ∧
      created ≤ s.world.now ∧ s.world.now < created + stateTtl ∧
      startsWith "link:" row.provider = f.linkUserId.isSome ∧
      (∀ provider, readFlow row.provider provider = if f.provider = provider then .ok f.linkUserId
        else .error (.unauthorized "OAuth state provider mismatch")) ∧
      ∀ t linkUserId provider r', OAuth.step st s (.advance rid pick) = some t →
        t.jobs.lookup rid = some (.exchange linkUserId provider r') →
        linkUserId = f.linkUserId ∧ provider = f.provider ∧
          provider = st.toLowercase r.provider ∧ r' = r) ∧
    ∀ userId provider, splitn ':' 3 (linkProvider userId provider).toList =
      ["link".toList, (toString userId).toList, provider.toList] ∧
        readFlow (linkProvider userId provider) provider = .ok (some userId) := by
  obtain ⟨hrow, hlive, -⟩ := Db.takeState_eq_some htake
  obtain ⟨hunused, f, created, hwritten⟩ := (tokenLife_run hw hr hfresh r.state).stored row hrow
  obtain ⟨pkceVerifier, rfl⟩ := hwritten.row
  refine ⟨hunused, ⟨f, created, hwritten.state, hwritten.requested, hwritten.creates,
    hwritten.unique, hwritten.time, hlive, startsWith_stored hwritten.plain,
    readFlow_stored hwritten.plain, ?_⟩, fun userId provider => ⟨splitn_linkProvider .., ?_⟩⟩
  · intro t linkUserId provider r' hs ht
    obtain ⟨hread, rfl, rfl⟩ := callback_goes_on hjob htake hs ht
    rw [show (stateRow pkceVerifier f.stored created).provider = f.stored from rfl,
      readFlow_stored hwritten.plain] at hread
    split_ifs at hread with hprovider
    cases hread
    exact ⟨rfl, hprovider.symm, rfl, rfl⟩
  · have hread := @readFlow_stored ⟨some userId, provider, ""⟩ (fun hnone => by cases hnone) provider
    exact hread.trans (if_pos rfl)

/-- The callback of a link flow. -/
def runReturn : CallbackRequest where
  provider := "GitHub"
  state := "s0"
  answer := .error .internal
  draws := { userId := ⟨2⟩, usernameTag := ⟨3⟩, emailTag := ⟨4⟩, token := (⟨5⟩, ⟨5⟩) }

/-- A login flow and a link flow start; 4 minutes later the link flow comes back. -/
def runFlows : List Step :=
  serve 0 1 (.initiate "github" "s1" "verifier") ++ runLink 1 "s0" ++
    [.env (.tick 240000000000), .arrive 2 (.callback runReturn)]

/-- Request 2 is at its `DELETE`, and the row of its token is there. -/
def comesBack (s : State) : Bool :=
  match s.jobs.lookup 2 with
  | some (.callback r) => r.state = "s0" ∧ (s.world.db.takeState r.state s.world.now).isSome
  | _ => false

theorem state_binding_run : ∃ s, Run (step runServer) anyStep (Sys.idle runWorld) runFlows s ∧
    ¬ Happened runServer runWorld runFlows (Accepts "s0") ∧ ∃ f created, f.csrfState = "s0" ∧
      Happened runServer runWorld runFlows (Requests runServer f) ∧
      s.world.now < created + stateTtl := by
  obtain ⟨s, hr, hs⟩ := exists_run_of_exec (step runServer) anyStep (Sys.idle runWorld) runFlows
    comesBack (by decide +kernel)
  unfold comesBack at hs
  split at hs
  · next r hjob =>
    obtain ⟨hstate, htake⟩ := of_decide_eq_true hs
    obtain ⟨⟨row, db⟩, htake⟩ := Option.isSome_iff_exists.mp htake
    obtain ⟨hunused, ⟨f, created, hf, hrequests, -, -, -, hlive, -⟩, -⟩ :=
      @state_binding _ _ _ _ _ rfl _ 0 hr (by decide +kernel) hjob _ _ htake
    rw [hstate] at hunused hf
    exact ⟨s, hr, hunused, f, created, hf, hrequests, hlive⟩
  · cases hs

end FreeBox.Server.OAuth
