import FreeBox.Lib.FreshKeys
import FreeBox.Server.Auth
import FreeBox.Server.Identity
import Mathlib.Logic.Relation

/-!
# Rotation of refresh tokens

`refresh` takes the presented token out of `refresh_tokens` and stores a new one, in two
statements. Requests of `register`, `login`, `refresh` and `logout` are interleaved in
every order, and any of their statements may fail.

Results:
* `drawsKeys_auth`: a token is stored once, by the request that has drawn it.
* `redeemed_once`: the `DELETE` of `refresh` returns a token once, before it expires and
  before its owner logs it out.
* `refresh_rotation`: this, and what follows for the tokens that descend from a login.
-/

namespace FreeBox.Server.Auth

open FreeBox.Lib Handlers Relation
open KeyServer (World)
open OAuth (newClaims)

/-- The refresh token that the request has drawn and not stored yet. -/
def Job.draw? : Job → Option String
  | .register _ draws => some (refreshTokenOf draws.token)
  | .insertUser _ token | .insertBundle _ token | .commit _ token => some (refreshTokenOf token)
  | .login _ token | .refresh _ token => some (refreshTokenOf token)
  | .issueTokens _ _ _ token => some (refreshTokenOf token)
  | .logout .. => none

/-- The table of the refresh tokens. -/
def tokensOf (w : World) : Table String RefreshTokenRow := w.db.refreshTokens

/-! ## Events -/

/-- The `DELETE` of a `refresh` returns the row of the token. -/
def Redeems (token : String) (s : State) (a : Step) : Prop :=
  ∃ rid pick draws row db, a = .advance rid pick ∧
    s.jobs.lookup rid = some (.refresh token draws) ∧
    s.world.db.takeToken token s.world.now = some (row, db)

/-- A `logout` of the user comes to its `DELETE` of the token. -/
def LogsOut (token : String) (u : Uuid) (s : State) (a : Step) : Prop :=
  ∃ rid pick claims, a = .advance rid pick ∧ s.jobs.lookup rid = some (.logout claims token) ∧
    claims.sub = u

variable (st : AppState)

/-- This has happened in the run. -/
abbrev Happened (w : World) (as : List Step) (P : State → Step → Prop) : Prop :=
  Occurs (step st) anyStep (Sys.idle w) P as

/-- The token was issued with this row in the run, or was there at its start. -/
abbrev Issued (w : World) (as : List Step) (token : String) (row : RefreshTokenRow) : Prop :=
  (authHandlers st).EverStored tokensOf w as token row

/-- After the token was issued, its owner has logged it out. -/
def LoggedOut (w : World) (as : List Step) (token : String) (row : RefreshTokenRow) : Prop :=
  ∃ bs a cs s, as = bs ++ a :: cs ∧ Run (step st) anyStep (Sys.idle w) bs s ∧
    Issued st w bs token row ∧ LogsOut token row.userId s a

/-- The token that a `refresh` past its `DELETE` has presented. -/
def Job.presented? : Job → Option String
  | .issueTokens (.refresh presented) _ _ _ => some presented
  | _ => none

/-- The answer is a token pair for the presented token. -/
def exchange? : Job × Response → Option (String × OAuth.AuthResponse)
  | (job, .tokens response) => job.presented?.map fun presented => (presented, response)
  | _ => none

/-- The second token was issued for the first. -/
def Child (s : State) (parent child : String) : Prop :=
  ∃ x ∈ s.answers, ∃ response, exchange? x = some (parent, response) ∧
    response.refreshToken = child

/-! ## The table -/

variable {st} {w w' : World} {job : Job} {next : Next Job Response}

theorem commitRegistration_tokens {tx : Registration} (h : commitRegistration w tx = .ok w') :
    tokensOf w' = tokensOf w := by
  unfold commitRegistration at h
  split at h
  · cases h
  · next db hins =>
    split at h
    · cases h
    · cases h
      exact (OAuth.othersKept_insertUser hins).tokens

/-- What one call does to the refresh tokens. -/
inductive TokenEffect (w : World) (job : Job) (next : Next Job Response) :
    Table String RefreshTokenRow → Prop
  | same : TokenEffect w job next (tokensOf w)
  | taken {presented : String} {token : Uuid × Uuid} (hjob : job = .refresh presented token) :
      TokenEffect w job next ((tokensOf w).erase presented)
  | issued {token : String} {row : RefreshTokenRow} (hdraw : job.draw? = some token)
      (hfree : (tokensOf w).lookup token = none) (hdone : next.job? = none) :
      TokenEffect w job next ((tokensOf w).insert token row)
  | loggedOut {token : String} {u : Uuid} : TokenEffect w job next
      (Table.deleteWhere (fun token' row => token' = token ∧ row.userId = u) (tokensOf w))

theorem advance_tokens (h : advance st w job = some (w', next)) :
    TokenEffect w job next (tokensOf w') := by
  cases advance_cases h with
  | committed hcommit =>
    rw [commitRegistration_tokens hcommit]
    exact .same
  | taken htake =>
    obtain ⟨-, -, rfl⟩ := Db.takeToken_eq_some.mp htake
    exact .taken rfl
  | issued hencode hstore =>
    obtain ⟨hfree, rfl⟩ := Db.storeToken_eq_some hstore
    exact .issued rfl hfree rfl
  | loggedOut => exact .loggedOut
  | _ => exact .same

/-- No call changes the clock. -/
theorem advance_now (h : advance st w job = some (w', next)) : w'.now = w.now := by
  cases advance_cases h with
  | committed hcommit =>
    unfold commitRegistration at hcommit
    split at hcommit
    · cases hcommit
    · split at hcommit
      · cases hcommit
      · cases hcommit; rfl
  | _ => rfl

/-- A token is stored once, by the request that has drawn it. -/
theorem drawsKeys_auth (st : AppState) : (authHandlers st).DrawsKeys tokensOf Job.draw? where
  advance w pick job w' next h token row hrow := by
    have heffect := advance_tokens h
    generalize tokensOf w' = tokens at heffect hrow
    cases heffect with
    | same => exact .inl hrow
    | taken =>
      rw [Table.lookup_erase_eq] at hrow
      split_ifs at hrow
      exact .inl hrow
    | issued hdraw hfree hdone =>
      rw [Table.lookup_insert_eq] at hrow
      split_ifs at hrow with htoken
      · rw [htoken, hdone]
        exact .inr ⟨hfree, hdraw, rfl⟩
      · exact .inl hrow
    | loggedOut => exact .inl (Table.lookup_deleteWhere_eq_some.mp hrow).1
  goesOn w pick job w' job' h := by
    generalize hnext : Next.goto job' = next at h
    cases advance_cases h <;> cases hnext <;> exact .inr rfl
  fail pick job job' h := by
    obtain ⟨e, he⟩ := onFail_done st job
    simp [authHandlers, he] at h
  environ w e w' h token row hrow := by
    cases e
    cases h
    exact hrow

/-! ## Redeeming -/

variable {s t : State} {a : Step} {as bs cs : List Step} {token : String} {row : RefreshTokenRow}
  {u : Uuid}

/-- A token that a `refresh` takes is stored, has not expired, and is gone afterwards. -/
theorem Redeems.taken (h : Redeems token s a) (hs : step st s a = some t) :
    (∃ row, (tokensOf s.world).lookup token = some row ∧ s.world.now < row.expiresAt) ∧
      (tokensOf t.world).lookup token = none := by
  obtain ⟨rid, pick, draws, row, db, rfl, hjob, htake⟩ := h
  obtain ⟨hrow, hlive, hdb⟩ := Db.takeToken_eq_some.mp htake
  refine ⟨⟨row, hrow, hlive⟩, ?_⟩
  cases step_cases hs with
  | advance hj hw =>
    rw [hjob] at hj
    cases hj
    have hcall : advance st s.world (.refresh token draws) = some (_, _) := hw
    simp only [advance, htake] at hcall
    cases hcall
    show db.refreshTokens.lookup token = none
    rw [hdb]
    exact AList.lookup_erase ..

/-- After a `logout` of its owner a token is not stored. -/
theorem LogsOut.gone (h : LogsOut token u s a) (hs : step st s a = some t)
    (howner : ∀ row, (tokensOf s.world).lookup token = some row → row.userId = u) :
    (tokensOf t.world).lookup token = none := by
  obtain ⟨rid, pick, claims, rfl, hjob, rfl⟩ := h
  cases step_cases hs with
  | advance hj hw =>
    rw [hjob] at hj
    cases hj
    have hcall : advance st s.world (.logout claims token) = some (_, _) := hw
    cases hcall
    by_contra hstored
    obtain ⟨row, hrow⟩ := Option.ne_none_iff_exists'.mp hstored
    have hrow : (Table.deleteWhere (fun token' row => token' = token ∧ row.userId = claims.sub)
      (tokensOf s.world)).lookup token = some row := hrow
    obtain ⟨hold, hother⟩ := Table.lookup_deleteWhere_eq_some.mp hrow
    simp [howner row hold] at hother

/-- The requests of a run draw tokens that are new. -/
abbrev FreshTokens (w : World) (as : List Step) : Prop := FreshDraws tokensOf Job.draw? w as

/-- A token that has left the table is not taken by a later `DELETE`. -/
theorem not_redeems_of_gone {ds es : List Step} {b : Step} {v v' : State}
    (hr : Run (step st) anyStep (Sys.idle w) (ds ++ b :: es) s) (hs : step st s a = some t)
    (hfresh : FreshTokens w (ds ++ b :: es)) (hv : Run (step st) anyStep (Sys.idle w) ds v)
    (hb : step st v b = some v') (hissued : Issued st w ds token row)
    (hgone : (tokensOf v'.world).lookup token = none) : ¬ Redeems token s a := by
  intro hredeem
  obtain ⟨⟨row', hrow', -⟩, -⟩ := hredeem.taken hs
  rw [List.append_cons] at hr hfresh
  have hv' : Run (step st) anyStep (Sys.idle w) (ds ++ [b]) v' := hv.snoc trivial hb
  obtain ⟨x, hx, hrest⟩ := hr.append_inv
  obtain rfl := hv'.functional hx
  rw [stays_gone (drawsKeys_auth st) hv' (hissued.concat hv) hgone hrest hfresh] at hrow'
  cases hrow'

/-- What is known of a token when a `refresh` takes it. -/
structure RedeemedInTime (st : AppState) (w : World) (bs : List Step) (now : Timestamp)
    (token : String) : Prop where
  issued : ∃ row, Issued st w bs token row
  first : ¬ Happened st w bs (Redeems token)
  live : ∀ row, Issued st w bs token row → now < row.expiresAt
  kept : ∀ row, ¬ LoggedOut st w bs token row

/-- The `DELETE` of `refresh` returns a token once, before it expires and before its owner
    logs it out. -/
theorem redeemed_once (hr : Run (step st) anyStep (Sys.idle w) bs s)
    (hfresh : FreshTokens w bs) (hs : step st s a = some t) (h : Redeems token s a) :
    RedeemedInTime st w bs s.world.now token := by
  have hlife := keyLife_run (drawsKeys_auth st) hr hfresh token
  obtain ⟨⟨row, hrow, hlive⟩, -⟩ := h.taken hs
  refine
    { issued := ⟨row, hlife.found row hrow⟩
      first := ?_
      live := ?_
      kept := ?_ }
  · rintro ⟨ds, b, es, v, rfl, hv, hbefore⟩
    obtain ⟨v₀, hv₀, hrest⟩ := hr.append_inv
    obtain rfl := hv.functional hv₀
    obtain ⟨v', -, hb, -⟩ := hrest.cons_inv
    obtain ⟨⟨row', hrow', -⟩, hgone⟩ := hbefore.taken hb
    have hissued := (keyLife_run (drawsKeys_auth st) hv hfresh.of_append token).found row' hrow'
    exact not_redeems_of_gone hr hs hfresh hv hb hissued hgone h
  · intro row' hrow'
    rw [hlife.unique row' row hrow' (hlife.found row hrow)]
    exact hlive
  · rintro row' ⟨ds, b, es, v, rfl, hv, hissued, hlogout⟩
    obtain ⟨v₀, hv₀, hrest⟩ := hr.append_inv
    obtain rfl := hv.functional hv₀
    obtain ⟨v', -, hb, -⟩ := hrest.cons_inv
    have hgone := hlogout.gone hb fun row'' hrow'' => by
      have hlife' := keyLife_run (drawsKeys_auth st) hv hfresh.of_append token
      rw [hlife'.unique row'' row' (hlife'.found row'' hrow'') hissued]
    exact not_redeems_of_gone hr hs hfresh hv hb hissued hgone h

/-! ## Exchanging -/

variable {rid rid' : ℕ} {presented : String} {response : OAuth.AuthResponse}

/-- The token pair is for the user that the presented token was issued to. -/
structure ForOwner (st : AppState) (w : World) (as : List Step) (presented : String)
    (response : OAuth.AuthResponse) (row : RefreshTokenRow) : Prop where
  presented : Issued st w as presented row
  user : response.userId = row.userId
  access : ∃ now, st.encode (newClaims st.toAppState row.userId row.username now) =
    some response.accessToken
  refresh : ∃ row', Issued st w as response.refreshToken row' ∧ row'.userId = row.userId ∧
    row'.username = row.username

/-- A `refresh` past its `DELETE` was so before, or makes it now. -/
theorem presented_step (hs : step st s a = some t) (hj : t.jobs.lookup rid = some job)
    (hp : job.presented? = some presented) : s.jobs.lookup rid = some job ∨
      (Redeems presented s a ∧ (∃ pick, a = .advance rid pick) ∧
        ∃ row token, (tokensOf s.world).lookup presented = some row ∧
          job = .issueTokens (.refresh presented) row.userId row.username token) := by
  cases job_origin hs hj with
  | old hold => exact .inl hold
  | arrived hentry =>
    unfold Job.presented? at hp
    split at hp
    · cases hentry
    · cases hp
  | @advanced pick j _ hj₀ hw =>
    right
    have hcall : advance st s.world j = some (t.world, .goto job) := hw
    generalize hw' : t.world = w', hnext : Next.goto job = next at hcall
    cases advance_cases hcall with
    | taken htake =>
      cases hnext
      cases hp
      exact ⟨⟨_, _, _, _, _, rfl, hj₀, htake⟩, ⟨_, rfl⟩, _, _, (Db.takeToken_eq_some.mp htake).1, rfl⟩
    | committed | loggedIn => cases hnext; cases hp
    | _ => cases hnext <;> cases hp
  | @failed pick j _ _ hn =>
    obtain ⟨e, he⟩ := onFail_done st j
    simp [authHandlers, he] at hn

/-- A token pair that a `refresh` answers was sent before, or is sent now. -/
theorem exchange_step (hs : step st s a = some t) : t.answers = s.answers ∨
    ∃ x, t.answers = x :: s.answers ∧ ∀ presented response,
      exchange? x = some (presented, response) →
        ∃ rid u name token row, s.jobs.lookup rid =
            some (.issueTokens (.refresh presented) u name token) ∧ t.jobs.lookup rid = none ∧
          response.userId = u ∧
          st.encode (newClaims st.toAppState u name s.world.now) = some response.accessToken ∧
          Stores (authHandlers st) tokensOf response.refreshToken row s a ∧
          row.userId = u ∧ row.username = name := by
  have hs₀ := hs
  cases answer_cases hs with
  | silent h => exact .inl h
  | @advanced rid pick j r _ hj hw hdone h =>
    refine .inr ⟨(j, r), h, fun presented response hx => ?_⟩
    have hcall : advance st s.world j = some (t.world, .done (some r)) := hw
    generalize hw' : t.world = w', hnext : Next.done (some r) = next at hcall
    cases advance_cases hcall with
    | @issued caller u name accessToken token db hencode hstore =>
      cases hnext
      cases caller with
      | register => cases hx
      | login => cases hx
      | refresh presented' =>
        cases hx
        obtain ⟨hfree, rfl⟩ := Db.storeToken_eq_some hstore
        have hstored : (tokensOf t.world).lookup (refreshTokenOf token) = some
            { userId := u
              username := name
              expiresAt := s.world.now + st.jwtRefreshTtlSecs.toNat * 1000000000
              createdAt := s.world.now } := by
          rw [hw']
          exact AList.lookup_insert _
        exact ⟨rid, u, name, token, _, hj, hdone, rfl, hencode, ⟨hfree, t, hs₀, hstored⟩, rfl, rfl⟩
    | loggedOut => cases hnext; cases hx
    | _ => cases hnext <;> cases hx
  | @failed rid pick j r _ hj hn h =>
    refine .inr ⟨(j, r), h, fun presented response hx => ?_⟩
    obtain ⟨e, he⟩ := onFail_done st j
    simp only [authHandlers, he, Option.some.injEq, Next.done.injEq] at hn
    subst hn
    cases hx

/-- What the requests past the `DELETE` of `refresh` and the answers of `refresh` have
    behind them. -/
structure Exchanging (st : AppState) (w : World) (as : List Step) (s : State) : Prop where
  taken : ∀ rid presented u name token, s.jobs.lookup rid =
    some (.issueTokens (.refresh presented) u name token) → Happened st w as (Redeems presented) ∧
      ∃ row, Issued st w as presented row ∧ row.userId = u ∧ row.username = name
  single : ∀ rid rid' job job' presented, s.jobs.lookup rid = some job →
    s.jobs.lookup rid' = some job' → job.presented? = some presented →
      job'.presented? = some presented → rid = rid'
  /-- Such a request has not been answered. -/
  pending : ∀ rid job presented, s.jobs.lookup rid = some job → job.presented? = some presented →
    ∀ x ∈ s.answers, ∀ response, exchange? x ≠ some (presented, response)
  answered : ∀ x ∈ s.answers, ∀ presented response, exchange? x = some (presented, response) →
    Happened st w as (Redeems presented) ∧ ∃ row, ForOwner st w as presented response row
  once : s.answers.Pairwise fun x y => ∀ presented response response',
    exchange? x = some (presented, response) → exchange? y ≠ some (presented, response')

theorem exchanging_idle (w : World) : Exchanging st w [] (Sys.idle w) where
  taken rid presented u name token h := by simp [Sys.idle] at h
  single rid rid' job job' presented h := by simp [Sys.idle] at h
  pending rid job presented h := by simp [Sys.idle] at h
  answered x h := by simp [Sys.idle] at h
  once := .nil

theorem presented_eq_some {job : Job} (h : job.presented? = some presented) :
    ∃ u name token, job = .issueTokens (.refresh presented) u name token := by
  unfold Job.presented? at h
  split at h
  · cases h; exact ⟨_, _, _, rfl⟩
  · cases h

theorem ForOwner.concat (hr : Run (step st) anyStep (Sys.idle w) as s)
    (h : ForOwner st w as presented response row) : ForOwner st w (as ++ [a]) presented response row where
  presented := h.presented.concat hr
  user := h.user
  access := h.access
  refresh := by
    obtain ⟨row', hissued, hrow'⟩ := h.refresh
    exact ⟨row', hissued.concat hr, hrow'⟩

/-- A token that a request has taken is not taken again. -/
theorem Exchanging.not_redeems {job : Job} (h : Exchanging st w as s)
    (hr : Run (step st) anyStep (Sys.idle w) as s) (hs : Auth.step st s a = some t)
    (hfresh : FreshTokens w as) (hj : s.jobs.lookup rid = some job)
    (hp : job.presented? = some presented) : ¬ Redeems presented s a := by
  intro hredeem
  obtain ⟨u, name, token, rfl⟩ := presented_eq_some hp
  exact (redeemed_once hr hfresh hs hredeem).first (h.taken rid presented u name token hj).1

theorem Exchanging.taken_step {name : String} {token : Uuid × Uuid} (h : Exchanging st w as s)
    (hr : Run (step st) anyStep (Sys.idle w) as s) (hs : Auth.step st s a = some t)
    (hfresh : FreshTokens w as)
    (hj : t.jobs.lookup rid = some (.issueTokens (.refresh presented) u name token)) :
    Happened st w (as ++ [a]) (Redeems presented) ∧
      ∃ row, Issued st w (as ++ [a]) presented row ∧ row.userId = u ∧ row.username = name := by
  rcases presented_step hs hj rfl with hold | ⟨hredeem, -, row, token', hrow, hjob⟩
  · obtain ⟨hredeemed, row, hissued, hrow⟩ := h.taken rid presented u name token hold
    exact ⟨(Run.occurs_concat hr).mpr (.inl hredeemed), row, hissued.concat hr, hrow⟩
  · cases hjob
    have hissued := (keyLife_run (drawsKeys_auth st) hr hfresh presented).found row hrow
    exact ⟨(Run.occurs_concat hr).mpr (.inr hredeem), row, hissued.concat hr, rfl, rfl⟩

theorem Exchanging.single_step {job job' : Job} (h : Exchanging st w as s)
    (hr : Run (step st) anyStep (Sys.idle w) as s) (hs : Auth.step st s a = some t)
    (hfresh : FreshTokens w as) (hj : t.jobs.lookup rid = some job)
    (hj' : t.jobs.lookup rid' = some job') (hp : job.presented? = some presented)
    (hp' : job'.presented? = some presented) : rid = rid' := by
  rcases presented_step hs hj hp with hold | ⟨hredeem, ⟨pick, ha⟩, -⟩
  · rcases presented_step hs hj' hp' with hold' | ⟨hredeem', -⟩
    · exact h.single rid rid' job job' presented hold hold' hp hp'
    · exact absurd hredeem' (h.not_redeems hr hs hfresh hold hp)
  · rcases presented_step hs hj' hp' with hold' | ⟨-, ⟨pick', ha'⟩, -⟩
    · exact absurd hredeem (h.not_redeems hr hs hfresh hold' hp')
    · rw [ha] at ha'
      cases ha'
      rfl

theorem Exchanging.pending_step {job : Job} {x : Job × Response} (h : Exchanging st w as s)
    (hr : Run (step st) anyStep (Sys.idle w) as s) (hs : Auth.step st s a = some t)
    (hfresh : FreshTokens w as) (hj : t.jobs.lookup rid = some job)
    (hp : job.presented? = some presented) (hx : x ∈ t.answers) :
    exchange? x ≠ some (presented, response) := by
  intro hex
  rcases presented_step hs hj hp with hold | ⟨hredeem, -⟩
  · rcases exchange_step hs with hsame | ⟨y, hy, hsent⟩
    · exact h.pending rid job presented hold hp x (hsame ▸ hx) response hex
    · rw [hy] at hx
      rcases List.mem_cons.mp hx with rfl | hx
      · -- the request that is answered is this one, and is no longer in flight
        obtain ⟨rid₀, u, name, token, row, hj₀, hdone, -⟩ := hsent presented response hex
        obtain rfl := h.single rid rid₀ _ _ presented hold hj₀ hp rfl
        rw [hdone] at hj
        cases hj
      · exact h.pending rid job presented hold hp x hx response hex
  · have hunused := (redeemed_once hr hfresh hs hredeem).first
    rcases exchange_step hs with hsame | ⟨y, hy, hsent⟩
    · exact hunused (h.answered x (hsame ▸ hx) presented response hex).1
    · rw [hy] at hx
      rcases List.mem_cons.mp hx with rfl | hx
      · obtain ⟨rid₀, u, name, token, row, hj₀, -⟩ := hsent presented response hex
        exact hunused (h.taken rid₀ presented u name token hj₀).1
      · exact hunused (h.answered x hx presented response hex).1

theorem Exchanging.answered_step {x : Job × Response} (h : Exchanging st w as s)
    (hr : Run (step st) anyStep (Sys.idle w) as s) (hs : Auth.step st s a = some t)
    (hx : x ∈ t.answers) (hex : exchange? x = some (presented, response)) :
    Happened st w (as ++ [a]) (Redeems presented) ∧
      ∃ row, ForOwner st w (as ++ [a]) presented response row := by
  have hkept : x ∈ s.answers → Happened st w (as ++ [a]) (Redeems presented) ∧
      ∃ row, ForOwner st w (as ++ [a]) presented response row := by
    intro hx
    obtain ⟨hredeemed, row, howner⟩ := h.answered x hx presented response hex
    exact ⟨(Run.occurs_concat hr).mpr (.inl hredeemed), row, howner.concat hr⟩
  rcases exchange_step hs with hsame | ⟨y, hy, hsent⟩
  · exact hkept (hsame ▸ hx)
  · rw [hy] at hx
    rcases List.mem_cons.mp hx with rfl | hx
    · obtain ⟨rid₀, u, name, token, row', hj₀, -, huser, hencode, hstores, hrow'⟩ :=
        hsent presented response hex
      obtain ⟨hredeemed, row, hissued, rfl, rfl⟩ := h.taken rid₀ presented u name token hj₀
      refine ⟨(Run.occurs_concat hr).mpr (.inl hredeemed), row, hissued.concat hr, huser,
        ⟨_, hencode⟩, row', ?_, hrow'⟩
      exact .inr ((Run.occurs_concat hr).mpr (.inr hstores))
    · exact hkept hx

theorem Exchanging.step (h : Exchanging st w as s)
    (hr : Run (step st) anyStep (Sys.idle w) as s) (hs : Auth.step st s a = some t)
    (hfresh : FreshTokens w as) : Exchanging st w (as ++ [a]) t where
  taken _ _ _ _ _ hj := h.taken_step hr hs hfresh hj
  single _ _ _ _ _ hj hj' hp hp' := h.single_step hr hs hfresh hj hj' hp hp'
  pending _ _ _ hj hp _ hx _ := h.pending_step hr hs hfresh hj hp hx
  answered _ hx _ _ hex := h.answered_step hr hs hx hex
  once := by
    rcases exchange_step hs with hsame | ⟨x, hx, hsent⟩
    · rw [hsame]; exact h.once
    · rw [hx, List.pairwise_cons]
      refine ⟨fun y hy presented response response' hex => ?_, h.once⟩
      obtain ⟨rid₀, u, name, token, row, hj₀, -⟩ := hsent presented response hex
      exact h.pending rid₀ _ presented hj₀ rfl y hy response'

theorem exchanging_run (hr : Run (step st) anyStep (Sys.idle w) as s) (hfresh : FreshTokens w as) :
    Exchanging st w as s := by
  refine hr.history_invariant (fun as s => FreshTokens w as → Exchanging st w as s)
    (fun _ => exchanging_idle w) ?_ hfresh
  intro as s a t hr ih _ hs hfresh
  have hbefore : FreshTokens w as := hfresh.of_append
  exact (ih hbefore).step hr hs hbefore

/-! ## Families -/

/-- The token descends from the root: it was issued for it, or for one that descends from
    it. -/
def Descends (s : State) (root token : String) : Prop := ReflTransGen (Child s) root token

theorem Exchanging.child_unique (h : Exchanging st w as s) : Relator.RightUnique (Child s) := by
  rintro parent child child' ⟨x, hx, response, hex, rfl⟩ ⟨y, hy, response', hey, rfl⟩
  by_cases hxy : x = y
  · rw [← hxy, hex] at hey
    cases hey
    rfl
  · have hnot : ∀ presented response response', exchange? x = some (presented, response) →
        exchange? y ≠ some (presented, response') := by
      have hsymm : Std.Symm fun x y : Job × Response => ∀ presented response response',
          exchange? x = some (presented, response) → exchange? y ≠ some (presented, response') :=
        ⟨fun x y h presented response response' hy hx => h presented response' response hx hy⟩
      exact h.once.forall hx hy hxy
    exact absurd hey (hnot parent response response' hex)

/-- A token that another one was issued for is not stored any more. -/
theorem Exchanging.not_stored {child : String} (h : Exchanging st w as s)
    (hr : Run (Auth.step st) anyStep (Sys.idle w) as s) (hfresh : FreshTokens w as)
    (hchild : Child s token child) : (tokensOf s.world).lookup token = none := by
  obtain ⟨x, hx, response, hex, -⟩ := hchild
  obtain ⟨⟨bs, b, cs, u, rfl, hu, hredeem⟩, -⟩ := h.answered x hx token response hex
  obtain ⟨u₀, hu₀, hrest⟩ := hr.append_inv
  obtain rfl := hu.functional hu₀
  obtain ⟨v, -, hb, hrest⟩ := hrest.cons_inv
  obtain ⟨⟨row, hrow, -⟩, hgone⟩ := hredeem.taken hb
  have hissued := (keyLife_run (drawsKeys_auth st) hu hfresh.of_append token).found row hrow
  rw [List.append_cons] at hfresh
  exact stays_gone (drawsKeys_auth st) (hu.snoc trivial hb) (hissued.concat hu) hgone hrest hfresh

/-- Of the tokens that descend from a root at most one is stored. -/
theorem Exchanging.family {root token token' : String} (h : Exchanging st w as s)
    (hr : Run (Auth.step st) anyStep (Sys.idle w) as s) (hfresh : FreshTokens w as)
    (hdesc : Descends s root token) (hdesc' : Descends s root token')
    (hstored : (tokensOf s.world).lookup token ≠ none)
    (hstored' : (tokensOf s.world).lookup token' ≠ none) : token = token' := by
  rcases ReflTransGen.total_of_right_unique h.child_unique hdesc hdesc' with hpath | hpath
  · rcases ReflTransGen.cases_head hpath with heq | ⟨child, hchild, -⟩
    · exact heq
    · exact absurd (h.not_stored hr hfresh hchild) hstored
  · rcases ReflTransGen.cases_head hpath with heq | ⟨child, hchild, -⟩
    · exact heq.symm
    · exact absurd (h.not_stored hr hfresh hchild) hstored'

/-- What is promised of refresh tokens after the run of `as` from `w` to `s`. -/
structure RotationSafe (st : AppState) (w : World) (as : List Step) (s : State) : Prop where
  /-- A `refresh` takes a token once, before it expires and before its owner logs it out. -/
  redeemed : ∀ bs b cs u token, as = bs ++ b :: cs → Run (step st) anyStep (Sys.idle w) bs u →
    Redeems token u b → RedeemedInTime st w bs u.world.now token
  /-- A token pair is answered to a token that was taken, and is for the same user. -/
  answered : ∀ x ∈ s.answers, ∀ presented response, exchange? x = some (presented, response) →
    Happened st w as (Redeems presented) ∧ ∃ row, ForOwner st w as presented response row
  /-- No two token pairs are answered to one token. -/
  once : s.answers.Pairwise fun x y => ∀ presented response response',
    exchange? x = some (presented, response) → exchange? y ≠ some (presented, response')
  /-- At most one token of a family is stored, so at most one is valid. -/
  family : ∀ root token token', Descends s root token → Descends s root token' →
    (tokensOf s.world).lookup token ≠ none → (tokensOf s.world).lookup token' ≠ none →
      token = token'

/-- Rotation. In any run of requests with fresh tokens, at any point of it. -/
theorem refresh_rotation (hr : Run (step st) anyStep (Sys.idle w) as s)
    (hfresh : FreshTokens w as) : RotationSafe st w as s where
  redeemed := by
    rintro bs b cs u token rfl hu hredeem
    obtain ⟨u₀, hu₀, hrest⟩ := hr.append_inv
    obtain rfl := hu.functional hu₀
    obtain ⟨v, -, hb, -⟩ := hrest.cons_inv
    exact redeemed_once hu hfresh.of_append hb hredeem
  answered := (exchanging_run hr hfresh).answered
  once := (exchanging_run hr hfresh).once
  family _ _ _ hdesc hdesc' := (exchanging_run hr hfresh).family hr hfresh hdesc hdesc'

/-! ## A concrete run -/

def runServer : AppState :=
  { KeyServer.runServer with
    verifyPasswordServer := fun password storedHash => .ok (storedHash = "salt" ++ password) }

def runUser : Uuid := ⟨1⟩

/-- A user with the password hash `hash`. -/
def runWorld : World where
  now := 0
  db := (Db.empty.insertUser runUser
    { username := "alice", email := "alice@example.com", passwordHash := some "salthash",
      argon2Salt := some "salt", createdAt := 0, deletedAt := none }).getD .empty
  bundles := ∅

/-- A login, and two requests to exchange its token at once. -/
def runRefreshes : List Step :=
  [.arrive 0 (.login { username := "alice", passwordHash := "hash" } (⟨10⟩, ⟨10⟩)),
    .advance 0 0, .advance 0 0,
    .arrive 1 (.refresh (refreshTokenOf (⟨10⟩, ⟨10⟩)) (⟨11⟩, ⟨11⟩)),
    .arrive 2 (.refresh (refreshTokenOf (⟨10⟩, ⟨10⟩)) (⟨12⟩, ⟨12⟩)),
    .advance 2 0, .advance 1 0, .advance 2 0]

theorem refresh_rotation_run : ∃ s, Run (step runServer) anyStep (Sys.idle runWorld) runRefreshes s ∧
    s.answers.length = 3 ∧ (tokensOf s.world).keys = [refreshTokenOf (⟨12⟩, ⟨12⟩)] ∧
    RotationSafe runServer runWorld runRefreshes s := by
  obtain ⟨s, hr, hs⟩ := exists_run_of_exec (step runServer) anyStep (Sys.idle runWorld) runRefreshes
    (fun s => s.answers.length = 3 ∧
      (tokensOf s.world).keys = [refreshTokenOf (⟨12⟩, ⟨12⟩)]) (by decide +kernel)
  obtain ⟨hanswers, hkeys⟩ := of_decide_eq_true hs
  have hfresh : FreshTokens runWorld runRefreshes := ⟨by decide +kernel, fun _ _ => rfl⟩
  exact ⟨s, hr, hanswers, hkeys, refresh_rotation hr hfresh⟩

end FreeBox.Server.Auth
