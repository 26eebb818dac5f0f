import FreeBox.Server.AccountTokens
import FreeBox.Server.UserRows

/-!
# A refresh token and its holder

`refresh` and `logout` of `apps/server/src/api/auth.rs` delete a refresh token that is presented to
them. As long as only its holder presents it, a token stays until it is exchanged, whatever other
requests do.

Results:
* `Held.step`: a token that nobody presents stays.
* `Exchange.step`: the exchange of a token, in between the steps of other requests.
* `Exchanges.exchanged`: an exchange leaves its holder with the old token or with a new one.
-/

namespace FreeBox.Server.Auth

open FreeBox.Lib Handlers

variable {st : AppState} {w w' : KeyServer.World} {s t : AccountState} {a : AccountStep}
  {u : Uuid} {token : String} {rid : ℕ} {draw : Uuid × Uuid}

/-- The refresh token that the request presents. -/
def presents? : Job ⊕ OAuth.Job → Option String
  | .inl (.refresh token _) | .inl (.logout _ token) => some token
  | _ => none

/-! ## Tokens that nobody presents -/

/-- A token stays unless the request presents it. -/
theorem tokens_advance {pick : ℕ} {x : Job ⊕ OAuth.Job}
    {next : Next (Job ⊕ OAuth.Job) (Response ⊕ OAuth.Response)} {row : RefreshTokenRow}
    (h : (accountHandlers st).advance w pick x = some (w', next))
    (hrow : (tokensOf w).lookup token = some row) (hother : presents? x ≠ some token) :
    (tokensOf w').lookup token = some row := by
  cases par_advance_cases h with
  | left hcall =>
    have hcall : advance st w _ = some (w', _) := hcall
    cases advance_cases hcall with
    | committed hcommit =>
      have htokens : w'.db.refreshTokens = w.db.refreshTokens := commitRegistration_tokens hcommit
      show w'.db.refreshTokens.lookup token = some row
      rw [htokens]
      exact hrow
    | @taken refreshToken _ _ _ htake =>
      obtain ⟨-, -, rfl⟩ := Db.takeToken_eq_some.mp htake
      have hne : token ≠ refreshToken := fun heq => hother (by rw [heq]; rfl)
      show (AList.erase refreshToken w.db.refreshTokens).lookup token = some row
      rw [AList.lookup_erase_ne hne]
      exact hrow
    | @issued _ _ _ _ drawn _ _ hstore =>
      obtain ⟨hfree, rfl⟩ := Db.storeToken_eq_some hstore
      show (AList.insert (refreshTokenOf drawn) _ w.db.refreshTokens).lookup token = some row
      have hne : token ≠ refreshTokenOf drawn := by
        intro heq
        rw [← heq] at hfree
        exact absurd (hfree.symm.trans hrow) nofun
      rw [AList.lookup_insert_ne hne]
      exact hrow
    | @loggedOut claims refreshToken =>
      have hne : token ≠ refreshToken := fun heq => hother (by rw [heq]; rfl)
      show (Table.deleteWhere (fun token' row => token' = refreshToken ∧ row.userId = claims.sub)
        w.db.refreshTokens).lookup token = some row
      rw [Table.lookup_deleteWhere_eq_some]
      exact ⟨hrow, decide_eq_false fun heq => hne heq.1⟩
    | _ => exact hrow
  | right hzoom =>
    obtain ⟨v, hcall, rfl⟩ := zoom_advance_cases hzoom
    rcases OAuth.advance_tokens hcall with hsame | ⟨drawn, _, _, hfree, -, hinsert⟩
    · show v.db.refreshTokens.lookup token = some row
      rw [hsame]
      exact hrow
    · show v.db.refreshTokens.lookup token = some row
      have hne : token ≠ drawn := by
        intro heq
        rw [← heq] at hfree
        exact absurd (hfree.symm.trans hrow) nofun
      rw [hinsert, AList.lookup_insert_ne hne]
      exact hrow

/-- A request that goes on has presented its token already. -/
theorem presents_goto {pick : ℕ} {x y : Job ⊕ OAuth.Job}
    (h : (accountHandlers st).advance w pick x = some (w', .goto y)) : presents? y = none := by
  generalize hnext : Next.goto y = next at h
  cases par_advance_cases h with
  | left hcall =>
    obtain ⟨j, rfl, rfl⟩ := Next.map_eq_goto hnext.symm
    have hcall : advance st w _ = some (w', .goto j) := hcall
    cases advance_cases hcall <;> rfl
  | right hcall =>
    obtain ⟨j, rfl, rfl⟩ := Next.map_eq_goto hnext.symm
    rfl

/-- No call goes on after it has failed. -/
theorem onFail_ne_goto {pick : ℕ} {x y : Job ⊕ OAuth.Job} :
    (accountHandlers st).onFail pick x ≠ some (.goto y) := by
  intro h
  rcases par_onFail_cases h with ⟨j, j', -, -, hfail⟩ | ⟨j, j', -, -, hfail⟩
  · obtain ⟨e, he⟩ := onFail_done st j
    have hfail : some (onFail st j) = some (.goto j') := hfail
    rw [he] at hfail
    cases hfail
  · cases hfail

/-- The token of `u` is stored, and no request in flight presents it. -/
structure Held (u : Uuid) (token : String) (s : AccountState) : Prop where
  user : (s.world.db.users.rows.lookup u).isSome = true
  row : ∃ row, (tokensOf s.world).lookup token = some row ∧ row.userId = u
  unpresented : ∀ rid x, s.jobs.lookup rid = some x → presents? x ≠ some token

/-- Nobody else presents a token of the list, or draws one. -/
def Others (own : List String) (a : AccountStep) : Prop :=
  ∀ rid x, a = .arrive rid x → ∀ token ∈ own, presents? x ≠ some token ∧ draw? x ≠ some token

theorem user_step (hs : (accountHandlers st).step s a = some t)
    (h : (s.world.db.users.rows.lookup u).isSome = true) :
    (t.world.db.users.rows.lookup u).isSome = true := by
  obtain ⟨row, hrow⟩ := Option.isSome_iff_exists.mp h
  obtain ⟨row', hrow', -⟩ := usersStay_step hs u row hrow
  exact Option.isSome_of_eq_some hrow'

/-- A token stays in a step of a request that does not present it. -/
theorem tokens_step {row : RefreshTokenRow} (hs : (accountHandlers st).step s a = some t)
    (hrow : (tokensOf s.world).lookup token = some row)
    (hother : ∀ rid pick x, a = .advance rid pick → s.jobs.lookup rid = some x →
      presents? x ≠ some token) : (tokensOf t.world).lookup token = some row := by
  cases step_cases hs with
  | arrive | fail | cancel => exact hrow
  | advance hj hw => exact tokens_advance hw hrow (hother _ _ _ rfl hj)
  | @env e w henv =>
    show w.db.refreshTokens.lookup token = some row
    rw [account_environ_db henv]
    exact hrow

/-- A request in flight has presented its token before, or has just arrived. -/
theorem presents_step {x : Job ⊕ OAuth.Job} (hs : (accountHandlers st).step s a = some t)
    (hx : t.jobs.lookup rid = some x) (htoken : presents? x = some token) :
    s.jobs.lookup rid = some x ∨ a = .arrive rid x := by
  cases job_origin hs hx with
  | old hold => exact .inl hold
  | arrived => exact .inr rfl
  | advanced _ hw =>
    rw [presents_goto hw] at htoken
    cases htoken
  | failed _ hn => exact absurd hn onFail_ne_goto

theorem Held.step (h : Held u token s) (hs : (accountHandlers st).step s a = some t)
    {own : List String} (ha : Others own a) (htoken : token ∈ own) : Held u token t where
  user := user_step hs h.user
  row := by
    obtain ⟨row, hrow, hu⟩ := h.row
    exact ⟨row, tokens_step hs hrow fun rid pick x _ hx => h.unpresented rid x hx, hu⟩
  unpresented rid x hx hpresents := by
    rcases presents_step hs hx hpresents with hold | harrive
    · exact h.unpresented rid x hold hpresents
    · exact (ha rid x harrive token htoken).1 hpresents

theorem Held.run (h : Held u token s) {own : List String} {as : List AccountStep}
    (hrun : Run (accountHandlers st).step (fun _ => Others own) s as t) (htoken : token ∈ own) :
    Held u token t :=
  hrun.invariant (Held u token) h fun _ _ _ h ha hs => h.step hs ha htoken

/-! ## An exchange -/

/-- The request `rid` is about to take the token of `u`, or has taken it. -/
inductive Taking (u : Uuid) (token : String) (draw : Uuid × Uuid) (rid : ℕ) (s : AccountState) :
    Prop
  | before (hjob : s.jobs.lookup rid = some (.inl (.refresh token draw)))
      (hrow : ∃ row, (tokensOf s.world).lookup token = some row ∧ row.userId = u)
  | after {username : String}
      (hjob : s.jobs.lookup rid = some (.inl (.issueTokens (.refresh token) u username draw)))

/-- The request `rid` exchanges the token of `u` for the token that it has drawn. Nobody else
    presents the old one or knows the new one. -/
structure Exchange (u : Uuid) (token : String) (draw : Uuid × Uuid) (rid : ℕ)
    (s : AccountState) : Prop where
  user : (s.world.db.users.rows.lookup u).isSome = true
  taking : Taking u token draw rid s
  alone : ∀ rid' x, rid' ≠ rid → s.jobs.lookup rid' = some x → presents? x ≠ some token
  free : (tokensOf s.world).lookup (refreshTokenOf draw) = none
  undrawn : ∀ rid' x, rid' ≠ rid → s.jobs.lookup rid' = some x →
    draw? x ≠ some (refreshTokenOf draw)
  unknown : ∀ rid' x, s.jobs.lookup rid' = some x → presents? x ≠ some (refreshTokenOf draw)

/-- Nobody has the drawn token. -/
structure NewDraw (draw : Uuid × Uuid) (s : AccountState) : Prop where
  free : (tokensOf s.world).lookup (refreshTokenOf draw) = none
  undrawn : ∀ rid x, s.jobs.lookup rid = some x → draw? x ≠ some (refreshTokenOf draw)
  unknown : ∀ rid x, s.jobs.lookup rid = some x → presents? x ≠ some (refreshTokenOf draw)

theorem Held.exchange (h : Held u token s) (hnew : NewDraw draw s)
    (hs : (accountHandlers st).step s (.arrive rid (.inl (.refresh token draw))) = some t) :
    Exchange u token draw rid t := by
  cases step_cases hs with
  | arrive _ hfree =>
    have hne : token ≠ refreshTokenOf draw := by
      obtain ⟨row, hrow, -⟩ := h.row
      intro heq
      rw [heq, hnew.free] at hrow
      cases hrow
    have hold : ∀ rid' x, rid' ≠ rid →
        (s.jobs.insert rid (.inl (.refresh token draw))).lookup rid' = some x →
        s.jobs.lookup rid' = some x := by
      intro rid' x hrid hx
      rwa [AList.lookup_insert_ne hrid] at hx
    exact {
      user := h.user
      taking := .before (AList.lookup_insert s.jobs) h.row
      alone := fun rid' x hrid hx => h.unpresented rid' x (hold rid' x hrid hx)
      free := hnew.free
      undrawn := fun rid' x hrid hx => hnew.undrawn rid' x (hold rid' x hrid hx)
      unknown := by
        intro rid' x hx
        by_cases hrid : rid' = rid
        · subst hrid
          rw [AList.lookup_insert] at hx
          cases hx
          exact fun heq => hne (Option.some.inj heq)
        · exact hnew.unknown rid' x (hold rid' x hrid hx) }

/-- A request that is still in flight and has not made a call is where it was. -/
theorem lookup_still {x : Job ⊕ OAuth.Job} (hs : (accountHandlers st).step s a = some t)
    (hx : s.jobs.lookup rid = some x) (hflight : (t.jobs.lookup rid).isSome = true)
    (hown : ∀ pick, a ≠ .advance rid pick) : t.jobs.lookup rid = some x := by
  obtain ⟨y, hy⟩ := Option.isSome_iff_exists.mp hflight
  rw [hy]
  cases job_origin hs hy with
  | old hold => rw [← hold, hx]
  | arrived =>
    cases step_cases hs with
    | arrive _ hfree =>
      rw [hfree] at hx
      cases hx
  | advanced => exact absurd rfl (hown _)
  | failed _ hn => exact absurd hn onFail_ne_goto

/-- The request makes its next call. -/
theorem own_step {pick : ℕ} {job : Job}
    (hs : (accountHandlers st).step s (.advance rid pick) = some t)
    (hjob : s.jobs.lookup rid = some (.inl job)) :
    ∃ w next, advance st s.world job = some (w, next) ∧
      t = s.settle rid (.inl job) w (next.map .inl .inl) := by
  cases step_cases hs with
  | advance hj hw =>
    rw [hjob] at hj
    cases hj
    cases par_advance_cases hw with
    | left hcall => exact ⟨_, _, hcall, rfl⟩

/-- What is left in flight when the request has ended. -/
theorem of_lookup_done {x y : Job ⊕ OAuth.Job} {rid' : ℕ} {w : KeyServer.World}
    {r : Option (Response ⊕ OAuth.Response)}
    (hx : (s.settle rid y w (.done r)).jobs.lookup rid' = some x) :
    rid' ≠ rid ∧ s.jobs.lookup rid' = some x := by
  rcases Sys.of_lookup_settle hx with hold | ⟨-, hgoto⟩
  · exact hold
  · cases hgoto

/-- What the calls of an exchange do. -/
inductive ExchangeCase (st : AppState) (u : Uuid) (token : String) (draw : Uuid × Uuid)
    (w : KeyServer.World) : Job → KeyServer.World → Next Job Response → Prop
  /-- The token has expired. -/
  | expired {e : AppError} : ExchangeCase st u token draw w (.refresh token draw) w
      (.done (some (.error e)))
  | taken {username : String} {w' : KeyServer.World} :
      ExchangeCase st u token draw w (.refresh token draw) w'
        (.goto (.issueTokens (.refresh token) u username draw))
  | issued {username : String} {w' : KeyServer.World} {pair : OAuth.AuthResponse}
      (hpair : pair.refreshToken = refreshTokenOf draw) (huser : pair.userId = u)
      (hrow : ∃ row, (tokensOf w').lookup (refreshTokenOf draw) = some row ∧ row.userId = u) :
      ExchangeCase st u token draw w (.issueTokens (.refresh token) u username draw) w'
        (.done (some (.tokens pair)))

theorem refresh_case {next : Next Job Response}
    (hrow : ∃ row, (tokensOf w).lookup token = some row ∧ row.userId = u)
    (h : advance st w (.refresh token draw) = some (w', next)) :
    ExchangeCase st u token draw w (.refresh token draw) w' next := by
  obtain ⟨row, hrow, rfl⟩ := hrow
  cases advance_cases h with
  | rejected => exact .expired
  | taken htake =>
    obtain ⟨hlookup, -, -⟩ := Db.takeToken_eq_some.mp htake
    obtain rfl := Option.some.inj (hrow.symm.trans hlookup)
    exact .taken

/-- Nothing is in the way of a new token for a user. -/
theorem issue_case {username : String} {next : Next Job Response}
    (hencode : ∀ claims, st.encode claims ≠ none)
    (huser : (w.db.users.rows.lookup u).isSome = true)
    (hfree : (tokensOf w).lookup (refreshTokenOf draw) = none)
    (h : advance st w (.issueTokens (.refresh token) u username draw) = some (w', next)) :
    ExchangeCase st u token draw w (.issueTokens (.refresh token) u username draw) w' next := by
  have hclaims := hencode (OAuth.newClaims st.toAppState u username w.now)
  obtain ⟨accessToken, haccess⟩ := Option.ne_none_iff_exists'.mp hclaims
  have hnew : refreshTokenOf draw ∉ w.db.refreshTokens := AList.lookup_eq_none.mp hfree
  have hissue : OAuth.issueTokenPair st.toAppState w.toWorld u username draw =
      .ok ({ w.toWorld with
        db := { w.db with
          refreshTokens := w.db.refreshTokens.insert (refreshTokenOf draw)
            { userId := u
              username
              expiresAt := w.now + st.jwtRefreshTtlSecs.toNat * 1000000000
              createdAt := w.now } } },
        { accessToken, refreshToken := refreshTokenOf draw, userId := u }) := by
    unfold refreshTokenOf at hnew ⊢
    simp only [OAuth.issueTokenPair, haccess, Db.storeToken, huser, if_true, Table.insertNew,
      hnew, if_false, Option.map_some]
  simp only [advance, hissue] at h
  cases h
  exact .issued rfl rfl ⟨_, AList.lookup_insert _, rfl⟩

/-- The token has been taken, or is still there. -/
theorem Taking.step (h : Exchange u token draw rid s) (hs : (accountHandlers st).step s a = some t)
    (hflight : (t.jobs.lookup rid).isSome = true) : Taking u token draw rid t := by
  by_cases hown : ∃ pick, a = .advance rid pick
  · obtain ⟨pick, rfl⟩ := hown
    cases h.taking with
    | before hjob hrow =>
      obtain ⟨w, next, hcall, rfl⟩ := own_step hs hjob
      rw [Sys.lookup_settle, if_pos rfl] at hflight
      cases refresh_case hrow hcall with
      | expired => cases hflight
      | taken => exact .after (by rw [Sys.lookup_settle, if_pos rfl]; rfl)
    | after hjob =>
      -- The next call is the last one of the request.
      obtain ⟨w, next, hcall, rfl⟩ := own_step hs hjob
      rw [Sys.lookup_settle, if_pos rfl] at hflight
      cases advance_cases hcall with
      | rejected | issued => cases hflight
  · have hother : ∀ pick, a ≠ .advance rid pick := fun pick heq => hown ⟨pick, heq⟩
    cases h.taking with
    | before hjob hrow =>
      obtain ⟨row, hrow, hu⟩ := hrow
      refine .before (lookup_still hs hjob hflight hother) ⟨row, tokens_step hs hrow ?_, hu⟩
      rintro rid' pick x rfl hx
      exact h.alone rid' x (fun heq => hother pick (by rw [heq])) hx
    | after hjob => exact .after (lookup_still hs hjob hflight hother)

theorem Taking.draws {x : Job ⊕ OAuth.Job} (h : Taking u token draw rid s)
    (hx : s.jobs.lookup rid = some x) : draw? x = some (refreshTokenOf draw) := by
  cases h with
  | before hjob | after hjob =>
    rw [hx] at hjob
    cases hjob
    rfl

/-- The request is still in flight after a step of anyone. -/
theorem Exchange.step (h : Exchange u token draw rid s)
    (hs : (accountHandlers st).step s a = some t) {own : List String} (ha : Others own a)
    (htoken : token ∈ own) (hdraw : refreshTokenOf draw ∈ own)
    (hflight : (t.jobs.lookup rid).isSome = true) : Exchange u token draw rid t where
  user := user_step hs h.user
  taking := Taking.step h hs hflight
  alone rid' x hrid hx hpresents := by
    rcases presents_step hs hx hpresents with hold | harrive
    · exact h.alone rid' x hrid hold hpresents
    · exact (ha rid' x harrive token htoken).1 hpresents
  free := by
    rw [Option.eq_none_iff_forall_not_mem]
    intro row hrow
    rcases (drawsKeys_account st).row_step hs hrow with hold | ⟨-, rid', x, hx, hdrawn, hgone⟩
    · rw [h.free] at hold
      cases hold
    · obtain rfl : rid' = rid := by
        by_contra hrid
        exact h.undrawn rid' x hrid hx hdrawn
      obtain ⟨y, hy⟩ := Option.isSome_iff_exists.mp hflight
      have hnone := hgone y hy
      rw [(Taking.step h hs hflight).draws hy] at hnone
      cases hnone
  undrawn rid' x hrid hx hdrawn := by
    rcases (drawsKeys_account st).draw_step hs hx hdrawn with ⟨y, hy, hold⟩ | harrive
    · exact h.undrawn rid' y hrid hy hold
    · exact (ha rid' x harrive _ hdraw).2 hdrawn
  unknown rid' x hx hpresents := by
    rcases presents_step hs hx hpresents with hold | harrive
    · exact h.unknown rid' x hold hpresents
    · exact (ha rid' x harrive _ hdraw).1 hpresents

/-- What the holder of `token` has when the exchange has been answered. -/
inductive Exchanged (u : Uuid) (token : String) (draw : Uuid × Uuid) (s : AccountState) :
    Response → Prop
  | issued {pair : OAuth.AuthResponse} (hpair : pair.refreshToken = refreshTokenOf draw)
      (huser : pair.userId = u) (held : Held u pair.refreshToken s) :
      Exchanged u token draw s (.tokens pair)
  | refused {e : AppError} (held : Held u token s) : Exchanged u token draw s (.error e)

/-- Nobody is left who presents the old token. -/
theorem Exchange.held {x : Job ⊕ OAuth.Job} {w : KeyServer.World}
    {r : Option (Response ⊕ OAuth.Response)} (h : Exchange u token draw rid s)
    (huser : (w.db.users.rows.lookup u).isSome = true)
    (hrow : ∃ row, (tokensOf w).lookup token = some row ∧ row.userId = u) :
    Held u token (s.settle rid x w (.done r)) where
  user := huser
  row := hrow
  unpresented rid' _ hx := h.alone rid' _ (of_lookup_done hx).1 (of_lookup_done hx).2

/-- The call that answers the request. -/
theorem Exchange.answered {pick : ℕ} {x : Job ⊕ OAuth.Job} {response : Response}
    (hencode : ∀ claims, st.encode claims ≠ none) (h : Exchange u token draw rid s)
    (hs : (accountHandlers st).step s (.advance rid pick) = some t)
    (hanswer : t.answers = (x, .inl response) :: s.answers) :
    Exchanged u token draw t response := by
  have huser := user_step hs h.user
  cases h.taking with
  | before hjob hrow =>
    obtain ⟨w, next, hcall, rfl⟩ := own_step hs hjob
    cases refresh_case hrow hcall with
    | expired =>
      cases hanswer
      exact .refused (h.held huser hrow)
    | taken => exact absurd hanswer (List.cons_ne_self _ _).symm
  | after hjob =>
    obtain ⟨w, next, hcall, rfl⟩ := own_step hs hjob
    cases issue_case hencode h.user h.free hcall with
    | issued hpair hu hrow =>
      cases hanswer
      refine .issued hpair hu ⟨huser, ?_, fun rid' x hx => ?_⟩
      · rw [hpair]
        exact hrow
      · rw [hpair]
        exact h.unknown rid' x (of_lookup_done hx).2

/-- The token is still there when the call that would take it fails. -/
theorem Exchange.failed {pick : ℕ} {x : Job ⊕ OAuth.Job} {response : Response}
    (h : Exchange u token draw rid s)
    (hs : (accountHandlers st).step s (.fail rid pick) = some t)
    (hjob : s.jobs.lookup rid = some (.inl (.refresh token draw)))
    (hanswer : t.answers = (x, .inl response) :: s.answers) :
    Exchanged u token draw t response := by
  have huser := user_step hs h.user
  cases step_cases hs with
  | fail hj hn =>
    rw [hjob] at hj
    cases hj
    cases hn
    cases hanswer
    have hrow : ∃ row, (tokensOf s.world).lookup token = some row ∧ row.userId = u := by
      cases h.taking with
      | before _ hrow => exact hrow
      | after hafter =>
        rw [hjob] at hafter
        cases hafter
    exact .refused (h.held huser hrow)

/-- The last step of an exchange: its last call, or the failure of its first one. -/
inductive Ends (token : String) (draw : Uuid × Uuid) (rid : ℕ) (s : AccountState) :
    AccountStep → Prop
  | answered {pick : ℕ} : Ends token draw rid s (.advance rid pick)
  | failed {pick : ℕ} (hjob : s.jobs.lookup rid = some (.inl (.refresh token draw))) :
      Ends token draw rid s (.fail rid pick)

/-- An exchange from its request to its answer, with the steps of others before, in between and
    after. -/
inductive Exchanges (st : AppState) (own : List String) (token : String) (draw : Uuid × Uuid)
    (response : Response) (s t : AccountState) : Prop
  | intro {s₁ s₂ s₃ s₄ : AccountState} {rid : ℕ} {x : Job ⊕ OAuth.Job} {a : AccountStep}
      {as bs cs : List AccountStep}
      (hbefore : Run (accountHandlers st).step (fun _ => Others own) s as s₁)
      (hnew : NewDraw draw s₁)
      (harrive : (accountHandlers st).step s₁ (.arrive rid (.inl (.refresh token draw))) = some s₂)
      (hduring : Run (accountHandlers st).step
        (fun s a => Others (refreshTokenOf draw :: own) a ∧
          ∀ t, (accountHandlers st).step s a = some t → (t.jobs.lookup rid).isSome = true)
        s₂ bs s₃)
      (hlast : (accountHandlers st).step s₃ a = some s₄)
      (hends : Ends token draw rid s₃ a)
      (hanswer : s₄.answers = (x, .inl response) :: s₃.answers)
      (hafter : Run (accountHandlers st).step (fun _ => Others (refreshTokenOf draw :: own))
        s₄ cs t)

theorem Exchanged.run {own : List String} {as : List AccountStep} {response : Response}
    (h : Exchanged u token draw s response) (htoken : token ∈ own)
    (hdraw : refreshTokenOf draw ∈ own)
    (hrun : Run (accountHandlers st).step (fun _ => Others own) s as t) :
    Exchanged u token draw t response := by
  cases h with
  | issued hpair huser held => exact .issued hpair huser (held.run hrun (hpair ▸ hdraw))
  | refused held => exact .refused (held.run hrun htoken)

/-- The holder has the old token or a new one, and no one else presents it. -/
theorem Exchanges.exchanged {own : List String} {response : Response}
    (hencode : ∀ claims, st.encode claims ≠ none) (h : Held u token s) (htoken : token ∈ own)
    (hrun : Exchanges st own token draw response s t) : Exchanged u token draw t response := by
  cases hrun with
  | @intro s₁ s₂ s₃ s₄ rid x a _ _ _ hbefore hnew harrive hduring hlast hends hanswer hafter =>
    have hmem : token ∈ refreshTokenOf draw :: own := List.mem_cons_of_mem _ htoken
    have hstart : Exchange u token draw rid s₂ := (h.run hbefore htoken).exchange hnew harrive
    have hexchange : Exchange u token draw rid s₃ :=
      hduring.invariant (Exchange u token draw rid) hstart fun _ _ _ hinv ha hs =>
        hinv.step hs ha.1 hmem List.mem_cons_self (ha.2 _ hs)
    have hend : Exchanged u token draw s₄ response := by
      cases hends with
      | answered => exact hexchange.answered hencode hlast hanswer
      | failed hjob => exact hexchange.failed hlast hjob hanswer
    exact hend.run hmem List.mem_cons_self hafter

end FreeBox.Server.Auth
