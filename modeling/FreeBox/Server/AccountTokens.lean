import FreeBox.Server.AccountServer
import FreeBox.Server.Rotation
import FreeBox.Server.StateBinding

/-!
# The refresh tokens of the account server

`register`, `login` and `refresh` of `auth.rs` and `callback` of `oauth.rs` issue refresh
tokens, and no other handler writes to `refresh_tokens`.

Results:
* `drawsKeys_account`: a token is stored by the request that has drawn it.
* `valid_step`: a token that no request in flight has drawn does not become valid.
* `answered_step`: the token of a token pair is the one that its request has drawn.
* `Secret.step`: tokens that are new when they are drawn stay secret until they are sent.
-/

namespace FreeBox.Server.OAuth

open FreeBox.Lib Handlers
open Auth (refreshTokenOf)

/-- The refresh token that the request has drawn and not stored yet. -/
def Job.draw? : Job → Option String
  | .callback r | .exchange _ _ r => some (refreshTokenOf r.draws.token)
  | .linkSelect _ _ _ draws | .linkInsert _ _ _ draws | .linkUsername _ draws
  | .login _ _ draws | .issueTokens _ _ draws => some (refreshTokenOf draws.token)
  | .initiate .. | .linkCount .. | .linkStore .. => none
  | .unlinkPassword .. | .unlinkCount .. | .unlinkDelete .. => none

variable {st : AppState} {w w' : World} {job : Job} {next : Next Job Response}

theorem LoginCase.tokens {maxDays : UInt32} {now : Timestamp} {provider : String}
    {profile : OAuthUserProfile} {draws : Draws} {db db' : Db}
    {outcome : Except AppError (Uuid × String)}
    (h : LoginCase maxDays now provider profile draws db db' outcome) :
    db'.refreshTokens = db.refreshTokens := by
  cases h with
  | refused => rfl
  | identity hlink hre =>
    obtain ⟨-, rfl⟩ | ⟨t, -, -, rfl⟩ := reactivateMatched_ok hre <;> rfl
  | resolved hlink hres hins =>
    exact (othersKept_insertAccount hins).tokens.trans hres.othersKept.tokens

/-- What one call does to the refresh tokens. -/
theorem advance_tokens (h : advance st w job = some (w', next)) :
    w'.db.refreshTokens = w.db.refreshTokens ∨ ∃ token row, job.draw? = some token ∧
      w.db.refreshTokens.lookup token = none ∧ next.job? = none ∧
      w'.db.refreshTokens = w.db.refreshTokens.insert token row := by
  cases advance_cases h with
  | initiated hstore | linkStored hstore =>
    obtain ⟨-, rfl⟩ := Db.storeState_eq_some hstore
    exact .inl rfl
  | stateWasted htake | stateTaken htake =>
    rw [(Db.takeState_eq_some htake).2.2]
    exact .inl rfl
  | linked hins => exact .inl (othersKept_insertAccount hins).tokens
  | loginFailed | loggedIn => exact .inl (findOrCreateUser_cases ..).tokens
  | @issued userId username _ draws =>
    right
    simp only [advance, issueTokenPair] at h
    split at h
    · simp at h
    · next hissue =>
      split at hissue
      · cases hissue
      · split at hissue
        · cases hissue
        · next db hstore =>
          cases hissue
          cases h
          obtain ⟨hfree, rfl⟩ := Db.storeToken_eq_some hstore
          exact ⟨_, _, rfl, hfree, rfl, rfl⟩
  | _ => exact .inl rfl

theorem drawsKeys_oauth (st : AppState) :
    (oauthHandlers st).DrawsKeys (fun w => w.db.refreshTokens) Job.draw? where
  advance w pick job w' next h token row hrow := by
    rcases advance_tokens h with hsame | ⟨token', row', hdraw, hfree, hdone, hinsert⟩
    · rw [hsame] at hrow
      exact .inl hrow
    · rw [hinsert, Table.lookup_insert_eq] at hrow
      split_ifs at hrow with htoken
      · rw [htoken, hdone]
        exact .inr ⟨hfree, hdraw, rfl⟩
      · exact .inl hrow
  goesOn w pick job w' job' h := by
    generalize hnext : Next.goto job' = next at h
    cases advance_cases h <;> cases hnext <;> exact .inr rfl
  fail pick job job' h := by cases h
  environ w e w' h token row hrow := by
    cases e
    cases h
    exact hrow

end FreeBox.Server.OAuth

namespace FreeBox.Server.Auth

open FreeBox.Lib Handlers
open KeyServer (World)

/-- The refresh token that a request of the account server has drawn and not stored yet. -/
def draw? : Job ⊕ OAuth.Job → Option String := Sum.elim Job.draw? OAuth.Job.draw?

theorem drawsKeys_account (st : AppState) : (accountHandlers st).DrawsKeys tokensOf draw? :=
  (drawsKeys_auth st).par
    ((OAuth.drawsKeys_oauth st.toAppState).zoom (fun _ => rfl) (fun _ _ => rfl))

/-- The state of the account server. -/
abbrev AccountState := Sys World (Job ⊕ OAuth.Job) (Response ⊕ OAuth.Response)

/-- `refresh` takes the token. -/
def Valid (s : AccountState) (token : String) : Prop :=
  (s.world.db.takeToken token s.world.now).isSome = true

variable {st : AppState} {s t : AccountState} {a : AccountStep} {token : String}

theorem valid_iff : Valid s token ↔
    ∃ row, (tokensOf s.world).lookup token = some row ∧ s.world.now < row.expiresAt := by
  unfold Valid
  rw [Option.isSome_iff_exists]
  constructor
  · rintro ⟨⟨row, db⟩, htake⟩
    obtain ⟨hrow, hlive, -⟩ := Db.takeToken_eq_some.mp htake
    exact ⟨row, hrow, hlive⟩
  · rintro ⟨row, hrow, hlive⟩
    exact ⟨_, Db.takeToken_eq_some.mpr ⟨hrow, hlive, rfl⟩⟩

/-- The clock does not go back. -/
theorem account_now (hs : (accountHandlers st).step s a = some t) : s.world.now ≤ t.world.now := by
  cases step_cases hs with
  | arrive | fail | cancel => exact le_rfl
  | advance hj hw =>
    refine (show _ = _ from ?_).le
    cases par_advance_cases hw with
    | @left j _ next hcall =>
      have hcall : advance st s.world j = some (_, next) := hcall
      exact (advance_now hcall).symm
    | @right j _ next hcall =>
      obtain ⟨v, hadv, rfl⟩ := zoom_advance_cases hcall
      have hadv : OAuth.advance st.toAppState _ j = some (v, next) := hadv
      exact (OAuth.advance_now hadv).symm
  | @env e w hw =>
    rcases e with ⟨⟨d⟩⟩ | ⟨⟨d⟩⟩
    · cases hw
      exact Int.le_add_of_nonneg_right (Int.natCast_nonneg d)
    · cases hw
      exact Int.le_add_of_nonneg_right (Int.natCast_nonneg d)

/-! ## Tokens that nobody knows yet -/

/-- The refresh token of a token pair of `auth.rs`. -/
def answerToken? : Response ⊕ OAuth.Response → Option String
  | .inl (.created response) | .inl (.tokens response) => some response.refreshToken
  | .inl .noContent | .inl (.error _) | .inr _ => none

/-- The tokens that the requests in flight have drawn. -/
def drawn (s : AccountState) : List String := s.jobs.entries.filterMap fun e => draw? e.2

/-- The tokens that were sent. -/
def answered (s : AccountState) : List String := s.answers.filterMap fun x => answerToken? x.2

theorem mem_drawn : token ∈ drawn s ↔
    ∃ rid j, s.jobs.lookup rid = some j ∧ draw? j = some token := by
  unfold drawn
  rw [List.mem_filterMap]
  constructor
  · rintro ⟨⟨rid, j⟩, hmem, hdraw⟩
    exact ⟨rid, j, Table.lookup_eq_some_iff.mpr hmem, hdraw⟩
  · rintro ⟨rid, j, hj, hdraw⟩
    exact ⟨⟨rid, j⟩, Table.lookup_eq_some_iff.mp hj, hdraw⟩

/-- A token that no request in flight has drawn does not become valid. -/
theorem valid_step (hs : (accountHandlers st).step s a = some t) (hdrawn : token ∉ drawn s)
    (h : Valid t token) : Valid s token := by
  obtain ⟨row, hrow, hlive⟩ := valid_iff.mp h
  have habsent : ∀ rid j, s.jobs.lookup rid = some j → draw? j ≠ some token :=
    fun rid j hj hdraw => hdrawn (mem_drawn.mpr ⟨rid, j, hj, hdraw⟩)
  exact valid_iff.mpr ⟨row, (drawsKeys_account st).absent_step hs habsent hrow,
    lt_of_le_of_lt (account_now hs) hlive⟩

/-- A request in flight has drawn its token before, or draws it now. -/
theorem drawn_step (hs : (accountHandlers st).step s a = some t) (h : token ∈ drawn t) :
    token ∈ drawn s ∨ ∃ rid j, a = .arrive rid j ∧ draw? j = some token := by
  obtain ⟨rid, j, hj, hdraw⟩ := mem_drawn.mp h
  rcases (drawsKeys_account st).draw_step hs hj hdraw with ⟨j₀, hj₀, hdraw₀⟩ | ha
  · exact .inl (mem_drawn.mpr ⟨rid, j₀, hj₀, hdraw₀⟩)
  · exact .inr ⟨rid, j, ha, hdraw⟩

/-- The token of an answer is the one that its request has drawn. -/
theorem answerToken_advance {w w' : World} {pick : ℕ} {j : Job ⊕ OAuth.Job}
    {r : Response ⊕ OAuth.Response}
    (hw : (accountHandlers st).advance w pick j = some (w', .done (some r)))
    (htoken : answerToken? r = some token) : draw? j = some token := by
  rcases par_advance_done hw with ⟨j, r, rfl, rfl, hcall⟩ | ⟨j, r, rfl, rfl, -⟩
  · have hcall : advance st w j = some (w', .done (some r)) := hcall
    generalize hnext : Next.done (some r) = next at hcall
    cases advance_cases hcall with
    | @issued caller =>
      cases hnext
      cases caller <;> exact htoken
    | rejected => cases hnext; cases htoken
    | loggedOut => cases hnext; cases htoken
    | _ => cases hnext
  · cases htoken

/-- A call that fails answers no token. -/
theorem answerToken_fail {pick : ℕ} {j : Job ⊕ OAuth.Job} {r : Response ⊕ OAuth.Response}
    (hn : (accountHandlers st).onFail pick j = some (.done (some r))) : answerToken? r = none := by
  rcases j with j | j
  · obtain ⟨e, he⟩ := onFail_done st j
    have hn : some ((onFail st j).map Sum.inl Sum.inl) = some (.done (some r)) := hn
    rw [he] at hn
    cases hn
    rfl
  · cases hn
    rfl

theorem mem_answered_cons {j : Job ⊕ OAuth.Job} {r : Response ⊕ OAuth.Response}
    (h : t.answers = (j, r) :: s.answers) :
    token ∈ answered t ↔ answerToken? r = some token ∨ token ∈ answered s := by
  unfold answered
  rw [h, List.mem_filterMap, List.mem_filterMap]
  simp

/-- A token that is sent was sent before, or is that of a request that ends now. -/
theorem answered_step (hs : (accountHandlers st).step s a = some t) (h : token ∈ answered t) :
    token ∈ answered s ∨ ∃ rid j, s.jobs.lookup rid = some j ∧ draw? j = some token ∧
      t.jobs.lookup rid = none := by
  cases answer_cases hs with
  | silent heq =>
    left
    rw [answered, heq] at h
    exact h
  | @advanced rid pick j r _ hj hw hdone heq =>
    rcases (mem_answered_cons heq).mp h with htoken | hold
    · exact .inr ⟨rid, j, hj, answerToken_advance hw htoken, hdone⟩
    · exact .inl hold
  | @failed rid pick j r _ hj hn heq =>
    rcases (mem_answered_cons heq).mp h with htoken | hold
    · rw [answerToken_fail hn] at htoken
      cases htoken
    · exact .inl hold

/-- The drawn tokens are known to no one but the requests that have drawn them; `seen` are
    the tokens that a client knows. -/
structure Secret (seen : List String) (s : AccountState) : Prop where
  unseen : ∀ token ∈ drawn s, token ∉ seen
  single : ∀ rid rid' j j' token, s.jobs.lookup rid = some j → s.jobs.lookup rid' = some j' →
    draw? j = some token → draw? j' = some token → rid = rid'
  unsent : ∀ token ∈ answered s, token ∉ drawn s

/-- Nobody has the token. -/
def NewToken (seen : List String) (s : AccountState) (token : String) : Prop :=
  token ∉ seen ∧ token ∉ drawn s ∧ token ∉ answered s

instance {seen : List String} : Decidable (NewToken seen s token) :=
  inferInstanceAs (Decidable (_ ∧ _ ∧ _))

variable {seen : List String}

theorem secret_idle (seen : List String) (w : World) : Secret seen (Sys.idle w) where
  unseen token h := by simp [drawn, Sys.idle] at h
  single rid rid' j j' token hj := by simp [Sys.idle] at hj
  unsent token h := by simp [answered, Sys.idle] at h

theorem Secret.step (h : Secret seen s) (hs : (accountHandlers st).step s a = some t)
    (hnew : ∀ rid j token, a = .arrive rid j → draw? j = some token → NewToken seen s token) :
    Secret seen t where
  unseen token htoken := by
    rcases drawn_step hs htoken with hold | ⟨rid, j, ha, hdraw⟩
    · exact h.unseen token hold
    · exact (hnew rid j token ha hdraw).1
  single rid rid' j j' token hj hj' hdraw hdraw' := by
    rcases (drawsKeys_account st).draw_step hs hj hdraw with ⟨j₀, hj₀, hdraw₀⟩ | ha
    · rcases (drawsKeys_account st).draw_step hs hj' hdraw' with ⟨j₁, hj₁, hdraw₁⟩ | ha'
      · exact h.single rid rid' j₀ j₁ token hj₀ hj₁ hdraw₀ hdraw₁
      · exact absurd (mem_drawn.mpr ⟨rid, j₀, hj₀, hdraw₀⟩) (hnew rid' j' token ha' hdraw').2.1
    · rcases (drawsKeys_account st).draw_step hs hj' hdraw' with ⟨j₁, hj₁, hdraw₁⟩ | ha'
      · exact absurd (mem_drawn.mpr ⟨rid', j₁, hj₁, hdraw₁⟩) (hnew rid j token ha hdraw).2.1
      · rw [ha] at ha'
        cases ha'
        rfl
  unsent token htoken hdrawn := by
    obtain ⟨rid, j, hj, hdraw⟩ := mem_drawn.mp hdrawn
    rcases answered_step hs htoken with hold | ⟨rid₀, j₀, hj₀, hdraw₀, hdone⟩
    · rcases drawn_step hs hdrawn with hdrawn | ⟨rid', j', ha, hdraw'⟩
      · exact h.unsent token hold hdrawn
      · exact (hnew rid' j' token ha hdraw').2.2 hold
    · -- the request that sends the token has ended, and no other one has drawn it
      rcases (drawsKeys_account st).draw_step hs hj hdraw with ⟨j₁, hj₁, hdraw₁⟩ | ha
      · obtain rfl := h.single rid₀ rid j₀ j₁ token hj₀ hj₁ hdraw₀ hdraw₁
        rw [hdone] at hj
        cases hj
      · exact (hnew rid j token ha hdraw).2.1 (mem_drawn.mpr ⟨rid₀, j₀, hj₀, hdraw₀⟩)

/-- A client comes to know a token that is not secret any more. -/
theorem Secret.see (h : Secret seen s) (htoken : token ∉ drawn s) : Secret (token :: seen) s where
  unseen token' hdrawn hseen := by
    rcases List.mem_cons.mp hseen with rfl | hseen
    · exact htoken hdrawn
    · exact h.unseen token' hdrawn hseen
  single := h.single
  unsent := h.unsent

end FreeBox.Server.Auth
