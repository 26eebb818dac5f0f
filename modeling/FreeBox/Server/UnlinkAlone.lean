import FreeBox.Lib.Sequential
import FreeBox.Server.Lockout

/-!
# One request to unlink a provider

`unlink_provider` counts all identities of the user, and its `DELETE` removes every
identity of one provider. Here it runs alone, so nothing happens between its statements.

Results:
* `answers_unlink_iff`: when the request succeeds, and what it leaves.
* `unlink_alone_iff`: in which states it leaves the user an authentication method.
* `locked_out_alone`: a user who is locked out by one request.
-/

namespace FreeBox.Server.OAuth

open FreeBox.Lib Handlers

variable {st : AppState} {w w' : World} {u : Uuid} {path provider : String} {db : Db}
  {hasPassword : Bool}

/-- The `DELETE` removes the identities of the provider, and they were all counted. -/
theorem accountCount_unlink (db : Db) (u : Uuid) (provider : String) :
    (db.unlink u provider).accountCount u + db.linkedCount u provider = db.accountCount u := by
  have hsplit := List.countP_eq_countP_filter_add db.accounts.entries
    (fun e => decide (e.2.userId = u)) (fun e => Db.isLink u provider e.1 e.2)
  have hlinked : (db.accounts.entries.filter fun e => Db.isLink u provider e.1 e.2).countP
      (fun e => decide (e.2.userId = u)) = db.linkedCount u provider := by
    rw [List.countP_filter]
    refine List.countP_congr fun e _ => ?_
    simp [Db.isLink]
  have hrest : (db.accounts.entries.filter fun e => !Db.isLink u provider e.1 e.2).countP
      (fun e => decide (e.2.userId = u)) = (db.unlink u provider).accountCount u := rfl
  have hall : db.accountCount u = db.accounts.entries.countP fun e => decide (e.2.userId = u) := rfl
  rw [hall, hsplit, hlinked, hrest, Nat.add_comm]

/-! ## The three statements -/

theorem answers_unlinkDelete_iff :
    (oauthHandlers st).Answers (fun _ => false) w (.unlinkDelete u provider) w' .noContent ↔
      0 < w.db.linkedCount u provider ∧ w' = { w with db := w.db.unlink u provider } := by
  have hcall : (oauthHandlers st).call (fun _ => false) w (.unlinkDelete u provider) =
      some ({ w with db := w.db.unlink u provider }, .done (some
        (if w.db.linkedCount u provider = 0 then
          .error (.notFound (provider ++ " is not linked to your account")) else .noContent))) := rfl
  constructor
  · intro h
    obtain ⟨hw, hanswer⟩ := h.inv_done hcall
    split_ifs at hanswer with hzero
    exact ⟨Nat.pos_of_ne_zero hzero, hw⟩
  · rintro ⟨hpos, rfl⟩
    rw [if_neg hpos.ne'] at hcall
    exact .done hcall

theorem answers_unlinkCount_iff :
    (oauthHandlers st).Answers (fun _ => false) w (.unlinkCount u provider hasPassword) w'
      .noContent ↔ (hasPassword = true ∨ 1 < w.db.accountCount u) ∧
        0 < w.db.linkedCount u provider ∧ w' = { w with db := w.db.unlink u provider } := by
  by_cases hrefused : hasPassword = false ∧ w.db.accountCount u ≤ 1
  · obtain ⟨rfl, hcount⟩ := hrefused
    refine iff_of_false (fun h => ?_) fun h => ?_
    · have hcall : advance st w (.unlinkCount u provider false) = reject w (.badRequest
          ("cannot unlink your only authentication method — set a password " ++
            "first, or link another provider before unlinking this one")) := by
        simp only [advance, Bool.not_false, true_and, if_pos hcount]
      obtain ⟨-, hanswer⟩ := h.inv_done hcall
      cases hanswer
    · rcases h.1 with h | h
      · cases h
      · omega
  · have hcount : hasPassword = true ∨ 1 < w.db.accountCount u := by
      rw [not_and_or, Bool.not_eq_false, not_le] at hrefused
      exact hrefused
    have hcall : advance st w (.unlinkCount u provider hasPassword) =
        some (w, .goto (.unlinkDelete u provider)) := by
      have hnot : ¬((!hasPassword) = true ∧ w.db.accountCount u ≤ 1) := by
        rw [Bool.not_eq_true']
        exact hrefused
      simp only [advance, if_neg hnot]
    rw [and_iff_right hcount, ← answers_unlinkDelete_iff]
    exact ⟨fun h => h.inv_goto hcall, fun h => .goto hcall h⟩

/-- When `unlink_provider` succeeds, and what it leaves. -/
theorem answers_unlink_iff :
    (oauthHandlers st).Serves w (.unlinkPassword u path) w' .noContent ↔
      ∃ hasPassword, w.db.hasPassword u = some hasPassword ∧
        (hasPassword = true ∨ 1 < w.db.accountCount u) ∧
        0 < w.db.linkedCount u (st.toLowercase path) ∧
        w' = { w with db := w.db.unlink u (st.toLowercase path) } := by
  rw [serves_iff_answers]
  cases hread : w.db.hasPassword u with
  | none =>
    have hcall : advance st w (.unlinkPassword u path) = reject w .internal := by
      simp only [advance, hread]
    refine iff_of_false (fun h => ?_) (by simp)
    obtain ⟨-, hanswer⟩ := h.inv_done hcall
    cases hanswer
  | some hasPassword =>
    have hcall : advance st w (.unlinkPassword u path) =
        some (w, .goto (.unlinkCount u (st.toLowercase path) hasPassword)) := by
      simp only [advance, hread]
    constructor
    · intro h
      exact ⟨hasPassword, rfl, answers_unlinkCount_iff.mp (h.inv_goto hcall)⟩
    · rintro ⟨p, hp, h⟩
      cases hp
      exact .goto hcall (answers_unlinkCount_iff.mpr h)

/-- A request that runs alone and succeeds leaves the user an authentication method exactly
    when the user has a password or at most one identity, or has an identity of another
    provider. -/
theorem unlink_alone_iff (st : AppState) (w : World) (u : Uuid) (path : String) :
    (∀ w', (oauthHandlers st).Serves w (.unlinkPassword u path) w' .noContent →
      HasMethod w'.db u) ↔
    (w.db.hasPassword u ≠ some false ∨ w.db.accountCount u ≤ 1 ∨
      w.db.linkedCount u (st.toLowercase path) ≠ w.db.accountCount u) := by
  have hcount := accountCount_unlink w.db u (st.toLowercase path)
  constructor
  · intro h
    by_contra hnot
    simp only [not_or, ne_eq, not_not, not_le] at hnot
    obtain ⟨hpassword, hmany, hall⟩ := hnot
    have hserves : (oauthHandlers st).Serves w (.unlinkPassword u path)
        { w with db := w.db.unlink u (st.toLowercase path) } .noContent :=
      answers_unlink_iff.mpr ⟨false, hpassword, .inr hmany, by omega, rfl⟩
    rcases h _ hserves with hkept | hleft
    · have hsame : (w.db.unlink u (st.toLowercase path)).hasPassword u = some false := hpassword
      rw [hsame] at hkept
      cases hkept
    · dsimp only at hleft
      omega
  · intro h w' hserves
    obtain ⟨hasPassword, hpassword, hpassed, hpos, rfl⟩ := answers_unlink_iff.mp hserves
    cases hasPassword with
    | true => exact .inl hpassword
    | false =>
      refine .inr ?_
      show 0 < (w.db.unlink u (st.toLowercase path)).accountCount u
      rcases h with h | h | h
      · exact absurd hpassword h
      · rcases hpassed with hpassed | hpassed
        · cases hpassed
        · omega
      · omega

/-! ### Two identities of one provider -/

/-- A login over GitHub with an identity of the address. -/
def runLogin (rid : ℕ) (csrfState providerUserId : String) (token : Uuid) : List Step :=
  serve rid 1 (.initiate "github" csrfState "verifier") ++
    serve (rid + 1) 4 (.callback
      { provider := "github"
        state := csrfState
        answer := .ok
          { providerUserId, email := some "alice@example.com", username := none, avatarUrl := none }
        draws := { userId := runUser, usernameTag := ⟨3⟩, emailTag := ⟨4⟩, token := (token, token) } })

/-- A user who has logged in with two identities of GitHub, matched by the address, is
    locked out by one request. -/
theorem locked_out_alone : ∃ w w',
    (oauthHandlers runServer).Reachable { now := 0, db := .empty } w ∧ HasMethod w.db runUser ∧
    (oauthHandlers runServer).Serves w (.unlinkPassword runUser "github") w' .noContent ∧
    ¬HasMethod w'.db runUser := by
  obtain ⟨t, ht, hp⟩ := exists_run_of_exec (step runServer) anyStep
    (Sys.idle { now := 0, db := .empty })
    (runLogin 0 "s0" "583231" ⟨5⟩ ++ runLogin 2 "s1" "1024025" ⟨6⟩)
    (fun t => t.world.db.hasPassword runUser = some false ∧
      t.world.db.accountCount runUser = 2 ∧
      t.world.db.linkedCount runUser (runServer.toLowercase "github") = 2) (by decide +kernel)
  obtain ⟨hpassword, hcount, hlinked⟩ := of_decide_eq_true hp
  have hafter := accountCount_unlink t.world.db runUser (runServer.toLowercase "github")
  refine ⟨t.world, _, ⟨_, t, ht, rfl⟩, .inr (by omega),
    answers_unlink_iff.mpr ⟨false, hpassword, .inr (by omega), by omega, rfl⟩, ?_⟩
  rintro (hkept | hleft)
  · have hsame : (t.world.db.unlink runUser (runServer.toLowercase "github")).hasPassword runUser =
        some false := hpassword
    rw [hsame] at hkept
    cases hkept
  · dsimp only at hleft
    omega

end FreeBox.Server.OAuth
