import FreeBox.Lib.Parallel
import FreeBox.Server.AuthFailures
import FreeBox.Server.PrekeySupply
import FreeBox.Server.UnlinkAlone

/-!
# Accounts and their prekeys

Users come from `register`, which stores their bundle, and from OAuth logins, which do not.
`accountHandlers` runs the handlers of `auth.rs` and `oauth.rs` over one database.

Results:
* `hasPassword_advance`: the OAuth handlers give no one a password and take none away.
* `bundle_iff_password`: a user has a bundle exactly when the user has a password.
* `replenish_kept_iff`: for which users `replenish_one_time` stores the accepted batch.
-/

namespace FreeBox.Server.Auth

open FreeBox.Lib FreeBox.Crypto Handlers
open KeyServer (World replenishOneTime ValidBatch supplyOf)
open OAuth (Claims)

/-- The handlers of `auth.rs` and `oauth.rs` over one database. -/
def accountHandlers (st : AppState) :
    Handlers World (Job ⊕ OAuth.Job) (Response ⊕ OAuth.Response) (Event ⊕ OAuth.Event) :=
  (authHandlers st).par ((OAuth.oauthHandlers st.toAppState).zoom World.toWorld
    fun w oauth => { w with toWorld := oauth })

variable {st : AppState} {w w' : World} {job : Job} {next : Next Job Response} {u : Uuid}

/-! ## Passwords -/

theorem hasPassword_clearDeletedAt (db : Db) (v u : Uuid) :
    (db.clearDeletedAt v).hasPassword u = db.hasPassword u := by
  rw [Db.hasPassword, Db.hasPassword,
    show (db.clearDeletedAt v).users = db.users.clearDeletedAt v from rfl,
    Users.lookup_clearDeletedAt]
  split_ifs with hu
  · rw [Option.map_map, hu]
    rfl
  · rfl

theorem hasPassword_insertUser {db db' : Db} {v : Uuid} {row : UserRow}
    (h : db.insertUser v row = some db') (u : Uuid) :
    db'.hasPassword u = if u = v then some row.passwordHash.isSome else db.hasPassword u := by
  rw [Db.hasPassword, (Db.insertUser_eq_some h).2.1, Table.lookup_insert_eq]
  split_ifs
  · rfl
  · rfl

theorem hasPassword_reactivateMatched {maxDays : UInt32} {now : Timestamp}
    {provider id reason : String} {v : Uuid} {user : UserRow} {db db' : Db}
    (h : OAuth.reactivateMatched maxDays now provider id reason v user db = .ok db') (u : Uuid) :
    db'.hasPassword u = db.hasPassword u := by
  obtain ⟨-, rfl⟩ | ⟨t, -, -, rfl⟩ := OAuth.reactivateMatched_ok h
  · rfl
  · exact hasPassword_clearDeletedAt db v u

/-- A login creates users without a password only. -/
theorem hasPassword_login {maxDays : UInt32} {now : Timestamp} {provider : String}
    {profile : OAuth.OAuthUserProfile} {draws : OAuth.Draws} {db db' : Db}
    {outcome : Except AppError (Uuid × String)}
    (h : OAuth.LoginCase maxDays now provider profile draws db db' outcome) (u : Uuid) :
    db'.hasPassword u = some true ↔ db.hasPassword u = some true := by
  cases h with
  | refused => rfl
  | identity _ hre => rw [← hasPassword_reactivateMatched hre u]; rfl
  | @resolved v name db₁ _ _ hres hins =>
    have hsame : db'.hasPassword u = db₁.hasPassword u := by
      rw [Db.hasPassword, Db.hasPassword, (Db.insertAccount_eq_some hins).2.2.1]
    rw [hsame]
    cases hres with
    | email _ hre => rw [hasPassword_reactivateMatched hre u]
    | upsert => rw [hasPassword_clearDeletedAt]
    | created _ _ hnew =>
      rw [hasPassword_insertUser hnew]
      split_ifs with hu
      · have hnone : db.hasPassword u = none := by
          rw [hu, Db.hasPassword, (Db.insertUser_eq_some hnew).1]
          rfl
        rw [hnone]
        simp [OAuth.newUser]
      · rfl

/-- The OAuth handlers give no one a password and take none away. -/
theorem hasPassword_advance {ost : OAuth.AppState} {ow ow' : OAuth.World} {job : OAuth.Job}
    {next : Next OAuth.Job OAuth.Response} (h : OAuth.advance ost ow job = some (ow', next))
    (u : Uuid) :
    ow'.db.hasPassword u = some true ↔ ow.db.hasPassword u = some true := by
  have heffect := (OAuth.advance_cases h).effect
  generalize ow'.db = db at heffect ⊢
  cases heffect with
  | quiet husers => rw [Db.hasPassword, Db.hasPassword, husers]
  | link hins => rw [Db.hasPassword, Db.hasPassword, (Db.insertAccount_eq_some hins).2.2.1]
  | login hcase => exact hasPassword_login hcase u
  | unlink => rfl

/-! ## Bundles -/

/-- Exactly the users with a password have a bundle. -/
def BundlesMatch (w : World) : Prop :=
  ∀ u, (w.bundles.lookup u).isSome = true ↔ w.db.hasPassword u = some true

/-- What the handler registers has a password hash. -/
def Job.Hashed (st : AppState) (job : Job) : Prop :=
  ∀ now tx token, job.registers st now = some (tx, token) → tx.row.passwordHash.isSome = true

theorem hash_of_prepareRegister {now : Timestamp} {r : KeyServer.RegisterRequest}
    {draws : KeyServer.RegisterDraws} {tx : Registration}
    (h : prepareRegister st now r draws = .ok tx) : tx.row.passwordHash.isSome = true := by
  simp only [prepareRegister, bind, Except.bind, pure, Except.pure] at h
  split at h
  · cases h
  · split at h
    · cases h
    · cases h
      rfl

theorem hashed_register (r : KeyServer.RegisterRequest) (draws : KeyServer.RegisterDraws) :
    Job.Hashed st (.register r draws) := by
  intro now tx token h
  obtain ⟨tx', htx, heq⟩ := Option.map_eq_some_iff.mp h
  cases heq
  cases hprepare : prepareRegister st now r draws with
  | error e => rw [hprepare] at htx; cases htx
  | ok tx₀ =>
    rw [hprepare] at htx
    cases htx
    exact hash_of_prepareRegister hprepare

theorem hashed_of_row {tx : Registration} {token : Uuid × Uuid}
    (hjob : ∀ now, job.registers st now = some (tx, token))
    (h : tx.row.passwordHash.isSome = true) : job.Hashed st := by
  intro now tx' token' h'
  rw [hjob now] at h'
  cases h'
  exact h

theorem hashed_of_none (hjob : ∀ now, job.registers st now = none) : job.Hashed st := by
  intro now tx token h
  rw [hjob now] at h
  cases h

/-- A call leads to a point that has the hash of the point before it. -/
theorem CallCase.hashed {job' : Job} (h : CallCase st w job w' (.goto job'))
    (hjob : job.Hashed st) : job'.Hashed st := by
  cases h with
  | begun hprepare => exact hashed_of_row (fun _ => rfl) (hash_of_prepareRegister hprepare)
  | userInserted => exact hashed_of_row (fun _ => rfl) (hjob 0 _ _ rfl)
  | bundleInserted => exact hashed_of_row (fun _ => rfl) (hjob 0 _ _ rfl)
  | committed | loggedIn | taken => exact hashed_of_none fun _ => rfl

/-- The transaction of `register` adds a user with a password and a bundle. -/
theorem bundlesMatch_register {tx : Registration} (h : BundlesMatch w) (hrows : Registered w w' tx)
    (hhash : tx.row.passwordHash.isSome = true) : BundlesMatch w' := by
  intro u
  rw [hrows.bundles, Table.lookup_insert_eq, Db.hasPassword, hrows.users, Table.lookup_insert_eq]
  split_ifs with hu
  · rw [Option.map_some, hhash]
    exact iff_of_true rfl rfl
  · exact h u

theorem CallCase.bundlesMatch (h : CallCase st w job w' next) (hw : BundlesMatch w)
    (hjob : job.Hashed st) : BundlesMatch w' := by
  cases h with
  | committed hcommit =>
    exact bundlesMatch_register hw (registered_of_commit hcommit) (hjob 0 _ _ rfl)
  | taken htake =>
    obtain ⟨-, -, rfl⟩ := Db.takeToken_eq_some.mp htake
    exact hw
  | issued _ hstore =>
    obtain ⟨-, rfl⟩ := Db.storeToken_eq_some hstore
    exact hw
  | _ => exact hw

theorem auth_annotates (st : AppState) :
    (authHandlers st).Annotates BundlesMatch fun _ job => job.Hashed st where
  arrive w job _ hentry := by
    cases job with
    | register r draws => exact hashed_register r draws
    | login | refresh | logout => exact hashed_of_none fun _ => rfl
    | _ => cases hentry
  advance w pick job w' next hw hjob hadv := by
    have hcase : CallCase st w job w' next := advance_cases hadv
    refine ⟨hcase.bundlesMatch hw hjob, fun job' hnext => ?_⟩
    subst hnext
    exact hcase.hashed hjob
  fail w pick job job' _ _ hfail := by
    obtain ⟨e, hdone⟩ := onFail_done st job
    have hfail : some (onFail st job) = some (.goto job') := hfail
    rw [hdone] at hfail
    cases hfail
  env w e w' hw henv := by
    cases e
    cases henv
    exact hw

theorem oauth_annotates (st : OAuth.AppState) :
    ((OAuth.oauthHandlers st).zoom World.toWorld fun (w : World) oauth =>
      { w with toWorld := oauth }).Annotates BundlesMatch fun _ _ => True where
  arrive _ _ _ _ := trivial
  advance w pick job w' next hw _ hadv := by
    obtain ⟨oauth, hcall, rfl⟩ := zoom_advance_cases hadv
    exact ⟨fun u => (hw u).trans (hasPassword_advance hcall u).symm, fun _ _ => trivial⟩
  fail _ _ _ _ _ _ _ := trivial
  env w e w' hw henv := by
    cases e
    cases henv
    exact hw

theorem account_outline (st : AppState) :
    (accountHandlers st).ProofOutline anyStep BundlesMatch fun _ =>
      Sum.elim (Job.Hashed st) fun _ => True :=
  .par (auth_annotates st) (oauth_annotates st.toAppState)
    ⟨fun _ _ _ _ _ _ _ _ hk _ => hk, fun _ _ _ _ _ hk _ => hk⟩ spares_true
    ⟨fun _ _ _ _ _ _ _ _ hk _ => hk, fun _ _ _ _ _ hk _ => hk⟩ spares_true

/-- No one has registered yet. -/
def startWorld (now : Timestamp) : World := { now, db := .empty, bundles := ∅ }

/-- A user has a bundle exactly when the user has a password. -/
theorem bundle_iff_password {now : Timestamp}
    (h : (accountHandlers st).Reachable (startWorld now) w) : BundlesMatch w := by
  refine (account_outline st).reachable (fun u => ?_) h
  show (none : Option KeyServer.BundleRow).isSome = true ↔ (none : Option Bool) = some true
  simp

/-! ## Replenishing -/

/-- What is promised of an accepted batch. -/
structure Replenished (w w' : World) (u : Uuid) (keys : List OneTimePrekey) : Prop where
  appended : supplyOf w' u = supplyOf w u ++ keys
  rest : ∀ row, w.bundles.lookup u = some row → ∃ row', w'.bundles.lookup u = some row' ∧
    row'.bundle = { row.bundle with oneTimePrekeys := row'.bundle.oneTimePrekeys }
  others : ∀ v, v ≠ u → w'.bundles.lookup v = w.bundles.lookup v

/-- The `UPDATE` appends the batch if it finds a row. -/
theorem replenished_iff {keys : List OneTimePrekey} (now : Timestamp) (hkeys : keys ≠ []) :
    Replenished w { w with bundles := Table.modify u (.append keys now) w.bundles } u keys ↔
      (w.bundles.lookup u).isSome = true := by
  cases hrow : w.bundles.lookup u with
  | none =>
    refine iff_of_false (fun h => ?_) (by simp)
    have hsupply := h.appended
    simp only [supplyOf, Table.lookup_modify, if_true, hrow, Option.map_none, Option.getD_none,
      List.nil_append] at hsupply
    exact hkeys hsupply.symm
  | some row =>
    refine iff_of_true ⟨?_, fun row' hrow' => ?_, fun v hv => ?_⟩ rfl
    · simp only [supplyOf, Table.lookup_modify, if_true, hrow, Option.map_some, Option.getD_some]
      rfl
    · rw [hrow] at hrow'
      cases hrow'
      exact ⟨row.append keys now, by rw [Table.lookup_modify, if_pos rfl, hrow]; rfl, rfl⟩
    · rw [Table.lookup_modify, if_neg hv]

/-- In every database that registrations and OAuth logins lead to, the batch that
    `replenish_one_time` has accepted is stored exactly when the user has a password. -/
theorem replenish_kept_iff (st : AppState) (now : Timestamp) (w : World)
    (hw : (accountHandlers st).Reachable (startWorld now) w) (claims : Claims) (dbFails : Bool)
    (keys : List OneTimePrekey) (hkeys : KeyServer.validateOneTimePrekeyBatch keys = .ok ()) :
    ((replenishOneTime w dbFails claims keys).2 = .noContent →
      Replenished w (replenishOneTime w dbFails claims keys).1 claims.sub keys) ↔
    dbFails = true ∨ w.db.hasPassword claims.sub = some true := by
  have hvalid := KeyServer.validateOneTimePrekeyBatch_eq_ok.mp hkeys
  simp only [replenishOneTime, hkeys]
  cases dbFails with
  | true => simp
  | false =>
    simp only [Bool.false_eq_true, if_false, false_or, forall_const]
    rw [replenished_iff w.now hvalid.nonempty, bundle_iff_password hw]

/-! ### A user of each kind -/

/-- A server on which GitHub is configured. -/
def accountServer : AppState := { runServer with oauth := OAuth.runServer.oauth }

abbrev AccountStep := Action (Job ⊕ OAuth.Job) (Event ⊕ OAuth.Event)

/-- A user registers, and another one logs in over GitHub. -/
def runAccounts : List AccountStep :=
  .arrive 0 (.inl runRegistration) :: .replicate 5 (.advance 0 0) ++
    [.arrive 1 (.inr (.initiate "github" "state" "verifier")), .advance 1 0,
      .arrive 2 (.inr (.callback
        { provider := "github"
          state := "state"
          answer := .ok
            { providerUserId := "583231", email := some "carol@example.com", username := none,
              avatarUrl := none }
          draws := { userId := ⟨3⟩, usernameTag := ⟨4⟩, emailTag := ⟨5⟩, token := (⟨6⟩, ⟨6⟩) } }))] ++
    .replicate 4 (.advance 2 0)

/-- A batch of one key. -/
def runBatch : List OneTimePrekey := [⟨7, Vector.replicate 32 1⟩]

def runClaims (u : Uuid) : Claims where
  sub := u
  username := "user"
  exp := 900
  iat := 0

theorem exists_runAccounts : ∃ w, (accountHandlers accountServer).Reachable (startWorld 0) w ∧
    w.db.hasPassword ⟨2⟩ = some true ∧ w.db.hasPassword ⟨3⟩ = some false := by
  obtain ⟨t, ht, hp⟩ := exists_run_of_exec (accountHandlers accountServer).step anyStep
    (Sys.idle (startWorld 0)) runAccounts
    (fun t => t.world.db.hasPassword ⟨2⟩ = some true ∧
      t.world.db.hasPassword ⟨3⟩ = some false) (by decide +kernel)
  obtain ⟨hregistered, hlogin⟩ := of_decide_eq_true hp
  exact ⟨t.world, ⟨_, t, ht, rfl⟩, hregistered, hlogin⟩

/-- The batch of the user who has registered is stored. -/
theorem replenish_kept : ∃ w, (accountHandlers accountServer).Reachable (startWorld 0) w ∧
    Replenished w (replenishOneTime w false (runClaims ⟨2⟩) runBatch).1 ⟨2⟩ runBatch := by
  obtain ⟨w, hw, hregistered, -⟩ := exists_runAccounts
  exact ⟨w, hw, (replenish_kept_iff accountServer 0 w hw (runClaims ⟨2⟩) false runBatch
    (by decide +kernel)).mpr (.inr hregistered) rfl⟩

/-- The batch of the user who has logged in over GitHub is accepted and lost. -/
theorem replenish_lost : ∃ w, (accountHandlers accountServer).Reachable (startWorld 0) w ∧
    (replenishOneTime w false (runClaims ⟨3⟩) runBatch).2 = .noContent ∧
    supplyOf (replenishOneTime w false (runClaims ⟨3⟩) runBatch).1 ⟨3⟩ = [] ∧
    ¬Replenished w (replenishOneTime w false (runClaims ⟨3⟩) runBatch).1 ⟨3⟩ runBatch := by
  obtain ⟨w, hw, -, hlogin⟩ := exists_runAccounts
  have hnone : w.bundles.lookup ⟨3⟩ = none := by
    rw [← Option.not_isSome_iff_eq_none, bundle_iff_password hw, hlogin]
    simp
  have hempty : supplyOf (replenishOneTime w false (runClaims ⟨3⟩) runBatch).1 ⟨3⟩ = [] := by
    show supplyOf { w with bundles := Table.modify ⟨3⟩ (.append runBatch w.now) w.bundles } ⟨3⟩ = []
    simp only [supplyOf, Table.lookup_modify, if_true, hnone, Option.map_none, Option.getD_none]
  refine ⟨w, hw, rfl, hempty, fun h => ?_⟩
  have happend := h.appended
  rw [hempty] at happend
  exact absurd (List.append_eq_nil_iff.mp happend.symm).2 (by decide)

end FreeBox.Server.Auth
