import FreeBox.Server.Registered

/-!
# Accounts and their keys

`get_bundle` and `replenish_one_time` of `apps/server/src/api/keys.rs` make one statement each.
Here they run beside the handlers of accounts, over the same database.

Results:
* `stays_step`, `stays_run`: what a step and a run leave of users and bundles.
-/

namespace FreeBox.Server

namespace Auth

open FreeBox.Lib FreeBox.Crypto Handlers

open KeyServer (getBundle replenishOneTime validateOneTimePrekeyBatch BundleRow RegisterRequest
  RegisterDraws)

/-- A request to a handler of `keys.rs`. -/
inductive KeyRequest
  | getBundle (claims : Claims) (userId : Uuid)
  | replenishOneTime (claims : Claims) (newKeys : List OneTimePrekey)

/-- The handler of the request. -/
def KeyRequest.handle (w : KeyServer.World) (dbFails : Bool) :
    KeyRequest → KeyServer.World × KeyServer.Response
  | .getBundle _ userId => KeyServer.getBundle w dbFails userId
  | .replenishOneTime claims newKeys => KeyServer.replenishOneTime w dbFails claims newKeys

/-- The answer when the statement fails. A batch is checked before it. -/
def KeyRequest.failed : KeyRequest → KeyServer.Response
  | .getBundle .. => .error .internal
  | .replenishOneTime _ newKeys =>
    match validateOneTimePrekeyBatch newKeys with
    | .error e => .error e
    | .ok () => .error .internal

theorem KeyRequest.handle_fails (w : KeyServer.World) (request : KeyRequest) :
    request.handle w true = (w, request.failed) := by
  cases request with
  | getBundle => rfl
  | replenishOneTime claims newKeys =>
    show KeyServer.replenishOneTime w true claims newKeys = _
    unfold KeyServer.replenishOneTime failed
    cases h : validateOneTimePrekeyBatch newKeys with
    | error e => simp [h]
    | ok _ => simp [h]

/-- `get_bundle` and `replenish_one_time`. -/
def keyHandlers : Handlers KeyServer.World KeyRequest KeyServer.Response Empty where
  entry _ := true
  advance w _ request := some ((request.handle w false).1, .done (some (request.handle w false).2))
  onFail _ request := some (.done (some request.failed))
  environ _ e := nomatch e

/-- The handlers of `auth.rs`, `oauth.rs` and `keys.rs` over one database. -/
def serverHandlers (st : AppState) :=
  (accountHandlers st).par keyHandlers

/-- The state of accounts and of their keys. -/
abbrev AccountKeyState :=
  Sys KeyServer.World ((Job ⊕ OAuth.Job) ⊕ KeyRequest)
    ((Response ⊕ OAuth.Response) ⊕ KeyServer.Response)

abbrev AccountKeyStep :=
  Action ((Job ⊕ OAuth.Job) ⊕ KeyRequest) ((Event ⊕ OAuth.Event) ⊕ Empty)

/-! ## What stays -/

end Auth

namespace KeyServer

open FreeBox.Lib

/-- Only one-time prekeys are added. -/
def BundleRow.Grows (row row' : BundleRow) : Prop :=
  ∃ more, row'.bundle =
    { row.bundle with oneTimePrekeys := row.bundle.oneTimePrekeys ++ more }

theorem BundleRow.Grows.refl (row : BundleRow) : row.Grows row := ⟨[], by simp⟩

theorem BundleRow.Grows.trans {row row' row'' : BundleRow} (h : row.Grows row')
    (h' : row'.Grows row'') : row.Grows row'' := by
  obtain ⟨more, hmore⟩ := h
  obtain ⟨more', hmore'⟩ := h'
  exact ⟨more ++ more', by rw [hmore', hmore, List.append_assoc]⟩

/-- Users stay, and so do their bundles. -/
structure World.Stays (w w' : World) : Prop where
  users : w.db.UsersStay w'.db
  bundles : ∀ u row, w.bundles.lookup u = some row →
    ∃ row', w'.bundles.lookup u = some row' ∧ row.Grows row'

namespace World.Stays

variable {w w' w'' : World}

theorem refl (w : World) : w.Stays w where
  users := .refl w.db
  bundles _ row hrow := ⟨row, hrow, .refl row⟩

theorem trans (h : w.Stays w') (h' : w'.Stays w'') : w.Stays w'' where
  users := h.users.trans h'.users
  bundles u row hrow := by
    obtain ⟨row', hrow', hgrows⟩ := h.bundles u row hrow
    obtain ⟨row'', hrow'', hgrows'⟩ := h'.bundles u row' hrow'
    exact ⟨row'', hrow'', hgrows.trans hgrows'⟩

theorem of_users (h : w.db.UsersStay w'.db) (hbundles : w'.bundles = w.bundles) : w.Stays w' where
  users := h
  bundles _ row hrow := ⟨row, hbundles ▸ hrow, .refl row⟩

end World.Stays

theorem stays_replenishOneTime (w : World) (dbFails : Bool) (claims : Claims)
    (newKeys : List Crypto.OneTimePrekey) :
    w.Stays (replenishOneTime w dbFails claims newKeys).1 := by
  unfold replenishOneTime
  split
  · exact .refl w
  · split_ifs
    · exact .refl w
    · refine ⟨.refl w.db, fun u row hrow => ?_⟩
      show ∃ row', (Table.modify claims.sub (.append newKeys w.now) w.bundles).lookup u =
        some row' ∧ row.Grows row'
      rw [Table.lookup_modify]
      split_ifs with hu
      · rw [← hu, hrow]
        exact ⟨row.append newKeys w.now, rfl, newKeys, rfl⟩
      · exact ⟨row, hrow, .refl row⟩

theorem getBundle_world (w : World) (dbFails : Bool) (u : Uuid) :
    (getBundle w dbFails u).1 = w := by
  unfold getBundle
  split_ifs
  · rfl
  · split <;> rfl

end KeyServer

namespace Auth

open FreeBox.Lib FreeBox.Crypto Handlers
open KeyServer (BundleRow RegisterRequest RegisterDraws)

variable {st : AppState} {w w' w₁ : KeyServer.World}

theorem CallCase.stays {job : Job} {next : Next Job Response} (h : CallCase st w job w' next) :
    w.Stays w' := by
  refine ⟨h.usersStay, fun u row hrow => ?_⟩
  have hsame : w'.bundles = w.bundles →
      ∃ row', w'.bundles.lookup u = some row' ∧ row.Grows row' :=
    fun heq => ⟨row, heq ▸ hrow, .refl row⟩
  cases h with
  | committed hcommit =>
    have hrows := registered_of_commit hcommit
    rw [hrows.bundles, Table.lookup_insert_eq]
    split_ifs with hu
    · have hnew := hrows.newBundle
      rw [← hu, hrow] at hnew
      cases hnew
    · exact ⟨row, hrow, .refl row⟩
  | taken htake =>
    obtain ⟨-, -, rfl⟩ := Db.takeToken_eq_some.mp htake
    exact hsame rfl
  | issued _ hstore =>
    obtain ⟨-, rfl⟩ := Db.storeToken_eq_some hstore
    exact hsame rfl
  | _ => exact hsame rfl

theorem account_stays {pick : ℕ} {x : Job ⊕ OAuth.Job}
    {next : Next (Job ⊕ OAuth.Job) (Response ⊕ OAuth.Response)}
    (h : (accountHandlers st).advance w pick x = some (w', next)) : w.Stays w' := by
  have husers := account_usersStay h
  cases par_advance_cases h with
  | left hcall => exact (advance_cases hcall).stays
  | right hzoom =>
    obtain ⟨oauth, -, rfl⟩ := zoom_advance_cases hzoom
    exact .of_users husers rfl

theorem account_environ_bundles {e : Event ⊕ OAuth.Event}
    (h : (accountHandlers st).environ w e = some w') : w'.bundles = w.bundles := by
  cases e with
  | inl e => cases e; cases h; rfl
  | inr e => cases e; cases h; rfl

theorem KeyRequest.stays (w : KeyServer.World) (dbFails : Bool) (request : KeyRequest) :
    w.Stays (request.handle w dbFails).1 := by
  cases request with
  | getBundle claims u =>
    show w.Stays (KeyServer.getBundle w dbFails u).1
    rw [KeyServer.getBundle_world]
    exact .refl w
  | replenishOneTime claims newKeys =>
    exact KeyServer.stays_replenishOneTime w dbFails claims newKeys

variable {s t : AccountKeyState}

/-- What one step leaves. -/
theorem stays_step {a : AccountKeyStep} (hs : (serverHandlers st).step s a = some t) :
    s.world.Stays t.world := by
  cases step_cases hs with
  | arrive | fail | cancel => exact .refl s.world
  | advance _ hadv =>
    cases par_advance_cases hadv with
    | left hcall => exact account_stays hcall
    | @right request _ _ hcall =>
      cases hcall
      exact request.stays s.world false
  | @env e w henv =>
    cases e with
    | inl e =>
      have henv : (accountHandlers st).environ s.world e = some w := henv
      exact .of_users (.of_eq (congrArg Db.users (account_environ_db henv)))
        (account_environ_bundles henv)
    | inr e => cases e

theorem stays_run {as : List AccountKeyStep}
    (hrun : Run (serverHandlers st).step anyStep s as t) : s.world.Stays t.world :=
  hrun.invariant (fun u => s.world.Stays u.world) (.refl s.world)
    fun _ _ _ h _ hs => h.trans (stays_step hs)

end Auth

end FreeBox.Server
