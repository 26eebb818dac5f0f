import FreeBox.Server.Linking

/-!
# Unlinking the last authentication method

`unlink_provider` refuses to remove the last authentication method of a user. It
counts the methods and deletes an identity in two statements, so that requests
which overlap may all pass the check and then delete what the others counted.

Results:
* `unlink_keeps_method`: a user keeps a method in every run in which each request
  past the check leaves an identity that no other such request is about to delete.
* `locked_out_of_unguarded`: after a request that passes the check otherwise, the
  requests in flight can remove the last method.
* `serial_unlinks_keep_method`: requests that come one after another keep a method.
* `locked_out`: two requests that lock a user out.
-/

namespace FreeBox.Server.OAuth

open FreeBox.Lib Handlers

/-- The user can sign in: there is a password or a linked identity. -/
def HasMethod (db : Db) (u : Uuid) : Prop := db.hasPassword u = some true ∨ 0 < db.accountCount u

/-- The request is about to delete the identities of `u` at `provider`. -/
def Job.deletes (u : Uuid) (provider : String) : Job → Bool
  | .unlinkDelete userId provider' => userId = u ∧ provider' = provider
  | _ => false

/-- A request is about to delete the identities of `u` at `provider`. -/
def threatened (s : State) (u : Uuid) (provider : String) : Bool :=
  0 < Table.countWhere (fun _ job => job.deletes u provider) s.jobs

/-- Some identity of `u` is of another provider than `provider` and not about to be
    deleted. -/
def leavesMethod (s : State) (u : Uuid) (provider : String) : Bool :=
  0 < Table.countWhere (fun key account => account.userId = u ∧ key.1 ≠ provider ∧
    threatened s u key.1 = false) s.world.db.accounts

/-- A request of `u` that passes the check without a password leaves an identity that no
    request is about to delete. -/
def unlinkGuard (u : Uuid) (s : State) : Step → Bool
  | .advance rid _ =>
    match s.jobs.lookup rid with
    | some (.unlinkCount userId provider false) =>
      userId = u → 1 < s.world.db.accountCount u → leavesMethod s u provider
    | _ => true
  | _ => true

/-- `unlink_provider` past its first call. -/
def Job.unlinking : Job → Bool
  | .unlinkCount .. | .unlinkDelete .. => true
  | _ => false

/-- A request that has seen a password is right, and there is a password or an identity
    that no request is about to delete. -/
structure Safe (u : Uuid) (s : State) : Prop where
  password : ∀ rid provider, s.jobs.lookup rid = some (.unlinkCount u provider true) →
    s.world.db.hasPassword u = some true
  method : s.world.db.hasPassword u = some true ∨ ∃ key account,
    s.world.db.accounts.lookup key = some account ∧ account.userId = u ∧
      ∀ rid job, s.jobs.lookup rid = some job → job.deletes u key.1 = false

variable {st : AppState} {u : Uuid} {provider : String} {s t : State} {a : Step} {w w' : World}
  {rid pick : ℕ} {job : Job} {next : Next Job Response} {db db' : Db}

theorem accountCount_pos : 0 < db.accountCount u ↔
    ∃ key account, db.accounts.lookup key = some account ∧ account.userId = u := by
  simp only [Db.accountCount, Table.countWhere_pos, decide_eq_true_eq]

theorem Safe.hasMethod (h : Safe u s) : HasMethod s.world.db u :=
  h.method.imp_right fun ⟨key, account, hacc, hu, _⟩ => accountCount_pos.mpr ⟨key, account, hacc, hu⟩

theorem safe_idle (h : HasMethod w.db u) : Safe u (Sys.idle w) where
  password _ _ h := by simp [Sys.idle] at h
  method := h.imp_right fun h => by
    obtain ⟨key, account, hacc, hu⟩ := accountCount_pos.mp h
    exact ⟨key, account, hacc, hu, fun rid job h => by simp [Sys.idle] at h⟩

theorem threatened_eq_false : threatened s u provider = false ↔
    ∀ rid job, s.jobs.lookup rid = some job → job.deletes u provider = false := by
  rw [threatened, decide_eq_false_iff_not, Table.countWhere_pos]
  simp

theorem leavesMethod_iff : leavesMethod s u provider = true ↔
    ∃ key account, s.world.db.accounts.lookup key = some account ∧ account.userId = u ∧
      key.1 ≠ provider ∧ threatened s u key.1 = false := by
  simp only [leavesMethod, decide_eq_true_eq, Table.countWhere_pos]

/-! ## Steps -/

theorem Job.deletes_of_not_unlinking (h : job.unlinking = false) : job.deletes u provider = false := by
  cases job <;> first | rfl | cases h

theorem keeps_reactivateMatched {maxDays : UInt32} {now : Timestamp} {id reason : String}
    {user : UserRow} (h : reactivateMatched maxDays now provider id reason u user db = .ok db') :
    db.Keeps db' := by
  obtain ⟨-, rfl⟩ | ⟨t, -, -, rfl⟩ := reactivateMatched_ok h
  · exact .of_eq rfl rfl
  · exact (Db.keeps_clearDeletedAt db u).trans (.of_eq rfl rfl)

/-- A login takes nothing away. -/
theorem LoginCase.keeps {maxDays : UInt32} {now : Timestamp} {profile : OAuthUserProfile}
    {draws : Draws} {outcome : Except AppError (Uuid × String)}
    (h : LoginCase maxDays now provider profile draws db db' outcome) : db.Keeps db' := by
  cases h with
  | refused => exact .of_eq rfl rfl
  | identity _ hre => exact (keeps_reactivateMatched hre).trans (Db.keeps_refreshAccount ..)
  | resolved _ hres hins =>
    refine .trans ?_ (Db.keeps_insertAccount hins)
    cases hres with
    | email _ hre => exact keeps_reactivateMatched hre
    | upsert => exact Db.keeps_clearDeletedAt ..
    | created _ _ hnew => exact Db.keeps_insertUser hnew

/-- No call but the `DELETE` takes anything away. -/
theorem CallCase.keeps (h : CallCase st w job w' next) (hjob : ∀ v p, job ≠ .unlinkDelete v p) :
    w.db.Keeps w'.db := by
  have heffect := h.effect
  generalize w'.db = db' at heffect ⊢
  cases heffect with
  | quiet husers haccounts => exact .of_eq husers haccounts
  | link hins => exact Db.keeps_insertAccount hins
  | login hcase => exact hcase.keeps
  | unlink => exact absurd rfl (hjob _ _)

/-- What is safe stays safe when nothing is taken away and no request goes on to its
    check or its `DELETE`. -/
theorem Safe.mono (h : Safe u s) (hkeeps : s.world.db.Keeps t.world.db)
    (hjobs : ∀ rid job, t.jobs.lookup rid = some job →
      s.jobs.lookup rid = some job ∨ job.unlinking = false) : Safe u t where
  password rid p hj := by
    rcases hjobs rid _ hj with hold | hnot
    · exact hkeeps.password u (h.password rid p hold)
    · cases hnot
  method := by
    refine h.method.imp (hkeeps.password u) fun ⟨key, account, hacc, hu, hspared⟩ => ?_
    obtain ⟨account', hacc', he⟩ := hkeeps.account key account hacc
    refine ⟨key, account', hacc', he.trans hu, fun rid job hj => ?_⟩
    rcases hjobs rid job hj with hold | hnot
    · exact hspared rid job hold
    · exact Job.deletes_of_not_unlinking hnot

/-- A call leaves the requests right that have seen a password. -/
theorem Safe.password_settle (h : Safe u s)
    (hnext : ∀ p, next = .goto (.unlinkCount u p true) → s.world.db.hasPassword u = some true)
    (rid' : ℕ) (p : String)
    (hj : (s.settle rid job w next).jobs.lookup rid' = some (.unlinkCount u p true)) :
    s.world.db.hasPassword u = some true := by
  rcases Sys.of_lookup_settle hj with ⟨-, hold⟩ | ⟨-, hgoto⟩
  · exact h.password rid' p hold
  · exact hnext p hgoto

/-- The `DELETE` of a request leaves an identity that this request is not about to
    delete. -/
theorem safe_unlink {userId : Uuid} {response : Response} (h : Safe u s)
    (hjob : s.jobs.lookup rid = some (.unlinkDelete userId provider)) :
    Safe u (s.settle rid (.unlinkDelete userId provider)
      { s.world with db := s.world.db.unlink userId provider } (.done (some response))) where
  password := h.password_settle fun p hnext => by cases hnext
  method := by
    refine h.method.imp id fun ⟨key, account, hacc, hu, hspared⟩ => ?_
    refine ⟨key, account, Table.lookup_deleteWhere_eq_some.mpr ⟨hacc, ?_⟩, hu,
      Sys.forall_settle hspared fun _ hnext => by cases hnext⟩
    have hother := hspared rid _ hjob
    by_contra hlink
    obtain ⟨hid, hkey⟩ := of_decide_eq_true ((Bool.not_eq_false _).mp hlink)
    simp [Job.deletes, ← hid, hu, hkey] at hother

/-- A request goes on to its check with the password that it has seen. -/
theorem safe_passwordRead {userId : Uuid} {hasPassword : Bool} (h : Safe u s)
    (hread : s.world.db.hasPassword userId = some hasPassword) :
    Safe u (s.settle rid job s.world (.goto (.unlinkCount userId provider hasPassword))) where
  password := h.password_settle fun p hnext => by cases hnext; exact hread
  method := by
    refine h.method.imp id fun ⟨key, account, hacc, hu, hspared⟩ =>
      ⟨key, account, hacc, hu, Sys.forall_settle hspared fun _ hnext => ?_⟩
    cases hnext
    rfl

/-- A request that goes on to its `DELETE` leaves an identity, if an identity of another
    provider is no request's target. -/
theorem safe_mayUnlink {userId : Uuid} (h : Safe u s)
    (hleaves : userId = u → s.world.db.hasPassword u = some true ∨ leavesMethod s u provider = true) :
    Safe u (s.settle rid job s.world (.goto (.unlinkDelete userId provider))) where
  password := h.password_settle fun p hnext => by cases hnext
  method := by
    by_cases huser : userId = u
    · refine (hleaves huser).imp id fun hother => ?_
      obtain ⟨key, account, hacc, hu, hne, hspared⟩ := leavesMethod_iff.mp hother
      refine ⟨key, account, hacc, hu,
        Sys.forall_settle (threatened_eq_false.mp hspared) fun _ hnext => ?_⟩
      cases hnext
      simp [Job.deletes, hne.symm]
    · refine h.method.imp id fun ⟨key, account, hacc, hu, hspared⟩ =>
        ⟨key, account, hacc, hu, Sys.forall_settle hspared fun _ hnext => ?_⟩
      cases hnext
      simp [Job.deletes, huser]

theorem safe_step (h : Safe u s) (hok : unlinkGuard u s a = true) (hs : step st s a = some t) :
    Safe u t := by
  cases step_cases hs with
  | @arrive rid job hentry hnew =>
    refine h.mono (.of_eq rfl rfl) fun rid' job' hj => ?_
    rw [Table.lookup_insert_eq] at hj
    split_ifs at hj
    · cases hj
      right
      cases job <;> first | rfl | cases hentry
    · exact .inl hj
  | @advance rid pick job w next hjob hadv =>
    have hcase : CallCase st s.world job w next := advance_cases hadv
    have hkeeps := hcase.keeps
    cases hcase with
    | rejected hreject =>
      refine h.mono (hkeeps ?_) fun rid' job' hj => ?_
      · rintro v p rfl; cases hreject
      · exact (Sys.of_lookup_settle hj).imp And.right fun ⟨_, hnext⟩ => by cases hnext
    | unlinked => exact safe_unlink h hjob
    | passwordRead hread => exact safe_passwordRead h hread
    | @mayUnlink userId provider hasPassword hcount =>
      refine safe_mayUnlink h ?_
      rintro rfl
      cases hasPassword with
      | true => exact .inl (h.password rid provider hjob)
      | false =>
        -- the guard names an identity that stays
        simp only [unlinkGuard, hjob, decide_eq_true_eq] at hok
        have hcount : 1 < s.world.db.accountCount userId := by simpa using hcount
        exact .inr (hok trivial hcount)
    | _ =>
      exact h.mono (hkeeps fun _ _ he => by cases he) fun rid' job' hj =>
        (Sys.of_lookup_settle hj).imp And.right fun ⟨_, hnext⟩ => by cases hnext <;> rfl
  | @fail rid pick job next hjob hn =>
    cases hn
    exact h.mono (.of_eq rfl rfl) fun rid' job' hj =>
      (Sys.of_lookup_settle hj).imp And.right fun ⟨_, hnext⟩ => by cases hnext
  | @cancel rid job hjob =>
    refine h.mono (.of_eq rfl rfl) fun rid' job' hj => ?_
    rw [Table.lookup_erase_eq] at hj
    split_ifs at hj
    exact .inl hj
  | @env e w henv =>
    cases e
    cases henv
    exact h.mono (.of_eq rfl rfl) fun _ _ hj => .inl hj

theorem safe_run {as : List Step} (h : HasMethod w.db u)
    (hr : Run (step st) (fun s a => unlinkGuard u s a = true) (Sys.idle w) as t) : Safe u t :=
  hr.invariant _ (safe_idle h) fun _ _ _ h hok hs => safe_step h hok hs

/-- A user who has an authentication method keeps one in every run whose steps all meet
    the guard. -/
theorem unlink_keeps_method {as : List Step} (h : HasMethod w.db u)
    (hr : Run (step st) (fun s a => unlinkGuard u s a = true) (Sys.idle w) as t) :
    HasMethod t.world.db u :=
  (safe_run h hr).hasMethod

/-! ### Two requests at once -/

/-- The row of an identity of the user of concrete runs. -/
def runAccount : OAuthAccountRow where
  userId := runUser
  providerEmail := none
  providerUsername := none
  avatarUrl := none
  createdAt := 0
  updatedAt := 0

/-- A user without a password, with one identity of GitHub and one of Google. -/
def twoIdentities : World where
  now := 0
  db := (((Db.empty.insertUser runUser
    { username := "alice", email := "alice@example.com", passwordHash := none, argon2Salt := none,
      createdAt := 0, deletedAt := none }).bind fun db =>
        db.insertAccount "github" "583231" runAccount).bind fun db =>
          db.insertAccount "google" "1024025" runAccount).getD .empty

/-- Two requests to unlink the two identities arrive together. -/
def runUnlinks : List Step :=
  [.arrive 0 (.unlinkPassword runUser "github"), .arrive 1 (.unlinkPassword runUser "google"),
    .advance 0 0, .advance 1 0]

theorem hasMethod_twoIdentities : HasMethod twoIdentities.db runUser := .inr (by decide +kernel)

/-- The second request comes to its check when the first is done, and is refused. -/
theorem unlink_keeps_method_run : ∃ t,
    Run (step runServer) (fun s a => unlinkGuard runUser s a = true) (Sys.idle twoIdentities)
      (runUnlinks ++ [.advance 0 0, .advance 0 0, .advance 1 0]) t ∧
    t.world.db.linkedCount runUser "github" = 0 ∧ HasMethod t.world.db runUser := by
  obtain ⟨t, ht, hp⟩ := exists_run_of_exec (step runServer)
    (fun s a => unlinkGuard runUser s a = true) (Sys.idle twoIdentities)
    (runUnlinks ++ [.advance 0 0, .advance 0 0, .advance 1 0])
    (fun t => t.world.db.linkedCount runUser "github" = 0) (by decide +kernel)
  exact ⟨t, ht, of_decide_eq_true hp, unlink_keeps_method hasMethod_twoIdentities ht⟩

theorem oneIdentity_twoIdentities : OneIdentityPerProvider twoIdentities.db := by
  intro u p
  have hentries : twoIdentities.db.accounts.entries =
      [⟨("google", "1024025"), runAccount⟩, ⟨("github", "583231"), runAccount⟩] := rfl
  have hcount : twoIdentities.db.linkedCount u p =
      if runUser = u ∧ ("google" = p ∨ "github" = p) then 1 else 0 := by
    by_cases hp : "google" = p
    · simp [Db.linkedCount, Table.countWhere, hentries, Db.isLink, List.countP_cons, ← hp, runAccount]
    · simp [Db.linkedCount, Table.countWhere, hentries, Db.isLink, List.countP_cons, hp, runAccount]
  rw [hcount]
  split_ifs <;> omega

/-- Both requests count two identities before either deletes one. -/
theorem locked_out : OneIdentityPerProvider twoIdentities.db ∧ HasMethod twoIdentities.db runUser ∧
    ∃ t, Run (step runServer) anyStep (Sys.idle twoIdentities)
      (runUnlinks ++ [.advance 0 0, .advance 1 0, .advance 0 0, .advance 1 0]) t ∧
    t.jobs.keys = [] ∧ ¬HasMethod t.world.db runUser := by
  obtain ⟨t, ht, hp⟩ := exists_run_of_exec (step runServer) anyStep (Sys.idle twoIdentities)
    (runUnlinks ++ [.advance 0 0, .advance 1 0, .advance 0 0, .advance 1 0])
    (fun t => t.jobs.keys = [] ∧ t.world.db.hasPassword runUser ≠ some true ∧
      t.world.db.accountCount runUser = 0) (by decide +kernel)
  obtain ⟨hdone, hpassword, hnone⟩ := of_decide_eq_true hp
  refine ⟨oneIdentity_twoIdentities, hasMethod_twoIdentities, t, ht, hdone, ?_⟩
  rintro (h | hpos)
  · exact hpassword h
  · exact absurd hnone (Nat.pos_iff_ne_zero.mp hpos)

/-! ## The guard is exact -/

/-- The step is the last one of a request in flight, the `DELETE` for `u`. No request arrives
    in such steps. -/
def completesUnlink (u : Uuid) (s : State) : Step → Prop
  | .advance rid _ => ∃ provider, s.jobs.lookup rid = some (.unlinkDelete u provider)
  | _ => False

/-- When every identity of `u` is about to be deleted, the requests in flight can delete
    them all. -/
theorem exists_run_deleting_all (st : AppState) (s : State)
    (hall : ∀ key account, s.world.db.accounts.lookup key = some account → account.userId = u →
      ∃ rid, s.jobs.lookup rid = some (.unlinkDelete u key.1)) :
    ∃ as t, Run (step st) (completesUnlink u) s as t ∧ t.world.db.accountCount u = 0 ∧
      t.world.db.users = s.world.db.users := by
  -- on the number of identities; one `DELETE` removes at least one
  induction hn : s.world.db.accountCount u using Nat.strong_induction_on generalizing s with
  | _ n ih =>
    by_cases hzero : n = 0
    · exact ⟨[], s, .nil, hn.trans hzero, rfl⟩
    · have hpos : 0 < s.world.db.accountCount u := by omega
      obtain ⟨key, account, hacc, hu⟩ := accountCount_pos.mp hpos
      obtain ⟨rid, hrid⟩ := hall key account hacc hu
      obtain ⟨t, hstep, hdb, hjobs⟩ : ∃ t, step st s (.advance rid 0) = some t ∧
          t.world.db = s.world.db.unlink u key.1 ∧
          ∀ rid', rid' ≠ rid → t.jobs.lookup rid' = s.jobs.lookup rid' := by
        refine ⟨_, by simp only [step, Handlers.step, hrid, Option.bind_some]; rfl, rfl, ?_⟩
        intro rid' hne
        rw [Sys.lookup_settle, if_neg hne]
      have hless : t.world.db.accountCount u < n := by
        rw [hdb, ← hn]
        exact Table.countWhere_deleteWhere_lt hacc (decide_eq_true hu) (decide_eq_true ⟨hu, rfl⟩)
      obtain ⟨as, t', hrun, hnone, husers⟩ := ih _ hless t (fun key' account' hacc' hu' => by
        rw [hdb] at hacc'
        obtain ⟨hold, hkept⟩ := Table.lookup_deleteWhere_eq_some.mp hacc'
        obtain ⟨rid', hrid'⟩ := hall key' account' hold hu'
        refine ⟨rid', (hjobs rid' ?_).trans hrid'⟩
        rintro rfl
        rw [hrid] at hrid'
        simp only [Option.some.injEq, Job.unlinkDelete.injEq, true_and] at hrid'
        simp [Db.isLink, hu', hrid'] at hkept) rfl
      have hok : completesUnlink u s (.advance rid 0) := ⟨key.1, hrid⟩
      exact ⟨_, t', .cons hok hstep hrun, hnone, by rw [husers, hdb]; rfl⟩

theorem unlinkGuard_eq_false (h : unlinkGuard u s a = false) : ∃ rid pick provider,
    a = .advance rid pick ∧ s.jobs.lookup rid = some (.unlinkCount u provider false) ∧
      1 < s.world.db.accountCount u ∧ leavesMethod s u provider = false := by
  cases a with
  | advance rid pick =>
    simp only [unlinkGuard] at h
    split at h
    · next userId provider hjob =>
      simp only [decide_eq_false_iff_not, Classical.not_imp, Bool.not_eq_true] at h
      obtain ⟨rfl, hcount, hleaves⟩ := h
      exact ⟨rid, pick, provider, rfl, hjob, hcount, hleaves⟩
    · cases h
  | _ => cases h

/-- After a step that does not meet the guard, the requests in flight can take the last
    method from a user without a password. -/
theorem locked_out_of_unguarded (hpassword : s.world.db.hasPassword u ≠ some true)
    (hok : unlinkGuard u s a = false) (hs : step st s a = some t) :
    ∃ bs t', Run (step st) (completesUnlink u) t bs t' ∧ ¬HasMethod t'.world.db u := by
  obtain ⟨rid, pick, provider, rfl, hjob, hcount, hleaves⟩ := unlinkGuard_eq_false hok
  -- the request passes the check
  have ht : t = s.settle rid (.unlinkCount u provider false) s.world
      (.goto (.unlinkDelete u provider)) := by
    simp only [step, Handlers.step, hjob, Option.bind_some, oauthHandlers, advance,
      if_neg (not_and_of_not_right _ (not_le.mpr hcount)), Option.some.injEq] at hs
    exact hs.symm
  have hall : ∀ key account, t.world.db.accounts.lookup key = some account → account.userId = u →
      ∃ rid, t.jobs.lookup rid = some (.unlinkDelete u key.1) := by
    intro key account hacc hu
    rw [ht, Sys.settle_world] at hacc
    by_cases hkey : key.1 = provider
    · exact ⟨rid, by rw [ht, Sys.lookup_settle, if_pos rfl, hkey]; rfl⟩
    · -- the identity is not spared, so another request is about to delete it
      have hthreat : threatened s u key.1 = true := by
        by_contra hspared
        have hleft : leavesMethod s u provider = true :=
          leavesMethod_iff.mpr ⟨key, account, hacc, hu, hkey, (Bool.not_eq_true _).mp hspared⟩
        rw [hleaves] at hleft
        cases hleft
      obtain ⟨rid', job, hjob', hdel⟩ := Table.countWhere_pos.mp (of_decide_eq_true hthreat)
      have hne : rid' ≠ rid := by
        rintro rfl
        rw [hjob] at hjob'
        cases hjob'
        cases hdel
      refine ⟨rid', ?_⟩
      rw [ht, Sys.lookup_settle, if_neg hne, hjob']
      cases job with
      | unlinkDelete v p => obtain ⟨rfl, rfl⟩ := of_decide_eq_true hdel; rfl
      | _ => cases hdel
  obtain ⟨bs, t', hrun, hnone, husers⟩ := exists_run_deleting_all st t hall
  refine ⟨bs, t', hrun, ?_⟩
  rintro (hp | hpos)
  · rw [Db.hasPassword, husers, ht] at hp
    exact hpassword hp
  · exact absurd hnone (Nat.pos_iff_ne_zero.mp hpos)

/-- The request for GitHub has counted two identities, and that for Google now does, too. -/
theorem locked_out_of_unguarded_run : ∃ s t,
    Run (step runServer) anyStep (Sys.idle twoIdentities) (runUnlinks ++ [.advance 0 0]) s ∧
    HasMethod s.world.db runUser ∧ step runServer s (.advance 1 0) = some t ∧
    ∃ bs t', Run (step runServer) (completesUnlink runUser) t bs t' ∧
      ¬HasMethod t'.world.db runUser := by
  obtain ⟨s, hs, hp⟩ := exists_run_of_exec (step runServer) anyStep (Sys.idle twoIdentities)
    (runUnlinks ++ [.advance 0 0])
    (fun s => s.world.db.hasPassword runUser ≠ some true ∧ 0 < s.world.db.accountCount runUser ∧
      unlinkGuard runUser s (.advance 1 0) = false ∧
      (step runServer s (.advance 1 0)).isSome = true) (by decide +kernel)
  obtain ⟨hpassword, hpos, hguard, hstep⟩ := of_decide_eq_true hp
  obtain ⟨t, ht⟩ := Option.isSome_iff_exists.mp hstep
  exact ⟨s, t, hs, .inr hpos, ht, locked_out_of_unguarded hpassword hguard ht⟩

/-! ## One request at a time -/

/-- A request to `unlink_provider` of `u`. -/
def Job.unlinks (u : Uuid) : Job → Bool
  | .unlinkPassword userId _ | .unlinkCount userId _ _ | .unlinkDelete userId _ => userId = u
  | _ => false

/-- The requests of `u` to `unlink_provider` in flight. -/
def unlinkRequests (s : State) (u : Uuid) : ℕ :=
  Table.countWhere (fun _ job => job.unlinks u) s.jobs

/-- The requests of `u` to `unlink_provider` come one after another, and no user gets two
    identities of one provider. -/
def serialGuard (st : AppState) (u : Uuid) (s : State) (a : Step) : Bool :=
  match a with
  | .arrive _ job => job.unlinks u → unlinkRequests s u = 0
  | _ => linkGuard st s a

/-- At most one request of `u` to `unlink_provider` is in flight. -/
structure Serial (u : Uuid) (s : State) : Prop where
  single : unlinkRequests s u ≤ 1
  one : OneIdentityPerProvider s.world.db

/-- A request to `unlink_provider` stays one. -/
theorem CallCase.unlinks (h : CallCase st w job w' next)
    (hnext : next.job?.any (Job.unlinks u) = true) : job.unlinks u = true := by
  cases h <;> first | exact hnext | cases hnext

theorem serial_step (h : Serial u s) (hok : serialGuard st u s a = true)
    (hs : step st s a = some t) : Serial u t where
  single := by
    refine single_step h.single (fun rid job ha hjob => ?_) (fun _ _ _ _ _ hadv =>
      (advance_cases hadv).unlinks) (fun _ _ _ hn hany => ?_) hs
    · subst ha
      simp only [serialGuard, decide_eq_true_eq] at hok
      exact hok hjob
    · cases hn
      cases hany
  one := by
    refine (oneIdentity_step_iff h.one hs).mpr ?_
    cases a with
    | arrive => rfl
    | _ => exact hok

/-- A request that passes the check alone leaves an identity. -/
theorem unlinkGuard_of_serial (h : Serial u s) (a : Step) : unlinkGuard u s a = true := by
  by_contra hok
  obtain ⟨rid, pick, provider, rfl, hjob, hcount, hleaves⟩ :=
    unlinkGuard_eq_false ((Bool.not_eq_true _).mp hok)
  -- another identity has another provider, and no other request is in flight
  have hsame : ∀ key account, s.world.db.accounts.lookup key = some account →
      account.userId = u → key.1 = provider := by
    intro key account hacc hu
    by_contra hkey
    have hspared : threatened s u key.1 = false := by
      refine threatened_eq_false.mpr fun rid' job' hjob' => ?_
      by_contra hdel
      cases job' with
      | unlinkDelete v p =>
        obtain ⟨rfl, -⟩ := of_decide_eq_true ((Bool.not_eq_false _).mp hdel)
        have hne : rid' ≠ rid := by
          rintro rfl
          rw [hjob] at hjob'
          cases hjob'
        have htwo := Table.two_le_countWhere (p := fun _ j => Job.unlinks v j) hjob hjob' hne
          (decide_eq_true rfl) (decide_eq_true rfl)
        exact absurd (htwo.trans h.single) (by decide)
      | _ => exact hdel rfl
    rw [leavesMethod_iff.mpr ⟨key, account, hacc, hu, hkey, hspared⟩] at hleaves
    cases hleaves
  have heq : s.world.db.accountCount u = s.world.db.linkedCount u provider := by
    refine Table.countWhere_congr fun key account hmem => ?_
    have := hsame key account (Table.lookup_eq_some_iff.mpr hmem)
    by_cases hu : account.userId = u <;> simp [Db.isLink, hu, this]
  have := h.one u provider
  omega

theorem serial_unlinks_keep_method {as : List Step} (h : HasMethod w.db u)
    (hone : OneIdentityPerProvider w.db)
    (hr : Run (step st) (fun s a => serialGuard st u s a = true) (Sys.idle w) as t) :
    HasMethod t.world.db u :=
  (safe_run h (hr.mono_of_invariant (Serial u) ⟨Nat.zero_le 1, hone⟩
    (fun _ _ _ h hok hs => serial_step h hok hs) fun _ a h _ => unlinkGuard_of_serial h a)).hasMethod

/-- The request for Google comes after the one for GitHub, and is refused. -/
theorem serial_unlinks_keep_method_run : ∃ t,
    Run (step runServer) (fun s a => serialGuard runServer runUser s a = true)
      (Sys.idle twoIdentities)
      ([.arrive 0 (.unlinkPassword runUser "github"), .advance 0 0, .advance 0 0, .advance 0 0,
        .arrive 1 (.unlinkPassword runUser "google"), .advance 1 0, .advance 1 0]) t ∧
    t.jobs.keys = [] ∧ HasMethod t.world.db runUser := by
  obtain ⟨t, ht, hp⟩ := exists_run_of_exec (step runServer)
    (fun s a => serialGuard runServer runUser s a = true) (Sys.idle twoIdentities)
    [.arrive 0 (.unlinkPassword runUser "github"), .advance 0 0, .advance 0 0, .advance 0 0,
      .arrive 1 (.unlinkPassword runUser "google"), .advance 1 0, .advance 1 0]
    (fun t => t.jobs.keys = []) (by decide +kernel)
  exact ⟨t, ht, of_decide_eq_true hp,
    serial_unlinks_keep_method hasMethod_twoIdentities oneIdentity_twoIdentities ht⟩

end FreeBox.Server.OAuth
