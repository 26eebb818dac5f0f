import FreeBox.Server.ConcurrentLogin

/-!
# Concurrent logins converge

Logins with one identity may carry different addresses or none, read before the
others commit, and meet two `ON CONFLICT` clauses and a fallback. Whoever inserts
the identity first decides for all.

Results:
* `loginOutline`: what a login knows at each of its statements.
* `commit_possible`: a transaction that is still open can commit.
* `logins_converge`: all logins of one identity end at one user, and no other user is
  left behind.
-/

namespace FreeBox.Server.OAuth.Concurrent

open FreeBox.Lib Handlers

variable {maxDays : UInt32} {w w' : World} {pick : ℕ} {job job' : Job} {next : Next Job Answer}
  {tx : Tx} {c : Login} {u : Uuid} {key : String × String}

/-! ## What a login knows -/

/-- The transaction has made no write yet. -/
def Untouched (w : World) (tx : Tx) : Prop :=
  ∀ ws, w.store.opened.lookup tx.id = some ws → ws = []

/-- A user that the transaction has inserted satisfies `p`. -/
def InsertsOnly (w : World) (tx : Tx) (p : Uuid → Prop) : Prop :=
  ∀ ws v row, w.store.opened.lookup tx.id = some ws → .insertUser v row ∈ ws → p v

/-- The transaction links the identity to the user, unless it is so already. -/
def WillLink (w : World) (tx : Tx) (key : String × String) (u : Uuid) : Prop :=
  ∀ ws, w.store.opened.lookup tx.id = some ws → Links w.store.committed key u ∨
    ∃ account, .insertAccount key account ∈ ws ∧ account.userId = u

/-- What a login knows at its next statement. -/
def Knows (w : World) : Job → Prop
  | .linkSelect tx _ | .emailSelect tx _ | .upsert tx _ => Untouched w tx
  | .restore tx c m u .. | .audit tx c m u .. =>
    InsertsOnly w tx (fun _ => False) ∧ (m = .identity → Links w.store.committed c.identity u)
  | .refresh tx c u _ =>
    InsertsOnly w tx (fun _ => False) ∧ Links w.store.committed c.identity u
  | .link tx c u _ => InsertsOnly w tx fun v => v = u ∧ c.draws.userId = u
  | .commit tx c u _ =>
    InsertsOnly w tx (fun v => v = u ∧ c.draws.userId = u) ∧ WillLink w tx c.identity u
  | _ => True

theorem InsertsOnly.mono {p q : Uuid → Prop} (h : InsertsOnly w tx p) (hpq : ∀ v, p v → q v) :
    InsertsOnly w tx q :=
  fun ws v row hws hmem => hpq v (h ws v row hws hmem)

theorem Untouched.insertsOnly (h : Untouched w tx) (p : Uuid → Prop) : InsertsOnly w tx p := by
  intro ws v row hws hmem
  rw [h ws hws] at hmem
  cases hmem

/-- The transaction has made one more write. -/
theorem InsertsOnly.write {p : Uuid → Prop} {write : Write} {store : Store Db Write}
    (h : InsertsOnly w tx p) (hwrite : writes.write w.store tx.id write = .done store)
    (hnew : ∀ v row, write = .insertUser v row → p v) : InsertsOnly { w with store } tx p := by
  obtain ⟨-, ⟨ws₀, d, d', hws₀, -⟩, rfl⟩ := Writes.write_eq_done hwrite
  intro ws v row hws hmem
  rw [Table.lookup_modify, if_pos rfl, hws₀] at hws
  cases hws
  rcases List.mem_append.mp hmem with hold | hlast
  · exact h ws₀ v row hws₀ hold
  · exact hnew v row (List.mem_singleton.mp hlast).symm

/-- Nothing that others do takes this knowledge away. -/
theorem Knows.stable (h : Knows w job)
    (hlinks : ∀ key u, Links w.store.committed key u → Links w'.store.committed key u)
    (hopened : ∀ tx ws, job.tx? = some tx → w'.store.opened.lookup tx.id = some ws →
      w.store.opened.lookup tx.id = some ws) : Knows w' job := by
  have hinserts : ∀ tx p, job.tx? = some tx → InsertsOnly w tx p → InsertsOnly w' tx p :=
    fun tx p htx h ws v row hws => h ws v row (hopened tx ws htx hws)
  cases job with
  | linkSelect tx c | emailSelect tx c | upsert tx c => exact fun ws hws => h ws (hopened tx ws rfl hws)
  | restore tx c m u | audit tx c m u =>
    exact ⟨hinserts tx _ rfl h.1, fun hm => hlinks _ _ (h.2 hm)⟩
  | refresh tx c u => exact ⟨hinserts tx _ rfl h.1, hlinks _ _ h.2⟩
  | link tx c u => exact hinserts tx _ rfl h
  | commit tx c u =>
    exact ⟨hinserts tx _ rfl h.1,
      fun ws hws => (h.2 ws (hopened tx ws rfl hws)).imp_left (hlinks _ _)⟩
  | _ => trivial

/-- Each statement leads to what the next one needs to know. -/
theorem CallCase.knows (h : CallCase w job w' (.goto job')) (hjob : Knows w job) : Knows w' job' := by
  generalize hnext : Next.goto job' = next at h
  cases h with
  | began =>
    cases hnext
    intro ws hws
    rw [show ({ w with store := w.store.begin } : World).store.opened =
      w.store.opened.insert w.store.next [] from rfl, AList.lookup_insert] at hws
    exact (Option.some.inj hws).symm
  | failed | linkTaken | gaveUp => cases hnext; trivial
  | @identityFound tx c db u user _ hview hlink hjob' =>
    cases hnext
    obtain ⟨ws, hws, hall⟩ := Writes.view_eq_some.mp hview
    obtain rfl := hjob ws hws
    cases hall
    have hlinks : Links w.store.committed c.identity u := by
      obtain ⟨account, hacc, hu, -⟩ := Db.linkedUser_eq_some.mp hlink
      exact ⟨account, hacc, hu⟩
    obtain rfl | ⟨t, rfl⟩ := hjob'
    · exact ⟨Untouched.insertsOnly hjob _, hlinks⟩
    · exact ⟨Untouched.insertsOnly hjob _, fun _ => hlinks⟩
  | notLinked hjob' => cases hnext; obtain rfl | rfl := hjob' <;> exact hjob
  | emailFound hjob' =>
    cases hnext
    obtain rfl | ⟨t, rfl⟩ := hjob'
    · exact Untouched.insertsOnly hjob _
    · exact ⟨Untouched.insertsOnly hjob _, fun hm => by cases hm⟩
  | emailMissed => cases hnext; exact hjob
  | restored hwrite =>
    cases hnext
    refine ⟨hjob.1.write hwrite fun _ _ hw => (by cases hw), fun hm => ?_⟩
    exact (committed_write hwrite).symm ▸ hjob.2 hm
  | @audited tx c m u name t event store hwrite =>
    cases hnext
    have hinserts : InsertsOnly { w with store } tx fun _ => False :=
      hjob.1.write hwrite fun _ _ hw => by cases hw
    cases m with
    | identity => exact ⟨hinserts, (committed_write hwrite).symm ▸ hjob.2 rfl⟩
    | email => exact hinserts.mono fun _ hno => hno.elim
  | refreshed hwrite =>
    cases hnext
    refine ⟨(hjob.1.mono fun _ hno => hno.elim).write hwrite fun _ _ hw => (by cases hw), ?_⟩
    exact fun _ _ => .inl ((committed_write hwrite).symm ▸ hjob.2)
  | upsertedOld hwrite =>
    cases hnext
    exact (hjob.insertsOnly _).write hwrite fun _ _ hw => by cases hw
  | upsertedNew hwrite =>
    cases hnext
    refine (hjob.insertsOnly _).write hwrite fun v row hw => ?_
    cases hw
    exact ⟨rfl, rfl⟩
  | @linkInserted tx c u name store hwrite =>
    cases hnext
    refine ⟨InsertsOnly.write hjob hwrite fun _ _ hw => (by cases hw), fun ws hws => .inr ?_⟩
    obtain ⟨-, ⟨ws₀, d, d', hws₀, -⟩, rfl⟩ := Writes.write_eq_done hwrite
    rw [Table.lookup_modify, if_pos rfl, hws₀] at hws
    cases hws
    exact ⟨_, List.mem_append_right _ List.mem_cons_self, rfl⟩
  | committed | fetched | dropped => cases hnext

/-! ## Transactions and their logins -/

variable {s t : State} {a : Step} {rid : ℕ}

/-- No two logins share a transaction, and the next one will be new. -/
structure Owned (s : State) : Prop where
  below : ∀ rid job tx, s.jobs.lookup rid = some job → job.tx? = some tx →
    tx.id < s.world.store.next
  single : ∀ rid rid' job job' tx tx', s.jobs.lookup rid = some job →
    s.jobs.lookup rid' = some job' → job.tx? = some tx → job'.tx? = some tx' → tx.id = tx'.id →
    rid = rid'

theorem next_step (hs : step maxDays s a = some t) : s.world.store.next ≤ t.world.store.next := by
  cases step_cases hs with
  | advance hj hw => exact (advance_cases hw).next_le
  | @env e w hw => cases e <;> cases hw <;> exact le_rfl
  | _ => exact le_rfl

/-- A login that a failure leads on has kept its transaction. -/
theorem onFail_tx (h : onFail job = .goto job') (htx : job'.tx? = some tx) : job.tx? = some tx := by
  cases job with
  | begin | fetch | drop => cases h
  | giveUp => cases h; cases htx
  | _ => cases h; cases htx; rfl

theorem onFail_login (h : onFail job = .goto job') : job'.login = job.login := by
  cases job with
  | begin | fetch | drop => cases h
  | _ => cases h; rfl

/-- A login had its transaction before the step, or has just begun it. -/
theorem tx_origin (hs : step maxDays s a = some t) (hjob : t.jobs.lookup rid = some job)
    (htx : job.tx? = some tx) :
    (∃ job₀, s.jobs.lookup rid = some job₀ ∧ job₀.tx? = some tx) ∨
      (tx.id = s.world.store.next ∧ t.world.store.next = s.world.store.next + 1 ∧
        ∃ pick, a = .advance rid pick) := by
  cases job_origin hs hjob with
  | old hold => exact .inl ⟨job, hold, htx⟩
  | arrived hentry =>
    cases job with
    | begin => cases htx
    | _ => cases hentry
  | advanced hj hw =>
    rcases (advance_cases hw).tx_cases htx with hold | ⟨hid, hnext⟩
    · exact .inl ⟨_, hj, hold⟩
    · exact .inr ⟨hid, hnext, _, rfl⟩
  | failed hj hn => exact .inl ⟨_, hj, onFail_tx (Option.some.inj hn) htx⟩

theorem Owned.step (h : Owned s) (hs : Concurrent.step maxDays s a = some t) : Owned t := by
  constructor
  · intro rid job tx hjob htx
    rcases tx_origin hs hjob htx with ⟨job₀, hjob₀, htx₀⟩ | ⟨hid, hnext, -⟩
    · exact (h.below rid job₀ tx hjob₀ htx₀).trans_le (next_step hs)
    · omega
  · intro rid rid' job job' tx tx' hjob hjob' htx htx' hid
    rcases tx_origin hs hjob htx with ⟨job₀, hjob₀, htx₀⟩ | ⟨hnew, -, pick, ha⟩
    · rcases tx_origin hs hjob' htx' with ⟨job₀', hjob₀', htx₀'⟩ | ⟨hnew', -⟩
      · exact h.single rid rid' job₀ job₀' tx tx' hjob₀ hjob₀' htx₀ htx₀' hid
      · have := h.below rid job₀ tx hjob₀ htx₀
        omega
    · rcases tx_origin hs hjob' htx' with ⟨job₀', hjob₀', htx₀'⟩ | ⟨-, -, pick', ha'⟩
      · have := h.below rid' job₀' tx' hjob₀' htx₀'
        omega
      · rw [ha] at ha'
        cases ha'
        rfl

/-! ## Every run -/

/-- No transaction is open yet. -/
def World.start (now : Timestamp) (db : Db) : World := { now, store := .init db }

theorem owned_start {now : Timestamp} {db : Db} : Owned (Sys.idle (.start now db)) where
  below rid job tx hjob := by cases hjob
  single rid rid' job job' tx tx' hjob := by cases hjob

/-- Writes that clash wait, so a transaction that is still open can commit. -/
theorem sound_step (h : Writes.Sound writes s.world.store) (hs : step maxDays s a = some t) :
    Writes.Sound writes t.world.store := by
  cases step_cases hs with
  | advance hj hw =>
    cases advance_cases hw with
    | began => exact h.begin
    | restored hwrite | audited hwrite | refreshed hwrite | upsertedOld hwrite
    | upsertedNew hwrite | linkInserted hwrite => exact h.write discipline hwrite
    | committed hcommit => exact h.commit discipline hcommit
    | gaveUp | dropped => exact h.rollback _
    | _ => exact h
  | @env e w hw =>
    cases e with
    | tick d => cases hw; exact h
    | abort tx => cases hw; exact h.rollback tx
  | _ => exact h

theorem commit_possible {as : List Step} {now : Timestamp} {db : Db}
    (hr : Run (step maxDays) anyStep (Sys.idle (.start now db)) as s)
    (hopen : (s.world.store.opened.lookup tx.id).isSome = true) :
    (writes.commit s.world.store tx.id).isSome = true := by
  have hsound := hr.invariant (fun s => Writes.Sound writes s.world.store)
    (Writes.sound_init db) fun _ _ _ h _ hs => sound_step h hs
  exact hsound.commit_isSome hopen

/-- A user that is not there from the start is the user of an identity, and a login of
    this identity has drawn it. -/
def NewUsers (p : Login → Prop) (db : Db) (w : World) : Prop :=
  ∀ v, (w.store.committed.users.rows.lookup v).isSome = true →
    (db.users.rows.lookup v).isSome = true ∨
      ∃ c, p c ∧ c.draws.userId = v ∧ Links w.store.committed c.identity v

/-- A login satisfies `p` and knows what it needs to. -/
def Annotated (p : Login → Prop) (w : World) (job : Job) : Prop := p job.login ∧ Knows w job

/-- The guard of the runs: logins that arrive satisfy `p`. -/
def ArrivalsSatisfy (p : Login → Prop) (s : State) (a : Step) : Prop :=
  Owned s ∧ ∀ rid c, a = .arrive rid (.begin c) → p c

variable {p : Login → Prop} {db : Db}

theorem CallCase.newUsers (h : CallCase w job w' next) (hw : NewUsers p db w)
    (hjob : Annotated p w job) : NewUsers p db w' := by
  have hsame : w'.store.committed = w.store.committed → NewUsers p db w' := by
    intro he v hv
    rw [he] at hv ⊢
    exact hw v hv
  have hall : ∀ key u, Links w.store.committed key u → Links w'.store.committed key u :=
    fun _ _ => h.links
  cases h with
  | restored hwrite | audited hwrite | refreshed hwrite | upsertedOld hwrite | upsertedNew hwrite
  | linkInserted hwrite => exact hsame (committed_write hwrite)
  | @committed tx c u name store result hcommit =>
    obtain ⟨ws, d, hws, hcommitted, rfl⟩ := Writes.commit_eq_some hcommit
    intro v hv
    rcases user_of_applyAll hcommitted hv with hold | ⟨row, hmem⟩
    · exact (hw v hold).imp_right fun ⟨c', hc', hdraw, hlinks⟩ => ⟨c', hc', hdraw, hall _ _ hlinks⟩
    · obtain ⟨hp, hinserts, hlink⟩ := hjob
      obtain ⟨rfl, hdraw⟩ := hinserts ws v row hws hmem
      refine .inr ⟨c, hp, hdraw, ?_⟩
      rcases hlink ws hws with hlinks | ⟨account, hins, rfl⟩
      · exact hall _ _ hlinks
      · exact links_of_mem hins hcommitted
  | _ => exact hsame rfl

theorem loginOutline (p : Login → Prop) (db : Db) :
    (loginHandlers maxDays).ProofOutline (ArrivalsSatisfy p) (NewUsers p db) (Annotated p) where
  arrive s rid job h hok hentry := by
    cases job with
    | begin c => exact ⟨hok.2 rid c rfl, trivial⟩
    | _ => cases hentry
  advance s rid pick job w next h hok hjob hw := by
    have hcase := advance_cases hw
    have hknown := h.2 rid job hjob
    refine ⟨hcase.newUsers h.1 hknown, fun job' hnext => ?_⟩
    subst hnext
    refine ⟨?_, hcase.knows hknown.2⟩
    rw [hcase.login]
    exact hknown.1
  undisturbed s rid pick job w next rid' k h hok hjob hw hne hk := by
    have hcase := advance_cases hw
    have hknown := h.2 rid' k hk
    refine ⟨hknown.1, hknown.2.stable (fun key u => hcase.links) fun tx ws htx hws => ?_⟩
    rwa [hcase.opened (hok.1.below rid' k tx hk htx) fun tx' htx' hid =>
      hne (hok.1.single rid' rid k job tx tx' hk hjob htx htx' hid.symm)] at hws
  fail w pick job job' hw hjob hn := by
    have hfail := Option.some.inj hn
    refine ⟨by rw [onFail_login hfail]; exact hjob.1, ?_⟩
    cases job with
    | begin | fetch | drop => cases hfail
    | _ => cases hfail; trivial
  env s e w h hok hw := by
    cases e with
    | tick d => cases hw; exact ⟨h.1, fun job hjob => hjob⟩
    | abort tx =>
      cases hw
      refine ⟨h.1, fun job hjob => ⟨hjob.1, hjob.2.stable (fun _ _ hlinks => hlinks) ?_⟩⟩
      intro tx' ws _ hws
      have hws' : (s.world.store.opened.erase tx).lookup tx'.id = some ws := hws
      rw [Table.lookup_erase_eq] at hws'
      split_ifs at hws'
      exact hws'

/-! ## Results -/

/-- A call for `c` has returned this user. -/
def Returned (s : State) (c : Login) (u : Uuid) (name : String) : Prop :=
  ∃ job, (job, ⟨c, .ok (u, name)⟩) ∈ s.answers

/-- Every returned user is the one that the identity is linked to. -/
def ResultsLinked (s : State) : Prop :=
  ∀ c u name, Returned s c u name → Links s.world.store.committed c.identity u

theorem CallCase.answer {name : String} (h : CallCase w job w' (.done (some ⟨c, .ok (u, name)⟩)))
    (hjob : Knows w job) : Links w'.store.committed c.identity u := by
  generalize hnext : Next.done (some (⟨c, .ok (u, name)⟩ : Answer)) = next at h
  cases h with
  | committed hcommit hresult =>
    cases hnext
    cases hresult _ rfl
    obtain ⟨ws, d, hws, hcommitted, rfl⟩ := Writes.commit_eq_some hcommit
    rcases hjob.2 ws hws with hlinks | ⟨account, hmem, rfl⟩
    · exact hlinks.applyAll hcommitted
    · exact links_of_mem hmem hcommitted
  | fetched =>
    simp only [Next.done.injEq, Option.some.injEq, Answer.mk.injEq] at hnext
    obtain ⟨rfl, hfetch⟩ := hnext
    unfold fetchLinkedOAuthUser at hfetch
    split at hfetch
    · cases hfetch
    · next hfound =>
      cases hfetch
      obtain ⟨account, hacc, hu, -⟩ := Db.linkedUser_eq_some.mp (Option.filter_eq_some_iff.mp hfound).1
      exact ⟨account, hacc, hu⟩
  | dropped => cases hnext
  | _ => cases hnext

theorem links_step (hs : step maxDays s a = some t) (h : Links s.world.store.committed key u) :
    Links t.world.store.committed key u := by
  cases step_cases hs with
  | advance hj hw => exact (advance_cases hw).links h
  | @env e w hw => cases e <;> cases hw <;> exact h
  | _ => exact h

theorem onFail_error {ans : Answer} (h : onFail job = .done (some ans)) :
    ∃ e, ans.result = .error e := by
  cases job with
  | begin | fetch => cases h; exact ⟨_, rfl⟩
  | drop tx c e => cases h; exact ⟨e, rfl⟩
  | _ => cases h

theorem ResultsLinked.step (h : ResultsLinked s)
    (hknown : ∀ rid job, s.jobs.lookup rid = some job → Knows s.world job)
    (hs : Concurrent.step maxDays s a = some t) : ResultsLinked t := by
  intro c u name hreturned
  obtain ⟨job, hmem⟩ := hreturned
  have hold : (job, ⟨c, .ok (u, name)⟩) ∈ s.answers → Links t.world.store.committed c.identity u :=
    fun hmem => links_step hs (h c u name ⟨job, hmem⟩)
  cases step_cases hs with
  | @advance rid pick j w next hj hw =>
    rcases Sys.mem_answers_settle hmem with hmem | ⟨-, rfl⟩
    · exact hold hmem
    · exact (advance_cases hw).answer (hknown rid j hj)
  | fail hj hn =>
    rcases Sys.mem_answers_settle hmem with hmem | ⟨-, rfl⟩
    · exact hold hmem
    · obtain ⟨e, he⟩ := onFail_error (Option.some.inj hn)
      cases he
  | _ => exact hold hmem

/-- What holds in every state of a run whose logins satisfy `p`. -/
theorem converging {as : List Step} {now : Timestamp}
    (hr : Run (step maxDays) (ArrivalsSatisfy p) (Sys.idle (.start now db)) as s) :
    NewUsers p db s.world ∧ ResultsLinked s := by
  have hinv := hr.invariant (fun s => Holds (NewUsers p db) (Annotated p) s ∧ ResultsLinked s)
    ⟨holds_idle fun _ => .inl, by rintro c u name ⟨job, hmem⟩; cases hmem⟩ ?_
  · exact ⟨hinv.1.1, hinv.2⟩
  · rintro s a t ⟨hholds, hresults⟩ hok hs
    exact ⟨(loginOutline p db).preserves hholds hok hs,
      hresults.step (fun rid job hjob => (hholds.2 rid job hjob).2) hs⟩

/-- Logins converge. In every run of any number of logins, each with its own profile,
    statement by statement and in any order: what the calls for one identity return is
    one user, the user of the only row of the identity; no identity ever has two rows;
    and a user that is new is the one that its identity is linked to, by the login that
    has drawn it. -/
theorem logins_converge {as : List Step} {now : Timestamp}
    (hr : Run (step maxDays) anyStep (Sys.idle (.start now db)) as s) :
    (∀ c u name, Returned s c u name → Links s.world.store.committed c.identity u ∧
      Table.countWhere (fun key _ => key = c.identity) s.world.store.committed.accounts = 1) ∧
    (∀ c c' u u' name name', Returned s c u name → Returned s c' u' name' →
      c.identity = c'.identity → u = u') ∧
    (∀ key, Table.countWhere (fun key' _ => key' = key) s.world.store.committed.accounts ≤ 1) ∧
    ∀ v, (s.world.store.committed.users.rows.lookup v).isSome = true →
      (db.users.rows.lookup v).isSome = true ∨ ∃ rid c, .arrive rid (.begin c) ∈ as ∧
        c.draws.userId = v ∧ Links s.world.store.committed c.identity v := by
  have hguarded : Run (step maxDays) (ArrivalsSatisfy fun c => ∃ rid, .arrive rid (.begin c) ∈ as)
      (Sys.idle (.start now db)) as s := by
    refine (hr.restrict fun _ ha => ha).mono_of_invariant Owned owned_start
      (fun _ _ _ h _ hs => h.step hs) fun s a howned ha => ⟨howned, fun rid c harrive => ?_⟩
    exact ⟨rid, harrive ▸ ha.2⟩
  obtain ⟨hnew, hlinked⟩ := converging hguarded
  refine ⟨fun c u name h => ⟨hlinked c u name h, ?_⟩, fun c c' u u' name name' h h' hid => ?_,
    fun key => Table.countWhere_key_le key _, fun v hv => (hnew v hv).imp_right ?_⟩
  · obtain ⟨account, hacc, -⟩ := hlinked c u name h
    exact Table.countWhere_key hacc
  · have hlink := hlinked c u name h
    rw [hid] at hlink
    exact hlink.functional (hlinked c' u' name' h')
  · rintro ⟨c, ⟨rid, harrive⟩, hdraw, hlinks⟩
    exact ⟨rid, c, harrive, hdraw, hlinks⟩

/-! ### Two first logins -/

/-- A first login with one GitHub identity. -/
def runLogin (n : BitVec 128) (email : Option String) : Login where
  provider := "github"
  profile := { providerUserId := "583231", email, username := none, avatarUrl := none }
  draws := { userId := ⟨n⟩, usernameTag := ⟨n <<< 96⟩, emailTag := ⟨n⟩, token := (⟨n⟩, ⟨n⟩) }

def runFirst : Login := runLogin 1 (some "alice@example.com")

/-- The requests 0 and 1 arrive, and make their statements in this order. -/
def runLogins (second : Login) (order : List ℕ) : List Step :=
  [.arrive 0 (.begin runFirst), .arrive 1 (.begin second)] ++
    order.map fun rid => .advance rid 0

/-- The user that a call for the login has returned. -/
def result? (s : State) (c : Login) : Option (Uuid × String) :=
  s.answers.findSome? fun (_, ans) =>
    match ans.result with
    | .ok found => if ans.login = c then some found else none
    | .error _ => none

theorem returned_of_result? {name : String} (h : result? s c = some (u, name)) :
    Returned s c u name := by
  obtain ⟨⟨job, ans⟩, hmem, hfound⟩ := List.exists_of_findSome?_eq_some h
  obtain ⟨login, result⟩ := ans
  cases result with
  | error => cases hfound
  | ok found =>
    simp only [Option.ite_none_right_eq_some, Option.some.injEq] at hfound
    obtain ⟨rfl, rfl⟩ := hfound
    exact ⟨job, hmem⟩

/-- Both have created a user, with an address and without, when the first links the
    identity; the second waits, gives up its user and returns the other one. -/
theorem logins_converge_run : ∃ s, Run (step 30) anyStep (Sys.idle (.start 0 .empty))
      (runLogins (runLogin 2 none) [0, 1, 0, 1, 0, 1, 0, 0, 0, 1, 1, 1]) s ∧
    ∃ u name, Returned s runFirst u name ∧ Returned s (runLogin 2 none) u name ∧
      Links s.world.store.committed runFirst.identity u := by
  obtain ⟨s, hr, hs⟩ := exists_run_of_exec (step 30) anyStep (Sys.idle (.start 0 .empty))
    (runLogins (runLogin 2 none) [0, 1, 0, 1, 0, 1, 0, 0, 0, 1, 1, 1])
    (fun s => (result? s runFirst).isSome ∧ result? s (runLogin 2 none) = result? s runFirst)
    (by decide +kernel)
  obtain ⟨hsome, hsame⟩ := of_decide_eq_true hs
  obtain ⟨⟨u, name⟩, hfirst⟩ := Option.isSome_iff_exists.mp hsome
  have hreturned := returned_of_result? hfirst
  exact ⟨s, hr, u, name, hreturned, returned_of_result? (hsame.trans hfirst),
    ((logins_converge hr).1 runFirst u name hreturned).1⟩

/-- A user with the address of the logins, deleted at time 0. -/
def runDeleted : Db :=
  (Db.empty.insertUser ⟨7⟩
    { username := "alice", email := "alice@example.com", passwordHash := some "hash",
      argon2Salt := some "salt", createdAt := 0, deletedAt := some 0 }).getD .empty

/-- Two logins with the address of a user that was deleted 31 days ago are both refused,
    and the identity has no row. -/
theorem refused_logins : ∃ s, Run (step 30) anyStep (Sys.idle (.start (days 31) runDeleted))
      (runLogins (runLogin 2 (some "alice@example.com")) [0, 1, 0, 1, 0, 1, 0, 1]) s ∧
    s.jobs.keys = [] ∧ s.answers.length = 2 ∧
    Table.countWhere (fun key _ => key = runFirst.identity) s.world.store.committed.accounts ≠ 1 := by
  obtain ⟨s, hr, hs⟩ := exists_run_of_exec (step 30) anyStep
    (Sys.idle (.start (days 31) runDeleted))
    (runLogins (runLogin 2 (some "alice@example.com")) [0, 1, 0, 1, 0, 1, 0, 1])
    (fun s => s.jobs.keys = [] ∧ s.answers.length = 2 ∧
      Table.countWhere (fun key _ => key = runFirst.identity) s.world.store.committed.accounts ≠ 1)
    (by decide +kernel)
  exact ⟨s, hr, of_decide_eq_true hs⟩

end FreeBox.Server.OAuth.Concurrent
