import FreeBox.Server.KeyServer

/-!
# The supply of one-time prekeys

`get_bundle` hands out the stored bundle as it is, and `replenish_one_time` appends
to the stored one-time prekeys without looking at them.

Results:
* `lookup_handle`: what one request does to a stored bundle.
* `supplyOf_stateAfter`: the stored one-time prekeys are all that were uploaded.
* `mem_fetchedBundles`: a response carries the supply at the time of its request.
* `one_time_iff`: in which runs one-time prekeys are handed out once.
* `storedValid_handle_iff`, `stored_valid_iff`: which requests keep stored bundles
  valid, and in which runs they stay valid.
-/

namespace FreeBox.Server.KeyServer

open FreeBox.Lib FreeBox.Crypto

variable {st : AppState} {w : World} {c : Call} {u : Uuid} {calls : List Call} {row : BundleRow}

/-! ## What the requests of a run upload and hand out -/

/-- The stored one-time prekeys of a user. -/
def supplyOf (w : World) (u : Uuid) : List OneTimePrekey :=
  ((w.bundles.lookup u).map fun row => row.bundle.oneTimePrekeys).getD []

theorem supplyOf_eq (hrow : w.bundles.lookup u = some row) :
    supplyOf w u = row.bundle.oneTimePrekeys := by
  rw [supplyOf, hrow]
  rfl

/-- The one-time prekeys that an accepted request adds to those of a user. -/
def uploaded (u : Uuid) (e : Call × Response) : List OneTimePrekey :=
  match e.1.request, e.2 with
  | .replenishOneTime claims keys, .noContent => if claims.sub = u then keys else []
  | _, _ => []

/-- The bundle of a user that a response carries. -/
def fetched (u : Uuid) (e : Call × Response) : Option PrekeyBundle :=
  match e.1.request, e.2 with
  | .getBundle _ v, .bundle b => if v = u then some b else none
  | _, _ => none

/-- The bundles of a user that were sent in a run. -/
def fetchedBundles (u : Uuid) (log : List (Call × Response)) : List PrekeyBundle :=
  log.filterMap (fetched u)

theorem fetchedBundles_concat (u : Uuid) (log : List (Call × Response)) (e : Call × Response) :
    fetchedBundles u (log ++ [e]) = fetchedBundles u log ++ (fetched u e).toList := by
  rw [fetchedBundles, List.filterMap_append]
  cases h : fetched u e <;> simp [h, fetchedBundles]

/-- The request is one for the bundle of `u` that reaches the database. -/
def Call.Fetches (c : Call) (u : Uuid) : Prop :=
  (∃ claims, c.request = .getBundle claims u) ∧ c.dbFails = false

theorem uploaded_error (u : Uuid) (c : Call) (e : AppError) : uploaded u (c, .error e) = [] := by
  rw [uploaded]
  cases c.request <;> rfl

theorem fetched_error (u : Uuid) (c : Call) (e : AppError) : fetched u (c, .error e) = none := by
  rw [fetched]
  cases c.request <;> rfl

/-- What one request does to a stored bundle. -/
theorem lookup_handle (st : AppState) (c : Call) (hrow : w.bundles.lookup u = some row) :
    ∃ row', (handle st w c).1.bundles.lookup u = some row' ∧
      row'.bundle = { row.bundle with oneTimePrekeys :=
        row.bundle.oneTimePrekeys ++ uploaded u (c, (handle st w c).2) } := by
  have hcase := handle_cases st w c
  generalize (handle st w c).1 = w', (handle st w c).2 = response at hcase ⊢
  cases hcase with
  | registered hreq hvalid hnew hbundles =>
    rw [hbundles, Table.lookup_insert_eq]
    split_ifs with hu
    · rw [← hu, hrow] at hnew
      cases hnew
    · exact ⟨row, hrow, by simp [uploaded, hreq]⟩
  | fetched hreq hdb hfound hbundles =>
    exact ⟨row, hbundles ▸ hrow, by simp [uploaded, hreq]⟩
  | @replenished claims keys w' hreq hdb hvalid hbundles =>
    rw [hbundles, Table.lookup_modify]
    by_cases hu : u = claims.sub
    · subst hu
      rw [if_pos rfl, hrow]
      exact ⟨_, rfl, by simp [uploaded, hreq, BundleRow.append]⟩
    · rw [if_neg hu]
      exact ⟨row, hrow, by simp [uploaded, hreq, Ne.symm hu]⟩
  | rejected hbundles =>
    refine ⟨row, hbundles ▸ hrow, ?_⟩
    rw [uploaded_error, List.append_nil]

/-- Everything that was uploaded is stored, and nothing else. -/
theorem lookup_stateAfter (st : AppState) (hrow : w.bundles.lookup u = some row)
    (calls : List Call) :
    ∃ row', (stateAfter (handle st) w calls).bundles.lookup u = some row' ∧
      row'.bundle = { row.bundle with oneTimePrekeys :=
        row.bundle.oneTimePrekeys ++ (trace (handle st) w calls).flatMap (uploaded u) } := by
  refine @history_invariant _ _ _ (handle st) w calls
    (fun log w' => ∃ row', w'.bundles.lookup u = some row' ∧
      row'.bundle = { row.bundle with oneTimePrekeys :=
        row.bundle.oneTimePrekeys ++ log.flatMap (uploaded u) }) (fun _ _ => True) ?_ ?_ ?_
  · exact ⟨row, hrow, by simp⟩
  · rintro before w' c ⟨row', hrow', hbundle'⟩ -
    obtain ⟨row'', hrow'', hbundle''⟩ := lookup_handle st c hrow'
    exact ⟨row'', hrow'', by rw [hbundle'', hbundle']; simp⟩
  · exact fun _ _ _ _ => trivial

theorem supplyOf_stateAfter (hrow : w.bundles.lookup u = some row) (calls : List Call) :
    supplyOf (stateAfter (handle st) w calls) u =
      row.bundle.oneTimePrekeys ++ (trace (handle st) w calls).flatMap (uploaded u) := by
  obtain ⟨row', hrow', hbundle'⟩ := lookup_stateAfter st hrow calls
  rw [supplyOf_eq hrow', hbundle']

/-- The supply only grows. -/
theorem supplyOf_prefix (st : AppState) (hrow : w.bundles.lookup u = some row)
    (before rest : List Call) :
    supplyOf (stateAfter (handle st) w before) u <+:
      supplyOf (stateAfter (handle st) w (before ++ rest)) u := by
  rw [supplyOf_stateAfter hrow, supplyOf_stateAfter hrow, trace_append, List.flatMap_append,
    ← List.append_assoc]
  exact List.prefix_append _ _

/-- A response carries the whole stored bundle. -/
theorem fetched_handle {b : PrekeyBundle} : fetched u (c, (handle st w c).2) = some b ↔
    c.Fetches u ∧ ∃ row, w.bundles.lookup u = some row ∧ row.bundle = b := by
  constructor
  · intro h
    have hcase := handle_cases st w c
    generalize (handle st w c).1 = w', (handle st w c).2 = response at hcase h
    cases hcase with
    | registered hreq | replenished hreq => simp [fetched, hreq] at h
    | @fetched claims v row _ hreq hdb hrow =>
      simp only [fetched, hreq, Option.ite_none_right_eq_some, Option.some_inj] at h
      obtain ⟨rfl, hb⟩ := h
      exact ⟨⟨⟨claims, hreq⟩, hdb⟩, row, hrow, hb⟩
    | rejected => rw [fetched_error] at h; cases h
  · rintro ⟨⟨⟨claims, hreq⟩, hdb⟩, row, hrow, rfl⟩
    simp [fetched, hreq, handle_getBundle hreq hdb hrow]

/-- The bundles sent in a run are those stored at the requests for them. -/
theorem mem_fetchedBundles {b : PrekeyBundle} : b ∈ fetchedBundles u (trace (handle st) w calls) ↔
    ∃ before c rest, calls = before ++ c :: rest ∧ c.Fetches u ∧
      ∃ row, (stateAfter (handle st) w before).bundles.lookup u = some row ∧ row.bundle = b := by
  simp only [fetchedBundles, List.mem_filterMap, Prod.exists, mem_trace]
  constructor
  · rintro ⟨c, response, ⟨before, rest, hcalls, rfl⟩, hb⟩
    exact ⟨before, c, rest, hcalls, fetched_handle.mp hb⟩
  · rintro ⟨before, c, rest, hcalls, hb⟩
    exact ⟨c, _, ⟨before, rest, hcalls, rfl⟩, fetched_handle.mpr hb⟩

/-! ## Handing out once -/

/-- What is promised of the one-time prekeys of a user, with those that were uploaded
    before the run and the history of the run. -/
structure OneTime (u : Uuid) (initial : List OneTimePrekey) (log : List (Call × Response)) :
    Prop where
  /-- A response carries at most one. -/
  single : ∀ b ∈ fetchedBundles u log, b.oneTimePrekeys.length ≤ 1
  /-- One that was uploaded once is in at most one response. -/
  once : ∀ key, (initial ++ log.flatMap (uploaded u)).count key = 1 →
    (fetchedBundles u log).countP (fun b => key ∈ b.oneTimePrekeys) ≤ 1
  /-- `x3dh_initiate` does not take the same one from two responses. -/
  sessions : (fetchedBundles u log).Pairwise fun b b' => ∀ key,
    (initial ++ log.flatMap (uploaded u)).count key = 1 →
      b.firstOneTimePrekey = some key → b'.firstOneTimePrekey ≠ some key

/-- At a request after `before` the supply is empty, or it is a single key and was
    empty at every request before. -/
def SingleFetch (st : AppState) (w : World) (u : Uuid) (before : List Call) : Prop :=
  supplyOf (stateAfter (handle st) w before) u = [] ∨
    (supplyOf (stateAfter (handle st) w before) u).length = 1 ∧
      ∀ earlier d rest, before = earlier ++ d :: rest → d.Fetches u →
        supplyOf (stateAfter (handle st) w earlier) u = []

/-- Elements of which no two satisfy `p`. -/
theorem countP_le_one {α : Type} {p : α → Bool} {l : List α}
    (h : l.Pairwise fun a b => p a = true → p b = false) : l.countP p ≤ 1 := by
  induction l with
  | nil => exact Nat.zero_le 1
  | cons a l ih =>
    obtain ⟨hhead, htail⟩ := List.pairwise_cons.mp h
    rw [List.countP_cons]
    split_ifs with ha
    · have hzero : l.countP p = 0 := by
        rw [List.countP_eq_zero]
        intro b hb hpb
        rw [hhead b hb ha] at hpb
        cases hpb
      omega
    · exact ih htail

/-- With one key at most in all responses taken together nothing is handed out twice. -/
theorem OneTime.of_pairwise {initial : List OneTimePrekey} {log : List (Call × Response)}
    (hsingle : ∀ b ∈ fetchedBundles u log, b.oneTimePrekeys.length ≤ 1)
    (hpair : (fetchedBundles u log).Pairwise fun b b' =>
      b.oneTimePrekeys = [] ∨ b'.oneTimePrekeys = []) : OneTime u initial log where
  single := hsingle
  once key _ := by
    refine countP_le_one (hpair.imp fun {b b'} hnil hb => ?_)
    rcases hnil with hnil | hnil
    · rw [hnil] at hb; cases of_decide_eq_true hb
    · rw [hnil]; rfl
  sessions := hpair.imp fun hnil key _ hb hb' => by
    rw [PrekeyBundle.firstOneTimePrekey] at hb hb'
    rcases hnil with hnil | hnil
    · rw [hnil] at hb; cases hb
    · rw [hnil] at hb'; cases hb'

/-- A run whose requests for the bundle of `u` meet the condition hands out one key. -/
theorem pairwise_fetchedBundles
    (hok : ∀ before c rest, calls = before ++ c :: rest → c.Fetches u →
      SingleFetch st w u before) :
    (∀ b ∈ fetchedBundles u (trace (handle st) w calls), b.oneTimePrekeys.length ≤ 1) ∧
      (fetchedBundles u (trace (handle st) w calls)).Pairwise fun b b' =>
        b.oneTimePrekeys = [] ∨ b'.oneTimePrekeys = [] := by
  induction calls using List.reverseRecOn with
  | nil => exact ⟨by simp [fetchedBundles], List.Pairwise.nil⟩
  | append_singleton calls c ih =>
    obtain ⟨hsingle, hpair⟩ := ih fun before d rest hcalls =>
      hok before d (rest ++ [c]) (by rw [hcalls]; simp)
    rw [trace_concat, fetchedBundles_concat]
    cases hfetch : fetched u (c, (handle st (stateAfter (handle st) w calls) c).2) with
    | none =>
      rw [Option.toList_none, List.append_nil]
      exact ⟨hsingle, hpair⟩
    | some b =>
      obtain ⟨hc, row', hrow', rfl⟩ := fetched_handle.mp hfetch
      have hcond := hok calls c [] rfl hc
      rw [SingleFetch, supplyOf_eq hrow'] at hcond
      rw [Option.toList_some]
      constructor
      · intro b hb
        rcases List.mem_append.mp hb with hb | hb
        · exact hsingle b hb
        · obtain rfl := List.mem_singleton.mp hb
          rcases hcond with hnil | ⟨hone, -⟩
          · rw [hnil]; exact Nat.zero_le 1
          · exact hone.le
      · refine List.pairwise_append.mpr ⟨hpair, List.pairwise_singleton _ _, fun b hb b' hb' => ?_⟩
        obtain rfl := List.mem_singleton.mp hb'
        rcases hcond with hnil | ⟨-, hearlier⟩
        · exact .inr hnil
        · -- what was sent before was empty
          obtain ⟨before, d, rest, hcalls, hd, row'', hrow'', rfl⟩ := mem_fetchedBundles.mp hb
          have hempty := hearlier before d rest hcalls hd
          rw [supplyOf_eq hrow''] at hempty
          exact .inl hempty

/-- If a run hands out one-time prekeys once, up to a request for the bundle, then this
    request meets the condition. -/
theorem singleFetch_of_oneTime (hrow : w.bundles.lookup u = some row) (hc : c.Fetches u)
    (honce : OneTime u row.bundle.oneTimePrekeys (trace (handle st) w (calls ++ [c]))) :
    SingleFetch st w u calls := by
  obtain ⟨row', hrow', -⟩ := lookup_stateAfter st hrow calls
  have hsupply := supplyOf_eq hrow'
  have hfetch : fetched u (c, (handle st (stateAfter (handle st) w calls) c).2) =
      some row'.bundle := fetched_handle.mpr ⟨hc, row', hrow', rfl⟩
  have hsent : fetchedBundles u (trace (handle st) w (calls ++ [c])) =
      fetchedBundles u (trace (handle st) w calls) ++ [row'.bundle] := by
    rw [trace_concat, fetchedBundles_concat, hfetch, Option.toList_some]
  have hlen := honce.single row'.bundle (by rw [hsent]; simp)
  rw [SingleFetch, hsupply]
  by_cases hnil : row'.bundle.oneTimePrekeys = []
  · exact .inl hnil
  obtain ⟨key, hkey⟩ : ∃ key, row'.bundle.oneTimePrekeys = [key] := by
    have hpos := List.length_pos_iff.mpr hnil
    exact List.length_eq_one_iff.mp (by omega)
  refine .inr ⟨by rw [hkey]; rfl, fun earlier d rest hcalls hd => ?_⟩
  -- a supply that was not empty then held the same key, which two responses carry now
  by_contra hne
  obtain ⟨row'', hrow'', -⟩ := lookup_stateAfter st hrow earlier
  have hsame : row''.bundle.oneTimePrekeys = [key] := by
    have hpre := supplyOf_prefix st hrow earlier (d :: rest)
    rw [← hcalls, hsupply, hkey, supplyOf_eq hrow''] at hpre
    rw [supplyOf_eq hrow''] at hne
    obtain ⟨tail, htail, hrest⟩ := (List.prefix_cons_iff.mp hpre).resolve_left hne
    rw [htail, List.prefix_nil.mp hrest]
  have hmem : row''.bundle ∈ fetchedBundles u (trace (handle st) w calls) :=
    mem_fetchedBundles.mpr ⟨earlier, d, rest, hcalls, hd, row'', hrow'', rfl⟩
  have hpos : 0 < (fetchedBundles u (trace (handle st) w calls)).countP
      (fun b => key ∈ b.oneTimePrekeys) :=
    List.countP_pos_iff.mpr ⟨_, hmem, by simp [hsame]⟩
  have hcount : (row.bundle.oneTimePrekeys ++
      (trace (handle st) w (calls ++ [c])).flatMap (uploaded u)).count key = 1 := by
    have hquiet : uploaded u (c, (handle st (stateAfter (handle st) w calls) c).2) = [] := by
      obtain ⟨⟨claims, hreq⟩, -⟩ := hc
      simp [uploaded, hreq]
    rw [trace_concat, List.flatMap_append, List.flatMap_singleton, hquiet, List.append_nil,
      ← supplyOf_stateAfter hrow, hsupply, hkey]
    exact List.count_singleton_self
  have hle := honce.once key hcount
  rw [hsent, List.countP_append, List.countP_singleton, hkey] at hle
  simp only [List.mem_singleton, decide_true, if_true] at hle
  omega

/-- One-time prekeys are handed out once in every state of a run exactly when at each
    request for the bundle the supply is empty, or is a single key and was empty at
    every request before. -/
theorem one_time_iff (st : AppState) (w : World) (u : Uuid) (row : BundleRow)
    (hrow : w.bundles.lookup u = some row) (calls : List Call) :
    (∀ before rest, calls = before ++ rest →
        OneTime u row.bundle.oneTimePrekeys (trace (handle st) w before)) ↔
      ∀ before c rest, calls = before ++ c :: rest → c.Fetches u → SingleFetch st w u before := by
  constructor
  · intro hall before c rest hcalls hc
    exact singleFetch_of_oneTime hrow hc (hall (before ++ [c]) rest (by rw [hcalls]; simp))
  · intro hok before rest hcalls
    have hbefore : ∀ b d r, before = b ++ d :: r → d.Fetches u → SingleFetch st w u b :=
      fun b d r hb hd => hok b d (r ++ rest) (by rw [hcalls, hb]; simp) hd
    obtain ⟨hsingle, hpair⟩ := pairwise_fetchedBundles hbefore
    exact .of_pairwise hsingle hpair

/-- The user sends a new one-time prekey with this id. -/
def runReplenish (id : UInt32) : Call where
  request := .replenishOneTime { sub := runUser, username := "alice", exp := 900, iat := 0 }
    [⟨id, Vector.replicate 32 9⟩]
  now := 2
  dbFails := false

theorem lookup_runWorld_zero :
    (runWorld 0).bundles.lookup runUser = some ⟨runBundle 0, 0⟩ := by
  decide +kernel

theorem lookup_runWorld : (runWorld 1).bundles.lookup runUser = some ⟨runBundle 1, 0⟩ := by
  decide +kernel

/-- A peer finds the supply empty, the user sends a one-time prekey, and another peer is
    given it. -/
def runSupply : List Call := [runFetch 7, runReplenish 0, runFetch 8]

theorem one_time_iff_run :
    (fetchedBundles runUser (trace (handle runServer) (runWorld 0) runSupply)).map
        PrekeyBundle.firstOneTimePrekey = [none, some ⟨0, Vector.replicate 32 9⟩] ∧
      OneTime runUser (runBundle 0).oneTimePrekeys
        (trace (handle runServer) (runWorld 0) runSupply) := by
  refine ⟨by decide +kernel, (one_time_iff runServer (runWorld 0) runUser ⟨runBundle 0, 0⟩
    lookup_runWorld_zero runSupply).mpr (fun before c rest hcalls _ => ?_) runSupply [] rfl⟩
  have hempty : ∀ earlier, earlier = [] ∨ earlier = [runFetch 7] →
      supplyOf (stateAfter (handle runServer) (runWorld 0) earlier) runUser = [] := by
    rintro _ (rfl | rfl) <;> decide +kernel
  match before, hcalls with
  | [], _ => exact .inl (hempty _ (.inl rfl))
  | [_], rfl => exact .inl (hempty _ (.inr rfl))
  | [_, _], rfl =>
    refine .inr ⟨by decide +kernel, fun earlier d later hbefore _ => hempty _ ?_⟩
    match earlier, hbefore with
    | [], _ => exact .inl rfl
    | [_], rfl => exact .inr rfl
    | _ :: _ :: _, h => simp at h
  | _ :: _ :: _ :: _, h => simp [runSupply] at h

/-- Two peers are given the same one-time prekey, which was uploaded once. -/
theorem one_time_twice :
    (runWorld 1).bundles.lookup runUser = some ⟨runBundle 1, 0⟩ ∧
    (fetchedBundles runUser (trace (handle runServer) (runWorld 1) [runFetch 7, runFetch 8])).map
      PrekeyBundle.firstOneTimePrekey = [some ⟨0, bytewise.publicKey (Vector.replicate 32 5)⟩,
        some ⟨0, bytewise.publicKey (Vector.replicate 32 5)⟩] ∧
    ¬ OneTime runUser (runBundle 1).oneTimePrekeys
      (trace (handle runServer) (runWorld 1) [runFetch 7, runFetch 8]) := by
  refine ⟨lookup_runWorld, by decide +kernel, fun h => ?_⟩
  have hcount := h.once ⟨0, bytewise.publicKey (Vector.replicate 32 5)⟩ (by decide +kernel)
  revert hcount
  decide +kernel

/-! ## Valid bundles -/

/-- The stored bundles pass `validate_public`. -/
def StoredValid (st : AppState) (w : World) : Prop :=
  ∀ u row, w.bundles.lookup u = some row → row.bundle.validatePublic st.ed25519 = .ok ()

/-- If the request is a batch that is accepted, then its ids are not stored yet, and
    the supply with it is not larger than a bundle may be. -/
def Call.Fits (c : Call) (w : World) : Prop :=
  ∀ claims keys row, c.request = .replenishOneTime claims keys → c.dbFails = false →
    validateOneTimePrekeyBatch keys = .ok () → w.bundles.lookup claims.sub = some row →
      (row.bundle.oneTimePrekeys.map OneTimePrekey.id).Disjoint (keys.map OneTimePrekey.id) ∧
        row.bundle.oneTimePrekeys.length + keys.length ≤ maxOneTimePrekeys

/-- One request keeps the stored bundles valid exactly when its batch fits. -/
theorem storedValid_handle_iff (h : StoredValid st w) (c : Call) :
    StoredValid st (handle st w c).1 ↔ c.Fits w := by
  constructor
  · intro hafter claims keys row hreq hdb hbatch hrow
    have hvalid := validateOneTimePrekeyBatch_eq_ok.mp hbatch
    have hrow' : (handle st w c).1.bundles.lookup claims.sub = some (row.append keys c.now) := by
      rw [(handle_replenishOneTime hreq hdb hvalid).2, Table.lookup_modify, if_pos rfl, hrow]
      rfl
    exact (PrekeyBundle.validatePublic_append_iff (h _ row hrow) hvalid.keys).mp
      (hafter _ _ hrow')
  · intro hfits
    have hcase := handle_cases st w c
    generalize (handle st w c).1 = w', (handle st w c).2 = response at hcase
    cases hcase with
    | registered hreq hvalid hnew hbundles =>
      intro u row hrow
      rw [hbundles, Table.lookup_insert_eq] at hrow
      split_ifs at hrow
      · cases hrow; exact hvalid
      · exact h u row hrow
    | @replenished claims keys _ hreq hdb hvalid hbundles =>
      intro u row hrow
      rw [hbundles, Table.lookup_modify] at hrow
      split_ifs at hrow
      · obtain ⟨row₀, hrow₀, rfl⟩ := Option.map_eq_some_iff.mp hrow
        have hbatch := validateOneTimePrekeyBatch_eq_ok.mpr hvalid
        exact (PrekeyBundle.validatePublic_append_iff (h _ row₀ hrow₀) hvalid.keys).mpr
          (hfits claims keys row₀ hreq hdb hbatch hrow₀)
      · exact h u row hrow
    | fetched _ _ _ hbundles | rejected hbundles =>
      intro u row hrow
      rw [hbundles] at hrow
      exact h u row hrow

/-- The stored bundles are valid in every state of a run exactly when every accepted
    batch fits: its ids are new for the whole supply and the supply does not exceed the
    maximum. -/
theorem stored_valid_iff (st : AppState) (w : World) (hw : StoredValid st w)
    (calls : List Call) :
    (∀ before rest, calls = before ++ rest → StoredValid st (stateAfter (handle st) w before)) ↔
      ∀ before c rest, calls = before ++ c :: rest →
        c.Fits (stateAfter (handle st) w before) := by
  constructor
  · intro hall before c rest hcalls
    have hafter := hall (before ++ [c]) rest (by rw [hcalls]; simp)
    rw [stateAfter_concat] at hafter
    exact (storedValid_handle_iff (hall before (c :: rest) hcalls) c).mp hafter
  · intro hfits before
    induction before using List.reverseRecOn with
    | nil => exact fun _ _ => hw
    | append_singleton before c ih =>
      intro rest hcalls
      rw [List.append_assoc, List.singleton_append] at hcalls
      rw [stateAfter_concat]
      exact (storedValid_handle_iff (ih (c :: rest) hcalls) c).mpr (hfits before c rest hcalls)

theorem storedValid_runWorld (n : UInt32) : StoredValid runServer (runWorld n) := by
  have hstart : StoredValid runServer runStart := fun u row h => by simp [runStart] at h
  exact (storedValid_handle_iff hstart (runRegister n)).mpr fun _ _ _ hreq => nomatch hreq

/-- After the id 0 of the registration a batch with the id 1 fits. -/
theorem stored_valid_iff_run :
    StoredValid runServer (stateAfter (handle runServer) (runWorld 1) [runReplenish 1]) := by
  refine (stored_valid_iff runServer (runWorld 1) (storedValid_runWorld 1) [runReplenish 1]).mpr
    (fun before c rest hcalls => ?_) [runReplenish 1] [] rfl
  obtain ⟨rfl, h⟩ | ⟨-, hnil⟩ := List.singleton_eq_append_iff.mp hcalls
  · cases h
    intro claims keys row hreq _ _ hrow
    cases hreq
    rw [show (stateAfter (handle runServer) (runWorld 1) []).bundles.lookup runUser =
      some ⟨runBundle 1, 0⟩ from lookup_runWorld] at hrow
    cases hrow
    exact ⟨List.disjoint_singleton.mpr (by decide +kernel), by decide +kernel⟩
  · cases hnil

/-- A batch that numbers its keys from 0 again is accepted, and the stored bundle does
    not pass `validate_public` any more. -/
theorem stored_valid_lost : StoredValid runServer (runWorld 1) ∧
    (handle runServer (runWorld 1) (runReplenish 0)).2 = .noContent ∧
    ((handle runServer (runWorld 1) (runReplenish 0)).1.bundles.lookup runUser).map
      (fun row => row.bundle.validatePublic runServer.ed25519) =
        some (.error "duplicate one-time prekey id 0") := by
  have hbatch : ValidBatch [(⟨0, Vector.replicate 32 9⟩ : OneTimePrekey)] :=
    validateOneTimePrekeyBatch_eq_ok.mp (by decide +kernel)
  obtain ⟨hresponse, hbundles⟩ := handle_replenishOneTime (c := runReplenish 0)
    (w := runWorld 1) rfl rfl hbatch
  refine ⟨storedValid_runWorld 1, hresponse, ?_⟩
  rw [hbundles, Table.lookup_modify, if_pos rfl]
  rw [show (runWorld 1).bundles.lookup _ = _ from lookup_runWorld]
  decide +kernel

end FreeBox.Server.KeyServer
