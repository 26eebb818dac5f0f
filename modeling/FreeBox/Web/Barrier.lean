import FreeBox.Cli.Barrier
import FreeBox.Web.Upload

/-!
# The barrier before the web client's last request

Model of the rest of `uploadFile` in `apps/web/src/pages/UploadModal.tsx` around the pool of
`FreeBox.Web.Upload`: `uploadInit`, `Promise.all` of the workers and `uploadComplete`.
`Promise.all` rejects when the first worker has thrown, and the others keep running.

Results:
* `totalChunks_lt`: the number of chunks of a file.
* `UploadRun.Inv.step`: the step lemma.
* `UploadRun.kept`: no index is taken twice, and `uploadComplete` is sent only after a
  request for every index was answered with success.
* `UploadRun.claimed_or_thrown`: when nothing more can happen, every index was taken or
  every worker has thrown.
* `complete_after_all`: the barrier of both clients.
-/

namespace FreeBox.Web

open FreeBox.Lib FreeBox.Lib.Ecma FreeBox.Lib.Double FreeBox.Lib.Barrier

/-! ## `uploadFile` -/

/-- The index that a worker is at. -/
def Worker.current : Worker → Option ℚ
  | .encrypting current => some current
  | .sending current _ _ => some current
  | .ready => none
  | .done => none
  | .thrown => none

/-- The request that a worker waits for is answered, with success or not. -/
def Worker.sent (answered : Bool) : Worker → List (Event ℚ)
  | .sending current _ _ => [.put current answered]
  | .ready => []
  | .encrypting _ => []
  | .done => []
  | .thrown => []

/-- What happens when the worker `k`, which was at `w`, arrives at a place: it has taken the
    index that it encrypts, and its index has failed when it throws. -/
def Worker.reached (k : ℕ) (w : Worker) : Worker → List (Event ℚ)
  | .encrypting current => [.claimed k current]
  | .thrown => w.current.toList.map .failed
  | .ready => []
  | .sending _ _ _ => []
  | .done => []

def Worker.isDone : Worker → Bool
  | .done => true
  | .ready => false
  | .encrypting _ => false
  | .sending _ _ _ => false
  | .thrown => false

def Worker.isThrown : Worker → Bool
  | .thrown => true
  | .ready => false
  | .encrypting _ => false
  | .sending _ _ _ => false
  | .done => false

/-- A call of `uploadFile`, with what has happened in it. -/
structure UploadRun where
  stage : Stage
  pool : Pool
  events : List (Event ℚ)

inductive UploadStep
  | initAnswered (answered : Bool)
  | worker (k : ℕ) (answered : Bool)
  | settled
  | completeAnswered (answered : Bool)
  deriving DecidableEq

namespace UploadRun

def start : UploadRun where
  stage := .opening
  pool := { chunkIndex := 0, workers := [], requests := [] }
  events := []

/-- One step: `prepareUpload` and `uploadInit` end, a worker goes on, `Promise.all` settles,
    or `uploadComplete` is answered. -/
def step (total : ℚ) (body : ℚ → Except String Bytes) (s : UploadRun) :
    UploadStep → Option UploadRun
  | .initAnswered answered =>
    match s.stage with
    | .opening =>
      if answered then some { s with stage := .sending, pool := .start total }
      else some { s with stage := .failed }
    | _ => none
  | .worker k answered =>
    match s.pool.workers[k]?, s.pool.step total body (k, answered) with
    | some w, some pool =>
      some { s with
        pool
        events := s.events ++ w.sent answered ++ (pool.workers[k]?.elim [] (w.reached k)) }
    | _, _ => none
  | .settled =>
    match s.stage with
    | .sending =>
      if s.pool.workers.all Worker.isDone then
        some { s with stage := .closing, events := s.events ++ [.complete] }
      else if s.pool.workers.any Worker.isThrown then some { s with stage := .failed }
      else none
    | _ => none
  | .completeAnswered answered =>
    match s.stage with
    | .closing => some { s with stage := if answered then .closed else .failed }
    | _ => none

end UploadRun

theorem Worker.isDone_iff {w : Worker} : w.isDone = true ↔ w = .done := by
  cases w <;> simp [Worker.isDone]

theorem Worker.isThrown_iff {w : Worker} : w.isThrown = true ↔ w = .thrown := by
  cases w <;> simp [Worker.isThrown]

/-- The size of a file is an `unsigned long long`. -/
theorem totalChunks_lt {size : ℕ} (hsize : size < 2 ^ 64) :
    ∃ n : ℕ, totalChunks (fl size) = n ∧ 0 < n ∧ n < 2 ^ 53 := by
  have hsize : (size : ℚ) < 2 ^ 64 := by exact_mod_cast hsize
  have hfl : fl size ≤ 2 * size + 1 := fl_le (Nat.cast_nonneg size)
  have hquot : fl (fl size / chunkSize) ≤ 2 * (fl size / chunkSize) + 1 :=
    fl_le (div_nonneg (fl_nonneg (Nat.cast_nonneg size)) (by norm_num [chunkSize]))
  have hceil : ⌈fl (fl size / chunkSize)⌉ ≤ 2 ^ 52 := by
    rw [Int.ceil_le]
    norm_num [chunkSize] at hquot ⊢
    linarith
  refine ⟨(max 1 ⌈fl (fl size / chunkSize)⌉).toNat, ?_, by omega, by omega⟩
  have hcast : ((max 1 ⌈fl (fl size / chunkSize)⌉).toNat : ℤ) = max 1 ⌈fl (fl size / chunkSize)⌉ :=
    Int.toNat_of_nonneg (by omega)
  rw [totalChunks, ← Int.cast_natCast (R := ℚ) (Int.toNat _), hcast, Int.cast_max, Int.cast_one]

/-! ## What one worker does -/

/-- The worker has no chunk left to deal with. -/
def Worker.Free (answered : Bool) : Worker → Prop
  | .ready => True
  | .sending _ _ _ => answered = true
  | .encrypting _ => False
  | .done => False
  | .thrown => False

/-- A worker goes on from one place to another, and the counter from one value to another. -/
inductive Turn (total : ℚ) : (counter : ℚ) → (answered : Bool) → Worker → Worker → ℚ → Prop
  | claim {counter : ℚ} {answered : Bool} {w : Worker} : w.Free answered → counter < total →
      Turn total counter answered w (.encrypting counter) (fl (counter + 1))
  | finish {counter : ℚ} {answered : Bool} {w : Worker} : w.Free answered → total ≤ counter →
      Turn total counter answered w .done counter
  | send {counter : ℚ} {answered : Bool} (current : ℚ) (ciphertext : Bytes) :
      Turn total counter answered (.encrypting current) (.sending current ciphertext 0) counter
  | retry {counter : ℚ} (current : ℚ) (ciphertext : Bytes) (attempt : ℕ) :
      Turn total counter false (.sending current ciphertext attempt)
        (.sending current ciphertext (attempt + 1)) counter
  | throw {counter : ℚ} {answered : Bool} {w : Worker} (current : ℚ) :
      w.current = some current → ¬ w.Free answered →
      Turn total counter answered w .thrown counter

theorem Pool.turn_next (total : ℚ) (s : Pool) (k : ℕ) {w : Worker} {answered : Bool}
    (hfree : w.Free answered) :
    ∃ w', (s.next total k).workers = s.workers.set k w' ∧
      Turn total s.chunkIndex answered w w' (s.next total k).chunkIndex := by
  unfold Pool.next
  by_cases hlt : s.chunkIndex < total
  · rw [if_pos hlt]
    exact ⟨_, rfl, .claim hfree hlt⟩
  · rw [if_neg hlt]
    exact ⟨_, rfl, .finish hfree (not_lt.mp hlt)⟩

theorem Pool.step_turn {total : ℚ} {body : ℚ → Except String Bytes} {s s' : Pool} {k : ℕ}
    {answered : Bool} (hs : s.step total body (k, answered) = some s') :
    ∃ w w', s.workers[k]? = some w ∧ s'.workers = s.workers.set k w' ∧
      Turn total s.chunkIndex answered w w' s'.chunkIndex := by
  simp only [Pool.step] at hs
  cases hk : s.workers[k]? with
  | none => rw [hk] at hs; cases hs
  | some w =>
    rw [hk] at hs
    refine ⟨w, ?_⟩
    cases w with
    | ready =>
      have hfree : Worker.Free answered .ready := trivial
      obtain rfl := Option.some.inj hs
      obtain ⟨w', hw', hturn⟩ := Pool.turn_next total s k hfree
      exact ⟨w', rfl, hw', hturn⟩
    | encrypting current =>
      dsimp only at hs
      cases hbody : body current with
      | error e =>
        rw [hbody] at hs
        obtain rfl := Option.some.inj hs
        exact ⟨.thrown, rfl, rfl, .throw current rfl id⟩
      | ok ciphertext =>
        rw [hbody] at hs
        obtain rfl := Option.some.inj hs
        exact ⟨_, rfl, rfl, .send current ciphertext⟩
    | sending current ciphertext attempt =>
      dsimp only at hs
      by_cases hanswered : answered = true
      · have hfree : (Worker.sending current ciphertext attempt).Free answered := hanswered
        rw [if_pos hanswered] at hs
        obtain rfl := Option.some.inj hs
        obtain ⟨w', hw', hturn⟩ := Pool.turn_next total (s.send current ciphertext) k hfree
        exact ⟨w', rfl, hw', hturn⟩
      · rw [if_neg hanswered] at hs
        split_ifs at hs
        · obtain rfl := Option.some.inj hs
          obtain rfl : answered = false := Bool.eq_false_iff.mpr hanswered
          exact ⟨_, rfl, rfl, .retry current ciphertext attempt⟩
        · obtain rfl := Option.some.inj hs
          exact ⟨.thrown, rfl, rfl, .throw current rfl hanswered⟩
    | done => cases hs
    | thrown => cases hs

/-- A worker that cannot go on has ended. -/
theorem Pool.ended {total : ℚ} {body : ℚ → Except String Bytes} {s : Pool} {k : ℕ} {w : Worker}
    (hk : s.workers[k]? = some w) (hs : s.step total body (k, true) = none) :
    w = .done ∨ w = .thrown := by
  rw [Pool.step, hk] at hs
  cases w with
  | ready => cases hs
  | encrypting current =>
    dsimp only at hs
    split at hs <;> cases hs
  | sending current ciphertext attempt => cases hs
  | done => exact .inl rfl
  | thrown => exact .inr rfl

section Turn

variable {total counter counter' : ℚ} {answered : Bool} {w w' : Worker} {k i : ℕ}

theorem Turn.ne_done (h : Turn total counter answered w w' counter') : w ≠ .done := by
  cases h with
  | claim hfree _ => rintro rfl; exact hfree
  | finish hfree _ => rintro rfl; exact hfree
  | send current ciphertext => simp
  | retry current ciphertext attempt => simp
  | throw current hcurrent _ => rintro rfl; cases hcurrent

theorem Turn.ne_thrown (h : Turn total counter answered w w' counter') : w ≠ .thrown := by
  cases h with
  | claim hfree _ => rintro rfl; exact hfree
  | finish hfree _ => rintro rfl; exact hfree
  | send current ciphertext => simp
  | retry current ciphertext attempt => simp
  | throw current hcurrent _ => rintro rfl; cases hcurrent

/-- A worker leaves its chunk only when a request for it was answered with success, or
    when it throws. -/
theorem Turn.holds (h : Turn total counter answered w w' counter') (hw : w.Holds i) :
    .put (i : ℚ) true ∈ w.sent answered ∨ w'.Holds i := by
  have hfree : w.Free answered → .put (i : ℚ) true ∈ w.sent answered := by
    intro hfree
    cases w with
    | sending current ciphertext attempt =>
      obtain rfl : current = i := hw
      obtain rfl : answered = true := hfree
      exact List.mem_singleton_self _
    | ready => exact hw.elim
    | encrypting current => exact hfree.elim
    | done => exact hw.elim
    | thrown => exact hfree.elim
  cases h with
  | claim h _ => exact .inl (hfree h)
  | finish h _ => exact .inl (hfree h)
  | send current ciphertext => exact .inr hw
  | retry current ciphertext attempt => exact .inr hw
  | throw current _ _ => exact .inr trivial

theorem mem_sent {e : Event ℚ} (h : e ∈ w.sent answered) : ∃ current, e = .put current answered := by
  cases w with
  | sending current ciphertext attempt => exact ⟨current, List.mem_singleton.mp h⟩
  | ready => cases h
  | encrypting current => cases h
  | done => cases h
  | thrown => cases h

theorem mem_reached {e : Event ℚ} (h : e ∈ w.reached k w') :
    (∃ current, w' = .encrypting current ∧ e = .claimed k current) ∨
      (w' = .thrown ∧ ∃ current, e = .failed current) := by
  cases w' with
  | encrypting current => exact .inl ⟨current, rfl, List.mem_singleton.mp h⟩
  | thrown =>
    obtain ⟨current, -, rfl⟩ := List.mem_map.mp h
    exact .inr ⟨rfl, current, rfl⟩
  | ready => cases h
  | sending current ciphertext attempt => cases h
  | done => cases h

theorem claims_sent : claims (w.sent answered) = [] := by
  cases w <;> rfl

theorem Kept.sent {indices : Set ℚ} {events : List (Event ℚ)} (h : Kept indices events) :
    Kept indices (events ++ w.sent answered) := by
  cases w with
  | sending current ciphertext attempt => exact h.put current answered
  | ready => rwa [Worker.sent, List.append_nil]
  | encrypting current => rwa [Worker.sent, List.append_nil]
  | done => rwa [Worker.sent, List.append_nil]
  | thrown => rwa [Worker.sent, List.append_nil]

/-- The worker takes the index at the counter, or the counter stays as it is. -/
theorem Turn.claim_or {total n : ℕ} (h : Turn total n answered w w' counter')
    (htotal : total < 2 ^ 53) :
    (w' = .encrypting n ∧ n < total ∧ counter' = (n + 1 : ℕ)) ∨
      (claims (w.reached k w') = [] ∧ counter' = n) := by
  cases h with
  | claim _ hlt =>
    have hlt : n < total := Nat.cast_lt.mp hlt
    refine .inl ⟨rfl, hlt, ?_⟩
    rw [← Nat.cast_succ, fl_natCast (by omega)]
  | finish _ _ => exact .inr ⟨rfl, rfl⟩
  | send current ciphertext => exact .inr ⟨rfl, rfl⟩
  | retry current ciphertext attempt => exact .inr ⟨rfl, rfl⟩
  | throw current hcurrent _ =>
    refine .inr ⟨?_, rfl⟩
    rw [Worker.reached, hcurrent]
    rfl

end Turn

/-! ## The invariant -/

/-- The indices of an upload. -/
def indices (total : ℚ) : Set ℚ := {i | (∃ j : ℕ, i = j) ∧ i < total}

section Taken

variable {total n m k : ℕ} {answered : Bool} {w w' : Worker} {counter' : ℚ}

/-- The indices below the counter are those that were taken. -/
theorem Turn.taken (h : Turn total n answered w w' m) (htotal : total < 2 ^ 53) :
    (List.range n).map (fun i : ℕ => (i : ℚ)) ++ claims (w.reached k w') =
      (List.range m).map fun i : ℕ => (i : ℚ) := by
  rcases h.claim_or htotal (k := k) with ⟨rfl, -, hnext⟩ | ⟨hnone, hsame⟩
  · obtain rfl : m = n + 1 := Nat.cast_injective hnext
    rw [List.range_succ, List.map_append]
    rfl
  · obtain rfl : m = n := Nat.cast_injective hsame
    rw [hnone, List.append_nil]

/-- A worker holds the index that it takes. -/
theorem Turn.holds_taken {i : ℕ} (h : Turn total n answered w w' m) (htotal : total < 2 ^ 53)
    (hin : n ≤ i) (him : i < m) : w'.Holds i := by
  rcases h.claim_or htotal (k := 0) with ⟨rfl, -, hnext⟩ | ⟨-, hsame⟩
  · obtain rfl : m = n + 1 := Nat.cast_injective hnext
    obtain rfl : i = n := by omega
    rfl
  · obtain rfl : m = n := Nat.cast_injective hsame
    omega

theorem Turn.kept {events : List (Event ℚ)} (h : Turn total n answered w w' counter')
    (htotal : total < 2 ^ 53) (hkept : Kept (indices total) events)
    (htaken : claims events = (List.range n).map fun i : ℕ => (i : ℚ))
    (hcomplete : .complete ∉ events) : Kept (indices total) (events ++ w.reached k w') := by
  cases w' with
  | encrypting current =>
    rcases h.claim_or htotal (k := k) with ⟨hcurrent, hlt, -⟩ | ⟨hnone, -⟩
    · obtain rfl : current = n := Worker.encrypting.inj hcurrent
      refine hkept.concat ⟨⟨⟨n, rfl⟩, Nat.cast_lt.mpr hlt⟩, ?_⟩
      rw [htaken]
      intro hmem
      obtain ⟨j, hj, hjn⟩ := List.mem_map.mp hmem
      have hj : j < n := List.mem_range.mp hj
      have hjn : j = n := Nat.cast_injective hjn
      omega
    · cases hnone
  | thrown =>
    show Kept (indices total) (events ++ w.current.toList.map .failed)
    cases w.current with
    | none => rwa [Option.toList_none, List.map_nil, List.append_nil]
    | some current => exact hkept.concat hcomplete
  | ready => rwa [Worker.reached, List.append_nil]
  | sending current ciphertext attempt => rwa [Worker.reached, List.append_nil]
  | done => rwa [Worker.reached, List.append_nil]

end Taken

namespace UploadRun

/-- `uploadInit` has succeeded, and the first `n` of `total` indices have been taken. -/
structure Inv (total : ℕ) (body : ℚ → Except String Bytes) (n : ℕ) (s : UploadRun) : Prop where
  opened : s.stage ≠ .opening
  pool : s.pool.Inv total body n
  taken : claims s.events = (List.range n).map fun i : ℕ => (i : ℚ)
  covered : ∀ i < n, .put (i : ℚ) true ∈ s.events ∨ ∃ w ∈ s.pool.workers, w.Holds i
  failed : ∀ i, .failed i ∈ s.events → .thrown ∈ s.pool.workers
  complete : .complete ∈ s.events → s.pool.Completed
  kept : Kept (indices total) s.events

variable {total n k : ℕ} {body : ℚ → Except String Bytes} {s s' : UploadRun} {answered : Bool}

/-- A worker goes on. -/
theorem Inv.worker {pool : Pool} {w w' : Worker} (h : s.Inv total body n) (htotal : total < 2 ^ 53)
    (hpool : s.pool.step total body (k, answered) = some pool)
    (hk : s.pool.workers[k]? = some w) (hworkers : pool.workers = s.pool.workers.set k w')
    (hturn : Turn total s.pool.chunkIndex answered w w' pool.chunkIndex) :
    ∃ m, Inv total body m
      { s with pool, events := s.events ++ w.sent answered ++ w.reached k w' } := by
  obtain ⟨m, hm⟩ := h.pool.step htotal hpool
  have hself : w' ∈ pool.workers := by
    rw [hworkers]
    exact Pool.mem_put_self hk
  have hother : ∀ v ∈ s.pool.workers, v = w ∨ v ∈ pool.workers := by
    intro v hv
    rw [hworkers]
    exact Pool.mem_put hk hv
  have hsent : .complete ∉ s.events ++ w.sent answered := by
    intro hcomplete
    rcases List.mem_append.mp hcomplete with hcomplete | hcomplete
    · exact hturn.ne_done (h.complete hcomplete w (List.mem_of_getElem? hk))
    · obtain ⟨current, heq⟩ := mem_sent hcomplete
      cases heq
  have hclaims : claims (s.events ++ w.sent answered) = (List.range n).map fun i : ℕ => (i : ℚ) := by
    rw [claims_append, h.taken, claims_sent, List.append_nil]
  rw [h.pool.counter, show pool.chunkIndex = m from hm.counter] at hturn
  refine ⟨m, h.opened, hm, ?_, fun i hi => ?_, fun i hi => ?_, fun hcomplete => ?_, ?_⟩
  · show claims (s.events ++ w.sent answered ++ w.reached k w') = _
    rw [claims_append, hclaims]
    exact hturn.taken htotal
  · by_cases hin : i < n
    · rcases h.covered i hin with hput | ⟨v, hv, hvi⟩
      · exact .inl (List.mem_append_left _ (List.mem_append_left _ hput))
      · rcases hother v hv with rfl | hv
        · rcases hturn.holds hvi with hput | hw'
          · exact .inl (List.mem_append_left _ (List.mem_append_right _ hput))
          · exact .inr ⟨w', hself, hw'⟩
        · exact .inr ⟨v, hv, hvi⟩
    · exact .inr ⟨w', hself, hturn.holds_taken htotal (by omega) hi⟩
  · rcases List.mem_append.mp hi with hi | hi
    · rcases List.mem_append.mp hi with hi | hi
      · exact (hother _ (h.failed i hi)).resolve_left fun heq => hturn.ne_thrown heq.symm
      · obtain ⟨current, heq⟩ := mem_sent hi
        cases heq
    · rcases mem_reached hi with ⟨current, -, heq⟩ | ⟨rfl, -⟩
      · cases heq
      · exact hself
  · rcases List.mem_append.mp hcomplete with hcomplete | hcomplete
    · exact absurd hcomplete hsent
    · rcases mem_reached hcomplete with ⟨current, -, heq⟩ | ⟨-, current, heq⟩
      · cases heq
      · cases heq
  · exact hturn.kept htotal (Kept.sent h.kept) hclaims hsent

theorem Inv.settled (h : s.Inv total body n) (hdone : s.pool.Completed) :
    Inv total body n { s with stage := .closing, events := s.events ++ [.complete] } := by
  obtain ⟨w, hw⟩ := List.exists_mem_of_ne_nil _ h.pool.nonempty
  obtain rfl : n = total := by
    have hwf := h.pool.worker w hw
    rwa [hdone w hw] at hwf
  have hput : ∀ i < n, .put (i : ℚ) true ∈ s.events := by
    intro i hi
    rcases h.covered i hi with hput | ⟨v, hv, hvi⟩
    · exact hput
    · rw [hdone v hv] at hvi
      exact hvi.elim
  have hfailed : ∀ i, .failed i ∉ s.events := by
    intro i hi
    exact absurd (hdone _ (h.failed i hi)) (by simp)
  refine ⟨by simp, h.pool, ?_, fun i hi => ?_, fun i hi => ?_, fun _ => hdone, ?_⟩
  · show Barrier.claims (s.events ++ [.complete]) = _
    rw [claims_append, h.taken]
    exact List.append_nil _
  · exact .inl (List.mem_append_left _ (hput i hi))
  · rcases List.mem_append.mp hi with hi | hi
    · exact absurd hi (hfailed i)
    · simp at hi
  · refine h.kept.concat ⟨?_, hfailed⟩
    rintro _ ⟨⟨i, rfl⟩, hi⟩
    have hi : i < n := Nat.cast_lt.mp hi
    rw [h.taken]
    exact ⟨List.mem_map_of_mem (List.mem_range.mpr hi), hput i hi⟩

/-- The step lemma. -/
theorem Inv.step {label : UploadStep} (h : s.Inv total body n) (htotal : total < 2 ^ 53)
    (hs : s.step total body label = some s') : ∃ m, s'.Inv total body m := by
  have hstage : ∀ stage ≠ Stage.opening, Inv total body n { s with stage } := fun stage hne =>
    { h with opened := hne }
  cases label with
  | initAnswered answered =>
    rw [UploadRun.step] at hs
    split at hs
    · exact absurd ‹_› h.opened
    · cases hs
  | worker k answered =>
    rw [UploadRun.step] at hs
    split at hs
    · rename_i w pool hk hpool
      obtain ⟨w, w', hk', hworkers, hturn⟩ := Pool.step_turn hpool
      obtain rfl := Option.some.inj (hk.symm.trans hk')
      have hreached : pool.workers[k]? = some w' := by
        rw [hworkers]
        exact List.getElem?_set_self (List.getElem?_eq_some_iff.mp hk).1
      rw [hreached] at hs
      obtain rfl := Option.some.inj hs
      exact h.worker htotal hpool hk hworkers hturn
    · cases hs
  | settled =>
    rw [UploadRun.step] at hs
    split at hs
    · split_ifs at hs with hall hany
      · obtain rfl := Option.some.inj hs
        refine ⟨n, h.settled fun w hw => Worker.isDone_iff.mp ?_⟩
        exact List.all_eq_true.mp hall w hw
      · obtain rfl := Option.some.inj hs
        exact ⟨n, hstage _ (by simp)⟩
    · cases hs
  | completeAnswered answered =>
    rw [UploadRun.step] at hs
    split at hs
    · obtain rfl := Option.some.inj hs
      exact ⟨n, hstage _ (by split_ifs <;> simp)⟩
    · cases hs

/-- `uploadInit` has not succeeded. -/
structure Idle (s : UploadRun) : Prop where
  stage : s.stage = .opening ∨ s.stage = .failed
  workers : s.pool.workers = []
  events : s.events = []

theorem Idle.step {label : UploadStep} (h : s.Idle) (htotal : 0 < total)
    (hs : s.step total body label = some s') :
    (s'.Idle ∧ label ≠ .initAnswered true) ∨ s'.Inv total body 0 := by
  cases label with
  | initAnswered answered =>
    rw [UploadRun.step] at hs
    split at hs
    · split_ifs at hs with hanswered
      · obtain rfl := Option.some.inj hs
        refine .inr ⟨by simp, Pool.inv_start htotal, ?_, fun i hi => absurd hi (by omega), ?_, ?_, ?_⟩
        · show Barrier.claims s.events = _
          rw [h.events]
          rfl
        · intro i hi
          rw [show s.events = [] from h.events] at hi
          cases hi
        · intro hi
          rw [show s.events = [] from h.events] at hi
          cases hi
        · show Kept _ s.events
          rw [h.events]
          exact .nil
      · obtain rfl := Option.some.inj hs
        exact .inl ⟨⟨.inr rfl, h.workers, h.events⟩, by simp [hanswered]⟩
    · cases hs
  | worker k answered =>
    rw [UploadRun.step, h.workers] at hs
    cases hs
  | settled =>
    rcases h.stage with hstage | hstage <;> rw [UploadRun.step, hstage] at hs <;> cases hs
  | completeAnswered answered =>
    rcases h.stage with hstage | hstage <;> rw [UploadRun.step, hstage] at hs <;> cases hs

/-- The run lemma. -/
theorem inv_run {labels : List UploadStep} (htotal : 0 < total) (hlt : total < 2 ^ 53)
    (h : Run (step total body) anyStep start labels s) :
    (s.Idle ∧ .initAnswered true ∉ labels) ∨ ∃ n, s.Inv total body n := by
  refine h.history_invariant
    (fun labels s => (s.Idle ∧ .initAnswered true ∉ labels) ∨ ∃ n, s.Inv total body n)
    (.inl ⟨⟨.inl rfl, rfl, rfl⟩, List.not_mem_nil⟩) ?_
  rintro labels s label s' - hinv - hs
  rcases hinv with ⟨hidle, hlabels⟩ | ⟨n, hn⟩
  · rcases hidle.step htotal hs with ⟨hidle, hlabel⟩ | hinv
    · refine .inl ⟨hidle, fun hmem => ?_⟩
      rcases List.mem_append.mp hmem with hmem | hmem
      · exact hlabels hmem
      · exact hlabel (List.mem_singleton.mp hmem).symm
    · exact .inr ⟨0, hinv⟩
  · exact .inr (hn.step hlt hs)

theorem kept {labels : List UploadStep} (htotal : 0 < total) (hlt : total < 2 ^ 53)
    (h : Run (step total body) anyStep start labels s) : Kept (indices total) s.events := by
  rcases inv_run htotal hlt h with ⟨hidle, -⟩ | ⟨n, hn⟩
  · rw [hidle.events]
    exact .nil
  · exact hn.kept

/-- When no worker can go on, every index was taken or every worker has thrown. -/
theorem claimed_or_thrown {labels : List UploadStep} (htotal : 0 < total) (hlt : total < 2 ^ 53)
    (h : Run (step total body) anyStep start labels s) (hopen : .initAnswered true ∈ labels)
    (hend : ∀ k answered, s.step total body (.worker k answered) = none) :
    (∀ i ∈ indices total, ∃! k, .claimed k i ∈ s.events) ∨ ∀ w ∈ s.pool.workers, w = .thrown := by
  rcases inv_run htotal hlt h with ⟨-, hlabels⟩ | ⟨n, hn⟩
  · exact absurd hopen hlabels
  · by_cases hdone : .done ∈ s.pool.workers
    · left
      rintro _ ⟨⟨i, rfl⟩, hi⟩
      obtain rfl : n = total := hn.pool.worker _ hdone
      refine existsUnique_worker hn.kept.claims_nodup ?_
      rw [hn.taken]
      exact List.mem_map_of_mem (List.mem_range.mpr (Nat.cast_lt.mp hi))
    · right
      intro w hw
      obtain ⟨k, hk⟩ := List.mem_iff_getElem?.mp hw
      have hpool : s.pool.step total body (k, true) = none := by
        cases hpool : s.pool.step total body (k, true) with
        | none => rfl
        | some pool =>
          have hend := hend k true
          rw [step, hk, hpool] at hend
          cases hend
      rcases Pool.ended hk hpool with rfl | rfl
      · exact absurd hw hdone
      · rfl

/-- Nothing more happens when the upload has failed and every worker has thrown. -/
theorem stuck {total : ℚ} (hstage : s.stage = .failed) (hthrown : ∀ w ∈ s.pool.workers, w = .thrown)
    (label : UploadStep) : s.step total body label = none := by
  cases label with
  | initAnswered answered => rw [step, hstage]
  | worker k answered =>
    cases hk : s.pool.workers[k]? with
    | none => rw [step, hk]
    | some w =>
      have hpool : s.pool.step total body (k, answered) = none := by
        rw [Pool.step, hk, hthrown w (List.mem_of_getElem? hk)]
      rw [step, hk, hpool]
  | settled => rw [step, hstage]
  | completeAnswered answered => rw [step, hstage]

end UploadRun

/-! ## Both clients -/

/-- For files of the web client of any size that a browser can represent, and whatever
    happens to the encryption of its chunks and to the requests. -/
theorem complete_after_all :
    (∀ (size : ℕ) (body : ℚ → Except String Bytes) (labels : List UploadStep) (s : UploadRun),
      size < 2 ^ 64 →
      Run (UploadRun.step (totalChunks (fl size)) body) anyStep .start labels s →
      Safe (indices (totalChunks (fl size))) s.events ∧
        (.initAnswered true ∈ labels →
          (∀ k answered, s.step (totalChunks (fl size)) body (.worker k answered) = none) →
          (∀ i ∈ indices (totalChunks (fl size)), ∃! k, .claimed k i ∈ s.events) ∨
            ∀ w ∈ s.pool.workers, w = .thrown)) ∧
    ∀ (A : Crypto.Aes256Gcm) (blake3 : Bytes → String) (key : Crypto.FileKey) (remoteName : String)
      (plaintext : Bytes) (u : Cli.PreparedUpload) (parallelism : UInt8) (s₀ : Cli.UploadRun)
      (labels : List Cli.UploadStep) (s : Cli.UploadRun),
      Cli.prepareUpload A blake3 key remoteName plaintext = .ok u →
      Cli.UploadRun.start parallelism u = .ok s₀ →
      Run (Cli.UploadRun.step parallelism) anyStep s₀ labels s →
      Safe {i : UInt64 | i.toNat < u.chunks.length} s.events ∧
        (.initAnswered true ∈ labels → (∀ label, s.step parallelism label = none) →
          ∀ i : UInt64, i.toNat < u.chunks.length → ∃! k, .claimed k i ∈ s.events) := by
  constructor
  · intro size body labels s hsize hrun
    obtain ⟨total, htotal, hpos, hlt⟩ := totalChunks_lt hsize
    rw [htotal] at hrun ⊢
    exact ⟨(UploadRun.kept hpos hlt hrun).safe, UploadRun.claimed_or_thrown hpos hlt hrun⟩
  · intro A blake3 key remoteName plaintext u parallelism s₀ labels s hu hstart hrun
    obtain ⟨hnodup, hindices⟩ := Cli.nodup_index_chunks hu
    have hkept := Cli.UploadRun.kept hnodup hstart hrun
    have hclaimed := Cli.UploadRun.claimed hnodup hstart hrun
    rw [hindices] at hkept hclaimed
    exact ⟨hkept.safe, hclaimed⟩

/-- Two of three workers send three chunks; one request fails and is sent again. -/
def runLabels : List UploadStep :=
  [.initAnswered true, .worker 0 true, .worker 1 true, .worker 1 true, .worker 0 true,
    .worker 0 true, .worker 2 true, .worker 1 false, .worker 1 true, .worker 0 true,
    .worker 0 true, .settled]

/-- The web client uploads a file of three chunks, the command line client one of two. -/
theorem complete_after_one :
    (∃ s, Run (UploadRun.step (totalChunks (fl (10000000 : ℕ))) fun _ => .ok []) anyStep .start
        runLabels s ∧ .complete ∈ s.events ∧ (claims s.events).length = 3 ∧
        ∀ i, .failed i ∉ s.events) ∧
      ∃ u s₀ labels s, Cli.UploadRun.start 16 u = .ok s₀ ∧
        Run (Cli.UploadRun.step 16) anyStep s₀ labels s ∧ .complete ∈ s.events ∧
        (claims s.events).length = 2 ∧ ∀ i, .failed i ∉ s.events := by
  obtain ⟨hweb, hcli⟩ := complete_after_all
  constructor
  · obtain ⟨s, hrun, hs⟩ := exists_run_of_exec
      (UploadRun.step (totalChunks (fl (10000000 : ℕ))) fun _ => .ok []) anyStep .start runLabels
      (fun s => decide (.complete ∈ s.events ∧ (claims s.events).length = 3)) (by decide +kernel)
    obtain ⟨hcomplete, hclaims⟩ := of_decide_eq_true hs
    obtain ⟨hsafe, -⟩ := hweb 10000000 _ _ s (by norm_num) hrun
    exact ⟨s, hrun, hcomplete, hclaims, hsafe.complete_unfailed hcomplete⟩
  · have hlen := Cli.length_uploadPieces_twoChunks
    have hlt : (Cli.uploadPieces Crypto.twoChunks).length < 2 ^ 32 := by
      rw [hlen]
      norm_num
    obtain ⟨u, hu⟩ := Cli.exists_prepareUpload (Aead.tagged_inverts Crypto.runTag _) (fun _ => "")
      Crypto.runKey "a" hlt
    have hchunks : u.chunks.length = 2 := (Cli.prepareUpload_totals hu).2.2.trans hlen
    obtain ⟨first, second, hchunks⟩ := List.length_eq_two.mp hchunks
    have hstart : Cli.UploadRun.start 16 u = .ok
        { stage := .opening, waiting := [first, second], inFlight := [], results := []
          events := [] } := by
      rw [Cli.UploadRun.start, hchunks]
      rfl
    -- the second request is answered first
    have hrun : Run (Cli.UploadRun.step 16) anyStep
        { stage := .opening, waiting := [first, second], inFlight := [], results := []
          events := [] }
        [.initAnswered true, .polled, .polled, .putAnswered 1 true, .putAnswered 0 true,
          .collected]
        { stage := .closing, waiting := [], inFlight := [], results := [true, true]
          events := [.claimed 0 first.index, .claimed 1 second.index, .put second.index true,
            .put first.index true, .complete] } :=
      .cons trivial rfl (.cons trivial rfl (.cons trivial rfl (.cons trivial rfl
        (.cons trivial rfl (.cons trivial rfl .nil)))))
    obtain ⟨hsafe, -⟩ := hcli _ _ _ _ _ _ _ _ _ _ hu hstart hrun
    exact ⟨u, _, _, _, hstart, hrun, by simp, rfl, hsafe.complete_unfailed (by simp)⟩

/-- One worker whose request fails three times. -/
def failingSteps (k : ℕ) : List UploadStep :=
  [.worker k true, .worker k true, .worker k false, .worker k false, .worker k false]

/-- Nine chunks: when each of the eight workers has failed three times, nobody takes the
    last index. -/
theorem unclaimed_index :
    ∃ labels s, Run (UploadRun.step 9 fun _ => .ok []) anyStep .start labels s ∧
      .initAnswered true ∈ labels ∧ (∀ label, s.step 9 (fun _ => .ok []) label = none) ∧
      (8 : ℚ) ∈ indices 9 ∧ ∀ k, .claimed k 8 ∉ s.events := by
  obtain ⟨s, hrun, hs⟩ := exists_run_of_exec (UploadRun.step 9 fun _ => .ok []) anyStep .start
    (.initAnswered true :: (List.range 8).flatMap failingSteps ++ [.settled])
    (fun s => decide (s.stage = .failed) && s.pool.workers.all Worker.isThrown &&
      decide (8 ∉ claims s.events)) (by decide +kernel)
  simp only [Bool.and_eq_true, decide_eq_true_eq, List.all_eq_true, Worker.isThrown_iff] at hs
  obtain ⟨⟨hstage, hthrown⟩, hclaims⟩ := hs
  refine ⟨_, s, hrun, by simp, fun label => ?_, ⟨⟨8, by norm_num⟩, by norm_num⟩, fun k hk => ?_⟩
  · exact UploadRun.stuck hstage hthrown label
  · exact hclaims (mem_claims.mpr ⟨k, hk⟩)

end FreeBox.Web
