import FreeBox.Lib.Parallel
import Mathlib.Data.Fintype.EquivFin

/-!
# Handlers that run alone

`serve` lets one handler make all its calls with no other handler in between.
This is what a client sees that waits for each answer while no one else is
connected.

`Answers` is the same with calls that fail; `fails` says which.

Results:
* `run_serve`: serving a request is a run of the interleaved system, from every
  state in which its number is free.
* `serves_iff_answers`: both are the same when no call fails.
* `yields_of_goto`, `yields_of_done`: what a handler leads to, one call after another.
* `Answers.run`: a request with failing calls is a run of the interleaved system.
* `Reachable.serve`: the worlds that the interleaved system can reach are closed
  under serving requests one at a time.
* `Halts.exists_ends`: a handler that ends whatever it chooses ends in some way.
* `ends_iff_of_serves`: a handler that does not choose ends in one way.
* `ends_par_left`, `ends_par_right`: handlers side by side end as they end on their own.
-/

namespace FreeBox.Lib.Handlers

variable {W J R E : Type*} (H : Handlers W J R E)

/-- The handler at `j` makes its calls one after another, at most `fuel` of them.
    There is no answer if it needs more, or if it ends without one. -/
def serve : (fuel : ℕ) → W → J → W × Option R
  | 0, w, _ => (w, none)
  | fuel + 1, w, j =>
    match H.advance w 0 j with
    | none => (w, none)
    | some (w', .done r) => (w', r)
    | some (w', .goto j') => serve fuel w' j'

variable {H} {fuel rid : ℕ} {w w' w₀ : W} {j j' : J} {r : R} {s : Sys W J R}

theorem serve_goto (h : H.advance w 0 j = some (w', .goto j')) :
    H.serve (fuel + 1) w j = H.serve fuel w' j' := by
  rw [serve, h]

theorem serve_done {answer : Option R} (h : H.advance w 0 j = some (w', .done answer)) :
    H.serve (fuel + 1) w j = (w', answer) := by
  rw [serve, h]

variable (H) in
/-- The handler at `j`, alone in the world `w`, ends with the answer `r` in the world `w'`. -/
def Serves (w : W) (j : J) (w' : W) (r : R) : Prop := ∃ fuel, H.serve fuel w j = (w', some r)

theorem Serves.goto {w₁ : W} (h : H.advance w 0 j = some (w₁, .goto j'))
    (hrest : H.Serves w₁ j' w' r) : H.Serves w j w' r := by
  obtain ⟨fuel, hserve⟩ := hrest
  exact ⟨fuel + 1, (serve_goto h).trans hserve⟩

theorem Serves.done (h : H.advance w 0 j = some (w', .done (some r))) : H.Serves w j w' r :=
  ⟨1, serve_done h⟩

/-! ## Calls that fail -/

variable (H) in
/-- The next call of the handler at `j`. -/
def call (fails : J → Bool) (w : W) (j : J) : Option (W × Next J R) :=
  if fails j then (H.onFail 0 j).map fun next => (w, next) else H.advance w 0 j

variable (H) in
/-- The handler at `j`, alone in the world `w`, ends with the answer `r` in the world `w'`,
    where its calls at the points of `fails` fail. -/
inductive Answers (fails : J → Bool) : W → J → W → R → Prop
  | done {w w' : W} {j : J} {r : R} (h : H.call fails w j = some (w', .done (some r))) :
      Answers fails w j w' r
  | goto {w w₁ w' : W} {j j' : J} {r : R} (h : H.call fails w j = some (w₁, .goto j'))
      (hrest : Answers fails w₁ j' w' r) : Answers fails w j w' r

variable {fails : J → Bool} {w₁ : W} {next : Next J R}

theorem call_eq_advance (h : fails j = false) : H.call fails w j = H.advance w 0 j := by
  simp [call, h]

theorem call_eq_onFail (h : fails j = true) :
    H.call fails w j = (H.onFail 0 j).map fun next => (w, next) := by
  simp [call, h]

/-- What follows the first call. -/
theorem Answers.inv (h : H.Answers fails w j w' r) (hcall : H.call fails w j = some (w₁, next)) :
    (w' = w₁ ∧ next = .done (some r)) ∨ ∃ j', next = .goto j' ∧ H.Answers fails w₁ j' w' r := by
  cases h with
  | done h =>
    rw [h] at hcall
    cases hcall
    exact .inl ⟨rfl, rfl⟩
  | goto h hrest =>
    rw [h] at hcall
    cases hcall
    exact .inr ⟨_, rfl, hrest⟩

theorem Answers.inv_done {r' : R} (h : H.Answers fails w j w' r)
    (hcall : H.call fails w j = some (w₁, .done (some r'))) : w' = w₁ ∧ r = r' := by
  rcases h.inv hcall with ⟨hw, heq⟩ | ⟨j', heq, -⟩
  · cases heq
    exact ⟨hw, rfl⟩
  · cases heq

theorem Answers.inv_goto (h : H.Answers fails w j w' r)
    (hcall : H.call fails w j = some (w₁, .goto j')) : H.Answers fails w₁ j' w' r := by
  rcases h.inv hcall with ⟨-, heq⟩ | ⟨k, heq, hrest⟩
  · cases heq
  · cases heq
    exact hrest

theorem serves_iff_answers : H.Serves w j w' r ↔ H.Answers (fun _ => false) w j w' r := by
  constructor
  · rintro ⟨fuel, h⟩
    induction fuel generalizing w j with
    | zero => simp [serve] at h
    | succ fuel ih =>
      rw [serve] at h
      split at h
      · simp at h
      · next hadv =>
        obtain ⟨rfl, rfl⟩ := Prod.mk.inj h
        exact .done ((call_eq_advance rfl).trans hadv)
      · next hadv => exact .goto ((call_eq_advance rfl).trans hadv) (ih h)
  · intro h
    induction h with
    | done h => exact .done ((call_eq_advance rfl).symm.trans h)
    | goto h _ ih => exact .goto ((call_eq_advance rfl).symm.trans h) ih

variable (H) in
/-- The same as a function: at most `fuel` calls. -/
def answer (fails : J → Bool) : (fuel : ℕ) → W → J → Option (W × R)
  | 0, _, _ => none
  | fuel + 1, w, j =>
    (H.call fails w j).bind fun
      | (w', .done r) => r.map fun r => (w', r)
      | (w', .goto j') => answer fails fuel w' j'

theorem answers_of_answer (h : H.answer fails fuel w j = some (w', r)) :
    H.Answers fails w j w' r := by
  induction fuel generalizing w j with
  | zero => simp [answer] at h
  | succ fuel ih =>
    obtain ⟨⟨w₁, next⟩, hcall, h⟩ := Option.bind_eq_some_iff.mp h
    cases next with
    | done response =>
      obtain ⟨r', rfl, heq⟩ := Option.map_eq_some_iff.mp h
      cases heq
      exact .done hcall
    | goto j' => exact .goto hcall (ih h)

variable (H) in
/-- An answer that is found by computing it. -/
theorem exists_answers (fails : J → Bool) (fuel : ℕ) (w : W) (j : J) (p : W × R → Bool)
    (h : (H.answer fails fuel w j).any p = true) :
    ∃ w' r, H.Answers fails w j w' r ∧ p (w', r) = true := by
  cases hanswer : H.answer fails fuel w j with
  | none => rw [hanswer] at h; cases h
  | some found => rw [hanswer] at h; exact ⟨found.1, found.2, answers_of_answer hanswer, h⟩

/-- A call of a handler in flight. -/
theorem step_call (hj : s.jobs.lookup rid = some j)
    (h : H.call fails s.world j = some (w', next)) :
    ∃ a, H.step s a = some (s.settle rid j w' next) := by
  unfold call at h
  split_ifs at h with hfails
  · obtain ⟨next', hfail, heq⟩ := Option.map_eq_some_iff.mp h
    cases heq
    exact ⟨.fail rid 0, by rw [step, hj, Option.bind_some, hfail, Option.bind_some]⟩
  · exact ⟨.advance rid 0, by rw [step, hj, Option.bind_some, h, Option.bind_some]⟩

/-- A request with failing calls is a run of the interleaved system. -/
theorem Answers.run (h : H.Answers fails w j w' r) (hs : s.world = w)
    (hj : s.jobs.lookup rid = some j) : ∃ as k, Run H.step anyStep s as
      { world := w', jobs := s.jobs.erase rid, answers := (k, r) :: s.answers } := by
  induction h generalizing s with
  | @done w w' j r h =>
    subst hs
    obtain ⟨a, ha⟩ := step_call hj h
    exact ⟨[a], j, .cons trivial ha .nil⟩
  | @goto w w₁ w' j j' r h _ ih =>
    subst hs
    obtain ⟨a, ha⟩ := step_call hj h
    have hlookup : (s.settle rid j w₁ (.goto j')).jobs.lookup rid = some j' := by
      rw [Sys.lookup_settle, if_pos rfl, Next.job?_goto]
    obtain ⟨as, k, hrun⟩ := ih rfl hlookup
    refine ⟨a :: as, k, .cons trivial ha ?_⟩
    have hjobs : (s.settle rid j w₁ (.goto j')).jobs.erase rid = s.jobs.erase rid :=
      Table.erase_insert rid j' s.jobs
    rw [hjobs] at hrun
    exact hrun

/-! ## What a handler that runs alone leads to -/

variable (H) in
/-- The handler at `j`, alone in the world `w`, ends in a world and with an answer that
    satisfy `P`. -/
def Yields (w : W) (j : J) (P : W → R → Prop) : Prop := ∃ w' r, H.Serves w j w' r ∧ P w' r

variable {P : W → R → Prop}

theorem yields_of_goto (h : H.advance w 0 j = some (w₁, .goto j')) :
    H.Yields w j P ↔ H.Yields w₁ j' P := by
  have hcall : H.call (fun _ => false) w j = some (w₁, .goto j') := (call_eq_advance rfl).trans h
  constructor
  · rintro ⟨w', r, hserves, hP⟩
    exact ⟨w', r, serves_iff_answers.mpr ((serves_iff_answers.mp hserves).inv_goto hcall), hP⟩
  · rintro ⟨w', r, hserves, hP⟩
    exact ⟨w', r, hserves.goto h, hP⟩

theorem yields_of_done (h : H.advance w 0 j = some (w₁, .done (some r))) :
    H.Yields w j P ↔ P w₁ r := by
  have hcall : H.call (fun _ => false) w j = some (w₁, .done (some r)) :=
    (call_eq_advance rfl).trans h
  constructor
  · rintro ⟨w', r', hserves, hP⟩
    obtain ⟨rfl, rfl⟩ := (serves_iff_answers.mp hserves).inv_done hcall
    exact hP
  · exact fun hP => ⟨w₁, r, .done h, hP⟩

/-! ## Serving -/

/-- A request that is served leaves the other requests in flight where they are. -/
theorem run_serve (hentry : H.entry j = true) (hfree : s.jobs.lookup rid = none)
    (h : H.serve fuel s.world j = (w', some r)) :
    ∃ as k, Run H.step anyStep s as
      { world := w', jobs := s.jobs, answers := (k, r) :: s.answers } := by
  have harrive : H.step s (.arrive rid j) = some { s with jobs := s.jobs.insert rid j } := by
    rw [step, if_pos ⟨hentry, hfree⟩]
  have hlookup : (s.jobs.insert rid j).lookup rid = some j := AList.lookup_insert _
  obtain ⟨as, k, hrun⟩ := (serves_iff_answers.mp ⟨fuel, h⟩).run
    (show ({ s with jobs := s.jobs.insert rid j } : Sys W J R).world = s.world from rfl) hlookup
  have hjobs : (s.jobs.insert rid j).erase rid = s.jobs := by
    rw [Table.erase_insert, Table.erase_of_lookup_none hfree]
  simp only [hjobs] at hrun
  exact ⟨.arrive rid j :: as, k, .cons trivial harrive hrun⟩

/-! ## Reachable worlds -/

variable (H) in
/-- Some run of the interleaved system that starts in `w₀` leads to `w`. -/
def Reachable (w₀ w : W) : Prop :=
  ∃ as s, Run H.step anyStep (Sys.idle w₀) as s ∧ s.world = w

theorem Reachable.refl (w : W) : H.Reachable w w := ⟨[], Sys.idle w, .nil, rfl⟩

theorem Reachable.serve (h : H.Reachable w₀ w) (hentry : H.entry j = true)
    (hserve : H.serve fuel w j = (w', some r)) : H.Reachable w₀ w' := by
  obtain ⟨as, s, hrun, rfl⟩ := h
  obtain ⟨rid, hrid⟩ := Infinite.exists_notMem_finset s.jobs.keys.toFinset
  have hfree : s.jobs.lookup rid = none := by
    rw [AList.lookup_eq_none]
    rwa [List.mem_toFinset, ← AList.mem_keys] at hrid
  obtain ⟨bs, k, hcalls⟩ := run_serve hentry hfree hserve
  exact ⟨as ++ bs, _, hrun.append hcalls, rfl⟩

theorem Reachable.env {e : E} (h : H.Reachable w₀ w) (he : H.environ w e = some w') :
    H.Reachable w₀ w' := by
  obtain ⟨as, s, hrun, rfl⟩ := h
  have hstep : H.step s (.env e) = some { s with world := w' } := by
    rw [step, he, Option.bind_some]
  exact ⟨as ++ [.env e], _, hrun.snoc trivial hstep, rfl⟩

/-- What an outline says of the world holds of every world that can be reached. -/
theorem ProofOutline.reachable {I : W → Prop} {A : W → J → Prop} (P : H.ProofOutline anyStep I A)
    (h₀ : I w₀) (h : H.Reachable w₀ w) : I w := by
  obtain ⟨as, s, hrun, rfl⟩ := h
  exact (P.holds hrun (holds_idle h₀)).1

/-! ## Handlers that choose -/

variable (H) in
/-- The handler at `j`, alone in the world `w`, ends in the world `w'`, with an answer or
    without one. Its calls choose what they like. -/
inductive Ends : W → J → W → Option R → Prop
  | done {w w' : W} {j : J} {pick : ℕ} {r : Option R}
      (h : H.advance w pick j = some (w', .done r)) : Ends w j w' r
  | goto {w w₁ w' : W} {j j' : J} {pick : ℕ} {r : Option R}
      (h : H.advance w pick j = some (w₁, .goto j')) (hrest : Ends w₁ j' w' r) : Ends w j w' r

variable (H) in
/-- The handler at `j`, alone in the world `w`, ends whatever its calls choose, and there is
    something to choose at every call. -/
inductive Halts : W → J → Prop
  | intro {w : W} {j : J} (hcall : ∃ pick next, H.advance w pick j = some next)
      (hgoto : ∀ pick w' j', H.advance w pick j = some (w', .goto j') → Halts w' j') : Halts w j

theorem Halts.exists_ends (h : H.Halts w j) : ∃ w' answer, H.Ends w j w' answer := by
  induction h with
  | intro hcall _ ih =>
    obtain ⟨pick, ⟨w₁, next⟩, hadv⟩ := hcall
    cases next with
    | done answer => exact ⟨w₁, answer, .done hadv⟩
    | goto j' =>
      obtain ⟨w', answer, hends⟩ := ih pick w₁ j' hadv
      exact ⟨w', answer, .goto hadv hends⟩

theorem Serves.ends (h : H.Serves w j w' r) : H.Ends w j w' (some r) := by
  obtain ⟨fuel, h⟩ := h
  induction fuel generalizing w j with
  | zero => simp [serve] at h
  | succ fuel ih =>
    rw [serve] at h
    split at h
    · simp at h
    · next hadv =>
      obtain ⟨rfl, rfl⟩ := Prod.mk.inj h
      exact .done hadv
    · next hadv => exact .goto hadv (ih h)

/-- A handler that does not choose ends in one way. -/
theorem Ends.eq_of_serves {answer : Option R} (P : J → Prop)
    (hpick : ∀ w pick j, P j → H.advance w pick j = H.advance w 0 j)
    (hgoto : ∀ w j w' j', P j → H.advance w 0 j = some (w', .goto j') → P j') (hj : P j)
    (h : H.Ends w j w' answer) (hserves : H.Serves w j w₁ r) : w' = w₁ ∧ answer = some r := by
  obtain ⟨fuel, hserve⟩ := hserves
  induction h generalizing fuel with
  | done hadv =>
    rw [hpick _ _ _ hj] at hadv
    cases fuel with
    | zero => simp [serve] at hserve
    | succ fuel =>
      rw [serve_done hadv] at hserve
      exact Prod.mk.inj hserve
  | goto hadv _ ih =>
    rw [hpick _ _ _ hj] at hadv
    cases fuel with
    | zero => simp [serve] at hserve
    | succ fuel =>
      rw [serve_goto hadv] at hserve
      exact ih (hgoto _ _ _ _ hj hadv) fuel hserve

theorem ends_iff_of_serves {answer : Option R} (P : J → Prop)
    (hpick : ∀ w pick j, P j → H.advance w pick j = H.advance w 0 j)
    (hgoto : ∀ w j w' j', P j → H.advance w 0 j = some (w', .goto j') → P j') (hj : P j)
    (hserves : H.Serves w j w₁ r) : H.Ends w j w' answer ↔ w' = w₁ ∧ answer = some r := by
  constructor
  · exact fun h => h.eq_of_serves P hpick hgoto hj hserves
  · rintro ⟨rfl, rfl⟩
    exact hserves.ends

section Par

variable {K S F : Type*} {H₁ : Handlers W J R E} {H₂ : Handlers W K S F} {k : K}
  {answer : Option (R ⊕ S)}

theorem ends_par_left : (H₁.par H₂).Ends w (.inl j) w' answer ↔
    ∃ r, answer = r.map .inl ∧ H₁.Ends w j w' r := by
  constructor
  · intro h
    generalize hx : (Sum.inl j : J ⊕ K) = x at h
    induction h generalizing j with
    | done hadv =>
      subst hx
      obtain ⟨⟨w₁, next⟩, hcall, heq⟩ := Option.map_eq_some_iff.mp hadv
      cases next with
      | goto => cases heq
      | done r => cases heq; exact ⟨r, rfl, .done hcall⟩
    | goto hadv _ ih =>
      subst hx
      obtain ⟨⟨w₁, next⟩, hcall, heq⟩ := Option.map_eq_some_iff.mp hadv
      cases next with
      | done => cases heq
      | goto j' =>
        cases heq
        obtain ⟨r, hr, hends⟩ := ih rfl
        exact ⟨r, hr, .goto hcall hends⟩
  · rintro ⟨r, rfl, h⟩
    induction h with
    | done hadv => exact .done (Option.map_eq_some_iff.mpr ⟨_, hadv, rfl⟩)
    | goto hadv _ ih => exact .goto (Option.map_eq_some_iff.mpr ⟨_, hadv, rfl⟩) ih

theorem ends_par_right : (H₁.par H₂).Ends w (.inr k) w' answer ↔
    ∃ r, answer = r.map .inr ∧ H₂.Ends w k w' r := by
  constructor
  · intro h
    generalize hx : (Sum.inr k : J ⊕ K) = x at h
    induction h generalizing k with
    | done hadv =>
      subst hx
      obtain ⟨⟨w₁, next⟩, hcall, heq⟩ := Option.map_eq_some_iff.mp hadv
      cases next with
      | goto => cases heq
      | done r => cases heq; exact ⟨r, rfl, .done hcall⟩
    | goto hadv _ ih =>
      subst hx
      obtain ⟨⟨w₁, next⟩, hcall, heq⟩ := Option.map_eq_some_iff.mp hadv
      cases next with
      | done => cases heq
      | goto k' =>
        cases heq
        obtain ⟨r, hr, hends⟩ := ih rfl
        exact ⟨r, hr, .goto hcall hends⟩
  · rintro ⟨r, rfl, h⟩
    induction h with
    | done hadv => exact .done (Option.map_eq_some_iff.mpr ⟨_, hadv, rfl⟩)
    | goto hadv _ ih => exact .goto (Option.map_eq_some_iff.mpr ⟨_, hadv, rfl⟩) ih

end Par

end FreeBox.Lib.Handlers
