import FreeBox.Lib.Run
import FreeBox.Lib.Table

/-!
# Interleaved request handlers over a shared world

Handlers `J` run concurrently over a shared world `W` (tables, object stores, a
clock). A handler in flight is a value of `J` that says which call it makes
next. Calls are atomic; between two calls of one handler, other handlers may
make theirs. A call succeeds (`advance`), fails without effect (`fail`), or the
handler is dropped before it (`cancel`). `E` are atomic events outside the
handlers.

Results:
* `step_cases`, `job_origin`: everything that one step can do, and where the handlers in
  flight after it come from.
* `ProofOutline.holds`: the rule of Owicki and Gries. An invariant of the world
  and an assertion for each handler in flight hold after every run, when each
  call keeps them and disturbs no other handler's assertion.
* `countWhere_settle`, `single_step`: the number of handlers at a given point after
  one call.
-/

namespace FreeBox.Lib

/-- What a handler does after a call: its next call, or its end with the
    response it sends, if it sends one. -/
inductive Next (J R : Type*)
  | goto (job : J)
  | done (response : Option R)
  deriving DecidableEq

/-- The handler that is left in flight, if any. -/
def Next.job? {J R : Type*} : Next J R → Option J
  | .goto job => some job
  | .done _ => none

@[simp] theorem Next.job?_goto {J R : Type*} (j : J) : (Next.goto j : Next J R).job? = some j := rfl

@[simp] theorem Next.job?_done {J R : Type*} (r : Option R) :
    (Next.done r : Next J R).job? = none := rfl

theorem Next.eq_goto_of_job? {J R : Type*} {next : Next J R} {j : J} (h : next.job? = some j) :
    next = .goto j := by
  cases next <;> cases h
  rfl

/-- A set of handlers. Where a call leaves an order open (the rows of a query,
    the keys of a listing), `pick` says which element comes next. -/
structure Handlers (W J R E : Type*) where
  /-- The point at which a handler starts. -/
  entry : J → Bool
  /-- The next call succeeds. -/
  advance : W → (pick : ℕ) → J → Option (W × Next J R)
  /-- The next call fails and changes nothing. -/
  onFail : (pick : ℕ) → J → Option (Next J R)
  /-- An atomic event outside the handlers. -/
  environ : W → E → Option W

/-- The world, the handlers in flight under their request numbers, and the
    responses sent so far, latest first, each with the point that sent it. -/
structure Sys (W J R : Type*) where
  world : W
  jobs : Table ℕ J
  answers : List (J × R)

inductive Action (J E : Type*)
  | arrive (rid : ℕ) (job : J)
  | advance (rid pick : ℕ)
  | fail (rid pick : ℕ)
  | cancel (rid : ℕ)
  | env (e : E)
  deriving DecidableEq

namespace Sys

variable {W J R : Type*}

/-- No request has arrived yet. -/
def idle (w : W) : Sys W J R := { world := w, jobs := ∅, answers := [] }

/-- Request `rid`, so far at `job`, leaves the world `w` and goes on with `next`. -/
def settle (s : Sys W J R) (rid : ℕ) (job : J) (w : W) (next : Next J R) : Sys W J R :=
  { world := w
    jobs := match next with
      | .goto job' => s.jobs.insert rid job'
      | .done _ => s.jobs.erase rid
    answers := match next with
      | .done (some r) => (job, r) :: s.answers
      | _ => s.answers }

variable {s : Sys W J R} {rid rid' : ℕ} {j : J} {w : W} {next : Next J R}

@[simp] theorem settle_world : (s.settle rid j w next).world = w := rfl

theorem lookup_settle : (s.settle rid j w next).jobs.lookup rid' =
    if rid' = rid then next.job? else s.jobs.lookup rid' := by
  cases next with
  | goto j' => exact Table.lookup_insert_eq rid rid' j' s.jobs
  | done r => exact Table.lookup_erase_eq rid rid' s.jobs

/-- A handler in flight after a call is another one, or the one that has made it. -/
theorem of_lookup_settle {k : J} (hk : (s.settle rid j w next).jobs.lookup rid' = some k) :
    (rid' ≠ rid ∧ s.jobs.lookup rid' = some k) ∨ (rid' = rid ∧ next = .goto k) := by
  rw [lookup_settle] at hk
  split_ifs at hk with he
  · exact .inr ⟨he, Next.eq_goto_of_job? hk⟩
  · exact .inl ⟨he, hk⟩

/-- What holds of all handlers in flight still does if it holds where the call leads. -/
theorem forall_settle {P : J → Prop} (h : ∀ rid j, s.jobs.lookup rid = some j → P j)
    (hnext : ∀ k, next = .goto k → P k) (rid' : ℕ) (k : J)
    (hk : (s.settle rid j w next).jobs.lookup rid' = some k) : P k := by
  rcases of_lookup_settle hk with ⟨-, hold⟩ | ⟨-, hgoto⟩
  · exact h rid' k hold
  · exact hnext k hgoto

theorem mem_answers_settle {x : J × R} (h : x ∈ (s.settle rid j w next).answers) :
    x ∈ s.answers ∨ (x.1 = j ∧ next = .done (some x.2)) := by
  cases next with
  | goto j' => exact .inl h
  | done r =>
    cases r with
    | none => exact .inl h
    | some r =>
      rcases List.mem_cons.mp h with rfl | h
      · exact .inr ⟨rfl, rfl⟩
      · exact .inl h

theorem countWhere_settle {p : J → Bool} (hj : s.jobs.lookup rid = some j) :
    Table.countWhere (fun _ => p) (s.settle rid j w next).jobs + (if p j then 1 else 0) =
      Table.countWhere (fun _ => p) s.jobs + if next.job?.any p then 1 else 0 := by
  cases next with
  | goto j' =>
    simp only [Next.job?_goto, Option.any_some]
    exact Table.countWhere_insert_old (p := fun _ => p) hj
  | done r =>
    simp only [Next.job?_done, Option.any_none, Bool.false_eq_true, if_false, Nat.add_zero]
    exact (Table.countWhere_erase (p := fun _ => p) hj).symm

end Sys

namespace Handlers

variable {W J R E : Type*} (H : Handlers W J R E)

/-- One step of the system. -/
def step (s : Sys W J R) : Action J E → Option (Sys W J R)
  | .arrive rid j =>
    if H.entry j ∧ s.jobs.lookup rid = none then some { s with jobs := s.jobs.insert rid j }
    else none
  | .advance rid pick =>
    (s.jobs.lookup rid).bind fun j =>
      (H.advance s.world pick j).bind fun (w, next) => some (s.settle rid j w next)
  | .fail rid pick =>
    (s.jobs.lookup rid).bind fun j =>
      (H.onFail pick j).bind fun next => some (s.settle rid j s.world next)
  | .cancel rid =>
    (s.jobs.lookup rid).bind fun _ => some { s with jobs := s.jobs.erase rid }
  | .env e => (H.environ s.world e).bind fun w => some { s with world := w }

/-- Everything that one step can do. -/
inductive StepCase (s : Sys W J R) : Action J E → Sys W J R → Prop
  | arrive {rid : ℕ} {j : J} (hentry : H.entry j) (hnew : s.jobs.lookup rid = none) :
      StepCase s (.arrive rid j) { s with jobs := s.jobs.insert rid j }
  | advance {rid pick : ℕ} {j : J} {w : W} {next : Next J R} (hj : s.jobs.lookup rid = some j)
      (hw : H.advance s.world pick j = some (w, next)) :
      StepCase s (.advance rid pick) (s.settle rid j w next)
  | fail {rid pick : ℕ} {j : J} {next : Next J R} (hj : s.jobs.lookup rid = some j)
      (hn : H.onFail pick j = some next) :
      StepCase s (.fail rid pick) (s.settle rid j s.world next)
  | cancel {rid : ℕ} {j : J} (hj : s.jobs.lookup rid = some j) :
      StepCase s (.cancel rid) { s with jobs := s.jobs.erase rid }
  | env {e : E} {w : W} (hw : H.environ s.world e = some w) :
      StepCase s (.env e) { s with world := w }

variable {H} {s s' : Sys W J R} {a : Action J E}

theorem step_cases (h : H.step s a = some s') : H.StepCase s a s' := by
  cases a with
  | arrive rid j =>
    simp only [step] at h
    split_ifs at h with hc
    cases h
    exact .arrive hc.1 hc.2
  | advance rid pick =>
    obtain ⟨j, hj, h⟩ := Option.bind_eq_some_iff.mp h
    obtain ⟨⟨w, next⟩, hw, h⟩ := Option.bind_eq_some_iff.mp h
    obtain rfl := Option.some.inj h
    exact .advance hj hw
  | fail rid pick =>
    obtain ⟨j, hj, h⟩ := Option.bind_eq_some_iff.mp h
    obtain ⟨next, hn, h⟩ := Option.bind_eq_some_iff.mp h
    obtain rfl := Option.some.inj h
    exact .fail hj hn
  | cancel rid =>
    obtain ⟨j, hj, h⟩ := Option.bind_eq_some_iff.mp h
    obtain rfl := Option.some.inj h
    exact .cancel hj
  | env e =>
    obtain ⟨w, hw, h⟩ := Option.bind_eq_some_iff.mp h
    obtain rfl := Option.some.inj h
    exact .env hw

variable (H) in
/-- By which step from `s` to `s'` a handler has come to be at `k`. -/
inductive JobOrigin (s : Sys W J R) (rid : ℕ) (k : J) : Action J E → Sys W J R → Prop
  | old {a : Action J E} {s' : Sys W J R} (h : s.jobs.lookup rid = some k) :
      JobOrigin s rid k a s'
  | arrived {s' : Sys W J R} (hentry : H.entry k) : JobOrigin s rid k (.arrive rid k) s'
  | advanced {pick : ℕ} {j : J} {s' : Sys W J R} (hj : s.jobs.lookup rid = some j)
      (hw : H.advance s.world pick j = some (s'.world, .goto k)) :
      JobOrigin s rid k (.advance rid pick) s'
  | failed {pick : ℕ} {j : J} {s' : Sys W J R} (hj : s.jobs.lookup rid = some j)
      (hn : H.onFail pick j = some (.goto k)) : JobOrigin s rid k (.fail rid pick) s'

/-- Where the handlers in flight after a step come from. -/
theorem job_origin {rid : ℕ} {k : J} (hs : H.step s a = some s')
    (hk : s'.jobs.lookup rid = some k) : H.JobOrigin s rid k a s' := by
  cases step_cases hs with
  | @arrive rid' j hentry hnew =>
    rw [Table.lookup_insert_eq] at hk
    split_ifs at hk with he
    · obtain rfl := Option.some.inj hk
      rw [he]
      exact .arrived hentry
    · exact .old hk
  | advance hj hw =>
    rcases Sys.of_lookup_settle hk with ⟨-, hold⟩ | ⟨rfl, rfl⟩
    · exact .old hold
    · exact .advanced hj hw
  | fail hj hn =>
    rcases Sys.of_lookup_settle hk with ⟨-, hold⟩ | ⟨rfl, rfl⟩
    · exact .old hold
    · exact .failed hj hn
  | cancel hj =>
    rw [Table.lookup_erase_eq] at hk
    split_ifs at hk
    exact .old hk
  | env => exact .old hk

variable (H) in
/-- How a handler has come to be at `k`. -/
inductive JobCase (s : Sys W J R) (rid : ℕ) (k : J) : Prop
  | old (h : s.jobs.lookup rid = some k)
  | arrived (hentry : H.entry k)
  | advanced {pick : ℕ} {j : J} {w : W} (hj : s.jobs.lookup rid = some j)
      (hw : H.advance s.world pick j = some (w, .goto k))
  | failed {pick : ℕ} {j : J} (hj : s.jobs.lookup rid = some j)
      (hn : H.onFail pick j = some (.goto k))

/-- The same without the step. -/
theorem job_cases {rid : ℕ} {k : J} (hs : H.step s a = some s') (hk : s'.jobs.lookup rid = some k) :
    H.JobCase s rid k := by
  cases job_origin hs hk with
  | old h => exact .old h
  | arrived hentry => exact .arrived hentry
  | advanced hj hw => exact .advanced hj hw
  | failed hj hn => exact .failed hj hn

variable (H) in
/-- What one step sends. -/
inductive AnswerCase (s : Sys W J R) : Action J E → Sys W J R → Prop
  | silent {a : Action J E} {t : Sys W J R} (h : t.answers = s.answers) : AnswerCase s a t
  | advanced {rid pick : ℕ} {j : J} {r : R} {t : Sys W J R} (hj : s.jobs.lookup rid = some j)
      (hw : H.advance s.world pick j = some (t.world, .done (some r)))
      (hdone : t.jobs.lookup rid = none) (h : t.answers = (j, r) :: s.answers) :
      AnswerCase s (.advance rid pick) t
  | failed {rid pick : ℕ} {j : J} {r : R} {t : Sys W J R} (hj : s.jobs.lookup rid = some j)
      (hn : H.onFail pick j = some (.done (some r))) (h : t.answers = (j, r) :: s.answers) :
      AnswerCase s (.fail rid pick) t

theorem answer_cases (hs : H.step s a = some s') : H.AnswerCase s a s' := by
  cases step_cases hs with
  | @advance rid pick j w next hj hw =>
    cases next with
    | goto j' => exact .silent rfl
    | done r =>
      cases r with
      | none => exact .silent rfl
      | some r => exact .advanced hj hw (by rw [Sys.lookup_settle, if_pos rfl]; rfl) rfl
  | @fail rid pick j next hj hn =>
    cases next with
    | goto j' => exact .silent rfl
    | done r =>
      cases r with
      | none => exact .silent rfl
      | some r => exact .failed hj hn rfl
  | _ => exact .silent rfl

/-- At most one handler in flight satisfies `p` after a step, as before it, when one
    that satisfies `p` arrives only if there is none and no call makes a handler
    satisfy `p` that did not. -/
theorem single_step {p : J → Bool} (h : Table.countWhere (fun _ => p) s.jobs ≤ 1)
    (harrive : ∀ rid j, a = .arrive rid j → p j = true → Table.countWhere (fun _ => p) s.jobs = 0)
    (hadvance : ∀ w pick j w' next, H.advance w pick j = some (w', next) →
      next.job?.any p = true → p j = true)
    (hfail : ∀ pick j next, H.onFail pick j = some next → next.job?.any p = true → p j = true)
    (hs : H.step s a = some s') : Table.countWhere (fun _ => p) s'.jobs ≤ 1 := by
  have hsettle : ∀ rid j w next, s.jobs.lookup rid = some j →
      (next.job?.any p = true → p j = true) →
      Table.countWhere (fun _ => p) (s.settle rid j w next).jobs ≤ 1 := by
    intro rid j w next hj hnext
    have hcount : Table.countWhere (fun _ => p) (s.settle rid j w next).jobs +
        (if p j then 1 else 0) = Table.countWhere (fun _ => p) s.jobs +
          if next.job?.any p then 1 else 0 := Sys.countWhere_settle hj
    by_cases hp : p j = true
    · rw [if_pos hp] at hcount
      split_ifs at hcount <;> omega
    · rw [if_neg hp, if_neg (mt hnext hp)] at hcount
      omega
  cases step_cases hs with
  | @arrive rid j hentry hnew =>
    have hcount := Table.countWhere_insert_new (p := fun _ => p) (r := j) hnew
    have hzero := harrive rid j rfl
    split_ifs at hcount with hj
    · have := hzero hj
      simp only
      omega
    · simp only
      omega
  | advance hj hw => exact hsettle _ _ _ _ hj (hadvance _ _ _ _ _ hw)
  | fail hj hn => exact hsettle _ _ _ _ hj (hfail _ _ _ hn)
  | cancel hj =>
    have hcount := Table.countWhere_erase (p := fun _ => p) hj
    simp only
    omega
  | env => exact h

/-! ## The rule of Owicki and Gries -/

/-- The world satisfies `I` and every handler in flight satisfies `A`. -/
def Holds (I : W → Prop) (A : W → J → Prop) (s : Sys W J R) : Prop :=
  I s.world ∧ ∀ rid j, s.jobs.lookup rid = some j → A s.world j

variable (H) in
/-- `I` and `A` annotate the handlers: each call keeps the invariant `I`,
    establishes the assertion of the point it leads to, and disturbs no
    assertion of another handler in flight. `ok` is the guard of the runs. -/
structure ProofOutline (ok : Sys W J R → Action J E → Prop) (I : W → Prop) (A : W → J → Prop) :
    Prop where
  arrive : ∀ s rid j, Holds I A s → ok s (.arrive rid j) → H.entry j → A s.world j
  advance : ∀ s rid pick j w next, Holds I A s → ok s (.advance rid pick) →
    s.jobs.lookup rid = some j → H.advance s.world pick j = some (w, next) →
    I w ∧ ∀ j', next = .goto j' → A w j'
  undisturbed : ∀ s rid pick j w next rid' k, Holds I A s → ok s (.advance rid pick) →
    s.jobs.lookup rid = some j → H.advance s.world pick j = some (w, next) →
    rid' ≠ rid → s.jobs.lookup rid' = some k → A w k
  fail : ∀ w pick j j', I w → A w j → H.onFail pick j = some (.goto j') → A w j'
  env : ∀ s e w, Holds I A s → ok s (.env e) → H.environ s.world e = some w →
    I w ∧ ∀ j, A s.world j → A w j

variable {ok : Sys W J R → Action J E → Prop} {I : W → Prop} {A : W → J → Prop}

theorem ProofOutline.preserves (P : H.ProofOutline ok I A) (h : Holds I A s) (hok : ok s a)
    (hs : H.step s a = some s') : Holds I A s' := by
  cases step_cases hs with
  | @arrive rid j hentry hnew =>
    refine ⟨h.1, fun rid' k hk => ?_⟩
    rw [Table.lookup_insert_eq] at hk
    split_ifs at hk with he
    · cases hk; exact P.arrive s rid j h hok hentry
    · exact h.2 rid' k hk
  | @advance rid pick j w next hj hw =>
    obtain ⟨hI, hA⟩ := P.advance s rid pick j w next h hok hj hw
    refine ⟨hI, fun rid' k hk => ?_⟩
    rcases Sys.of_lookup_settle hk with ⟨hne, hold⟩ | ⟨-, hnext⟩
    · exact P.undisturbed s rid pick j w next rid' k h hok hj hw hne hold
    · exact hA k hnext
  | @fail rid pick j next hj hn =>
    refine ⟨h.1, fun rid' k hk => ?_⟩
    rcases Sys.of_lookup_settle hk with ⟨-, hold⟩ | ⟨-, rfl⟩
    · exact h.2 rid' k hold
    · exact P.fail _ pick j k h.1 (h.2 rid j hj) hn
  | @cancel rid j hj =>
    refine ⟨h.1, fun rid' k hk => ?_⟩
    rw [Table.lookup_erase_eq] at hk
    split_ifs at hk with he
    exact h.2 rid' k hk
  | @env e w hw =>
    obtain ⟨hI, hA⟩ := P.env s e w h hok hw
    exact ⟨hI, fun rid k hk => hA k (h.2 rid k hk)⟩

/-- Every run of annotated handlers ends in a state that satisfies the
    invariant and all assertions. -/
theorem ProofOutline.holds (P : H.ProofOutline ok I A) {as : List (Action J E)}
    (hr : Run H.step ok s as s') (h : Holds I A s) : Holds I A s' :=
  hr.invariant _ h fun _ _ _ h hok hs => P.preserves h hok hs

theorem holds_idle {w : W} (h : I w) : Holds I A (Sys.idle w : Sys W J R) :=
  ⟨h, fun rid j hj => by simp [Sys.idle] at hj⟩

end Handlers

end FreeBox.Lib
