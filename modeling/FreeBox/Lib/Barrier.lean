import Mathlib.Data.List.Nodup
import Mathlib.Data.Set.Defs

/-!
# A barrier after parallel requests

Workers take the indices of a set from each other and send requests for them. When every
index has been dealt with, one last request follows. The events of such a program are kept
in order: an event is allowed or not by the events before it.

Results:
* `Kept.allowed`: every event was allowed where it happened.
* `Kept.safe`: no index is taken twice, and the last request is sent only after a request
  for every index has succeeded, and never when an index has failed.
-/

namespace FreeBox.Lib.Barrier

/-- Where such a program is: at the request before the parallel ones, at these, at the
    request after them, or at its end. -/
inductive Stage
  | opening
  | sending
  | closing
  | closed
  | failed
  deriving DecidableEq

inductive Event (ι : Type*)
  | claimed (worker : ℕ) (index : ι)
  | put (index : ι) (answered : Bool)
  | failed (index : ι)
  | complete
  deriving DecidableEq

/-- The index that the event takes. -/
def Event.claim {ι : Type*} : Event ι → Option ι
  | .claimed _ index => some index
  | .put _ _ => none
  | .failed _ => none
  | .complete => none

/-- The indices that were taken. -/
def claims {ι : Type*} (events : List (Event ι)) : List ι := events.filterMap Event.claim

/-- The event may follow the events `before`. -/
def Event.Allowed {ι : Type*} (indices : Set ι) (before : List (Event ι)) : Event ι → Prop
  | .claimed _ index => index ∈ indices ∧ index ∉ claims before
  | .put _ _ => True
  | .failed _ => .complete ∉ before
  | .complete =>
    (∀ index ∈ indices, index ∈ claims before ∧ .put index true ∈ before) ∧
      ∀ index, .failed index ∉ before

/-- Every event was allowed where it happened. -/
inductive Kept {ι : Type*} (indices : Set ι) : List (Event ι) → Prop
  | nil : Kept indices []
  | concat {events : List (Event ι)} {e : Event ι} :
      Kept indices events → e.Allowed indices events → Kept indices (events ++ [e])

/-- What the events of a program with a barrier promise. -/
structure Safe {ι : Type*} (indices : Set ι) (events : List (Event ι)) : Prop where
  claimed_mem : ∀ i ∈ claims events, i ∈ indices
  claimed_once : (claims events).Nodup
  complete_after : ∀ before after, events = before ++ .complete :: after →
    ∀ i ∈ indices, (∃! k, .claimed k i ∈ before) ∧ .put i true ∈ before
  complete_unfailed : .complete ∈ events → ∀ i, .failed i ∉ events

variable {ι : Type*} {indices : Set ι} {events before after : List (Event ι)} {e : Event ι}
  {i : ι} {k : ℕ}

/-! ## The indices taken -/

theorem claims_append (events events' : List (Event ι)) :
    claims (events ++ events') = claims events ++ claims events' :=
  List.filterMap_append

theorem mem_claims : i ∈ claims events ↔ ∃ k, .claimed k i ∈ events := by
  unfold claims
  rw [List.mem_filterMap]
  constructor
  · rintro ⟨e, hmem, he⟩
    cases e with
    | claimed k index =>
      obtain rfl := Option.some.inj he
      exact ⟨k, hmem⟩
    | put index answered => cases he
    | failed index => cases he
    | complete => cases he
  · rintro ⟨k, hmem⟩
    exact ⟨_, hmem, rfl⟩

/-- An index that was taken once was taken by one worker. -/
theorem existsUnique_worker (hnodup : (claims events).Nodup) (hi : i ∈ claims events) :
    ∃! k, .claimed k i ∈ events := by
  obtain ⟨k, hk⟩ := mem_claims.mp hi
  refine ⟨k, hk, fun k' hk' => ?_⟩
  by_contra hne
  obtain ⟨before, after, rfl⟩ := List.append_of_mem hk
  rw [claims_append] at hnodup
  have hdisj := List.nodup_append.mp hnodup
  rcases List.mem_append.mp hk' with hbefore | hafter
  · exact hdisj.2.2 i (mem_claims.mpr ⟨k', hbefore⟩) i List.mem_cons_self rfl
  · rcases List.mem_cons.mp hafter with heq | hafter
    · exact hne (Event.claimed.inj heq).1
    · exact (List.nodup_cons.mp hdisj.2.1).1 (mem_claims.mpr ⟨k', hafter⟩)

/-! ## Events in order -/

namespace Kept

theorem allowed (h : Kept indices (before ++ e :: after)) : e.Allowed indices before := by
  generalize hl : before ++ e :: after = events at h
  induction h generalizing after with
  | nil => simp at hl
  | @concat events last hevents hlast ih =>
    rcases List.eq_nil_or_concat' after with rfl | ⟨after, last', rfl⟩
    · obtain ⟨rfl, hlast'⟩ := List.append_inj' hl rfl
      obtain rfl : e = last := List.singleton_inj.mp hlast'
      exact hlast
    · rw [← List.cons_append, ← List.append_assoc] at hl
      exact ih (List.append_inj' hl rfl).1

theorem claims_nodup (h : Kept indices events) : (claims events).Nodup := by
  induction h with
  | nil => exact List.nodup_nil
  | @concat events e _ he ih =>
    rw [claims_append]
    cases e with
    | claimed worker index => exact List.nodup_append.mpr ⟨ih, List.nodup_singleton index, by
        rintro i hi j hj rfl
        rw [List.mem_singleton.mp hj] at hi
        exact he.2 hi⟩
    | put index answered => rwa [show claims [.put index answered] = [] from rfl, List.append_nil]
    | failed index => rwa [show claims [.failed index] = [] from rfl, List.append_nil]
    | complete => rwa [show claims [.complete] = ([] : List ι) from rfl, List.append_nil]

theorem claims_mem (h : Kept indices events) (hi : i ∈ claims events) : i ∈ indices := by
  obtain ⟨k, hk⟩ := mem_claims.mp hi
  obtain ⟨before, after, rfl⟩ := List.append_of_mem hk
  exact h.allowed.1

theorem not_failed (h : Kept indices events) (hcomplete : .complete ∈ events) (i : ι) :
    .failed i ∉ events := by
  induction h with
  | nil => simp
  | @concat events e _ he ih =>
    intro hfailed
    rcases List.mem_append.mp hcomplete with hcomplete | hlast
    · rcases List.mem_append.mp hfailed with hfailed | hlast
      · exact ih hcomplete hfailed
      · rw [← List.mem_singleton.mp hlast] at he
        exact he hcomplete
    · rw [← List.mem_singleton.mp hlast] at he
      rcases List.mem_append.mp hfailed with hfailed | hfailed
      · exact he.2 i hfailed
      · rw [← List.mem_singleton.mp hlast] at hfailed
        simp at hfailed

theorem safe (h : Kept indices events) : Safe indices events where
  claimed_mem _ hi := h.claims_mem hi
  claimed_once := h.claims_nodup
  complete_after before after hsplit i hi := by
    subst hsplit
    have hclaims := h.claims_nodup
    rw [claims_append] at hclaims
    obtain ⟨hclaimed, hput⟩ := h.allowed.1 i hi
    exact ⟨existsUnique_worker (List.nodup_append.mp hclaims).1 hclaimed, hput⟩
  complete_unfailed hcomplete i := h.not_failed hcomplete i

theorem put (h : Kept indices events) (i : ι) (answered : Bool) :
    Kept indices (events ++ [.put i answered]) :=
  h.concat trivial

end Kept

end FreeBox.Lib.Barrier
