import FreeBox.Lib.Trace

/-!
# Sliding windows over a queue

A queue keeps the instants at which requests were admitted, oldest first. A
request is admitted while the queue, without the instants that have left the
window, is shorter than a limit. Pruning looks at the front of the queue only.

Results:
* `prune_prune`: pruning now makes earlier prunings superfluous.
* `prune_stateAfter`: for nondecreasing instants the pruned queue holds exactly the
  admitted instants in the window.
* `attempt_iff`: so a request is admitted exactly when fewer than the limit were
  admitted in the window before it.
* `count_window_le`: no interval of the window's length holds more admitted
  requests than the limit.
-/

namespace FreeBox.Lib.SlidingWindow

variable {limit window now now' : ℕ} {queue : List ℕ}

/-- The queue without the expired instants at its front. -/
def prune (window now : ℕ) (queue : List ℕ) : List ℕ := queue.dropWhile fun t => window ≤ now - t

/-- One request at the instant `now`. -/
def attempt (limit window : ℕ) (queue : List ℕ) (now : ℕ) : List ℕ × Bool :=
  if limit ≤ (prune window now queue).length then (prune window now queue, false)
  else (prune window now queue ++ [now], true)

/-- The admitted instants of a history of instants and answers. -/
def admitted (history : List (ℕ × Bool)) : List ℕ := (history.filter Prod.snd).map Prod.fst

/-- How many admitted instants are in the window that ends at `now`. -/
def recent (window now : ℕ) (history : List (ℕ × Bool)) : ℕ :=
  (admitted history).countP fun t => now - t < window

/-! ## Pruning -/

theorem dropWhile_dropWhile {α : Type*} {p q : α → Bool} (hpq : ∀ x, p x = true → q x = true)
    (l : List α) : (l.dropWhile p).dropWhile q = l.dropWhile q := by
  induction l with
  | nil => rfl
  | cons x l ih =>
    by_cases hp : p x = true
    · rw [List.dropWhile_cons_of_pos hp, List.dropWhile_cons_of_pos (hpq x hp), ih]
    · rw [List.dropWhile_cons_of_neg hp]

theorem prune_prune (h : now ≤ now') (queue : List ℕ) :
    prune window now' (prune window now queue) = prune window now' queue := by
  refine dropWhile_dropWhile (fun t ht => ?_) queue
  simp only [decide_eq_true_eq] at ht ⊢
  omega

theorem attempt_congr {queue' : List ℕ} (h : prune window now queue = prune window now queue') :
    attempt limit window queue now = attempt limit window queue' now := by
  rw [attempt, attempt, h]

theorem attempt_cases (limit window : ℕ) (queue : List ℕ) (now : ℕ) :
    (limit ≤ (prune window now queue).length ∧
        attempt limit window queue now = (prune window now queue, false)) ∨
      ((prune window now queue).length < limit ∧
        attempt limit window queue now = (prune window now queue ++ [now], true)) := by
  unfold attempt
  split_ifs with hfull
  · exact .inl ⟨hfull, rfl⟩
  · exact .inr ⟨Nat.lt_of_not_le hfull, rfl⟩

theorem attempt_snd : (attempt limit window queue now).2 = true ↔
    (prune window now queue).length < limit := by
  rcases attempt_cases limit window queue now with ⟨hfull, he⟩ | ⟨hroom, he⟩
  · rw [he]; simp [hfull]
  · rw [he]; simp [hroom]

/-! ## Histories -/

theorem admitted_concat (history : List (ℕ × Bool)) (e : ℕ × Bool) :
    admitted (history ++ [e]) = admitted history ++ if e.2 then [e.1] else [] := by
  rw [admitted, List.filter_append, List.map_append]
  cases h : e.2 <;> simp [admitted, h]

theorem mem_admitted {t : ℕ} {history : List (ℕ × Bool)} :
    t ∈ admitted history ↔ (t, true) ∈ history := by
  simp [admitted]

theorem mem_of_mem_admitted_trace {t : ℕ} {instants : List ℕ}
    (h : t ∈ admitted (trace (attempt limit window) [] instants)) : t ∈ instants := by
  have hmem := List.mem_map_of_mem (f := Prod.fst) (mem_admitted.mp h)
  rwa [map_fst_trace] at hmem

/-- The pruned queue is the admitted part of the history, restricted to the window. -/
theorem prune_stateAfter {instants : List ℕ} (hsorted : instants.Pairwise (· ≤ ·)) {now : ℕ}
    (hnow : ∀ t ∈ instants, t ≤ now) :
    prune window now (stateAfter (attempt limit window) [] instants) =
      (admitted (trace (attempt limit window) [] instants)).filter fun t => now - t < window := by
  induction instants using List.reverseRecOn generalizing now with
  | nil => rfl
  | append_singleton instants m ih =>
    obtain ⟨hsorted', -, hlast⟩ := List.pairwise_append.mp hsorted
    have hmnow : m ≤ now := hnow m (by simp)
    have hle : ∀ t ∈ instants, t ≤ m := fun t ht => hlast t ht m (by simp)
    have hkept := ih hsorted' fun t ht => Nat.le_trans (hle t ht) hmnow
    rw [stateAfter_concat, trace_concat, admitted_concat, List.filter_append, ← hkept]
    rcases attempt_cases limit window (stateAfter (attempt limit window) [] instants) m with
      ⟨-, he⟩ | ⟨-, he⟩ <;> rw [he]
    · rw [prune_prune hmnow]; simp
    · simp only [if_true]
      have happ : prune window now (prune window m (stateAfter (attempt limit window) [] instants) ++
          [m]) = if (prune window now (stateAfter (attempt limit window) [] instants)).isEmpty then
            prune window now [m]
          else prune window now (stateAfter (attempt limit window) [] instants) ++ [m] := by
        rw [← prune_prune hmnow (stateAfter _ _ _)]
        exact List.dropWhile_append
      rw [happ]
      by_cases hlive : now - m < window
      · have hsingle : prune window now [m] = [m] := by simp [prune, hlive]
        split_ifs with hempty
        · rw [List.isEmpty_iff.mp hempty, hsingle]; simp [hlive]
        · simp [hlive]
      · -- an older instant would have expired with `m`
        have hnil : prune window now (stateAfter (attempt limit window) [] instants) = [] := by
          rw [hkept, List.filter_eq_nil_iff]
          intro t ht
          have htm := hle t (mem_of_mem_admitted_trace ht)
          simp only [decide_eq_true_eq]
          omega
        rw [hnil]
        simp [prune, hlive, Nat.le_of_not_lt hlive]

/-- A request is admitted exactly when fewer than `limit` were admitted in the window. -/
theorem attempt_iff {instants : List ℕ} (hsorted : instants.Pairwise (· ≤ ·)) {now : ℕ}
    (hnow : ∀ t ∈ instants, t ≤ now) :
    (attempt limit window (stateAfter (attempt limit window) [] instants) now).2 = true ↔
      recent window now (trace (attempt limit window) [] instants) < limit := by
  rw [attempt_snd, prune_stateAfter hsorted hnow, recent, List.countP_eq_length_filter]

/-- At most `limit` requests are admitted in any interval of the length of the window. -/
theorem count_window_le {instants : List ℕ} (hsorted : instants.Pairwise (· ≤ ·)) (start : ℕ) :
    (admitted (trace (attempt limit window) [] instants)).countP
      (fun t => start ≤ t ∧ t < start + window) ≤ limit := by
  induction instants using List.reverseRecOn with
  | nil => exact Nat.zero_le limit
  | append_singleton instants m ih =>
    obtain ⟨hsorted', -, hlast⟩ := List.pairwise_append.mp hsorted
    have hle : ∀ t ∈ instants, t ≤ m := fun t ht => hlast t ht m (by simp)
    rw [trace_concat, admitted_concat]
    split_ifs with hok
    · rw [List.countP_append]
      have hroom := (attempt_iff hsorted' hle).mp hok
      by_cases hm : start ≤ m ∧ m < start + window
      · -- what the interval holds so far is in the window that ends at `m`
        have hsub : (admitted (trace (attempt limit window) [] instants)).countP
            (fun t => start ≤ t ∧ t < start + window) ≤
              recent window m (trace (attempt limit window) [] instants) := by
          refine List.countP_mono_left fun t ht hin => ?_
          simp only [decide_eq_true_eq] at hin ⊢
          omega
        simp only [hm, List.countP_singleton, and_self, decide_true, if_true]
        omega
      · simp only [List.countP_singleton, hm, decide_false, Bool.false_eq_true, if_false]
        exact ih hsorted'
    · rw [List.append_nil]
      exact ih hsorted'

end FreeBox.Lib.SlidingWindow
