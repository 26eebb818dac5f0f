import FreeBox.Lib.SlidingWindow
import FreeBox.Lib.Table
import FreeBox.Server.Http
import Mathlib.Data.Finset.Card

/-!
# Rate limiting

Model of `apps/server/src/rate_limit.rs`. An `Instant` is a natural number, the
subtraction `duration_since` is truncated, and the iteration order of the hash map,
which is unspecified, is an argument of each call. `DefaultHasher` is a parameter.

Results:
* `allow_own`, `allow_other`: what a call does to the bucket of its key and to the
  buckets of other keys.
* `historyOf_trace`: while the bucket of a key is not evicted, the calls with this
  key are answered like those of one sliding window.
* `not_evicted_of_liveKeys`: no bucket is evicted while there are few live keys.
* `allow_iff`: the limiter refines a log of the admitted calls.
* `answersTo_eq`: the calls of other keys do not change the answers to a key whose
  bucket is not evicted.
-/

namespace FreeBox.Server

open FreeBox.Lib

/-- The buckets behind the mutex of the limiter. -/
abbrev Buckets := Table String (List ℕ)

/-- `rate_limit::RateLimiter` without the buckets. -/
structure RateLimiter where
  maxRequests : ℕ
  window : ℕ
  maxBuckets : ℕ
  requests_pos : 0 < maxRequests
  buckets_pos : 0 < maxBuckets
  deriving DecidableEq

/-- One call of `allow`: the key, the clock reading and the iteration order of the map. -/
structure Call where
  key : String
  now : ℕ
  order : ℕ
  deriving DecidableEq

namespace RateLimiter

/-- `RateLimiter::with_max_buckets`. -/
def withMaxBuckets (maxRequests : UInt32) (window maxBuckets : ℕ) : RateLimiter where
  maxRequests := max maxRequests.toNat 1
  window
  maxBuckets := max maxBuckets 1
  requests_pos := by omega
  buckets_pos := by omega

/-- `rate_limit::DEFAULT_MAX_BUCKETS`. -/
def defaultMaxBuckets : ℕ := 100000

/-- `RateLimiter::new`. -/
def new (maxRequests : UInt32) (window : ℕ) : RateLimiter :=
  withMaxBuckets maxRequests window defaultMaxBuckets

/-- `RateLimiter::prune_expired`. -/
def pruneExpired (limiter : RateLimiter) (now : ℕ) (buckets : Buckets) : Buckets :=
  buckets.retain fun bucket =>
    let bucket := SlidingWindow.prune limiter.window now bucket
    if bucket = [] then none else some bucket

/-- The key that `evict_oldest_bucket` finds: of the buckets that were last used
    longest ago the first in iteration order. -/
def oldestKey (order : ℕ) (buckets : Buckets) : Option String :=
  let used := buckets.entries.filterMap fun e => e.2.getLast?.map fun last => (e.1, last)
  let oldest := used.filter fun x => used.all fun y => x.2 ≤ y.2
  oldest[order % oldest.length]?.map Prod.fst

/-- `RateLimiter::evict_oldest_bucket`. -/
def evictOldestBucket (order : ℕ) (buckets : Buckets) : Buckets :=
  match oldestKey order buckets with
  | none => buckets
  | some key => buckets.erase key

/-- `RateLimiter::allow`. -/
def allow (limiter : RateLimiter) (buckets : Buckets) (c : Call) : Buckets × Bool :=
  let buckets := limiter.pruneExpired c.now buckets
  let buckets := if c.key ∉ buckets ∧ limiter.maxBuckets ≤ buckets.keys.length then
    evictOldestBucket c.order buckets else buckets
  let bucket := (buckets.lookup c.key).getD []
  if limiter.maxRequests ≤ bucket.length then (buckets.insert c.key bucket, false)
  else (buckets.insert c.key (bucket ++ [c.now]), true)

/-! ## One call -/

/-- The bucket of a key; a key without a bucket has an empty one. -/
def bucketOf (buckets : Buckets) (key : String) : List ℕ := (buckets.lookup key).getD []

/-- The bucket that a call evicts. -/
def evicted (limiter : RateLimiter) (buckets : Buckets) (c : Call) : Option String :=
  let buckets := limiter.pruneExpired c.now buckets
  if c.key ∉ buckets ∧ limiter.maxBuckets ≤ buckets.keys.length then oldestKey c.order buckets
  else none

variable {limiter : RateLimiter} {buckets : Buckets} {c : Call} {key : String} {calls : List Call}

theorem bucketOf_insert (key' : String) (bucket : List ℕ) :
    bucketOf (buckets.insert key bucket) key' =
      if key' = key then bucket else bucketOf buckets key' := by
  rw [bucketOf, Table.lookup_insert_eq]
  split_ifs <;> rfl

theorem bucketOf_pruneExpired (now : ℕ) (key : String) :
    bucketOf (limiter.pruneExpired now buckets) key =
      SlidingWindow.prune limiter.window now (bucketOf buckets key) := by
  rw [bucketOf, bucketOf, pruneExpired, Table.lookup_retain]
  cases buckets.lookup key with
  | none => rfl
  | some bucket =>
    simp only [Option.bind_some, Option.getD_some]
    split_ifs with h
    · rw [h]; rfl
    · rfl

theorem mem_pruneExpired {now : ℕ} : key ∈ limiter.pruneExpired now buckets ↔
    SlidingWindow.prune limiter.window now (bucketOf buckets key) ≠ [] := by
  rw [Table.mem_iff_lookup, pruneExpired, Table.lookup_retain, bucketOf]
  cases buckets.lookup key with
  | none => simp [SlidingWindow.prune]
  | some bucket => simp

/-- The buckets before the request is counted. -/
theorem bucketOf_room (limiter : RateLimiter) (buckets : Buckets) (c : Call) (key : String) :
    bucketOf (if c.key ∉ limiter.pruneExpired c.now buckets ∧
        limiter.maxBuckets ≤ (limiter.pruneExpired c.now buckets).keys.length then
      evictOldestBucket c.order (limiter.pruneExpired c.now buckets)
      else limiter.pruneExpired c.now buckets) key =
      if limiter.evicted buckets c = some key then []
      else SlidingWindow.prune limiter.window c.now (bucketOf buckets key) := by
  rw [← bucketOf_pruneExpired]
  by_cases hfull : c.key ∉ limiter.pruneExpired c.now buckets ∧
      limiter.maxBuckets ≤ (limiter.pruneExpired c.now buckets).keys.length
  · have hevicted : limiter.evicted buckets c =
        oldestKey c.order (limiter.pruneExpired c.now buckets) := if_pos hfull
    rw [if_pos hfull, hevicted, evictOldestBucket]
    cases oldestKey c.order (limiter.pruneExpired c.now buckets) with
    | none => rfl
    | some key' =>
      simp only [bucketOf, Table.lookup_erase_eq, Option.some_inj, eq_comm (a := key')]
      split_ifs <;> rfl
  · have hevicted : limiter.evicted buckets c = none := if_neg hfull
    rw [if_neg hfull, hevicted, if_neg nofun]

/-- Evicting another bucket does not change that a new key has none. -/
theorem bucketOf_room_own (c : Call) : (if limiter.evicted buckets c = some c.key then []
      else SlidingWindow.prune limiter.window c.now (bucketOf buckets c.key)) =
    SlidingWindow.prune limiter.window c.now (bucketOf buckets c.key) := by
  split_ifs with h
  · simp only [evicted] at h
    split_ifs at h with hfull
    exact (not_not.mp (mt mem_pruneExpired.mpr hfull.1)).symm
  · rfl

/-- A call treats the bucket of its key as a sliding window. -/
theorem allow_own (limiter : RateLimiter) (buckets : Buckets) (c : Call) :
    (bucketOf (limiter.allow buckets c).1 c.key, (limiter.allow buckets c).2) =
      SlidingWindow.attempt limiter.maxRequests limiter.window (bucketOf buckets c.key) c.now := by
  have hroom := (bucketOf_room limiter buckets c c.key).trans (bucketOf_room_own c)
  rw [bucketOf] at hroom
  rw [SlidingWindow.attempt, allow]
  simp only [hroom]
  split_ifs <;> rw [bucketOf_insert, if_pos rfl]

/-- A call prunes the bucket of another key, or evicts it. -/
theorem allow_other (limiter : RateLimiter) (buckets : Buckets) (hkey : key ≠ c.key) :
    bucketOf (limiter.allow buckets c).1 key = if limiter.evicted buckets c = some key then []
    else SlidingWindow.prune limiter.window c.now (bucketOf buckets key) := by
  rw [← bucketOf_room, allow]
  split_ifs <;> simp only [bucketOf_insert, hkey, if_false]

/-! ## Runs -/

/-- The clock readings of the calls with `key`. -/
def timesOf (key : String) (calls : List Call) : List ℕ :=
  (calls.filter fun c => c.key = key).map Call.now

/-- The calls with `key` in a trace, with their answers. -/
def historyOf (key : String) (log : List (Call × Bool)) : List (ℕ × Bool) :=
  (log.filter fun e => e.1.key = key).map fun e => (e.1.now, e.2)

/-- The answers to `key`. -/
def answersTo (key : String) (log : List (Call × Bool)) : List Bool :=
  (historyOf key log).map Prod.snd

/-- No call with another key evicts the bucket of `key`. -/
def Spared (limiter : RateLimiter) (key : String) (calls : List Call) : Prop :=
  ∀ before c rest, calls = before ++ c :: rest → c.key ≠ key →
    limiter.evicted (stateAfter limiter.allow ∅ before) c ≠ some key

/-- No call with another key has read a later clock than a call with `key` after it. -/
def InOrder (key : String) (calls : List Call) : Prop :=
  ∀ before c rest, calls = before ++ c :: rest → c.key = key →
    ∀ d ∈ before, d.key ≠ key → d.now ≤ c.now

theorem Spared.of_concat (h : Spared limiter key (calls ++ [c])) : Spared limiter key calls :=
  fun before d rest hcalls => h before d (rest ++ [c]) (by rw [hcalls]; simp)

theorem InOrder.of_concat (h : InOrder key (calls ++ [c])) : InOrder key calls :=
  fun before d rest hcalls => h before d (rest ++ [c]) (by rw [hcalls]; simp)

theorem timesOf_concat (key : String) (calls : List Call) (c : Call) :
    timesOf key (calls ++ [c]) = timesOf key calls ++ if c.key = key then [c.now] else [] := by
  rw [timesOf, List.filter_append, List.map_append]
  by_cases h : c.key = key <;> simp [timesOf, h]

theorem historyOf_concat (key : String) (log : List (Call × Bool)) (e : Call × Bool) :
    historyOf key (log ++ [e]) =
      historyOf key log ++ if e.1.key = key then [(e.1.now, e.2)] else [] := by
  rw [historyOf, List.filter_append, List.map_append]
  by_cases h : e.1.key = key <;> simp [historyOf, h]

/-- A client whose bucket is not evicted is answered like the only client of a sliding
    window, and its bucket is the queue of that window, up to expired instants. -/
theorem historyOf_trace (hspared : Spared limiter key calls) (horder : InOrder key calls) :
    historyOf key (trace limiter.allow ∅ calls) =
        trace (SlidingWindow.attempt limiter.maxRequests limiter.window) [] (timesOf key calls) ∧
      ∀ now, (∀ d ∈ calls, d.key ≠ key → d.now ≤ now) →
        SlidingWindow.prune limiter.window now
            (bucketOf (stateAfter limiter.allow ∅ calls) key) =
          SlidingWindow.prune limiter.window now
            (stateAfter (SlidingWindow.attempt limiter.maxRequests limiter.window) []
              (timesOf key calls)) := by
  induction calls using List.reverseRecOn with
  | nil => exact ⟨rfl, fun _ _ => rfl⟩
  | append_singleton calls c ih =>
    obtain ⟨hhistory, hbucket⟩ := ih hspared.of_concat horder.of_concat
    rw [trace_concat, historyOf_concat, stateAfter_concat, timesOf_concat, hhistory]
    by_cases hkey : c.key = key
    · subst hkey
      -- both sides prune at the same instant and then do the same
      have hattempt := (allow_own limiter (stateAfter limiter.allow ∅ calls) c).trans
        (SlidingWindow.attempt_congr (hbucket c.now (horder calls c [] rfl rfl)))
      have hown := congrArg Prod.fst hattempt
      have hanswer := congrArg Prod.snd hattempt
      simp only at hown hanswer
      simp only [if_true, trace_concat, stateAfter_concat, hown, hanswer, true_and]
      exact fun _ _ => trivial
    · have hother := allow_other limiter (stateAfter limiter.allow ∅ calls) (Ne.symm hkey)
      rw [if_neg (hspared calls c [] rfl hkey)] at hother
      simp only [hkey, if_false, List.append_nil, true_and]
      intro now hnow
      rw [hother, SlidingWindow.prune_prune (hnow c (by simp) hkey)]
      exact hbucket now fun d hd => hnow d (List.mem_append_left _ hd)

/-! ## The log of admitted calls -/

/-- The keys with an admitted call in the window that ends at `now`. -/
def liveKeys (window : ℕ) (now : ℕ) (log : List (Call × Bool)) : Finset String :=
  ((log.filter fun e => e.2 ∧ now - e.1.now < window).map fun e => e.1.key).toFinset

theorem mem_liveKeys {window : ℕ} {now : ℕ} {log : List (Call × Bool)} :
    key ∈ liveKeys window now log ↔
      ∃ c, (c, true) ∈ log ∧ now - c.now < window ∧ c.key = key := by
  simp only [liveKeys, List.mem_toFinset, List.mem_map, List.mem_filter, decide_eq_true_eq,
    Prod.exists]
  constructor
  · rintro ⟨c, b, ⟨hmem, rfl, hlive⟩, hkey⟩; exact ⟨c, hmem, hlive, hkey⟩
  · rintro ⟨c, hmem, hlive, hkey⟩; exact ⟨c, true, ⟨hmem, rfl, hlive⟩, hkey⟩

theorem mem_historyOf {log : List (Call × Bool)} {t : ℕ} {b : Bool} :
    (t, b) ∈ historyOf key log ↔ ∃ c, (c, b) ∈ log ∧ c.key = key ∧ c.now = t := by
  simp only [historyOf, List.mem_map, List.mem_filter, decide_eq_true_eq, Prod.exists,
    Prod.mk.injEq]
  constructor
  · rintro ⟨c, b', ⟨hmem, hkey⟩, ht, rfl⟩; exact ⟨c, hmem, hkey, ht⟩
  · rintro ⟨c, hmem, hkey, ht⟩; exact ⟨c, b, ⟨hmem, hkey⟩, ht, rfl⟩

/-- The admitted calls with `key`, counted in the log of all calls. -/
theorem countP_admitted_historyOf (p : ℕ → Bool) (key : String) (log : List (Call × Bool)) :
    (SlidingWindow.admitted (historyOf key log)).countP p =
      log.countP fun e => e.2 ∧ e.1.key = key ∧ p e.1.now := by
  rw [SlidingWindow.admitted, historyOf, List.countP_map, List.countP_filter, List.countP_map,
    List.countP_filter]
  refine List.countP_congr fun e _ => ?_
  simp only [Function.comp_apply, Bool.and_eq_true, decide_eq_true_eq]
  tauto

theorem InOrder.of_pairwise (h : calls.Pairwise fun a b => a.now ≤ b.now) : InOrder key calls := by
  rintro before c rest rfl - d hd -
  exact (List.pairwise_append.mp h).2.2 d hd c (by simp)

theorem timesOf_pairwise (h : calls.Pairwise fun a b => a.now ≤ b.now) :
    (timesOf key calls).Pairwise (· ≤ ·) :=
  List.pairwise_map.mpr (h.filter _)

/-- After each call at most `n` keys have an admitted call in the last window. -/
def FewLiveKeys (limiter : RateLimiter) (n : ℕ) (calls : List Call) : Prop :=
  ∀ before e rest, trace limiter.allow ∅ calls = before ++ e :: rest →
    (liveKeys limiter.window e.1.now (before ++ [e])).card ≤ n

theorem FewLiveKeys.of_concat {n : ℕ} (h : FewLiveKeys limiter n (calls ++ [c])) :
    FewLiveKeys limiter n calls := by
  intro before e rest hsplit
  rw [FewLiveKeys, trace_concat] at h
  exact h before e (rest ++ [(c, (limiter.allow (stateAfter limiter.allow ∅ calls) c).2)])
    (by rw [hsplit]; simp)

theorem fewLiveKeys_of_length_le {n : ℕ} (h : calls.length ≤ n) : FewLiveKeys limiter n calls := by
  intro before e rest hsplit
  have hlen := congrArg List.length hsplit
  rw [length_trace, List.length_append, List.length_cons] at hlen
  calc (liveKeys limiter.window e.1.now (before ++ [e])).card
      ≤ (((before ++ [e]).filter fun x => x.2 ∧ e.1.now - x.1.now < limiter.window).map
          fun x => x.1.key).length := List.toFinset_card_le _
    _ ≤ (before ++ [e]).length := by rw [List.length_map]; exact List.length_filter_le _ _
    _ ≤ n := by rw [List.length_append, List.length_singleton]; omega

/-- A key with a bucket that has not expired is live. -/
theorem mem_liveKeys_of_mem (hspared : Spared limiter key calls)
    (hsorted : (calls ++ [c]).Pairwise fun a b => a.now ≤ b.now)
    (hmem : key ∈ limiter.pruneExpired c.now (stateAfter limiter.allow ∅ calls)) :
    key ∈ liveKeys limiter.window c.now (trace limiter.allow ∅ calls) := by
  obtain ⟨hcalls, -, hlast⟩ := List.pairwise_append.mp hsorted
  have hle : ∀ d ∈ calls, d.now ≤ c.now := fun d hd => hlast d hd c (by simp)
  obtain ⟨hhistory, hbucket⟩ := historyOf_trace hspared (InOrder.of_pairwise hcalls)
  have htimes : ∀ t ∈ timesOf key calls, t ≤ c.now := by
    intro t ht
    obtain ⟨d, hd, rfl⟩ := List.mem_map.mp ht
    exact hle d (List.mem_filter.mp hd).1
  rw [mem_pruneExpired, hbucket c.now fun d hd _ => hle d hd,
    SlidingWindow.prune_stateAfter (timesOf_pairwise hcalls) htimes, ← hhistory] at hmem
  obtain ⟨t, ht⟩ := List.exists_mem_of_ne_nil _ hmem
  obtain ⟨hadm, hlive⟩ := List.mem_filter.mp ht
  obtain ⟨d, hd, hkey, rfl⟩ := mem_historyOf.mp (SlidingWindow.mem_admitted.mp hadm)
  exact mem_liveKeys.mpr ⟨d, hd, of_decide_eq_true hlive, hkey⟩

/-- A call that evicted a bucket would leave one live key too many. -/
theorem not_evicted_of_liveKeys (hspared : ∀ key, Spared limiter key calls)
    (hsorted : (calls ++ [c]).Pairwise fun a b => a.now ≤ b.now)
    (hfew : FewLiveKeys limiter limiter.maxBuckets (calls ++ [c])) :
    limiter.evicted (stateAfter limiter.allow ∅ calls) c = none := by
  refine if_neg ?_
  rintro ⟨hnew, hfull⟩
  have hlive := fun key => mem_liveKeys_of_mem (hspared key) hsorted
  have hadmitted : (limiter.allow (stateAfter limiter.allow ∅ calls) c).2 = true := by
    have hempty := not_not.mp (mt mem_pruneExpired.mpr hnew)
    rw [congrArg Prod.snd (allow_own limiter (stateAfter limiter.allow ∅ calls) c),
      SlidingWindow.attempt_snd, hempty]
    exact limiter.requests_pos
  have hcard := hfew (trace limiter.allow ∅ calls) (c, true) [] (by rw [trace_concat, hadmitted])
  -- the keys of the buckets and the key of the call are all live
  have hwindow : 0 < limiter.window := by
    obtain ⟨key, hkey⟩ := List.exists_mem_of_length_pos (limiter.buckets_pos.trans_le hfull)
    obtain ⟨d, -, hd, -⟩ := mem_liveKeys.mp (hlive key (AList.mem_keys.mpr hkey))
    exact Nat.zero_lt_of_lt hd
  have hsub : insert c.key
        (limiter.pruneExpired c.now (stateAfter limiter.allow ∅ calls)).keys.toFinset ⊆
      liveKeys limiter.window c.now (trace limiter.allow ∅ calls ++ [(c, true)]) := by
    intro key hkey
    rcases Finset.mem_insert.mp hkey with rfl | hkey
    · exact mem_liveKeys.mpr ⟨c, by simp, by rwa [Nat.sub_self], rfl⟩
    · have hmem := AList.mem_keys.mpr (List.mem_toFinset.mp hkey)
      obtain ⟨d, hd, hd'⟩ := mem_liveKeys.mp (hlive key hmem)
      exact mem_liveKeys.mpr ⟨d, List.mem_append_left _ hd, hd'⟩
  have hle := Finset.card_le_card hsub
  rw [Finset.card_insert_of_notMem (by rwa [List.mem_toFinset, AList.mem_keys.symm]),
    List.toFinset_card_of_nodup (AList.keys_nodup _)] at hle
  simp only at hcard
  omega

theorem spared_of_liveKeys (hsorted : calls.Pairwise fun a b => a.now ≤ b.now)
    (hfew : FewLiveKeys limiter limiter.maxBuckets calls) (key : String) :
    Spared limiter key calls := by
  induction calls using List.reverseRecOn generalizing key with
  | nil => intro before d rest h; simp at h
  | append_singleton calls c ih =>
    have hspared := ih (List.pairwise_append.mp hsorted).1 hfew.of_concat
    intro before d rest hsplit hkey
    rcases List.eq_nil_or_concat rest with rfl | ⟨rest, e, rfl⟩
    · obtain ⟨rfl, hlast⟩ := List.append_inj' hsplit rfl
      cases hlast
      rw [not_evicted_of_liveKeys hspared hsorted hfew]
      nofun
    · rw [List.concat_eq_append, ← List.cons_append, ← List.append_assoc] at hsplit
      obtain ⟨hcalls, -⟩ := List.append_inj' hsplit rfl
      exact hspared key before d rest hcalls hkey

/-- Refinement of a sliding-window log. In a run at nondecreasing times that never has
    more than `max_buckets` live keys, a call is admitted exactly when fewer than
    `max_requests` earlier calls with its key were admitted in the window. -/
theorem allow_iff (maxRequests : UInt32) (window maxBuckets : ℕ) (calls : List Call)
    (hsorted : calls.Pairwise fun a b => a.now ≤ b.now)
    (hfew : FewLiveKeys (withMaxBuckets maxRequests window maxBuckets) maxBuckets calls)
    (before rest : List (Call × Bool)) (c : Call) (answer : Bool)
    (h : trace (withMaxBuckets maxRequests window maxBuckets).allow ∅ calls =
      before ++ (c, answer) :: rest) :
    answer = true ↔ before.countP (fun e => e.2 ∧ e.1.key = c.key ∧ c.now - e.1.now < window) <
      max maxRequests.toNat 1 := by
  obtain ⟨hbefore, hanswer, hcalls⟩ := trace_split h
  generalize hearlier : before.map Prod.fst = earlier at hbefore hanswer hcalls
  have hspared : Spared (withMaxBuckets maxRequests window maxBuckets) c.key earlier := by
    have hall : Spared (withMaxBuckets maxRequests window maxBuckets) c.key calls :=
      spared_of_liveKeys hsorted
        (fun b e r hsplit => (hfew b e r hsplit).trans (Nat.le_max_left _ _)) c.key
    intro b d r hsplit
    exact hall b d (r ++ c :: rest.map Prod.fst) (by rw [hcalls, hsplit]; simp)
  have hsorted' : earlier.Pairwise fun a b => a.now ≤ b.now := by
    rw [hcalls] at hsorted
    exact (List.pairwise_append.mp hsorted).1
  have hle : ∀ d ∈ earlier, d.now ≤ c.now := by
    rw [hcalls] at hsorted
    exact fun d hd => (List.pairwise_append.mp hsorted).2.2 d hd c (by simp)
  have htimes : ∀ t ∈ timesOf c.key earlier, t ≤ c.now := by
    intro t ht
    obtain ⟨d, hd, rfl⟩ := List.mem_map.mp ht
    exact hle d (List.mem_filter.mp hd).1
  obtain ⟨hhistory, hbucket⟩ := historyOf_trace hspared (InOrder.of_pairwise hsorted')
  have hown := congrArg Prod.snd (allow_own (withMaxBuckets maxRequests window maxBuckets)
    (stateAfter (withMaxBuckets maxRequests window maxBuckets).allow ∅ earlier) c)
  rw [SlidingWindow.attempt_congr (hbucket c.now fun d hd _ => hle d hd)] at hown
  simp only at hanswer hown
  rw [hanswer, hown, SlidingWindow.attempt_iff (timesOf_pairwise hsorted') htimes, ← hhistory,
    ← hbefore, SlidingWindow.recent, countP_admitted_historyOf]
  simp only [decide_eq_true_eq]
  rfl

/-- Calls of two clients: at most one request in a window of 60. -/
def runCall (key : String) (now : ℕ) : Call := { key, now, order := 0 }

theorem allow_iff_run : false = true ↔
    [(runCall "a" 0, true)].countP (fun e => e.2 ∧ e.1.key = "a" ∧ 1 - e.1.now < 60) <
      max (1 : UInt32).toNat 1 :=
  allow_iff 1 60 2 [runCall "a" 0, runCall "a" 1] (by decide)
    (fewLiveKeys_of_length_le (by decide)) [(runCall "a" 0, true)] [] (runCall "a" 1) false
    (by decide +kernel)

/-! ## Client isolation -/

/-- Client isolation. The answers to a key are the same in any two runs with the same
    calls with this key, if its bucket is not evicted and no call with another key has
    read a later clock than a call with this key after it. -/
theorem answersTo_eq (limiter : RateLimiter) (key : String) (calls calls' : List Call)
    (hspared : Spared limiter key calls) (hspared' : Spared limiter key calls')
    (horder : InOrder key calls) (horder' : InOrder key calls')
    (hsame : timesOf key calls = timesOf key calls') :
    answersTo key (trace limiter.allow ∅ calls) = answersTo key (trace limiter.allow ∅ calls') := by
  rw [answersTo, answersTo, (historyOf_trace hspared horder).1,
    (historyOf_trace hspared' horder').1, hsame]

theorem answersTo_eq_run :
    answersTo "a" (trace (withMaxBuckets 1 60 3).allow ∅
        [runCall "a" 0, runCall "b" 0, runCall "a" 1]) =
      answersTo "a" (trace (withMaxBuckets 1 60 3).allow ∅ [runCall "a" 0, runCall "a" 1]) :=
  answersTo_eq (withMaxBuckets 1 60 3) "a" _ _
    (spared_of_liveKeys (by decide) (fewLiveKeys_of_length_le (by decide)) _)
    (spared_of_liveKeys (by decide) (fewLiveKeys_of_length_le (by decide)) _)
    (.of_pairwise (by decide)) (.of_pairwise (by decide)) (by decide)

/-- With room for one bucket a call of `b` evicts the bucket of `a`; with room for ten, a
    call of `b` that has read a late clock expires it. Either way `a` is admitted again. -/
theorem answersTo_ne :
    (timesOf "a" [runCall "a" 0, runCall "a" 1] =
      timesOf "a" [runCall "a" 0, runCall "b" 0, runCall "a" 1] ∧
    answersTo "a" (trace (withMaxBuckets 1 60 1).allow ∅ [runCall "a" 0, runCall "a" 1]) =
      [true, false] ∧
    answersTo "a" (trace (withMaxBuckets 1 60 1).allow ∅
      [runCall "a" 0, runCall "b" 0, runCall "a" 1]) = [true, true]) ∧
    timesOf "a" [runCall "a" 0, runCall "a" 1] =
      timesOf "a" [runCall "a" 0, runCall "b" 60, runCall "a" 1] ∧
    answersTo "a" (trace (withMaxBuckets 1 60 10).allow ∅ [runCall "a" 0, runCall "a" 1]) =
      [true, false] ∧
    answersTo "a" (trace (withMaxBuckets 1 60 10).allow ∅
      [runCall "a" 0, runCall "b" 60, runCall "a" 1]) = [true, true] := by
  decide +kernel

end RateLimiter

end FreeBox.Server
