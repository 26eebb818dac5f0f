import FreeBox.Server.RateLimit
import Mathlib.Data.List.MinMax

/-!
# The memory of the rate limiter

Nothing is assumed of the clock readings: a call reads its clock before it waits for the
mutex, so `allow` may see them in any order.

Results:
* `exists_oldestKey`: a bucket is found when one has to be evicted.
* `fits_allow`: a call keeps the bounds on the map.
* `bounded_memory`: they hold after every run, and what a call at the cap evicts.
-/

namespace FreeBox.Server.RateLimiter

open FreeBox.Lib

variable {limiter : RateLimiter} {buckets : Buckets} {c : Call} {key : String} {calls : List Call}

/-- The bounds on the map of the buckets. -/
structure Fits (limiter : RateLimiter) (buckets : Buckets) : Prop where
  count : buckets.keys.length ≤ limiter.maxBuckets
  nonempty : ∀ key bucket, buckets.lookup key = some bucket → bucket ≠ []
  length : ∀ key bucket, buckets.lookup key = some bucket → bucket.length ≤ limiter.maxRequests

theorem fits_empty (limiter : RateLimiter) : Fits limiter ∅ where
  count := Nat.zero_le _
  nonempty key bucket h := by simp at h
  length key bucket h := by simp at h

/-! ## Eviction -/

/-- One of the least elements of a list that is not empty. -/
theorem exists_least {α : Type} (f : α → ℕ) (n : ℕ) {l : List α} (h : l ≠ []) :
    ∃ x ∈ l, (l.filter fun x => l.all fun y => f x ≤ f y)[
      n % (l.filter fun x => l.all fun y => f x ≤ f y).length]? = some x := by
  have hleast : l.filter (fun x => l.all fun y => f x ≤ f y) ≠ [] := by
    obtain ⟨x, hx⟩ : ∃ x, List.argmin f l = some x :=
      Option.ne_none_iff_exists'.mp (mt List.argmin_eq_none.mp h)
    refine List.ne_nil_of_mem (List.mem_filter.mpr ⟨List.argmin_mem hx, List.all_eq_true.mpr ?_⟩)
    exact fun y hy => decide_eq_true (List.le_of_mem_argmin hy hx)
  have hindex := Nat.mod_lt n (List.length_pos_iff.mpr hleast)
  exact ⟨_, (List.mem_filter.mp (List.getElem_mem hindex)).1, List.getElem?_eq_getElem hindex⟩

/-- Some bucket was last used longest ago. -/
theorem exists_oldestKey (order : ℕ) {bucket : List ℕ} (h : buckets.lookup key = some bucket)
    (hbucket : bucket ≠ []) : ∃ old, oldestKey order buckets = some old ∧ old ∈ buckets := by
  have hused : buckets.entries.filterMap (fun e => e.2.getLast?.map fun last => (e.1, last)) ≠
      [] := by
    have hlast : bucket.getLast? = some (bucket.getLast hbucket) := List.getLast?_eq_some_getLast _
    have hmem : (key, bucket.getLast hbucket) ∈ buckets.entries.filterMap
        (fun e => e.2.getLast?.map fun last => (e.1, last)) :=
      List.mem_filterMap.mpr ⟨_, Table.lookup_eq_some_iff.mp h, by rw [hlast]; rfl⟩
    exact List.ne_nil_of_mem hmem
  obtain ⟨⟨old, last⟩, hmem, hpick⟩ := exists_least Prod.snd order hused
  obtain ⟨e, he, heq⟩ := List.mem_filterMap.mp hmem
  obtain ⟨last', -, heq⟩ := Option.map_eq_some_iff.mp heq
  cases heq
  refine ⟨e.1, ?_, Table.mem_iff_lookup.mpr ⟨e.2, Table.lookup_eq_some_iff.mpr he⟩⟩
  unfold oldestKey
  simp only [hpick, Option.map_some]

/-! ## One call -/

/-- The map in which a call looks for its bucket. -/
def room (limiter : RateLimiter) (buckets : Buckets) (c : Call) : Buckets :=
  let buckets := limiter.pruneExpired c.now buckets
  if c.key ∉ buckets ∧ limiter.maxBuckets ≤ buckets.keys.length then
    evictOldestBucket c.order buckets else buckets

/-- The bucket of a call after it. -/
def counted (limiter : RateLimiter) (bucket : List ℕ) (now : ℕ) : List ℕ :=
  if limiter.maxRequests ≤ bucket.length then bucket else bucket ++ [now]

theorem allow_fst (limiter : RateLimiter) (buckets : Buckets) (c : Call) :
    (limiter.allow buckets c).1 = (limiter.room buckets c).insert c.key
      (limiter.counted (bucketOf (limiter.room buckets c) c.key) c.now) := by
  show (if limiter.maxRequests ≤ (bucketOf (limiter.room buckets c) c.key).length then
      ((limiter.room buckets c).insert c.key (bucketOf (limiter.room buckets c) c.key), false)
    else ((limiter.room buckets c).insert c.key
      (bucketOf (limiter.room buckets c) c.key ++ [c.now]), true)).1 = _
  unfold counted
  split_ifs <;> rfl

theorem lookup_pruneExpired {now : ℕ} {bucket : List ℕ} :
    (limiter.pruneExpired now buckets).lookup key = some bucket ↔ bucket ≠ [] ∧
      ∃ old, buckets.lookup key = some old ∧ SlidingWindow.prune limiter.window now old = bucket := by
  rw [pruneExpired, Table.lookup_retain, Option.bind_eq_some_iff]
  constructor
  · rintro ⟨old, hold, hkept⟩
    dsimp only at hkept
    split_ifs at hkept with hnil
    cases hkept
    exact ⟨hnil, old, hold, rfl⟩
  · rintro ⟨hne, old, hold, rfl⟩
    exact ⟨old, hold, if_neg hne⟩

theorem fits_pruneExpired (h : Fits limiter buckets) (now : ℕ) :
    Fits limiter (limiter.pruneExpired now buckets) where
  count := by
    refine le_trans ?_ h.count
    show (List.map Sigma.fst _).length ≤ (List.map Sigma.fst _).length
    rw [List.length_map, List.length_map]
    exact List.length_filterMap_le _ _
  nonempty key bucket hbucket := (lookup_pruneExpired.mp hbucket).1
  length key bucket hbucket := by
    obtain ⟨-, old, hold, rfl⟩ := lookup_pruneExpired.mp hbucket
    exact (List.dropWhile_suffix _).length_le.trans (h.length key old hold)

/-- What a call at the cap evicts: one bucket, of another key. -/
theorem exists_evicted (h : Fits limiter buckets)
    (hnew : c.key ∉ limiter.pruneExpired c.now buckets)
    (hcap : limiter.maxBuckets ≤ (limiter.pruneExpired c.now buckets).keys.length) :
    ∃ old, old ≠ c.key ∧ old ∈ limiter.pruneExpired c.now buckets ∧
      limiter.room buckets c = (limiter.pruneExpired c.now buckets).erase old := by
  have hroom : limiter.room buckets c =
      evictOldestBucket c.order (limiter.pruneExpired c.now buckets) := if_pos ⟨hnew, hcap⟩
  obtain ⟨key, hkey⟩ := List.exists_mem_of_length_pos (limiter.buckets_pos.trans_le hcap)
  obtain ⟨bucket, hbucket⟩ := Table.mem_iff_lookup.mp (AList.mem_keys.mpr hkey)
  obtain ⟨old, hold, hmem⟩ :=
    exists_oldestKey c.order hbucket ((fits_pruneExpired h c.now).nonempty key bucket hbucket)
  refine ⟨old, fun he => hnew (he ▸ hmem), hmem, ?_⟩
  rw [hroom, evictOldestBucket, hold]

/-- There is room for the bucket of the call. -/
theorem fits_room (h : Fits limiter buckets) (c : Call) : Fits limiter (limiter.room buckets c) ∧
    (c.key ∈ limiter.room buckets c ∨
      (limiter.room buckets c).keys.length < limiter.maxBuckets) := by
  have hpruned := fits_pruneExpired h c.now
  by_cases hfull : c.key ∉ limiter.pruneExpired c.now buckets ∧
      limiter.maxBuckets ≤ (limiter.pruneExpired c.now buckets).keys.length
  · obtain ⟨old, -, hmem, hroom⟩ := exists_evicted h hfull.1 hfull.2
    have hkeys : (limiter.room buckets c).keys.length + 1 =
        (limiter.pruneExpired c.now buckets).keys.length := by
      rw [hroom, AList.keys_erase]
      exact List.length_erase_add_one (AList.mem_keys.mp hmem)
    have hold : ∀ key bucket, (limiter.room buckets c).lookup key = some bucket →
        (limiter.pruneExpired c.now buckets).lookup key = some bucket := by
      intro key bucket hbucket
      rw [hroom, Table.lookup_erase_eq] at hbucket
      split_ifs at hbucket
      exact hbucket
    have hcount := hpruned.count
    refine ⟨⟨by omega, fun key bucket hb => hpruned.nonempty key bucket (hold key bucket hb),
      fun key bucket hb => hpruned.length key bucket (hold key bucket hb)⟩, .inr (by omega)⟩
  · have hroom : limiter.room buckets c = limiter.pruneExpired c.now buckets := if_neg hfull
    rw [hroom]
    rw [not_and_or, not_not, not_le] at hfull
    exact ⟨hpruned, hfull⟩

theorem counted_ne_nil (limiter : RateLimiter) (bucket : List ℕ) (now : ℕ) :
    limiter.counted bucket now ≠ [] := by
  have hpos := limiter.requests_pos
  unfold counted
  split_ifs with hfull
  · exact List.ne_nil_of_length_pos (hpos.trans_le hfull)
  · simp

theorem length_counted {bucket : List ℕ} (h : bucket.length ≤ limiter.maxRequests) (now : ℕ) :
    (limiter.counted bucket now).length ≤ limiter.maxRequests := by
  unfold counted
  split_ifs with hfull
  · exact h
  · rw [List.length_append, List.length_singleton]
    omega

/-- A call keeps the bounds. -/
theorem fits_allow (h : Fits limiter buckets) (c : Call) : Fits limiter (limiter.allow buckets c).1 := by
  obtain ⟨hroom, hspace⟩ := fits_room h c
  have hbucket : (bucketOf (limiter.room buckets c) c.key).length ≤ limiter.maxRequests := by
    unfold bucketOf
    cases hlookup : (limiter.room buckets c).lookup c.key with
    | none => exact Nat.zero_le _
    | some bucket => exact hroom.length _ _ hlookup
  rw [allow_fst]
  refine ⟨?_, fun key bucket hlookup => ?_, fun key bucket hlookup => ?_⟩
  · rw [AList.keys_insert, List.length_cons]
    rcases hspace with hmem | hless
    · rw [List.length_erase_add_one (AList.mem_keys.mp hmem)]
      exact hroom.count
    · exact (Nat.succ_le_succ List.length_erase_le).trans hless
  · rw [Table.lookup_insert_eq] at hlookup
    split_ifs at hlookup
    · cases hlookup
      exact counted_ne_nil limiter _ c.now
    · exact hroom.nonempty key bucket hlookup
  · rw [Table.lookup_insert_eq] at hlookup
    split_ifs at hlookup
    · cases hlookup
      exact length_counted hbucket c.now
    · exact hroom.length key bucket hlookup

theorem fits_stateAfter (limiter : RateLimiter) (calls : List Call) :
    Fits limiter (stateAfter limiter.allow ∅ calls) := by
  induction calls using List.reverseRecOn with
  | nil => exact fits_empty limiter
  | append_singleton calls c ih =>
    rw [stateAfter_concat]
    exact fits_allow ih c

/-! ## Runs -/

/-- The unexpired buckets of other keys after the call: all of them but one. -/
def EvictsOne (limiter : RateLimiter) (buckets : Buckets) (c : Call) : Prop :=
  ∃ old, old ≠ c.key ∧ old ∈ limiter.pruneExpired c.now buckets ∧
    ∀ key, key ≠ c.key → (limiter.allow buckets c).1.lookup key =
      if key = old then none else (limiter.pruneExpired c.now buckets).lookup key

/-- All of them. -/
def EvictsNone (limiter : RateLimiter) (buckets : Buckets) (c : Call) : Prop :=
  ∀ key, key ≠ c.key → (limiter.allow buckets c).1.lookup key =
    (limiter.pruneExpired c.now buckets).lookup key

theorem evictsOne (h : Fits limiter buckets) (hnew : c.key ∉ limiter.pruneExpired c.now buckets)
    (hcap : limiter.maxBuckets ≤ (limiter.pruneExpired c.now buckets).keys.length) :
    EvictsOne limiter buckets c := by
  obtain ⟨old, hne, hmem, hroom⟩ := exists_evicted h hnew hcap
  refine ⟨old, hne, hmem, fun key hkey => ?_⟩
  rw [allow_fst, Table.lookup_insert_eq, if_neg hkey, hroom, Table.lookup_erase_eq]

theorem evictsNone (h : c.key ∈ limiter.pruneExpired c.now buckets ∨
    (limiter.pruneExpired c.now buckets).keys.length < limiter.maxBuckets) :
    EvictsNone limiter buckets c := by
  intro key hkey
  have hroom : limiter.room buckets c = limiter.pruneExpired c.now buckets := by
    refine if_neg fun hfull => ?_
    rcases h with hmem | hless
    · exact hfull.1 hmem
    · exact absurd hfull.2 (not_le.mpr hless)
  rw [allow_fst, Table.lookup_insert_eq, if_neg hkey, hroom]

/-- Bounded memory, after any calls at any clock readings. A call whose key has no
    unexpired bucket evicts exactly one other bucket when there are `max_buckets` of them,
    and every other call evicts none. -/
theorem bounded_memory (maxRequests : UInt32) (window maxBuckets : ℕ) (limiter : RateLimiter)
    (hlimiter : limiter = withMaxBuckets maxRequests window maxBuckets) (calls : List Call)
    (buckets : Buckets) (hbuckets : buckets = stateAfter limiter.allow ∅ calls) :
    buckets.keys.length ≤ max maxBuckets 1 ∧
    (∀ key bucket, buckets.lookup key = some bucket →
      bucket ≠ [] ∧ bucket.length ≤ max maxRequests.toNat 1) ∧
    ∀ c : Call, if c.key ∉ limiter.pruneExpired c.now buckets ∧
        max maxBuckets 1 ≤ (limiter.pruneExpired c.now buckets).keys.length
      then EvictsOne limiter buckets c else EvictsNone limiter buckets c := by
  subst hlimiter hbuckets
  have hfits := fits_stateAfter (withMaxBuckets maxRequests window maxBuckets) calls
  refine ⟨hfits.count, fun key bucket h => ⟨hfits.nonempty key bucket h, hfits.length key bucket h⟩,
    fun c => ?_⟩
  split_ifs with hfull
  · exact evictsOne hfits hfull.1 hfull.2
  · rw [not_and_or, not_not, not_le] at hfull
    exact evictsNone hfull

/-- Two buckets at most; the third key comes with an earlier clock reading. -/
theorem bounded_memory_run :
    (stateAfter (withMaxBuckets 1 60 2).allow ∅ [runCall "a" 5, runCall "b" 3]).keys.length ≤ 2 ∧
    EvictsOne (withMaxBuckets 1 60 2)
      (stateAfter (withMaxBuckets 1 60 2).allow ∅ [runCall "a" 5, runCall "b" 3])
      (runCall "c" 1) := by
  obtain ⟨hcount, -, hcall⟩ := bounded_memory 1 60 2 _ rfl [runCall "a" 5, runCall "b" 3] _ rfl
  refine ⟨hcount, ?_⟩
  have hone := hcall (runCall "c" 1)
  rwa [if_pos (by decide +kernel)] at hone

end FreeBox.Server.RateLimiter
