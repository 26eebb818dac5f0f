import FreeBox.Server.RateLimit

/-!
# Rate limiting of one peer

The middleware `enforce` of `apps/server/src/rate_limit.rs` runs before
`require_auth` and takes the bucket key from the request as it comes in: a bearer
token that was never checked names a bucket of its own.

Results:
* `peer_limited`: the limit holds for requests that give one key as long as they
  are in one window.
* `peer_limited_iff`: it holds for all runs with given headers exactly when all the
  headers give the same key.
* `peer_unlimited`: two requests without a valid token, both admitted, at a limit of
  one.
-/

namespace FreeBox.Server

open FreeBox.Lib RateLimiter

/-- The token that `request_key` reads, in either spelling of the scheme. -/
def bearerToken (req : HttpRequest) : Option String :=
  ((req.authorizationText.bind fun value =>
    (stripPrefix "Bearer " value).or (stripPrefix "bearer " value)).map strTrim).filter
      fun token => token ≠ ""

/-- `rate_limit::request_key`. -/
def requestKey (hash : String → UInt64) (req : HttpRequest) : String :=
  match bearerToken req with
  | some token => "bearer:" ++ String.ofList (hexFixed 16 (hash token).toNat)
  | none =>
    match req.peerIp with
    | some ip => "ip:" ++ ip
    | none => "anonymous"

/-- A request, with the clock reading and the iteration order of the map at its call of
    `allow`. -/
structure Arrival where
  request : HttpRequest
  now : ℕ
  order : ℕ
  deriving DecidableEq

def Arrival.call (hash : String → UInt64) (a : Arrival) : Call where
  key := requestKey hash a.request
  now := a.now
  order := a.order

/-- `rate_limit::enforce`; `.ok ()` passes the request on. -/
def enforce (limiter : RateLimiter) (hash : String → UInt64) (buckets : Buckets) (a : Arrival) :
    Buckets × Except AppError Unit :=
  match limiter.allow buckets (a.call hash) with
  | (buckets, false) =>
    (buckets, .error (.rateLimited "too many requests; slow down and retry shortly"))
  | (buckets, true) => (buckets, .ok ())

/-- The requests that are admitted in the interval of length `window` from `start` on. -/
def admittedIn (window : ℕ) (start : ℕ) (log : List (Arrival × Except AppError Unit)) : ℕ :=
  log.countP fun e => e.2.isOk ∧ start ≤ e.1.now ∧ e.1.now < start + window

variable {limiter : RateLimiter} {hash : String → UInt64} {arrivals : List Arrival}

theorem map_trace_enforce (limiter : RateLimiter) (hash : String → UInt64)
    (arrivals : List Arrival) :
    (trace (enforce limiter hash) ∅ arrivals).map (Prod.map (Arrival.call hash) Except.isOk) =
      trace limiter.allow ∅ (arrivals.map (Arrival.call hash)) := by
  refine map_trace _ _ (fun buckets a => ?_) (fun buckets a => ?_) _ _ <;>
  · rw [enforce]
    rcases limiter.allow buckets (a.call hash) with ⟨_, _ | _⟩ <;> rfl

theorem admittedIn_eq (window : ℕ) (start : ℕ) :
    admittedIn window start (trace (enforce limiter hash) ∅ arrivals) =
      (trace limiter.allow ∅ (arrivals.map (Arrival.call hash))).countP
        fun e => e.2 ∧ start ≤ e.1.now ∧ e.1.now < start + window := by
  rw [← map_trace_enforce, List.countP_map, admittedIn]
  rfl

/-! ## One key in each window -/

section OneKey

variable {calls : List Call}

/-- Two calls that are at most a window apart have the same key. -/
def OneKey (window : ℕ) (c d : Call) : Prop :=
  c.now - d.now < window → d.now - c.now < window → c.key = d.key

instance {window : ℕ} : Std.Symm (OneKey window) := ⟨fun _ _ h h₁ h₂ => (h h₂ h₁).symm⟩

theorem oneKey_of_pairwise {window : ℕ}
    (hkey : calls.Pairwise fun c d => d.now - c.now < window → c.key = d.key) {c d : Call}
    (hc : c ∈ calls) (hd : d ∈ calls) : OneKey window c d := by
  have hpair : calls.Pairwise (OneKey window) := hkey.imp fun h _ hlt => h hlt
  exact hpair.forall_of_forall (fun _ _ _ _ => rfl) hc hd

theorem mem_of_mem_trace {before : List (Call × Bool)} {e d : Call × Bool}
    {rest : List (Call × Bool)} (h : trace limiter.allow ∅ calls = before ++ e :: rest)
    (hd : d ∈ before ++ [e]) : d.1 ∈ calls := by
  have hmem : d ∈ trace limiter.allow ∅ calls := by
    rw [h]
    simp only [List.mem_append, List.mem_cons] at hd ⊢
    tauto
  have := List.mem_map_of_mem (f := Prod.fst) hmem
  rwa [map_fst_trace] at this

/-- With one key in each window there is one live key at most. -/
theorem fewLiveKeys_of_oneKey (hsorted : calls.Pairwise fun c d => c.now ≤ d.now)
    (hkey : calls.Pairwise fun c d => d.now - c.now < limiter.window → c.key = d.key) :
    FewLiveKeys limiter limiter.maxBuckets calls := by
  intro before e rest hsplit
  have hsub : liveKeys limiter.window e.1.now (before ++ [e]) ⊆ {e.1.key} := by
    intro key hmem
    obtain ⟨d, hd, hlive, rfl⟩ := mem_liveKeys.mp hmem
    have hd' : d ∈ calls := mem_of_mem_trace hsplit hd
    have he : e.1 ∈ calls := mem_of_mem_trace hsplit (by simp)
    have hle : d.now ≤ e.1.now := by
      obtain ⟨-, -, hcalls⟩ := trace_split hsplit
      rcases List.mem_append.mp hd with hd | hd
      · rw [hcalls] at hsorted
        exact (List.pairwise_append.mp hsorted).2.2 d (List.mem_map_of_mem (f := Prod.fst) hd) e.1
          (by simp)
      · rw [← List.mem_singleton.mp hd]
    have hback : d.now - e.1.now < limiter.window := by omega
    exact Finset.mem_singleton.mpr (oneKey_of_pairwise hkey hd' he hback hlive)
  have hcard := Finset.card_le_card hsub
  have hpos := limiter.buckets_pos
  rw [Finset.card_singleton] at hcard
  omega

theorem countP_allow_le (hsorted : calls.Pairwise fun c d => c.now ≤ d.now)
    (hkey : calls.Pairwise fun c d => d.now - c.now < limiter.window → c.key = d.key)
    (start : ℕ) : (trace limiter.allow ∅ calls).countP
      (fun e => e.2 ∧ start ≤ e.1.now ∧ e.1.now < start + limiter.window) ≤ limiter.maxRequests := by
  by_cases hany : ∃ c ∈ calls, start ≤ c.now ∧ c.now < start + limiter.window
  · -- every admitted call of the interval has the key of the first one found
    obtain ⟨c, hc, hstart, hend⟩ := hany
    have hspared := spared_of_liveKeys hsorted (fewLiveKeys_of_oneKey hsorted hkey) c.key
    have htimes : (timesOf c.key calls).Pairwise (· ≤ ·) := timesOf_pairwise hsorted
    have hwindow : (SlidingWindow.admitted (historyOf c.key (trace limiter.allow ∅ calls))).countP
        (fun t => start ≤ t ∧ t < start + limiter.window) ≤ limiter.maxRequests := by
      rw [(historyOf_trace hspared (InOrder.of_pairwise hsorted)).1]
      exact SlidingWindow.count_window_le htimes start
    rw [countP_admitted_historyOf] at hwindow
    refine le_trans (List.countP_mono_left fun e he hin => ?_) hwindow
    simp only [decide_eq_true_eq] at hin ⊢
    have hmem : e.1 ∈ calls := by
      have := List.mem_map_of_mem (f := Prod.fst) he
      rwa [map_fst_trace] at this
    have hnear : e.1.now - c.now < limiter.window ∧ c.now - e.1.now < limiter.window := by omega
    exact ⟨hin.1, oneKey_of_pairwise hkey hmem hc hnear.1 hnear.2, hin.2⟩
  · have hzero : (trace limiter.allow ∅ calls).countP
        (fun e => e.2 ∧ start ≤ e.1.now ∧ e.1.now < start + limiter.window) = 0 := by
      rw [List.countP_eq_zero]
      intro e he hin
      have hmem := List.mem_map_of_mem (f := Prod.fst) he
      rw [map_fst_trace] at hmem
      exact hany ⟨e.1, hmem, (of_decide_eq_true hin).2⟩
    omega

end OneKey

/-- The limit for requests at nondecreasing times. If any two of them that are less than
    a window apart give the same key, then at most `max_requests` are admitted in any
    interval of the length of the window. -/
theorem peer_limited (limiter : RateLimiter) (hash : String → UInt64) (arrivals : List Arrival)
    (hsorted : arrivals.Pairwise fun a b => a.now ≤ b.now)
    (hkey : arrivals.Pairwise fun a b =>
      b.now - a.now < limiter.window → requestKey hash a.request = requestKey hash b.request)
    (start : ℕ) :
    admittedIn limiter.window start (trace (enforce limiter hash) ∅ arrivals) ≤
      limiter.maxRequests := by
  rw [admittedIn_eq]
  exact countP_allow_le (List.pairwise_map.mpr hsorted) (List.pairwise_map.mpr hkey) start

/-- A request of the peer `203.0.113.1`. -/
def runArrival (authorization : Option Bytes) (now : ℕ) : Arrival where
  request := { authorization, peerIp := some "203.0.113.1" }
  now
  order := 0

theorem peer_limited_run : admittedIn 60 0
    (trace (enforce (.new 1 60) fun _ => 0) ∅ [runArrival none 0, runArrival none 1]) ≤ 1 :=
  peer_limited (.new 1 60) (fun _ => 0) [runArrival none 0, runArrival none 1] (by decide)
    (List.pairwise_pair.mpr fun _ => rfl) 0

/-- `bearer a`. -/
def runHeader : Bytes := [98, 101, 97, 114, 101, 114, 32, 97]

/-- At a limit of one request in a window, a request without a token and one with a token
    that is not checked are both admitted. `require_auth` rejects both. -/
theorem peer_unlimited :
    requireAuth (fun _ => none) (runArrival none 0).request =
      .error (.unauthorized "missing Bearer token") ∧
    requireAuth (fun _ => none) (runArrival (some runHeader) 0).request =
      .error (.unauthorized "missing Bearer token") ∧
    (RateLimiter.new 1 60).maxRequests = 1 ∧
    admittedIn 60 0 (trace (enforce (.new 1 60) fun _ => 0) ∅
      [runArrival none 0, runArrival (some runHeader) 0]) = 2 := by
  decide +kernel

/-! ## Two keys -/

/-- Up to the limit all calls at one instant are admitted, and they use one bucket. -/
theorem allow_replicate (hwindow : 0 < limiter.window) (c : Call) {n : ℕ}
    (hn : n ≤ limiter.maxRequests) :
    (trace limiter.allow ∅ (List.replicate n c)).countP
        (fun e => e.2 ∧ c.now ≤ e.1.now ∧ e.1.now < c.now + limiter.window) = n ∧
      bucketOf (stateAfter limiter.allow ∅ (List.replicate n c)) c.key = List.replicate n c.now ∧
      ∀ key ≠ c.key, bucketOf (stateAfter limiter.allow ∅ (List.replicate n c)) key = [] := by
  induction n with
  | zero => exact ⟨rfl, rfl, fun _ _ => rfl⟩
  | succ n ih =>
    obtain ⟨hcount, hown, hothers⟩ := ih (by omega)
    have hprune : SlidingWindow.prune limiter.window c.now (List.replicate n c.now) =
        List.replicate n c.now := by
      simp [SlidingWindow.prune, Nat.not_le.mpr hwindow]
    have hattempt : SlidingWindow.attempt limiter.maxRequests limiter.window
        (List.replicate n c.now) c.now = (List.replicate n c.now ++ [c.now], true) := by
      rw [SlidingWindow.attempt, hprune, List.length_replicate, if_neg (by omega)]
    have hstep := allow_own limiter (stateAfter limiter.allow ∅ (List.replicate n c)) c
    rw [hown, hattempt] at hstep
    have hbucket := congrArg Prod.fst hstep
    have hanswer := congrArg Prod.snd hstep
    simp only at hbucket hanswer
    rw [List.replicate_succ', trace_concat, stateAfter_concat, List.countP_append, hcount]
    refine ⟨?_, ?_, fun key hkey => ?_⟩
    · rw [hanswer]
      simp [hwindow]
    · rw [hbucket, List.replicate_succ']
    · rw [allow_other limiter _ hkey, hothers key hkey]
      split_ifs <;> rfl

/-- A call with a new key is admitted on top of them. -/
theorem allow_replicate_concat (hwindow : 0 < limiter.window) {c d : Call} (hkey : d.key ≠ c.key)
    (hnow : d.now = c.now) :
    (trace limiter.allow ∅ (List.replicate limiter.maxRequests c ++ [d])).countP
      (fun e => e.2 ∧ c.now ≤ e.1.now ∧ e.1.now < c.now + limiter.window) =
        limiter.maxRequests + 1 := by
  obtain ⟨hcount, -, hothers⟩ := allow_replicate hwindow c le_rfl
  have hanswer : (limiter.allow (stateAfter limiter.allow ∅
      (List.replicate limiter.maxRequests c)) d).2 = true := by
    rw [congrArg Prod.snd (allow_own limiter _ d), hothers d.key hkey, SlidingWindow.attempt_snd]
    exact limiter.requests_pos
  rw [trace_concat, List.countP_append, hcount, hanswer]
  simp [hnow, hwindow]

/-- The headers with which a peer is limited: exactly those that give one key. -/
theorem peer_limited_iff (limiter : RateLimiter) (hwindow : 0 < limiter.window)
    (hash : String → UInt64) (peerIp : Option String) (headers : Set (Option Bytes)) :
    (∀ arrivals : List Arrival, arrivals.Pairwise (fun a b => a.now ≤ b.now) →
        (∀ a ∈ arrivals, a.request.peerIp = peerIp ∧ a.request.authorization ∈ headers) →
        ∀ start, admittedIn limiter.window start (trace (enforce limiter hash) ∅ arrivals) ≤
          limiter.maxRequests) ↔
      ∀ h ∈ headers, ∀ h' ∈ headers,
        requestKey hash { authorization := h, peerIp } =
          requestKey hash { authorization := h', peerIp } := by
  constructor
  · intro hlimited h hh h' hh'
    by_contra hne
    let a : Arrival := { request := { authorization := h, peerIp }, now := 0, order := 0 }
    let b : Arrival := { request := { authorization := h', peerIp }, now := 0, order := 0 }
    have hmem : ∀ x ∈ List.replicate limiter.maxRequests a ++ [b], x = a ∨ x = b := by
      intro x hx
      rcases List.mem_append.mp hx with hx | hx
      · exact .inl (List.eq_of_mem_replicate hx)
      · exact .inr (List.mem_singleton.mp hx)
    have hcount := allow_replicate_concat (c := a.call hash) (d := b.call hash) hwindow
      (Ne.symm hne) rfl
    have hle := hlimited (List.replicate limiter.maxRequests a ++ [b]) ?_ ?_ 0
    · rw [admittedIn_eq, List.map_append, List.map_replicate, List.map_singleton] at hle
      exact absurd (hcount.symm.trans_le hle) (by omega)
    · refine List.pairwise_iff_forall_sublist.mpr fun {x y} hsub => ?_
      have hx := hmem x (hsub.subset (by simp))
      have hy := hmem y (hsub.subset (by simp))
      rcases hx with rfl | rfl <;> rcases hy with rfl | rfl <;> exact le_rfl
    · intro x hx
      rcases hmem x hx with rfl | rfl
      · exact ⟨rfl, hh⟩
      · exact ⟨rfl, hh'⟩
  · intro hone arrivals hsorted hpeer start
    have hkeys : ∀ a ∈ arrivals, ∀ b ∈ arrivals,
        requestKey hash a.request = requestKey hash b.request := by
      intro a ha b hb
      obtain ⟨hap, hah⟩ := hpeer a ha
      obtain ⟨hbp, hbh⟩ := hpeer b hb
      have hreq : ∀ x : Arrival, x.request.peerIp = peerIp →
          x.request = { authorization := x.request.authorization, peerIp } := by
        rintro ⟨⟨_, _⟩, _, _⟩ rfl; rfl
      rw [hreq a hap, hreq b hbp]
      exact hone _ hah _ hbh
    rw [admittedIn_eq]
    have hpair : arrivals.Pairwise fun a b => b.now - a.now < limiter.window →
        requestKey hash a.request = requestKey hash b.request :=
      List.Pairwise.imp_of_mem (fun ha hb _ _ => hkeys _ ha _ hb) hsorted
    exact countP_allow_le (List.pairwise_map.mpr hsorted) (List.pairwise_map.mpr hpair) start

/-- Without headers the peer is limited. -/
theorem peer_limited_iff_run : admittedIn 60 0 (trace (enforce (.new 1 60) fun _ => 0) ∅
    [runArrival none 0, runArrival none 1, runArrival none 2]) ≤ 1 := by
  refine (peer_limited_iff (.new 1 60) (by decide) (fun _ => 0) (some "203.0.113.1") {none}).mpr ?_
    [runArrival none 0, runArrival none 1, runArrival none 2] (by decide) ?_ 0
  · rintro h rfl h' rfl
    rfl
  · simp [runArrival]

end FreeBox.Server
