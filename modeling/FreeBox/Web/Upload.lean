import FreeBox.Lib.Run
import FreeBox.Web.Crypto

/-!
# The web client's upload

Model of `uploadFile` in `apps/web/src/pages/UploadModal.tsx`. Workers share the counter
`chunkIndex`; each takes an index from it, encrypts the chunk and sends it, at most
three times, before it takes the next one. The program gives up control only where it
waits, so a step of the pool is what one worker does between two waits, and any worker
may take the next step.

Results:
* `Pool.Inv.step`: every index that was taken is at a worker or was sent.
* `completed_requests`: the requests of an upload that completes.
* `exists_completed`: an upload whose requests are answered completes.
-/

namespace FreeBox.Web

open FreeBox.Lib FreeBox.Lib.Ecma FreeBox.Lib.Double

/-- `CHUNK_SIZE`. -/
def chunkSize : ℚ := 4 * 1024 * 1024

/-- `PARALLELISM`. -/
def parallelism : ℚ := 8

/-- `totalChunks`. -/
def totalChunks (size : ℚ) : ℚ := max 1 ⌈fl (size / chunkSize)⌉

/-- The body of `files.uploadInit`. -/
structure UploadInitRequest where
  totalChunks : ℚ
  sizeBytes : ℚ
  encryptedKeyEnvelope : String
  contentHash : String
  encryptedName : String

/-- The header `X-Chunk-Index` and the body of `files.uploadChunk`. -/
structure ChunkRequest where
  header : Bytes
  body : Bytes

/-- The value of the header for an index. -/
def indexHeader (index : ℚ) : Bytes := textEncode (numberText index)

/-- The body for the index `current`. -/
def chunkBody (W : SubtleAesGcm) (rawKey : Vector UInt8 32) (content : Bytes) (current : ℚ) :
    Except String Bytes := do
  let start := fl (current * chunkSize)
  let stop := min (fl (start + chunkSize)) (fl content.length)
  let plaintext ← arrayBuffer (slice content start stop)
  encryptChunk W rawKey current plaintext

/-! ## The workers -/

/-- Where a call of `runNext` is: before its first round, at the encryption of a chunk,
    at a request for it, or at its end. -/
inductive Worker
  | ready
  | encrypting (current : ℚ)
  | sending (current : ℚ) (ciphertext : Bytes) (attempt : ℕ)
  | done
  | thrown

structure Pool where
  chunkIndex : ℚ
  workers : List Worker
  requests : List ChunkRequest

namespace Pool

/-- All workers before their first round. -/
def start (total : ℚ) : Pool where
  chunkIndex := 0
  workers := List.replicate ⌊min parallelism total⌋.toNat .ready
  requests := []

/-- The worker `k` goes to `w`. -/
def put (s : Pool) (k : ℕ) (w : Worker) : Pool := { s with workers := s.workers.set k w }

/-- The condition of the loop, and `chunkIndex++`. -/
def next (total : ℚ) (s : Pool) (k : ℕ) : Pool :=
  if s.chunkIndex < total then
    { s.put k (.encrypting s.chunkIndex) with chunkIndex := fl (s.chunkIndex + 1) }
  else s.put k .done

def send (s : Pool) (current : ℚ) (ciphertext : Bytes) : Pool :=
  { s with requests := s.requests ++ [{ header := indexHeader current, body := ciphertext }] }

/-- The worker `k` goes on until it waits; `answered` says whether the request that it
    sends, if it sends one, succeeds. -/
def step (total : ℚ) (body : ℚ → Except String Bytes) (s : Pool) :
    (label : ℕ × Bool) → Option Pool
  | (k, answered) =>
    match s.workers[k]? with
    | some .ready => some (s.next total k)
    | some (.encrypting current) =>
      match body current with
      | .error _ => some (s.put k .thrown)
      | .ok ciphertext => some (s.put k (.sending current ciphertext 0))
    | some (.sending current ciphertext attempt) =>
      if answered then some ((s.send current ciphertext).next total k)
      else if attempt + 1 < 3 then
        some ((s.send current ciphertext).put k (.sending current ciphertext (attempt + 1)))
      else some ((s.send current ciphertext).put k .thrown)
    | some .done => none
    | some .thrown => none
    | none => none

/-- `Promise.all` of the workers has succeeded. -/
def Completed (s : Pool) : Prop := ∀ w ∈ s.workers, w = .done

end Pool

/-- What the server receives of an upload. -/
structure Upload where
  init : UploadInitRequest
  requests : List ChunkRequest

/-- `uploadFile` with the key `rawKey` can end with the status `done` after it has sent
    `upload`. -/
def Uploads (W : SubtleAesGcm) (sha256 : Bytes → Bytes) (rawKey : Vector UInt8 32) (file : File)
    (upload : Upload) : Prop :=
  let size := fl file.content.length
  ∃ ctx labels s, prepareUpload sha256 rawKey file = .ok ctx ∧
    Run (Pool.step (totalChunks size) (chunkBody W rawKey file.content)) anyStep
      (Pool.start (totalChunks size)) labels s ∧ s.Completed ∧
    upload = { init := { totalChunks := totalChunks size
                         sizeBytes := size
                         encryptedKeyEnvelope := ctx.encryptedKeyEnvelope
                         contentHash := ctx.contentHash
                         encryptedName := ctx.encryptedName }
               requests := s.requests }

/-! ## The invariant of the pool -/

/-- `r` is the request for the index `i`. -/
def IsRequest (body : ℚ → Except String Bytes) (i : ℕ) (r : ChunkRequest) : Prop :=
  body i = .ok r.body ∧ r.header = indexHeader i

/-- The worker has taken an index below `n`, and the body that it sends is that of its
    index. It has ended because all `total` indices were taken. -/
def Worker.Wf (total : ℕ) (body : ℚ → Except String Bytes) (n : ℕ) : Worker → Prop
  | .encrypting current => ∃ i < n, current = (i : ℕ)
  | .sending current ciphertext _ => ∃ i < n, current = (i : ℕ) ∧ body i = .ok ciphertext
  | .done => n = total
  | .ready => True
  | .thrown => True

/-- The worker still has to send the chunk `i`, or it may have failed to. -/
def Worker.Holds (i : ℕ) : Worker → Prop
  | .encrypting current => current = i
  | .sending current _ _ => current = i
  | .thrown => True
  | .ready => False
  | .done => False

theorem Worker.Wf.mono {total n m : ℕ} {body : ℚ → Except String Bytes} {w : Worker}
    (h : w.Wf total body n) (hnm : n ≤ m) (hm : m ≤ total) :
    w.Wf total body m := by
  cases w with
  | ready => trivial
  | encrypting current =>
    obtain ⟨i, hi, hcurrent⟩ := h
    exact ⟨i, hi.trans_le hnm, hcurrent⟩
  | sending current ciphertext attempt =>
    obtain ⟨i, hi, hcurrent⟩ := h
    exact ⟨i, hi.trans_le hnm, hcurrent⟩
  | done =>
    have hn : n = total := h
    exact le_antisymm hm (hn ▸ hnm)
  | thrown => trivial

/-- How much of its round a worker has before it, an index that it takes counted. -/
def Worker.left : Worker → ℕ
  | .encrypting _ => 3
  | .sending _ _ _ => 2
  | .ready => 1
  | .done => 0
  | .thrown => 0

namespace Pool

/-- The chunk `i` was sent. -/
def Sent (body : ℚ → Except String Bytes) (s : Pool) (i : ℕ) : Prop :=
  ∃ r ∈ s.requests, IsRequest body i r

/-- The first `n` of `total` indices have been taken. -/
structure Inv (total : ℕ) (body : ℚ → Except String Bytes) (n : ℕ) (s : Pool) : Prop where
  counter : s.chunkIndex = n
  taken_le : n ≤ total
  nonempty : s.workers ≠ []
  worker : ∀ w ∈ s.workers, w.Wf total body n
  request : ∀ r ∈ s.requests, ∃ i < n, IsRequest body i r
  covered : ∀ i < n, s.Sent body i ∨ ∃ w ∈ s.workers, w.Holds i

variable {total n k : ℕ} {body : ℚ → Except String Bytes} {s s' : Pool} {w w' : Worker}

/-- A worker keeps its place when another one goes on. -/
theorem mem_put {v : Worker} (hk : s.workers[k]? = some w) (hv : v ∈ s.workers) :
    v = w ∨ v ∈ (s.put k w').workers := by
  obtain ⟨j, hj⟩ := List.mem_iff_getElem?.mp hv
  by_cases hjk : k = j
  · subst hjk
    exact .inl (Option.some.inj (hj.symm.trans hk))
  · refine .inr (List.mem_iff_getElem?.mpr ⟨j, ?_⟩)
    rw [put, List.getElem?_set_ne hjk, hj]

/-- The worker itself is replaced. -/
theorem mem_put_self (hk : s.workers[k]? = some w) : w' ∈ (s.put k w').workers :=
  List.mem_set (List.getElem?_eq_some_iff.mp hk).1 w'

/-- One worker goes on to `w'`, and the counter to `m`. -/
theorem Inv.advance {m : ℕ} (h : s.Inv total body n) (hk : s.workers[k]? = some w)
    (hnm : n ≤ m) (hm : m ≤ total) (hw' : w'.Wf total body m)
    (hheld : ∀ i < m, n ≤ i ∨ w.Holds i → s.Sent body i ∨ w'.Holds i) :
    Inv total body m { s.put k w' with chunkIndex := m } where
  counter := rfl
  taken_le := hm
  nonempty := List.ne_nil_of_mem (mem_put_self hk)
  worker v hv := by
    rcases List.mem_or_eq_of_mem_set hv with hv | rfl
    · exact (h.worker v hv).mono hnm hm
    · exact hw'
  request r hr := by
    obtain ⟨i, hi, hr⟩ := h.request r hr
    exact ⟨i, hi.trans_le hnm, hr⟩
  covered i hi := by
    have hself : n ≤ i ∨ w.Holds i → s.Sent body i ∨ ∃ v ∈ (s.put k w').workers, v.Holds i :=
      fun hheldi => (hheld i hi hheldi).imp_right fun hw => ⟨w', mem_put_self hk, hw⟩
    rcases Nat.lt_or_ge i n with hin | hin
    · rcases h.covered i hin with hsent | ⟨v, hv, hvi⟩
      · exact .inl hsent
      · rcases mem_put hk hv with rfl | hv
        · exact hself (.inr hvi)
        · exact .inr ⟨v, hv, hvi⟩
    · exact hself (.inl hin)

theorem Inv.put (h : s.Inv total body n) (hk : s.workers[k]? = some w)
    (hw' : w'.Wf total body n) (hheld : ∀ i < n, w.Holds i → s.Sent body i ∨ w'.Holds i) :
    (s.put k w').Inv total body n := by
  have hput := h.advance hk le_rfl h.taken_le hw' fun i hi hwi =>
    hheld i hi (hwi.resolve_left (not_le.mpr hi))
  rwa [← h.counter] at hput

/-- A bound on the steps that are left when every request is answered. -/
def potential (total n : ℕ) (s : Pool) : ℕ := 3 * (total - n) + (s.workers.map Worker.left).sum

theorem sum_left_set {l : List Worker} (hk : l[k]? = some w) :
    ((l.set k w').map Worker.left).sum + w.left = (l.map Worker.left).sum + w'.left := by
  induction l generalizing k with
  | nil => cases hk
  | cons v l ih =>
    cases k with
    | zero =>
      obtain rfl := Option.some.inj hk
      rw [List.set_cons_zero, List.map_cons, List.map_cons, List.sum_cons, List.sum_cons]
      omega
    | succ k =>
      have hrest := ih hk
      rw [List.set_cons_succ, List.map_cons, List.map_cons, List.sum_cons, List.sum_cons]
      omega

theorem potential_put (hk : s.workers[k]? = some w) :
    potential total n (s.put k w') + w.left = potential total n s + w'.left := by
  have hsum : ((s.workers.set k w').map Worker.left).sum + w.left =
      (s.workers.map Worker.left).sum + w'.left := sum_left_set hk
  show 3 * (total - n) + ((s.workers.set k w').map Worker.left).sum + w.left =
    3 * (total - n) + (s.workers.map Worker.left).sum + w'.left
  omega

/-- A worker that holds nothing more takes the next index. -/
theorem Inv.next (h : s.Inv total body n) (htotal : total < 2 ^ 53) (hk : s.workers[k]? = some w)
    (hsent : ∀ i < n, w.Holds i → s.Sent body i) :
    ∃ m, (s.next total k).Inv total body m ∧
      potential total m (s.next total k) + w.left ≤ potential total n s := by
  rw [Pool.next, h.counter]
  split_ifs with hlt
  · have hlt : n < total := Nat.cast_lt.mp hlt
    have hcounter : fl ((n : ℚ) + 1) = (n + 1 : ℕ) := by
      rw [← Nat.cast_succ, fl_natCast (by omega)]
    rw [hcounter]
    refine ⟨n + 1, h.advance hk (Nat.le_succ n) hlt ⟨n, Nat.lt_succ_self n, rfl⟩ ?_, ?_⟩
    · intro i hi hheld
      rcases Nat.lt_succ_iff_lt_or_eq.mp hi with hin | rfl
      · exact .inl (hsent i hin (hheld.resolve_left (not_le.mpr hin)))
      · exact .inr rfl
    · have hput : potential total n (s.put k (.encrypting n)) + w.left = potential total n s + 3 :=
        potential_put hk
      show 3 * (total - (n + 1)) + ((s.put k (.encrypting n)).workers.map Worker.left).sum + w.left
        ≤ potential total n s
      rw [potential] at hput
      omega
  · have hn : n = total := le_antisymm h.taken_le (not_lt.mp fun hlt' => hlt (Nat.cast_lt.mpr hlt'))
    exact ⟨n, h.put hk hn fun i hi hheld => .inl (hsent i hi hheld), (potential_put hk).le⟩

theorem Inv.send {current : ℚ} {ciphertext : Bytes} {attempt : ℕ} (h : s.Inv total body n)
    (hw : .sending current ciphertext attempt ∈ s.workers) :
    (s.send current ciphertext).Inv total body n ∧
      ∀ i : ℕ, current = i → (s.send current ciphertext).Sent body i := by
  obtain ⟨i, hi, rfl, hbody⟩ := h.worker _ hw
  have hnew : IsRequest body i { header := indexHeader i, body := ciphertext } := ⟨hbody, rfl⟩
  refine ⟨⟨h.counter, h.taken_le, h.nonempty, h.worker, fun r hr => ?_, fun j hj => ?_⟩, ?_⟩
  · rcases List.mem_append.mp hr with hr | hr
    · exact h.request r hr
    · obtain rfl := List.mem_singleton.mp hr
      exact ⟨i, hi, hnew⟩
  · exact (h.covered j hj).imp_left fun ⟨r, hr, hrj⟩ => ⟨r, List.mem_append_left _ hr, hrj⟩
  · intro j hj
    obtain rfl : i = j := Nat.cast_injective hj
    exact ⟨_, List.mem_append_right _ (List.mem_singleton_self _), hnew⟩

/-- The step lemma. -/
theorem Inv.step {label : ℕ × Bool} (h : s.Inv total body n) (htotal : total < 2 ^ 53)
    (hs : s.step total body label = some s') : ∃ m, s'.Inv total body m := by
  obtain ⟨k, answered⟩ := label
  simp only [Pool.step] at hs
  cases hk : s.workers[k]? with
  | none => rw [hk] at hs; cases hs
  | some w =>
    have hmem := List.mem_of_getElem? hk
    rw [hk] at hs
    cases w with
    | ready =>
      obtain rfl := Option.some.inj hs
      obtain ⟨m, hm, -⟩ := h.next htotal hk fun i _ hheld => hheld.elim
      exact ⟨m, hm⟩
    | encrypting current =>
      obtain ⟨i, hi, rfl⟩ := h.worker _ hmem
      dsimp only at hs
      cases hbody : body i with
      | error e =>
        rw [hbody] at hs
        obtain rfl := Option.some.inj hs
        exact ⟨n, h.put hk trivial fun _ _ _ => .inr trivial⟩
      | ok ciphertext =>
        rw [hbody] at hs
        obtain rfl := Option.some.inj hs
        exact ⟨n, h.put hk ⟨i, hi, rfl, hbody⟩ fun _ _ hheld => .inr hheld⟩
    | sending current ciphertext attempt =>
      obtain ⟨hsend, hsent⟩ := h.send hmem
      obtain ⟨i, hi, rfl, hbody⟩ := h.worker _ hmem
      dsimp only at hs
      split_ifs at hs
      · obtain rfl := Option.some.inj hs
        obtain ⟨m, hm, -⟩ := hsend.next htotal hk fun j _ hheld => hsent j hheld
        exact ⟨m, hm⟩
      · obtain rfl := Option.some.inj hs
        exact ⟨n, hsend.put hk ⟨i, hi, rfl, hbody⟩ fun j _ hheld => .inl (hsent j hheld)⟩
      · obtain rfl := Option.some.inj hs
        exact ⟨n, hsend.put hk trivial fun _ _ _ => .inr trivial⟩
    | done => cases hs
    | thrown => cases hs

theorem inv_start (htotal : 0 < total) : (start total).Inv total body 0 where
  counter := Nat.cast_zero.symm
  taken_le := Nat.zero_le total
  nonempty := by
    have hmin : ⌊min parallelism (total : ℚ)⌋.toNat = min 8 total := by
      have hcast : min parallelism (total : ℚ) = (min 8 total : ℕ) := by
        rw [parallelism, Nat.cast_min, Nat.cast_ofNat]
      rw [hcast, floor_natCast_toNat]
    rw [start, hmin]
    exact List.ne_nil_of_length_pos (by rw [List.length_replicate]; omega)
  worker w hw := by rw [List.eq_of_mem_replicate hw]; trivial
  request r hr := absurd hr List.not_mem_nil
  covered i hi := absurd hi (Nat.not_lt_zero i)

/-- The run lemma. -/
theorem inv_run {labels : List (ℕ × Bool)} (htotal : 0 < total) (hlt : total < 2 ^ 53)
    (h : Run (step total body) anyStep (start total) labels s) : ∃ n, s.Inv total body n := by
  refine h.invariant (fun s => ∃ n, s.Inv total body n) ⟨0, inv_start htotal⟩ ?_
  rintro s label t ⟨n, hn⟩ - hs
  exact hn.step hlt hs

/-- An upload that completes has sent every chunk, and nothing else. -/
theorem completed_requests {labels : List (ℕ × Bool)} (htotal : 0 < total) (hlt : total < 2 ^ 53)
    (h : Run (step total body) anyStep (start total) labels s) (hs : s.Completed) :
    (∀ i < total, s.Sent body i) ∧ ∀ r ∈ s.requests, ∃ i < total, IsRequest body i r := by
  obtain ⟨n, hn⟩ := inv_run htotal hlt h
  obtain ⟨w, hw⟩ := List.exists_mem_of_ne_nil _ hn.nonempty
  obtain rfl : n = total := by
    have hwf := hn.worker w hw
    rwa [hs w hw] at hwf
  refine ⟨fun i hi => ?_, hn.request⟩
  rcases hn.covered i hi with hsent | ⟨v, hv, hvi⟩
  · exact hsent
  · rw [hs v hv] at hvi
    exact hvi.elim

/-! ## Completion -/

theorem live_put (h : .thrown ∉ s.workers) (hw : w ≠ .thrown) : .thrown ∉ (s.put k w).workers := by
  intro hmem
  rcases List.mem_or_eq_of_mem_set hmem with hmem | heq
  · exact h hmem
  · exact hw heq.symm

theorem live_next (h : .thrown ∉ s.workers) (total : ℚ) : .thrown ∉ (s.next total k).workers := by
  rw [next]
  split_ifs
  · exact live_put h (by simp)
  · exact live_put h (by simp)

/-- While a worker has not ended it can take a step that brings the end nearer. -/
theorem Inv.progress (h : s.Inv total body n) (htotal : total < 2 ^ 53)
    (hbody : ∀ i < total, ∃ ciphertext, body i = .ok ciphertext) (hlive : .thrown ∉ s.workers)
    (hs : ¬ s.Completed) :
    ∃ label s', s.step total body label = some s' ∧ .thrown ∉ s'.workers ∧
      ∃ m, s'.Inv total body m ∧ potential total m s' < potential total n s := by
  obtain ⟨w, hw, hdone⟩ : ∃ w ∈ s.workers, w ≠ .done := by
    rw [Completed] at hs
    push Not at hs
    exact hs
  obtain ⟨k, hk⟩ := List.mem_iff_getElem?.mp hw
  cases w with
  | ready =>
    obtain ⟨m, hm, hpot⟩ := h.next htotal hk fun i _ hheld => hheld.elim
    refine ⟨(k, true), s.next total k, by rw [Pool.step, hk], live_next hlive _, m, hm, ?_⟩
    exact lt_of_lt_of_le (Nat.lt_add_of_pos_right (by decide)) hpot
  | encrypting current =>
    obtain ⟨i, hi, rfl⟩ := h.worker _ hw
    obtain ⟨ciphertext, hi'⟩ := hbody i (hi.trans_le h.taken_le)
    refine ⟨(k, true), s.put k (.sending i ciphertext 0), by rw [Pool.step, hk]; simp only [hi'],
      live_put hlive (by simp), n, h.put hk ⟨i, hi, rfl, hi'⟩ fun _ _ hheld => .inr hheld, ?_⟩
    have hput : potential total n (s.put k (.sending i ciphertext 0)) + 3 =
        potential total n s + 2 := potential_put hk
    omega
  | sending current ciphertext attempt =>
    obtain ⟨hsend, hsent⟩ := h.send hw
    obtain ⟨m, hm, hpot⟩ := hsend.next htotal hk fun j _ hheld => hsent j hheld
    refine ⟨(k, true), (s.send current ciphertext).next total k, by rw [Pool.step, hk]; rfl,
      live_next (s := s.send current ciphertext) hlive _, m, hm, ?_⟩
    exact lt_of_lt_of_le (Nat.lt_add_of_pos_right Nat.two_pos) hpot
  | done => exact absurd rfl hdone
  | thrown => exact absurd hw hlive

/-- From every state in which no worker has failed. -/
theorem Inv.exists_completed (h : s.Inv total body n) (htotal : total < 2 ^ 53)
    (hbody : ∀ i < total, ∃ ciphertext, body i = .ok ciphertext) (hlive : .thrown ∉ s.workers) :
    ∃ labels s', Run (Pool.step total body) anyStep s labels s' ∧ s'.Completed := by
  induction hp : potential total n s using Nat.strong_induction_on generalizing s n with
  | _ p ih =>
    by_cases hs : s.Completed
    · exact ⟨[], s, .nil, hs⟩
    · obtain ⟨label, s₁, hstep, hlive₁, m, hm, hlt⟩ := h.progress htotal hbody hlive hs
      obtain ⟨labels, s', hrun, hs'⟩ := ih _ (hp ▸ hlt) hm hlive₁ rfl
      exact ⟨label :: labels, s', .cons trivial hstep hrun, hs'⟩

theorem exists_completed (htotal : 0 < total) (hlt : total < 2 ^ 53)
    (hbody : ∀ i < total, ∃ ciphertext, body i = .ok ciphertext) :
    ∃ labels s, Run (step total body) anyStep (start total) labels s ∧ s.Completed := by
  refine (inv_start htotal).exists_completed hlt hbody fun hmem => ?_
  exact absurd (List.eq_of_mem_replicate hmem) (by simp)

end Pool

end FreeBox.Web
