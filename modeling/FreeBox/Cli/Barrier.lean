import FreeBox.Cli.Upload
import FreeBox.Lib.Barrier
import FreeBox.Lib.Run

/-!
# The barrier before the command line client's last request

Model of one round of the loop of `upload_files` in `apps/cli/src/commands/upload.rs`. The
requests of `buffer_unordered` are in flight together, at most `parallelism` of them, and
are answered in any order. Results are collected until the stream has ended, also after an
error.

Results:
* `UploadRun.Inv.step`: the step lemma.
* `UploadRun.kept`: no index is taken twice, and the last request is sent only after a
  request for every index was answered with success.
* `UploadRun.claimed`: when nothing more can happen, every index was taken.
-/

namespace FreeBox.Cli

open FreeBox.Lib FreeBox.Crypto FreeBox.Lib.Barrier

/-- The upload of one file, with what has happened in it. -/
structure UploadRun where
  stage : Stage
  waiting : List ChunkCiphertext
  inFlight : List ChunkCiphertext
  results : List Bool
  events : List (Event UInt64)

inductive UploadStep
  | initAnswered (answered : Bool)
  | polled
  | putAnswered (k : ℕ) (answered : Bool)
  | collected
  | completeAnswered (answered : Bool)
  deriving DecidableEq

namespace UploadRun

/-- `upload_files` checks `parallelism` before anything else. -/
def start (parallelism : UInt8) (u : PreparedUpload) : Except String UploadRun :=
  if parallelism = 0 ∨ parallelism > 16 then .error "parallelism must be between 1 and 16"
  else .ok { stage := .opening, waiting := u.chunks, inFlight := [], results := [], events := [] }

/-- One step: `upload/init` is answered, `buffer_unordered` takes a chunk from the stream, a
    chunk request is answered, the stream has ended, or `complete` is answered. -/
def step (parallelism : UInt8) (s : UploadRun) : UploadStep → Option UploadRun
  | .initAnswered answered =>
    match s.stage with
    | .opening => some { s with stage := if answered then .sending else .failed }
    | _ => none
  | .polled =>
    match s.stage, s.waiting with
    | .sending, chunk :: waiting =>
      if s.inFlight.length < parallelism.toNat then
        some { s with
          waiting
          inFlight := s.inFlight ++ [chunk]
          events := s.events ++ [.claimed (claims s.events).length chunk.index] }
      else none
    | _, _ => none
  | .putAnswered k answered =>
    match s.stage, s.inFlight[k]? with
    | .sending, some chunk =>
      some { s with
        inFlight := s.inFlight.eraseIdx k
        results := s.results ++ [answered]
        events := s.events ++ [.put chunk.index answered] ++
          if answered then [] else [.failed chunk.index] }
    | _, _ => none
  | .collected =>
    match s.stage, s.waiting, s.inFlight with
    | .sending, [], [] =>
      if s.results.all id then
        some { s with stage := .closing, events := s.events ++ [.complete] }
      else some { s with stage := .failed }
    | _, _, _ => none
  | .completeAnswered answered =>
    match s.stage with
    | .closing => some { s with stage := if answered then .closed else .failed }
    | _ => none

/-! ## The invariant -/

/-- The indices of an upload. -/
def indices (chunks : List ChunkCiphertext) : Set UInt64 := {i | i ∈ chunks.map (·.index)}

/-- `upload/init` has succeeded. -/
structure Inv (chunks : List ChunkCiphertext) (s : UploadRun) : Prop where
  opened : s.stage ≠ .opening
  taken : claims s.events ++ s.waiting.map (·.index) = chunks.map (·.index)
  covered : ∀ i ∈ claims s.events,
    i ∈ s.inFlight.map (·.index) ∨ .put i true ∈ s.events ∨ false ∈ s.results
  failed : ∀ i, .failed i ∈ s.events → false ∈ s.results
  ended : s.stage ≠ .sending → s.waiting = []
  complete : .complete ∈ s.events → s.stage ≠ .sending
  kept : Kept (indices chunks) s.events

variable {parallelism : UInt8} {chunks : List ChunkCiphertext} {s s' : UploadRun}
  {chunk : ChunkCiphertext} {k : ℕ} {answered : Bool}

theorem Inv.polled {waiting : List ChunkCiphertext} (h : s.Inv chunks)
    (hnodup : (chunks.map (·.index)).Nodup) (hstage : s.stage = .sending)
    (hwaiting : s.waiting = chunk :: waiting) (k : ℕ) :
    Inv chunks { s with
      waiting
      inFlight := s.inFlight ++ [chunk]
      events := s.events ++ [.claimed k chunk.index] } := by
  have htaken := h.taken
  rw [hwaiting, List.map_cons] at htaken
  have hclaims : claims (s.events ++ [.claimed k chunk.index]) =
      claims s.events ++ [chunk.index] := claims_append _ _
  refine ⟨h.opened, ?_, fun i hi => ?_, fun i hi => ?_, fun hne => absurd hstage hne, ?_, ?_⟩
  · rw [hclaims, List.append_assoc]
    exact htaken
  · rw [hclaims] at hi
    rcases List.mem_append.mp hi with hi | hi
    · rcases h.covered i hi with hflight | hput | hresult
      · refine .inl ?_
        rw [List.map_append]
        exact List.mem_append_left _ hflight
      · exact .inr (.inl (List.mem_append_left _ hput))
      · exact .inr (.inr hresult)
    · refine .inl ?_
      rw [List.map_append]
      exact List.mem_append_right _ hi
  · rcases List.mem_append.mp hi with hi | hi
    · exact h.failed i hi
    · simp at hi
  · intro hcomplete
    rcases List.mem_append.mp hcomplete with hcomplete | hcomplete
    · exact h.complete hcomplete
    · simp at hcomplete
  · refine h.kept.concat ⟨?_, fun hmem => ?_⟩
    · show chunk.index ∈ chunks.map (·.index)
      rw [← htaken]
      simp
    · rw [← htaken] at hnodup
      exact (List.nodup_append.mp hnodup).2.2 _ hmem _ List.mem_cons_self rfl

theorem mem_or_eq_of_getElem? {α : Type*} {l : List α} {a b : α} (hk : l[k]? = some a)
    (hb : b ∈ l) : b = a ∨ b ∈ l.eraseIdx k := by
  obtain ⟨j, hj⟩ := List.mem_iff_getElem?.mp hb
  by_cases hjk : j = k
  · subst hjk
    exact .inl (Option.some.inj (hj.symm.trans hk))
  · exact .inr (List.mem_eraseIdx_iff_getElem?.mpr ⟨j, hjk, hj⟩)

theorem Inv.putAnswered (h : s.Inv chunks) (hstage : s.stage = .sending)
    (hk : s.inFlight[k]? = some chunk) (answered : Bool) :
    Inv chunks { s with
      inFlight := s.inFlight.eraseIdx k
      results := s.results ++ [answered]
      events := s.events ++ [.put chunk.index answered] ++
        if answered then [] else [.failed chunk.index] } := by
  have hopen : .complete ∉ s.events := fun hcomplete => h.complete hcomplete hstage
  have hclaims : claims (s.events ++ [.put chunk.index answered] ++
      if answered then [] else [.failed chunk.index]) = claims s.events := by
    rw [claims_append, claims_append]
    cases answered <;> simp [claims, Event.claim]
  have hput : .put chunk.index answered ∈ s.events ++ [.put chunk.index answered] ++
      if answered then [] else [.failed chunk.index] := by simp
  refine ⟨h.opened, ?_, fun i hi => ?_, fun i hi => ?_, fun hne => absurd hstage hne, ?_, ?_⟩
  · rw [hclaims]
    exact h.taken
  · rw [hclaims] at hi
    rcases h.covered i hi with hflight | hput' | hresult
    · obtain ⟨other, hother, rfl⟩ := List.mem_map.mp hflight
      rcases mem_or_eq_of_getElem? hk hother with rfl | hother
      · cases answered with
        | true => exact .inr (.inl hput)
        | false => exact .inr (.inr (by simp))
      · exact .inl (List.mem_map_of_mem hother)
    · exact .inr (.inl (List.mem_append_left _ (List.mem_append_left _ hput')))
    · exact .inr (.inr (List.mem_append_left _ hresult))
  · cases answered with
    | true =>
      have hi : .failed i ∈ s.events := by simpa using hi
      exact List.mem_append_left _ (h.failed i hi)
    | false => simp
  · intro hcomplete
    have hcomplete : .complete ∈ s.events := by cases answered <;> simpa using hcomplete
    exact absurd hcomplete hopen
  · cases answered with
    | true =>
      simp only [if_true, List.append_nil]
      exact h.kept.put chunk.index true
    | false => exact (h.kept.put chunk.index false).concat (by simpa [Event.Allowed] using hopen)

theorem Inv.collected (h : s.Inv chunks) (hwaiting : s.waiting = []) (hflight : s.inFlight = [])
    (hresults : false ∉ s.results) :
    Inv chunks { s with stage := .closing, events := s.events ++ [.complete] } := by
  have hclaims : claims (s.events ++ [.complete]) = claims s.events := by
    rw [claims_append]
    exact List.append_nil _
  have htaken : claims s.events = chunks.map (·.index) := by
    rw [← h.taken, hwaiting]
    exact (List.append_nil _).symm
  have hput : ∀ i ∈ claims s.events, .put i true ∈ s.events := by
    intro i hi
    rcases h.covered i hi with hmem | hput | hresult
    · rw [hflight] at hmem
      cases hmem
    · exact hput
    · exact absurd hresult hresults
  refine ⟨by simp, ?_, fun i hi => ?_, fun i hi => ?_, fun _ => hwaiting, by simp, ?_⟩
  · rw [hclaims]
    exact h.taken
  · rw [hclaims] at hi
    exact .inr (.inl (List.mem_append_left _ (hput i hi)))
  · rcases List.mem_append.mp hi with hi | hi
    · exact h.failed i hi
    · simp at hi
  · refine h.kept.concat ⟨fun i hi => ?_, fun i hi => hresults (h.failed i hi)⟩
    have hi : i ∈ claims s.events := htaken ▸ hi
    exact ⟨hi, hput i hi⟩

/-- The step lemma. -/
theorem Inv.step {label : UploadStep} (h : s.Inv chunks)
    (hnodup : (chunks.map (·.index)).Nodup) (hs : s.step parallelism label = some s') :
    s'.Inv chunks := by
  cases label with
  | initAnswered answered =>
    rw [UploadRun.step] at hs
    split at hs
    · exact absurd ‹_› h.opened
    · cases hs
  | polled =>
    rw [UploadRun.step] at hs
    split at hs
    · split_ifs at hs
      obtain rfl := Option.some.inj hs
      exact h.polled hnodup ‹_› ‹_› _
    · cases hs
  | putAnswered k answered =>
    rw [UploadRun.step] at hs
    split at hs
    · obtain rfl := Option.some.inj hs
      exact h.putAnswered ‹_› ‹_› answered
    · cases hs
  | collected =>
    rw [UploadRun.step] at hs
    split at hs
    · rename_i hstage hwaiting hflight
      split_ifs at hs with hall
      · obtain rfl := Option.some.inj hs
        refine h.collected hwaiting hflight fun hmem => ?_
        have := List.all_eq_true.mp hall false hmem
        simp at this
      · obtain rfl := Option.some.inj hs
        exact { h with opened := by simp, ended := fun _ => hwaiting, complete := by simp }
    · cases hs
  | completeAnswered answered =>
    rw [UploadRun.step] at hs
    split at hs
    · rename_i hstage
      obtain rfl := Option.some.inj hs
      have hwaiting : s.waiting = [] := h.ended (by simp [hstage])
      cases answered with
      | true =>
        exact { h with opened := by simp, ended := fun _ => hwaiting, complete := by simp }
      | false =>
        exact { h with opened := by simp, ended := fun _ => hwaiting, complete := by simp }
    · cases hs

/-- `upload/init` has not succeeded. -/
structure Idle (chunks : List ChunkCiphertext) (s : UploadRun) : Prop where
  stage : s.stage = .opening ∨ s.stage = .failed
  waiting : s.waiting = chunks
  events : s.events = []

theorem Idle.step {label : UploadStep} (h : s.Idle chunks)
    (hs : s.step parallelism label = some s') :
    (s'.Idle chunks ∧ label ≠ .initAnswered true) ∨ s'.Inv chunks := by
  cases label with
  | initAnswered answered =>
    rw [UploadRun.step] at hs
    split at hs
    · obtain rfl := Option.some.inj hs
      cases answered with
      | true =>
        have hnone : ∀ e, e ∉ s.events := by simp [h.events]
        refine .inr ⟨by simp, ?_, ?_, ?_, by simp, ?_, ?_⟩
        · show claims s.events ++ s.waiting.map _ = _
          rw [h.events, h.waiting]
          rfl
        · intro i hi
          rw [show s.events = [] from h.events] at hi
          cases hi
        · intro i hi
          exact absurd hi (hnone _)
        · intro hi
          exact absurd hi (hnone _)
        · show Kept _ s.events
          rw [h.events]
          exact .nil
      | false => exact .inl ⟨⟨.inr rfl, h.waiting, h.events⟩, by simp⟩
    · cases hs
  | polled =>
    rcases h.stage with hstage | hstage <;> simp [UploadRun.step, hstage] at hs
  | putAnswered k answered =>
    rcases h.stage with hstage | hstage <;> simp [UploadRun.step, hstage] at hs
  | collected =>
    rcases h.stage with hstage | hstage <;> simp [UploadRun.step, hstage] at hs
  | completeAnswered answered =>
    rcases h.stage with hstage | hstage <;> simp [UploadRun.step, hstage] at hs

variable {u : PreparedUpload} {s₀ : UploadRun} {labels : List UploadStep}

theorem start_eq_ok (h : start parallelism u = .ok s₀) :
    0 < parallelism.toNat ∧ s₀.Idle u.chunks := by
  unfold start at h
  split_ifs at h with hbounds
  obtain rfl := Except.ok.inj h
  refine ⟨?_, ⟨.inl rfl, rfl, rfl⟩⟩
  rw [Nat.pos_iff_ne_zero]
  intro hzero
  exact hbounds (.inl (UInt8.toNat_inj.mp hzero))

/-- The run lemma. -/
theorem inv_run (hnodup : (u.chunks.map (·.index)).Nodup) (hstart : start parallelism u = .ok s₀)
    (h : Run (step parallelism) anyStep s₀ labels s) :
    (s.Idle u.chunks ∧ .initAnswered true ∉ labels) ∨ s.Inv u.chunks := by
  refine h.history_invariant
    (fun labels s => (s.Idle u.chunks ∧ .initAnswered true ∉ labels) ∨ s.Inv u.chunks)
    (.inl ⟨(start_eq_ok hstart).2, List.not_mem_nil⟩) ?_
  rintro labels s label s' - hinv - hs
  rcases hinv with ⟨hidle, hlabels⟩ | hinv
  · rcases hidle.step hs with ⟨hidle, hlabel⟩ | hinv
    · refine .inl ⟨hidle, fun hmem => ?_⟩
      rcases List.mem_append.mp hmem with hmem | hmem
      · exact hlabels hmem
      · exact hlabel (List.mem_singleton.mp hmem).symm
    · exact .inr hinv
  · exact .inr (hinv.step hnodup hs)

theorem kept (hnodup : (u.chunks.map (·.index)).Nodup) (hstart : start parallelism u = .ok s₀)
    (h : Run (step parallelism) anyStep s₀ labels s) : Kept (indices u.chunks) s.events := by
  rcases inv_run hnodup hstart h with ⟨hidle, -⟩ | hinv
  · rw [hidle.events]
    exact .nil
  · exact hinv.kept

/-- While a chunk waits, a request can be sent or is in flight. -/
theorem waiting_eq_nil (hpos : 0 < parallelism.toNat) (hstage : s.stage = .sending)
    (hend : ∀ label, s.step parallelism label = none) : s.waiting = [] := by
  cases hwaiting : s.waiting with
  | nil => rfl
  | cons chunk waiting =>
    have hpolled := hend .polled
    rw [step, hstage, hwaiting] at hpolled
    dsimp only at hpolled
    split_ifs at hpolled with hlt
    have hflight : 0 < s.inFlight.length := by omega
    have hanswered := hend (.putAnswered 0 true)
    rw [step, hstage, List.getElem?_eq_getElem hflight] at hanswered
    cases hanswered

/-- When nothing more can happen, every index was taken. -/
theorem claimed (hnodup : (u.chunks.map (·.index)).Nodup) (hstart : start parallelism u = .ok s₀)
    (h : Run (step parallelism) anyStep s₀ labels s) (hopen : .initAnswered true ∈ labels)
    (hend : ∀ label, s.step parallelism label = none) :
    ∀ i ∈ indices u.chunks, ∃! k, .claimed k i ∈ s.events := by
  rcases inv_run hnodup hstart h with ⟨-, hlabels⟩ | hinv
  · exact absurd hopen hlabels
  · have hwaiting : s.waiting = [] := by
      by_cases hstage : s.stage = .sending
      · exact waiting_eq_nil (start_eq_ok hstart).1 hstage hend
      · exact hinv.ended hstage
    intro i hi
    refine existsUnique_worker hinv.kept.claims_nodup ?_
    have htaken := hinv.taken
    rw [hwaiting, List.map_nil, List.append_nil] at htaken
    rw [htaken]
    exact hi

end UploadRun

/-! ## The indices of a prepared file -/

theorem map_index_chunks {A : Aes256Gcm} {blake3 : Bytes → String} {key : FileKey}
    {remoteName : String} {plaintext : Bytes} {u : PreparedUpload}
    (h : prepareUpload A blake3 key remoteName plaintext = .ok u) :
    u.chunks.map (·.index) = (List.range u.chunks.length).map UInt64.ofNat := by
  have henc := (prepareUpload_eq_ok h).1
  rw [encryptPlaintext_eq] at henc
  apply List.ext_getElem?
  intro j
  rw [List.getElem?_map, List.getElem?_map]
  rcases encryptChunks_getElem? henc j with ⟨-, hnone⟩ | ⟨piece, c, -, hc, hchunk⟩
  · have hlen := List.getElem?_eq_none_iff.mp hnone
    rw [hnone, List.getElem?_eq_none_iff.mpr (by rwa [List.length_range])]
    rfl
  · have hlen := (List.getElem?_eq_some_iff.mp hc).1
    obtain ⟨-, ciphertext, -, rfl⟩ := encryptChunk_eq_ok.mp hchunk
    rw [hc, List.getElem?_range hlen, Nat.zero_add]
    rfl

theorem nodup_index_chunks {A : Aes256Gcm} {blake3 : Bytes → String} {key : FileKey}
    {remoteName : String} {plaintext : Bytes} {u : PreparedUpload}
    (h : prepareUpload A blake3 key remoteName plaintext = .ok u) :
    (u.chunks.map (·.index)).Nodup ∧
      UploadRun.indices u.chunks = {i | i.toNat < u.chunks.length} := by
  have hlen := (prepareUpload_eq_ok h).2.1
  constructor
  · rw [map_index_chunks h]
    refine List.Nodup.map_on (fun i hi j hj hij => ?_) List.nodup_range
    rw [List.mem_range] at hi hj
    exact ofNat_inj_of_lt (by omega) (by omega) hij
  · ext i
    show i ∈ u.chunks.map (·.index) ↔ i.toNat < u.chunks.length
    rw [map_index_chunks h, List.mem_map]
    constructor
    · rintro ⟨j, hj, rfl⟩
      have hj := List.mem_range.mp hj
      rwa [UInt64.toNat_ofNat_of_lt' (by rw [UInt64.size]; omega)]
    · intro hi
      exact ⟨i.toNat, List.mem_range.mpr hi, UInt64.ofNat_toNat⟩

end FreeBox.Cli
