import FreeBox.Storage.Multipart

/-!
# Uploads that are open at the same time

The local plugin stages a part under the key of its upload and the number of the part; the
identifier of the upload is not in the name. Uploads whose keys name one object overwrite
each other's parts, and the first one that is completed takes them away.

Results:
* `sendParts_eq`: an object holds what was written to it last by a call that succeeded.
* `lastSent_eq`: an upload that has made the last call for a part finds what it sent.
* `assembles_iff`: when a completed upload is what was sent through it.
-/

namespace FreeBox.Storage

open FreeBox.Lib

/-- A call of `upload_part`. -/
structure PartCall where
  upload : MultipartUpload
  partNumber : UInt32
  data : Bytes
  deriving DecidableEq

/-- The key of the staging object that the call writes. -/
def PartCall.target (call : PartCall) : String :=
  LocalPlugin.stagingKey call.upload.key call.partNumber

/-- The last call that wrote to the object at `p`. -/
def lastWriter (path : String → String) (calls : List PartCall) (p : String) : Option PartCall :=
  calls.reverse.find? fun call => path call.target = p

/-- The data last uploaded through an upload under a part number. -/
def lastSent (calls : List PartCall) (upload : MultipartUpload) (n : UInt32) : Bytes :=
  ((calls.reverse.find? fun call => call.upload = upload ∧ call.partNumber = n).map
    PartCall.data).getD []

/-- One part for each number that was sent through the upload, in any order. -/
structure PartsOf (calls : List PartCall) (upload : MultipartUpload)
    (parts : List CompletedPart) : Prop where
  nodup : (parts.map CompletedPart.partNumber).Nodup
  mem_iff : ∀ n, n ∈ parts.map CompletedPart.partNumber ↔
    ∃ call ∈ calls, call.upload = upload ∧ call.partNumber = n

/-- The parts in ascending order of their numbers. -/
def assembled (calls : List PartCall) (upload : MultipartUpload) (parts : List CompletedPart) :
    Bytes :=
  (((parts.map CompletedPart.partNumber).mergeSort fun a b => a ≤ b).map
    (lastSent calls upload)).flatten

section Store

variable {σ : Type} (service : FsService σ)

/-- The calls of all uploads, in the order in which they reach the store: the calls that
succeed, and the state after all of them. -/
def sendParts : List PartCall → Option σ → List PartCall × Option σ
  | [], state => ([], state)
  | call :: calls, state =>
    let (answer, next) := service.uploadPart call.upload call.partNumber call.data state
    let (sent, last) := sendParts calls next
    (if answer.isOk then call :: sent else sent, last)

/-- After the calls the upload is completed: the object at its key is what was sent through
it, its staging objects are gone, and no object changes that another upload has written, or
that no upload has written. -/
def Assembles (calls : List PartCall) (upload : MultipartUpload) (parts : List CompletedPart)
    (s : σ) : Prop :=
  ∃ sent t u, sendParts service calls (some s) = (sent, some t) ∧
    service.completeMultipart upload parts (some t) = (.ok (), some u) ∧
    (service.objects u).lookup (service.path upload.key) = some (assembled sent upload parts) ∧
    (∀ part ∈ parts, (service.objects u).lookup
      (service.path (LocalPlugin.stagingKey upload.key part.partNumber)) = none) ∧
    ∀ p, p ≠ service.path upload.key →
      (∀ call ∈ lastWriter service.path sent p, call.upload ≠ upload) →
        (service.objects u).lookup p = (service.objects t).lookup p

/-- The store does not refuse the write of `complete_multipart`, which comes after the staging
objects have been removed: the key names a file, and nothing is in its way. -/
def Takes (upload : MultipartUpload) (parts : List CompletedPart) (data : Bytes) (t : σ) : Prop :=
  ∃ u, service.write upload.key data (service.removeParts upload.key
    (parts.mergeSort fun a b => a.partNumber ≤ b.partNumber) t) = .ok u

end Store

variable {σ : Type} {service : FsService σ} {calls sent : List PartCall} {upload : MultipartUpload}
  {parts : List CompletedPart} {s t : σ}

/-! ## The store after the calls -/

theorem uploadPart_cases (service : FsService σ) (call : PartCall) (s : σ) :
    (∃ t, service.write call.target call.data s = .ok t ∧
      service.uploadPart call.upload call.partNumber call.data (some s) =
        (.ok (completed (call.partNumber, call.data)), some t)) ∨
    ∃ e, service.uploadPart call.upload call.partNumber call.data (some s) =
      (.error e, some s) := by
  unfold FsService.uploadPart
  cases hwrite : service.write call.target call.data s with
  | ok t =>
    refine .inl ⟨t, rfl, ?_⟩
    exact StateExcept.bind_ok (FsService.put_ok hwrite)
  | error e => exact .inr ⟨_, StateExcept.bind_error (FsService.put_refused hwrite)⟩

theorem lastWriter_cons (path : String → String) (call : PartCall) (calls : List PartCall)
    (p : String) : lastWriter path (call :: calls) p =
      (lastWriter path calls p).or (if path call.target = p then some call else none) := by
  rw [lastWriter, List.reverse_cons, List.find?_append, List.find?_singleton]
  simp only [decide_eq_true_eq]
  rfl

theorem sendParts_eq (service : FsService σ) (calls : List PartCall) (s : σ) :
    ∃ sent t, sendParts service calls (some s) = (sent, some t) ∧
      ∀ p, (service.objects t).lookup p =
        ((lastWriter service.path sent p).map PartCall.data).or ((service.objects s).lookup p) := by
  induction calls generalizing s with
  | nil => exact ⟨[], s, rfl, fun p => rfl⟩
  | cons call calls ih =>
    rcases uploadPart_cases service call s with ⟨t, hwrite, hcall⟩ | ⟨e, hcall⟩
    · obtain ⟨sent, u, hrest, hlookup⟩ := ih t
      refine ⟨call :: sent, u, by simp only [sendParts, hcall, hrest]; rfl, fun p => ?_⟩
      rw [hlookup, lastWriter_cons, service.objects_write hwrite, Table.lookup_insert_eq]
      cases lastWriter service.path sent p with
      | some last => rfl
      | none =>
        simp only [Option.map_none, Option.none_or, eq_comm (a := p)]
        split_ifs <;> rfl
    · obtain ⟨sent, u, hrest, hlookup⟩ := ih s
      exact ⟨sent, u, by simp only [sendParts, hcall, hrest]; rfl, hlookup⟩

/-! ## Shared staging objects -/

theorem find?_of_imp {α : Type} {p q : α → Bool} {a : α} {l : List α} (h : l.find? p = some a)
    (hq : q a = true) (himp : ∀ b, q b = true → p b = true) : l.find? q = some a := by
  obtain ⟨-, before, after, rfl, hbefore⟩ := List.find?_eq_some_iff_append.mp h
  refine List.find?_eq_some_iff_append.mpr ⟨hq, before, after, rfl, fun b hb => ?_⟩
  have hnot := hbefore b hb
  rw [Bool.not_eq_true'] at hnot ⊢
  exact Bool.eq_false_of_not_eq_true fun hqb => by rw [himp b hqb] at hnot; cases hnot

/-- The last call for a part is the last one of the upload when the upload has made it. -/
theorem lastSent_eq (hkey : FsService.Separates service.path upload.key) {n : UInt32}
    {call : PartCall} (h : lastWriter service.path calls
      (service.path (LocalPlugin.stagingKey upload.key n)) = some call)
    (hown : call.upload = upload) : lastSent calls upload n = call.data := by
  have hpath : service.path call.target = service.path (LocalPlugin.stagingKey upload.key n) := by
    unfold lastWriter at h
    exact of_decide_eq_true (List.find?_some h :)
  have hn : call.partNumber = n := hkey.parts _ _ (by rw [← hpath, PartCall.target, hown])
  have hfind : calls.reverse.find? (fun c => c.upload = upload ∧ c.partNumber = n) = some call := by
    refine find?_of_imp h (decide_eq_true ⟨hown, hn⟩) fun c hc => ?_
    obtain ⟨rfl, rfl⟩ := of_decide_eq_true hc
    exact decide_eq_true rfl
  rw [lastSent, hfind]
  rfl

/-- A number of a part has been sent. -/
theorem PartsOf.exists_lastWriter (h : PartsOf calls upload parts) (path : String → String)
    {part : CompletedPart} (hpart : part ∈ parts) : ∃ call, lastWriter path calls
      (path (LocalPlugin.stagingKey upload.key part.partNumber)) = some call := by
  obtain ⟨call, hcall, rfl, hn⟩ := (h.mem_iff _).mp (List.mem_map_of_mem hpart)
  have hsome : (lastWriter path calls
      (path (LocalPlugin.stagingKey call.upload.key part.partNumber))).isSome := by
    rw [lastWriter, List.find?_isSome]
    exact ⟨call, List.mem_reverse.mpr hcall, decide_eq_true (by rw [PartCall.target, hn])⟩
  exact Option.isSome_iff_exists.mp hsome

/-! ## Completion -/

/-- The last call for each part is one of the upload. -/
def OwnsParts (path : String → String) (sent : List PartCall) (upload : MultipartUpload)
    (parts : List CompletedPart) : Prop :=
  ∀ part ∈ parts, ∀ call ∈ lastWriter path sent
    (path (LocalPlugin.stagingKey upload.key part.partNumber)), call.upload = upload

/-- An upload whose parts have not been overwritten comes to its write with them. -/
theorem completeMultipart_of_own (hkey : FsService.Separates service.path upload.key)
    (hsend : sendParts service calls (some s) = (sent, some t)) (h : PartsOf sent upload parts)
    (hown : OwnsParts service.path sent upload parts) :
    service.completeMultipart upload parts (some t) =
      service.put upload.key (assembled sent upload parts) (some (service.removeParts upload.key
        (parts.mergeSort fun a b => a.partNumber ≤ b.partNumber) t)) := by
  obtain ⟨sent', t', hsend', hlookup⟩ := sendParts_eq service calls s
  rw [hsend] at hsend'
  cases hsend'
  have hperm := List.mergeSort_perm parts fun a b => a.partNumber ≤ b.partNumber
  have hnumbers : (parts.mergeSort fun a b => a.partNumber ≤ b.partNumber).map
      CompletedPart.partNumber = (parts.map CompletedPart.partNumber).mergeSort fun a b => a ≤ b :=
    List.map_mergeSort fun _ _ _ _ => rfl
  have hstaged : ∀ part ∈ parts.mergeSort fun a b => a.partNumber ≤ b.partNumber,
      (service.objects t).lookup
        (service.path (LocalPlugin.stagingKey upload.key (id part).partNumber)) =
          some (lastSent sent upload part.partNumber) := by
    intro part hpart
    have hmem := hperm.mem_iff.mp hpart
    obtain ⟨call, hcall⟩ := h.exists_lastWriter service.path hmem
    rw [id, hlookup, hcall, lastSent_eq hkey hcall (hown part hmem call hcall)]
    rfl
  have hcomplete := FsService.completeMultipart_ok (u := upload) hkey
    (List.map_id _).symm ((hperm.map _).nodup_iff.mpr h.nodup) hstaged
  rw [List.map_id] at hcomplete
  rw [hcomplete, assembled, ← hnumbers, List.map_map]
  rfl

theorem assembles_of_own (hkey : FsService.Separates service.path upload.key)
    (hsend : sendParts service calls (some s) = (sent, some t)) (h : PartsOf sent upload parts)
    (hown : OwnsParts service.path sent upload parts)
    (htakes : Takes service upload parts (assembled sent upload parts) t) :
    Assembles service calls upload parts s := by
  obtain ⟨u, hwrite⟩ := htakes
  have hcomplete := (completeMultipart_of_own hkey hsend h hown).trans (FsService.put_ok hwrite)
  have hmem : ∀ {part}, part ∈ (parts.mergeSort fun a b => a.partNumber ≤ b.partNumber) ↔
      part ∈ parts := (List.mergeSort_perm _ _).mem_iff
  have hobjects := service.objects_write hwrite
  refine ⟨sent, t, u, hsend, hcomplete, ?_, fun part hpart => ?_, fun p hp hwriter => ?_⟩
  · rw [hobjects, AList.lookup_insert]
  · rw [hobjects, AList.lookup_insert_ne (hkey.object _), FsService.lookup_removeParts, if_pos]
    exact ⟨part, hmem.mpr hpart, rfl⟩
  · rw [hobjects, AList.lookup_insert_ne hp, FsService.lookup_removeParts, if_neg]
    rintro ⟨part, hpart, rfl⟩
    obtain ⟨call, hcall⟩ := h.exists_lastWriter service.path (hmem.mp hpart)
    exact hwriter call hcall (hown part (hmem.mp hpart) call hcall)

/-- The completion takes away the staging objects, also one that another upload has
written. -/
theorem Assembles.own (hassembles : Assembles service calls upload parts s)
    (hkey : FsService.Separates service.path upload.key)
    (hsend : sendParts service calls (some s) = (sent, some t)) :
    OwnsParts service.path sent upload parts := by
  obtain ⟨sent', t', u, hsend', -, -, hgone, hothers⟩ := hassembles
  rw [hsend] at hsend'
  cases hsend'
  obtain ⟨sent', t', hsend', hlookup⟩ := sendParts_eq service calls s
  rw [hsend] at hsend'
  cases hsend'
  intro part hpart call hcall
  by_contra hforeign
  have hsame := hothers _ (hkey.object part.partNumber) fun call' hcall' => by
    rw [Option.mem_unique hcall' hcall]
    exact hforeign
  rw [hgone part hpart, hlookup, hcall] at hsame
  cases hsame

/-- A completed upload is what was sent through it, and the others are left alone, exactly
when the store takes the object and after the upload's last call for each of its part numbers
no other upload has sent a part to the same staging object. -/
theorem assembles_iff (service : FsService σ) (calls : List PartCall) (upload : MultipartUpload)
    (parts : List CompletedPart) (s : σ) (hkey : FsService.Separates service.path upload.key)
    (hsend : sendParts service calls (some s) = (sent, some t)) (h : PartsOf sent upload parts) :
    Assembles service calls upload parts s ↔
      OwnsParts service.path sent upload parts ∧
        Takes service upload parts (assembled sent upload parts) t := by
  constructor
  · intro hassembles
    have hown := hassembles.own hkey hsend
    obtain ⟨sent', t', u, hsend', hcomplete, -⟩ := hassembles
    rw [hsend] at hsend'
    cases hsend'
    rw [completeMultipart_of_own hkey hsend h hown] at hcomplete
    exact ⟨hown, u, FsService.put_eq_ok hcomplete⟩
  · rintro ⟨hown, htakes⟩
    exact assembles_of_own hkey hsend h hown htakes

/-- A key that names a directory cannot be written. -/
def writeFile (key : String) (data : Bytes) (s : Operator) : Except String Operator :=
  if endsWith "/" (normalizePath key) then .error "write path is not a file"
  else .ok (s.insert (normalizePath key) data)

theorem writeFile_ok {key : String} (h : endsWith "/" (normalizePath key) = false) (data : Bytes)
    (s : Operator) : writeFile key data s = .ok (s.insert (normalizePath key) data) := by
  rw [writeFile, h, if_neg Bool.false_ne_true]

/-- Keys are normalised as documented. -/
def runService : FsService Operator where
  path := normalizePath
  objects := id
  write := writeFile
  remove key s := s.erase (normalizePath key)
  objects_write h := by
    unfold writeFile at h
    split_ifs at h
    cases h
    rfl
  objects_remove _ _ := rfl

/-- No call is refused. -/
theorem exists_sendParts_run (calls : List PartCall)
    (h : (sendParts runService calls (some ∅)).1 = calls) :
    ∃ t, sendParts runService calls (some ∅) = (calls, some t) := by
  obtain ⟨sent, t, hsend, -⟩ := sendParts_eq runService calls ∅
  rw [hsend] at h
  cases h
  exact ⟨t, hsend⟩

/-- Parts in the wrong order, one of them sent again, and another upload whose key names the
same object. -/
def runCalls : List PartCall :=
  [⟨⟨"a", "file"⟩, 2, [9]⟩, ⟨⟨"b", "/file"⟩, 1, [7]⟩, ⟨⟨"a", "file"⟩, 1, [1]⟩,
    ⟨⟨"b", "other"⟩, 2, [8]⟩, ⟨⟨"a", "file"⟩, 2, [2]⟩]

theorem partsOf_runCalls : PartsOf runCalls ⟨"a", "file"⟩ [⟨2, ""⟩, ⟨1, ""⟩] := by
  refine ⟨by decide, fun n => ?_⟩
  simp [runCalls, eq_comm, or_comm]
  exact Or.inr

theorem takes_file (parts : List CompletedPart) (data : Bytes) (s : Operator) :
    Takes runService ⟨"a", "file"⟩ parts data s := by
  have hfile : endsWith "/" (normalizePath "file") = false := by decide +kernel
  exact ⟨_, writeFile_ok hfile data _⟩

theorem ownsParts_runCalls :
    OwnsParts normalizePath runCalls ⟨"a", "file"⟩ [⟨2, ""⟩, ⟨1, ""⟩] := by
  have hlast : ∀ part ∈ ([⟨2, ""⟩, ⟨1, ""⟩] : List CompletedPart),
      (lastWriter normalizePath runCalls (normalizePath
        (LocalPlugin.stagingKey "file" part.partNumber))).all fun call =>
          call.upload = ⟨"a", "file"⟩ := by
    decide +kernel
  intro part hpart call hcall
  have hall := hlast part hpart
  rw [hcall] at hall
  exact of_decide_eq_true hall

theorem assembles_run : Assembles runService runCalls ⟨"a", "file"⟩ [⟨2, ""⟩, ⟨1, ""⟩] ∅ := by
  obtain ⟨t, hsend⟩ := exists_sendParts_run runCalls (by decide +kernel)
  exact (assembles_iff runService runCalls ⟨"a", "file"⟩ [⟨2, ""⟩, ⟨1, ""⟩] ∅
    (separates_normalizePath "file") hsend partsOf_runCalls).mpr
      ⟨ownsParts_runCalls, takes_file _ _ t⟩

/-- Two uploads with one key send a part of one number. -/
def runCollision : List PartCall := [⟨⟨"a", "file"⟩, 1, [1]⟩, ⟨⟨"b", "file"⟩, 1, [2]⟩]

theorem not_ownsParts_runCollision :
    ¬ OwnsParts normalizePath runCollision ⟨"a", "file"⟩ [⟨1, ""⟩] := by
  have hlast : lastWriter normalizePath runCollision
      (normalizePath (LocalPlugin.stagingKey "file" 1)) = some ⟨⟨"b", "file"⟩, 1, [2]⟩ := by
    decide +kernel
  intro hown
  exact absurd (hown ⟨1, ""⟩ List.mem_cons_self _ hlast) (by decide)

/-- The first one is completed: its object is the part of the other one, which is gone. -/
theorem uploads_collide :
    ((runService.completeMultipart ⟨"a", "file"⟩ [⟨1, ""⟩]
        (sendParts runService runCollision (some ∅)).2).2.map fun operator =>
      (operator.lookup "file", operator.lookup "file.part.00000001")) = some (some [2], none) ∧
    assembled runCollision ⟨"a", "file"⟩ [⟨1, ""⟩] = [1] ∧
    ¬ Assembles runService runCollision ⟨"a", "file"⟩ [⟨1, ""⟩] ∅ := by
  refine ⟨by decide +kernel, by decide +kernel, fun h => ?_⟩
  obtain ⟨t, hsend⟩ := exists_sendParts_run runCollision (by decide +kernel)
  exact not_ownsParts_runCollision (h.own (separates_normalizePath "file") hsend)

end FreeBox.Storage
