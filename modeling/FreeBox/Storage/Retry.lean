import FreeBox.Storage.Multipart

/-!
# Completions that fail

`LocalPlugin::complete_multipart` deletes each staging object after it has read it, and
writes the object when all have been read. Here the calls of the store may fail. Keys
that cannot name an object of the store are left out.

Results:
* `completeMultipartUnder_never`: without failures this is the model of
  `FreeBox.Storage.Plugins`.
* `completeRounds_spec`: which rounds succeed and which staging objects they take away.
* `retriable_iff`: when a failed completion can be repeated.
-/

namespace FreeBox.Storage

open FreeBox.Lib

/-- The calls of the store that fail during one completion, with the texts of their errors:
the read and the deletion of each round, and the write. A call that fails changes nothing. -/
structure Faults where
  read : ℕ → Option String
  delete : ℕ → Option String
  write : Option String

/-- No call fails. -/
def Faults.never : Faults := { read := fun _ => none, delete := fun _ => none, write := none }

/-- The failures from the next round on. -/
def Faults.next (faults : Faults) : Faults :=
  { read := fun i => faults.read (i + 1), delete := fun i => faults.delete (i + 1)
    write := faults.write }

/-- A call of the store with its message. -/
def failing {α : Type} (message : String) (fault : Option String) (call : PluginM α) : PluginM α :=
  match fault with
  | none => call
  | some e => throw (.storage (message ++ e))

namespace LocalPlugin

/-- One round of the loop of `complete_multipart`. -/
def appendPartUnder (faults : Faults) (upload : MultipartUpload) (finalData : Bytes)
    (part : CompletedPart) : PluginM Bytes := do
  let staging := stagingKey upload.key part.partNumber
  let chunk ← failing ("local get(" ++ staging ++ "): ") (faults.read 0) (get staging)
  tryCatch (failing ("local delete(" ++ staging ++ "): ") (faults.delete 0) (delete staging))
    fun _ => return ()
  return finalData ++ chunk

/-- The loop of `complete_multipart`. -/
def completeRounds (upload : MultipartUpload) :
    Faults → List CompletedPart → Bytes → PluginM Bytes
  | _, [], finalData => return finalData
  | faults, part :: parts, finalData => do
    let finalData ← appendPartUnder faults upload finalData part
    completeRounds upload faults.next parts finalData

/-- `complete_multipart`. -/
def completeMultipartUnder (faults : Faults) (upload : MultipartUpload)
    (parts : List CompletedPart) : PluginM Unit := do
  let sorted := parts.mergeSort fun a b => a.partNumber ≤ b.partNumber
  let finalData ← completeRounds upload faults sorted []
  failing ("local put(" ++ upload.key ++ "): ") faults.write (put upload.key finalData)

end LocalPlugin

open LocalPlugin

variable {faults : Faults} {upload : MultipartUpload} {part : CompletedPart}
  {parts : List CompletedPart} {operator : Operator} {finalData : Bytes}

theorem completeRounds_never (upload : MultipartUpload) (parts : List CompletedPart)
    (finalData : Bytes) :
    completeRounds upload .never parts finalData = parts.foldlM (appendPart upload) finalData := by
  induction parts generalizing finalData with
  | nil => rfl
  | cons part parts ih =>
    rw [completeRounds, List.foldlM_cons]
    exact bind_congr ih

theorem completeMultipartUnder_never (upload : MultipartUpload) (parts : List CompletedPart) :
    completeMultipartUnder .never upload parts = localPlugin.completeMultipart upload parts := by
  show _ = LocalPlugin.completeMultipart upload parts
  unfold completeMultipartUnder LocalPlugin.completeMultipart
  simp only [completeRounds_never]
  rfl

/-! ## One round -/

/-- The part at a position can be read when the loop comes to it: the read does not fail,
the part is staged, and no round before has taken it away. -/
structure Readable (faults : Faults) (key : String) (parts : List CompletedPart)
    (operator : Operator) (i : ℕ) : Prop where
  read : faults.read i = none
  staged : ∀ part ∈ parts[i]?, operator.lookup (stagingKey key part.partNumber) ≠ none
  first : ∀ part ∈ parts[i]?, ∀ j < i, ∀ earlier ∈ parts[j]?,
    earlier.partNumber = part.partNumber → faults.delete j ≠ none

/-- The store after a round that has read its part. -/
def afterRound (faults : Faults) (key : String) (part : CompletedPart) (operator : Operator) :
    Operator :=
  match faults.delete 0 with
  | none => operator.erase (stagingKey key part.partNumber)
  | some _ => operator

theorem appendPartUnder_ok {chunk : Bytes} (hread : faults.read 0 = none)
    (h : operator.lookup (stagingKey upload.key part.partNumber) = some chunk) :
    appendPartUnder faults upload finalData part (some operator) =
      (.ok (finalData ++ chunk), some (afterRound faults upload.key part operator)) := by
  have hget : LocalPlugin.get (stagingKey upload.key part.partNumber) (some operator) =
      (.ok chunk, some operator) := read_ok h
  unfold appendPartUnder afterRound
  rw [hread]
  show (LocalPlugin.get _ >>= _) (some operator) = _
  rw [StateExcept.bind_ok hget]
  cases faults.delete 0 <;> rfl

theorem appendPartUnder_error (h : ¬ Readable faults upload.key (part :: parts) operator 0) :
    ∃ e, appendPartUnder faults upload finalData part (some operator) =
      (.error e, some operator) := by
  unfold appendPartUnder
  cases hread : faults.read 0 with
  | some e => exact ⟨_, StateExcept.bind_error rfl⟩
  | none =>
    have hlookup : operator.lookup (stagingKey upload.key part.partNumber) = none := by
      by_contra hstaged
      refine h ⟨hread, fun p hp => ?_, fun p hp j hj => absurd hj (Nat.not_lt_zero j)⟩
      rw [← Option.some.inj hp]
      exact hstaged
    have hget : LocalPlugin.get (stagingKey upload.key part.partNumber) (some operator) =
        (.error (.notFound (stagingKey upload.key part.partNumber)), some operator) :=
      read_missing hlookup
    exact ⟨_, StateExcept.bind_error hget⟩

/-- What the rounds after the first one can read. -/
theorem readable_succ_iff {i : ℕ} :
    Readable faults upload.key (part :: parts) operator (i + 1) ↔
      Readable faults.next upload.key parts (afterRound faults upload.key part operator) i := by
  have hround : ∀ p : CompletedPart,
      (afterRound faults upload.key part operator).lookup (stagingKey upload.key p.partNumber) ≠
          none ↔
        operator.lookup (stagingKey upload.key p.partNumber) ≠ none ∧
          (part.partNumber = p.partNumber → faults.delete 0 ≠ none) := by
    intro p
    unfold afterRound
    cases hdelete : faults.delete 0 with
    | some e => simp
    | none =>
      by_cases hsame : part.partNumber = p.partNumber
      · simp [hsame]
      · have hne : stagingKey upload.key p.partNumber ≠ stagingKey upload.key part.partNumber :=
          fun heq => hsame (stagingKey_inj _ heq).symm
        rw [AList.lookup_erase_ne hne]
        simp [hsame]
  constructor
  · intro h
    refine ⟨h.read, fun p hp => ?_, fun p hp j hj earlier hearlier hnumber => ?_⟩
    · exact (hround p).mpr ⟨h.staged p hp, h.first p hp 0 (Nat.succ_pos i) part rfl⟩
    · exact h.first p hp (j + 1) (Nat.succ_lt_succ hj) earlier hearlier hnumber
  · intro h
    refine ⟨h.read, fun p hp => ((hround p).mp (h.staged p hp)).1,
      fun p hp j hj earlier hearlier hnumber => ?_⟩
    cases j with
    | zero =>
      rw [← Option.some.inj hearlier] at hnumber
      exact ((hround p).mp (h.staged p hp)).2 hnumber
    | succ j => exact h.first p hp j (Nat.lt_of_succ_lt_succ hj) earlier hearlier hnumber

/-! ## All rounds -/

/-- The round at a position deletes its staging object. -/
structure Deletes (faults : Faults) (key : String) (parts : List CompletedPart)
    (operator : Operator) (j : ℕ) : Prop where
  reached : ∀ i ≤ j, Readable faults key parts operator i
  works : faults.delete j = none

theorem deletes_succ_iff (h : Readable faults upload.key (part :: parts) operator 0) {j : ℕ} :
    Deletes faults upload.key (part :: parts) operator (j + 1) ↔
      Deletes faults.next upload.key parts (afterRound faults upload.key part operator) j := by
  constructor
  · intro hdel
    exact ⟨fun i hi => readable_succ_iff.mp (hdel.reached (i + 1) (Nat.succ_le_succ hi)),
      hdel.works⟩
  · intro hdel
    refine ⟨fun i hi => ?_, hdel.works⟩
    cases i with
    | zero => exact h
    | succ i => exact readable_succ_iff.mpr (hdel.reached i (Nat.le_of_succ_le_succ hi))

/-- The loop succeeds when every part can be read, and takes away the staging objects of
the rounds that delete. -/
theorem completeRounds_spec (upload : MultipartUpload) (faults : Faults)
    (parts : List CompletedPart) (operator : Operator) (finalData : Bytes) :
    ∃ result operator', completeRounds upload faults parts finalData (some operator) =
        (result, some operator') ∧
      ((∃ data, result = .ok data) ↔
        ∀ i < parts.length, Readable faults upload.key parts operator i) ∧
      (∀ j, ∀ part ∈ parts[j]?, Deletes faults upload.key parts operator j →
        operator'.lookup (stagingKey upload.key part.partNumber) = none) ∧
      ∀ key, (∀ j, ∀ part ∈ parts[j]?, Deletes faults upload.key parts operator j →
        key ≠ stagingKey upload.key part.partNumber) →
        operator'.lookup key = operator.lookup key := by
  induction parts generalizing faults operator finalData with
  | nil =>
    refine ⟨.ok finalData, operator, rfl, ?_, by simp, fun key _ => rfl⟩
    simp
  | cons part parts ih =>
    by_cases hzero : Readable faults upload.key (part :: parts) operator 0
    · obtain ⟨chunk, hchunk⟩ := Option.ne_none_iff_exists'.mp (hzero.staged part rfl)
      have hround : appendPartUnder faults upload finalData part (some operator) =
          (.ok (finalData ++ chunk), some (afterRound faults upload.key part operator)) :=
        appendPartUnder_ok hzero.read hchunk
      obtain ⟨result, operator', hrun, hok, hgone, hkept⟩ :=
        ih faults.next (afterRound faults upload.key part operator) (finalData ++ chunk)
      refine ⟨result, operator', ?_, ?_, fun j p hp hdel => ?_, fun key hkey => ?_⟩
      · rw [completeRounds, StateExcept.bind_ok hround, hrun]
      · rw [hok, List.length_cons]
        constructor
        · intro h i hi
          cases i with
          | zero => exact hzero
          | succ i => exact readable_succ_iff.mpr (h i (by omega))
        · intro h i hi
          exact readable_succ_iff.mp (h (i + 1) (by omega))
      · cases j with
        | succ j => exact hgone j p hp ((deletes_succ_iff hzero).mp hdel)
        | zero =>
          obtain rfl := Option.some.inj hp
          -- a later round deletes it again or leaves it as it is
          by_cases hlater : ∃ j, ∃ p ∈ parts[j]?,
              Deletes faults.next upload.key parts (afterRound faults upload.key part operator) j ∧
                stagingKey upload.key part.partNumber = stagingKey upload.key p.partNumber
          · obtain ⟨j, p, hp, hdel', hsame⟩ := hlater
            rw [hsame]
            exact hgone j p hp hdel'
          · rw [hkept _ fun j p hp hdel' hsame => hlater ⟨j, p, hp, hdel', hsame⟩]
            unfold afterRound
            rw [hdel.works, AList.lookup_erase]
      · rw [hkept key fun j p hp hdel =>
          hkey (j + 1) p hp ((deletes_succ_iff hzero).mpr hdel)]
        unfold afterRound
        cases hdelete : faults.delete 0 with
        | some e => rfl
        | none =>
          refine AList.lookup_erase_ne (hkey 0 part rfl ⟨fun i hi => ?_, hdelete⟩)
          rw [Nat.le_zero.mp hi]
          exact hzero
    · obtain ⟨e, hround⟩ : ∃ e, appendPartUnder faults upload finalData part (some operator) =
          (.error e, some operator) := appendPartUnder_error hzero
      refine ⟨.error e, operator, ?_, ?_, fun j p hp hdel => ?_, fun key _ => rfl⟩
      · rw [completeRounds, StateExcept.bind_error hround]
      · constructor
        · rintro ⟨data, hdata⟩
          cases hdata
        · intro h
          exact absurd (h 0 (Nat.succ_pos _)) hzero
      · exact absurd (hdel.reached 0 (Nat.zero_le j)) hzero

/-! ## Repeating a completion -/

/-- The parts in the order of the loop. -/
def sortedParts (parts : List CompletedPart) : List CompletedPart :=
  parts.mergeSort fun a b => a.partNumber ≤ b.partNumber

/-- A list that names staged parts, each once. -/
structure Correct (key : String) (operator : Operator) (parts : List CompletedPart) : Prop where
  nodup : (parts.map CompletedPart.partNumber).Nodup
  staged : ∀ part ∈ parts, operator.lookup (stagingKey key part.partNumber) ≠ none

/-- The data of the staged parts in ascending order of their numbers. -/
def stagedData (key : String) (operator : Operator) (parts : List CompletedPart) : Bytes :=
  ((sortedParts parts).map fun part =>
    (operator.lookup (stagingKey key part.partNumber)).getD []).flatten

/-- When the completion returns an error, all staging objects and the object at the key are
as they were, and a completion with a list that was correct before works now. -/
def Retriable (faults : Faults) (upload : MultipartUpload) (parts : List CompletedPart)
    (operator : Operator) : Prop :=
  ∀ e operator', completeMultipartUnder faults upload parts (some operator) =
      (.error e, some operator') →
    (∀ n, operator'.lookup (stagingKey upload.key n) =
      operator.lookup (stagingKey upload.key n)) ∧
    operator'.lookup upload.key = operator.lookup upload.key ∧
    ∀ again, Correct upload.key operator again →
      ∃ operator'', localPlugin.completeMultipart upload again (some operator') =
          (.ok (), some operator'') ∧
        operator''.lookup upload.key = some (stagedData upload.key operator again)

theorem completeMultipart_correct {again : List CompletedPart} {operator' : Operator}
    (h : Correct upload.key operator again)
    (hsame : ∀ n, operator'.lookup (stagingKey upload.key n) =
      operator.lookup (stagingKey upload.key n)) :
    ∃ operator'', localPlugin.completeMultipart upload again (some operator') =
        (.ok (), some operator'') ∧
      operator''.lookup upload.key = some (stagedData upload.key operator again) := by
  have hperm : (sortedParts again).Perm again := List.mergeSort_perm _ _
  have hstaged : ∀ part ∈ sortedParts again,
      operator'.lookup (stagingKey upload.key (id part).partNumber) =
        some ((operator.lookup (stagingKey upload.key part.partNumber)).getD []) := by
    intro part hpart
    obtain ⟨data, hdata⟩ :=
      Option.ne_none_iff_exists'.mp (h.staged part (hperm.mem_iff.mp hpart))
    show operator'.lookup (stagingKey upload.key part.partNumber) = _
    rw [hsame, hdata]
    rfl
  have hnodup : ((sortedParts again).map fun part => (id part).partNumber).Nodup :=
    (hperm.map _).nodup_iff.mpr h.nodup
  have hcomplete : localPlugin.completeMultipart upload again (some operator') = _ :=
    completeMultipart_ok (List.map_id (sortedParts again)).symm hnodup hstaged
  exact ⟨_, hcomplete, AList.lookup_insert _⟩

/-- A completion whose loop and write succeed. -/
theorem completeMultipartUnder_ok {result : Except Error Bytes} {operator₁ : Operator}
    (hrun : completeRounds upload faults (sortedParts parts) [] (some operator) =
      (result, some operator₁)) (hok : (∃ data, result = .ok data) ∧ faults.write = none) :
    ∃ operator₂, completeMultipartUnder faults upload parts (some operator) =
      (.ok (), some operator₂) := by
  obtain ⟨⟨data, rfl⟩, hwrite⟩ := hok
  have hput : completeMultipartUnder faults upload parts (some operator) =
      failing ("local put(" ++ upload.key ++ "): ") faults.write (put upload.key data)
        (some operator₁) := StateExcept.bind_ok hrun
  rw [hput, hwrite]
  exact ⟨_, rfl⟩

/-- Otherwise it fails, and the store is as the loop has left it. -/
theorem completeMultipartUnder_error {result : Except Error Bytes} {operator₁ : Operator}
    (hrun : completeRounds upload faults (sortedParts parts) [] (some operator) =
      (result, some operator₁)) (hfail : ¬ ((∃ data, result = .ok data) ∧ faults.write = none)) :
    ∃ e, completeMultipartUnder faults upload parts (some operator) =
      (.error e, some operator₁) := by
  cases result with
  | error e => exact ⟨e, StateExcept.bind_error hrun⟩
  | ok data =>
    have hput : completeMultipartUnder faults upload parts (some operator) =
        failing ("local put(" ++ upload.key ++ "): ") faults.write (put upload.key data)
          (some operator₁) := StateExcept.bind_ok hrun
    obtain ⟨e, hwrite⟩ := Option.ne_none_iff_exists'.mp fun h => hfail ⟨⟨data, rfl⟩, h⟩
    rw [hput, hwrite]
    exact ⟨_, rfl⟩

/-- A completion that fails can be repeated exactly when it cannot fail, which is when every
part can be read and the write does not fail, or when no round deletes. -/
theorem retriable_iff (faults : Faults) (upload : MultipartUpload) (parts : List CompletedPart)
    (operator : Operator) :
    Retriable faults upload parts operator ↔
      ((∀ i < parts.length, Readable faults upload.key (sortedParts parts) operator i) ∧
        faults.write = none) ∨
      ∀ j < parts.length, ¬ Deletes faults upload.key (sortedParts parts) operator j := by
  have hlength : (sortedParts parts).length = parts.length := List.length_mergeSort parts
  obtain ⟨result, operator₁, hrun, hok, hgone, hkept⟩ :=
    completeRounds_spec upload faults (sortedParts parts) operator []
  rw [hlength] at hok
  by_cases hworks : (∀ i < parts.length,
      Readable faults upload.key (sortedParts parts) operator i) ∧ faults.write = none
  · -- there is no error
    obtain ⟨operator₂, hcomplete⟩ := completeMultipartUnder_ok hrun ⟨hok.mpr hworks.1, hworks.2⟩
    refine iff_of_true (fun e operator' hfail => ?_) (.inl hworks)
    rw [hcomplete] at hfail
    cases hfail
  · obtain ⟨e, hcomplete⟩ := completeMultipartUnder_error hrun
      fun h => hworks ⟨hok.mp h.1, h.2⟩
    rw [or_iff_right hworks]
    constructor
    · intro h j hj hdel
      obtain ⟨part, hpart⟩ : ∃ part, (sortedParts parts)[j]? = some part :=
        ⟨_, List.getElem?_eq_getElem (by omega)⟩
      obtain ⟨hsame, -, -⟩ := h e operator₁ hcomplete
      apply (hdel.reached j le_rfl).staged part hpart
      rw [← hsame]
      exact hgone j part hpart hdel
    · intro hnone e' operator' hfail
      have hall : ∀ key, operator₁.lookup key = operator.lookup key := by
        intro key
        refine hkept key fun j part hpart hdel => absurd hdel (hnone j ?_)
        rw [← hlength]
        exact (List.getElem?_eq_some_iff.mp hpart).1
      rw [hcomplete] at hfail
      obtain rfl := Option.some.inj (Prod.mk.inj hfail).2
      exact ⟨fun n => hall _, hall _, fun again hagain =>
        completeMultipart_correct hagain fun n => hall _⟩

def runUpload : MultipartUpload := { uploadId := "a", key := "file" }

/-- The first part is staged and the second one is missing. The completion with both takes
the first part away and fails, and the right list, which would have worked, fails after it. -/
theorem failed_completion_loses :
    let operator : Operator := .singleton "file.part.00000001" [1]
    let failed := completeMultipartUnder .never runUpload [⟨1, ""⟩, ⟨2, ""⟩] (some operator)
    failed.1 = .error (.notFound "file.part.00000002") ∧
      failed.2.map (AList.lookup "file.part.00000001") = some none ∧
      (localPlugin.completeMultipart runUpload [⟨1, ""⟩] (some operator)).1 = .ok () ∧
      (localPlugin.completeMultipart runUpload [⟨1, ""⟩] failed.2).1 =
        .error (.notFound "file.part.00000001") ∧
      ¬ Retriable .never runUpload [⟨1, ""⟩, ⟨2, ""⟩] operator := by
  intro operator failed
  have hsorted : sortedParts [⟨1, ""⟩, ⟨2, ""⟩] = [⟨1, ""⟩, ⟨2, ""⟩] :=
    List.mergeSort_of_pairwise (by decide)
  have hfailed : failed = ((completeRounds runUpload .never [⟨1, ""⟩, ⟨2, ""⟩] [] >>= fun data =>
      failing "local put(file): " none (put "file" data)) (some operator)) := by
    show ((completeRounds runUpload .never (sortedParts _) [] >>= _) (some operator)) = _
    rw [hsorted]
    rfl
  have hresult : failed.1 = .error (.notFound "file.part.00000002") := by
    rw [hfailed]
    decide +kernel
  have hlost : failed.2.map (AList.lookup "file.part.00000001") = some none := by
    rw [hfailed]
    decide +kernel
  have hagain : (localPlugin.completeMultipart runUpload [⟨1, ""⟩] failed.2).1 =
      .error (.notFound "file.part.00000001") := by
    rw [hfailed]
    decide +kernel
  refine ⟨hresult, hlost, by decide +kernel, hagain, fun h => ?_⟩
  obtain ⟨operator', hoperator', hlookup⟩ := Option.map_eq_some_iff.mp hlost
  obtain ⟨hsame, -, -⟩ := h _ operator' (Prod.ext hresult hoperator')
  have hstaged : operator.lookup (stagingKey runUpload.key 1) = some [1] := by decide +kernel
  have hkey : stagingKey runUpload.key 1 = "file.part.00000001" := by decide +kernel
  have hone := hsame 1
  rw [hstaged, hkey, hlookup] at hone
  cases hone

end FreeBox.Storage
