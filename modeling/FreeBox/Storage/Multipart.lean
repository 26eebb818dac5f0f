import FreeBox.Storage.FsService

/-!
# Uploads in parts

What an upload in parts leaves at the key of the object, for the plugins of
`FreeBox.Storage.Plugins`. The parts are numbered from 1 and may be sent in any order.

* The local plugin writes each part to a staging object. When the upload is completed it
  puts the staging objects together in the order of their numbers.
* The S3 plugin writes each part to the final key, and its `complete_multipart` does
  nothing. The object is the part that was sent last.

Results:
* `localPlugin_leaves`: the local plugin leaves the concatenation of the parts.
* `s3Plugin_leaves_iff`: the S3 plugin leaves the part sent last; an upload of no parts
  leaves what was there before.
* `uploads_agree_iff`: when the two plugins leave the same object.
* `abort_undoes_iff`: when an abort leaves everything as it was.
-/

namespace FreeBox.Storage

open FreeBox.Lib

/-- The parts of an object, with their numbers. Parts are numbered from 1. -/
def numbered (parts : List Bytes) : List (UInt32 × Bytes) :=
  parts.zipIdx.map fun part => (UInt32.ofNat (part.2 + 1), part.1)

/-- The upload succeeds, and the object at its key is then `data`. -/
def StorageProvider.Leaves (provider : StorageProvider) (uploadId : Uuid) (key : String)
    (parts : List (UInt32 × Bytes)) (operator : Operator) (data : Bytes) : Prop :=
  ∃ operator', provider.uploadParts uploadId key parts (some operator) =
    (.ok (), some operator') ∧ operator'.lookup key = some data

section Numbered

variable {parts : List Bytes} {order : List (UInt32 × Bytes)}

theorem map_snd_numbered (parts : List Bytes) : (numbered parts).map Prod.snd = parts := by
  unfold numbered
  rw [List.map_map]
  exact List.zipIdx_map_fst 0 parts

theorem numbered_pairwise (hn : parts.length < 2 ^ 32) :
    (numbered parts).Pairwise fun a b => a.1 < b.1 := by
  rw [List.pairwise_iff_getElem]
  intro i j hi hj hij
  simp only [numbered, List.length_map, List.length_zipIdx] at hi hj
  simp only [numbered, List.getElem_map, List.getElem_zipIdx, UInt32.lt_iff_toNat_lt,
    UInt32.toNat_ofNat']
  omega

end Numbered

/-! ## Sending the parts -/

/-- The answer to a part. -/
def completed (part : UInt32 × Bytes) : CompletedPart := { partNumber := part.1, etag := "" }

/-- The objects after each part has been written to the key of its number. -/
def storeParts (target : UInt32 → String) (parts : List (UInt32 × Bytes)) (operator : Operator) :
    Operator :=
  parts.foldl (fun operator part => operator.insert (target part.1) part.2) operator

theorem mapM_uploadPart {provider : StorageProvider} {upload : MultipartUpload}
    {target : UInt32 → String}
    (hpart : ∀ n data operator, provider.uploadPart upload n data (some operator) =
      (.ok (completed (n, data)), some (operator.insert (target n) data)))
    (parts : List (UInt32 × Bytes)) (operator : Operator) :
    parts.mapM (fun part => provider.uploadPart upload part.1 part.2) (some operator) =
      (.ok (parts.map completed), some (storeParts target parts operator)) := by
  induction parts generalizing operator with
  | nil => rfl
  | cons part parts ih => exact StateExcept.mapM_cons_ok (hpart part.1 part.2 operator) (ih _)

/-- The upload is completed after each part has been stored. -/
theorem uploadParts_eq {provider : StorageProvider} {uploadId : Uuid} {key : String}
    {upload : MultipartUpload} {target : UInt32 → String} {operator : Operator}
    (hcreate : provider.createMultipart uploadId key (some operator) =
      (.ok upload, some operator))
    (hpart : ∀ n data operator, provider.uploadPart upload n data (some operator) =
      (.ok (completed (n, data)), some (operator.insert (target n) data)))
    (parts : List (UInt32 × Bytes)) :
    provider.uploadParts uploadId key parts (some operator) =
      provider.completeMultipart upload (parts.map completed)
        (some (storeParts target parts operator)) := by
  unfold StorageProvider.uploadParts
  rw [StateExcept.bind_ok hcreate, StateExcept.bind_ok (mapM_uploadPart hpart parts operator)]

theorem lookup_storeParts_of_notMem {target : UInt32 → String} {key : String}
    {parts : List (UInt32 × Bytes)} (hkey : ∀ part ∈ parts, key ≠ target part.1)
    (operator : Operator) : (storeParts target parts operator).lookup key = operator.lookup key := by
  induction parts generalizing operator with
  | nil => rfl
  | cons part parts ih =>
    have htail : ∀ part' ∈ parts, key ≠ target part'.1 :=
      fun part' h => hkey part' (List.mem_cons_of_mem _ h)
    show (storeParts target parts (operator.insert (target part.1) part.2)).lookup key = _
    rw [ih htail, AList.lookup_insert_ne (hkey part List.mem_cons_self)]

/-- Parts with different numbers do not overwrite each other. -/
theorem lookup_storeParts {target : UInt32 → String} (htarget : Function.Injective target)
    {parts : List (UInt32 × Bytes)} (hnodup : (parts.map Prod.fst).Nodup) (operator : Operator)
    {part : UInt32 × Bytes} (hmem : part ∈ parts) :
    (storeParts target parts operator).lookup (target part.1) = some part.2 := by
  induction parts generalizing operator with
  | nil => simp at hmem
  | cons first parts ih =>
    obtain ⟨hfirst, hparts⟩ := List.nodup_cons.mp hnodup
    show (storeParts target parts (operator.insert (target first.1) first.2)).lookup _ = _
    rcases List.mem_cons.mp hmem with rfl | hmem
    · rw [lookup_storeParts_of_notMem, AList.lookup_insert]
      intro other hother heq
      apply hfirst
      rw [htarget heq]
      exact List.mem_map_of_mem hother
    · exact ih hparts _ hmem

/-- Parts that are written to one key overwrite each other. -/
theorem lookup_storeParts_const (key : String) (parts : List (UInt32 × Bytes))
    (operator : Operator) :
    (storeParts (fun _ => key) parts operator).lookup key =
      (parts.getLast?.map Prod.snd).or (operator.lookup key) := by
  induction parts using List.reverseRecOn with
  | nil => rfl
  | append_singleton parts part ih =>
    simp only [storeParts, List.foldl_append, List.foldl_cons, List.foldl_nil,
      AList.lookup_insert, List.getLast?_concat, Option.map_some, Option.some_or]

/-! ## The local plugin -/

section Local

variable {u : MultipartUpload} {operator : Operator}

theorem stagingKey_inj (key : String) : Function.Injective (LocalPlugin.stagingKey key) := by
  intro m n h
  have hchars := congrArg String.toList h
  simp only [LocalPlugin.stagingKey, String.toList_append, String.toList_ofList,
    List.append_cancel_left_eq] at hchars
  exact UInt32.toNat_inj.mp (zeroPad_inj hchars)

theorem ne_stagingKey (key : String) (partNumber : UInt32) :
    key ≠ LocalPlugin.stagingKey key partNumber := by
  intro h
  have hlen := congrArg (fun text => text.toList.length) h
  simp [LocalPlugin.stagingKey] at hlen

theorem separates_id (key : String) : FsService.Separates id key where
  parts _ _ h := stagingKey_inj key h
  object n h := ne_stagingKey key n h.symm

/-- An upload is completed with a list that is put in the order `sorted`. -/
theorem completeMultipart_ok {β : Type} {list : List CompletedPart} {sorted : List β}
    {part : β → CompletedPart} {data : β → Bytes}
    (hsorted : (list.mergeSort fun a b => a.partNumber ≤ b.partNumber) = sorted.map part)
    (hnodup : (sorted.map fun b => (part b).partNumber).Nodup)
    (hstaged : ∀ b ∈ sorted,
      operator.lookup (LocalPlugin.stagingKey u.key (part b).partNumber) = some (data b)) :
    LocalPlugin.completeMultipart u list (some operator) = (.ok (), some
      ((FsService.plain.removeParts u.key (sorted.map part) operator).insert u.key
        (sorted.map data).flatten)) := by
  have hcomplete : FsService.plain.completeMultipart u list (some operator) = _ :=
    FsService.completeMultipart_ok (separates_id u.key) hsorted hnodup hstaged
  rw [← FsService.plain_completeMultipart, hcomplete]
  rfl

/-- In whatever order the parts were sent, they are put together in the order of their
numbers. -/
theorem sorted_completed {parts : List Bytes} (hn : parts.length < 2 ^ 32)
    {order : List (UInt32 × Bytes)} (horder : order.Perm (numbered parts)) :
    ((order.map completed).mergeSort fun a b => a.partNumber ≤ b.partNumber) =
      (numbered parts).map completed := by
  have hperm : ((order.map completed).mergeSort fun a b => a.partNumber ≤ b.partNumber).Perm
      ((numbered parts).map completed) :=
    (List.mergeSort_perm _ _).trans (horder.map completed)
  have hsorted : ((order.map completed).mergeSort fun a b =>
      a.partNumber ≤ b.partNumber).Pairwise fun a b => a.partNumber ≤ b.partNumber := by
    refine (List.pairwise_mergeSort (fun a b c hab hbc => ?_) (fun a b => ?_) _).imp
      of_decide_eq_true
    · rw [decide_eq_true_eq] at hab hbc ⊢
      exact UInt32.le_trans hab hbc
    · rw [Bool.or_eq_true, decide_eq_true_eq, decide_eq_true_eq]
      exact UInt32.le_total _ _
  have hnumbered : ((numbered parts).map completed).Pairwise fun a b =>
      a.partNumber ≤ b.partNumber := by
    rw [List.pairwise_map]
    exact (numbered_pairwise hn).imp UInt32.le_of_lt
  refine List.Perm.eq_of_pairwise (fun a b ha hb hab hba => ?_) hsorted hnumbered hperm
  obtain ⟨p, -, rfl⟩ := List.mem_map.mp (hperm.mem_iff.mp ha)
  obtain ⟨q, -, rfl⟩ := List.mem_map.mp hb
  have hpq : p.1 = q.1 := UInt32.le_antisymm hab hba
  unfold completed
  rw [hpq]

/-- The local plugin leaves the concatenation of the parts, in whatever order they were
sent. -/
theorem localPlugin_leaves {parts : List Bytes} (hn : parts.length < 2 ^ 32)
    {order : List (UInt32 × Bytes)} (horder : order.Perm (numbered parts)) (uploadId : Uuid)
    (key : String) (operator : Operator) :
    localPlugin.Leaves uploadId key order operator parts.flatten := by
  have hsent : localPlugin.uploadParts uploadId key order (some operator) = _ :=
    uploadParts_eq rfl (fun _ _ _ => rfl) order
  have hnodup : ((numbered parts).map Prod.fst).Nodup := by
    rw [List.nodup_iff_pairwise_ne, List.pairwise_map]
    exact (numbered_pairwise hn).imp fun h => UInt32.ne_of_lt h
  have hnodup' : (order.map Prod.fst).Nodup := (horder.map Prod.fst).nodup_iff.mpr hnodup
  have hstaged : ∀ part ∈ numbered parts,
      (storeParts (LocalPlugin.stagingKey key) order operator).lookup
        (LocalPlugin.stagingKey key part.1) = some part.2 :=
    fun part hmem => lookup_storeParts (stagingKey_inj key) hnodup' operator
      (horder.mem_iff.mpr hmem)
  have hcomplete : localPlugin.completeMultipart { uploadId := toString uploadId, key }
      (order.map completed) _ = _ :=
    completeMultipart_ok (sorted_completed hn horder) hnodup hstaged
  refine ⟨_, hsent.trans hcomplete, ?_⟩
  rw [AList.lookup_insert, map_snd_numbered]

end Local

/-! ## The S3 plugin -/

theorem s3Plugin_leaves_iff (uploadId : Uuid) (key : String) (order : List (UInt32 × Bytes))
    (operator : Operator) (data : Bytes) :
    s3Plugin.Leaves uploadId key order operator data ↔
      (order.getLast?.map Prod.snd).or (operator.lookup key) = some data := by
  have hsent : s3Plugin.uploadParts uploadId key order (some operator) =
      (.ok (), some (storeParts (fun _ => key) order operator)) :=
    uploadParts_eq rfl (fun _ _ _ => rfl) order
  rw [← lookup_storeParts_const]
  constructor
  · rintro ⟨operator', hrun, hdata⟩
    rw [hsent] at hrun
    cases hrun
    exact hdata
  · intro hdata
    exact ⟨_, hsent, hdata⟩

/-- One of the parts is the whole only when the others are empty. -/
theorem eq_flatten_iff {init : List Bytes} {last : Bytes} {parts : List Bytes}
    (hperm : (init ++ [last]).Perm parts) :
    last = parts.flatten ↔ ∀ data ∈ init, data = [] := by
  have hmem : last ∈ parts := hperm.mem_iff.mp (by simp)
  have hsub : last.Sublist parts.flatten := List.sublist_flatten_of_mem hmem
  have hlength : parts.flatten.length = init.flatten.length + last.length := by
    rw [← hperm.flatten.length_eq, List.flatten_append, List.length_append, List.flatten_singleton]
  rw [← List.flatten_eq_nil_iff]
  constructor
  · intro h
    have := congrArg List.length h
    exact List.length_eq_zero_iff.mp (by omega)
  · intro h
    rw [h] at hlength
    exact hsub.eq_of_length (by simpa using hlength.symm)

/-! ## Agreement -/

/-- The two plugins leave the concatenation of the parts exactly when every part but the one
sent last is empty and, for an upload of no parts, there was an empty object on S3 before. -/
theorem uploads_agree_iff {parts : List Bytes} (hn : parts.length < 2 ^ 32)
    {order : List (UInt32 × Bytes)} (horder : order.Perm (numbered parts))
    (uploadId uploadId' : Uuid) (key : String) (s3 files : Operator) :
    (s3Plugin.Leaves uploadId key order s3 parts.flatten ∧
      localPlugin.Leaves uploadId' key order files parts.flatten ∧
      s3Plugin.capabilities.multipartUpload = true ∧
      localPlugin.capabilities.multipartUpload = true) ↔
    (∀ part ∈ order.dropLast, part.2 = []) ∧ (parts = [] → s3.lookup key = some []) := by
  have hlocal := localPlugin_leaves hn horder uploadId' key files
  have hdata : (order.map Prod.snd).Perm parts := by
    rw [← map_snd_numbered parts]
    exact horder.map _
  have hs3 := s3Plugin_leaves_iff uploadId key order s3 parts.flatten
  suffices h : s3Plugin.Leaves uploadId key order s3 parts.flatten ↔
      (∀ part ∈ order.dropLast, part.2 = []) ∧ (parts = [] → s3.lookup key = some []) by
    rw [← h]
    exact ⟨fun hall => hall.1, fun hleaves => ⟨hleaves, hlocal, rfl, rfl⟩⟩
  rw [hs3]
  rcases List.eq_nil_or_concat' order with rfl | ⟨init, last, rfl⟩
  · have hnil : parts = [] := List.nil_perm.mp hdata
    simp [hnil]
  · have hne : parts ≠ [] := by
      rintro rfl
      simp at hdata
    rw [List.map_append] at hdata
    rw [List.getLast?_concat, Option.map_some, Option.some_or, Option.some_inj,
      List.dropLast_concat, eq_flatten_iff hdata, List.forall_mem_map]
    exact (and_iff_left fun h => absurd h hne).symm

/-- The parts are empty but for the last one. -/
theorem uploads_agree :
    s3Plugin.Leaves ⟨1⟩ "file" (numbered [[], [1, 2]]) ∅ [1, 2] ∧
      localPlugin.Leaves ⟨2⟩ "file" (numbered [[], [1, 2]]) ∅ [1, 2] ∧
      s3Plugin.capabilities.multipartUpload = true ∧
      localPlugin.capabilities.multipartUpload = true :=
  (uploads_agree_iff (by decide) (List.Perm.refl _) ⟨1⟩ ⟨2⟩ "file" ∅ ∅).mpr
    ⟨by decide, by simp⟩

/-- Two parts of one byte: the S3 plugin leaves the second one. -/
theorem uploads_differ :
    localPlugin.Leaves ⟨2⟩ "file" (numbered [[1], [2]]) ∅ [1, 2] ∧
      s3Plugin.Leaves ⟨1⟩ "file" (numbered [[1], [2]]) ∅ [2] ∧
      ¬ s3Plugin.Leaves ⟨1⟩ "file" (numbered [[1], [2]]) ∅ [1, 2] := by
  refine ⟨localPlugin_leaves (by decide) (List.Perm.refl _) .., (s3Plugin_leaves_iff ..).mpr rfl, ?_⟩
  rw [s3Plugin_leaves_iff]
  decide

/-! ## Abort -/

/-- An upload in parts that is given up. -/
def StorageProvider.abortUpload (provider : StorageProvider) (uploadId : Uuid) (key : String)
    (parts : List (UInt32 × Bytes)) : PluginM Unit := do
  let upload ← provider.createMultipart uploadId key
  let _ ← parts.mapM fun part => provider.uploadPart upload part.1 part.2
  provider.abortMultipart upload

/-- The object at the key is what it was, and the objects `target n` that hold the parts
are gone. -/
def StorageProvider.Undoes (provider : StorageProvider) (target : UInt32 → String)
    (uploadId : Uuid) (key : String) (parts : List (UInt32 × Bytes)) (operator : Operator) : Prop :=
  ∃ operator', provider.abortUpload uploadId key parts (some operator) =
      (.ok (), some operator') ∧
    operator'.lookup key = operator.lookup key ∧
    ∀ part ∈ parts, operator'.lookup (target part.1) = none

theorem lookup_storeParts_ne_none {target : UInt32 → String} {parts : List (UInt32 × Bytes)}
    (operator : Operator) {part : UInt32 × Bytes} (hmem : part ∈ parts) :
    (storeParts target parts operator).lookup (target part.1) ≠ none := by
  induction parts using List.reverseRecOn with
  | nil => simp at hmem
  | append_singleton parts last ih =>
    have hlast : storeParts target (parts ++ [last]) operator =
        (storeParts target parts operator).insert (target last.1) last.2 := by
      simp [storeParts]
    rw [hlast]
    by_cases heq : target part.1 = target last.1
    · rw [heq, AList.lookup_insert]
      simp
    · rw [AList.lookup_insert_ne heq]
      rcases List.mem_append.mp hmem with hmem | hmem
      · exact ih hmem
      · exact absurd (by rw [List.mem_singleton.mp hmem]) heq

/-- An abort that deletes the object at the key. -/
theorem undoes_iff {provider : StorageProvider} {uploadId : Uuid} {key : String}
    {upload : MultipartUpload} {target : UInt32 → String} {operator : Operator}
    (hcreate : provider.createMultipart uploadId key (some operator) =
      (.ok upload, some operator))
    (hpart : ∀ n data operator, provider.uploadPart upload n data (some operator) =
      (.ok (completed (n, data)), some (operator.insert (target n) data)))
    (habort : ∀ operator : Operator, provider.abortMultipart upload (some operator) =
      (.ok (), some (operator.erase key))) (parts : List (UInt32 × Bytes)) :
    provider.Undoes target uploadId key parts operator ↔
      operator.lookup key = none ∧ ∀ part ∈ parts, target part.1 = key := by
  have hrun : provider.abortUpload uploadId key parts (some operator) =
      (.ok (), some ((storeParts target parts operator).erase key)) := by
    unfold StorageProvider.abortUpload
    rw [StateExcept.bind_ok hcreate, StateExcept.bind_ok (mapM_uploadPart hpart parts operator),
      habort]
  constructor
  · rintro ⟨operator', hafter, hkey, hstaged⟩
    rw [hrun] at hafter
    cases hafter
    rw [AList.lookup_erase] at hkey
    refine ⟨hkey.symm, fun part hmem => ?_⟩
    by_contra hne
    have hgone := hstaged part hmem
    rw [AList.lookup_erase_ne hne] at hgone
    exact lookup_storeParts_ne_none operator hmem hgone
  · rintro ⟨hkey, htarget⟩
    refine ⟨_, hrun, ?_, fun part hmem => ?_⟩
    · rw [AList.lookup_erase, hkey]
    · rw [htarget part hmem, AList.lookup_erase]

/-- The abort of the local plugin deletes the object at the key and leaves the parts; that
of the S3 plugin deletes the object at the key, where the parts are. -/
theorem abort_undoes_iff (uploadId : Uuid) (key : String) (parts : List (UInt32 × Bytes))
    (operator : Operator) :
    (localPlugin.Undoes (LocalPlugin.stagingKey key) uploadId key parts operator ↔
        operator.lookup key = none ∧ parts = []) ∧
      (s3Plugin.Undoes (fun _ => key) uploadId key parts operator ↔
        operator.lookup key = none) := by
  constructor
  · have hlocal : localPlugin.Undoes (LocalPlugin.stagingKey key) uploadId key parts operator ↔ _ :=
      undoes_iff rfl (fun _ _ _ => rfl) (fun _ => rfl) parts
    rw [hlocal]
    refine and_congr_right fun _ => ⟨fun h => ?_, fun h => ?_⟩
    · rw [List.eq_nil_iff_forall_not_mem]
      intro part hmem
      exact ne_stagingKey key part.1 (h part hmem).symm
    · rw [h]
      exact List.forall_mem_nil _
  · have hs3 : s3Plugin.Undoes (fun _ => key) uploadId key parts operator ↔ _ :=
      undoes_iff rfl (fun _ _ _ => rfl) (fun _ => rfl) parts
    rw [hs3]
    exact and_iff_left fun _ _ => rfl

/-- An upload of one part is given up over an object. Both plugins delete the object, and
the local plugin keeps the part. -/
theorem abort_deletes :
    (((localPlugin.abortUpload ⟨1⟩ "file" [(1, [2])]).run (some (.singleton "file" [7]))).2.map
        fun operator => (operator.lookup "file", operator.lookup "file.part.00000001")) =
      some (none, some [2]) ∧
    (((s3Plugin.abortUpload ⟨1⟩ "file" [(1, [2])]).run (some (.singleton "file" [7]))).2.map
        fun operator => operator.lookup "file") = some none ∧
    ¬ localPlugin.Undoes (LocalPlugin.stagingKey "file") ⟨1⟩ "file" [(1, [2])]
      (.singleton "file" [7]) ∧
    ¬ s3Plugin.Undoes (fun _ => "file") ⟨1⟩ "file" [(1, [2])] (.singleton "file" [7]) := by
  have hobject : AList.lookup "file" (AList.singleton "file" [7] : Operator) ≠ none := by decide
  refine ⟨by decide +kernel, by decide +kernel, fun h => ?_, fun h => ?_⟩
  · exact hobject ((undoes_iff rfl (fun _ _ _ => rfl) (fun _ => rfl) _).mp h).1
  · exact hobject ((undoes_iff rfl (fun _ _ _ => rfl) (fun _ => rfl) _).mp h).1

end FreeBox.Storage
