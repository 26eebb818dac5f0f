import FreeBox.Cli.Transfer

/-!
# What is uploaded can be downloaded

The client's `upload_files` and `download_file` together with the server's handlers.

Results:
* `putChunks_receiving`: after requests for all chunks, in any order and with
  repetitions, the server has received every chunk.
* `uploadFile_ok`, `downloadFile_ok`: the file is on the server as it was prepared,
  and a file that is on the server is downloaded.
* `download_uploadFiles`: `download_file` returns the plaintext of every file that
  `upload_files` has uploaded.
-/

namespace FreeBox.Cli

open FreeBox.Lib FreeBox.Crypto FreeBox.Server

variable {A : Aes256Gcm} {blake3 : Bytes → String} {key : FileKey} {name : String}
  {plaintext : Bytes} {u : PreparedUpload} {w w' : World} {userId id : Uuid}

/-! ## The request -/

/-- The row that the upload `u` is staged as. -/
structure StagedAs (staged : UploadRow) (userId : Uuid) (u : PreparedUpload) : Prop where
  user : staged.userId = userId
  total : staged.totalChunks = u.chunks.length
  envelope : staged.encryptedKeyEnvelope = u.encryptedKeyEnvelope
  name : staged.encryptedName = u.encryptedName

/-- The casts of the request lose nothing and the constraints of the table accept it. -/
theorem stage_initRequest (h : prepareUpload A blake3 key name plaintext = .ok u)
    (hlen : (uploadPieces plaintext).length < 2 ^ 31) (userId : Uuid) (now : ℕ) :
    ∃ staged, stage userId (initRequest u) now = some staged ∧ StagedAs staged userId u := by
  obtain ⟨htotal, hsize, hpieces⟩ := prepareUpload_totals h
  have hpos : 0 < (uploadPieces plaintext).length :=
    List.length_pos_iff.mpr (uploadPieces_ne_nil plaintext)
  have hchunks : asI32 (initRequest u).totalChunks = u.chunks.length := by
    rw [initRequest, htotal, asI32_ofNat (by rw [hpieces]; exact hlen)]
  have hbytes : asI64 (initRequest u).sizeBytes = plaintext.length := by
    have hle := length_le_uploadPieces plaintext
    rw [chunkSize] at hle
    rw [initRequest, hsize, asI64_ofNat (by omega)]
  have hchecks : 0 < asI32 (initRequest u).totalChunks ∧ 0 ≤ asI64 (initRequest u).sizeBytes := by
    rw [hchunks, hbytes, hpieces]
    omega
  unfold stage
  rw [dif_pos hchecks]
  exact ⟨_, rfl, rfl, hchunks, rfl, rfl⟩

/-! ## The chunk requests -/

theorem parseChunkIndex_header {c : ChunkCiphertext} (h : c.index.toNat < 2 ^ 32) :
    parseChunkIndex (some (chunkIndexHeader c)) = .ok (.ofNat c.index.toNat) := by
  have hascii : ∀ d ∈ Nat.toDigits 10 c.index.toNat, 32 ≤ d.toNat ∧ d.toNat < 127 := by
    intro d hd
    have hdigit := Nat.isDigit_of_mem_toDigits (by decide) (by decide) hd
    simp only [Char.isDigit, Bool.and_eq_true, decide_eq_true_eq] at hdigit
    have hlow : '0'.toNat ≤ d.toNat := UInt32.le_iff_toNat_le.mp hdigit.1
    have hhigh : d.toNat ≤ '9'.toNat := UInt32.le_iff_toNat_le.mp hdigit.2
    exact ⟨le_trans (by decide) hlow, lt_of_le_of_lt hhigh (by decide)⟩
  rw [parseChunkIndex, chunkIndexHeader, headerToStr_toAscii hascii]
  dsimp only
  rw [parseU32_toDigits h]

/-- The bodies of the chunk requests. -/
def bodies (u : PreparedUpload) : List Bytes := u.chunks.map ChunkCiphertext.toVec

theorem putChunks_processes (chunks : List ChunkCiphertext) (w : World) :
    Processes id w (putChunks userId id chunks w).1 := by
  induction chunks generalizing w with
  | nil => exact .refl id w
  | cons c chunks ih =>
    rw [putChunks]
    exact (Processes.uploadChunk w userId id _ _).trans (ih _)

theorem forM_errorForStatus {answers : List Response}
    (h : ∀ answer ∈ answers, answer = .noContent) :
    (answers.forM fun answer => (errorForStatus answer).map fun _ => ()) = .ok () := by
  induction answers with
  | nil => rfl
  | cons answer answers ih =>
    obtain ⟨rfl, hrest⟩ := List.forall_mem_cons.mp h
    exact ih hrest

/-! ## Downloading -/

/-- The file `id` of `userId` is on the server as it was prepared. -/
def OnServer (w : World) (userId id : Uuid) (u : PreparedUpload) : Prop :=
  ∃ row, HoldsFile w id row (bodies u) ∧ row.userId = userId ∧ row.deletedAt = none ∧
    row.encryptedKeyEnvelope = u.encryptedKeyEnvelope ∧ row.encryptedName = u.encryptedName

theorem OnServer.of_sameFile (h : OnServer w userId id u) (hsame : SameFile w w' id) :
    OnServer w' userId id u := by
  obtain ⟨row, hrow, hrest⟩ := h
  exact ⟨row, hrow.of_sameFile hsame, hrest⟩

/-- What `upload_files` needs of a file: a name in UTF-8, at most `2^31 - 1` chunks, and
    a request for every chunk. -/
structure Transfer.Ready (readFile : PathBuf → Option Bytes) (t : Transfer) : Prop where
  named : ((fileName t.file).bind fromUtf8).isSome
  readable : ∃ plaintext, readFile t.file = some plaintext ∧
    (uploadPieces plaintext).length < 2 ^ 31 ∧ ∀ i < (uploadPieces plaintext).length, i ∈ t.order

/-- What `upload_files` returns for a file. -/
def Transfer.uploaded (t : Transfer) : UploadedFile where
  localPath := t.file
  fileId := t.uploadId

variable {readFile : PathBuf → Option Bytes} {destination : String} {t : Transfer}

theorem downloadOne_ok {row : FileRow} (h : HoldsFile w id row (bodies u))
    (hactive : row.deletedAt = none) {i : ℕ} {c : ChunkCiphertext} (hc : u.chunks[i]? = some c) :
    downloadOne row.userId id i w = (.ok c, w) := by
  have hbody : (bodies u)[i]? = some c.toVec := by
    rw [bodies, List.getElem?_map, hc, Option.map_some]
  unfold downloadOne
  rw [StateExcept.bind_ok (fetch_ok (downloadChunk_of_holdsFile h hactive hbody)),
    ChunkCiphertext.fromSlice_toVec]
  rfl

/-- The download of one file. -/
theorem downloadFile_ok (hA : A.Inverts {m | m.length ≤ chunkSize})
    (hu : prepareUpload A blake3 key name plaintext = .ok u) (h : OnServer w userId id u)
    (isDir : PathBuf → Bool) (output : Option PathBuf) :
    ∃ path, downloadFile A isDir userId id output w = (.ok (path, plaintext), w) := by
  obtain ⟨row, hrow, rfl, hactive, henvelope, hname⟩ := h
  obtain ⟨-, -, hkey, hname'⟩ := prepareUpload_eq_ok hu
  obtain ⟨path, hpath⟩ := resolveOutputPath_standardEncode isDir output name
  have hchunks : (List.range (bodies u).length).mapM (downloadOne row.userId id) w =
      (.ok u.chunks, w) := by
    refine StateExcept.mapM_ok (List.forall₂_iff_get.mpr ⟨?_, fun i hi hi' => ?_⟩)
    · rw [List.length_range, bodies, List.length_map]
    · rw [List.get_eq_getElem, List.getElem_range]
      exact downloadOne_ok hrow hactive (List.getElem?_eq_getElem hi')
  have hdecrypt := decryptFile_of_opens (inverts_opens hA key plaintext) hu
  unfold downloadFile
  rw [StateExcept.bind_ok (fetch_ok (getFileMeta_of_holdsFile hrow hactive))]
  dsimp only
  rw [henvelope, hkey, StateExcept.bind_ofExcept (fileKeyFromEnvelope_standardEncode key),
    StateExcept.bind_ok hchunks, StateExcept.bind_ofExcept hdecrypt, hname, hname',
    StateExcept.bind_ofExcept hpath]
  exact ⟨path, rfl⟩

/-! ## Uploading -/

section Upload

variable (hA : A.Inverts {m | m.length ≤ chunkSize}) (hlen : A.Expands 16)
include hA hlen

/-- The record at position `i` carries the index `i`, and its body is not too long. -/
theorem record_fits (h : prepareUpload A blake3 key name plaintext = .ok u) {i : ℕ}
    {c : ChunkCiphertext} (hc : u.chunks[i]? = some c) :
    c.index = .ofNat i ∧ c.toVec.length ≤ maxUploadChunkBodyBytes := by
  have henc := (prepareUpload_eq_ok h).1
  rw [encryptPlaintext_eq] at henc
  obtain ⟨piece, hpiece, hindex, hnonce, hct, -⟩ :=
    genuine_getElem? (inverts_opens hA key plaintext) henc hc
  have hshort : piece.length ≤ chunkSize :=
    length_of_mem_uploadPieces (List.mem_of_getElem? hpiece)
  have hciphertext := hlen _ _ _ _ hct
  have hbody := ChunkCiphertext.length_toVec_le c
  rw [hnonce, Vector.length_toList, hciphertext] at hbody
  rw [chunkSize] at hshort
  rw [maxUploadChunkBodyBytes]
  exact ⟨hindex, by omega⟩

/-- The request for one chunk is accepted. -/
theorem uploadChunk_receiving (h : prepareUpload A blake3 key name plaintext = .ok u)
    {staged : UploadRow} {received : Finset ℕ}
    (hw : Receiving w id staged (bodies u) received) {i : ℕ} {c : ChunkCiphertext}
    (hc : u.chunks[i]? = some c) :
    ∃ w', uploadChunk w staged.userId id (some (chunkIndexHeader c)) c.toVec = (w', .noContent) ∧
      Receiving w' id staged (bodies u) (insert i received) := by
  obtain ⟨hi, -⟩ := List.getElem?_eq_some_iff.mp hc
  obtain ⟨hindex, hfits⟩ := record_fits hA hlen h hc
  have hshort : u.chunks.length < 2 ^ 31 := by
    have hlt := staged.total_lt
    rw [hw.total, bodies, List.length_map] at hlt
    omega
  have hnat : c.index.toNat = i := by
    rw [hindex]
    exact UInt64.toNat_ofNat_of_lt' (by rw [UInt64.size]; omega)
  have hnat32 : (UInt32.ofNat i).toNat = i := toNat_ofNat_index (by omega)
  have hbody : (bodies u)[(UInt32.ofNat i).toNat]? = some c.toVec := by
    rw [hnat32, bodies, List.getElem?_map, hc, Option.map_some]
  have hheader : parseChunkIndex (some (chunkIndexHeader c)) = .ok (.ofNat i) := by
    rw [parseChunkIndex_header (by omega), hnat]
  have hput := hw.uploadChunk hbody c.toVec_ne_nil hfits hheader
  rwa [hnat32] at hput

/-- The requests at the positions in `order`: all are accepted, and every chunk among
    them has been received. -/
theorem putChunks_receiving (h : prepareUpload A blake3 key name plaintext = .ok u)
    {staged : UploadRow} (order : List ℕ) {received : Finset ℕ}
    (hw : Receiving w id staged (bodies u) received) :
    ∃ w' answers received',
      putChunks staged.userId id (order.filterMap fun i => u.chunks[i]?) w = (w', answers) ∧
        (∀ answer ∈ answers, answer = .noContent) ∧ Receiving w' id staged (bodies u) received' ∧
        received ⊆ received' ∧ ∀ i ∈ order, i < u.chunks.length → i ∈ received' := by
  induction order generalizing w received with
  | nil => exact ⟨w, [], received, rfl, by simp, hw, subset_rfl, by simp⟩
  | cons i order ih =>
    by_cases hi : i < u.chunks.length
    · have hc : u.chunks[i]? = some u.chunks[i] := List.getElem?_eq_getElem hi
      obtain ⟨w₁, hfirst, hw₁⟩ := uploadChunk_receiving hA hlen h hw hc
      obtain ⟨w', answers, received', hput, hall, hw', hsub, horder⟩ := ih hw₁
      rw [List.filterMap_cons_some hc]
      refine ⟨w', .noContent :: answers, received', ?_, List.forall_mem_cons.mpr ⟨rfl, hall⟩, hw',
        (Finset.subset_insert _ _).trans hsub, List.forall_mem_cons.mpr ⟨fun _ => ?_, horder⟩⟩
      · simp only [putChunks, hfirst, hput]
      · exact hsub (Finset.mem_insert_self _ _)
    · have hc : u.chunks[i]? = none := List.getElem?_eq_none_iff.mpr (not_lt.mp hi)
      obtain ⟨w', answers, received', hput, hall, hw', hsub, horder⟩ := ih hw
      rw [List.filterMap_cons_none hc]
      exact ⟨w', answers, received', hput, hall, hw', hsub,
        List.forall_mem_cons.mpr ⟨fun hlt => absurd hlt hi, horder⟩⟩

/-- Every chunk is sent at least once. -/
theorem sendChunks_ok (h : prepareUpload A blake3 key name plaintext = .ok u)
    {staged : UploadRow} {order : List ℕ} (hw : Receiving w id staged (bodies u) ∅)
    (hall : ∀ i < u.chunks.length, i ∈ order) :
    ∃ w', sendChunks staged.userId id (order.filterMap fun i => u.chunks[i]?) w = (.ok (), w') ∧
      Receiving w' id staged (bodies u) (Finset.range (bodies u).length) ∧
      Processes id w w' := by
  obtain ⟨w', answers, received, hput, hanswers, hw', -, hreceived⟩ :=
    putChunks_receiving hA hlen h order hw
  have hrange : received = Finset.range (bodies u).length := by
    refine subset_antisymm hw'.within fun i hi => ?_
    rw [Finset.mem_range, bodies, List.length_map] at hi
    exact hreceived i (hall i hi) hi
  have hprocesses : Processes id w (putChunks staged.userId id
      (order.filterMap fun i => u.chunks[i]?) w).1 := putChunks_processes _ w
  rw [hput] at hprocesses
  refine ⟨w', ?_, hrange ▸ hw', hprocesses⟩
  show ((putChunks _ _ _ w).2.forM _, (putChunks _ _ _ w).1) = (Except.ok (), w')
  rw [hput, forM_errorForStatus hanswers]

/-- The upload of one file. -/
theorem uploadFile_ok (hw : ReachableWorld w) (hnew : t.uploadId ∉ w.issued)
    (ht : t.Ready readFile) :
    ∃ name plaintext u w', readFile t.file = some plaintext ∧
      prepareUpload A blake3 t.key name plaintext = .ok u ∧
      uploadFile A blake3 readFile destination userId t w =
        (.ok { localPath := t.file, fileId := t.uploadId }, w') ∧
      OnServer w' userId t.uploadId u ∧ Processes t.uploadId w w' := by
  obtain ⟨hnamed, plaintext, hread, hpieces, horder⟩ := ht
  have hfits : (uploadPieces plaintext).length < 2 ^ 32 := hpieces.trans (by norm_num)
  obtain ⟨name, hname⟩ := remoteName_ok hnamed
  obtain ⟨u, hu⟩ := exists_prepareUpload hA blake3 t.key name hfits
  obtain ⟨staged, hstage, hstaged⟩ := stage_initRequest hu hpieces userId w.now
  have htotal : staged.totalChunks = (bodies u).length := by
    rw [hstaged.total, bodies, List.length_map]
  have hall : ∀ i < u.chunks.length, i ∈ t.order := by
    rw [(prepareUpload_totals hu).2.2]
    exact horder
  -- the requests one after another
  obtain ⟨w₁, hinit, hw₁⟩ :=
    receiving_uploadInit (untouched_of_reachable hw t.uploadId) hnew hstage htotal
  obtain ⟨w₂, hsend, hw₂, hprocesses₂⟩ := sendChunks_ok hA hlen hu hw₁ hall
  obtain ⟨w₃, hcomplete, hw₃⟩ := hw₂.uploadComplete
  rw [hstaged.user] at hsend hcomplete hw₃
  have hprocesses₁ : Processes t.uploadId w (uploadInit w userId (initRequest u) t.uploadId).1 :=
    .uploadInit hnew
  have hprocesses₃ := Processes.uploadComplete w₂ userId t.uploadId
  rw [hinit] at hprocesses₁
  rw [hcomplete] at hprocesses₃
  refine ⟨name, plaintext, u, w₃, hread, hu, ?_, ⟨_, hw₃, rfl, rfl, hstaged.envelope, hstaged.name⟩,
    (hprocesses₁.trans hprocesses₂).trans hprocesses₃⟩
  unfold uploadFile
  rw [hread, StateExcept.bind_ofExcept rfl, StateExcept.bind_ofExcept hname,
    StateExcept.bind_ofExcept hu, StateExcept.bind_ok (send_ok hinit rfl)]
  dsimp only
  rw [StateExcept.bind_ok hsend, StateExcept.bind_ok (send_ok hcomplete rfl)]
  rfl

/-- The files of one call do not disturb each other. -/
theorem uploadFiles_run (blake3 : Bytes → String) (destination : String) (userId : Uuid)
    {files : List Transfer} (hw : ReachableWorld w) (hfiles : ∀ t ∈ files, t.Ready readFile)
    (hids : (files.map Transfer.uploadId).Nodup) (hnew : ∀ t ∈ files, t.uploadId ∉ w.issued) :
    ∃ w', files.mapM (uploadFile A blake3 readFile destination userId) w =
        (.ok (files.map Transfer.uploaded), w') ∧ ReachableWorld w' ∧
      (∀ t ∈ files, ∃ name plaintext u, readFile t.file = some plaintext ∧
        prepareUpload A blake3 t.key name plaintext = .ok u ∧ OnServer w' userId t.uploadId u) ∧
      ∀ id, id ∉ files.map Transfer.uploadId → SameFile w w' id := by
  induction files generalizing w with
  | nil => exact ⟨w, rfl, hw, by simp, fun id _ => .refl w id⟩
  | cons t files ih =>
    obtain ⟨hfirst, hids⟩ := List.nodup_cons.mp hids
    obtain ⟨name, plaintext, u, w₁, hread, hu, hupload, hserver, hprocesses⟩ :=
      uploadFile_ok hA hlen hw (hnew t List.mem_cons_self) (hfiles t List.mem_cons_self)
    have hnew₁ : ∀ t' ∈ files, t'.uploadId ∉ w₁.issued := by
      intro t' ht' hissued
      rcases hprocesses.issued _ hissued with heq | hold
      · exact hfirst (heq ▸ List.mem_map_of_mem ht')
      · exact hnew t' (List.mem_cons_of_mem t ht') hold
    obtain ⟨w₂, hrest, hw₂, hservers, hsame⟩ := ih (hprocesses.reachable hw)
      (fun t' ht' => hfiles t' (List.mem_cons_of_mem t ht')) hids hnew₁
    refine ⟨w₂, StateExcept.mapM_cons_ok hupload hrest, hw₂, fun t' ht' => ?_, fun id hid => ?_⟩
    · rcases List.mem_cons.mp ht' with rfl | ht'
      · exact ⟨name, plaintext, u, hread, hu, hserver.of_sameFile (hsame _ hfirst)⟩
      · exact hservers t' ht'
    · rw [List.map_cons, List.mem_cons, not_or] at hid
      exact (hprocesses.others id hid.1).trans (hsame id hid.2)

end Upload

/-- End-to-end round trip. The server may be in any state that it can reach. Whatever
    the files, their lengths, the keys and identifiers drawn, and the order and
    number of times in which the chunk requests are processed, `upload_files`
    succeeds, and `download_file` on each returned identifier yields exactly the
    bytes of the file. -/
theorem download_uploadFiles (A : Aes256Gcm) (hA : A.Inverts {m | m.length ≤ chunkSize})
    (hlen : A.Expands 16) (blake3 : Bytes → String) (readFile : PathBuf → Option Bytes)
    (isDir : PathBuf → Bool) (destination : String) (userId : Uuid) (parallelism : UInt8)
    (hparallelism : 1 ≤ parallelism ∧ parallelism ≤ 16) (w : World) (hw : ReachableWorld w)
    (files : List Transfer) (hfiles : ∀ t ∈ files, t.Ready readFile)
    (hids : (files.map Transfer.uploadId).Nodup) (hnew : ∀ t ∈ files, t.uploadId ∉ w.issued) :
    ∃ uploaded w', uploadFiles A blake3 readFile destination userId parallelism files w =
        (.ok uploaded, w') ∧ uploaded.map UploadedFile.localPath = files.map Transfer.file ∧
      ∀ f ∈ uploaded, ∀ output, ∃ path plaintext, readFile f.localPath = some plaintext ∧
        downloadFile A isDir userId f.fileId output w' = (.ok (path, plaintext), w') := by
  obtain ⟨w', hupload, -, hserver, -⟩ :=
    uploadFiles_run hA hlen blake3 destination userId hw hfiles hids hnew
  have hrange : ¬ (parallelism = 0 ∨ parallelism > 16) := by
    rintro (rfl | hgt)
    · exact absurd hparallelism.1 (by decide)
    · exact absurd hgt (UInt8.not_lt.mpr hparallelism.2)
  refine ⟨files.map Transfer.uploaded, w', ?_, ?_, fun f hf output => ?_⟩
  · rw [uploadFiles, if_neg hrange, hupload]
  · rw [List.map_map]
    rfl
  · obtain ⟨t, ht, rfl⟩ := List.mem_map.mp hf
    obtain ⟨name, plaintext, u, hread, hu, hon⟩ := hserver t ht
    obtain ⟨path, hdownload⟩ := downloadFile_ok hA hu hon isDir output
    exact ⟨path, plaintext, hread, hdownload⟩

/-- A file of one byte, whose chunk is sent twice, and an empty file. -/
def runFiles : List Transfer :=
  [{ file := [97], key := runKey, uploadId := ⟨7⟩, order := [0, 0] },
    { file := [98], key := runKey, uploadId := ⟨8⟩, order := [0] }]

def runRead (path : PathBuf) : Option Bytes := if path = [97] then some [42] else some []

theorem runFiles_ready (t : Transfer) (ht : t ∈ runFiles) : t.Ready runRead := by
  rcases List.mem_cons.mp ht with rfl | ht
  · exact ⟨by decide +kernel, [42], rfl, by decide +kernel, by decide +kernel⟩
  · obtain rfl := List.mem_singleton.mp ht
    exact ⟨by decide +kernel, [], rfl, by decide +kernel, by decide +kernel⟩

theorem download_uploadFiles_run :
    ∃ uploaded w', uploadFiles (Aead.tagged runTag) (fun _ => "") runRead "remote://docs" ⟨1⟩ 4
        runFiles World.empty = (.ok uploaded, w') ∧
      uploaded.map UploadedFile.localPath = runFiles.map Transfer.file ∧
      ∀ f ∈ uploaded, ∀ output, ∃ path plaintext, runRead f.localPath = some plaintext ∧
        downloadFile (Aead.tagged runTag) (fun _ => false) ⟨1⟩ f.fileId output w' =
          (.ok (path, plaintext), w') :=
  download_uploadFiles _ (Aead.tagged_inverts _ _)
    (Aead.tagged_expands fun key v => by simp [runTag]) _ _ _ _ _ 4 (by decide) World.empty
    (Handlers.Reachable.refl _) runFiles runFiles_ready (by decide) (by decide)

end FreeBox.Cli
