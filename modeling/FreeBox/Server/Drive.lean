import FreeBox.Lib.Refinement
import FreeBox.Server.FileServer
import Mathlib.Data.List.ReduceOption

/-!
# The drive

What the handlers of files are for. A drive holds the files of its users, each with the
content that its chunks had, and the uploads of which some chunks have arrived. It knows
neither counters of chunks nor storage keys nor columns, and it does one request after
another.

Results:
* `PartialFile.received_lt_iff`: a chunk is missing exactly when fewer have arrived than there
  are.
* `PartialFile.content_getElem?`: the content of a file is what has arrived.
-/

namespace FreeBox.Server

open FreeBox.Lib

/-- What is said of a file when its upload begins. -/
structure FileInfo where
  owner : Uuid
  totalChunks : ℕ
  sizeBytes : ℕ
  encryptedKeyEnvelope : String
  contentHash : String
  encryptedName : String
  total_pos : 0 < totalChunks
  total_lt : totalChunks < 2 ^ 31
  size_lt : sizeBytes < 2 ^ 63

/-- An upload of which the chunks that are not `none` have arrived. -/
structure PartialFile where
  info : FileInfo
  startedAt : ℕ
  chunks : List (Option Bytes)
  total : chunks.length = info.totalChunks

/-- A file, with the bodies of its chunks. -/
structure DriveFile where
  info : FileInfo
  createdAt : ℕ
  deletedAt : Option ℕ
  content : List Bytes
  total : content.length = info.totalChunks

structure Drive where
  now : ℕ
  uploads : Table Uuid PartialFile
  files : Table Uuid DriveFile
  /-- The identifiers that have been given out. -/
  issued : List Uuid

inductive DriveRequest
  | uploadInit (userId : Uuid) (req : UploadInitRequest) (newId : Uuid)
  | uploadChunk (userId uploadId : Uuid) (header : Option Bytes) (body : Bytes)
  | uploadComplete (userId uploadId : Uuid)
  /-- A pass of `purge_orphaned_uploads`. -/
  | purge
  | listFiles (userId : Uuid) (query : FileListQuery) (rank : Uuid → ℕ)
  | getFileMeta (userId fileId : Uuid)
  | downloadChunk (userId fileId : Uuid) (chunkIndex : UInt32)
  | deleteFile (userId fileId : Uuid)
  | listTrash (userId : Uuid) (query : FileListQuery) (rank : Uuid → ℕ)
  | restoreFile (userId fileId : Uuid)
  | renameFile (userId fileId : Uuid) (encryptedName : String)
  /-- Time passes. -/
  | tick (d : ℕ)

abbrev DriveAnswer := Option (Response ⊕ FileResponse)

/-! ## Uploads -/

/-- The numbers must be in range. -/
def FileInfo.ofRequest (owner : Uuid) (req : UploadInitRequest) : Option FileInfo :=
  if h : (0 < req.totalChunks.toNat ∧ req.totalChunks.toNat < 2 ^ 31) ∧
      req.sizeBytes.toNat < 2 ^ 63 then
    some
      { owner
        totalChunks := req.totalChunks.toNat
        sizeBytes := req.sizeBytes.toNat
        encryptedKeyEnvelope := req.encryptedKeyEnvelope
        contentHash := req.contentHash
        encryptedName := req.encryptedName
        total_pos := h.1.1
        total_lt := h.1.2
        size_lt := h.2 }
  else none

namespace PartialFile

variable {u : PartialFile} {i : ℕ} {body : Bytes} {content : List Bytes}

/-- Nothing has arrived yet. -/
def start (info : FileInfo) (now : ℕ) : PartialFile where
  info
  startedAt := now
  chunks := List.replicate info.totalChunks none
  total := List.length_replicate

/-- How many chunks have arrived. -/
def received (u : PartialFile) : ℕ := u.chunks.countP Option.isSome

/-- The chunk `i` arrives; one that was there before is replaced. -/
def put (u : PartialFile) (i : ℕ) (body : Bytes) : PartialFile where
  info := u.info
  startedAt := u.startedAt
  chunks := u.chunks.set i (some body)
  total := (List.length_set ..).trans u.total

@[simp] theorem info_put (u : PartialFile) (i : ℕ) (body : Bytes) : (u.put i body).info = u.info :=
  rfl

@[simp] theorem startedAt_put (u : PartialFile) (i : ℕ) (body : Bytes) :
    (u.put i body).startedAt = u.startedAt := rfl

def check (u : PartialFile) (i : UInt32) (body : Bytes) : Except AppError Unit :=
  if i.toNat ≥ u.info.totalChunks then
    .error (.badRequest ("chunk index " ++ toString i ++ " out of range for upload with " ++
      toString u.info.totalChunks ++ " chunks"))
  else if body = [] then .error (.badRequest "chunk body must not be empty")
  else validateChunkBodySize body.length

theorem received_le (u : PartialFile) : u.received ≤ u.info.totalChunks :=
  List.countP_le_length.trans u.total.le

theorem received_start (info : FileInfo) (now : ℕ) : (start info now).received = 0 :=
  List.countP_eq_zero.mpr fun c hc => by rw [List.eq_of_mem_replicate hc]; simp

theorem start_getElem? (info : FileInfo) (now i : ℕ) : (start info now).chunks[i]?.join = none := by
  show (List.replicate info.totalChunks none)[i]?.join = none
  rw [List.getElem?_replicate]
  split_ifs <;> rfl

theorem put_getElem? (hi : i < u.chunks.length) (j : ℕ) :
    (u.put i body).chunks[j]?.join = if j = i then some body else u.chunks[j]?.join := by
  show (u.chunks.set i (some body))[j]?.join = _
  rw [List.getElem?_set]
  split_ifs with hij hji hji
  · rfl
  · exact absurd hij.symm hji
  · exact absurd hji.symm hij
  · rfl

theorem received_put_new (h : u.chunks[i]? = some none) :
    (u.put i body).received = u.received + 1 := by
  obtain ⟨hi, hnone⟩ := List.getElem?_eq_some_iff.mp h
  show (u.chunks.set i (some body)).countP Option.isSome = _
  rw [List.countP_set hi, hnone]
  simp [received]

theorem received_put_old {old : Bytes} (h : u.chunks[i]? = some (some old)) :
    (u.put i body).received = u.received := by
  obtain ⟨hi, hsome⟩ := List.getElem?_eq_some_iff.mp h
  have hpos : 0 < u.chunks.countP Option.isSome :=
    List.countP_pos_iff.mpr ⟨some old, hsome ▸ List.getElem_mem hi, rfl⟩
  show (u.chunks.set i (some body)).countP Option.isSome = u.chunks.countP Option.isSome
  rw [List.countP_set hi, hsome]
  simp only [Option.isSome_some, if_true]
  omega

theorem received_lt_iff : u.received < u.info.totalChunks ↔ none ∈ u.chunks := by
  rw [← u.total]
  constructor
  · intro h
    by_contra hall
    refine h.ne (List.countP_eq_length.mpr fun c hc => ?_)
    cases c with
    | none => exact absurd hc hall
    | some body => rfl
  · intro h
    refine lt_of_le_of_ne List.countP_le_length fun heq => ?_
    exact absurd (List.countP_eq_length.mp heq none h) (by simp)

/-- When nothing is missing, what has arrived. -/
theorem chunks_eq (h : none ∉ u.chunks) : u.chunks = u.chunks.reduceOption.map some := by
  generalize u.chunks = chunks at h
  induction chunks with
  | nil => rfl
  | cons c chunks ih =>
    obtain ⟨hc, hrest⟩ := not_or.mp (mt List.mem_cons.mpr h)
    cases c with
    | none => exact absurd rfl hc
    | some body =>
      rw [List.reduceOption_cons_of_some, List.map_cons, ← ih hrest]

theorem content_getElem? (h : none ∉ u.chunks) (i : ℕ) :
    u.chunks.reduceOption[i]? = u.chunks[i]?.join := by
  conv_rhs => rw [chunks_eq h]
  rw [List.getElem?_map]
  cases u.chunks.reduceOption[i]? with
  | none => rfl
  | some body => rfl

/-- The file, unless a chunk is missing. -/
def finish (u : PartialFile) (now : ℕ) : Option DriveFile :=
  if h : none ∉ u.chunks then
    some
      { info := u.info
        createdAt := now
        deletedAt := none
        content := u.chunks.reduceOption
        total := by
          have hlength := congrArg List.length (chunks_eq h)
          rw [List.length_map] at hlength
          rw [← hlength, u.total] }
  else none

end PartialFile

/-! ## Files -/

namespace DriveFile

def active (userId : Uuid) (f : DriveFile) : Bool := f.info.owner = userId ∧ f.deletedAt = none

def trashed (userId : Uuid) (now : ℕ) (f : DriveFile) : Bool :=
  f.info.owner = userId ∧ f.deletedAt.any fun t => now < t + retention

/-- What a user is told about a file. -/
def describe (fileId : Uuid) (f : DriveFile) : FileMetaResponse where
  fileId
  encryptedName := f.info.encryptedName
  sizeBytes := f.info.sizeBytes
  totalChunks := f.info.totalChunks
  encryptedKeyEnvelope := f.info.encryptedKeyEnvelope
  contentHash := f.info.contentHash
  createdAt := f.createdAt

def describeTrashed (fileId : Uuid) (f : DriveFile) : TrashFileResponse where
  fileId
  encryptedName := f.info.encryptedName
  sizeBytes := f.info.sizeBytes
  totalChunks := f.info.totalChunks
  contentHash := f.info.contentHash
  createdAt := f.createdAt
  deletedAt := f.deletedAt.getD 0

def rename (f : DriveFile) (encryptedName : String) : DriveFile :=
  { f with info := { f.info with encryptedName } }

end DriveFile

/-! ## The drive -/

/-- The answer of an upload handler. -/
def uploaded {S : Type} (r : S × Response) : S × DriveAnswer := (r.1, some (.inl r.2))

/-- The answer to a change of a file. -/
def changed {S : Type} (r : S × Except AppError Unit) : S × DriveAnswer :=
  (r.1, some (.inr (.of (fun _ => .noContent) r.2)))

namespace Drive

def empty : Drive := { now := 0, uploads := ∅, files := ∅, issued := [] }

variable (d : Drive)

/-- An upload of the user. -/
def findUpload (uploadId userId : Uuid) : Option PartialFile :=
  (d.uploads.lookup uploadId).filter fun u => u.info.owner = userId

/-- A file of the user that is not in the trash. -/
def findFile (fileId userId : Uuid) : Option DriveFile :=
  (d.files.lookup fileId).filter (DriveFile.active userId)

def start (userId : Uuid) (req : UploadInitRequest) (newId : Uuid) : Drive × Response :=
  match FileInfo.ofRequest userId req with
  | none => ({ d with issued := newId :: d.issued }, .error .internal)
  | some info =>
    ({ d with
        uploads := d.uploads.insert newId (.start info d.now)
        issued := newId :: d.issued }, .initialised newId (4 * 1024 * 1024))

def put (userId uploadId : Uuid) (header : Option Bytes) (body : Bytes) : Drive × Response :=
  match parseChunkIndex header with
  | .error e => (d, .error e)
  | .ok i =>
    match d.findUpload uploadId userId with
    | none => (d, .error (.notFound ("upload " ++ toString uploadId)))
    | some u =>
      match u.check i body with
      | .error e => (d, .error e)
      | .ok () =>
        ({ d with uploads := d.uploads.insert uploadId (u.put i.toNat body) }, .noContent)

def finish (userId uploadId : Uuid) : Drive × Response :=
  match d.findUpload uploadId userId with
  | none => (d, .error (.notFound ("upload " ++ toString uploadId)))
  | some u =>
    match u.finish d.now with
    | none =>
      (d, .error (.badRequest ("missing chunks: expected " ++ toString u.info.totalChunks ++
        ", received " ++ toString u.received)))
    | some f =>
      ({ d with files := d.files.insert uploadId f, uploads := d.uploads.erase uploadId },
        .completed uploadId)

/-- Uploads that began more than a day ago are given up. -/
def purge : Drive :=
  { d with uploads := Table.deleteWhere (fun _ u => u.startedAt + day < d.now) d.uploads }

/-- The files that satisfy `p`, those with the latest `time` first. Where the time is the same,
    `rank` decides. -/
def latestFirst (rank : Uuid → ℕ) (time : DriveFile → ℕ) (p : DriveFile → Bool) :
    List (Uuid × DriveFile) :=
  Table.orderBy
    (fun e => (toLex (OrderDual.toDual (time e.2), toLex (rank e.1, e.1.value.toNat)) :
      ℕᵒᵈ ×ₗ ℕ ×ₗ ℕ))
    (fun _ f => p f) d.files

def list (userId : Uuid) (query : FileListQuery) (rank : Uuid → ℕ) : FileListResponse :=
  let files := d.latestFirst rank DriveFile.createdAt (DriveFile.active userId)
  { files := (query.page files).map fun (fileId, f) => f.describe fileId
    total := query.total files
    limit := query.clampedLimit
    offset := query.clampedOffset }

def listTrashed (userId : Uuid) (query : FileListQuery) (rank : Uuid → ℕ) : TrashListResponse :=
  let files := d.latestFirst rank (fun f => f.deletedAt.getD 0) (DriveFile.trashed userId d.now)
  { files := (query.page files).map fun (fileId, f) => f.describeTrashed fileId
    total := query.total files
    limit := query.clampedLimit
    offset := query.clampedOffset }

def describe (userId fileId : Uuid) : Except AppError FileMetaResponse :=
  match d.findFile fileId userId with
  | none => .error (.notFound ("file " ++ toString fileId))
  | some f => .ok (f.describe fileId)

def read (userId fileId : Uuid) (chunkIndex : UInt32) : Except AppError Bytes :=
  match d.findFile fileId userId with
  | none => .error (.notFound ("file " ++ toString fileId))
  | some f =>
    match f.content[chunkIndex.toNat]? with
    | none => .error (.badRequest ("chunk index " ++ toString chunkIndex ++
        " out of range for file with " ++ toString f.info.totalChunks ++ " chunks"))
    | some body => .ok body

/-- A file that satisfies `p` is changed. -/
def edit (fileId : Uuid) (p : DriveFile → Bool) (f : DriveFile → DriveFile) (missing : String) :
    Drive × Except AppError Unit :=
  match (d.files.lookup fileId).filter p with
  | none => (d, .error (.notFound missing))
  | some file => ({ d with files := d.files.insert fileId (f file) }, .ok ())

def delete (userId fileId : Uuid) : Drive × Except AppError Unit :=
  d.edit fileId (DriveFile.active userId) (fun f => { f with deletedAt := some d.now })
    ("file " ++ toString fileId)

def restore (userId fileId : Uuid) : Drive × Except AppError Unit :=
  d.edit fileId (DriveFile.trashed userId d.now) (fun f => { f with deletedAt := none })
    ("file " ++ toString fileId ++ " is not in trash or the 30-day restore window has expired")

def rename (userId fileId : Uuid) (encryptedName : String) : Drive × Except AppError Unit :=
  if isBlank encryptedName then (d, .error (.badRequest "encrypted_name must not be empty"))
  else if hasNul encryptedName then (d, .error .internal)
  else
    d.edit fileId (DriveFile.active userId) (fun f => f.rename encryptedName)
      ("file " ++ toString fileId)

/-- What the drive does with a request. -/
def serve : DriveRequest → Drive × DriveAnswer
  | .uploadInit userId req newId => uploaded (d.start userId req newId)
  | .uploadChunk userId uploadId header body => uploaded (d.put userId uploadId header body)
  | .uploadComplete userId uploadId => uploaded (d.finish userId uploadId)
  | .purge => (d.purge, none)
  | .listFiles userId query rank => (d, some (.inr (.files (d.list userId query rank))))
  | .getFileMeta userId fileId => (d, some (.inr (.of .fileMeta (d.describe userId fileId))))
  | .downloadChunk userId fileId i => (d, some (.inr (.of .chunk (d.read userId fileId i))))
  | .deleteFile userId fileId => changed (d.delete userId fileId)
  | .listTrash userId query rank => (d, some (.inr (.trash (d.listTrashed userId query rank))))
  | .restoreFile userId fileId => changed (d.restore userId fileId)
  | .renameFile userId fileId name => changed (d.rename userId fileId name)
  | .tick n => ({ d with now := d.now + n }, none)

/-- Identifiers are given out once. -/
def Accepts : DriveRequest → Prop
  | .uploadInit _ _ newId => newId ∉ d.issued
  | _ => True

/-- One request. -/
def Step (d : Drive) (request : DriveRequest) (d' : Drive) (answer : DriveAnswer) : Prop :=
  d.Accepts request ∧ d.serve request = (d', answer)

end Drive

end FreeBox.Server
