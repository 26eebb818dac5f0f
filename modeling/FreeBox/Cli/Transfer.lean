import FreeBox.Cli.Names
import FreeBox.Crypto.ChunkJson
import FreeBox.Lib.StateExcept
import FreeBox.Server.UploadAlone

/-!
# `upload_files` and `download_file`

Model of the two loops of the command line client in `apps/cli/src/commands/upload.rs`
and `download.rs`, against a server that processes one request after another. The
client acts for one user whose access token is valid. The chunk requests of a file
are in flight together, and the server processes them in any order.

Results:
* `send_ok`, `fetch_ok`: requests that succeed.
-/

namespace FreeBox.Cli

open FreeBox.Lib FreeBox.Crypto FreeBox.Server

/-- A client that acts on the server's world and may stop with an error. -/
abbrev Client := ExceptT String (StateM World)

/-- The server processes a request with `handler`. -/
def Client.request {α : Type} (handler : World → Except String α × World) : Client α :=
  ExceptT.mk handler

/-! ## Answers -/

/-- The error of `Response::error_for_status`, without the address. -/
def statusError (e : AppError) : String :=
  let (code, title) := e.statusAndTitle
  "HTTP status " ++ (if code < 500 then "client" else "server") ++ " error (" ++ toString code ++
    " " ++ title ++ ")"

/-- `Response::error_for_status`. -/
def errorForStatus : Response → Except String Response
  | .error e => .error (statusError e)
  | answer => .ok answer

/-- A request whose answer must not have an error status. -/
def send (handler : World → World × Response) : Client Response :=
  .request fun w => (errorForStatus (handler w).2, (handler w).1)

/-- A request that reads. -/
def fetch {α : Type} (handler : World → Except AppError α) : Client α :=
  .request fun w => ((handler w).mapError statusError, w)

theorem send_ok {handler : World → World × Response} {w w' : World} {answer : Response}
    (h : handler w = (w', answer)) (hok : errorForStatus answer = .ok answer) :
    send handler w = (.ok answer, w') := by
  show (errorForStatus (handler w).2, (handler w).1) = (.ok answer, w')
  rw [h, hok]

theorem fetch_ok {α : Type} {handler : World → Except AppError α} {w : World} {a : α}
    (h : handler w = .ok a) : fetch handler w = (.ok a, w) := by
  show ((handler w).mapError statusError, w) = (.ok a, w)
  rw [h]
  rfl

/-! ## Upload -/

/-- A file of one call of `upload_files` with what is chosen during its upload: the key
    that the client draws, the identifier that the server draws, and the order in
    which the server processes the chunk requests, as positions in the list of
    chunks. A request may be processed several times. -/
structure Transfer where
  file : PathBuf
  key : FileKey
  uploadId : Uuid
  order : List ℕ
  deriving DecidableEq

/-- `upload::UploadedFile`. -/
structure UploadedFile where
  localPath : PathBuf
  fileId : Uuid
  deriving DecidableEq

/-- `upload::UploadInitRequest`. -/
def initRequest (u : PreparedUpload) : UploadInitRequest where
  totalChunks := u.totalChunks
  sizeBytes := u.sizeBytes
  encryptedKeyEnvelope := u.encryptedKeyEnvelope
  contentHash := u.contentHash
  encryptedName := u.encryptedName

/-- The value of the header `X-Chunk-Index`. -/
def chunkIndexHeader (chunk : ChunkCiphertext) : Bytes :=
  Json.toAscii (Nat.toDigits 10 chunk.index.toNat)

/-- The chunk requests in the order in which the server processes them, and their
    answers. -/
def putChunks (userId uploadId : Uuid) : List ChunkCiphertext → World → World × List Response
  | [], w => (w, [])
  | chunk :: chunks, w =>
    let (w, answer) := uploadChunk w userId uploadId (some (chunkIndexHeader chunk)) chunk.toVec
    let (w, answers) := putChunks userId uploadId chunks w
    (w, answer :: answers)

/-- `buffer_unordered` and `collect`: every chunk is sent, and the first error is
    returned. -/
def sendChunks (userId uploadId : Uuid) (chunks : List ChunkCiphertext) : Client Unit :=
  .request fun w =>
    let (w, answers) := putChunks userId uploadId chunks w
    (answers.forM fun answer => (errorForStatus answer).map fun _ => (), w)

section Upload

variable (A : Aes256Gcm) (blake3 : Bytes → String) (readFile : PathBuf → Option Bytes)
  (destination : String) (userId : Uuid)

/-- One round of the loop in `upload_files`. -/
def uploadFile (t : Transfer) : Client UploadedFile := do
  let plaintext ← MonadExcept.ofExcept <|
    match readFile t.file with
    | none => .error ("failed to read " ++ display t.file)
    | some plaintext => .ok plaintext
  let name ← MonadExcept.ofExcept (remoteName destination t.file)
  let prepared ← MonadExcept.ofExcept (prepareUpload A blake3 t.key name plaintext)
  match ← send fun w => uploadInit w userId (initRequest prepared) t.uploadId with
  | .initialised uploadId _ =>
    sendChunks userId uploadId (t.order.filterMap fun i => prepared.chunks[i]?)
    match ← send fun w => uploadComplete w userId uploadId with
    | .completed fileId => return { localPath := t.file, fileId }
    | _ => throw "error decoding response body"
  | _ => throw "error decoding response body"

/-- `upload::upload_files`. -/
def uploadFiles (parallelism : UInt8) (files : List Transfer) : Client (List UploadedFile) :=
  if parallelism = 0 ∨ parallelism > 16 then throw "parallelism must be between 1 and 16"
  else files.mapM (uploadFile A blake3 readFile destination userId)

end Upload

/-! ## Download -/

section Download

variable (A : Aes256Gcm) (isDir : PathBuf → Bool) (userId fileId : Uuid)

/-- One round of the loop in `download_file`; the text of a JSON error is left out. -/
def downloadOne (chunkIndex : ℕ) : Client ChunkCiphertext := do
  let body ← fetch fun w => downloadChunk w userId fileId (.ofNat chunkIndex)
  match ChunkCiphertext.fromSlice body with
  | none => throw "invalid chunk"
  | some chunk => return chunk

/-- `download::download_file`: the path and the bytes that are written to it. -/
def downloadFile (output : Option PathBuf) : Client (PathBuf × Bytes) := do
  let fileMeta ← fetch fun w => getFileMeta w userId fileId
  let key ← MonadExcept.ofExcept (fileKeyFromEnvelope fileMeta.encryptedKeyEnvelope)
  let chunks ← (List.range fileMeta.totalChunks).mapM (downloadOne userId fileId)
  let plaintext ← MonadExcept.ofExcept (decryptFile A key chunks)
  let output ← MonadExcept.ofExcept (resolveOutputPath isDir output fileMeta.encryptedName)
  return (output, plaintext)

end Download

end FreeBox.Cli
