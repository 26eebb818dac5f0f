import FreeBox.Cli.Session

/-!
# Where the commands send their tokens

Model of the commands that authenticate, in `apps/cli/src/commands/` and `logout` in `auth.rs`,
and of `main` in `main.rs`. A command leads to the lines that it prints and to the file that it
writes; progress bars are left out. The chunk requests of an upload are on their way together:
all of them are sent, whatever the answers are.

Results:
* `tokens_stay_iff`: without `--server` and `FREEBOX_SERVER`, when every request with a token
  goes to the server of the session.
-/

namespace FreeBox.Cli

open FreeBox.Lib FreeBox.Lib.Program FreeBox.Crypto FreeBox.Server

/-- The lines that a command prints, and the file that it writes. -/
structure Output where
  lines : List String
  written : Option (PathBuf × Bytes)
  deriving DecidableEq

/-- A command that only prints. -/
def Output.print (lines : List String) : Output := { lines, written := none }

/-- A request without a body. -/
def plainRequest (method : Method) (server path token : String) : Request :=
  { method, server, path, bearer := some token, body := .empty }

section Commands

variable (host : Host)

/-! ## `upload` -/

/-- The path of the address of an upload. -/
def uploadPath (uploadId : Uuid) : String := "/api/v1/files/upload/" ++ toString uploadId

def initUpload (server : String) (session : Session) (prepared : PreparedUpload) : Request where
  method := .post
  server := server
  path := "/api/v1/files/upload/init"
  bearer := some session.accessToken
  body := .uploadInit (initRequest prepared)

/-- What is read and encrypted before the first request of a file. -/
def prepareFile (destination : String) (file : PathBuf) (key : FileKey) :
    Except String PreparedUpload := do
  let plaintext ←
    match host.readFile file with
    | none => .error ("failed to read " ++ display file)
    | some plaintext => .ok plaintext
  let name ← remoteName destination file
  prepareUpload host.aes256Gcm host.blake3 key name plaintext

def putChunk (server : String) (session : Session) (uploadId : Uuid) (chunk : ChunkCiphertext) :
    Task Unit := do
  let answer ← sendRequest host
    { method := .put
      server
      path := uploadPath uploadId
      bearer := some session.accessToken
      body := .chunk (chunkIndexHeader chunk) chunk.toVec }
  discard (MonadExcept.ofExcept answer.errorForStatus)

/-- `buffer_unordered` and `collect`. -/
def putAll (server : String) (session : Session) (uploadId : Uuid)
    (chunks : List ChunkCiphertext) : Task Unit := .mk do
  let results ← chunks.mapM fun chunk => (putChunk host server session uploadId chunk).run
  return results.forM id

/-- One round of the loop in `upload_files`, with the key that is drawn in it. -/
def sendFile (server : String) (session : Session) (destination : String)
    (file : PathBuf × FileKey) : Task UploadedFile := do
  let prepared ← MonadExcept.ofExcept (prepareFile host destination file.1 file.2)
  let answer ← sendRequest host (initUpload server session prepared)
  let answer ← MonadExcept.ofExcept answer.errorForStatus
  let uploadId ← MonadExcept.ofExcept (answer.json host.parseUploadInit)
  putAll host server session uploadId prepared.chunks
  let answer ← sendRequest host
    (plainRequest .post server (uploadPath uploadId ++ "/complete") session.accessToken)
  let answer ← MonadExcept.ofExcept answer.errorForStatus
  let fileId ← MonadExcept.ofExcept (answer.json host.parseUploadComplete)
  return { localPath := file.1, fileId }

/-- `upload::upload_files`. -/
def sendFiles (files : List (PathBuf × FileKey)) (destination : String) (parallelism : UInt8)
    (server : String) (session : Session) : Task (List UploadedFile) :=
  if parallelism = 0 ∨ parallelism > 16 then throw "parallelism must be between 1 and 16"
  else files.mapM (sendFile host server session destination)

/-- `upload::run`. -/
def uploadRun (files : List (PathBuf × FileKey)) (destination : String) (parallelism : UInt8)
    (server : String) (stored : Except String Session) : Task Output := do
  let session ← MonadExcept.ofExcept stored
  let server := effectiveServer server session
  let uploaded ← sendFiles host files destination parallelism server session
  return .print (uploaded.map fun file =>
    "Uploaded " ++ display file.localPath ++ " as " ++ toString file.fileId)

/-! ## `download` -/

/-- `download::resolve_name_to_id`. -/
def requestName (name server : String) (session : Session) : Task (Uuid × Session) := do
  let (answer, session) ← sendWithRefresh host session (plainRequest .get server "/api/v1/files")
  let answer ← MonadExcept.ofExcept answer.errorForStatus
  let files ← MonadExcept.ofExcept (answer.json host.parseFiles)
  let fileId ← MonadExcept.ofExcept (resolveName name files)
  return (fileId, session)

/-- The path of the address of a file. -/
def filePath (fileId : Uuid) : String := "/api/v1/files/" ++ toString fileId

/-- The loop in `download_file`; the text of a JSON error is left out. -/
def getChunks (server : String) (fileId : Uuid) :
    (indices : List ℕ) → Session → Task (List ChunkCiphertext)
  | [], _ => return []
  | chunkIndex :: indices, session => do
    let (answer, session) ← sendWithRefresh host session
      (plainRequest .get server (filePath fileId ++ "/chunk/" ++ toString chunkIndex))
    let answer ← MonadExcept.ofExcept answer.errorForStatus
    let body ← MonadExcept.ofExcept answer.body
    match ChunkCiphertext.fromSlice body with
    | none => throw "invalid chunk"
    | some chunk => return chunk :: (← getChunks server fileId indices session)

/-- `download::download_file`. -/
def getFile (fileId : Uuid) (output : Option PathBuf) (server : String) (session : Session) :
    Task (PathBuf × Bytes) := do
  let (answer, session) ← sendWithRefresh host session (plainRequest .get server (filePath fileId))
  let answer ← MonadExcept.ofExcept answer.errorForStatus
  let fileMeta ← MonadExcept.ofExcept (answer.json host.parseFileMeta)
  let key ← MonadExcept.ofExcept (fileKeyFromEnvelope fileMeta.encryptedKeyEnvelope)
  let chunks ← getChunks host server fileId (List.range fileMeta.totalChunks) session
  let plaintext ← MonadExcept.ofExcept (decryptFile host.aes256Gcm key chunks)
  let output ← MonadExcept.ofExcept (resolveOutputPath host.isDir output fileMeta.encryptedName)
  return (output, plaintext)

/-- The file that `remote` means, a UUID or a name. -/
def remoteId (remote server : String) (session : Session) : Task (Uuid × Session) :=
  match Uuid.parseStr remote.toList with
  | some fileId => return (fileId, session)
  | none => requestName host remote server session

/-- `download::run`. -/
def downloadRun (remote : String) (output : Option PathBuf) (server : String)
    (stored : Except String Session) : Task Output := do
  let session ← MonadExcept.ofExcept stored
  let server := effectiveServer server session
  let (fileId, session) ← remoteId host remote server session
  let (output, plaintext) ← getFile host fileId output server session
  return { lines := ["Downloaded to " ++ display output], written := some (output, plaintext) }

/-! ## `ls`, `rm` and `bucket` -/

/-- The lines of `list::run`. -/
def listLines (path : String) (long : Bool) (files : List FileMetaResponse) : List String :=
  if long ∧ shown path files ≠ [] then (shown path files).map host.longLine
  else listRun path files

/-- `list::run`. -/
def listCommand (path : String) (long : Bool) (server : String) (stored : Except String Session) :
    Task Output := do
  let session ← MonadExcept.ofExcept stored
  let server := effectiveServer server session
  let (answer, _) ← sendWithRefresh host session (plainRequest .get server "/api/v1/files")
  let answer ← MonadExcept.ofExcept answer.errorForStatus
  let files ← MonadExcept.ofExcept (answer.json host.parseFiles)
  return .print (listLines host path long files)

/-- `remove::run`. -/
def removeRun (remote : String) (permanent : Bool) (server : String)
    (stored : Except String Session) : Task Output :=
  if permanent then
    throw ("--permanent hard delete is not yet supported; " ++
      "files in trash are purged automatically after 30 days")
  else
    match Uuid.parseStr remote.toList with
    | none => throw "remove expects a file UUID — use `fbx ls --long` to find the file ID"
    | some fileId => do
      let session ← MonadExcept.ofExcept stored
      let server := effectiveServer server session
      let (answer, _) ← sendWithRefresh host session (plainRequest .delete server (filePath fileId))
      let _ ← MonadExcept.ofExcept answer.errorForStatus
      return .print ["Moved " ++ toString fileId ++ " to trash (recoverable for 30 days)."]

/-- `bucket::BucketCommand`. -/
inductive BucketCommand
  | list
  | create (name : String)
  deriving DecidableEq

/-- A name in the first column of `bucket list`. -/
def column (name : String) : String := String.ofList (name.toList.rightpad 45 ' ')

/-- `bucket::list`. -/
def bucketList (server : String) (session : Session) : Task Output := do
  let (answer, _) ← sendWithRefresh host session
    (plainRequest .get server "/api/v1/storage/buckets")
  let answer ← MonadExcept.ofExcept answer.errorForStatus
  let buckets ← MonadExcept.ofExcept (answer.json host.parseBuckets)
  if buckets = [] then return .print ["No buckets found."]
  else return .print <|
    [column "BUCKET NAME" ++ " CREATED", String.ofList (List.replicate 70 '-')] ++
      buckets.map fun b => column b.name ++ " " ++ b.creationDate.getD "—"

/-- The request of `bucket::create`. -/
def createRequest (name server token : String) : Request where
  method := .post
  server := server
  path := "/api/v1/storage/buckets"
  bearer := some token
  body := .bucket name

/-- `bucket::create`. -/
def bucketCreate (name server : String) (session : Session) : Task Output := do
  let (answer, _) ← sendWithRefresh host session (createRequest name server)
  if 200 ≤ answer.status ∧ answer.status < 300 then
    return .print ["Bucket '" ++ name ++ "' created successfully."]
  else
    throw ("Failed to create bucket: " ++
      (answer.body.toOption.bind host.parseMessage).getD "unknown error")

/-- `bucket::handle`. -/
def bucketHandle (cmd : BucketCommand) (server : String) (stored : Except String Session) :
    Task Output := do
  let session ← MonadExcept.ofExcept stored
  let server := effectiveServer server session
  match cmd with
  | .list => bucketList host server session
  | .create name => bucketCreate host name server session

/-! ## `auth logout` -/

/-- The request of `logout`. -/
def logoutRequest (server : String) (session : Session) : Request where
  method := .post
  server := server
  path := "/api/v1/auth/logout"
  bearer := some session.accessToken
  body := .refreshRequest session.refreshToken

/-- `auth::logout`. The server is the one that `main` has chosen, without
    `effective_server`. -/
def logout (server : String) (stored : Except String Session) : Task Output := do
  match stored with
  | .ok session =>
    -- The result of the request is dropped.
    tryCatch (discard (sendRequest host (logoutRequest server session))) fun _ => pure ()
  | .error _ => pure ()
  Session.clear
  return .print ["Logged out"]

/-! ## `main` -/

/-- The commands that authenticate. -/
inductive Command
  | upload (files : List (PathBuf × FileKey)) (destination : String) (parallelism : UInt8)
  | download (remote : String) (output : Option PathBuf)
  | list (path : String) (long : Bool)
  | remove (remote : String) (permanent : Bool)
  | bucket (cmd : BucketCommand)
  | logout
  deriving DecidableEq

/-- What `clap` reads. -/
structure CommandLine where
  /-- `--server`. -/
  serverFlag : Option String
  /-- `FREEBOX_SERVER`. -/
  serverEnv : Option String
  command : Command

/-- The field `server` of `Cli`. -/
def CommandLine.server (cli : CommandLine) : String :=
  cli.serverFlag.getD (cli.serverEnv.getD defaultServer)

/-- The server that `main` chooses. -/
def mainServer (cli : CommandLine) (configFile : Option CliConfig) : String :=
  if cli.server = defaultServer then (CliConfig.load configFile).server else cli.server

def Command.run (server : String) (stored : Except String Session) : Command → Task Output
  | upload files destination parallelism =>
    uploadRun host files destination parallelism server stored
  | download remote output => downloadRun host remote output server stored
  | list path long => listCommand host path long server stored
  | remove remote permanent => removeRun host remote permanent server stored
  | bucket cmd => bucketHandle host cmd server stored
  | logout => Cli.logout host server stored

/-- `main`, with what `CliConfig::load` and `Session::load` find. -/
def main (cli : CommandLine) (configFile : Option CliConfig) (stored : Except String Session) :
    Task Output :=
  cli.command.run host (mainServer cli configFile) stored

end Commands

/-! ## Requests that stay at the server of the session -/

section Stays

variable {host : Host} {server target : String} {session : Session}

theorem sends_ofExcept {α : Type} (r : Except String α) :
    Sends (Action.StaysAt target) (fun _ => True) (MonadExcept.ofExcept r : Task α) :=
  Sends.ofExcept r fun _ _ => trivial

theorem sends_plainRequest (h : normalizeServerUrl server = normalizeServerUrl target)
    (hsession : session.server = target) (method : Method) (path : String) :
    Sends (Action.StaysAt target) (fun result => result.2.server = target)
      (sendWithRefresh host session (plainRequest method server path)) :=
  sends_sendWithRefresh hsession fun _ => Request.sentTo_iff.mpr h

theorem sends_putAll (h : normalizeServerUrl server = normalizeServerUrl target)
    (uploadId : Uuid) (chunks : List ChunkCiphertext) :
    Sends (Action.StaysAt target) (fun _ => True)
      (putAll host server session uploadId chunks) := by
  refine always_bind.mpr (Always.mono (Always.mapM fun chunk _ => ?_) fun _ _ _ _ => trivial)
  have hput : Sends (Action.StaysAt target) (fun _ => True)
      (putChunk host server session uploadId chunk) := by
    unfold putChunk
    refine (sends_sendRequest fun _ => ?_).bind fun answer _ => ?_
    · exact Request.sentTo_iff.mpr h
    · exact (sends_ofExcept _).bind fun _ _ => Sends.pure trivial
  exact Always.mono hput fun _ _ => trivial

theorem sends_sendFile (h : normalizeServerUrl server = normalizeServerUrl target)
    (destination : String) (file : PathBuf × FileKey) :
    Sends (Action.StaysAt target) (fun _ => True)
      (sendFile host server session destination file) := by
  unfold sendFile
  refine (sends_ofExcept _).bind fun prepared _ => ?_
  refine (sends_sendRequest fun _ => ?_).bind fun answer _ => ?_
  · exact Request.sentTo_iff.mpr h
  refine (sends_ofExcept _).bind fun answer _ => ?_
  refine (sends_ofExcept _).bind fun uploadId _ => ?_
  refine (sends_putAll h uploadId _).bind fun _ _ => ?_
  refine (sends_sendRequest fun _ => ?_).bind fun answer _ => ?_
  · exact Request.sentTo_iff.mpr h
  refine (sends_ofExcept _).bind fun answer _ => ?_
  exact (sends_ofExcept _).bind fun _ _ => Sends.pure trivial

theorem sends_uploadRun
    (h : normalizeServerUrl (effectiveServer server session) = normalizeServerUrl session.server)
    (files : List (PathBuf × FileKey)) (destination : String) (parallelism : UInt8) :
    Sends (Action.StaysAt session.server) (fun _ => True)
      (uploadRun host files destination parallelism server (.ok session)) := by
  have hfiles : Sends (Action.StaysAt session.server) (fun _ => True)
      (sendFiles host files destination parallelism (effectiveServer server session) session) := by
    unfold sendFiles
    split_ifs
    · exact Sends.throw _
    · exact Sends.mapM fun file _ => sends_sendFile h destination file
  exact Sends.of_ok (hfiles.bind fun _ _ => Sends.pure trivial)

theorem sends_getChunks (h : normalizeServerUrl server = normalizeServerUrl target)
    (fileId : Uuid) (indices : List ℕ) (hsession : session.server = target) :
    Sends (Action.StaysAt target) (fun _ => True)
      (getChunks host server fileId indices session) := by
  induction indices generalizing session with
  | nil => exact Sends.pure trivial
  | cons chunkIndex indices ih =>
    unfold getChunks
    refine (sends_plainRequest h hsession _ _).bind fun result hresult => ?_
    refine (sends_ofExcept _).bind fun answer _ => ?_
    refine (sends_ofExcept _).bind fun body _ => ?_
    cases ChunkCiphertext.fromSlice body with
    | none => exact Sends.throw _
    | some chunk => exact (ih hresult).bind fun _ _ => Sends.pure trivial

theorem sends_getFile (h : normalizeServerUrl server = normalizeServerUrl target)
    (fileId : Uuid) (output : Option PathBuf) (hsession : session.server = target) :
    Sends (Action.StaysAt target) (fun _ => True)
      (getFile host fileId output server session) := by
  unfold getFile
  refine (sends_plainRequest h hsession _ _).bind fun result hresult => ?_
  refine (sends_ofExcept _).bind fun answer _ => ?_
  refine (sends_ofExcept _).bind fun fileMeta _ => ?_
  refine (sends_ofExcept _).bind fun key _ => ?_
  refine (sends_getChunks h fileId _ hresult).bind fun chunks _ => ?_
  refine (sends_ofExcept _).bind fun plaintext _ => ?_
  exact (sends_ofExcept _).bind fun _ _ => Sends.pure trivial

theorem sends_requestName (h : normalizeServerUrl server = normalizeServerUrl target)
    (name : String) (hsession : session.server = target) :
    Sends (Action.StaysAt target) (fun result => result.2.server = target)
      (requestName host name server session) := by
  unfold requestName
  refine (sends_plainRequest h hsession _ _).bind fun result hresult => ?_
  refine (sends_ofExcept _).bind fun answer _ => ?_
  refine (sends_ofExcept _).bind fun files _ => ?_
  exact (sends_ofExcept _).bind fun _ _ => Sends.pure hresult

theorem sends_remoteId (h : normalizeServerUrl server = normalizeServerUrl target)
    (remote : String) (hsession : session.server = target) :
    Sends (Action.StaysAt target) (fun result => result.2.server = target)
      (remoteId host remote server session) := by
  unfold remoteId
  cases Uuid.parseStr remote.toList with
  | some fileId => exact Sends.pure hsession
  | none => exact sends_requestName h remote hsession

theorem sends_downloadRun
    (h : normalizeServerUrl (effectiveServer server session) = normalizeServerUrl session.server)
    (remote : String) (output : Option PathBuf) :
    Sends (Action.StaysAt session.server) (fun _ => True)
      (downloadRun host remote output server (.ok session)) := by
  refine Sends.of_ok ((sends_remoteId h remote rfl).bind fun result hresult => ?_)
  exact (sends_getFile h result.1 output hresult).bind fun _ _ => Sends.pure trivial

theorem sends_listCommand
    (h : normalizeServerUrl (effectiveServer server session) = normalizeServerUrl session.server)
    (path : String) (long : Bool) :
    Sends (Action.StaysAt session.server) (fun _ => True)
      (listCommand host path long server (.ok session)) := by
  refine Sends.of_ok ((sends_plainRequest h rfl _ _).bind fun result _ => ?_)
  refine (sends_ofExcept _).bind fun answer _ => ?_
  exact (sends_ofExcept _).bind fun _ _ => Sends.pure trivial

theorem sends_removeRun
    (h : normalizeServerUrl (effectiveServer server session) = normalizeServerUrl session.server)
    (remote : String) (permanent : Bool) :
    Sends (Action.StaysAt session.server) (fun _ => True)
      (removeRun host remote permanent server (.ok session)) := by
  unfold removeRun
  split_ifs
  · exact Sends.throw _
  cases Uuid.parseStr remote.toList with
  | none => exact Sends.throw _
  | some fileId =>
    refine Sends.of_ok ((sends_plainRequest h rfl _ _).bind fun result _ => ?_)
    exact (sends_ofExcept _).bind fun _ _ => Sends.pure trivial

theorem sends_bucketHandle
    (h : normalizeServerUrl (effectiveServer server session) = normalizeServerUrl session.server)
    (cmd : BucketCommand) :
    Sends (Action.StaysAt session.server) (fun _ => True)
      (bucketHandle host cmd server (.ok session)) := by
  cases cmd with
  | list =>
    refine Sends.of_ok ((sends_plainRequest h rfl _ _).bind fun result _ => ?_)
    refine (sends_ofExcept _).bind fun answer _ => ?_
    refine (sends_ofExcept _).bind fun buckets _ => ?_
    split_ifs <;> exact Sends.pure trivial
  | create name =>
    refine Sends.of_ok ((sends_sendWithRefresh rfl fun _ => ?_).bind fun result _ => ?_)
    · exact Request.sentTo_iff.mpr h
    obtain ⟨answer, session'⟩ := result
    dsimp only
    split_ifs
    · exact Sends.pure trivial
    · exact Sends.throw _

theorem sends_logout (h : host.buildError (logoutRequest server session) = none →
      normalizeServerUrl server = normalizeServerUrl target) :
    Sends (Action.StaysAt target) (fun _ => True) (logout host server (.ok session)) := by
  have hrequest : Sends (Action.StaysAt target) (fun _ => True)
      (discard (sendRequest host (logoutRequest server session))) := by
    refine (sends_sendRequest fun hbuild => ?_).bind fun _ _ => Sends.pure trivial
    exact Request.sentTo_iff.mpr (h hbuild)
  unfold logout
  refine (hrequest.tryCatch fun _ => Sends.pure trivial).bind fun _ _ => ?_
  exact sends_clear.bind fun _ _ => Sends.pure trivial

end Stays

/-! ## The first request of a command -/

/-- The first request of a command at `server`, unless the command ends before it. -/
def Command.firstRequest (host : Host) (server : String) (session : Session) :
    Command → Option Request
  | upload files destination parallelism =>
    if parallelism = 0 ∨ parallelism > 16 then none
    else files.head?.bind fun file =>
      (prepareFile host destination file.1 file.2).toOption.map (initUpload server session)
  | download remote _ =>
    let path := ((Uuid.parseStr remote.toList).map filePath).getD "/api/v1/files"
    some (plainRequest .get server path session.accessToken)
  | list _ _ => some (plainRequest .get server "/api/v1/files" session.accessToken)
  | remove remote permanent =>
    if permanent then none
    else (Uuid.parseStr remote.toList).map fun fileId =>
      plainRequest .delete server (filePath fileId) session.accessToken
  | bucket .list => some (plainRequest .get server "/api/v1/storage/buckets" session.accessToken)
  | bucket (.create name) => some (createRequest name server session.accessToken)
  | logout => some (logoutRequest server session)

section First

variable {host : Host} {server : String} {session : Session} {command : Command}
  {request : Request}

theorem firstRequest_spec (h : command.firstRequest host server session = some request) :
    request.server = server ∧ request.CarriesToken := by
  have hsome : ∀ r : Request, r.server = server ∧ r.bearer = some session.accessToken →
      some r = some request → request.server = server ∧ request.CarriesToken := by
    intro r hr heq
    obtain rfl := Option.some.inj heq
    refine ⟨hr.1, .inl ?_⟩
    rw [hr.2]
    exact Option.some_ne_none _
  cases command with
  | upload files destination parallelism =>
    dsimp only [Command.firstRequest] at h
    split_ifs at h
    obtain ⟨file, -, hfile⟩ := Option.bind_eq_some_iff.mp h
    obtain ⟨prepared, -, heq⟩ := Option.map_eq_some_iff.mp hfile
    exact hsome _ ⟨rfl, rfl⟩ (congrArg some heq)
  | download remote output => exact hsome _ ⟨rfl, rfl⟩ h
  | list path long => exact hsome _ ⟨rfl, rfl⟩ h
  | remove remote permanent =>
    dsimp only [Command.firstRequest] at h
    split_ifs at h
    obtain ⟨fileId, -, heq⟩ := Option.map_eq_some_iff.mp h
    exact hsome _ ⟨rfl, rfl⟩ (congrArg some heq)
  | bucket cmd =>
    cases cmd with
    | list => exact hsome _ ⟨rfl, rfl⟩ h
    | create name => exact hsome _ ⟨rfl, rfl⟩ h
  | logout => exact hsome _ ⟨rfl, rfl⟩ h

theorem begins_uploadRun {files : List (PathBuf × FileKey)} {destination : String}
    {parallelism : UInt8}
    (h : (Command.upload files destination parallelism).firstRequest host
      (effectiveServer server session) session = some request) :
    Begins host request (uploadRun host files destination parallelism server (.ok session)) := by
  dsimp only [Command.firstRequest] at h
  split_ifs at h with hpar
  cases files with
  | nil => cases h
  | cons file files =>
    rw [List.head?_cons, Option.bind_some] at h
    cases hprepare : prepareFile host destination file.1 file.2 with
    | error e =>
      rw [hprepare] at h
      cases h
    | ok prepared =>
      rw [hprepare] at h
      obtain rfl : initUpload (effectiveServer server session) session prepared = request :=
        Option.some.inj h
      have hfiles : Begins host (initUpload (effectiveServer server session) session prepared)
          (sendFiles host (file :: files) destination parallelism
            (effectiveServer server session) session) := by
        unfold sendFiles
        rw [if_neg hpar, List.mapM_cons]
        refine Begins.bind ?_ _
        unfold sendFile
        rw [hprepare]
        exact (begins_sendRequest host _).bind _
      exact hfiles.bind _

theorem begins_downloadRun {remote : String} {output : Option PathBuf}
    (h : (Command.download remote output).firstRequest host (effectiveServer server session)
      session = some request) :
    Begins host request (downloadRun host remote output server (.ok session)) := by
  dsimp only [Command.firstRequest] at h
  obtain rfl := Option.some.inj h
  cases hid : Uuid.parseStr remote.toList with
  | some fileId =>
    have hremote : remoteId host remote (effectiveServer server session) session =
        pure (fileId, session) := by
      unfold remoteId
      rw [hid]
    show Begins host _ (remoteId host remote (effectiveServer server session) session >>= _)
    rw [hremote]
    have hfile : Begins host
        (plainRequest .get (effectiveServer server session) (filePath fileId) session.accessToken)
        (getFile host fileId output (effectiveServer server session) session) :=
      (begins_sendWithRefresh host session _).bind _
    exact hfile.bind _
  | none =>
    have hremote : Begins host
        (plainRequest .get (effectiveServer server session) "/api/v1/files" session.accessToken)
        (remoteId host remote (effectiveServer server session) session) := by
      unfold remoteId
      rw [hid]
      exact (begins_sendWithRefresh host session _).bind _
    exact hremote.bind _

theorem begins_run (hlogout : command ≠ .logout)
    (h : command.firstRequest host (effectiveServer server session) session = some request) :
    Begins host request (command.run host server (.ok session)) := by
  cases command with
  | upload files destination parallelism => exact begins_uploadRun h
  | download remote output => exact begins_downloadRun h
  | list path long =>
    obtain rfl := Option.some.inj h
    exact (begins_sendWithRefresh host session _).bind _
  | remove remote permanent =>
    dsimp only [Command.firstRequest] at h
    split_ifs at h with hpermanent
    obtain ⟨fileId, hid, rfl⟩ := Option.map_eq_some_iff.mp h
    show Begins host _ (removeRun host remote permanent server (.ok session))
    unfold removeRun
    rw [if_neg hpermanent, hid]
    exact (begins_sendWithRefresh host session _).bind _
  | bucket cmd =>
    cases cmd with
    | list =>
      obtain rfl := Option.some.inj h
      exact (begins_sendWithRefresh host session _).bind _
    | create name =>
      obtain rfl := Option.some.inj h
      exact (begins_sendWithRefresh host session _).bind _
  | logout => exact absurd rfl hlogout

/-- A command without a first request sends nothing. -/
theorem sends_run_of_none {p : Action → Prop} {chosen : String}
    (h : command.firstRequest host chosen session = none) :
    Sends p (fun _ => True) (command.run host server (.ok session)) := by
  cases command with
  | upload files destination parallelism =>
    dsimp only [Command.firstRequest] at h
    have hfiles : Sends p (fun _ => True) (sendFiles host files destination parallelism
        (effectiveServer server session) session) := by
      unfold sendFiles
      split_ifs at h ⊢ with hpar
      · exact Sends.throw _
      cases files with
      | nil => exact Sends.pure trivial
      | cons file files =>
        rw [List.head?_cons, Option.bind_some, Option.map_eq_none_iff] at h
        cases hprepare : prepareFile host destination file.1 file.2 with
        | error e =>
          rw [List.mapM_cons]
          unfold sendFile
          rw [hprepare]
          exact Sends.throw e
        | ok prepared =>
          rw [hprepare] at h
          cases h
    exact Sends.of_ok (hfiles.bind fun _ _ => Sends.pure trivial)
  | remove remote permanent =>
    dsimp only [Command.firstRequest] at h
    show Sends p _ (removeRun host remote permanent server (.ok session))
    unfold removeRun
    split_ifs at h ⊢ with hpermanent
    · exact Sends.throw _
    rw [Option.map_eq_none_iff] at h
    rw [h]
    exact Sends.throw _
  | download remote output => cases h
  | list path long => cases h
  | bucket cmd => cases cmd <;> cases h
  | logout => cases h

end First

/-! ## Tokens -/

section Tokens

variable {host : Host} {server : String} {session : Session} {command : Command}
  {request : Request}

theorem normalize_effectiveServer
    (h : server = defaultServer ∨ normalizeServerUrl server = normalizeServerUrl session.server) :
    normalizeServerUrl (effectiveServer server session) = normalizeServerUrl session.server := by
  unfold effectiveServer
  split_ifs with hserver
  · rfl
  · exact h.resolve_left hserver

theorem sends_run (hlogout : command ≠ .logout)
    (h : server = defaultServer ∨ normalizeServerUrl server = normalizeServerUrl session.server) :
    Sends (Action.StaysAt session.server) (fun _ => True)
      (command.run host server (.ok session)) := by
  have heffective := normalize_effectiveServer h
  cases command with
  | upload files destination parallelism =>
    exact sends_uploadRun heffective files destination parallelism
  | download remote output => exact sends_downloadRun heffective remote output
  | list path long => exact sends_listCommand heffective path long
  | remove remote permanent => exact sends_removeRun heffective remote permanent
  | bucket cmd => exact sends_bucketHandle heffective cmd
  | logout => exact absurd rfl hlogout

/-- A first request that can be built is sent to the server that `main` has chosen, unless that
    is the default. -/
theorem first_run (hserver : command ≠ .logout → server ≠ defaultServer)
    (h : command.firstRequest host server session = some request)
    (hbuild : host.buildError request = none) :
    (command.run host server (.ok session)).run.first = some (.send request) := by
  by_cases hlogout : command = .logout
  · subst hlogout
    obtain rfl : logoutRequest server session = request := Option.some.inj h
    have hbegins := begins_sendRequest host (logoutRequest server session)
    exact first_bind (first_bind ((hbegins.bind _).sends hbuild))
  · have hto : effectiveServer server session = server := if_neg (hserver hlogout)
    rw [← hto] at h
    exact (begins_run hlogout h).sends hbuild

/-- A first request that cannot be built is the last one. -/
theorem sends_run_of_buildError (h : ∀ request,
      command.firstRequest host server session = some request → host.buildError request ≠ none) :
    Sends (Action.StaysAt session.server) (fun _ => True)
      (command.run host server (.ok session)) := by
  by_cases hlogout : command = .logout
  · subst hlogout
    exact sends_logout fun hbuild => absurd hbuild (h _ rfl)
  by_cases hserver : server = defaultServer
  · exact sends_run hlogout (.inl hserver)
  have hto : effectiveServer server session = server := if_neg hserver
  cases hfirst : command.firstRequest host server session with
  | none => exact sends_run_of_none hfirst
  | some request =>
    obtain ⟨e, herror⟩ := Option.ne_none_iff_exists'.mp (h request hfirst)
    rw [← hto] at hfirst
    rw [(begins_run hlogout hfirst).fails e herror]
    exact Sends.throw e

/-- An environment in which every request fails. -/
def noReply (_ : List Action) : (a : Action) → a.Answer
  | .send _ => .error "error sending request"
  | .save _ => .ok ()
  | .clear => .ok ()

/-- Which commands, with which stored session and which configuration, send every token to the
    server of the session when neither `--server` nor `FREEBOX_SERVER` is given. -/
theorem tokens_stay_iff (host : Host) (configFile : Option CliConfig) (session : Session)
    (command : Command) :
    (∀ (reply : List Action → (a : Action) → a.Answer) (request : Request),
      Action.send request ∈ (main host { serverFlag := none, serverEnv := none, command } configFile
          (.ok session)).run.asked reply [] →
        request.CarriesToken → request.SentTo session.server) ↔
      (command ≠ .logout ∧ (CliConfig.load configFile).server = defaultServer) ∨
      normalizeServerUrl (CliConfig.load configFile).server = normalizeServerUrl session.server ∨
      ∀ request, command.firstRequest host (CliConfig.load configFile).server session =
        some request → host.buildError request ≠ none := by
  have hmain : main host { serverFlag := none, serverEnv := none, command } configFile
      (.ok session) = command.run host (CliConfig.load configFile).server (.ok session) := rfl
  rw [hmain]
  generalize (CliConfig.load configFile).server = server
  constructor
  · intro h
    by_contra hnot
    push Not at hnot
    obtain ⟨hdefault, hserver, request, hfirst, hbuild⟩ := hnot
    obtain ⟨hto, htoken⟩ := firstRequest_spec hfirst
    have hsent := h noReply request (mem_asked noReply (first_run hdefault hfirst hbuild)) htoken
    rw [Request.sentTo_iff, hto] at hsent
    exact hserver hsent
  · intro h reply request hmem htoken
    have hsends : Sends (Action.StaysAt session.server) (fun _ => True)
        (command.run host server (.ok session)) := by
      obtain ⟨hlogout, hdefault⟩ | hserver | hbuild := h
      · exact sends_run hlogout (.inl hdefault)
      · by_cases hlogout : command = .logout
        · subst hlogout
          exact sends_logout fun _ => hserver
        · exact sends_run hlogout (.inr hserver)
      · exact sends_run_of_buildError hbuild
    exact Always.asked hsends hmem htoken

/-- A machine without files, on which every request can be built. -/
def runHost : Host where
  aes256Gcm := Aead.tagged runTag
  blake3 := fun _ => ""
  readFile := fun _ => none
  isDir := fun _ => false
  buildError := fun _ => none
  parseTokens := fun _ => none
  parseFiles := fun _ => none
  parseFileMeta := fun _ => none
  parseUploadInit := fun _ => none
  parseUploadComplete := fun _ => none
  parseBuckets := fun _ => none
  parseMessage := fun _ => none
  longLine := fun _ => ""

def runSession : Session where
  accessToken := "access"
  refreshToken := "refresh"
  server := "http://localhost:8080"
  username := "alice"
  userId := ⟨1⟩

/-- Without a configuration file, `auth logout` after a login at another server than the
    default. -/
theorem logout_elsewhere : ∃ request,
    Action.send request ∈ (main runHost
      { serverFlag := none, serverEnv := none, command := .logout } none
        (.ok runSession)).run.asked noReply [] ∧
    request.url = "https://freebox.io/api/v1/auth/logout" ∧
    request.bearer = some runSession.accessToken ∧
    request.body = .refreshRequest runSession.refreshToken ∧
    ¬ request.SentTo runSession.server := by
  refine ⟨logoutRequest defaultServer runSession, List.mem_cons_self, ?_, rfl, rfl, ?_⟩
  · decide
  · rw [Request.sentTo_iff]
    decide

end Tokens

end FreeBox.Cli
