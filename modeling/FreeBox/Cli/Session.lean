import FreeBox.Cli.Listing
import FreeBox.Lib.Program

/-!
# Sessions of the command line client

Model of `apps/cli/src/session.rs`, `client.rs`, the address functions of `auth.rs` and the
server of `config.rs`. A command is a program that asks for the answers to its requests; what
`reqwest` and `serde_json` make of requests and answers are parameters, and the texts of their
errors are left out.

Results:
* `sentTo_iff`: which server a request goes to.
* `sends_sendWithRefresh`: `send_with_refresh` keeps the session at its server.
-/

namespace FreeBox.Cli

open FreeBox.Lib FreeBox.Lib.Program FreeBox.Crypto FreeBox.Server

/-! ## Servers -/

/-- `session::DEFAULT_SERVER`. -/
def defaultServer : String := "https://freebox.io"

/-- `session::Session`. -/
structure Session where
  accessToken : String
  refreshToken : String
  server : String
  username : String
  userId : Uuid
  deriving DecidableEq

/-- `session::effective_server`. -/
def effectiveServer (serverArg : String) (session : Session) : String :=
  if serverArg = defaultServer then session.server else serverArg

/-- `config::CliConfig`; the storage sources are left out. -/
structure CliConfig where
  server : String
  deriving DecidableEq

/-- `CliConfig::load`; `none` when there is no file or it cannot be parsed. -/
def CliConfig.load (file : Option CliConfig) : CliConfig := file.getD { server := defaultServer }

/-- `auth::normalize_server_url`. -/
def normalizeServerUrl (server : String) : String := trimEndMatches '/' server

/-- `auth::api_url`. -/
def apiUrl (server path : String) : String :=
  normalizeServerUrl server ++ "/" ++ trimStartMatches "/" path

theorem apiUrl_inj {s t path : String} :
    apiUrl s path = apiUrl t path ↔ normalizeServerUrl s = normalizeServerUrl t := by
  unfold apiUrl
  constructor
  · intro h
    have hlist := congrArg String.toList h
    simp only [String.toList_append, List.append_assoc] at hlist
    exact String.toList_inj.mp (List.append_cancel_right hlist)
  · intro h
    rw [h]

/-! ## Requests -/

inductive Method
  | get
  | post
  | put
  | delete
  deriving DecidableEq

/-- The body of a request, with the header that goes with a chunk. -/
inductive Body
  | empty
  /-- `RefreshRequest`. -/
  | refreshRequest (refreshToken : String)
  | uploadInit (req : UploadInitRequest)
  | chunk (chunkIndex : Bytes) (record : Bytes)
  /-- `{"name": name}`. -/
  | bucket (name : String)
  deriving DecidableEq

/-- A request to the address `api_url(server, path)`. -/
structure Request where
  method : Method
  server : String
  path : String
  /-- The token of `bearer_auth`. -/
  bearer : Option String
  body : Body
  deriving DecidableEq

namespace Request

def url (request : Request) : String := apiUrl request.server request.path

/-- Whether a token of the session is sent; every token that the client sends is one. -/
def CarriesToken (request : Request) : Prop :=
  request.bearer ≠ none ∨ ∃ token, request.body = .refreshRequest token

/-- The address is the one that the request has at `server`. -/
def SentTo (server : String) (request : Request) : Prop :=
  request.url = apiUrl server request.path

theorem sentTo_iff {server : String} {request : Request} :
    request.SentTo server ↔ normalizeServerUrl request.server = normalizeServerUrl server :=
  apiUrl_inj

end Request

/-- The answer to a request, whose body may fail to arrive. -/
structure HttpResponse where
  status : ℕ
  body : Except String Bytes

namespace HttpResponse

/-- `Response::error_for_status`, without the reason and the address. -/
def errorForStatus (answer : HttpResponse) : Except String HttpResponse :=
  if 400 ≤ answer.status ∧ answer.status < 500 then
    .error ("HTTP status client error (" ++ toString answer.status ++ ")")
  else if 500 ≤ answer.status ∧ answer.status < 600 then
    .error ("HTTP status server error (" ++ toString answer.status ++ ")")
  else .ok answer

/-- `Response::json`. -/
def json {α : Type} (parse : Bytes → Option α) (answer : HttpResponse) : Except String α := do
  match parse (← answer.body) with
  | some a => return a
  | none => throw "error decoding response body"

end HttpResponse

/-- What a command asks of its environment. -/
inductive Action
  | send (request : Request)
  /-- `Session::save`. -/
  | save (session : Session)
  /-- `Session::clear`. -/
  | clear

def Action.Answer : Action → Type
  | send _ => Except String HttpResponse
  | save _ => Except String Unit
  | clear => Except String Unit

/-- A command, or a part of it. -/
abbrev Task := ExceptT String (Program Action.Answer)

/-- `client::AuthTokenResponse`. -/
structure AuthTokenResponse where
  accessToken : String
  refreshToken : String
  userId : Uuid
  deriving DecidableEq

/-- `bucket::BucketItem`. -/
structure BucketItem where
  name : String
  creationDate : Option String
  deriving DecidableEq

/-- What is outside the code of the commands. In a `FileMetaResponse` only the fields matter
    that the command reads. -/
structure Host where
  aes256Gcm : Aes256Gcm
  blake3 : Bytes → String
  readFile : PathBuf → Option Bytes
  /-- `Path::is_dir`. -/
  isDir : PathBuf → Bool
  /-- The error of a request that cannot be built: its address is no URL, or its token no
      header value. -/
  buildError : Request → Option String
  /-- The bodies of answers. -/
  parseTokens : Bytes → Option AuthTokenResponse
  parseFiles : Bytes → Option (List FileMetaResponse)
  parseFileMeta : Bytes → Option FileMetaResponse
  parseUploadInit : Bytes → Option Uuid
  parseUploadComplete : Bytes → Option Uuid
  parseBuckets : Bytes → Option (List BucketItem)
  /-- The field `message`, when it is a text. -/
  parseMessage : Bytes → Option String
  /-- A line of `ls --long`. -/
  longLine : FileMetaResponse → String

/-- `RequestBuilder::send`: a request that cannot be built is not sent. -/
def sendRequest (host : Host) (request : Request) : Task HttpResponse :=
  match host.buildError request with
  | some e => throw e
  | none => .mk (.ask (.send request) .done)

def Session.save (session : Session) : Task Unit := .mk (.ask (.save session) .done)

def Session.clear : Task Unit := .mk (.ask .clear .done)

/-- `anyhow::Context`: the text that is shown in place of the error. -/
def withContext {α : Type} (text : String) (task : Task α) : Task α :=
  tryCatch task fun _ => throw text

/-- `client::refresh_session`. -/
def refreshSession (host : Host) (session : Session) : Task Session := do
  let answer ← withContext "failed to reach server during token refresh" <| sendRequest host
    { method := .post
      server := session.server
      path := "/api/v1/auth/refresh"
      bearer := none
      body := .refreshRequest session.refreshToken }
  let answer ← withContext "session expired — please run `fbx auth login` again" <|
    MonadExcept.ofExcept answer.errorForStatus
  let tokens ← withContext "invalid token refresh response from server" <|
    MonadExcept.ofExcept (answer.json host.parseTokens)
  let updated : Session :=
    { accessToken := tokens.accessToken
      refreshToken := tokens.refreshToken
      userId := tokens.userId
      server := session.server
      username := session.username }
  updated.save
  return updated

/-- `client::send_with_refresh`, with the session that it leaves. -/
def sendWithRefresh (host : Host) (session : Session) (build : String → Request) :
    Task (HttpResponse × Session) := do
  let answer ← sendRequest host (build session.accessToken)
  if answer.status = 401 then
    let session ← refreshSession host session
    let answer ← sendRequest host (build session.accessToken)
    return (answer, session)
  else return (answer, session)

/-! ## Tokens that stay at a server -/

section Stays

variable {host : Host} {server : String}

/-- A request with a token goes to `server`. -/
def Action.StaysAt (server : String) : Action → Prop
  | send request => request.CarriesToken → request.SentTo server
  | save _ => True
  | clear => True

theorem sends_sendRequest {request : Request}
    (h : host.buildError request = none → request.SentTo server) :
    Sends (Action.StaysAt server) (fun _ => True) (sendRequest host request) := by
  unfold sendRequest
  cases hbuild : host.buildError request with
  | some e => exact Sends.throw e
  | none => exact ⟨fun _ => h hbuild, fun _ _ _ => trivial⟩

theorem sends_save (session : Session) :
    Sends (Action.StaysAt server) (fun _ => True) session.save :=
  ⟨trivial, fun _ _ _ => trivial⟩

theorem sends_clear : Sends (Action.StaysAt server) (fun _ => True) Session.clear :=
  ⟨trivial, fun _ _ _ => trivial⟩

theorem sends_withContext {α : Type} {text : String} {task : Task α} {post : α → Prop}
    (h : Sends (Action.StaysAt server) post task) :
    Sends (Action.StaysAt server) post (withContext text task) :=
  h.tryCatch fun _ => Sends.throw text

theorem sends_refreshSession {session : Session} (h : session.server = server) :
    Sends (Action.StaysAt server) (fun session' => session'.server = server)
      (refreshSession host session) := by
  unfold refreshSession
  refine (sends_withContext (sends_sendRequest fun _ => ?_)).bind fun answer _ => ?_
  · rw [Request.sentTo_iff, h]
  refine (sends_withContext (Sends.ofExcept _ fun _ _ => trivial)).bind fun answer _ => ?_
  refine (sends_withContext (Sends.ofExcept _ fun _ _ => trivial)).bind fun tokens _ => ?_
  exact (sends_save _).bind fun _ _ => Sends.pure h

theorem sends_sendWithRefresh {session : Session} {build : String → Request}
    (hsession : session.server = server) (hbuild : ∀ token, (build token).SentTo server) :
    Sends (Action.StaysAt server) (fun result => result.2.server = server)
      (sendWithRefresh host session build) := by
  unfold sendWithRefresh
  refine (sends_sendRequest fun _ => hbuild _).bind fun answer _ => ?_
  split_ifs
  · refine (sends_refreshSession hsession).bind fun session' hsession' => ?_
    exact (sends_sendRequest fun _ => hbuild _).bind fun _ _ => Sends.pure hsession'
  · exact Sends.pure hsession

end Stays

/-! ## The first request -/

/-- `task` begins with `request`, unless that cannot be built. -/
structure Begins (host : Host) (request : Request) {α : Type} (task : Task α) : Prop where
  sends : host.buildError request = none → task.run.first = some (.send request)
  fails : ∀ e, host.buildError request = some e → task = throw e

theorem begins_sendRequest (host : Host) (request : Request) :
    Begins host request (sendRequest host request) where
  sends := by
    intro h
    unfold sendRequest
    rw [h]
    rfl
  fails := by
    intro e h
    unfold sendRequest
    rw [h]

theorem Begins.bind {host : Host} {request : Request} {α β : Type} {task : Task α}
    (h : Begins host request task) (f : α → Task β) : Begins host request (task >>= f) where
  sends := fun hbuild => first_bind (h.sends hbuild)
  fails := by
    intro e hbuild
    rw [h.fails e hbuild]
    rfl

theorem begins_sendWithRefresh (host : Host) (session : Session) (build : String → Request) :
    Begins host (build session.accessToken) (sendWithRefresh host session build) :=
  (begins_sendRequest host _).bind _

end FreeBox.Cli
