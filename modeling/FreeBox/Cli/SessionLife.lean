import Mathlib.Logic.Relation
import FreeBox.Cli.Commands
import FreeBox.Lib.ProgramLogic
import FreeBox.Server.TokenHolders

/-!
# The life of a session

`send_with_refresh` exchanges the refresh token of the session file when its access token has
expired, and writes the new one to the file. Between the exchange and the write the file holds a
token that the server has deleted.

`Env` is the environment of a command: the server, with other requests in between, the answers of
the network and the session file. It keeps track of two things that no one sees: the refresh tokens
that were ever given to this client, and whether a token was lost in an exchange: the server has
failed after it had taken the token, its answer was lost, or the file could not be written.

Results:
* `keeps_sendWithRefresh`: a request leaves the session that it returns in the file.
* `session_survives`: unless a token is lost, the file holds a session with a stored token.
-/

namespace FreeBox.Cli

open FreeBox.Lib FreeBox.Lib.Program FreeBox.Crypto FreeBox.Server
open FreeBox.Server.Auth (AccountState Held Others Exchanges refreshTokenOf accountHandlers)

/-- A client and its server. -/
structure Terminal where
  /-- The session file. -/
  file : Option Session
  server : AccountState
  /-- The refresh tokens that the client was given. -/
  own : List String
  /-- A token was taken, and its successor is not in the file. -/
  lost : Bool

/-- What `refresh_session` makes of the answer to its request. -/
def readTokens (host : Host) (answer : Except String HttpResponse) :
    Except String AuthTokenResponse := do
  let answer ← answer
  let answer ← answer.errorForStatus
  answer.json host.parseTokens

/-- The refresh token that is presented. -/
def Body.presented? : Body → Option String
  | .refreshRequest token => some token
  | _ => none

/-- The answer brings the response of the server. -/
def Brings (host : Host) (answer : HttpResponse) : Auth.Response → Prop
  | .created _ => answer.status = 201
  | .tokens pair => answer.status = 200 ∧ ∃ body, answer.body = .ok body ∧
      host.parseTokens body = some
        { accessToken := pair.accessToken
          refreshToken := pair.refreshToken
          userId := pair.userId }
  | .noContent => answer.status = 204
  | .error e => answer.status = e.statusAndTitle.1

/-- The handler is at work on an exchange of the token. -/
def exchangeOf (token : String) : Auth.Job ⊕ OAuth.Job → Prop
  | .inl (.refresh presented _) => presented = token
  | .inl (.issueTokens (.refresh presented) ..) => presented = token
  | _ => False

/-- What arrives is no response that the server gives to an exchange of the token on the way
    from `s` to `s'`. -/
def Undelivered (host : Host) (token : String) (s s' : AccountState)
    (answer : Except String HttpResponse) : Prop :=
  ∀ given, s'.answers = given ++ s.answers → ∀ x response, (x, .inl response) ∈ given →
    exchangeOf token x → ∀ a, answer = .ok a → ¬ Brings host a response

/-- The environment of a command whose sessions are at `address`. -/
inductive Env (st : Auth.AppState) (host : Host) (address : String) :
    Terminal → (a : Action) → a.Answer → Terminal → Prop
  /-- A request that does not present a refresh token, to whichever server. -/
  | other {t : Terminal} {request : Request} {answer : Except String HttpResponse}
      {as : List Auth.AccountStep} {server : AccountState}
      (hbody : request.body.presented? = none)
      (hrun : Run (accountHandlers st).step (fun _ => Others t.own) t.server as server) :
      Env st host address t (.send request) answer { t with server }
  /-- The request does not reach `refresh`. -/
  | unreached {t : Terminal} {request : Request} {answer : Except String HttpResponse}
      {as : List Auth.AccountStep} {server : AccountState}
      (hanswer : ∀ tokens, readTokens host answer ≠ .ok tokens)
      (hrun : Run (accountHandlers st).step (fun _ => Others t.own) t.server as server) :
      Env st host address t (.send request) answer { t with server }
  /-- `refresh` answers, and the answer arrives. -/
  | exchanged {t : Terminal} {request : Request} {answer : HttpResponse}
      {token : String} {draw : Uuid × Uuid} {response : Auth.Response} {server : AccountState}
      (hurl : request.url = apiUrl address "/api/v1/auth/refresh")
      (hbody : request.body.presented? = some token)
      (hrun : Exchanges st t.own token draw response t.server server)
      (hbrings : Brings host answer response) :
      Env st host address t (.send request) (.ok answer)
        { t with
          server
          own := refreshTokenOf draw :: t.own }
  /-- `refresh` takes the token and fails after that, and says so. -/
  | failed {t : Terminal} {request : Request} {answer : HttpResponse} {token username : String}
      {draw : Uuid × Uuid} {userId : Uuid} {rid pick : ℕ} {as bs : List Auth.AccountStep}
      {server₁ server₂ server : AccountState}
      (hurl : request.url = apiUrl address "/api/v1/auth/refresh")
      (hbody : request.body.presented? = some token)
      (hbefore : Run (accountHandlers st).step anyStep t.server as server₁)
      (hjob : server₁.jobs.lookup rid =
        some (.inl (.issueTokens (.refresh token) userId username draw)))
      (hfail : (accountHandlers st).step server₁ (.fail rid pick) = some server₂)
      (hafter : Run (accountHandlers st).step anyStep server₂ bs server)
      (hbrings : Brings host answer (.error .internal)) :
      Env st host address t (.send request) (.ok answer)
        { t with
          server
          lost := true }
  /-- The server may have taken the token, and what arrives is not what it has answered. -/
  | answerLost {t : Terminal} {request : Request} {answer : Except String HttpResponse}
      {token : String} {as : List Auth.AccountStep} {server : AccountState}
      (hurl : request.url = apiUrl address "/api/v1/auth/refresh")
      (hbody : request.body.presented? = some token)
      (hrun : Run (accountHandlers st).step anyStep t.server as server)
      (hanswer : ∀ tokens, readTokens host answer ≠ .ok tokens)
      (hlost : Undelivered host token t.server server answer) :
      Env st host address t (.send request) answer
        { t with
          server
          lost := true }
  | saved {t : Terminal} {session : Session} :
      Env st host address t (.save session) (.ok ()) { t with file := some session }
  /-- The new token is in memory only. -/
  | notSaved {t : Terminal} {session : Session} {e : String} :
      Env st host address t (.save session) (.error e) { t with lost := true }
  | cleared {t : Terminal} : Env st host address t .clear (.ok ()) { t with file := none }
  | notCleared {t : Terminal} {e : String} : Env st host address t .clear (.error e) t

/-- The token of `u` is at the server, and belongs to this client. -/
structure Owns (u : Uuid) (token : String) (t : Terminal) : Prop where
  own : token ∈ t.own
  held : Held u token t.server

/-- Sessions of one account. -/
structure Session.SameAccount (session session' : Session) : Prop where
  server : session'.server = session.server
  username : session'.username = session.username
  userId : session'.userId = session.userId

/-- The file holds `session`, whose refresh token the server has. -/
structure LoggedIn (session : Session) (t : Terminal) : Prop where
  file : t.file = some session
  owns : Owns session.userId session.refreshToken t

/-- The file holds `session` of the account of `first`, unless a token was lost. -/
def Keeps (first session : Session) (t : Terminal) : Prop :=
  t.lost = true ∨ first.SameAccount session ∧ LoggedIn session t

/-- The file holds a session of the account of `first`, unless a token was lost. -/
def Survives (first : Session) (t : Terminal) : Prop := ∃ session, Keeps first session t

section Life

variable {st : Auth.AppState} {host : Host} {first session : Session} {t t' : Terminal}
  {u : Uuid} {token : String}

theorem Owns.run {as : List Auth.AccountStep} {server : AccountState} (h : Owns u token t)
    (hrun : Run (accountHandlers st).step (fun _ => Others t.own) t.server as server) :
    Owns u token { t with server } where
  own := h.own
  held := h.held.run hrun h.own

theorem Keeps.run {as : List Auth.AccountStep} {server : AccountState}
    (h : Keeps first session t)
    (hrun : Run (accountHandlers st).step (fun _ => Others t.own) t.server as server) :
    Keeps first session { t with server } := by
  rcases h with hlost | ⟨hsame, hfile, howns⟩
  · exact .inl hlost
  · exact .inr ⟨hsame, hfile, howns.run hrun⟩

theorem Keeps.survives (h : Keeps first session t) : Survives first t := ⟨session, h⟩

/-! ## Requests -/

/-- A part of a command that leaves the session file alone. -/
def Quiet (st : Auth.AppState) (host : Host) (first session : Session) {α : Type}
    (task : Task α) : Prop :=
  TripleE (Env st host first.server) (Keeps first session) task (fun _ => Keeps first session)
    (Keeps first session)

section Quiet

variable {α β : Type} {task : Task α}

theorem quiet_pure {a : α} : Quiet st host first session (pure a) := .pure fun _ h => h

theorem quiet_ofExcept (r : Except String α) :
    Quiet st host first session (MonadExcept.ofExcept r) :=
  .ofExcept (fun _ _ _ h => h) fun _ _ _ h => h

theorem Quiet.bind {f : α → Task β} (h : Quiet st host first session task)
    (hf : ∀ a, Quiet st host first session (f a)) : Quiet st host first session (task >>= f) :=
  TripleE.bind h hf

/-- A quiet part before one that may exchange the token. -/
theorem Quiet.andThen {f : α → Task β} {post : β → Terminal → Prop}
    (h : Quiet st host first session task)
    (hf : ∀ a, TripleE (Env st host first.server) (Keeps first session) (f a) post
      (Survives first)) :
    TripleE (Env st host first.server) (Keeps first session) (task >>= f) post
      (Survives first) :=
  TripleE.bind (TripleE.mono h (fun _ h => h) (fun _ _ h => h) fun _ h => h.survives) hf

theorem quiet_sendRequest {request : Request} (hbody : request.body.presented? = none) :
    Quiet st host first session (sendRequest host request) := by
  unfold sendRequest
  cases host.buildError request with
  | some e => exact .throw fun _ h => h
  | none =>
    refine Triple.ask (fun _ => Keeps first session) (fun t answer t' h henv => ?_) fun answer => ?_
    · cases henv with
      | other _ hrun => exact h.run hrun
      | unreached _ hrun => exact h.run hrun
      | exchanged _ hrefresh =>
        rw [hbody] at hrefresh
        cases hrefresh
      | failed _ hrefresh =>
        rw [hbody] at hrefresh
        cases hrefresh
      | answerLost _ hrefresh =>
        rw [hbody] at hrefresh
        cases hrefresh
    · cases answer with
      | ok a => exact .done fun _ h => h
      | error e => exact .done fun _ h => h

end Quiet

/-! ## An exchange -/

theorem readTokens_ok {answer answer' : HttpResponse} (h : answer.errorForStatus = .ok answer') :
    readTokens host (.ok answer) = answer'.json host.parseTokens := by
  show (answer.errorForStatus >>= fun a => a.json host.parseTokens) = _
  rw [h]
  rfl

theorem readTokens_of_error {answer : HttpResponse} {e : String}
    (h : answer.errorForStatus = .error e) : readTokens host (.ok answer) = .error e := by
  show (answer.errorForStatus >>= fun a => a.json host.parseTokens) = _
  rw [h]
  rfl

theorem readTokens_tokens {answer : HttpResponse} {pair : OAuth.AuthResponse}
    (h : Brings host answer (.tokens pair)) :
    readTokens host (.ok answer) = .ok
      { accessToken := pair.accessToken
        refreshToken := pair.refreshToken
        userId := pair.userId } := by
  obtain ⟨hstatus, body, hbody, hparse⟩ := h
  have hok : answer.errorForStatus = .ok answer := by
    unfold HttpResponse.errorForStatus
    rw [hstatus]
    rfl
  rw [readTokens_ok hok]
  simp only [HttpResponse.json, hbody, Bind.bind, Except.bind, hparse]
  rfl

theorem status_error (e : AppError) :
    400 ≤ e.statusAndTitle.1 ∧ e.statusAndTitle.1 < 600 := by
  cases e <;> exact ⟨by simp [AppError.statusAndTitle], by simp [AppError.statusAndTitle]⟩

theorem readTokens_error {answer : HttpResponse} {e : AppError}
    (h : Brings host answer (.error e)) : ∃ text, readTokens host (.ok answer) = .error text := by
  have hstatus : answer.status = e.statusAndTitle.1 := h
  have hrange := status_error e
  have herror : ∃ text, answer.errorForStatus = .error text := by
    unfold HttpResponse.errorForStatus
    by_cases hclient : 400 ≤ answer.status ∧ answer.status < 500
    · rw [if_pos hclient]
      exact ⟨_, rfl⟩
    · rw [if_neg hclient, if_pos (by omega)]
      exact ⟨_, rfl⟩
  obtain ⟨text, htext⟩ := herror
  exact ⟨text, readTokens_of_error htext⟩

/-- What the client has when it has read the answer to its exchange. -/
def Arrived (first session : Session) (t : Terminal) : Except String AuthTokenResponse → Prop
  | .ok tokens => t.lost = true ∨ first.SameAccount session ∧ tokens.userId = session.userId ∧
      Owns session.userId tokens.refreshToken t
  | .error _ => Keeps first session t

theorem arrived_of_not_read {r : Except String AuthTokenResponse} (h : Keeps first session t)
    (hr : ∀ tokens, r ≠ .ok tokens) : Arrived first session t r := by
  cases r with
  | ok tokens => exact absurd rfl (hr tokens)
  | error e => exact h

/-- The answer to the request of `refresh_session`. -/
theorem arrived_of_env {request : Request} {answer : Except String HttpResponse}
    (hencode : ∀ claims, st.encode claims ≠ none)
    (hbody : request.body.presented? = some session.refreshToken) (h : Keeps first session t)
    (henv : Env st host first.server t (.send request) answer t') :
    Arrived first session t' (readTokens host answer) := by
  cases henv with
  | other hother =>
    rw [hbody] at hother
    cases hother
  | unreached hanswer hrun => exact arrived_of_not_read (h.run hrun) hanswer
  | answerLost _ _ _ hanswer => exact arrived_of_not_read (.inl rfl) hanswer
  | failed _ _ _ _ _ _ hbrings =>
    obtain ⟨text, htext⟩ := readTokens_error hbrings
    rw [htext]
    exact .inl rfl
  | exchanged _ hrefresh hrun hbrings =>
    rw [hbody] at hrefresh
    cases hrefresh
    rcases h with hlost | ⟨hsame, hfile, hown, hheld⟩
    · cases readTokens host _ with
      | ok tokens => exact .inl hlost
      | error e => exact .inl hlost
    · cases hrun.exchanged hencode hheld hown with
      | issued hpair huser held =>
        rw [readTokens_tokens hbrings]
        exact .inr ⟨hsame, huser, by rw [hpair]; exact List.mem_cons_self, held⟩
      | refused held =>
        obtain ⟨text, htext⟩ := readTokens_error hbrings
        rw [htext]
        exact .inr ⟨hsame, hfile, List.mem_cons_of_mem _ hown, held⟩

/-- `send` in `refresh_session`. -/
theorem arrives_sendRequest {request : Request} (hencode : ∀ claims, st.encode claims ≠ none)
    (hbody : request.body.presented? = some session.refreshToken) :
    TripleE (Env st host first.server) (Keeps first session) (sendRequest host request)
      (fun answer t => Arrived first session t (readTokens host (.ok answer)))
      (Survives first) := by
  unfold sendRequest
  cases host.buildError request with
  | some e => exact .throw fun _ h => h.survives
  | none =>
    refine Triple.ask (fun answer t => Arrived first session t (readTokens host answer))
      (fun t answer t' h henv => arrived_of_env hencode hbody h henv) fun answer => ?_
    cases answer with
    | ok answer => exact .done fun _ h => h
    | error e => exact .done fun _ h => Keeps.survives h

theorem triple_withContext {α : Type} {pre err : Terminal → Prop} {post : α → Terminal → Prop}
    {env : Terminal → (a : Action) → a.Answer → Terminal → Prop} {text : String} {task : Task α}
    (h : TripleE env pre task post err) : TripleE env pre (withContext text task) post err :=
  h.tryCatch fun _ => .throw fun _ herr => herr

/-- The session that `refresh_session` writes. -/
def Session.updated (session : Session) (tokens : AuthTokenResponse) : Session :=
  { accessToken := tokens.accessToken
    refreshToken := tokens.refreshToken
    userId := tokens.userId
    server := session.server
    username := session.username }

theorem keeps_save {tokens : AuthTokenResponse} :
    TripleE (Env st host first.server) (fun t => Arrived first session t (.ok tokens))
      (session.updated tokens).save (fun _ => Keeps first (session.updated tokens))
      (Survives first) := by
  refine Triple.ask (fun (answer : Except String Unit) t =>
    Outcome (fun _ => Keeps first (session.updated tokens)) (Survives first) answer t)
    (fun t answer t' h henv => ?_) fun _ => .done fun _ h => h
  cases henv with
  | notSaved => exact ⟨session, .inl rfl⟩
  | saved =>
    rcases h with hlost | ⟨hsame, huser, hown, hheld⟩
    · exact .inl hlost
    · have hsame' : first.SameAccount (session.updated tokens) :=
        ⟨hsame.server, hsame.username, huser.trans hsame.userId⟩
      have hheld' : Held tokens.userId tokens.refreshToken _ := huser ▸ hheld
      exact .inr ⟨hsame', rfl, hown, hheld'⟩

theorem arrives_errorForStatus {text : String} (answer : HttpResponse) :
    TripleE (Env st host first.server)
      (fun t => Arrived first session t (readTokens host (.ok answer)))
      (withContext text (MonadExcept.ofExcept answer.errorForStatus))
      (fun answer t => Arrived first session t (answer.json host.parseTokens))
      (Survives first) := by
  refine triple_withContext (.ofExcept ?_ ?_)
  · intro answer' hok t h
    rwa [readTokens_ok hok] at h
  · intro e herror t h
    rw [readTokens_of_error herror] at h
    exact Keeps.survives h

theorem arrives_json {text : String} (answer : HttpResponse) :
    TripleE (Env st host first.server)
      (fun t => Arrived first session t (answer.json host.parseTokens))
      (withContext text (MonadExcept.ofExcept (answer.json host.parseTokens)))
      (fun tokens t => Arrived first session t (.ok tokens)) (Survives first) := by
  refine triple_withContext (.ofExcept ?_ ?_)
  · intro tokens htokens t h
    rwa [htokens] at h
  · intro e herror t h
    rw [herror] at h
    exact Keeps.survives h

theorem keeps_refreshSession (hencode : ∀ claims, st.encode claims ≠ none) :
    TripleE (Env st host first.server) (Keeps first session) (refreshSession host session)
      (fun session' => Keeps first session') (Survives first) := by
  unfold refreshSession
  refine (triple_withContext (arrives_sendRequest hencode rfl)).bind fun answer => ?_
  refine (arrives_errorForStatus answer).bind fun answer => ?_
  refine (arrives_json answer).bind fun tokens => ?_
  exact keeps_save.bind fun _ => .pure fun _ h => h

/-- A request leaves the session that it returns in the file. -/
theorem keeps_sendWithRefresh {build : String → Request}
    (hencode : ∀ claims, st.encode claims ≠ none)
    (hbody : ∀ accessToken, (build accessToken).body.presented? = none) :
    TripleE (Env st host first.server) (Keeps first session) (sendWithRefresh host session build)
      (fun result => Keeps first result.2) (Survives first) := by
  unfold sendWithRefresh
  refine (quiet_sendRequest (hbody _)).andThen fun answer => ?_
  split_ifs
  · refine (keeps_refreshSession hencode).bind fun session' => ?_
    exact (quiet_sendRequest (hbody _)).andThen fun _ => .pure fun _ h => h
  · exact .pure fun _ h => h

/-! ## Commands -/

section Commands

variable {server : String}

/-- A part of a command that may exchange the token, and after which the file holds a session of
    the account. -/
abbrev Lasting (st : Auth.AppState) (host : Host) (first session : Session) {α : Type}
    (task : Task α) : Prop :=
  TripleE (Env st host first.server) (Keeps first session) task (fun _ => Survives first)
    (Survives first)

theorem keeps_plainRequest (hencode : ∀ claims, st.encode claims ≠ none) (method : Method)
    (path : String) :
    TripleE (Env st host first.server) (Keeps first session)
      (sendWithRefresh host session (plainRequest method server path))
      (fun result => Keeps first result.2) (Survives first) :=
  keeps_sendWithRefresh hencode fun _ => rfl

/-- All chunks are sent, also after one that has failed. -/
theorem quiet_putAll (uploadId : Uuid) (chunks : List ChunkCiphertext) :
    Quiet st host first session (putAll host server session uploadId chunks) := by
  have hput : ∀ chunk ∈ chunks, Triple (Env st host first.server) (Keeps first session)
      (putChunk host server session uploadId chunk).run fun _ => Keeps first session := by
    intro chunk _
    have hquiet : Quiet st host first session (putChunk host server session uploadId chunk) :=
      (quiet_sendRequest rfl).bind fun answer => (quiet_ofExcept _).bind fun _ => quiet_pure
    refine Triple.mono hquiet (fun _ h => h) fun r t h => ?_
    cases r with
    | ok => exact h
    | error => exact h
  refine Triple.bind (Triple.mapM hput) fun results => .done fun t h => ?_
  cases results.forM id with
  | ok => exact h
  | error => exact h

theorem quiet_sendFile (destination : String) (file : PathBuf × FileKey) :
    Quiet st host first session (sendFile host server session destination file) := by
  unfold sendFile
  refine (quiet_ofExcept _).bind fun prepared => ?_
  refine (quiet_sendRequest rfl).bind fun answer => ?_
  refine (quiet_ofExcept _).bind fun answer => ?_
  refine (quiet_ofExcept _).bind fun uploadId => ?_
  refine (quiet_putAll uploadId _).bind fun _ => ?_
  refine (quiet_sendRequest rfl).bind fun answer => ?_
  refine (quiet_ofExcept _).bind fun answer => ?_
  exact (quiet_ofExcept _).bind fun _ => quiet_pure

theorem quiet_uploadRun (files : List (PathBuf × FileKey)) (destination : String)
    (parallelism : UInt8) :
    Quiet st host first session
      (uploadRun host files destination parallelism server (.ok session)) := by
  have hfiles : ∀ server', Quiet st host first session
      (sendFiles host files destination parallelism server' session) := by
    intro server'
    unfold sendFiles
    split_ifs
    · exact .throw fun _ h => h
    · exact .mapM fun file _ => quiet_sendFile destination file
  exact TripleE.of_ok ((hfiles _).bind fun _ => quiet_pure)

theorem lasting_getChunks (hencode : ∀ claims, st.encode claims ≠ none) (fileId : Uuid)
    (indices : List ℕ) (session : Session) :
    Lasting st host first session (getChunks host server fileId indices session) := by
  induction indices generalizing session with
  | nil => exact .pure fun _ h => h.survives
  | cons chunkIndex indices ih =>
    unfold getChunks
    refine (keeps_plainRequest hencode _ _).bind fun result => ?_
    refine (quiet_ofExcept _).andThen fun answer => ?_
    refine (quiet_ofExcept _).andThen fun body => ?_
    cases ChunkCiphertext.fromSlice body with
    | none => exact .throw fun _ h => h.survives
    | some chunk => exact (ih _).bind fun _ => .pure fun _ h => h

theorem survives_ofExcept {α : Type} (r : Except String α) :
    TripleE (Env st host first.server) (Survives first) (MonadExcept.ofExcept r : Task α)
      (fun _ => Survives first) (Survives first) :=
  .ofExcept (fun _ _ _ h => h) fun _ _ _ h => h

theorem lasting_getFile (hencode : ∀ claims, st.encode claims ≠ none) (fileId : Uuid)
    (output : Option PathBuf) :
    Lasting st host first session (getFile host fileId output server session) := by
  unfold getFile
  refine (keeps_plainRequest hencode _ _).bind fun result => ?_
  refine (quiet_ofExcept _).andThen fun answer => ?_
  refine (quiet_ofExcept _).andThen fun fileMeta => ?_
  refine (quiet_ofExcept _).andThen fun key => ?_
  refine (lasting_getChunks hencode fileId _ _).bind fun chunks => ?_
  refine (survives_ofExcept _).bind fun plaintext => ?_
  exact (survives_ofExcept _).bind fun _ => .pure fun _ h => h

theorem keeps_remoteId (hencode : ∀ claims, st.encode claims ≠ none) (remote : String) :
    TripleE (Env st host first.server) (Keeps first session) (remoteId host remote server session)
      (fun result => Keeps first result.2) (Survives first) := by
  unfold remoteId
  cases Uuid.parseStr remote.toList with
  | some fileId => exact .pure fun _ h => h
  | none =>
    unfold requestName
    refine (keeps_plainRequest hencode _ _).bind fun result => ?_
    refine (quiet_ofExcept _).andThen fun answer => ?_
    refine (quiet_ofExcept _).andThen fun files => ?_
    exact (quiet_ofExcept _).andThen fun _ => .pure fun _ h => h

theorem lasting_downloadRun (hencode : ∀ claims, st.encode claims ≠ none) (remote : String)
    (output : Option PathBuf) :
    Lasting st host first session (downloadRun host remote output server (.ok session)) := by
  refine TripleE.of_ok ((keeps_remoteId hencode remote).bind fun result => ?_)
  exact (lasting_getFile hencode result.1 output).bind fun _ => .pure fun _ h => h

theorem lasting_listCommand (hencode : ∀ claims, st.encode claims ≠ none) (path : String)
    (long : Bool) :
    Lasting st host first session (listCommand host path long server (.ok session)) := by
  refine TripleE.of_ok ((keeps_plainRequest hencode _ _).bind fun result => ?_)
  refine (quiet_ofExcept _).andThen fun answer => ?_
  exact (quiet_ofExcept _).andThen fun _ => .pure fun _ h => h.survives

theorem lasting_removeRun (hencode : ∀ claims, st.encode claims ≠ none) (remote : String)
    (permanent : Bool) :
    Lasting st host first session (removeRun host remote permanent server (.ok session)) := by
  unfold removeRun
  split_ifs
  · exact .throw fun _ h => h.survives
  cases Uuid.parseStr remote.toList with
  | none => exact .throw fun _ h => h.survives
  | some fileId =>
    refine TripleE.of_ok ((keeps_plainRequest hencode _ _).bind fun result => ?_)
    exact (quiet_ofExcept _).andThen fun _ => .pure fun _ h => h.survives

theorem lasting_bucketHandle (hencode : ∀ claims, st.encode claims ≠ none) (cmd : BucketCommand) :
    Lasting st host first session (bucketHandle host cmd server (.ok session)) := by
  cases cmd with
  | list =>
    refine TripleE.of_ok ((keeps_plainRequest hencode _ _).bind fun result => ?_)
    refine (quiet_ofExcept _).andThen fun answer => ?_
    refine (quiet_ofExcept _).andThen fun buckets => ?_
    split_ifs <;> exact .pure fun _ h => h.survives
  | create name =>
    refine TripleE.of_ok ((keeps_sendWithRefresh hencode fun _ => rfl).bind fun result => ?_)
    obtain ⟨answer, session'⟩ := result
    dsimp only
    split_ifs
    · exact .pure fun _ h => h.survives
    · exact .throw fun _ h => h.survives

theorem lasting_main {cli : CommandLine} (hcommand : cli.command ≠ .logout)
    (hencode : ∀ claims, st.encode claims ≠ none) (configFile : Option CliConfig) :
    Lasting st host first session (main host cli configFile (.ok session)) := by
  obtain ⟨serverFlag, serverEnv, command⟩ := cli
  cases command with
  | upload files destination parallelism =>
    exact TripleE.mono (quiet_uploadRun files destination parallelism) (fun _ h => h)
      (fun _ _ h => h.survives) fun _ h => h.survives
  | download remote output => exact lasting_downloadRun hencode remote output
  | list path long => exact lasting_listCommand hencode path long
  | remove remote permanent => exact lasting_removeRun hencode remote permanent
  | bucket cmd => exact lasting_bucketHandle hencode cmd
  | logout => exact absurd rfl hcommand

end Commands

/-! ## Many commands -/

/-- `Session::load`, with the text of its error. -/
def Session.load (file : Option Session) (e : String) : Except String Session :=
  match file with
  | some session => .ok session
  | none => .error e

/-- What happens to the client: requests of others, or one of its commands other than `logout`. -/
inductive Turn (st : Auth.AppState) (host : Host) (address : String) (t : Terminal) :
    Terminal → Prop
  | idle {as : List Auth.AccountStep} {server : AccountState}
      (hrun : Run (accountHandlers st).step (fun _ => Others t.own) t.server as server) :
      Turn st host address t { t with server }
  | command {cli : CommandLine} {configFile : Option CliConfig} {e : String} {t' : Terminal}
      {result : Except String Output} (hcommand : cli.command ≠ .logout)
      (hrun : Runs (Env st host address) t
        (main host cli configFile (Session.load t.file e)).run t' result) :
      Turn st host address t t'

theorem lost_env {address : String} {a : Action} {answer : a.Answer}
    (henv : Env st host address t a answer t') (hlost : t.lost = true) : t'.lost = true := by
  cases henv with
  | failed | answerLost | notSaved => rfl
  | _ => exact hlost

theorem lost_runs {address : String} {α : Type} {prog : Program Action.Answer α} {a : α}
    (hrun : Runs (Env st host address) t prog t' a) (hlost : t.lost = true) :
    t'.lost = true := by
  induction hrun with
  | done => exact hlost
  | ask henv _ ih => exact ih (lost_env henv hlost)

theorem Turn.survives (hencode : ∀ claims, st.encode claims ≠ none) (h : Survives first t)
    (hturn : Turn st host first.server t t') : Survives first t' := by
  obtain ⟨session, h⟩ := h
  cases hturn with
  | idle hrun => exact (h.run hrun).survives
  | @command _ configFile _ _ result hcommand hrun =>
    by_cases hlost : t.lost = true
    · exact ⟨session, .inl (lost_runs hrun hlost)⟩
    obtain ⟨hsame, hlogged⟩ := h.resolve_left hlost
    rw [hlogged.file] at hrun
    have hend := lasting_main hcommand hencode configFile t t' result (.inr ⟨hsame, hlogged⟩) hrun
    cases result with
    | ok => exact hend
    | error => exact hend

/-- Commands leave the client logged in: through any number of them, with the requests of others
    in between, the session file holds a session of the same account, whose refresh token the
    server has for its user, unless the server has failed after it had taken a token, or the
    answer to an exchange or a write of the file is lost. -/
theorem session_survives (hencode : ∀ claims, st.encode claims ≠ none) (h : LoggedIn session t)
    (hturns : Relation.ReflTransGen (Turn st host session.server) t t') :
    t'.lost = true ∨ ∃ session', session.SameAccount session' ∧ LoggedIn session' t' := by
  have hstart : Survives session t := ⟨session, .inr ⟨⟨rfl, rfl, rfl⟩, h⟩⟩
  have hend : Survives session t' := by
    induction hturns with
    | refl => exact hstart
    | tail _ hturn ih => exact Turn.survives hencode ih hturn
  obtain ⟨session', hlost | hkept⟩ := hend
  · exact .inl hlost
  · exact .inr ⟨session', hkept⟩

end Life

/-! ## A run -/

/-- The tokens of the exchange. -/
def runTokens : AuthTokenResponse where
  accessToken := toString (⟨1⟩ : Uuid)
  refreshToken := refreshTokenOf (⟨20⟩, ⟨20⟩)
  userId := ⟨1⟩

/-- A machine that reads `runTokens`, and a listing without files, from every body. -/
def runReader : Host :=
  { runHost with
    parseTokens := fun _ => some runTokens
    parseFiles := fun _ => some [] }

/-- The client of a user who has logged in. -/
def runTerminal : Terminal where
  file := some { runSession with refreshToken := Auth.runToken }
  server := Sys.idle Auth.loggedInWorld
  own := [Auth.runToken]
  lost := false

/-- The server after the step. -/
def runStep (s : AccountState) (a : Auth.AccountStep) : AccountState :=
  ((accountHandlers Auth.accountServer).step s a).getD s

theorem runStep_eq {s : AccountState} {a : Auth.AccountStep}
    (h : ((accountHandlers Auth.accountServer).step s a).isSome = true) :
    (accountHandlers Auth.accountServer).step s a = some (runStep s a) := by
  obtain ⟨t, ht⟩ := Option.isSome_iff_exists.mp h
  rw [runStep, ht]
  rfl

/-- The server of `runTerminal` after the request and each call of the exchange. -/
def runArrived : AccountState :=
  runStep runTerminal.server (.arrive 1 (.inl (.refresh Auth.runToken (⟨20⟩, ⟨20⟩))))

def runTaken : AccountState := runStep runArrived (.advance 1 0)

def runIssued : AccountState := runStep runTaken (.advance 1 0)

/-- What `refresh` answers. -/
def runResponse : Auth.Response :=
  .tokens
    { accessToken := runTokens.accessToken
      refreshToken := runTokens.refreshToken
      userId := runTokens.userId }

theorem exchanges_run : Exchanges Auth.accountServer [Auth.runToken] Auth.runToken (⟨20⟩, ⟨20⟩)
    runResponse runTerminal.server runIssued := by
  have harrive : (accountHandlers Auth.accountServer).step runTerminal.server
      (.arrive 1 (.inl (.refresh Auth.runToken (⟨20⟩, ⟨20⟩)))) = some runArrived :=
    runStep_eq (by decide +kernel)
  have htake : (accountHandlers Auth.accountServer).step runArrived (.advance 1 0) =
      some runTaken := runStep_eq (by decide +kernel)
  have hissue : (accountHandlers Auth.accountServer).step runTaken (.advance 1 0) =
      some runIssued := runStep_eq (by decide +kernel)
  have hnew : Auth.NewDraw (⟨20⟩, ⟨20⟩) runTerminal.server :=
    { free := by decide +kernel
      undrawn := fun _ _ h => by cases h
      unknown := fun _ _ h => by cases h }
  have hanswer : runIssued.answers =
      (.inl (.issueTokens (.refresh Auth.runToken) ⟨1⟩ "alice" (⟨20⟩, ⟨20⟩)),
        .inl runResponse) :: runTaken.answers := rfl
  have hothers : Others [refreshTokenOf (⟨20⟩, ⟨20⟩), Auth.runToken] (.advance 1 0) := by
    intro rid x h
    cases h
  refine .intro .nil hnew harrive (.snoc .nil ⟨hothers, fun t ht => ?_⟩ htake) hissue .answered
    hanswer .nil
  rw [htake] at ht
  obtain rfl := Option.some.inj ht
  decide +kernel

/-- The client after the exchange. -/
def runRenewed : Terminal where
  file := some
    { runSession with
      accessToken := runTokens.accessToken
      refreshToken := runTokens.refreshToken }
  server := runIssued
  own := [runTokens.refreshToken, Auth.runToken]
  lost := false

/-- `ls` with an access token that has expired. -/
def runList : CommandLine where
  serverFlag := none
  serverEnv := none
  command := .list "/" false

theorem runs_list : Runs (Env Auth.accountServer runReader runSession.server) runTerminal
    (main runReader runList none
      (.ok { runSession with refreshToken := Auth.runToken })).run runRenewed
    (.ok (.print (listLines runReader "/" false []))) := by
  have hlist : ∀ (t : Terminal) (request : Request) (status : ℕ),
      request.body = .empty → Env Auth.accountServer runReader runSession.server t
        (.send request) (.ok { status, body := .ok [] }) t :=
    fun t request status hbody => .other (by rw [hbody]; rfl) .nil
  have hbrings : Brings runReader { status := 200, body := .ok [] } runResponse :=
    ⟨rfl, [], rfl, rfl⟩
  refine .ask (hlist runTerminal _ 401 rfl) ?_
  refine .ask (.exchanged rfl rfl exchanges_run hbrings) ?_
  refine .ask .saved ?_
  exact .ask (hlist runRenewed _ 200 rfl) .done

/-- `ls` with an access token that has expired, and the session that it leaves. -/
theorem session_survives_run : ∃ session',
    ({ runSession with refreshToken := Auth.runToken } : Session).SameAccount session' ∧
      LoggedIn session' runRenewed := by
  have hlogged : LoggedIn { runSession with refreshToken := Auth.runToken } runTerminal :=
    { file := rfl
      owns :=
        { own := List.mem_cons_self
          held :=
            { user := by decide +kernel
              row := ⟨{ userId := ⟨1⟩, username := "alice", expiresAt := 1, createdAt := 0 },
                by decide +kernel, rfl⟩
              unpresented := fun _ _ h => by cases h } } }
  have hturn : Turn Auth.accountServer runReader runSession.server runTerminal runRenewed :=
    @Turn.command _ _ _ _ runList none "" _ _ nofun runs_list
  exact (@session_survives Auth.accountServer runReader _ _ _ nofun hlogged
    (.single hturn)).resolve_left nofun

end FreeBox.Cli
