import FreeBox.Server.AccountTokens

/-!
# Sessions of the web client

Model of `apps/web/src/lib/api/client.ts`: the tokens in `localStorage`, `doRefresh` and the
two interceptors, for any number of tabs that share `localStorage`, against the handlers of
the account server. JavaScript gives up control only at an `await`, so a step is what happens
in one tab between two of them; the callbacks of a promise that has settled run in any order.

`jwtExp` is a parameter. Fields that are not in the code: `presented` of a failure, `seen` and
`lost`.

Results:
* `Inv.doRefresh`: a refresh that is rejected has presented a token that is no longer valid.
* `Inv.step`: the step lemma.
* `lost_eq_nil`: under which condition no valid refresh token is thrown away.
-/

namespace FreeBox.Web.Client

open FreeBox.Lib FreeBox.Server
open FreeBox.Server.Auth (AccountState AccountStep AppState accountHandlers refreshTokenOf Valid
  Secret NewToken drawn answered draw? answerToken?)

/-! ## A tab -/

/-- The promise of a refresh. -/
inductive Refresh
  /-- `POST /api/v1/auth/refresh` is on its way. -/
  | sent (presented : String)
  /-- The server has received it, and draws `token` for it. -/
  | received (presented : String) (token : Uuid × Uuid)
  | fulfilled
  /-- It has failed; `none` when there was no token to present. `noted` when its `catch` has
      run. -/
  | rejected (presented : Option String) (noted : Bool)
  deriving DecidableEq

/-- What the interceptors read of a request, and write to it. -/
structure Config where
  url : String
  retry : Bool
  deriving DecidableEq

/-- Where a request is. -/
inductive HttpRequest
  /-- The request interceptor waits for a refresh. -/
  | beforeSend (promise : ℕ) (config : Config)
  | sent (config : Config)
  /-- The response interceptor waits for a refresh. -/
  | afterAnswer (promise : ℕ) (config : Config)
  /-- The response interceptor is in its `catch`, after a refresh that presented the token. -/
  | catching (presented : Option String)
  | ended
  deriving DecidableEq

/-- `refreshFailedAt`, with the token that was presented. -/
structure Failure where
  time : ℤ
  presented : Option String
  deriving DecidableEq

/-- The module state of a tab. Promises and requests are numbered. -/
structure Tab where
  refreshing : Option ℕ
  refreshFailedAt : Option Failure
  promises : List Refresh
  requests : List HttpRequest

/-- A tab that was just loaded. -/
def Tab.loaded : Tab where
  refreshing := none
  refreshFailedAt := none
  promises := []
  requests := []

/-- `AUTH_ROUTES`. -/
def authRoutes : List String :=
  ["/api/v1/auth/login", "/api/v1/auth/register", "/api/v1/auth/refresh"]

def Config.isAuthRoute (config : Config) : Bool :=
  authRoutes.any fun route => decide (route.toList <:+: config.url.toList)

/-- `REFRESH_CIRCUIT_BREAK_MS`. -/
def refreshCircuitBreakMs : ℤ := 10000

/-- The failure for which the circuit breaker is open. -/
def Tab.openBreaker (tab : Tab) (now : ℤ) : Option Failure :=
  tab.refreshFailedAt.filter fun failure => now - failure.time < refreshCircuitBreakMs

/-! ## `localStorage` -/

/-- The tabs of a browser, its `localStorage` and its clock, and the server. -/
structure Session where
  now : ℤ
  accessToken : Option String
  refreshToken : Option String
  tabs : ℕ → Tab
  server : AccountState
  /-- The refresh tokens that have been in `localStorage`. -/
  seen : List String
  /-- The refresh tokens that `clearTokens` has removed, outside `logout`, while they were
      valid. -/
  lost : List String

/-- The value is there and not empty. -/
def present (value : Option String) : Option String := value.filter fun text => text ≠ ""

namespace Session

/-- The tabs of a browser before anyone has signed in. -/
def start (w : KeyServer.World) : Session where
  now := 0
  accessToken := none
  refreshToken := none
  tabs _ := .loaded
  server := Sys.idle w
  seen := []
  lost := []

def setTab (s : Session) (k : ℕ) (tab : Tab) : Session :=
  { s with tabs := Function.update s.tabs k tab }

def setRequest (s : Session) (k r : ℕ) (request : HttpRequest) : Session :=
  s.setTab k { s.tabs k with requests := (s.tabs k).requests.set r request }

def setPromise (s : Session) (k p : ℕ) (promise : Refresh) : Session :=
  s.setTab k { s.tabs k with promises := (s.tabs k).promises.set p promise }

def saveTokens (s : Session) (accessToken refreshToken : String) : Session :=
  { s with
    accessToken := some accessToken
    refreshToken := some refreshToken
    seen := refreshToken :: s.seen }

def clearTokens (s : Session) : Session := { s with accessToken := none, refreshToken := none }

/-- The refresh token in `localStorage`, if the server takes it. -/
def validToken (s : Session) : Option String :=
  (present s.refreshToken).filter fun token =>
    (s.server.world.db.takeToken token s.server.world.now).isSome

/-- `clearTokens` before the error `Session expired`. -/
def expire (s : Session) : Session :=
  { s.clearTokens with lost := s.validToken.toList ++ s.lost }

/-! ## `doRefresh` and the interceptors -/

/-- What `doRefresh` returns. -/
inductive Awaited
  | rejected (presented : Option String)
  | promise (p : ℕ)

/-- A new promise in the tab. -/
def addPromise (s : Session) (k : ℕ) (promise : Refresh) : Session :=
  s.setTab k { s.tabs k with
    refreshing := some (s.tabs k).promises.length
    promises := (s.tabs k).promises ++ [promise] }

/-- `doRefresh` in the tab `k`. -/
def doRefresh (s : Session) (k : ℕ) : Session × Awaited :=
  match (s.tabs k).openBreaker s.now with
  | some failure => (s, .rejected failure.presented)
  | none =>
    match (s.tabs k).refreshing with
    | some p => (s, .promise p)
    | none =>
      let p := (s.tabs k).promises.length
      match present s.refreshToken with
      | none => (s.expire.addPromise k (.rejected none false), .promise p)
      | some token => (s.addPromise k (.sent token), .promise p)

variable (jwtExp : String → Option ℚ)

/-- The token is expired or expires in less than a minute. -/
def expiring (s : Session) (token : String) : Bool :=
  match jwtExp token with
  | none => false
  | some exp => exp * 1000 < s.now + 60000

/-- The request interceptor, until it waits or the request is sent. -/
def onRequest (s : Session) (k r : ℕ) (config : Config) : Session :=
  match present s.accessToken with
  | none => s.setRequest k r (.sent config)
  | some token =>
    if !config.isAuthRoute && s.expiring jwtExp token then
      match s.doRefresh k with
      | (s, .rejected _) => s.setRequest k r (.sent config)
      | (s, .promise p) => s.setRequest k r (.beforeSend p config)
    else s.setRequest k r (.sent config)

/-- The response interceptor for an answer with this status, or for none. -/
def onAnswer (s : Session) (k r : ℕ) (config : Config) (status : Option ℕ) : Session :=
  if status = some 401 ∧ config.retry = false ∧ config.isAuthRoute = false then
    match s.doRefresh k with
    | (s, .rejected presented) => s.setRequest k r (.catching presented)
    | (s, .promise p) => s.setRequest k r (.afterAnswer p { config with retry := true })
  else s.setRequest k r .ended

/-- The request goes on after the promise that it waits for has settled. -/
def onSettled (s : Session) (k r : ℕ) : HttpRequest → Option Session
  | .beforeSend p config =>
    match (s.tabs k).promises[p]? with
    | some .fulfilled | some (.rejected _ _) => some (s.setRequest k r (.sent config))
    | _ => none
  | .afterAnswer p config =>
    match (s.tabs k).promises[p]? with
    | some .fulfilled => some (s.onRequest jwtExp k r config)
    | some (.rejected presented _) => some (s.setRequest k r (.catching presented))
    | _ => none
  | _ => none

/-! ## Steps -/

/-- The server answers the refresh with this response. -/
def refreshAnswer (s : Session) (presented : String) (token : Uuid × Uuid) :
    Option (Auth.Response ⊕ OAuth.Response) :=
  (s.server.answers.find? fun x =>
    match x.1 with
    | .inl (.refresh presented' token') => presented' = presented ∧ token' = token
    | .inl (.issueTokens (.refresh presented') _ _ token') =>
      presented' = presented ∧ token' = token
    | _ => false).map Prod.snd

/-- The refresh `p` has failed. -/
def rejectRefresh (s : Session) (k p : ℕ) (presented : String) : Session :=
  s.setPromise k p (.rejected (some presented) false)

/-- The refresh `p` has succeeded. -/
def fulfilRefresh (s : Session) (k p : ℕ) (pair : OAuth.AuthResponse) : Session :=
  let s := s.saveTokens pair.accessToken pair.refreshToken
  s.setTab k { s.tabs k with
    refreshFailedAt := none
    promises := (s.tabs k).promises.set p .fulfilled }

/-- The answer to the refresh `p`. -/
def onRefreshAnswer (s : Session) (k p : ℕ) (presented : String) :
    Auth.Response ⊕ OAuth.Response → Session
  | .inl (.tokens pair) => s.fulfilRefresh k p pair
  | _ => s.rejectRefresh k p presented

end Session

inductive Step
  /-- A request starts in the tab. -/
  | request (k : ℕ) (url : String)
  /-- The request is answered with the status, or fails. -/
  | answer (k r : ℕ) (status : Option ℕ)
  /-- The request goes on after a refresh. -/
  | resume (k r : ℕ)
  /-- The `catch` of the response interceptor. -/
  | clear (k r : ℕ)
  /-- The refresh request reaches the server. -/
  | deliver (k p rid : ℕ) (token : Uuid × Uuid)
  /-- The answer to the refresh request reaches the tab. -/
  | refreshAnswered (k p : ℕ)
  /-- The refresh request or its answer is lost, or something before the handler answers. -/
  | refreshFailed (k p : ℕ)
  /-- `finally` of the refresh. -/
  | settle (k : ℕ)
  /-- `catch` of the refresh. -/
  | noteFailure (k p : ℕ)
  /-- The tab is closed or loaded again. -/
  | reload (k : ℕ)
  /-- A login, a registration or the page of an OAuth callback saves its tokens. -/
  | signIn (accessToken refreshToken : String)
  | logout
  /-- The clock of the browser is at `now`. -/
  | clock (now : ℤ)
  /-- The server goes on with requests of anyone. -/
  | server (a : AccountStep)

/-- One step. -/
def step (st : AppState) (jwtExp : String → Option ℚ) (s : Session) : Step → Option Session
  | .request k url =>
    let r := (s.tabs k).requests.length
    let s := s.setTab k { s.tabs k with requests := (s.tabs k).requests ++ [.ended] }
    some (s.onRequest jwtExp k r { url, retry := false })
  | .answer k r status =>
    match (s.tabs k).requests[r]? with
    | some (.sent config) => some (s.onAnswer k r config status)
    | _ => none
  | .resume k r => (s.tabs k).requests[r]?.bind (s.onSettled jwtExp k r)
  | .clear k r =>
    match (s.tabs k).requests[r]? with
    | some (.catching _) => some (s.expire.setRequest k r .ended)
    | _ => none
  | .deliver k p rid token =>
    match (s.tabs k).promises[p]? with
    | some (.sent presented) =>
      ((accountHandlers st).step s.server (.arrive rid (.inl (.refresh presented token)))).map
        fun server => { s.setPromise k p (.received presented token) with server }
    | _ => none
  | .refreshAnswered k p =>
    match (s.tabs k).promises[p]? with
    | some (.received presented token) =>
      (s.refreshAnswer presented token).map (s.onRefreshAnswer k p presented)
    | _ => none
  | .refreshFailed k p =>
    match (s.tabs k).promises[p]? with
    | some (.sent presented) | some (.received presented _) =>
      some (s.rejectRefresh k p presented)
    | _ => none
  | .settle k =>
    match (s.tabs k).refreshing.bind fun p => (s.tabs k).promises[p]? with
    | some .fulfilled | some (.rejected _ _) => some (s.setTab k { s.tabs k with refreshing := none })
    | _ => none
  | .noteFailure k p =>
    match (s.tabs k).promises[p]? with
    | some (.rejected presented false) => some (s.setTab k { s.tabs k with
        refreshFailedAt := some { time := s.now, presented }
        promises := (s.tabs k).promises.set p (.rejected presented true) })
    | _ => none
  | .reload k => some (s.setTab k .loaded)
  | .signIn accessToken refreshToken => some (s.saveTokens accessToken refreshToken)
  | .logout => some s.clearTokens
  | .clock now => some { s with now }
  | .server a => ((accountHandlers st).step s.server a).map fun server => { s with server }

/-! ## When sessions are kept -/

/-- A refresh token is drawn that nobody has, and no one signs in with a token before the
    server has sent it. -/
def Fresh (s : Session) : Step → Prop
  | .deliver _ _ _ token => NewToken s.seen s.server (refreshTokenOf token)
  | .server (.arrive _ job) => ∀ token ∈ draw? job, NewToken s.seen s.server token
  | .signIn _ refreshToken => refreshToken ∉ drawn s.server
  | _ => True

/-- The token whose refresh fails in the step. -/
def Session.failing (s : Session) : Step → Option String
  | .refreshAnswered k p =>
    match (s.tabs k).promises[p]? with
    | some (.received presented token) =>
      match s.refreshAnswer presented token with
      | some (.inl (.tokens _)) => none
      | _ => some presented
    | _ => none
  | .refreshFailed k p =>
    match (s.tabs k).promises[p]? with
    | some (.sent presented) | some (.received presented _) => some presented
    | _ => none
  | _ => none

/-- The token whose refresh has led to the `catch` of the response interceptor that the step
    runs. -/
def Session.caught (s : Session) : Step → Option (Option String)
  | .clear k r =>
    match (s.tabs k).requests[r]? with
    | some (.catching presented) => some presented
    | _ => none
  | _ => none

/-- A refresh fails only when the server does not take the token that it has presented, and
    the `catch` of the response interceptor finds no other token in `localStorage` than
    the one that the refresh has presented. -/
structure Orderly (s : Session) (a : Step) : Prop where
  failing : ∀ token ∈ s.failing a, ¬ Valid s.server token
  caught : ∀ presented ∈ s.caught a,
    present s.refreshToken = none ∨ present s.refreshToken = presented

instance (s : Session) (a : Step) : Decidable (Fresh s a) :=
  match a with
  | .deliver _ _ _ token =>
    inferInstanceAs (Decidable (NewToken s.seen s.server (refreshTokenOf token)))
  | .server (.arrive _ job) =>
    inferInstanceAs (Decidable (∀ token ∈ draw? job, NewToken s.seen s.server token))
  | .signIn _ refreshToken => inferInstanceAs (Decidable (refreshToken ∉ drawn s.server))
  | .server (.advance ..) | .server (.fail ..) | .server (.cancel _) | .server (.env _) =>
    .isTrue trivial
  | .request .. | .answer .. | .resume .. | .clear .. | .refreshAnswered .. => .isTrue trivial
  | .refreshFailed .. | .settle _ | .noteFailure .. | .reload _ | .logout | .clock _ =>
    .isTrue trivial

instance (server : AccountState) (token : String) : Decidable (Valid server token) :=
  inferInstanceAs (Decidable (_ = true))

instance (s : Session) (a : Step) : Decidable (Orderly s a) :=
  decidable_of_iff ((∀ token ∈ s.failing a, ¬ Valid s.server token) ∧ ∀ presented ∈ s.caught a,
      present s.refreshToken = none ∨ present s.refreshToken = presented)
    ⟨fun h => ⟨h.1, h.2⟩, fun h => ⟨h.failing, h.caught⟩⟩

/-! ## Tokens that a tab has presented in vain -/

section Sound

variable (seen : List String) (server : AccountState)

/-- The token has been in `localStorage`, and the server does not take it. -/
def Spent (presented : Option String) : Prop :=
  ∀ token ∈ presented, token ∈ seen ∧ ¬ Valid server token

def Refresh.Sound : Refresh → Prop
  | .sent presented | .received presented _ => presented ∈ seen
  | .rejected presented _ => Spent seen server presented
  | .fulfilled => True

def HttpRequest.Sound : HttpRequest → Prop
  | .catching presented => Spent seen server presented
  | .beforeSend _ _ | .sent _ | .afterAnswer _ _ | .ended => True

structure Tab.Sound (tab : Tab) : Prop where
  promises : ∀ promise ∈ tab.promises, promise.Sound seen server
  failed : ∀ failure ∈ tab.refreshFailedAt, Spent seen server failure.presented
  requests : ∀ request ∈ tab.requests, request.Sound seen server

end Sound

/-- What the tabs know of the tokens, and that none was thrown away. -/
structure Inv (s : Session) : Prop where
  secret : Secret s.seen s.server
  stored : ∀ token ∈ s.refreshToken, token ∈ s.seen
  tabs : ∀ k, (s.tabs k).Sound s.seen s.server
  lost : s.lost = []

variable {seen seen' : List String} {server server' : AccountState}

/-- More tokens have been seen, and none of the old ones has become valid. -/
structure Later (seen : List String) (server : AccountState) (seen' : List String)
    (server' : AccountState) : Prop where
  known : ∀ token ∈ seen, token ∈ seen'
  valid : ∀ token ∈ seen, Valid server' token → Valid server token

theorem Spent.later {presented : Option String} (h : Spent seen server presented)
    (hlater : Later seen server seen' server') : Spent seen' server' presented := by
  intro token htoken
  obtain ⟨hseen, hvalid⟩ := h token htoken
  exact ⟨hlater.known token hseen, fun hv => hvalid (hlater.valid token hseen hv)⟩

theorem Tab.Sound.later {tab : Tab} (h : tab.Sound seen server)
    (hlater : Later seen server seen' server') : tab.Sound seen' server' where
  promises promise hmem := by
    have hpromise := h.promises promise hmem
    cases promise with
    | sent presented => exact hlater.known _ hpromise
    | received presented token => exact hlater.known _ hpromise
    | fulfilled => trivial
    | rejected presented noted => exact Spent.later hpromise hlater
  failed failure hfailure := (h.failed failure hfailure).later hlater
  requests request hmem := by
    have hrequest := h.requests request hmem
    cases request with
    | catching presented => exact Spent.later hrequest hlater
    | _ => trivial

theorem Tab.sound_loaded : Tab.loaded.Sound seen server where
  promises promise hmem := absurd hmem List.not_mem_nil
  failed failure hfailure := by cases hfailure
  requests request hmem := absurd hmem List.not_mem_nil

/-! ## The invariant -/

variable {s : Session} {k r p : ℕ}

theorem Inv.setTab (h : Inv s) (k : ℕ) (tab : Tab) (htab : tab.Sound s.seen s.server) :
    Inv (s.setTab k tab) where
  secret := h.secret
  stored := h.stored
  tabs k' := by
    show (Function.update s.tabs k tab k').Sound s.seen s.server
    by_cases hk : k' = k
    · subst hk
      rwa [Function.update_self]
    · rw [Function.update_of_ne hk]
      exact h.tabs k'
  lost := h.lost

theorem Inv.setRequest (h : Inv s) (k r : ℕ) (request : HttpRequest)
    (hrequest : request.Sound s.seen s.server) : Inv (s.setRequest k r request) := by
  apply h.setTab k { s.tabs k with requests := (s.tabs k).requests.set r request }
  refine ⟨(h.tabs k).promises, (h.tabs k).failed, fun other hmem => ?_⟩
  rcases List.mem_or_eq_of_mem_set hmem with hmem | rfl
  · exact (h.tabs k).requests other hmem
  · exact hrequest

theorem Inv.setPromise (h : Inv s) (k p : ℕ) (promise : Refresh)
    (hpromise : promise.Sound s.seen s.server) : Inv (s.setPromise k p promise) := by
  apply h.setTab k { s.tabs k with promises := (s.tabs k).promises.set p promise }
  refine ⟨fun other hmem => ?_, (h.tabs k).failed, (h.tabs k).requests⟩
  rcases List.mem_or_eq_of_mem_set hmem with hmem | rfl
  · exact (h.tabs k).promises other hmem
  · exact hpromise

theorem Inv.addPromise (h : Inv s) (k : ℕ) (promise : Refresh)
    (hpromise : promise.Sound s.seen s.server) : Inv (s.addPromise k promise) := by
  apply h.setTab k { s.tabs k with
    refreshing := some (s.tabs k).promises.length
    promises := (s.tabs k).promises ++ [promise] }
  refine ⟨fun other hmem => ?_, (h.tabs k).failed, (h.tabs k).requests⟩
  rcases List.mem_append.mp hmem with hmem | hmem
  · exact (h.tabs k).promises other hmem
  · rwa [List.mem_singleton.mp hmem]

/-- `clearTokens` throws nothing away when the server does not take the stored token. -/
theorem Inv.expire (h : Inv s)
    (hspent : ∀ token ∈ present s.refreshToken, ¬ Valid s.server token) : Inv s.expire where
  secret := h.secret
  stored token htoken := by cases htoken
  tabs := h.tabs
  lost := by
    have hnone : s.validToken = none := by
      unfold Session.validToken
      rw [Option.filter_eq_none_iff]
      exact hspent
    show s.validToken.toList ++ s.lost = []
    rw [hnone, h.lost]
    rfl

theorem mem_of_present {value : Option String} {token : String} (h : present value = some token) :
    value = some token :=
  (Option.filter_eq_some_iff.mp h).1

theorem Inv.doRefresh (h : Inv s) (k : ℕ) :
    Inv (s.doRefresh k).1 ∧ ∀ presented, (s.doRefresh k).2 = .rejected presented →
      Spent (s.doRefresh k).1.seen (s.doRefresh k).1.server presented := by
  unfold Session.doRefresh
  cases hbreaker : (s.tabs k).openBreaker s.now with
  | some failure =>
    refine ⟨h, fun presented heq => ?_⟩
    cases heq
    exact (h.tabs k).failed failure (Option.filter_eq_some_iff.mp hbreaker).1
  | none =>
    cases hrefreshing : (s.tabs k).refreshing with
    | some p => exact ⟨h, fun presented heq => by cases heq⟩
    | none =>
      cases hstored : present s.refreshToken with
      | none =>
        have hexpire : Inv s.expire := h.expire fun token htoken => by
          rw [hstored] at htoken
          cases htoken
        refine ⟨hexpire.addPromise k (.rejected none false) ?_, fun presented heq => by cases heq⟩
        intro token htoken
        cases htoken
      | some token =>
        refine ⟨h.addPromise k (.sent token) ?_, fun presented heq => by cases heq⟩
        exact h.stored token (mem_of_present hstored)

variable {jwtExp : String → Option ℚ} {config : Config}

theorem Inv.onRequest (h : Inv s) (k r : ℕ) (config : Config) :
    Inv (s.onRequest jwtExp k r config) := by
  unfold Session.onRequest
  split
  · exact h.setRequest k r (.sent config) trivial
  · split_ifs
    · obtain ⟨hrefresh, -⟩ := h.doRefresh k
      split
      · next heq =>
        rw [heq] at hrefresh
        exact hrefresh.setRequest k r (.sent config) trivial
      · next p heq =>
        rw [heq] at hrefresh
        exact hrefresh.setRequest k r (.beforeSend p config) trivial
    · exact h.setRequest k r (.sent config) trivial

theorem Inv.onAnswer (h : Inv s) (k r : ℕ) (config : Config) (status : Option ℕ) :
    Inv (s.onAnswer k r config status) := by
  unfold Session.onAnswer
  split_ifs
  · obtain ⟨hrefresh, hspent⟩ := h.doRefresh k
    split
    · next presented heq =>
      rw [heq] at hrefresh hspent
      exact hrefresh.setRequest k r (.catching presented) (hspent presented rfl)
    · next p heq =>
      rw [heq] at hrefresh
      exact hrefresh.setRequest k r (.afterAnswer p { config with retry := true }) trivial
  · exact h.setRequest k r .ended trivial

theorem Inv.onSettled {s' : Session} {request : HttpRequest} (h : Inv s)
    (hs : s.onSettled jwtExp k r request = some s') : Inv s' := by
  cases request with
  | beforeSend p config =>
    rw [Session.onSettled] at hs
    split at hs
    · cases hs
      exact h.setRequest k r (.sent config) trivial
    · cases hs
      exact h.setRequest k r (.sent config) trivial
    · cases hs
  | afterAnswer p config =>
    rw [Session.onSettled] at hs
    split at hs
    · cases hs
      exact h.onRequest k r config
    · next presented noted hpromise =>
      cases hs
      exact h.setRequest k r (.catching presented)
        ((h.tabs k).promises _ (List.mem_of_getElem? hpromise))
    · cases hs
  | sent config => cases hs
  | catching presented => cases hs
  | ended => cases hs

/-- A token that is not secret any more comes into `localStorage`. -/
theorem Inv.saveTokens {accessToken refreshToken : String} (h : Inv s)
    (htoken : refreshToken ∉ drawn s.server) : Inv (s.saveTokens accessToken refreshToken) where
  secret := h.secret.see htoken
  stored token hstored := by
    cases hstored
    exact List.mem_cons_self
  tabs k := (h.tabs k).later ⟨fun _ => List.mem_cons_of_mem _, fun _ _ => id⟩
  lost := h.lost

/-- The server takes a step. -/
theorem Inv.serverStep {st : AppState} {a : AccountStep} {server : AccountState} (h : Inv s)
    (hs : (accountHandlers st).step s.server a = some server)
    (hnew : ∀ rid j token, a = .arrive rid j → draw? j = some token →
      NewToken s.seen s.server token) : Inv { s with server } where
  secret := h.secret.step hs hnew
  stored := h.stored
  tabs k := (h.tabs k).later ⟨fun _ => id, fun token hseen hvalid =>
    Auth.valid_step hs (fun hdrawn => h.secret.unseen token hdrawn hseen) hvalid⟩
  lost := h.lost

/-! ## Steps -/

variable {st : AppState} {s' : Session}

/-- The token pair of a refresh has been sent. -/
theorem mem_answered {presented : String} {token : Uuid × Uuid} {pair : OAuth.AuthResponse}
    (h : s.refreshAnswer presented token = some (.inl (.tokens pair))) :
    pair.refreshToken ∈ answered s.server := by
  obtain ⟨x, hfind, hx⟩ := Option.map_eq_some_iff.mp h
  refine List.mem_filterMap.mpr ⟨x, List.mem_of_find?_eq_some hfind, ?_⟩
  rw [hx]
  rfl

theorem Inv.fulfilRefresh {pair : OAuth.AuthResponse} (h : Inv s)
    (hsent : pair.refreshToken ∈ answered s.server) (k p : ℕ) :
    Inv (s.fulfilRefresh k p pair) := by
  have hsaved : Inv (s.saveTokens pair.accessToken pair.refreshToken) :=
    h.saveTokens (h.secret.unsent _ hsent)
  refine hsaved.setTab k _ ⟨fun promise hmem => ?_, fun failure hfailure => ?_,
    (hsaved.tabs k).requests⟩
  · rcases List.mem_or_eq_of_mem_set hmem with hmem | rfl
    · exact (hsaved.tabs k).promises promise hmem
    · trivial
  · cases hfailure

theorem Inv.rejectRefresh {presented : String} (h : Inv s) (hseen : presented ∈ s.seen)
    (hinvalid : ¬ Valid s.server presented) (k p : ℕ) : Inv (s.rejectRefresh k p presented) := by
  apply h.setPromise
  intro token htoken
  cases htoken
  exact ⟨hseen, hinvalid⟩

/-- `catch` of the response interceptor, after a refresh that presented a spent token. -/
theorem Inv.clear {presented : Option String} (h : Inv s) (hspent : Spent s.seen s.server presented)
    (hstored : present s.refreshToken = none ∨ present s.refreshToken = presented) (k r : ℕ) :
    Inv (s.expire.setRequest k r .ended) := by
  have hexpire : Inv s.expire := by
    apply h.expire
    intro token htoken
    rcases hstored with hnone | hsame
    · rw [hnone] at htoken
      cases htoken
    · rw [hsame] at htoken
      exact (hspent token htoken).2
  exact hexpire.setRequest k r .ended trivial

/-- The promise of the tab is of a token that has been in `localStorage`. -/
theorem Inv.promise {promise : Refresh} (h : Inv s) (hp : (s.tabs k).promises[p]? = some promise) :
    promise.Sound s.seen s.server :=
  (h.tabs k).promises promise (List.mem_of_getElem? hp)

theorem Inv.addRequest (h : Inv s) (k : ℕ) :
    Inv (s.setTab k { s.tabs k with requests := (s.tabs k).requests ++ [.ended] }) := by
  apply h.setTab
  refine ⟨(h.tabs k).promises, (h.tabs k).failed, fun request hmem => ?_⟩
  rcases List.mem_append.mp hmem with hmem | hmem
  · exact (h.tabs k).requests request hmem
  · rw [List.mem_singleton.mp hmem]
    trivial

theorem Inv.settle (h : Inv s) (k : ℕ) : Inv (s.setTab k { s.tabs k with refreshing := none }) := by
  apply h.setTab
  exact ⟨(h.tabs k).promises, (h.tabs k).failed, (h.tabs k).requests⟩

theorem Inv.noteFailure {presented : Option String} (h : Inv s)
    (hspent : Spent s.seen s.server presented) (k p : ℕ) :
    Inv (s.setTab k { s.tabs k with
      refreshFailedAt := some { time := s.now, presented }
      promises := (s.tabs k).promises.set p (.rejected presented true) }) := by
  apply h.setTab
  refine ⟨fun promise hmem => ?_, fun failure hfailure => ?_, (h.tabs k).requests⟩
  · rcases List.mem_or_eq_of_mem_set hmem with hmem | rfl
    · exact (h.tabs k).promises promise hmem
    · exact hspent
  · cases hfailure
    exact hspent

theorem Inv.deliver {rid : ℕ} {token : Uuid × Uuid} (h : Inv s)
    (hnew : NewToken s.seen s.server (refreshTokenOf token))
    (hs : Client.step st jwtExp s (.deliver k p rid token) = some s') : Inv s' := by
  rw [Client.step] at hs
  split at hs
  · next presented hp =>
    obtain ⟨server, hserver, rfl⟩ := Option.map_eq_some_iff.mp hs
    have hsent : presented ∈ s.seen := h.promise hp
    refine (h.setPromise k p (.received presented token) hsent).serverStep hserver ?_
    intro rid' j token' ha hdraw
    obtain ⟨-, rfl⟩ := Action.arrive.inj ha
    have hdrawn : refreshTokenOf token = token' := Option.some.inj hdraw
    exact hdrawn ▸ hnew
  · cases hs

theorem Inv.refreshAnswered (h : Inv s) (horderly : Orderly s (.refreshAnswered k p))
    (hs : Client.step st jwtExp s (.refreshAnswered k p) = some s') : Inv s' := by
  rw [Client.step] at hs
  split at hs
  · next presented token hp =>
    obtain ⟨response, hresponse, rfl⟩ := Option.map_eq_some_iff.mp hs
    have hsent : presented ∈ s.seen := h.promise hp
    unfold Session.onRefreshAnswer
    split
    · exact h.fulfilRefresh (mem_answered hresponse) k p
    · next hother =>
      apply h.rejectRefresh hsent
      apply horderly.failing
      rw [Session.failing, hp]
      dsimp only
      rw [hresponse]
      split
      · next pair hpair => exact absurd (Option.some.inj hpair) (hother pair)
      · rfl
  · cases hs

theorem Inv.refreshFailed (h : Inv s) (horderly : Orderly s (.refreshFailed k p))
    (hs : Client.step st jwtExp s (.refreshFailed k p) = some s') : Inv s' := by
  rw [Client.step] at hs
  split at hs
  · next presented hp =>
    cases hs
    exact h.rejectRefresh (h.promise hp) (horderly.failing presented (by
      rw [Session.failing, hp]
      rfl)) k p
  · next presented token hp =>
    cases hs
    exact h.rejectRefresh (h.promise hp) (horderly.failing presented (by
      rw [Session.failing, hp]
      rfl)) k p
  · cases hs

/-- The step lemma. -/
theorem Inv.step {a : Step} (h : Inv s) (hfresh : Fresh s a) (horderly : Orderly s a)
    (hs : step st jwtExp s a = some s') : Inv s' := by
  cases a with
  | request k url =>
    cases hs
    exact (h.addRequest k).onRequest k _ _
  | answer k r status =>
    rw [Client.step] at hs
    split at hs
    · cases hs
      exact h.onAnswer k r _ status
    · cases hs
  | resume k r =>
    obtain ⟨request, -, hsettled⟩ := Option.bind_eq_some_iff.mp hs
    exact h.onSettled hsettled
  | clear k r =>
    rw [Client.step] at hs
    split at hs
    · next presented hrequest =>
      cases hs
      exact h.clear ((h.tabs k).requests _ (List.mem_of_getElem? hrequest))
        (horderly.caught presented (by rw [Session.caught, hrequest]; rfl)) k r
    · cases hs
  | deliver k p rid token => exact h.deliver hfresh hs
  | refreshAnswered k p => exact h.refreshAnswered horderly hs
  | refreshFailed k p => exact h.refreshFailed horderly hs
  | settle k =>
    rw [Client.step] at hs
    split at hs
    · cases hs
      exact h.settle k
    · cases hs
      exact h.settle k
    · cases hs
  | noteFailure k p =>
    rw [Client.step] at hs
    split at hs
    · next presented hp =>
      cases hs
      exact h.noteFailure (h.promise hp) k p
    · cases hs
  | reload k =>
    cases hs
    exact h.setTab k .loaded Tab.sound_loaded
  | signIn accessToken refreshToken =>
    cases hs
    exact h.saveTokens hfresh
  | logout =>
    cases hs
    exact { h with stored := fun token htoken => by cases htoken }
  | clock now =>
    cases hs
    exact { h with }
  | server a =>
    obtain ⟨server, hserver, rfl⟩ := Option.map_eq_some_iff.mp hs
    refine h.serverStep hserver ?_
    rintro rid j token rfl hdraw
    exact hfresh token hdraw

theorem inv_start (w : KeyServer.World) : Inv (.start w) where
  secret := Auth.secret_idle [] w
  stored token htoken := by cases htoken
  tabs k := Tab.sound_loaded
  lost := rfl

/-- In a run whose steps are all orderly, `clearTokens` throws no valid session away. -/
theorem lost_eq_nil (st : AppState) (jwtExp : String → Option ℚ) (w : KeyServer.World)
    {steps : List Step} {s : Session}
    (h : Run (step st jwtExp) (fun s a => Fresh s a ∧ Orderly s a) (.start w) steps s) :
    s.lost = [] := by
  have hinv : Inv s := h.invariant Inv (inv_start w) fun s a s' hs hok hstep =>
    hs.step hok.1 hok.2 hstep
  exact hinv.lost

/-- The refresh token has expired, the refresh is refused, and the tokens are cleared. -/
theorem lost_eq_nil_expired : ∃ steps s,
    Run (step Auth.runServer fun _ => none) (fun s a => Fresh s a ∧ Orderly s a)
      (.start Auth.loggedInWorld) steps s ∧ s.refreshToken = none ∧ s.lost = [] := by
  obtain ⟨s, hrun, hs⟩ := exists_run_of_exec (step Auth.runServer fun _ => none)
    (fun s a => Fresh s a ∧ Orderly s a) (.start Auth.loggedInWorld)
    [.signIn "access" Auth.runToken, .server (.env (.inl (.tick 1))), .request 0 "/api/v1/files",
      .answer 0 0 (some 401), .deliver 0 0 1 (⟨11⟩, ⟨11⟩), .server (.advance 1 0),
      .refreshAnswered 0 0, .settle 0, .noteFailure 0 0, .resume 0 0, .clear 0 0]
    (fun s => s.refreshToken = none) (by decide +kernel)
  exact ⟨_, s, hrun, of_decide_eq_true hs, lost_eq_nil _ _ _ hrun⟩

/-- One tab: the refresh request is lost, and the circuit breaker is open when the request is
    answered with 401. Two tabs refresh with one token: the tab that comes second clears
    what the first one has saved. -/
theorem lost_sessions :
    (∃ steps s, Run (step Auth.runServer fun _ => some 0) Fresh (.start Auth.loggedInWorld) steps s ∧
      s.lost = [Auth.runToken]) ∧
    ∃ steps s, Run (step Auth.runServer fun _ => none) Fresh (.start Auth.loggedInWorld) steps s ∧
      s.lost = [refreshTokenOf (⟨11⟩, ⟨11⟩)] := by
  constructor
  · obtain ⟨s, hrun, hs⟩ := exists_run_of_exec (step Auth.runServer fun _ => some 0) Fresh
      (.start Auth.loggedInWorld)
      [.signIn "access" Auth.runToken, .request 0 "/api/v1/files", .refreshFailed 0 0, .settle 0,
        .noteFailure 0 0, .resume 0 0, .answer 0 0 (some 401), .clear 0 0]
      (fun s => s.lost = [Auth.runToken]) (by decide +kernel)
    exact ⟨_, s, hrun, of_decide_eq_true hs⟩
  · obtain ⟨s, hrun, hs⟩ := exists_run_of_exec (step Auth.runServer fun _ => none) Fresh
      (.start Auth.loggedInWorld)
      [.signIn "access" Auth.runToken, .request 0 "/api/v1/files", .request 1 "/api/v1/files",
        .answer 0 0 (some 401), .answer 1 0 (some 401), .deliver 0 0 1 (⟨11⟩, ⟨11⟩),
        .deliver 1 0 2 (⟨12⟩, ⟨12⟩), .server (.advance 1 0), .server (.advance 1 0),
        .server (.advance 2 0), .refreshAnswered 0 0, .refreshAnswered 1 0, .settle 1,
        .noteFailure 1 0, .resume 1 0, .clear 1 0]
      (fun s => s.lost = [refreshTokenOf (⟨11⟩, ⟨11⟩)]) (by decide +kernel)
    exact ⟨_, s, hrun, of_decide_eq_true hs⟩

end FreeBox.Web.Client
