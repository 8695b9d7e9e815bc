import Aegis.Agent.Text
import Aegis.Lib.Machine

/-!
# The API client of the dashboard

`lib/api-client.ts`: the token store, `refreshAccessToken` with its shared promise, and `request`
with its one retry. What a function does between two awaits is one step, and promises settle and are
resumed in any order. A step says what is sent and what each caller has seen.
-/

namespace Aegis.Dashboard

open Agent

/-! ## The token store -/

/-- `TokenState`. A date that is not one has no time. -/
structure TokenState where
  accessToken : Option JString
  expiresAt : Option (Option Int)

namespace TokenState

/-- `tokenStore.clear`. -/
def cleared : TokenState :=
  ⟨none, none⟩

/-- `tokenStore.isStale`. -/
def isStale (state : TokenState) (now skewMs : Int) : Bool :=
  match state.accessToken, state.expiresAt with
  | some token, some expiresAt => token.isEmpty || expiresAt.any fun time ↦ time - skewMs ≤ now
  | _, _ => true

end TokenState

/-! ## What settles -/

/-- What becomes of a fetch: it rejects, or resolves with a status. -/
inductive FetchOutcome where
  | rejects
  | resolves (status : Nat)
  deriving DecidableEq

/-- `response.ok`. -/
def isOk (status : Nat) : Bool :=
  200 ≤ status && status ≤ 299

/-- `TokenResponse`, where a field may be missing. -/
structure TokenResponse where
  accessToken : Option JString
  expiresAt : Option Int

/-- What becomes of `response.json()`. -/
inductive Body where
  | rejects
  | null
  | tokens (response : TokenResponse)

/-- Where the function of a refresh is: it awaits a promise, or the promise has settled. -/
inductive Flight where
  | fetching
  | fetched (outcome : FetchOutcome)
  | reading
  | read (body : Body)
  | settled (result : Bool)

/-- The promise of the refresh has settled. -/
def Flight.isSettled : Flight → Bool
  | .settled _ => true
  | _ => false

/-- Where a caller is: it awaits a refresh, alone or within a request, or a fetch, or the fetch has
settled. -/
inductive Point where
  | awaitingToken (refresh : Nat)
  | beforeSend (refresh : Nat)
  | sending (retry : Bool)
  | answered (retry : Bool) (outcome : FetchOutcome)
  | refreshing (refresh : Nat)
  | done

/-- A caller of `refreshAccessToken` or of `request`. -/
structure Caller where
  anonymous : Bool
  point : Point

/-- The state of the module, the refreshes and the callers so far. -/
structure Client where
  state : TokenState
  refreshInFlight : Option Nat
  flights : List Flight
  callers : List Caller

/-- The module as it is loaded. -/
def Client.initial : Client :=
  ⟨.cleared, none, [], []⟩

/-! ## What happens -/

/-- What a caller does and sees. -/
inductive CallEvent where
  /-- It awaits a refresh. -/
  | asked (refresh : Nat)
  /-- It goes on with the result of the refresh. -/
  | resumed (refresh : Nat) (result : Bool)
  /-- Its request is sent. -/
  | sent (authorization : Option JString)
  /-- It goes on with the outcome of the request. -/
  | answered (outcome : FetchOutcome)

/-- What happens: a refresh is posted, a refresh settles, or a caller does or sees something. -/
inductive Event where
  | posted (refresh : Nat)
  | settled (refresh : Nat) (result : Bool)
  | call (caller : Nat) (event : CallEvent)

/-- A turn: a new call, a promise that settles, or a function that goes on behind its await. -/
inductive Turn where
  | request (anonymous builds : Bool) (now : Int)
  | refresh
  | answer (caller : Nat) (outcome : FetchOutcome)
  | answerRefresh (refresh : Nat) (outcome : FetchOutcome)
  | answerBody (refresh : Nat) (body : Body)
  | resume (caller : Nat) (builds : Bool)
  | resumeRefresh (refresh : Nat) (listenerThrows : Bool)
  | setToken (token : JString) (expiresAt : Option Int)
  | clearToken

/-! ## Refreshing -/

namespace Client

variable (client : Client)

/-- The refresh is where it is told to be. -/
def setFlight (refresh : Nat) (flight : Flight) : Client :=
  { client with flights := client.flights.set refresh flight }

/-- The function of a refresh returns: `refreshInFlight` is reset and the promise settles. -/
def settle (refresh : Nat) (result : Bool) : List Event × Client :=
  ([.settled refresh result],
    { client with
      refreshInFlight := none
      flights := client.flights.set refresh (.settled result) })

/-- `refreshAccessToken`: the refresh the caller awaits, what is posted, and the state after. -/
def refreshAccessToken : Nat × List Event × Client :=
  match client.refreshInFlight with
  | some refresh => (refresh, [], client)
  | none =>
      (client.flights.length, [.posted client.flights.length],
        { client with
          refreshInFlight := some client.flights.length
          flights := client.flights ++ [.fetching] })

/-- The function of a refresh goes on. A listener of the token store may throw. -/
def resumeRefresh (refresh : Nat) (listenerThrows : Bool) : List Event × Client :=
  match client.flights[refresh]? with
  | some (.fetched .rejects) => client.settle refresh false
  | some (.fetched (.resolves status)) =>
      if isOk status then ([], client.setFlight refresh .reading)
      else { client with state := .cleared }.settle refresh false
  | some (.read .rejects) => client.settle refresh false
  | some (.read .null) => client.settle refresh false
  | some (.read (.tokens response)) =>
      { client with
        state := ⟨response.accessToken, some response.expiresAt⟩ }.settle refresh (!listenerThrows)
  | _ => ([], client)

/-! ## Requests -/

/-- The caller is where it is told to be. -/
def setPoint (caller : Nat) (point : Point) : Client :=
  { client with callers := client.callers.modify caller fun c ↦ { c with point } }

/-- `send`: what is sent, and where the caller is then. Building the request may throw. -/
def send (anonymous builds retry : Bool) : List CallEvent × Point :=
  if builds then
    let token := client.state.accessToken.filter fun token ↦ !token.isEmpty
    ([.sent (if anonymous then none else token)], .sending retry)
  else ([], .done)

/-- What a caller does behind an await: what is posted, what it sees and does, where it is then, and
the state of the module. Nothing is done before the promise has settled. -/
def resume (caller : Caller) (builds : Bool) : List Event × List CallEvent × Point × Client :=
  match caller.point with
  | .awaitingToken refresh =>
      match client.flights[refresh]? with
      | some (.settled result) => ([], [.resumed refresh result], .done, client)
      | _ => ([], [], caller.point, client)
  | .beforeSend refresh =>
      match client.flights[refresh]? with
      | some (.settled result) =>
          let sent := client.send caller.anonymous builds false
          ([], .resumed refresh result :: sent.1, sent.2, client)
      | _ => ([], [], caller.point, client)
  | .answered false (.resolves 401) =>
      if caller.anonymous then ([], [.answered (.resolves 401)], .done, client)
      else
        let asked := client.refreshAccessToken
        (asked.2.1, [.answered (.resolves 401), .asked asked.1], .refreshing asked.1, asked.2.2)
  | .answered _ outcome => ([], [.answered outcome], .done, client)
  | .refreshing refresh =>
      match client.flights[refresh]? with
      | some (.settled true) =>
          let sent := client.send caller.anonymous builds true
          ([], .resumed refresh true :: sent.1, sent.2, client)
      | some (.settled false) => ([], [.resumed refresh false], .done, client)
      | _ => ([], [], caller.point, client)
  | .sending _ => ([], [], caller.point, client)
  | .done => ([], [], caller.point, client)

/-- What `request` does before its first await. -/
def request (anonymous builds : Bool) (now : Int) : List Event × List CallEvent × Point × Client :=
  if !anonymous && client.state.isStale now 30000 then
    let asked := client.refreshAccessToken
    (asked.2.1, [.asked asked.1], .beforeSend asked.1, asked.2.2)
  else
    let sent := client.send anonymous builds false
    ([], sent.1, sent.2, client)

/-- One turn, with what happens in it. -/
def step : Turn → List Event × Client
  | .request anonymous builds now =>
      let (posted, events, point, next) := client.request anonymous builds now
      (posted ++ events.map (.call client.callers.length),
        { next with callers := next.callers ++ [⟨anonymous, point⟩] })
  | .refresh =>
      let asked := client.refreshAccessToken
      (asked.2.1 ++ [.call client.callers.length (.asked asked.1)],
        { asked.2.2 with callers := asked.2.2.callers ++ [⟨false, .awaitingToken asked.1⟩] })
  | .answer caller outcome =>
      match client.callers[caller]? with
      | some ⟨_, .sending retry⟩ => ([], client.setPoint caller (.answered retry outcome))
      | _ => ([], client)
  | .answerRefresh refresh outcome =>
      match client.flights[refresh]? with
      | some .fetching => ([], client.setFlight refresh (.fetched outcome))
      | _ => ([], client)
  | .answerBody refresh body =>
      match client.flights[refresh]? with
      | some .reading => ([], client.setFlight refresh (.read body))
      | _ => ([], client)
  | .resume caller builds =>
      match client.callers[caller]? with
      | some c =>
          let (posted, events, point, next) := client.resume c builds
          (posted ++ events.map (.call caller), next.setPoint caller point)
      | none => ([], client)
  | .resumeRefresh refresh listenerThrows => client.resumeRefresh refresh listenerThrows
  | .setToken token expiresAt => ([], { client with state := ⟨some token, some expiresAt⟩ })
  | .clearToken => ([], { client with state := .cleared })

end Client

end Aegis.Dashboard
