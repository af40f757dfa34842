import Mathlib.Logic.Function.Basic
import RustApi.Engine.Server

/-!
# The accept loop and its tasks

`Server.serve` accepts connections for ever and spawns a task for each; `hyper` reads requests from a
connection and calls `dispatch` for each.  `dispatch` is an `async fn`: it waits for every frame of the
body and for the handler, and between two waits anything else may run.

`Task` says where a call of `dispatch` waits, and `taskStep` resumes it with what it waited for.  A
`ServerEvent` is what the outside does next: a connection is accepted or fails to be, a request arrives
on a stream of a connection, a frame arrives, a handler answers.  Every list of events is a schedule;
an event that nothing waits for is rejected and changes nothing.

In the release profile a panic aborts the process (`panic = "abort"`); in the dev profile `tokio`
catches it at the boundary of the task.
-/

namespace RustApi

open RustStd StepRuns

/-- A request whose body is still to come. -/
structure RequestHead (X : HttpCrate) where
  method : Method
  path : Str
  query : Option Str
  headers : X.HeaderMap

/-- The request with all of its body. -/
def RequestHead.withBody {X : HttpCrate} (head : RequestHead X) (body : List (Except Str Frame)) :
    HttpRequest X where
  method := head.method
  path := head.path
  query := head.query
  headers := head.headers
  body := body

/-- What a call of `dispatch` waits for. -/
inductive TaskEvent (X : HttpCrate)
  /-- The service is called. -/
  | request (head : RequestHead X)
  /-- `body.frame().await` yields; `none` is the end of the body. -/
  | frame (next : Option (Except Str Frame))
  /-- `handler.handle(req).await` yields. -/
  | reply (result : Run (Except Str (Response X)))

/-- Where a call of `dispatch` waits. -/
inductive Task (X : HttpCrate)
  | idle
  | collecting (head : RequestHead X) (s : CollectState)
  | handling
  | finished

/-- What a call of `dispatch` does to the outside. -/
inductive Output (H : Type) (X : HttpCrate)
  | called (handler : H) (request : Request X)
  | answered (response : HttpResponse X.HeaderMap)
  | panicked (p : Panic)

/-- The end of a call. -/
def Output.ofRun {H : Type} {X : HttpCrate} : Run (HttpResponse X.HeaderMap) → Output H X
  | .ok response => .answered response
  | .error p => .panicked p

namespace Server

variable {H : Type} {M : Matchit H} {X : HttpCrate}

/-! ### One call of `dispatch` -/

/-- From the end of the body to the handler call, or to the end. -/
def bodyRead (serdeJson : SerdeJson) (server : Server M) (remote : SocketAddr)
    (head : RequestHead X) (body : Bytes) : List (Output H X) × Task X :=
  let queryString := head.query.getD []
  match parseQuery queryString with
  | .error p => ([.panicked p], .finished)
  | .ok queryParams =>
    -- Match route.
    match server.router.matchRoute head.method head.path with
    | .error .notFound => ([.ofRun do
        let resp ← Response.notFound
        render resp server.config], .finished)
    | .error .methodNotAllowed => ([.ofRun do
        let resp ← Response.methodNotAllowed
        render resp server.config], .finished)
    | .error _ => ([.ofRun do
        let resp ← Response.internalError serdeJson "router error".toList
        render resp server.config], .finished)
    | .ok (handler, pathParams) =>
        let request : Request X :=
          { method := head.method.asStr, path := head.path, queryString, queryParams,
            headers := head.headers, pathParams, body, remoteAddr := some remote }
        ([.called handler request], .handling)

/-- Resume a call with what it waited for.  An event it does not wait for is rejected. -/
def taskStep (serdeJson : SerdeJson) (server : Server M) (remote : SocketAddr) :
    Task X → TaskEvent X → Except Unit (List (Output H X)) × Task X
  | .idle, .request head => (.ok [], .collecting head ⟨[], server.config.maxBodySize⟩)
  | .collecting head s, .frame (some frame) =>
      match collectStep server.config.maxBodySize s frame with
      | .error p => (.ok [.panicked p], .finished)
      | .ok (.error _) => (.ok [.ofRun do
          let resp ← Response.internalError serdeJson "body too large or unreadable".toList
          render resp server.config], .finished)
      | .ok (.ok s) => (.ok [], .collecting head s)
  | .collecting head s, .frame none =>
      let result := bodyRead serdeJson server remote head s.collected
      (.ok result.1, result.2)
  | .handling, .reply result => (.ok [.ofRun do
      let resp ← match ← result with
        | .ok resp => pure resp
        | .error e => Response.internalError serdeJson e
      render resp server.config], .finished)
  | task, _ => (.error (), task)

end Server

/-! ### Connections -/

/-- A connection: the address of its peer once it is accepted, and the calls of `dispatch` made for its
requests.  A request is known by the number of its stream. -/
structure Connection (X : HttpCrate) where
  remote : Option SocketAddr
  streams : ℕ → Task X

/-- A connection before it is accepted. -/
def Connection.new (X : HttpCrate) : Connection X := ⟨none, fun _ => .idle⟩

inductive ConnEvent (X : HttpCrate)
  | accepted (remote : SocketAddr)
  | stream (n : ℕ) (e : TaskEvent X)

/-- What the outside does next. -/
inductive ServerEvent (X : HttpCrate)
  | acceptFailed (error : Str)
  | conn (c : ℕ) (e : ConnEvent X)

namespace Server

variable {H : Type} {M : Matchit H} {X : HttpCrate}

/-- The task of one connection. -/
def connStep (serdeJson : SerdeJson) (server : Server M) (conn : Connection X) (e : ConnEvent X) :
    Except Unit (List (Output H X)) × Connection X :=
  match conn.remote, e with
  | none, .accepted remote => (.ok [], { conn with remote := some remote })
  | some remote, .stream n e =>
      let result := taskStep serdeJson server remote (conn.streams n) e
      (result.1, { conn with streams := Function.update conn.streams n result.2 })
  | _, _ => (.error (), conn)

/-- One step of the server: the accept loop, or the task of a connection. -/
def step (serdeJson : SerdeJson) (server : Server M) (conns : ℕ → Connection X) :
    ServerEvent X → Except Unit (List (Output H X)) × (ℕ → Connection X)
  -- a failed `accept` is logged, and the loop goes on
  | .acceptFailed _ => (.ok [], conns)
  | .conn c e =>
      let result := connStep serdeJson server (conns c) e
      (result.1, Function.update conns c result.2)

/-- The connections after a schedule. -/
def after (serdeJson : SerdeJson) (server : Server M) (events : List (ServerEvent X)) :
    ℕ → Connection X :=
  runFrom (step serdeJson server) (fun _ => Connection.new X) events

/-- The events of a schedule with what they did. -/
def trace (serdeJson : SerdeJson) (server : Server M) (events : List (ServerEvent X)) :
    List (ServerEvent X × Except Unit (List (Output H X))) :=
  traceFrom (step serdeJson server) (fun _ => Connection.new X) events

end Server

/-! ### The process -/

/-- The two profiles of `Cargo.toml`. -/
inductive Profile
  | dev
  | release
  deriving DecidableEq

/-- `panic = "abort"`. -/
def Profile.aborts : Profile → Bool
  | .dev => false
  | .release => true

def Output.isPanic {H : Type} {X : HttpCrate} : Output H X → Bool
  | .panicked _ => true
  | _ => false

namespace Server

variable {H : Type} {M : Matchit H} {X : HttpCrate}

/-- The answer to an event that ends the process. -/
def Fatal (profile : Profile) (out : Except Unit (List (Output H X))) : Prop :=
  (profile.aborts && (out.toOption.getD []).any Output.isPanic) = true

instance (profile : Profile) : DecidablePred (Fatal (H := H) (X := X) profile) :=
  fun _ => inferInstanceAs (Decidable (_ = true))

/-- The connections of the process after a schedule, `none` once it has aborted. -/
def processAfter (serdeJson : SerdeJson) (server : Server M) (profile : Profile)
    (events : List (ServerEvent X)) : Option (ℕ → Connection X) :=
  runFrom (untilFatal (Fatal profile) (step serdeJson server)) (some fun _ => Connection.new X)
    events

end Server

end RustApi
