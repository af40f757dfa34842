import RustApi.Engine.Body
import RustApi.Engine.Request
import RustApi.Engine.Response
import RustApi.Engine.Router

/-!
# The server: one request

`dispatch` takes a request through four stages: the body is collected up to a limit, the query string
is parsed, the route is matched, and the handler is called.  Each early return renders a response of
its own.  The model answers with the handler calls that were made, in order, beside the response, so
that what a handler is shown can be stated.

A handler is a value of an arbitrary type `H` and `handle` says what calling it does: return a
response or an error, or panic.  `Server.serve` owns a router and a configuration; what it needs from
the outside before its first request is the oracle `Net`.
-/

namespace RustApi

open RustStd

structure ServerConfig where
  host : Str
  port : UInt16
  /-- Max request body size in bytes. -/
  maxBodySize : ℕ
  /-- Server string emitted in the `Server` header. Empty disables the header. -/
  serverName : Str
  requestLogging : Bool

/-- `ServerConfig::default`: the body limit is 10 MiB. -/
def ServerConfig.default : ServerConfig where
  host := "127.0.0.1".toList
  port := 8080
  maxBodySize := 10 * 1024 * 1024
  serverName := "rustapi/0.1".toList
  requestLogging := false

/-- The text that is parsed as the address to listen on. -/
def ServerConfig.addrText (config : ServerConfig) : Str :=
  config.host ++ [':'] ++ Nat.toDigits 10 config.port.toNat

/-- `http::Request<Incoming>`.  The URI is kept as its path and query. -/
structure HttpRequest (X : HttpCrate) where
  method : Method
  path : Str
  query : Option Str
  headers : X.HeaderMap
  body : List (Except Str Frame)

/-! ### Rendering -/

/-- The `header` calls of `render`. -/
def renderCalls {X : HttpCrate} (resp : Response X) (config : ServerConfig) :
    List (HeaderCall X.HeaderName X.HeaderValue) :=
  (X.mapIter resp.headers).map (fun e => .typed e.1 e.2) ++
    if config.serverName = [] then [] else [.text "server".toList config.serverName]

/-- Convert a response for the connection. -/
def render {X : HttpCrate} (resp : Response X) (config : ServerConfig) :
    Run (HttpResponse X.HeaderMap) :=
  expect "valid response".toList (X.finish resp.status (renderCalls resp config) resp.body)

/-! ### Dispatching -/

section Dispatch

variable {H : Type} {M : Matchit H} {X : HttpCrate}

/-- The handler calls made for a request, and the response.  Logging is left out. -/
def dispatch (serdeJson : SerdeJson) (handle : H → Request X → Run (Except Str (Response X)))
    (req : HttpRequest X) (router : Router M) (config : ServerConfig) (remote : SocketAddr) :
    List (H × Request X) × Run (HttpResponse X.HeaderMap) :=
  let queryString := req.query.getD []
  -- Collect body, capped at max_body_size.
  match collectBody req.body config.maxBodySize with
  | .error p => ([], .error p)
  | .ok (.error _) => ([], do
      let resp ← Response.internalError serdeJson "body too large or unreadable".toList
      render resp config)
  | .ok (.ok body) =>
    match parseQuery queryString with
    | .error p => ([], .error p)
    | .ok queryParams =>
      -- Match route.
      match router.matchRoute req.method req.path with
      | .error .notFound => ([], do
          let resp ← Response.notFound
          render resp config)
      | .error .methodNotAllowed => ([], do
          let resp ← Response.methodNotAllowed
          render resp config)
      | .error _ => ([], do
          let resp ← Response.internalError serdeJson "router error".toList
          render resp config)
      | .ok (handler, pathParams) =>
          let request : Request X :=
            { method := req.method.asStr, path := req.path, queryString, queryParams,
              headers := req.headers, pathParams, body, remoteAddr := some remote }
          ([(handler, request)], do
            let resp ← match ← handle handler request with
              | .ok resp => pure resp
              | .error e => Response.internalError serdeJson e
            render resp config)

end Dispatch

/-! ### Serving -/

/-- What the world answers to one start of the server: how a text parses as a socket address, and
whether the address can be bound. -/
structure Net where
  parseAddr : Str → Except Str SocketAddr
  bind : SocketAddr → Except Str Unit

/-- A ready-to-run server. -/
structure Server {H : Type} (M : Matchit H) where
  router : Router M
  config : ServerConfig

namespace Server

variable {H : Type} {M : Matchit H}

def new (router : Router M) (config : ServerConfig) : Server M := ⟨router, config⟩

/-- `Server::serve` up to its accept loop, which never ends: an error, or what it goes on to serve. -/
def serve (server : Server M) (net : Net) : Except Str (Server M) := do
  let addr ← net.parseAddr server.config.addrText
  net.bind addr
  pure server

/-- Either step may fail; what is served is what was handed over. -/
theorem serve_eq (server : Server M) (net : Net) :
    server.serve net =
      (net.parseAddr server.config.addrText >>= net.bind).map fun _ => server := by
  unfold serve
  cases net.parseAddr server.config.addrText with
  | error e => rfl
  | ok addr =>
      show (net.bind addr >>= fun _ => pure server) = (net.bind addr).map fun _ => server
      cases net.bind addr with
      | error e => rfl
      | ok u => rfl

end Server

end RustApi
