import RustApi.Engine.PathParams
import RustApi.Python.Serving

/-!
# What a client sends and a function sees

A client puts values into the holes of a route, pairs into a query string and a body into frames.
`request_arrives_as_sent` says that the function of the route is called with all of it: the values under the
names of their holes, the pairs under their keys, the body in one piece, and the headers as far as Python
can hold them; whatever else the server is doing between the frames.
-/

namespace RustApi

open RustStd StepRuns FormEncoding

/-- The request says what was sent: the head, the values in the holes of the route, the pairs of the query
and the body. -/
structure ArrivedAsSent {X : HttpCrate} (req : PyRequest) (remote : SocketAddr) (head : RequestHead X)
    (ps : List Piece) (values : List Str) (kvs : List (Str × Str)) (body : List (Except Str Frame)) :
    Prop where
  method_eq : req.method = head.method.asStr
  path_eq : req.path = head.path
  pathParams_get : ∀ e ∈ (holeNames ps).zip values, req.pathParams.get e.1 = some e.2
  pathParams_keys : ∀ k, k ∈ req.pathParams.keys ↔ k ∈ holeNames ps
  /-- Several values of a key are joined. -/
  queryParams_get : ∀ k ∈ kvs.map Prod.fst,
    req.queryParams.get k = some ([','].intercalate (valuesFor kvs k))
  queryParams_keys : ∀ k, k ∈ req.queryParams.keys ↔ k ∈ kvs.map Prod.fst
  /-- The last value that can be read. -/
  headers_get : ∀ n, req.headers.get (X.nameAsStr n) = (readableValues X head.headers n).getLast?
  body_eq : req.body = dataOf body
  remoteAddr_eq : req.remoteAddr = some remote.display

namespace Server

variable {F : Type} {M : Matchit (PyHandler F)} {X : HttpCrate}

/-- **What a client sends is what the function sees.**  Whatever the schedule, once the head and the body of
a request for a route have come, and no other route of the method matches, the function of the route has
been called, once, with a request that says what was sent; as long as Python can make the request object. -/
theorem request_arrives_as_sent {known : Str → Prop} (serdeJson : SerdeJson) (P : PyO3)
    (hN : X.NamesDocumented) (hfind : M.AtFindsMatches known) (hcap : M.AtReportsCaptures known)
    {calls : List (AddCall (PyHandler F))} (hknown : ∀ c ∈ calls, known c.pattern)
    (config : ServerConfig) (events : List (ServerEvent X)) (i : ℕ × ℕ) (python : Python F)
    (hnew : ∀ req, python.newRequest req = .ok ()) {remote : SocketAddr} {head : RequestHead X}
    {body : List (Except Str Frame)}
    (hsent : opening remote head body ++ [.task (.frame none)] <+:
      events.filterMap (ServerEvent.on i))
    (hread : Readable body config.maxBodySize) {c : AddCall (PyHandler F)}
    (hc : c ∈ Router.registered M calls) (hmethod : c.method = head.method) {ps : List Piece}
    {values : List Str} (hps : Route.parse c.pattern = some ps) (hfill : Fills ps values head.path)
    (hnames : (holeNames ps).Nodup)
    (honly : ∀ c' ∈ Router.registered M calls, c'.method = c.method →
      Route.Matches c'.pattern head.path → c' = c)
    {kvs : List (Str × Str)} (hquery : EncodedQuery kvs (head.query.getD [])) :
    let server : Server M := ⟨Router.after M calls, config⟩
    let ops := pythonOps P python
      (produced (entriesOf ServerEvent.on i (server.trace serdeJson events)))
    ∃ req, ops.filterMap PyOp.called = [(c.handler.callback, req)] ∧
      ArrivedAsSent req remote head ps values kvs body := by
  intro server ops
  let params := HashMap.collect ((holeNames ps).zip values)
  let request := requestOf (head.withBody body) remote params
  have hroute : server.router.matchRoute head.method head.path = .ok (c.handler, params) := by
    rw [← hmethod]
    exact Router.matchRoute_of_fills hfind hcap hknown hc hps hfill honly
  have hcalls : callsIn (produced (entriesOf ServerEvent.on i (server.trace serdeJson events))) =
      [(c.handler, request)] := by
    rw [entriesOf_trace]
    exact called_of_opening serdeJson server hsent hread hroute
  have hops : ops = (c.handler.handle P python request).1 := by
    show (callsIn _).flatMap _ = _
    rw [hcalls]
    exact List.flatMap_singleton _ _
  refine ⟨PyRequest.fromEngine request, ?_, ?_⟩
  · rw [hops]
    exact called_handle_of_newRequest P python c.handler request (hnew _)
  · obtain ⟨hget, hkeys⟩ := collect_holes hfill hnames
    have hpairs : (PyRequest.fromEngine request).queryParams = formMap kvs := by
      show formMap (queryPairs (head.query.getD [])) = formMap kvs
      rw [queryPairs_encoded hquery]
    refine ⟨rfl, rfl, hget, hkeys, ?_, ?_, ?_, rfl, rfl⟩
    · intro k hk
      rw [hpairs, get_formMap, if_neg]
      exact fun hnil => (valuesFor_eq_nil_iff kvs k).mp hnil hk
    · intro k
      rw [hpairs]
      exact mem_keys_formMap kvs k
    · exact fromEngine_headers_get hN request

/-- The user `42` is asked for, and the function sees `42` and the whole body. -/
theorem request_arrives_as_sent_user : ∃ req : PyRequest,
    (pythonOps plainPyO3 (pythonOf true (.str (pyStr "hi".toList)))
      (produced (entriesOf ServerEvent.on (0, 1) (pythonServer.trace plainJson
        (getUserEvents [] (replyOf plainPyO3 (.ok (.str (pyStr "hi".toList))))))))).filterMap
          PyOp.called = [(0, req)] ∧
    req.pathParams.get "id".toList = some "42".toList ∧ req.body = utf8 "abc".toList := by
  let body : List (Except Str Frame) :=
    [.ok (.data (utf8 "ab".toList)), .ok (.data (utf8 "c".toList))]
  have hread : Readable body ServerConfig.default.maxBodySize :=
    (readable_data _ _ _).mpr ⟨by decide, (readable_data _ _ _).mpr ⟨by decide, readable_nil _⟩⟩
  have hps : Route.parse "/users/{id}".toList =
      some ("/users/".toList.map .lit ++ [.param "id".toList]) := by decide
  have hfill : Fills ("/users/".toList.map .lit ++ [.param "id".toList]) ["42".toList]
      "/users/42".toList :=
    .lit (.lit (.lit (.lit (.lit (.lit (.lit (.param (by decide) (by decide) .nil)))))))
  have hsent : opening ⟨"127.0.0.1:5000".toList⟩ (getUserHead []) body ++ [.task (.frame none)] <+:
      (getUserEvents [] (replyOf plainPyO3 (.ok (.str (pyStr "hi".toList))))).filterMap
        (ServerEvent.on (0, 1)) := ⟨_, rfl⟩
  have hc : ⟨⟨"GET".toList⟩, "/users/{id}".toList, ⟨0⟩⟩ ∈
      Router.registered (routeList (PyHandler ℕ)) usersByFunction := by decide
  have hquery : EncodedQuery [] ((getUserHead []).query.getD []) := ⟨[], .nil, rfl⟩
  obtain ⟨req, hops, harrived⟩ := request_arrives_as_sent plainJson plainPyO3
    plainHttp_namesDocumented (routeList_atFindsMatches _ Route.Any)
    (routeList_atReportsCaptures _ Route.Any) (fun _ _ => trivial) .default _ (0, 1)
    (pythonOf true (.str (pyStr "hi".toList))) (fun _ => rfl) hsent hread hc rfl hps hfill
    (by decide) (by decide) hquery
  exact ⟨req, hops, harrived.pathParams_get ("id".toList, "42".toList) (List.mem_singleton_self _),
    harrived.body_eq⟩

end Server

end RustApi
