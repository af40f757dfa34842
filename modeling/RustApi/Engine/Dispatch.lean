import RustApi.Engine.PlainHttp
import RustApi.Engine.Rendering
import RustApi.Engine.RouterAnswers

/-!
# What happens to a request

`dispatch` ends in one of four ways, and there is one equation for each: the body cannot be collected
(`dispatch_unreadable`), the route is not found or its method is not allowed (`dispatch_notFound`,
`dispatch_methodNotAllowed`), or the handler is called (`dispatch_found`).  Put together with the
registration history of the router they give `dispatch_safe`, end to end.
-/

namespace RustApi

open RustStd StepRuns Router

variable {H : Type} {M : Matchit H} {X : HttpCrate}

section Cases

variable (serdeJson : SerdeJson) (handle : H → Request X → Run (Except Str (Response X)))
  {req : HttpRequest X} {router : Router M} {config : ServerConfig} (remote : SocketAddr)

/-- The request a handler is shown. -/
def requestOf (req : HttpRequest X) (remote : SocketAddr) (pathParams : HashMap Str Str) :
    Request X where
  method := req.method.asStr
  path := req.path
  queryString := req.query.getD []
  queryParams := FormEncoding.formMap (queryPairs (req.query.getD []))
  headers := req.headers
  pathParams := pathParams
  body := dataOf req.body
  remoteAddr := some remote

theorem dispatch_unreadable (h : ¬ Readable req.body config.maxBodySize) :
    dispatch serdeJson handle req router config remote = ([], do
      let resp ← Response.internalError serdeJson "body too large or unreadable".toList
      render resp config) := by
  obtain ⟨e, he⟩ := collectBody_of_not_readable h
  simp only [dispatch, he]

theorem dispatch_notFound (h : Readable req.body config.maxBodySize)
    (hroute : router.matchRoute req.method req.path = .error .notFound) :
    dispatch serdeJson handle req router config remote = ([], do
      let resp ← Response.notFound
      render resp config) := by
  simp only [dispatch, collectBody_of_readable h, parseQuery_eq, hroute]

theorem dispatch_methodNotAllowed (h : Readable req.body config.maxBodySize)
    (hroute : router.matchRoute req.method req.path = .error .methodNotAllowed) :
    dispatch serdeJson handle req router config remote = ([], do
      let resp ← Response.methodNotAllowed
      render resp config) := by
  simp only [dispatch, collectBody_of_readable h, parseQuery_eq, hroute]

theorem dispatch_found {found : H × HashMap Str Str} (h : Readable req.body config.maxBodySize)
    (hroute : router.matchRoute req.method req.path = .ok found) :
    (dispatch serdeJson handle req router config remote).1 =
      [(found.1, requestOf req remote found.2)] := by
  simp only [dispatch, collectBody_of_readable h, parseQuery_eq, hroute]
  rfl

/-- Which status a request without a handler call gets. -/
def RefusedWith (req : HttpRequest X) (router : Router M) (config : ServerConfig)
    (status : StatusCode) : Prop :=
  ¬ Readable req.body config.maxBodySize ∧ status = .internalServerError ∨
    Readable req.body config.maxBodySize ∧
      (router.matchRoute req.method req.path = .error .notFound ∧ status = .notFound ∨
        router.matchRoute req.method req.path = .error .methodNotAllowed ∧
          status = .methodNotAllowed)

/-- The three early returns are one: a response with a fixed content type is rendered. -/
theorem dispatch_refused (h : ¬ (Readable req.body config.maxBodySize ∧
    ∃ found, router.matchRoute req.method req.path = .ok found)) :
    ∃ status body, RefusedWith req router config status ∧
      dispatch serdeJson handle req router config remote = ([], do
        let resp ← Response.new status body "application/json; charset=utf-8".toList
        render resp config) := by
  by_cases hread : Readable req.body config.maxBodySize
  · rcases matchRoute_error_cases router req.method req.path with hroute | hroute | hroute
    · exact absurd ⟨hread, hroute⟩ h
    · exact ⟨_, _, .inr ⟨hread, .inr ⟨hroute, rfl⟩⟩,
        dispatch_methodNotAllowed serdeJson handle remote hread hroute⟩
    · exact ⟨_, _, .inr ⟨hread, .inl ⟨hroute, rfl⟩⟩,
        dispatch_notFound serdeJson handle remote hread hroute⟩
  · exact ⟨_, _, .inl ⟨hread, rfl⟩, dispatch_unreadable serdeJson handle remote hread⟩

end Cases

/-! ### The responses of the engine itself -/

theorem validHeaderValue_json : ValidHeaderValue "application/json; charset=utf-8".toList := by
  decide

/-- A response of the engine is rendered with its own status. -/
theorem render_new (hX : X.Documented) {config : ServerConfig}
    (hname : ValidHeaderValue config.serverName) (status : StatusCode) (body : Bytes) :
    ∃ out, (do
      let resp ← (Response.new status body "application/json; charset=utf-8".toList :
        Run (Response X))
      render resp config) = .ok out ∧ out.status = status := by
  obtain ⟨resp, hresp, hcarries⟩ := (Response.new_spec hX status body _).1 validHeaderValue_json
  obtain ⟨out, hout, hstatus, -⟩ := render_of_valid hX hname (carries_withinLimit hX hcarries config)
  refine ⟨out, ?_, hstatus.trans hcarries.status_eq⟩
  rw [hresp, Run.ok_bind, hout]

/-! ### Dispatch safety -/

/-- **At most one handler runs, and only for a readable request that matches a registered route.**
What it is shown is the request: the whole body and nothing else, the parsed query, the extracted
parameters.  Otherwise the status says what was wrong. -/
theorem dispatch_safe (hM : M.AtReturnsInserted) (hX : X.Documented) (serdeJson : SerdeJson)
    (handle : H → Request X → Run (Except Str (Response X))) (calls : List (AddCall H))
    (config : ServerConfig) (hname : ValidHeaderValue config.serverName) (req : HttpRequest X)
    (remote : SocketAddr) :
    let result := dispatch serdeJson handle req (after M calls) config remote
    result.1.length ≤ 1 ∧
    (result.1 ≠ [] ↔ Readable req.body config.maxBodySize ∧
      ∃ found, (after M calls).matchRoute req.method req.path = .ok found) ∧
    (∀ handler request, (handler, request) ∈ result.1 →
      (∃ c ∈ registered M calls, c.method = req.method ∧ c.handler = handler) ∧
      request.body = dataOf req.body ∧ request.body.length ≤ config.maxBodySize ∧
      parseQuery (req.query.getD []) = .ok request.queryParams ∧
      (after M calls).matchRoute req.method req.path = .ok (handler, request.pathParams)) ∧
    (result.1 = [] → ∃ out, result.2 = .ok out ∧
      (¬ Readable req.body config.maxBodySize ∧ out.status = .internalServerError ∨
        Readable req.body config.maxBodySize ∧
          ((after M calls).matchRoute req.method req.path = .error .notFound ∧
              out.status = .notFound ∨
            (after M calls).matchRoute req.method req.path = .error .methodNotAllowed ∧
              out.status = .methodNotAllowed))) := by
  intro result
  by_cases hserved : Readable req.body config.maxBodySize ∧
      ∃ found, (after M calls).matchRoute req.method req.path = .ok found
  · obtain ⟨hread, found, hroute⟩ := hserved
    have hresult : result.1 = [(found.1, requestOf req remote found.2)] :=
      dispatch_found serdeJson handle remote hread hroute
    rw [hresult]
    refine ⟨Nat.le_refl 1, ?_, ?_, ?_⟩
    · exact iff_of_true (List.cons_ne_nil _ _) ⟨hread, found, hroute⟩
    · intro handler request hmem
      rw [List.mem_singleton, Prod.mk.injEq] at hmem
      obtain ⟨rfl, rfl⟩ := hmem
      exact ⟨matchRoute_handler hM hroute, rfl, hread.2, parseQuery_eq _, hroute⟩
    · intro hnil
      cases hnil
  · obtain ⟨status, body, hstatus, hresult⟩ :=
      dispatch_refused serdeJson handle remote hserved
    rw [show result = _ from hresult]
    refine ⟨Nat.zero_le 1, ?_, ?_, ?_⟩
    · exact iff_of_false (fun h => h rfl) hserved
    · intro handler request hmem
      cases hmem
    · intro _
      obtain ⟨out, hout, hsame⟩ := render_new hX hname status body
      refine ⟨out, hout, ?_⟩
      rw [hsame]
      exact hstatus

/-- A handler that sends the body back. -/
def echo (_ : ℕ) (request : Request plainHttp) : Run (Except Str (Response plainHttp)) := do
  let resp ← Response.text request.body
  pure (.ok resp)

/-- A request with its body in two data frames and a trailer. -/
def getUser : HttpRequest plainHttp where
  method := ⟨"GET".toList⟩
  path := "/users/42".toList
  query := some "full=1".toList
  headers := []
  body := [.ok (.data (utf8 "ab".toList)), .ok .trailers, .ok (.data (utf8 "c".toList))]

theorem readable_getUser : Readable getUser.body ServerConfig.default.maxBodySize := by
  refine ⟨?_, by decide⟩
  intro frame hframe
  simp only [getUser, List.mem_cons, List.not_mem_nil, or_false] at hframe
  rcases hframe with h | h | h
  · exact ⟨_, h⟩
  · exact ⟨_, h⟩
  · exact ⟨_, h⟩

theorem dispatch_safe_getUser :
    (dispatch plainJson echo getUser (after (routeList ℕ) usersById) ServerConfig.default
      ⟨"127.0.0.1:5000".toList⟩).1 ≠ [] ∧
    ∀ handler request, (handler, request) ∈ (dispatch plainJson echo getUser
      (after (routeList ℕ) usersById) ServerConfig.default ⟨"127.0.0.1:5000".toList⟩).1 →
      handler = 0 ∧ request.body = utf8 "abc".toList := by
  have hsafe := dispatch_safe (routeList_atReturnsInserted ℕ) plainHttp_documented plainJson echo
    usersById ServerConfig.default (by decide) getUser ⟨"127.0.0.1:5000".toList⟩
  refine ⟨hsafe.2.1.mpr ⟨readable_getUser, ?_⟩, ?_⟩
  · exact ⟨(0, HashMap.collect [("id".toList, "42".toList)]), by decide⟩
  · intro handler request hmem
    obtain ⟨⟨c, hc, -, hhandler⟩, hbody, -⟩ := hsafe.2.2.1 handler request hmem
    refine ⟨?_, hbody⟩
    rw [← hhandler]
    have hall : ∀ c ∈ registered (routeList ℕ) usersById, c.handler = 0 := by decide
    exact hall c hc

end RustApi
