import RustApi.Engine.ServingSafety
import RustApi.Python.Answers

/-!
# Serving with Python handlers

The schedules of `Serving`, where the handlers are Python functions and every answer is the one that
`PyHandler::handle` gives.  Python may do something else for every stream.

* `function_called_once` — a request leads to one call of one function at most, which sees that request.
* `answered_for_value` — what is answered is the response for what the function comes to.
* `aborts_iff_bad_contentType` — with few headers in each response, the only way for handlers to end a
  release build is a content type that is no header value.
* `no_header_injection` — no header value that goes out holds a line break.
-/

namespace RustApi

open RustStd StepRuns

namespace Server

variable {F : Type} {M : Matchit (PyHandler F)} {X : HttpCrate}

section Calls

variable (serdeJson : SerdeJson) (P : PyO3)

/-- What the handlers that were called on a stream do in Python. -/
def pythonOps (python : Python F) (outs : List (Output (PyHandler F) X)) : List (PyOp F) :=
  (callsIn outs).flatMap fun call => (call.1.handle P python call.2).1

/-- **A request leads to one call of one Python function at most.**  The function is one that was registered
for the method of the request; it is called once the whole body has come, and sees this request.  Nothing
else is done in Python but to get to the call and from it to the response. -/
theorem function_called_once (hM : M.AtReturnsInserted) (calls : List (AddCall (PyHandler F)))
    (config : ServerConfig) (events : List (ServerEvent X)) (i : ℕ × ℕ) (python : Python F) :
    let server : Server M := ⟨Router.after M calls, config⟩
    let entries := entriesOf ServerEvent.on i (server.trace serdeJson events)
    let ops := pythonOps P python (produced entries)
    (ops.filterMap PyOp.called).length ≤ 1 ∧
    ∀ op ∈ ops, ∃ remote head body, opening remote head body ++ [.task (.frame none)] <+: accepted entries ∧
      ∃ handler pathParams, server.router.matchRoute head.method head.path = .ok (handler, pathParams) ∧
        (∃ c ∈ Router.registered M calls, c.method = head.method ∧ c.handler = handler) ∧
        Performed python handler.callback
          (PyRequest.fromEngine (requestOf (head.withBody body) remote pathParams)) op := by
  intro server entries ops
  have hentries : entries = _ := entriesOf_trace serdeJson server events i
  obtain ⟨hlen, -⟩ := shape_of_stream serdeJson server (events.filterMap (ServerEvent.on i))
  rw [← hentries] at hlen
  constructor
  · show (((callsIn (produced entries)).flatMap fun call =>
      (call.1.handle P python call.2).1).filterMap PyOp.called).length ≤ 1
    match hcalls : callsIn (produced entries), hlen with
    | [], _ => exact Nat.zero_le 1
    | [call], _ =>
        rw [List.flatMap_singleton]
        exact (called_handle P python call.1 call.2).length_le
  · intro op hop
    obtain ⟨⟨handler, request⟩, hcall, hop⟩ := List.mem_flatMap.mp hop
    have hperformed := (mem_handle P python handler request).mp hop
    rw [hentries] at hcall ⊢
    obtain ⟨remote, head, body, hopening, -, hroute, hrequest⟩ :=
      call_of_stream serdeJson server hcall
    refine ⟨remote, head, body, hopening, handler, request.pathParams, hroute,
      Router.matchRoute_handler hM hroute, ?_⟩
    rw [← hrequest]
    exact hperformed

end Calls

/-- A function that returns at once, or else an awaitable that comes to the same. -/
def pythonOf (awaited : Bool) (v : PyVal) : Python ℕ where
  newRequest _ := .ok ()
  call1 _ _ := .ok (if awaited then .object "coroutine".toList none none else v)
  isawaitable _ := .ok awaited
  spawnBlocking _ := .ok (.ok v)

theorem comesTo_pythonOf (awaited : Bool) (v : PyVal) (callback : ℕ) (req : PyRequest) :
    (pythonOf awaited v).comesTo callback req = .ok v := by
  cases awaited <;> rfl

/-- The function `0` serves the users by their id. -/
def usersByFunction : List (AddCall (PyHandler ℕ)) := [⟨⟨"GET".toList⟩, "/users/{id}".toList, ⟨0⟩⟩]

def pythonServer : Server (routeList (PyHandler ℕ)) :=
  ⟨Router.after (routeList (PyHandler ℕ)) usersByFunction, .default⟩

theorem function_called_once_getUser :
    let entries := entriesOf ServerEvent.on (0, 1) (pythonServer.trace plainJson
      (getUserEvents [] (replyOf plainPyO3 (.ok (.str (pyStr "hi".toList))))))
    let ops := pythonOps plainPyO3 (pythonOf true (.str (pyStr "hi".toList))) (produced entries)
    (ops.filterMap PyOp.called).length = 1 := by
  intro entries ops
  have honce := (function_called_once plainJson plainPyO3 (routeList_atReturnsInserted _)
    usersByFunction .default (getUserEvents [] (replyOf plainPyO3 (.ok (.str (pyStr "hi".toList)))))
    (0, 1) (pythonOf true (.str (pyStr "hi".toList)))).1
  have hpos : 0 < (ops.filterMap PyOp.called).length := by decide +kernel
  exact Nat.le_antisymm honce hpos

section Answers

variable (serdeJson : SerdeJson) {P : PyO3} (server : Server M)

/-- A request for a route has been delivered whole, and its function has answered: `found` is the handler
with the path parameters, and `value` what its function comes to. -/
structure Delivered (P : PyO3) (server : Server M) (events : List (ServerEvent X)) (i : ℕ × ℕ)
    (python : Python F) (x : Exchange X) (found : PyHandler F × HashMap Str Str)
    (value : Except Str PyVal) : Prop where
  events_prefix : x.events <+: events.filterMap (ServerEvent.on i)
  readable : Readable x.body server.config.maxBodySize
  route : server.router.matchRoute x.head.method x.head.path = .ok found
  reply : x.reply = (found.1.handle P python
    (requestOf (x.head.withBody x.body) x.remote found.2)).2
  value_eq : python.comesTo found.1.callback (PyRequest.fromEngine
    (requestOf (x.head.withBody x.body) x.remote found.2)) = value

/-- What is done then: the call, and the response for the value. -/
theorem Delivered.outs_eq {events : List (ServerEvent X)} {i : ℕ × ℕ} {python : Python F}
    {x : Exchange X} {found : PyHandler F × HashMap Str Str} {value : Except Str PyVal}
    (h : Delivered P server events i python x found value) (hX : X.Documented) (hP : P.Documented)
    {status : StatusCode} {contentType : Str} {headers : List (Str × Str)} {body : Bytes}
    (hanswer : AnswerFor P serdeJson value status contentType headers body) :
    produced (entriesOf ServerEvent.on i (server.trace serdeJson events)) =
      [.called found.1 (requestOf (x.head.withBody x.body) x.remote found.2),
        .ofRun (sendRun server.config status contentType headers body)] := by
  rw [entriesOf_trace, (stream_run_of_delivered serdeJson server h.events_prefix).2,
    exchangeOutputs_found serdeJson server h.readable h.route, replied, h.reply, handle_snd,
    h.value_eq, replyRun_of_answerFor server hX hP hanswer]

/-- With a valid content type and few headers the response goes out. -/
theorem Delivered.exists_sent {events : List (ServerEvent X)} {i : ℕ × ℕ} {python : Python F}
    {x : Exchange X} {found : PyHandler F × HashMap Str Str} {value : Except Str PyVal}
    (h : Delivered P server events i python x found value) (hX : X.Documented) (hP : P.Documented)
    (hname : ValidHeaderValue server.config.serverName) {status : StatusCode} {contentType : Str}
    {headers : List (Str × Str)} {body : Bytes}
    (hanswer : AnswerFor P serdeJson value status contentType headers body)
    (hlen : headers.length + 2 ≤ X.maxNames) (hct : ValidHeaderValue contentType) :
    ∃ out, produced (entriesOf ServerEvent.on i (server.trace serdeJson events)) =
        [.called found.1 (requestOf (x.head.withBody x.body) x.remote found.2), .answered out] ∧
      Sent server.config out status contentType headers body := by
  obtain ⟨out, hout, hsent⟩ := (sendRun_spec hX hname status contentType body hlen).1 hct
  refine ⟨out, ?_, hsent⟩
  rw [h.outs_eq serdeJson server hX hP hanswer, hout]
  rfl

/-- **The answer is the one for the value.**  Whatever the schedule, once a request for a route has been
delivered and its function has answered, the response that is handed on is the one for what the function
comes to; a content type that is no header value ends the call in a panic. -/
theorem answered_for_value (hX : X.Documented) (hP : P.Documented)
    (hname : ValidHeaderValue server.config.serverName) (events : List (ServerEvent X)) (i : ℕ × ℕ)
    (python : Python F) {x : Exchange X} {found : PyHandler F × HashMap Str Str}
    {value : Except Str PyVal} (h : Delivered P server events i python x found value)
    {status : StatusCode} {contentType : Str} {headers : List (Str × Str)} {body : Bytes}
    (hanswer : AnswerFor P serdeJson value status contentType headers body)
    (hlen : headers.length + 2 ≤ X.maxNames) :
    let request := requestOf (x.head.withBody x.body) x.remote found.2
    let outs := produced (entriesOf ServerEvent.on i (server.trace serdeJson events))
    (ValidHeaderValue contentType → ∃ out, outs = [.called found.1 request, .answered out] ∧
      Sent server.config out status contentType headers body) ∧
    (¬ ValidHeaderValue contentType → outs = [.called found.1 request, .panicked .unwrapFailed]) := by
  intro request outs
  refine ⟨h.exists_sent serdeJson server hX hP hname hanswer hlen, ?_⟩
  intro hct
  show produced (entriesOf _ _ _) = _
  rw [h.outs_eq serdeJson server hX hP hanswer,
    (sendRun_spec hX hname status contentType body hlen).2 hct]
  rfl

/-- A user is asked for, and the function comes to the given value. -/
def userExchange (headers : List (Bytes × Bytes)) (value : Except Str PyVal) : Exchange plainHttp where
  remote := ⟨"127.0.0.1:5000".toList⟩
  head := getUserHead headers
  body := [.ok (.data (utf8 "ab".toList)), .ok (.data (utf8 "c".toList))]
  reply := replyOf plainPyO3 value

theorem delivered_user (headers : List (Bytes × Bytes)) {python : Python ℕ}
    {value : Except Str PyVal} (h : ∀ callback req, python.comesTo callback req = value) :
    ∃ found, Delivered plainPyO3 pythonServer (getUserEvents headers (replyOf plainPyO3 value)) (0, 1)
      python (userExchange headers value) found value := by
  have hsome : (pythonServer.router.matchRoute ⟨"GET".toList⟩ "/users/42".toList).isOk = true := by
    decide +kernel
  cases hmatch : pythonServer.router.matchRoute ⟨"GET".toList⟩ "/users/42".toList with
  | error e =>
      rw [hmatch] at hsome
      cases hsome
  | ok found =>
      refine ⟨found, List.prefix_refl _, ?_, hmatch, ?_, h _ _⟩
      · exact (readable_data _ _ _).mpr ⟨by decide, (readable_data _ _ _).mpr ⟨by decide,
          readable_nil _⟩⟩
      · rw [handle_snd, h]
        rfl

theorem answered_for_value_text : ∃ handler request out,
    produced (entriesOf ServerEvent.on (0, 1) (pythonServer.trace plainJson (getUserEvents []
      (replyOf plainPyO3 (.ok (.str (pyStr "hi".toList))))))) =
        [.called handler request, .answered out] ∧
    Sent ServerConfig.default out .ok "text/plain; charset=utf-8".toList [] (utf8 "hi".toList) := by
  obtain ⟨found, hdelivered⟩ := delivered_user [] (comesTo_pythonOf true (.str (pyStr "hi".toList)))
  obtain ⟨out, hout, hsent⟩ := (answered_for_value plainJson pythonServer plainHttp_documented
    plainPyO3_documented (by decide) _ _ _ hdelivered (.str _) (by decide)).1 (by decide)
  exact ⟨_, _, out, hout, hsent⟩

/-- Every answer is the one that the handler of its call gives, the Python of the stream `i` being
`python i`. -/
def AnswersAreHandlers (P : PyO3) (serdeJson : SerdeJson) (server : Server M)
    (python : ℕ × ℕ → Python F) (events : List (ServerEvent X)) : Prop :=
  ∀ i reply, .task (.reply reply) ∈
      accepted (entriesOf ServerEvent.on i (server.trace serdeJson events)) →
    ∀ handler request, (handler, request) ∈
        callsIn (produced (entriesOf ServerEvent.on i (server.trace serdeJson events))) →
      reply = (handler.handle P (python i) request).2

/-- An answer is what its handler returns for what the function comes to. -/
theorem AnswersAreHandlers.reply_eq {python : ℕ × ℕ → Python F} {events : List (ServerEvent X)}
    (h : AnswersAreHandlers P serdeJson server python events) {i : ℕ × ℕ}
    {reply : Run (Except Str (Response X))} (hmem : .task (.reply reply) ∈
      accepted (entriesOf ServerEvent.on i (server.trace serdeJson events))) :
    ∃ handler request, (handler, request) ∈
        callsIn (produced (entriesOf ServerEvent.on i (server.trace serdeJson events))) ∧
      reply = replyOf P ((python i).comesTo handler.callback (PyRequest.fromEngine request)) := by
  have hcall := hmem
  rw [entriesOf_trace] at hcall
  obtain ⟨handler, request, hcall⟩ := called_of_reply serdeJson server hcall
  rw [← entriesOf_trace] at hcall
  refine ⟨handler, request, hcall, ?_⟩
  rw [h i reply hmem handler request hcall, handle_snd]

/-- **How handlers can end a release build.**  If the responses have few headers, they do so exactly when
one comes to a `Response` whose content type is no header value: no exception, no other value and no other
field of a `Response` can do it. -/
theorem aborts_iff_bad_contentType (hX : X.Documented) (hP : P.Documented)
    (hname : ValidHeaderValue server.config.serverName) (profile : Profile)
    (events : List (ServerEvent X)) (python : ℕ × ℕ → Python F)
    (hanswers : AnswersAreHandlers P serdeJson server python events)
    (hfew : ∀ i handler request, (handler, request) ∈
        callsIn (produced (entriesOf ServerEvent.on i (server.trace serdeJson events))) →
      ∀ r, (python i).comesTo handler.callback (PyRequest.fromEngine request) = .ok (.response r) →
        r.headers.entries.length + 2 ≤ X.maxNames) :
    server.processAfter serdeJson profile events = none ↔ profile = .release ∧
      ∃ i handler request r, (∃ reply, .task (.reply reply) ∈
          accepted (entriesOf ServerEvent.on i (server.trace serdeJson events))) ∧
        (handler, request) ∈
          callsIn (produced (entriesOf ServerEvent.on i (server.trace serdeJson events))) ∧
        (python i).comesTo handler.callback (PyRequest.fromEngine request) = .ok (.response r) ∧
        ¬ ValidHeaderValue r.contentType := by
  rw [processAfter_of_valid serdeJson server hX profile events hname]
  refine and_congr_right fun _ => exists_congr fun i => ?_
  constructor
  · intro h
    obtain ⟨reply, p, hmem, hpanic⟩ := h
    obtain ⟨handler, request, hcall, rfl⟩ := hanswers.reply_eq serdeJson server hmem
    obtain ⟨r, hr, hct⟩ := (answer_panics_iff server hX hP serdeJson hname
      (hfew i handler request hcall)).mp ⟨p, hpanic⟩
    exact ⟨handler, request, r, ⟨_, hmem⟩, hcall, hr, hct⟩
  · intro h
    obtain ⟨handler, request, r, ⟨reply, hmem⟩, hcall, hr, hct⟩ := h
    obtain ⟨p, hpanic⟩ := (answer_panics_iff server hX hP serdeJson hname
      (hfew i handler request hcall)).mpr ⟨r, hr, hct⟩
    refine ⟨reply, p, hmem, ?_⟩
    rw [hanswers i reply hmem handler request hcall, handle_snd]
    exact hpanic

/-- The answers for a user come from the function. -/
theorem answersAreHandlers_user (awaited : Bool) (v : PyVal) :
    AnswersAreHandlers plainPyO3 plainJson pythonServer (fun _ => pythonOf awaited v)
      (getUserEvents [] (replyOf plainPyO3 (.ok v))) := by
  intro i reply hmem handler request _
  rw [handle_snd, comesTo_pythonOf]
  rw [entriesOf_trace] at hmem
  exact reply_of_getUserEvents (mem_of_mem_accepted hmem)

/-- A `Response` with a newline in its content type ends the process. -/
theorem aborts_iff_bad_contentType_newline :
    pythonServer.processAfter plainJson .release
      (getUserEvents [] (replyOf plainPyO3 (.ok (.response newlineResponse)))) = none := by
  let reply : Run (Except Str (Response plainHttp)) :=
    replyOf plainPyO3 (.ok (.response newlineResponse))
  have hanswers := answersAreHandlers_user false (.response newlineResponse)
  have haborts := aborts_iff_bad_contentType plainJson pythonServer plainHttp_documented
    plainPyO3_documented (by decide) .release (getUserEvents [] reply)
    (fun _ => pythonOf false (.response newlineResponse)) hanswers ?_
  · have hreply : .task (.reply reply) ∈ accepted (entriesOf ServerEvent.on (0, 1)
        (pythonServer.trace plainJson (getUserEvents [] reply))) := List.mem_of_getLast? rfl
    obtain ⟨handler, request, hcall, -⟩ := hanswers.reply_eq plainJson pythonServer hreply
    exact haborts.mpr ⟨rfl, (0, 1), handler, request, newlineResponse, ⟨reply, hreply⟩, hcall,
      comesTo_pythonOf _ _ _ _, by decide⟩
  · intro i handler request _ r hr
    rw [comesTo_pythonOf] at hr
    cases hr
    decide

/-- **No handler can smuggle anything into a header.**  Whatever the functions come to and whatever the
schedule, no header value that goes out holds a line break or any other control byte but a tab. -/
theorem no_header_injection (hX : X.Documented) (hP : P.Documented) (events : List (ServerEvent X))
    (python : ℕ × ℕ → Python F) (hanswers : AnswersAreHandlers P serdeJson server python events)
    (i : ℕ × ℕ) (out : HttpResponse X.HeaderMap) (hout : .answered out ∈
      produced (entriesOf ServerEvent.on i (server.trace serdeJson events))) :
    ∀ n, ∀ v ∈ X.valuesOf out.headers n, ∀ b ∈ X.valueAsBytes v, forbiddenByte b = false := by
  have hsent : ∃ status contentType headers body, Sent server.config out status contentType headers
      body := by
    obtain ⟨e, outs, hentry, hmem⟩ := mem_produced.mp hout
    have htrace := hentry
    rw [entriesOf_trace] at htrace
    obtain ⟨before, -, hstep⟩ := (mem_traceFrom _).mp htrace
    have hsteps := streamSteps_of_ok serdeJson server hstep.symm
    obtain ⟨-, result, hresult, hcases⟩ := ends_step serdeJson server hsteps hmem rfl
    have hok := ofRun_eq_answered_iff.mp hresult.symm
    rcases hcases with ⟨status, text, rfl⟩ | ⟨reply, rfl, rfl⟩
    · exact ⟨status, _, [], text, sent_of_sendRun hX hok⟩
    · have haccepted : .task (.reply reply) ∈
          accepted (entriesOf ServerEvent.on i (server.trace serdeJson events)) :=
        mem_accepted.mpr ⟨outs, hentry⟩
      obtain ⟨handler, request, -, rfl⟩ := hanswers.reply_eq serdeJson server haccepted
      obtain ⟨status, contentType, headers, body, hanswer⟩ := exists_answerFor hP serdeJson
        ((python i).comesTo handler.callback (PyRequest.fromEngine request))
      rw [replyRun_of_answerFor server hX hP hanswer] at hok
      exact ⟨status, contentType, headers, body, sent_of_sendRun hX hok⟩
  obtain ⟨status, contentType, headers, body, hsent⟩ := hsent
  intro n v hv
  obtain ⟨s, hs⟩ := hsent.value_checked hv
  have hvalid : ValidHeaderValue s := (hX.valueFromStr_isSome s).mp (by rw [hs]; rfl)
  rw [hX.valueFromStr_bytes s v hs]
  exact hvalid

/-- A response that tries to set a cookie from inside a header. -/
def splittingResponse : PyResponse where
  statusCode := 200
  headers := ⟨[("x-id".toList, "7\r\nset-cookie: a=b".toList), ("x-tag".toList, "ok".toList)], by decide⟩
  body := []
  contentType := "text/plain".toList

theorem no_header_injection_splitting : ∃ out,
    .answered out ∈ produced (entriesOf ServerEvent.on (0, 1) (pythonServer.trace plainJson
      (getUserEvents [] (replyOf plainPyO3 (.ok (.response splittingResponse)))))) ∧
    ∀ n, ∀ v ∈ plainHttp.valuesOf out.headers n, ∀ b ∈ plainHttp.valueAsBytes v,
      forbiddenByte b = false := by
  obtain ⟨found, hdelivered⟩ :=
    delivered_user [] (comesTo_pythonOf true (.response splittingResponse))
  obtain ⟨out, hout, -⟩ := hdelivered.exists_sent plainJson pythonServer plainHttp_documented
    plainPyO3_documented (by decide) (.response splittingResponse) (by decide) (by decide)
  have hmem : .answered out ∈ produced (entriesOf ServerEvent.on (0, 1)
      (pythonServer.trace plainJson
        (getUserEvents [] (replyOf plainPyO3 (.ok (.response splittingResponse)))))) := by
    rw [hout]
    exact List.mem_cons_of_mem _ (List.mem_singleton_self _)
  exact ⟨out, hmem, no_header_injection plainJson pythonServer plainHttp_documented
    plainPyO3_documented _ _ (answersAreHandlers_user true _) (0, 1) out hmem⟩

end Answers

end Server

end RustApi
