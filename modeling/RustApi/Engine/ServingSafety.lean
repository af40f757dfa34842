import Mathlib.Algebra.BigOperators.Group.Finset.Basic
import Mathlib.Algebra.Order.BigOperators.Group.Finset
import RustApi.Engine.ServingRuns

/-!
# What no schedule can bring about

Three properties of every schedule of the accept loop and its tasks.

* `calls_of_schedule` — a request leads to at most one handler call; the call is made once the whole body
  has come, and shows the handler that request and nothing of any other.
* `buffered_of_schedule` — the bodies that are being collected never outgrow their limit, one by one or
  together.
* `aborts_iff` — in the release profile the process ends with the first response that cannot be
  rendered or built; with a valid server string that is a matter of the handlers alone.
-/

namespace RustApi

open RustStd StepRuns

/-- The handler calls among what was done. -/
def callsIn {H : Type} {X : HttpCrate} (outs : List (Output H X)) : List (H × Request X) :=
  outs.filterMap fun out => match out with
    | .called handler request => some (handler, request)
    | _ => none

theorem mem_callsIn {H : Type} {X : HttpCrate} {outs : List (Output H X)} {handler : H}
    {request : Request X} :
    (handler, request) ∈ callsIn outs ↔ .called handler request ∈ outs := by
  rw [callsIn, List.mem_filterMap]
  constructor
  · intro h
    obtain ⟨out, hmem, hout⟩ := h
    cases out with
    | called h r =>
        cases hout
        exact hmem
    | answered response => cases hout
    | panicked p => cases hout
  · intro h
    exact ⟨_, h, rfl⟩

@[simp] theorem callsIn_ofRun {H : Type} {X : HttpCrate}
    (result : Run (HttpResponse X.HeaderMap)) : callsIn [(Output.ofRun result : Output H X)] = [] := by
  cases result <;> rfl

/-- The bytes that a call of `dispatch` has buffered. -/
def Task.buffered {X : HttpCrate} : Task X → ℕ
  | .collecting _ s => s.collected.length
  | _ => 0

/-- Is the body still being read? -/
def Task.isCollecting {X : HttpCrate} : Task X → Bool
  | .collecting _ _ => true
  | _ => false

/-- While its body is being read a stream holds what has come, within the limit. -/
theorem Taken.budget {X : HttpCrate} {n : ℕ} {events : List (StreamEvent X)} {remote : SocketAddr}
    {head : RequestHead X} {s : CollectState}
    (h : Taken n events (some remote, .collecting head s)) :
    s.remaining + s.collected.length = n ∧
      ∃ body, events = opening remote head body ∧ s.collected = dataOf body := by
  cases h with
  | @collecting _ _ body _ hloop =>
      have hbudget := (hloop []).budget
      exact ⟨hbudget, body, rfl, collected_of_loopState hloop⟩

theorem Taken.buffered_le {X : HttpCrate} {n : ℕ} {events : List (StreamEvent X)}
    {stream : Stream X} (h : Taken n events stream) :
    stream.2.buffered ≤ if stream.2.isCollecting then n else 0 := by
  obtain ⟨remote, task⟩ := stream
  cases task with
  | collecting head s =>
      cases remote with
      | none => cases h
      | some remote =>
          have hbudget := h.budget.1
          show s.collected.length ≤ n
          omega
  | idle => exact Nat.zero_le _
  | handling => exact Nat.zero_le _
  | finished => exact Nat.zero_le _

namespace Server

variable {H : Type} {M : Matchit H} {X : HttpCrate}
variable (serdeJson : SerdeJson) (server : Server M)

/-- An exchange that gets to a handler: the call, then the answer. -/
theorem exchangeOutputs_found {x : Exchange X} {found : H × HashMap Str Str}
    (hread : Readable x.body server.config.maxBodySize)
    (hroute : server.router.matchRoute x.head.method x.head.path = .ok found) :
    exchangeOutputs serdeJson server x =
      [.called found.1 (requestOf (x.head.withBody x.body) x.remote found.2),
        replied serdeJson server x.reply] := by
  rw [exchangeOutputs_eq, collectBody_of_readable hread, afterBody]
  simp only [bodyRead, parseQuery_eq, hroute]
  rfl

/-- Any other exchange: an answer of the engine. -/
theorem exchangeOutputs_refused {x : Exchange X}
    (h : ¬ (Readable x.body server.config.maxBodySize ∧
      ∃ found, server.router.matchRoute x.head.method x.head.path = .ok found)) :
    ∃ status body, exchangeOutputs (H := H) serdeJson server x = [.ofRun do
      let resp ← Response.new status body "application/json; charset=utf-8".toList
      render resp server.config] := by
  let req := x.head.withBody x.body
  have hrefused : ¬ (Readable req.body server.config.maxBodySize ∧
      ∃ found, server.router.matchRoute req.method req.path = .ok found) := h
  obtain ⟨status, body, -, hdispatch⟩ := dispatch_refused (H := H) (M := M) serdeJson
    (fun _ _ => x.reply) x.remote hrefused
  refine ⟨status, body, ?_⟩
  rw [exchangeOutputs, hdispatch]
  rfl

/-- What is done anywhere is done on a stream. -/
theorem mem_produced_trace (events : List (ServerEvent X)) (out : Output H X) :
    out ∈ produced (server.trace serdeJson events) ↔
      ∃ i, out ∈ produced (entriesOf ServerEvent.on i (server.trace serdeJson events)) := by
  simp only [mem_produced]
  constructor
  · intro h
    obtain ⟨e, outs, hmem, hout⟩ := h
    cases e with
    | acceptFailed error =>
        obtain ⟨before, -, hnone⟩ := (mem_traceFrom _).mp hmem
        cases hnone
        cases hout
    | conn c e =>
        cases e with
        | accepted remote =>
            exact ⟨(c, 0), .accepted remote, outs, mem_entriesOf.mpr ⟨_, hmem, if_pos rfl⟩, hout⟩
        | stream n e =>
            exact ⟨(c, n), .task e, outs, mem_entriesOf.mpr ⟨_, hmem, if_pos ⟨rfl, rfl⟩⟩, hout⟩
  · intro h
    obtain ⟨i, j, outs, hmem, hout⟩ := h
    obtain ⟨e, he, -⟩ := mem_entriesOf.mp hmem
    exact ⟨e, outs, he, hout⟩

/-! ### Handler calls -/

/-- Whatever of an exchange has been done: at most one call, and after it at most one end. -/
theorem shape_of_prefix {outs : List (Output H X)} {x : Exchange X}
    (h : outs <+: exchangeOutputs serdeJson server x) :
    (callsIn outs).length ≤ 1 ∧ ∃ ends, ends.length ≤ 1 ∧ callsIn ends = [] ∧
      outs = (callsIn outs).map (fun call => .called call.1 call.2) ++ ends := by
  by_cases hserved : Readable x.body server.config.maxBodySize ∧
      ∃ found, server.router.matchRoute x.head.method x.head.path = .ok found
  · obtain ⟨hread, found, hroute⟩ := hserved
    rw [exchangeOutputs_found serdeJson server hread hroute, List.prefix_cons_iff] at h
    rcases h with rfl | ⟨outs, rfl, h⟩
    · exact ⟨Nat.zero_le 1, [], Nat.zero_le 1, rfl, rfl⟩
    · rw [List.prefix_cons_iff] at h
      rcases h with rfl | ⟨outs, rfl, h⟩
      · exact ⟨show 1 ≤ 1 from Nat.le_refl 1, [], Nat.zero_le 1, rfl, rfl⟩
      · rw [List.prefix_nil] at h
        subst h
        have hcalls : callsIn [Output.called found.1
            (requestOf (x.head.withBody x.body) x.remote found.2),
              replied serdeJson server x.reply] =
            [(found.1, requestOf (x.head.withBody x.body) x.remote found.2)] := by
          show _ :: callsIn [replied serdeJson server x.reply] = _
          rw [replied, callsIn_ofRun]
        rw [hcalls]
        refine ⟨Nat.le_refl 1, [replied serdeJson server x.reply], Nat.le_refl 1, ?_, rfl⟩
        rw [replied, callsIn_ofRun]
  · obtain ⟨status, body, hout⟩ := exchangeOutputs_refused serdeJson server hserved
    rw [hout, List.prefix_cons_iff] at h
    rcases h with rfl | ⟨outs, rfl, h⟩
    · exact ⟨Nat.zero_le 1, [], Nat.zero_le 1, rfl, rfl⟩
    · rw [List.prefix_nil] at h
      subst h
      rw [callsIn_ofRun]
      exact ⟨Nat.zero_le 1, [_], show 1 ≤ 1 from Nat.le_refl 1, callsIn_ofRun _, rfl⟩

theorem called_notMem_ofRun {handler : H} {request : Request X}
    {result : Run (HttpResponse X.HeaderMap)} :
    (Output.called handler request) ∉ [(Output.ofRun result : Output H X)] := by
  rw [← mem_callsIn, callsIn_ofRun]
  exact List.not_mem_nil

/-- A handler is called at the end of a body, and only then. -/
theorem called_step {events : List (StreamEvent X)} {stream stream' : Stream X}
    {e : StreamEvent X} {out : List (Output H X)} {handler : H} {request : Request X}
    (h : Taken server.config.maxBodySize events stream)
    (hstep : StreamSteps serdeJson server stream e out stream')
    (hcall : .called handler request ∈ out) :
    e = .task (.frame none) ∧ ∃ remote head body, events = opening remote head body ∧
      Readable body server.config.maxBodySize ∧
      server.router.matchRoute head.method head.path = .ok (handler, request.pathParams) ∧
      request = requestOf (head.withBody body) remote request.pathParams := by
  cases hstep with
  | accept => cases hcall
  | request => cases hcall
  | kept _ => cases hcall
  | unreadable _ => exact absurd hcall called_notMem_ofRun
  | reply => exact absurd hcall called_notMem_ofRun
  | @bodyEnd remote head s =>
      cases h with
      | @collecting _ _ body _ hloop =>
          refine ⟨rfl, remote, head, body, rfl, readable_of_loopState hloop, ?_⟩
          rcases bodyRead_cases serdeJson server remote head s.collected with
            ⟨status, text, hcase⟩ | ⟨handler', request', hcase, hroute, hrequest⟩
          · rw [hcase] at hcall
            exact absurd hcall called_notMem_ofRun
          · rw [hcase, List.mem_singleton] at hcall
            obtain ⟨rfl, rfl⟩ := Output.called.inj hcall
            exact ⟨hroute, hrequest body (collected_of_loopState hloop).symm⟩

/-- At most one call, and after it at most one end. -/
theorem shape_of_stream (events : List (StreamEvent X)) :
    let outs := produced (traceFrom (streamStep (H := H) serdeJson server) (none, .idle) events)
    (callsIn outs).length ≤ 1 ∧ ∃ ends, ends.length ≤ 1 ∧ callsIn ends = [] ∧
      outs = (callsIn outs).map (fun call => .called call.1 call.2) ++ ends := by
  obtain ⟨x, hx⟩ := (taken (H := H) serdeJson server events).exists_exchange
  exact shape_of_prefix serdeJson server (stream_run serdeJson server _ x hx).1

/-- A call has come after a whole body, and shows it. -/
theorem call_of_stream {events : List (StreamEvent X)} {handler : H} {request : Request X}
    (h : (handler, request) ∈
      callsIn (produced (traceFrom (streamStep (H := H) serdeJson server) (none, .idle) events))) :
    ∃ remote head body, opening remote head body ++ [.task (.frame none)] <+:
        accepted (traceFrom (streamStep (H := H) serdeJson server) (none, .idle) events) ∧
      Readable body server.config.maxBodySize ∧
      server.router.matchRoute head.method head.path = .ok (handler, request.pathParams) ∧
      request = requestOf (head.withBody body) remote request.pathParams := by
  obtain ⟨e, out, hentry, hcall⟩ := mem_produced.mp (mem_callsIn.mp h)
  obtain ⟨before, hbefore, hstep⟩ := (mem_traceFrom _).mp hentry
  have hsteps := streamSteps_of_ok serdeJson server hstep.symm
  obtain ⟨he, remote, head, body, hopening, hread, hroute, hrequest⟩ :=
    called_step serdeJson server (taken serdeJson server before) hsteps hcall
  refine ⟨remote, head, body, ?_, hread, hroute, hrequest⟩
  have hlonger := accepted_mono (streamStep (H := H) serdeJson server) (none, .idle) hbefore
  rw [traceFrom_snoc, accepted_append, hopening, ← hstep, accepted_singleton_ok, he] at hlonger
  exact hlonger

/-- At the end of a body that can be read, the handler of the route has been called. -/
theorem called_of_opening {events : List (StreamEvent X)} {remote : SocketAddr}
    {head : RequestHead X} {body : List (Except Str Frame)} {found : H × HashMap Str Str}
    (h : opening remote head body ++ [.task (.frame none)] <+: events)
    (hread : Readable body server.config.maxBodySize)
    (hroute : server.router.matchRoute head.method head.path = .ok found) :
    callsIn (produced (traceFrom (streamStep (H := H) serdeJson server) (none, .idle) events)) =
      [(found.1, requestOf (head.withBody body) remote found.2)] := by
  let arrived := opening remote head body ++ [.task (.frame none)]
  let x : Exchange X := ⟨remote, head, body, .ok (.error [])⟩
  have hevents : x.events = arrived ++ [.task (.reply x.reply)] := by
    rw [Exchange.events_eq, List.append_assoc]
    rfl
  -- the answer that is still to come makes no call
  have hreply (stream : Stream X) : callsIn (produced
      [(StreamEvent.task (.reply x.reply), (streamStep (H := H) serdeJson server stream
        (.task (.reply x.reply))).1)]) = [] := by
    obtain ⟨remote, task⟩ := stream
    cases remote with
    | none => rfl
    | some remote => cases task <;> first | rfl | exact callsIn_ofRun _
  have hout := (exchange_run (H := H) serdeJson server x).1
  rw [hevents, traceFrom_snoc, produced_append,
    exchangeOutputs_found serdeJson server hread hroute] at hout
  have hcalls : callsIn (produced (traceFrom (streamStep (H := H) serdeJson server) (none, .idle)
      arrived)) = [(found.1, requestOf (head.withBody body) remote found.2)] := by
    have hboth := congrArg callsIn hout
    rw [callsIn, List.filterMap_append] at hboth
    change callsIn _ ++ callsIn _ = _ :: callsIn [replied serdeJson server x.reply] at hboth
    rw [hreply, List.append_nil, replied, callsIn_ofRun] at hboth
    exact hboth
  -- and there is no second call later
  have hmore : callsIn (produced (traceFrom (streamStep (H := H) serdeJson server) (none, .idle)
      arrived)) <+: callsIn (produced (traceFrom (streamStep (H := H) serdeJson server) (none, .idle)
        events)) :=
    (produced_mono (streamStep (H := H) serdeJson server) (none, .idle) h).filterMap _
  rw [hcalls] at hmore
  have honce := (shape_of_stream (H := H) serdeJson server events).1
  exact (hmore.eq_of_length_le honce).symm

/-- **A request calls its handler at most once.**  On every stream, whatever the schedule: the call comes
after the whole body and before the end; the handler is one that was registered for the method of the
request; and it is shown this request, with this body and nothing of any other. -/
theorem calls_of_schedule (hM : M.AtReturnsInserted) (calls : List (AddCall H))
    (config : ServerConfig) (events : List (ServerEvent X)) (i : ℕ × ℕ) :
    let server : Server M := ⟨Router.after M calls, config⟩
    let entries := entriesOf ServerEvent.on i (server.trace serdeJson events)
    (callsIn (produced entries)).length ≤ 1 ∧
    (∃ ends, ends.length ≤ 1 ∧ callsIn ends = [] ∧ produced entries =
      (callsIn (produced entries)).map (fun call => .called call.1 call.2) ++ ends) ∧
    ∀ handler request, (handler, request) ∈ callsIn (produced entries) →
      ∃ remote head body, opening remote head body ++ [.task (.frame none)] <+: accepted entries ∧
        Readable body config.maxBodySize ∧
        server.router.matchRoute head.method head.path = .ok (handler, request.pathParams) ∧
        request = requestOf (head.withBody body) remote request.pathParams ∧
        ∃ c ∈ Router.registered M calls, c.method = head.method ∧ c.handler = handler := by
  intro server entries
  have hentries : entries = _ := entriesOf_trace serdeJson server events i
  rw [hentries]
  obtain ⟨hlen, hends⟩ := shape_of_stream serdeJson server (events.filterMap (ServerEvent.on i))
  refine ⟨hlen, hends, ?_⟩
  intro handler request hmem
  obtain ⟨remote, head, body, hopening, hread, hroute, hrequest⟩ :=
    call_of_stream serdeJson server hmem
  exact ⟨remote, head, body, hopening, hread, hroute, hrequest,
    Router.matchRoute_handler hM hroute⟩

/-- The users by their id, under the default configuration. -/
def usersServer : Server (routeList ℕ) := ⟨Router.after (routeList ℕ) Router.usersById, .default⟩

/-- The head of a request for a user. -/
def getUserHead (headers : List (Bytes × Bytes)) : RequestHead plainHttp :=
  ⟨⟨"GET".toList⟩, "/users/42".toList, none, headers⟩

/-- One stream of one connection, on which a user is asked for and the given answer comes; between its
frames another connection is lost. -/
def getUserEvents (headers : List (Bytes × Bytes)) (reply : Run (Except Str (Response plainHttp))) :
    List (ServerEvent plainHttp) :=
  [.conn 0 (.accepted ⟨"127.0.0.1:5000".toList⟩),
    .conn 0 (.stream 1 (.request (getUserHead headers))),
    .conn 0 (.stream 1 (.frame (some (.ok (.data (utf8 "ab".toList)))))),
    .acceptFailed "connection reset".toList,
    .conn 0 (.stream 1 (.frame (some (.ok (.data (utf8 "c".toList)))))),
    .conn 0 (.stream 1 (.frame none)),
    .conn 0 (.stream 1 (.reply reply))]

theorem reply_of_getUserEvents {headers : List (Bytes × Bytes)}
    {reply reply' : Run (Except Str (Response plainHttp))} {i : ℕ × ℕ}
    (h : .task (.reply reply') ∈ (getUserEvents headers reply).filterMap (ServerEvent.on i)) :
    reply' = reply := by
  obtain ⟨e, he, hon⟩ := List.mem_filterMap.mp h
  rw [ServerEvent.eq_of_on_task hon] at he
  simp [getUserEvents] at he
  exact he.2.2

theorem calls_of_schedule_getUser :
    let entries := entriesOf ServerEvent.on (0, 1)
      (usersServer.trace plainJson (getUserEvents [] (.ok (.error "no such user".toList))))
    callsIn (produced entries) ≠ [] ∧ (callsIn (produced entries)).length ≤ 1 ∧
      ∀ handler request, (handler, request) ∈ callsIn (produced entries) →
        ∃ c ∈ Router.registered (routeList ℕ) Router.usersById, c.handler = handler := by
  intro entries
  have hcalls := calls_of_schedule plainJson (routeList_atReturnsInserted ℕ) Router.usersById .default
    (getUserEvents [] (.ok (.error "no such user".toList))) (0, 1)
  refine ⟨List.cons_ne_nil _ _, hcalls.1, ?_⟩
  intro handler request hmem
  obtain ⟨remote, head, body, -, -, -, -, c, hc, -, hhandler⟩ := hcalls.2.2 handler request hmem
  exact ⟨c, hc, hhandler⟩

/-- A call that waits for its handler has called it. -/
theorem called_of_handling (events : List (StreamEvent X))
    (h : (runFrom (streamStep (H := H) serdeJson server) (none, .idle) events).2 = .handling) :
    callsIn (produced (traceFrom (streamStep (H := H) serdeJson server) (none, .idle) events)) ≠
      [] := by
  induction events using List.reverseRecOn with
  | nil => cases h
  | append_singleton events e ih =>
      rw [traceFrom_snoc, produced_append, callsIn, List.filterMap_append]
      rw [runFrom_snoc] at h
      generalize hstream : runFrom (streamStep (H := H) serdeJson server) (none, .idle) events =
        stream at h ih ⊢
      cases hout : (streamStep (H := H) serdeJson server stream e).1 with
      | error err =>
          rw [streamStep_rejectsCleanly serdeJson server _ _ err hout] at h
          exact fun hnil => ih h (List.append_eq_nil_iff.mp hnil).1
      | ok outs =>
          have hstep := streamSteps_of_ok serdeJson server hout
          generalize (streamStep (H := H) serdeJson server stream e).2 = stream' at hstep h
          cases hstep with
          | @accept task remote =>
              have htaken := taken (H := H) serdeJson server events
              rw [hstream] at htaken
              generalize accepted (traceFrom (streamStep (H := H) serdeJson server) (none, .idle)
                events) = given at htaken
              cases htaken with
              | closed => cases h
          | request => cases h
          | kept _ => cases h
          | unreadable _ => cases h
          | reply => cases h
          | @bodyEnd remote head s =>
              rcases bodyRead_cases serdeJson server remote head s.collected with
                ⟨status, text, hcase⟩ | ⟨handler, request, hcase, -⟩
              · rw [hcase] at h
                cases h
              · rw [produced_singleton_ok, hcase]
                exact List.append_ne_nil_of_right_ne_nil _ (List.cons_ne_nil _ _)

/-- An answer comes to a call that has called its handler. -/
theorem called_of_reply {events : List (StreamEvent X)} {reply : Run (Except Str (Response X))}
    (h : .task (.reply reply) ∈
      accepted (traceFrom (streamStep (H := H) serdeJson server) (none, .idle) events)) :
    ∃ handler request, (handler, request) ∈
      callsIn (produced (traceFrom (streamStep (H := H) serdeJson server) (none, .idle) events)) := by
  obtain ⟨outs, hentry⟩ := mem_accepted.mp h
  obtain ⟨before, hbefore, hout⟩ := (mem_traceFrom _).mp hentry
  have hcalled := called_of_handling (H := H) serdeJson server before
  generalize runFrom (streamStep (H := H) serdeJson server) (none, .idle) before = stream
    at hout hcalled
  have hstep := streamSteps_of_ok serdeJson server hout.symm
  generalize (streamStep (H := H) serdeJson server stream (.task (.reply reply))).2 = stream'
    at hstep
  cases hstep with
  | reply =>
      obtain ⟨⟨handler, request⟩, hmem⟩ := List.exists_mem_of_ne_nil _ (hcalled rfl)
      refine ⟨handler, request, mem_callsIn.mpr ?_⟩
      refine (produced_mono _ _ ?_).subset (mem_callsIn.mp hmem)
      exact (List.prefix_append _ _).trans hbefore

/-! ### Memory -/

/-- **No schedule makes the server hold more than its limit for each body that is being read.**  In every
state of every run the buffer of a stream is what has come on this stream, and with what it may still take
it makes up the limit. -/
theorem buffered_of_schedule (events : List (ServerEvent X)) :
    (∀ i remote head s, streamOf i (server.after serdeJson events) =
        (some remote, .collecting head s) →
      s.remaining + s.collected.length = server.config.maxBodySize ∧
      ∃ body, accepted (entriesOf ServerEvent.on i (server.trace serdeJson events)) =
        opening remote head body ∧ s.collected = dataOf body) ∧
    ∀ streams : Finset (ℕ × ℕ),
      ∑ i ∈ streams, (streamOf i (server.after serdeJson events)).2.buffered ≤
        (streams.filter fun i =>
          (streamOf i (server.after serdeJson events)).2.isCollecting).card *
            server.config.maxBodySize := by
  have htaken : ∀ i, Taken server.config.maxBodySize
      (accepted (entriesOf ServerEvent.on i (server.trace serdeJson events)))
      (streamOf i (server.after serdeJson events)) := by
    intro i
    rw [entriesOf_trace, streamOf_after]
    exact taken serdeJson server _
  constructor
  · intro i remote head s hstream
    have hi := htaken i
    rw [hstream] at hi
    exact hi.budget
  · intro streams
    refine (Finset.sum_le_sum fun i _ => (htaken i).buffered_le).trans ?_
    rw [← Finset.sum_filter, Finset.sum_const_nat fun _ _ => rfl]

/-! ### The process -/

theorem fatal_iff {profile : Profile} {out : Except Unit (List (Output H X))} :
    Fatal profile out ↔ profile = .release ∧ ∃ outs p, out = .ok outs ∧ .panicked p ∈ outs := by
  cases profile with
  | dev => simp [Fatal, Profile.aborts]
  | release =>
      cases out with
      | error e => simp [Fatal, Except.toOption]
      | ok outs =>
          have hany : outs.any Output.isPanic = true ↔ ∃ p, .panicked p ∈ outs := by
            rw [List.any_eq_true]
            constructor
            · intro h
              obtain ⟨out, hmem, hout⟩ := h
              cases out with
              | panicked p => exact ⟨p, hmem⟩
              | called handler request => cases hout
              | answered response => cases hout
            · intro h
              obtain ⟨p, hmem⟩ := h
              exact ⟨_, hmem, rfl⟩
          simp only [Fatal, Profile.aborts, Bool.true_and, Except.toOption, Option.getD_some, hany,
            Except.ok.injEq, true_and, exists_and_left, exists_eq_left']

theorem ofRun_eq_panicked_iff {p : Panic} {result : Run (HttpResponse X.HeaderMap)} :
    (Output.ofRun result : Output H X) = .panicked p ↔ result = .error p := by
  cases result with
  | ok response => simp [Output.ofRun]
  | error q => simp [Output.ofRun]

theorem panicked_mem_ofRun {p : Panic} {result : Run (HttpResponse X.HeaderMap)} :
    .panicked p ∈ [(Output.ofRun result : Output H X)] ↔ result = .error p := by
  rw [List.mem_singleton, eq_comm, ofRun_eq_panicked_iff]

theorem ofRun_eq_answered_iff {response : HttpResponse X.HeaderMap}
    {result : Run (HttpResponse X.HeaderMap)} :
    (Output.ofRun result : Output H X) = .answered response ↔ result = .ok response := by
  cases result with
  | ok response => simp [Output.ofRun]
  | error q => simp [Output.ofRun]

/-- **How a call ends**: with a response of the engine, or with what becomes of the answer of its handler. -/
theorem ends_step {stream stream' : Stream X} {e : StreamEvent X} {outs : List (Output H X)}
    {out : Output H X} (hstep : StreamSteps serdeJson server stream e outs stream')
    (hmem : out ∈ outs) (hcall : callsIn [out] = []) :
    stream'.2 = .finished ∧ ∃ result, out = .ofRun result ∧
      ((∃ status text, result = do
          let resp ← Response.new status text "application/json; charset=utf-8".toList
          render resp server.config) ∨
        ∃ reply, e = .task (.reply reply) ∧ result = replyRun serdeJson server reply) := by
  cases hstep with
  | accept => cases hmem
  | request => cases hmem
  | kept _ => cases hmem
  | unreadable _ => exact ⟨rfl, _, List.mem_singleton.mp hmem, .inl ⟨_, _, rfl⟩⟩
  | @bodyEnd remote head s =>
      rcases bodyRead_cases serdeJson server remote head s.collected with
        ⟨status, text, hcase⟩ | ⟨handler, request, hcase, -⟩
      · rw [hcase] at hmem ⊢
        exact ⟨rfl, _, List.mem_singleton.mp hmem, .inl ⟨status, text, rfl⟩⟩
      · rw [hcase, List.mem_singleton] at hmem
        rw [hmem] at hcall
        cases hcall
  | @reply remote result =>
      exact ⟨rfl, _, List.mem_singleton.mp hmem, .inr ⟨result, rfl, rfl⟩⟩

section Documented

variable (hX : X.Documented)

include hX

/-- A call ends in a panic where the answer of its handler cannot be built or rendered; and with an invalid
server string wherever it ends. -/
theorem panicked_step {stream stream' : Stream X} {e : StreamEvent X} {out : List (Output H X)}
    {p : Panic} (hstep : StreamSteps serdeJson server stream e out stream')
    (hp : .panicked p ∈ out) :
    stream'.2 = .finished ∧ (ValidHeaderValue server.config.serverName →
      ∃ reply, e = .task (.reply reply) ∧ replyRun serdeJson server reply = .error p) := by
  obtain ⟨hend, result, hresult, hcases⟩ := ends_step serdeJson server hstep hp rfl
  refine ⟨hend, fun hname => ?_⟩
  rcases hcases with ⟨status, text, rfl⟩ | ⟨reply, he, rfl⟩
  · obtain ⟨out, hout, -⟩ := render_new hX hname status text
    rw [hout] at hresult
    cases hresult
  · exact ⟨reply, he, ofRun_eq_panicked_iff.mp hresult.symm⟩

/-- With an invalid server string nothing can be rendered. -/
theorem panicked_of_finished {stream stream' : Stream X} {e : StreamEvent X}
    {out : List (Output H X)} (hstep : StreamSteps serdeJson server stream e out stream')
    (hname : ¬ ValidHeaderValue server.config.serverName) (hbefore : stream.2 ≠ .finished)
    (hafter : stream'.2 = .finished) : ∃ p, .panicked p ∈ out := by
  have hrender : ∀ result : Run (Response X), ∃ p,
      .panicked p ∈ [(Output.ofRun (do
        let resp ← result
        render resp server.config) : Output H X)] := by
    intro result
    cases result with
    | error p => exact ⟨p, panicked_mem_ofRun.mpr rfl⟩
    | ok resp => exact ⟨_, panicked_mem_ofRun.mpr (render_of_invalid hX resp hname)⟩
  cases hstep with
  | @accept task remote => exact absurd hafter hbefore
  | request => cases hafter
  | kept _ => cases hafter
  | unreadable _ => exact hrender _
  | @bodyEnd remote head s =>
      rcases bodyRead_cases serdeJson server remote head s.collected with
        ⟨status, text, hcase⟩ | ⟨handler, request, hcase, -⟩
      · rw [hcase]
        exact hrender _
      · rw [hcase] at hafter
        cases hafter
  | @reply remote result =>
      cases result with
      | error p => exact ⟨p, panicked_mem_ofRun.mpr rfl⟩
      | ok result =>
          cases result with
          | error e => exact hrender (Response.internalError serdeJson e)
          | ok resp => exact hrender (.ok resp)

end Documented

/-- Some event panics exactly when some stream does. -/
theorem exists_panicked_iff (events : List (ServerEvent X)) :
    (∃ e ∈ server.trace serdeJson events,
      ∃ outs p, e.2 = .ok outs ∧ (.panicked p : Output H X) ∈ outs) ↔
    ∃ i j outs p, (j, .ok outs) ∈ entriesOf ServerEvent.on i (server.trace serdeJson events) ∧
      (.panicked p : Output H X) ∈ outs := by
  constructor
  · intro h
    obtain ⟨⟨e, out⟩, hmem, outs, p, rfl, hp⟩ := h
    obtain ⟨i, hi⟩ := (mem_produced_trace serdeJson server events (.panicked p)).mp
      (mem_produced.mpr ⟨e, outs, hmem, hp⟩)
    obtain ⟨j, outs, hmem, hp⟩ := mem_produced.mp hi
    exact ⟨i, j, outs, p, hmem, hp⟩
  · intro h
    obtain ⟨i, j, outs, p, hmem, hp⟩ := h
    obtain ⟨e, outs, hmem, hp⟩ := mem_produced.mp
      ((mem_produced_trace serdeJson server events (.panicked p)).mpr
        ⟨i, mem_produced.mpr ⟨j, outs, hmem, hp⟩⟩)
    exact ⟨_, hmem, outs, p, rfl, hp⟩

/-- The process has aborted exactly when it is a release build and a stream has panicked. -/
theorem processAfter_eq_none_iff (profile : Profile) (events : List (ServerEvent X)) :
    server.processAfter serdeJson profile events = none ↔ profile = .release ∧
      ∃ i j outs p, (j, .ok outs) ∈ entriesOf ServerEvent.on i (server.trace serdeJson events) ∧
        (.panicked p : Output H X) ∈ outs := by
  rw [processAfter, runFrom_untilFatal_eq_none_iff, ← exists_panicked_iff]
  simp only [fatal_iff, trace]
  constructor
  · intro h
    obtain ⟨e, hmem, hprofile, hpanic⟩ := h
    exact ⟨hprofile, e, hmem, hpanic⟩
  · intro h
    obtain ⟨hprofile, e, hmem, hpanic⟩ := h
    exact ⟨e, hmem, hprofile, hpanic⟩

section Aborts

variable (hX : X.Documented) (profile : Profile) (events : List (ServerEvent X))

include hX

/-- With a valid server string: some handler's answer panics, cannot be built or cannot be rendered. -/
theorem processAfter_of_valid (hname : ValidHeaderValue server.config.serverName) :
    server.processAfter serdeJson profile events = none ↔ profile = .release ∧
      ∃ i reply p, .task (.reply reply) ∈
          accepted (entriesOf ServerEvent.on i (server.trace serdeJson events)) ∧
        replyRun serdeJson server reply = .error p := by
  rw [processAfter_eq_none_iff]
  refine and_congr_right fun _ => exists_congr fun i => ?_
  rw [entriesOf_trace]
  constructor
  · intro h
    obtain ⟨j, outs, p, hmem, hp⟩ := h
    obtain ⟨before, -, hout⟩ := (mem_traceFrom _).mp hmem
    obtain ⟨reply, rfl, hreply⟩ := (panicked_step serdeJson server hX
      (streamSteps_of_ok serdeJson server hout.symm) hp).2 hname
    exact ⟨reply, p, mem_accepted.mpr ⟨outs, hmem⟩, hreply⟩
  · intro h
    obtain ⟨reply, p, hmem, hreply⟩ := h
    obtain ⟨outs, hentry⟩ := mem_accepted.mp hmem
    refine ⟨_, outs, p, hentry, ?_⟩
    obtain ⟨before, -, hout⟩ := (mem_traceFrom _).mp hentry
    generalize runFrom (streamStep (H := H) serdeJson server) (none, .idle) before = stream at hout
    have hstep := streamSteps_of_ok serdeJson server hout.symm
    generalize (streamStep (H := H) serdeJson server stream (.task (.reply reply))).2 = stream'
      at hstep
    cases hstep with
    | reply => exact panicked_mem_ofRun.mpr hreply

/-- With an invalid one: some request has got to its end. -/
theorem processAfter_of_invalid (hname : ¬ ValidHeaderValue server.config.serverName) :
    server.processAfter serdeJson profile events = none ↔ profile = .release ∧
      ∃ i, (streamOf i (server.after serdeJson events)).2 = .finished := by
  rw [processAfter_eq_none_iff]
  refine and_congr_right fun _ => exists_congr fun i => ?_
  rw [entriesOf_trace, streamOf_after]
  constructor
  · intro h
    obtain ⟨j, outs, p, hmem, hp⟩ := h
    obtain ⟨before, ⟨rest, hrest⟩, hout⟩ := (mem_traceFrom _).mp hmem
    have hstep := streamSteps_of_ok serdeJson server hout.symm
    have hfinished := (panicked_step serdeJson server hX hstep hp).1
    rw [← runFrom_snoc] at hfinished
    obtain ⟨remote, hend⟩ := (taken serdeJson server (before ++ [j])).of_finished hfinished
    rw [← hrest, runFrom_append, hend, (run_finished serdeJson server remote rest).2]
  · intro h
    obtain ⟨before, j, hbefore, hnot, hthen⟩ := exists_step_of_run
      (streamStep (H := H) serdeJson server) (Q := fun stream => stream.2 = .finished)
      (fun h0 => by cases h0) h
    cases hout : (streamStep (H := H) serdeJson server
        (runFrom (streamStep (H := H) serdeJson server) (none, .idle) before) j).1 with
    | error err =>
        rw [streamStep_rejectsCleanly serdeJson server _ _ err hout] at hthen
        exact absurd hthen hnot
    | ok outs =>
        obtain ⟨p, hp⟩ := panicked_of_finished serdeJson server hX
          (streamSteps_of_ok serdeJson server hout) hname hnot hthen
        exact ⟨j, outs, p, (mem_traceFrom _).mpr ⟨before, hbefore, hout.symm⟩, hp⟩

end Aborts

/-- **When the process aborts.**  In the dev profile it never does.  In the release profile, with a valid
server string, it does so exactly when the answer of some handler panics, cannot be built or cannot be
rendered; with an invalid one, exactly when some request has got to its end.  Until then the connections
are those of the run. -/
theorem aborts_iff (hX : X.Documented) (profile : Profile) (events : List (ServerEvent X)) :
    (ValidHeaderValue server.config.serverName →
      (server.processAfter serdeJson profile events = none ↔ profile = .release ∧
        ∃ i reply p, .task (.reply reply) ∈
            accepted (entriesOf ServerEvent.on i (server.trace serdeJson events)) ∧
          replyRun serdeJson server reply = .error p)) ∧
    (¬ ValidHeaderValue server.config.serverName →
      (server.processAfter serdeJson profile events = none ↔ profile = .release ∧
        ∃ i, (streamOf i (server.after serdeJson events)).2 = .finished)) ∧
    ∀ conns, server.processAfter serdeJson profile events = some conns →
      conns = server.after serdeJson events := by
  refine ⟨processAfter_of_valid serdeJson server hX profile events,
    processAfter_of_invalid serdeJson server hX profile events, ?_⟩
  intro conns h
  exact (runFrom_untilFatal_eq_some _ _ h).symm

/-- A handler whose answer cannot be built takes the process with it. -/
theorem aborts_iff_getUser :
    usersServer.processAfter plainJson .release (getUserEvents [] (.error .unwrapFailed)) = none := by
  have haborts := aborts_iff plainJson usersServer plainHttp_documented .release
    (getUserEvents [] (.error .unwrapFailed))
  refine (haborts.1 (by decide)).mpr ⟨rfl, (0, 1), .error .unwrapFailed, .unwrapFailed, ?_, rfl⟩
  exact List.mem_of_getLast? rfl

end Server

end RustApi
