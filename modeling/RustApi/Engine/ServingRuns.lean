import RustApi.Engine.Dispatch
import RustApi.Engine.Serving

/-!
# What the server does over a whole schedule

The calls of `dispatch` share the router and the configuration, and neither changes; so a stream never
notices the others.  `step_projects` says that, and the runs of `StepRuns` turn it into a fact about every
schedule: what happens on a stream is what `streamStep` makes of the events that concern it.

Of a single stream, `exchange_run` says that the steps add up to `dispatch`, and `taken` lists what
may have been delivered to it when it waits at a given place.
-/

namespace RustApi

open RustStd StepRuns

/-- What an event means to one stream: its connection is accepted, or its task is resumed. -/
inductive StreamEvent (X : HttpCrate)
  | accepted (remote : SocketAddr)
  | task (e : TaskEvent X)

/-- One stream: the peer of its connection, and its task. -/
abbrev Stream (X : HttpCrate) := Option SocketAddr × Task X

/-- What an event means to the stream `i.2` of the connection `i.1`. -/
def ServerEvent.on {X : HttpCrate} (i : ℕ × ℕ) : ServerEvent X → Option (StreamEvent X)
  | .acceptFailed _ => none
  | .conn c (.accepted remote) => if c = i.1 then some (.accepted remote) else none
  | .conn c (.stream n e) => if c = i.1 ∧ n = i.2 then some (.task e) else none

theorem ServerEvent.eq_of_on_task {X : HttpCrate} {i : ℕ × ℕ} {e : ServerEvent X} {t : TaskEvent X}
    (h : e.on i = some (.task t)) : e = .conn i.1 (.stream i.2 t) := by
  cases e with
  | acceptFailed error => cases h
  | conn c e =>
      cases e with
      | accepted remote =>
          rw [ServerEvent.on] at h
          split at h <;> cases h
      | stream n e =>
          rw [ServerEvent.on] at h
          split at h
          · next hi =>
            cases h
            rw [hi.1, hi.2]
          · cases h

/-- The stream `i.2` of the connection `i.1`. -/
def streamOf {X : HttpCrate} (i : ℕ × ℕ) (conns : ℕ → Connection X) : Stream X :=
  ((conns i.1).remote, (conns i.1).streams i.2)

namespace Server

variable {H : Type} {M : Matchit H} {X : HttpCrate}
variable (serdeJson : SerdeJson) (server : Server M)

/-- A stream on its own. -/
def streamStep : Stream X → StreamEvent X → Except Unit (List (Output H X)) × Stream X
  | (none, task), .accepted remote => (.ok [], (some remote, task))
  | (some remote, task), .task e =>
      let result := taskStep serdeJson server remote task e
      (result.1, (some remote, result.2))
  | stream, _ => (.error (), stream)

/-- An event on one stream of a connection leaves the others alone. -/
theorem connStep_stream_other (conn : Connection X) {n m : ℕ} (h : n ≠ m) (e : TaskEvent X) :
    (connStep serdeJson server conn (.stream n e)).2.remote = conn.remote ∧
      (connStep serdeJson server conn (.stream n e)).2.streams m = conn.streams m := by
  obtain ⟨remote, streams⟩ := conn
  cases remote with
  | none => exact ⟨rfl, rfl⟩
  | some remote => exact ⟨rfl, Function.update_of_ne h.symm _ _⟩

@[simp] theorem step_conn_self (conns : ℕ → Connection X) (c : ℕ) (e : ConnEvent X) :
    (step serdeJson server conns (.conn c e)).2 c = (connStep serdeJson server (conns c) e).2 :=
  Function.update_self _ _ _

/-- An event on one connection leaves the others alone. -/
theorem step_conn_other (conns : ℕ → Connection X) {c c' : ℕ} (h : c ≠ c') (e : ConnEvent X) :
    (step serdeJson server conns (.conn c e)).2 c' = conns c' :=
  Function.update_of_ne h.symm _ _

/-- **The streams share nothing that changes.** -/
theorem step_projects : Projects (step serdeJson server) (ServerEvent.on (X := X)) streamOf
    (streamStep (H := H) serdeJson server) where
  own conns e i j h := by
    cases e with
    | acceptFailed error => cases h
    | conn c e =>
        cases e with
        | accepted remote =>
            rw [ServerEvent.on] at h
            split at h
            · next hc =>
              subst hc
              cases h
              unfold step connStep streamOf
              cases hremote : (conns i.1).remote <;> simp [streamStep, hremote]
            · cases h
        | stream n e =>
            rw [ServerEvent.on] at h
            split at h
            · next hc =>
              obtain ⟨rfl, rfl⟩ := hc
              cases h
              unfold step connStep streamOf
              cases hremote : (conns i.1).remote <;> simp [streamStep, hremote]
            · cases h
  other conns e i h := by
    cases e with
    | acceptFailed error => rfl
    | conn c e =>
        by_cases hc : c = i.1
        · subst hc
          cases e with
          | accepted remote =>
              rw [ServerEvent.on, if_pos rfl] at h
              cases h
          | stream n e =>
              have hn : n ≠ i.2 := by
                intro hn
                rw [ServerEvent.on, if_pos ⟨rfl, hn⟩] at h
                cases h
              obtain ⟨hremote, hstream⟩ := connStep_stream_other serdeJson server (conns i.1) hn e
              rw [streamOf, streamOf, step_conn_self, hremote, hstream]
        · rw [streamOf, streamOf, step_conn_other serdeJson server conns hc]

theorem taskStep_rejectsCleanly (remote : SocketAddr) :
    RejectsCleanly (taskStep (H := H) (X := X) serdeJson server remote) := by
  intro task e err h
  unfold taskStep at h ⊢
  split at h <;> try cases h
  · split at h <;> cases h
  · rfl

theorem streamStep_rejectsCleanly :
    RejectsCleanly (streamStep (H := H) (X := X) serdeJson server) := by
  intro stream e err h
  obtain ⟨remote, task⟩ := stream
  cases remote with
  | none =>
      cases e with
      | accepted remote => cases h
      | task e => rfl
  | some remote =>
      cases e with
      | accepted remote => rfl
      | task e =>
          have hkeep := taskStep_rejectsCleanly serdeJson server remote task e err h
          rw [streamStep, hkeep]

end Server

/-! ### One exchange -/

/-- A request from its arrival to its answer: whom it is from, its head, the results of reading its body,
and what its handler would return. -/
structure Exchange (X : HttpCrate) where
  remote : SocketAddr
  head : RequestHead X
  body : List (Except Str Frame)
  reply : Run (Except Str (Response X))

/-- The events up to a point in the body. -/
def opening {X : HttpCrate} (remote : SocketAddr) (head : RequestHead X)
    (body : List (Except Str Frame)) : List (StreamEvent X) :=
  .accepted remote :: .task (.request head) :: body.map fun frame => .task (.frame (some frame))

/-- The events from a point in the body. -/
def closing {X : HttpCrate} (body : List (Except Str Frame))
    (reply : Run (Except Str (Response X))) : List (StreamEvent X) :=
  body.map (fun frame => .task (.frame (some frame))) ++
    [.task (.frame none), .task (.reply reply)]

/-- All of its events. -/
def Exchange.events {X : HttpCrate} (x : Exchange X) : List (StreamEvent X) :=
  opening x.remote x.head [] ++ closing x.body x.reply

namespace Server

variable {H : Type} {M : Matchit H} {X : HttpCrate}
variable (serdeJson : SerdeJson) (server : Server M)

/-- What `dispatch` does with the request, all in one go. -/
def exchangeOutputs (x : Exchange X) : List (Output H X) :=
  let result := dispatch serdeJson (fun _ _ => x.reply) (x.head.withBody x.body) server.router
    server.config x.remote
  result.1.map (fun call => .called call.1 call.2) ++ [.ofRun result.2]

/-- A finished call waits for nothing. -/
theorem run_finished (remote : SocketAddr) (events : List (StreamEvent X)) :
    produced (traceFrom (streamStep (H := H) serdeJson server) (some remote, .finished) events) = [] ∧
      runFrom (streamStep (H := H) serdeJson server) (some remote, .finished) events =
        (some remote, .finished) := by
  induction events with
  | nil => exact ⟨rfl, rfl⟩
  | cons e events ih =>
      cases e with
      | accepted remote => exact ih
      | task e => cases e <;> exact ih

/-- What becomes of the answer of a handler. -/
def replyRun (reply : Run (Except Str (Response X))) : Run (HttpResponse X.HeaderMap) := do
  let resp ← match ← reply with
    | .ok resp => pure resp
    | .error e => Response.internalError serdeJson e
  render resp server.config

/-- The end of a call whose handler has answered. -/
def replied (reply : Run (Except Str (Response X))) : Output H X :=
  .ofRun (replyRun serdeJson server reply)

/-- What a call does once its body is read or has turned out unreadable. -/
def afterBody (x : Exchange X) : Run (Except Str Bytes) → List (Output H X)
  | .error p => [.panicked p]
  | .ok (.error _) => [.ofRun do
      let resp ← Response.internalError serdeJson "body too large or unreadable".toList
      render resp server.config]
  | .ok (.ok body) =>
      let result := bodyRead serdeJson server x.remote x.head body
      match result.2 with
      | .handling => result.1 ++ [replied serdeJson server x.reply]
      | _ => result.1

/-- After its body a call ends with an answer of the engine, or it waits for the handler that was called. -/
theorem bodyRead_cases (remote : SocketAddr) (head : RequestHead X) (body : Bytes) :
    (∃ status text, bodyRead (H := H) serdeJson server remote head body = ([.ofRun do
      let resp ← Response.new status text "application/json; charset=utf-8".toList
      render resp server.config], .finished)) ∨
    ∃ handler request, bodyRead (H := H) serdeJson server remote head body =
        ([.called handler request], .handling) ∧
      server.router.matchRoute head.method head.path = .ok (handler, request.pathParams) ∧
      ∀ frames, dataOf frames = body →
        request = requestOf (head.withBody frames) remote request.pathParams := by
  simp only [bodyRead, parseQuery_eq]
  split
  · exact .inl ⟨_, _, rfl⟩
  · exact .inl ⟨_, _, rfl⟩
  · exact .inl ⟨_, _, rfl⟩
  · next handler pathParams hroute =>
    refine .inr ⟨handler, _, rfl, hroute, ?_⟩
    intro frames hframes
    rw [← hframes]
    rfl

/-- `dispatch` in two parts. -/
theorem exchangeOutputs_eq (x : Exchange X) : exchangeOutputs (H := H) serdeJson server x =
    afterBody serdeJson server x (collectBody x.body server.config.maxBodySize) := by
  unfold exchangeOutputs dispatch afterBody bodyRead
  have hbody : (x.head.withBody x.body).body = x.body := rfl
  rw [hbody]
  cases collectBody x.body server.config.maxBodySize with
  | error p => rfl
  | ok collected =>
      cases collected with
      | error e => rfl
      | ok body =>
          simp only [RequestHead.withBody, parseQuery_eq]
          cases server.router.matchRoute x.head.method x.head.path with
          | error e => cases e <;> rfl
          | ok found => rfl

/-- **The rest of a call, from a round of the body loop.** -/
theorem run_collecting (x : Exchange X) (s : CollectState) (body : List (Except Str Frame)) :
    produced (traceFrom (streamStep (H := H) serdeJson server)
        (some x.remote, .collecting x.head s) (closing body x.reply)) =
      afterBody serdeJson server x (collectLoop server.config.maxBodySize s body) ∧
    runFrom (streamStep (H := H) serdeJson server) (some x.remote, .collecting x.head s)
      (closing body x.reply) = (some x.remote, .finished) := by
  induction body generalizing s with
  | nil =>
      have hstep : streamStep (H := H) serdeJson server (some x.remote, .collecting x.head s)
          (.task (.frame none)) =
            (.ok (bodyRead serdeJson server x.remote x.head s.collected).1,
              (some x.remote, (bodyRead serdeJson server x.remote x.head s.collected).2)) := rfl
      have hclosing : closing [] x.reply = [.task (.frame none), .task (.reply x.reply)] := rfl
      rw [hclosing, traceFrom_cons, runFrom_cons, hstep, produced_cons_ok, collectLoop, afterBody]
      rcases bodyRead_cases serdeJson server x.remote x.head s.collected with
        ⟨status, text, h⟩ | ⟨handler, request, h, -⟩
      · rw [h]
        exact ⟨List.append_nil _, rfl⟩
      · rw [h]
        exact ⟨rfl, rfl⟩
  | cons frame body ih =>
      have hclosing : closing (frame :: body) x.reply =
          .task (.frame (some frame)) :: closing body x.reply := rfl
      rw [hclosing, traceFrom_cons, runFrom_cons, streamStep, taskStep, collectLoop]
      obtain ⟨out, hout⟩ := collectStep_returns server.config.maxBodySize s frame
      rw [hout]
      cases out with
      | error e =>
          obtain ⟨hnone, hend⟩ := run_finished (H := H) serdeJson server x.remote
            (closing body x.reply)
          exact ⟨by rw [produced_cons_ok, hnone]; rfl, hend⟩
      | ok s' =>
          obtain ⟨hout', hend⟩ := ih s'
          exact ⟨by rw [produced_cons_ok, hout']; rfl, hend⟩

/-- **The steps add up to `dispatch`**: every exchange that is delivered whole is answered as if
nothing had been waited for. -/
theorem exchange_run (x : Exchange X) :
    produced (traceFrom (streamStep (H := H) serdeJson server) (none, .idle) x.events) =
      exchangeOutputs serdeJson server x ∧
    runFrom (streamStep (H := H) serdeJson server) (none, .idle) x.events =
      (some x.remote, .finished) := by
  have hevents : x.events =
      .accepted x.remote :: .task (.request x.head) :: closing x.body x.reply := rfl
  obtain ⟨hout, hend⟩ := run_collecting (H := H) serdeJson server x
    ⟨[], server.config.maxBodySize⟩ x.body
  rw [hevents, exchangeOutputs_eq]
  exact ⟨hout, hend⟩

/-! ### What a step can be -/

/-- The steps of a stream that accepts an event. -/
inductive StreamSteps : Stream X → StreamEvent X → List (Output H X) → Stream X → Prop
  | accept {task : Task X} {remote : SocketAddr} :
      StreamSteps (none, task) (.accepted remote) [] (some remote, task)
  | request {remote : SocketAddr} {head : RequestHead X} :
      StreamSteps (some remote, .idle) (.task (.request head)) []
        (some remote, .collecting head ⟨[], server.config.maxBodySize⟩)
  | kept {remote : SocketAddr} {head : RequestHead X} {s s' : CollectState}
      {frame : Except Str Frame} :
      collectStep server.config.maxBodySize s frame = .ok (.ok s') →
        StreamSteps (some remote, .collecting head s) (.task (.frame (some frame))) []
          (some remote, .collecting head s')
  | unreadable {remote : SocketAddr} {head : RequestHead X} {s : CollectState}
      {frame : Except Str Frame} {e : Str} :
      collectStep server.config.maxBodySize s frame = .ok (.error e) →
        StreamSteps (some remote, .collecting head s) (.task (.frame (some frame)))
          [.ofRun do
            let resp ← Response.internalError serdeJson "body too large or unreadable".toList
            render resp server.config] (some remote, .finished)
  | bodyEnd {remote : SocketAddr} {head : RequestHead X} {s : CollectState} :
      StreamSteps (some remote, .collecting head s) (.task (.frame none))
        (bodyRead serdeJson server remote head s.collected).1
        (some remote, (bodyRead (H := H) serdeJson server remote head s.collected).2)
  | reply {remote : SocketAddr} {result : Run (Except Str (Response X))} :
      StreamSteps (some remote, .handling) (.task (.reply result))
        [replied serdeJson server result] (some remote, .finished)

/-- **An accepted event is one of these steps.** -/
theorem streamSteps_of_ok {stream : Stream X} {e : StreamEvent X} {out : List (Output H X)}
    (hout : (streamStep serdeJson server stream e).1 = .ok out) :
    StreamSteps serdeJson server stream e out (streamStep (H := H) serdeJson server stream e).2 := by
  obtain ⟨remote, task⟩ := stream
  cases remote with
  | none =>
      cases e with
      | accepted remote =>
          cases hout
          exact .accept
      | task e => cases hout
  | some remote =>
      cases e with
      | accepted remote => cases hout
      | task e =>
          cases task with
          | idle =>
              cases e with
              | request head =>
                  cases hout
                  exact .request
              | frame next => cases hout
              | reply result => cases hout
          | collecting head s =>
              cases e with
              | request head => cases hout
              | reply result => cases hout
              | frame next =>
                  cases next with
                  | none =>
                      cases hout
                      exact .bodyEnd
                  | some frame =>
                      obtain ⟨res, hres⟩ := collectStep_returns server.config.maxBodySize s frame
                      rw [streamStep, taskStep, hres] at hout ⊢
                      cases res with
                      | error err =>
                          cases hout
                          exact .unreadable hres
                      | ok s' =>
                          cases hout
                          exact .kept hres
          | handling =>
              cases e with
              | request head => cases hout
              | frame next => cases hout
              | reply result =>
                  cases hout
                  exact .reply
          | finished => cases e <;> cases hout

end Server

/-! ### What may have been delivered -/

/-- What has been delivered to a stream that waits where it does, the body limit being `n`. -/
inductive Taken {X : HttpCrate} (n : ℕ) : List (StreamEvent X) → Stream X → Prop
  | closed : Taken n [] (none, .idle)
  | idle {remote : SocketAddr} : Taken n [.accepted remote] (some remote, .idle)
  | collecting {remote : SocketAddr} {head : RequestHead X} {body : List (Except Str Frame)}
      {s : CollectState} : (∀ rest, LoopState n (body ++ rest) s rest) →
        Taken n (opening remote head body) (some remote, .collecting head s)
  | handling {remote : SocketAddr} {head : RequestHead X} {body : List (Except Str Frame)} :
      Readable body n →
        Taken n (opening remote head body ++ [.task (.frame none)]) (some remote, .handling)
  | finished {remote : SocketAddr} {events : List (StreamEvent X)} (x : Exchange X) :
      events <+: x.events → Taken n events (some remote, .finished)

theorem opening_snoc {X : HttpCrate} (remote : SocketAddr) (head : RequestHead X)
    (body : List (Except Str Frame)) (frame : Except Str Frame) :
    opening remote head (body ++ [frame]) =
      opening remote head body ++ [.task (.frame (some frame))] := by
  simp [opening]

theorem Exchange.events_eq {X : HttpCrate} (x : Exchange X) : x.events =
    opening x.remote x.head x.body ++ [.task (.frame none), .task (.reply x.reply)] := by
  simp [Exchange.events, opening, closing]

/-- Frames that have come and been kept are buffered, and were readable. -/
theorem collected_of_loopState {n : ℕ} {body : List (Except Str Frame)} {s : CollectState}
    (h : ∀ rest, LoopState n (body ++ rest) s rest) : s.collected = dataOf body := by
  have hdata := (h []).collected_append
  rw [List.append_nil, show dataOf [] = [] from rfl, List.append_nil] at hdata
  exact hdata

theorem readable_of_loopState {n : ℕ} {body : List (Except Str Frame)} {s : CollectState}
    (h : ∀ rest, LoopState n (body ++ rest) s rest) : Readable body n := by
  have hloop := (h []).collectLoop_eq
  rw [List.append_nil] at hloop
  by_contra hread
  obtain ⟨e, he⟩ := collectBody_of_not_readable hread
  rw [he] at hloop
  cases hloop

theorem Taken.of_finished {X : HttpCrate} {n : ℕ} {events : List (StreamEvent X)}
    {stream : Stream X} (h : Taken n events stream) (hfinished : stream.2 = .finished) :
    ∃ remote, stream = (some remote, .finished) := by
  cases h with
  | @finished remote _ _ _ => exact ⟨remote, rfl⟩
  | _ => cases hfinished

/-- An exchange whose handler is never heard of. -/
def Exchange.of {X : HttpCrate} (remote : SocketAddr) (head : RequestHead X)
    (body : List (Except Str Frame)) : Exchange X := ⟨remote, head, body, .error .unwrapFailed⟩

/-- Whatever has been delivered is the beginning of an exchange. -/
theorem Taken.exists_exchange {X : HttpCrate} {n : ℕ} {events : List (StreamEvent X)}
    {stream : Stream X} (h : Taken n events stream) : ∃ x : Exchange X, events <+: x.events := by
  let head : RequestHead X := ⟨⟨[]⟩, [], none, X.mapNew⟩
  cases h with
  | closed => exact ⟨.of ⟨[]⟩ head [], List.nil_prefix⟩
  | @idle remote =>
      exact ⟨.of remote head [], List.prefix_append [StreamEvent.accepted remote] _⟩
  | @collecting remote head body s _ =>
      refine ⟨.of remote head body, ?_⟩
      rw [Exchange.events_eq]
      exact List.prefix_append _ _
  | @handling remote head body _ =>
      refine ⟨.of remote head body, ?_⟩
      rw [Exchange.events_eq]
      exact (List.prefix_append_right_inj _).mpr
        (List.prefix_append [StreamEvent.task (.frame none)] _)
  | finished x hx => exact ⟨x, hx⟩

namespace Server

variable {H : Type} {M : Matchit H} {X : HttpCrate}
variable (serdeJson : SerdeJson) (server : Server M)

/-- A stream that accepts an event waits where it should. -/
theorem taken_step {events : List (StreamEvent X)} {stream stream' : Stream X} {e : StreamEvent X}
    {out : List (Output H X)} (h : Taken server.config.maxBodySize events stream)
    (hstep : StreamSteps serdeJson server stream e out stream') :
    Taken server.config.maxBodySize (events ++ [e]) stream' := by
  cases hstep with
  | accept =>
      cases h with
      | closed => exact .idle
  | @request remote head =>
      cases h with
      | idle =>
          show Taken _ (opening remote head []) _
          exact .collecting fun rest => .start
  | @kept remote head s s' frame hres =>
      cases h with
      | @collecting _ _ body _ hloop =>
          rw [← opening_snoc]
          refine .collecting fun rest => ?_
          have hround := hloop (frame :: rest)
          rw [List.append_cons] at hround
          exact .round hround hres
  | @unreadable remote head s frame _ _ =>
      cases h with
      | @collecting _ _ body _ _ =>
          rw [← opening_snoc]
          refine .finished (.of remote head (body ++ [frame])) ?_
          rw [Exchange.events_eq]
          exact List.prefix_append _ _
  | @bodyEnd remote head s =>
      cases h with
      | @collecting _ _ body _ hloop =>
          rcases bodyRead_cases serdeJson server remote head s.collected with
            ⟨status, text, hcase⟩ | ⟨handler, request, hcase, -⟩
          · rw [hcase]
            refine .finished (.of remote head body) ?_
            rw [Exchange.events_eq]
            exact (List.prefix_append_right_inj _).mpr
              (List.prefix_append [StreamEvent.task (.frame none)] _)
          · rw [hcase]
            exact .handling (readable_of_loopState hloop)
  | @reply remote result =>
      cases h with
      | @handling _ head body _ =>
          refine .finished ⟨remote, head, body, result⟩ ?_
          rw [Exchange.events_eq, List.append_assoc]
          exact List.prefix_refl _

/-- What is delivered to a stream, and where it waits then. -/
theorem taken (events : List (StreamEvent X)) : Taken server.config.maxBodySize
    (accepted (traceFrom (streamStep (H := H) serdeJson server) (none, .idle) events))
    (runFrom (streamStep (H := H) serdeJson server) (none, .idle) events) := by
  refine accepted_history (streamStep_rejectsCleanly serdeJson server)
    (Taken server.config.maxBodySize) .closed ?_ events
  intro events stream e out h hout
  exact taken_step serdeJson server h (streamSteps_of_ok serdeJson server hout)

/-- **What a stream has done is the beginning of what `dispatch` does** with every exchange that begins
with what was delivered to it; and once its call has finished, it is all of it. -/
theorem stream_run (events : List (StreamEvent X)) (x : Exchange X)
    (h : accepted (traceFrom (streamStep (H := H) serdeJson server) (none, .idle) events) <+:
      x.events) :
    produced (traceFrom (streamStep (H := H) serdeJson server) (none, .idle) events) <+:
        exchangeOutputs serdeJson server x ∧
      ((runFrom (streamStep (H := H) serdeJson server) (none, .idle) events).2 = .finished →
        produced (traceFrom (streamStep (H := H) serdeJson server) (none, .idle) events) =
          exchangeOutputs serdeJson server x) := by
  have hclean := streamStep_rejectsCleanly (H := H) (X := X) serdeJson server
  obtain ⟨rest, hrest⟩ := h
  have hout := (exchange_run (H := H) serdeJson server x).1
  rw [← hrest, traceFrom_append, produced_append, produced_accepted hclean,
    runFrom_accepted hclean] at hout
  refine ⟨⟨_, hout⟩, ?_⟩
  intro hfinished
  obtain ⟨remote, hstream⟩ := (taken (H := H) serdeJson server events).of_finished hfinished
  rw [hstream, (run_finished serdeJson server remote rest).1, List.append_nil] at hout
  exact hout

/-- An exchange that is delivered whole is finished, whatever is delivered after it. -/
theorem stream_run_of_delivered {events : List (StreamEvent X)} {x : Exchange X}
    (h : x.events <+: events) :
    runFrom (streamStep (H := H) serdeJson server) (none, .idle) events = (some x.remote, .finished) ∧
      produced (traceFrom (streamStep (H := H) serdeJson server) (none, .idle) events) =
        exchangeOutputs serdeJson server x := by
  obtain ⟨rest, rfl⟩ := h
  obtain ⟨hout, hend⟩ := exchange_run (H := H) serdeJson server x
  obtain ⟨hnone, hstill⟩ := run_finished (H := H) serdeJson server x.remote rest
  constructor
  · rw [runFrom_append, hend, hstill]
  · rw [traceFrom_append, produced_append, hout, hend, hnone, List.append_nil]

/-! ### The server -/

/-- The stream `i` after a schedule. -/
theorem streamOf_after (events : List (ServerEvent X)) (i : ℕ × ℕ) :
    streamOf i (server.after serdeJson events) =
      runFrom (streamStep (H := H) serdeJson server) (none, .idle)
        (events.filterMap (ServerEvent.on i)) :=
  runFrom_project (step_projects serdeJson server) i _ events

/-- What happens on the stream `i` in a schedule. -/
theorem entriesOf_trace (events : List (ServerEvent X)) (i : ℕ × ℕ) :
    entriesOf ServerEvent.on i (server.trace serdeJson events) =
      traceFrom (streamStep (H := H) serdeJson server) (none, .idle)
        (events.filterMap (ServerEvent.on i)) :=
  traceFrom_project (step_projects serdeJson server) i _ events

end Server

end RustApi
