import RustApi.Engine.Dispatch
import RustApi.Engine.RouterRuns

/-!
# The Python application object

A `PyApp` holds a router and a configuration.  `register` adds to the router; `run` copies the
configuration, takes the router away and starts a server with both.  A server that cannot be started
gives neither back.

`PyCall` is a call on the object from Python, with an arbitrary oracle for each `run`, and
`PyApp.after` the object after a list of calls.  Two results are about all such objects:

* `failed_run_keeps_routes_iff` — when failed runs leave the routes as they were;
* `render_of_app_iff` — for which server strings every response can be rendered.
-/

namespace RustApi

open RustStd StepRuns Router

/-- The exceptions raised: two kinds of `ValueError` and an `OSError`. -/
inductive PyError
  | badMethod (method error : Str)
  | refused (e : RouterError)
  | io (error : Str)

/-- The text of an exception; `debug` is the `{:?}` format of a string. -/
def PyError.text (debug : Str → Str) : PyError → Str
  | .badMethod method error => "bad method ".toList ++ debug method ++ ": ".toList ++ error
  | .refused e => e.display
  | .io error => error

/-- The main app class. -/
structure PyApp {H : Type} (M : Matchit H) where
  router : Router M
  config : ServerConfig

namespace PyApp

variable {H : Type} {M : Matchit H} {X : HttpCrate}

/-- `_RustApi(server_name="rustapi/0.1")`. -/
def new (M : Matchit H) (serverName : Option Str) : PyApp M where
  router := Router.new M
  config := { ServerConfig.default with serverName := serverName.getD "rustapi/0.1".toList }

/-- Register a handler. Returns the original function so it can be used as a decorator. -/
def register (X : HttpCrate) (app : PyApp M) (method path : Str) (handler : H) :
    Except PyError H × PyApp M :=
  match X.methodFromBytes (utf8 method) with
  | .error e => (.error (.badMethod method e), app)
  | .ok m =>
      match app.router.add m path handler with
      | (.error e, router) => (.error (.refused e), { app with router := router })
      | (.ok (), router) => (.ok handler, { app with router := router })

/-- Get the number of registered routes. -/
def routeCount (app : PyApp M) : ℕ := app.router.len

/-- The configuration of a run. -/
def runConfig (app : PyApp M) (host : Option Str) (port : Option UInt16) : ServerConfig :=
  { app.config with host := host.getD app.config.host, port := port.getD app.config.port }

/-- Run the server: an error, or the server that now serves. -/
def run (app : PyApp M) (host : Option Str) (port : Option UInt16) (net : Net) :
    Except PyError (Server M) × PyApp M :=
  let config := app.runConfig host port
  -- the router is moved out before the first step that can fail
  let server := Server.new app.router config
  ((server.serve net).mapError .io, { app with router := Router.new M })

end PyApp

/-! ### Calls from Python -/

inductive PyCall (H : Type)
  | register (method path : Str) (handler : H)
  | run (host : Option Str) (port : Option UInt16) (net : Net)

/-- The call of the router's `add` that a call from Python makes, if its method is well formed. -/
def PyCall.addCall {H : Type} (X : HttpCrate) : PyCall H → Option (AddCall H)
  | .register method path handler =>
      match X.methodFromBytes (utf8 method) with
      | .ok m => some ⟨m, path, handler⟩
      | .error _ => none
  | .run _ _ _ => none

namespace PyApp

variable {H : Type} {M : Matchit H} {X : HttpCrate}

def step (X : HttpCrate) (app : PyApp M) : PyCall H → Except PyError Unit × PyApp M
  | .register method path handler =>
      let result := app.register X method path handler
      (result.1.map fun _ => (), result.2)
  | .run host port net =>
      let result := app.run host port net
      (result.1.map fun _ => (), result.2)

/-- The object after a list of calls on a new one. -/
def after (X : HttpCrate) (M : Matchit H) (serverName : Option Str) (calls : List (PyCall H)) :
    PyApp M := runFrom (step X) (new M serverName) calls

/-- The calls of `add` that the calls from Python make. -/
def adds (X : HttpCrate) (calls : List (PyCall H)) : List (AddCall H) :=
  calls.filterMap (PyCall.addCall X)

/-- What a run returns: the server it was going to start, if the listener can be set up. -/
theorem run_fst (app : PyApp M) (host : Option Str) (port : Option UInt16) (net : Net) :
    (app.run host port net).1 =
      ((net.parseAddr (app.runConfig host port).addrText >>= net.bind).map fun _ =>
        Server.new app.router (app.runConfig host port)).mapError .io :=
  congrArg (Except.mapError PyError.io) (Server.serve_eq _ net)

/-- A run fails when its address does not parse or cannot be bound, and only then. -/
theorem run_fails_iff (app : PyApp M) (host : Option Str) (port : Option UInt16) (net : Net) :
    (∃ e, (app.run host port net).1 = .error e) ↔
      ∃ e, (net.parseAddr (app.runConfig host port).addrText >>= net.bind) = .error e := by
  rw [run_fst]
  cases net.parseAddr (app.runConfig host port).addrText >>= net.bind with
  | error e => exact iff_of_true ⟨_, rfl⟩ ⟨e, rfl⟩
  | ok u => exact iff_of_false (fun ⟨_, h⟩ => by cases h) (fun ⟨_, h⟩ => by cases h)

/-- A run that gets to serve serves the routes it found. -/
theorem run_serves {app : PyApp M} {host : Option Str} {port : Option UInt16} {net : Net}
    {server : Server M} (h : (app.run host port net).1 = .ok server) :
    server.router = app.router := by
  rw [run_fst] at h
  cases hlisten : net.parseAddr (app.runConfig host port).addrText >>= net.bind with
  | error e =>
      rw [hlisten] at h
      cases h
  | ok u =>
      rw [hlisten] at h
      rw [← Except.ok.inj h]
      rfl

/-! ### One call -/

/-- Registering is adding, where the method is well formed. -/
theorem step_register_router (app : PyApp M) (method path : Str) (handler : H) :
    (app.step X (.register method path handler)).2.router =
      match PyCall.addCall X (.register method path handler) with
      | some c => (app.router.addStep c).2
      | none => app.router := by
  simp only [step, register, PyCall.addCall]
  cases X.methodFromBytes (utf8 method) with
  | error e => rfl
  | ok m =>
      show (match app.router.add m path handler with
        | (.error e, router) => ((.error (.refused e) : Except PyError H),
            ({ app with router := router } : PyApp M))
        | (.ok (), router) => (.ok handler, { app with router := router })).2.router =
          (app.router.add m path handler).2
      rcases app.router.add m path handler with ⟨_ | _, router⟩ <;> rfl

theorem step_config (app : PyApp M) (call : PyCall H) : (app.step X call).2.config = app.config := by
  cases call with
  | run host port net => rfl
  | register method path handler =>
      simp only [step, register]
      cases X.methodFromBytes (utf8 method) with
      | error e => rfl
      | ok m =>
          dsimp only
          rcases app.router.add m path handler with ⟨_ | _, router⟩ <;> rfl

/-! ### Failed runs and the routes -/

theorem after_snoc (serverName : Option Str) (calls : List (PyCall H)) (call : PyCall H) :
    after X M serverName (calls ++ [call]) = ((after X M serverName calls).step X call).2 :=
  runFrom_snoc _ _ _ _

theorem adds_snoc (calls : List (PyCall H)) (call : PyCall H) :
    adds X (calls ++ [call]) = adds X calls ++ (call.addCall X).toList := by
  rw [adds, List.filterMap_append, adds]
  cases hcall : call.addCall X with
  | none => rw [List.filterMap_cons_none hcall]; rfl
  | some c => rw [List.filterMap_cons_some hcall]; rfl

theorem after_config (serverName : Option Str) (calls : List (PyCall H)) :
    (after X M serverName calls).config = (new M serverName).config := by
  refine runFrom_history (step X) (fun _ app => app.config = (new M serverName).config) rfl ?_ calls
  intro _ app call ih
  rw [step_config, ih]

/-- Every run among the calls failed, each under an oracle of its own. -/
def RunsFail (X : HttpCrate) (M : Matchit H) (serverName : Option Str) (calls : List (PyCall H)) :
    Prop :=
  ∀ before host port net, before ++ [.run host port net] <+: calls →
    ∃ e, ((after X M serverName before).run host port net).1 = .error e

theorem RunsFail.of_prefix {serverName : Option Str} {calls before : List (PyCall H)}
    (h : RunsFail X M serverName calls) (hpre : before <+: calls) :
    RunsFail X M serverName before :=
  fun _ host port net hrun => h _ host port net (hrun.trans hpre)

/-- No run comes after a call that reached the router. -/
def RunsComeFirst (X : HttpCrate) (calls : List (PyCall H)) : Prop :=
  ∀ before host port net, before ++ [.run host port net] <+: calls → adds X before = []

theorem RunsComeFirst.of_prefix {calls before : List (PyCall H)} (h : RunsComeFirst X calls)
    (hpre : before <+: calls) : RunsComeFirst X before :=
  fun _ host port net hrun => h _ host port net (hrun.trans hpre)

/-- While runs come first, the router is the one built by registering alone. -/
theorem RunsComeFirst.router_eq {calls : List (PyCall H)} (h : RunsComeFirst X calls)
    (serverName : Option Str) :
    (after X M serverName calls).router = Router.after M (adds X calls) := by
  refine runFrom_history (step X) (fun calls app => RunsComeFirst X calls →
    app.router = Router.after M (adds X calls)) (fun _ => rfl) ?_ calls h
  intro calls app call ih h
  have hrouter := ih (h.of_prefix (List.prefix_append _ _))
  rw [adds_snoc]
  cases call with
  | run host port net =>
      -- the router is gone, but there was nothing in it
      rw [h calls host port net (List.prefix_refl _)]
      rfl
  | register method path handler =>
      rw [step_register_router, hrouter]
      cases (PyCall.register method path handler).addCall X with
      | none => rw [Option.toList_none, List.append_nil]
      | some c => rw [Option.toList_some, Router.after_snoc]

/-- The object has the routes of the given calls of `add`, and hands them to any server it starts. -/
structure KeepsRoutes (app : PyApp M) (calls : List (AddCall H)) : Prop where
  count : app.routeCount = (Router.after M calls).len
  routes : ObsEq app.router (Router.after M calls)
  served : ∀ host port net server, (app.run host port net).1 = .ok server →
    ObsEq server.router (Router.after M calls)

/-- **Failed runs keep the routes exactly when they come first.**  A failed run drops the router, so
the routes registered before it are lost. -/
theorem failed_run_keeps_routes_iff (X : HttpCrate) (M : Matchit H) (serverName : Option Str)
    (calls : List (PyCall H)) :
    (∀ before, before <+: calls → RunsFail X M serverName before →
      KeepsRoutes (after X M serverName before) (adds X before)) ↔
    ∀ before host port net, before ++ [.run host port net] <+: calls →
      RunsFail X M serverName (before ++ [.run host port net]) → adds X before = [] := by
  constructor
  · intro h before host port net hpre hfail
    have hkeep := (h _ hpre hfail).count
    rw [after_snoc, adds_snoc] at hkeep
    -- the router after the run is new
    have hlen : (Router.after M (adds X before)).len = 0 := by
      have hzero : (Router.new M).len = (Router.after M (adds X before ++ [])).len := hkeep
      rw [List.append_nil] at hzero
      exact hzero.symm
    exact (len_eq_zero_iff _).mp hlen
  · intro h before hpre hfail
    have hfirst : RunsComeFirst X before := fun b host port net hrun =>
      h b host port net (hrun.trans hpre) (hfail.of_prefix hrun)
    have hrouter := hfirst.router_eq (M := M) serverName
    refine ⟨by rw [routeCount, hrouter], by rw [hrouter]; exact ObsEq.refl _, ?_⟩
    intro host port net server hrun
    rw [run_serves hrun, hrouter]
    exact ObsEq.refl _

/-- An address that does not parse. -/
def unparsable : Net where
  parseAddr _ := .error "invalid socket address syntax".toList
  bind _ := .ok ()

def registerThenRun : List (PyCall ℕ) :=
  [.register "GET".toList "/".toList 0, .run none none unparsable]

/-- One route, one failed run, and no route is left. -/
theorem failed_run_loses_route :
    RunsFail plainHttp (routeList ℕ) none registerThenRun ∧
    ¬ KeepsRoutes (after plainHttp (routeList ℕ) none registerThenRun)
      (adds plainHttp registerThenRun) := by
  constructor
  · intro before host port net hpre
    have hmem : PyCall.run host port net ∈ registerThenRun :=
      hpre.subset (List.mem_append_right _ (List.mem_singleton_self _))
    simp only [registerThenRun, List.mem_cons, List.not_mem_nil, reduceCtorEq, false_or,
      or_false, PyCall.run.injEq] at hmem
    obtain ⟨-, -, rfl⟩ := hmem
    exact (run_fails_iff _ _ _ _).mpr ⟨_, rfl⟩
  · intro h
    have hlen := h.count
    have hleft : (after plainHttp (routeList ℕ) none registerThenRun).routeCount = 0 := rfl
    have hadds : adds plainHttp registerThenRun = [⟨⟨"GET".toList⟩, "/".toList, 0⟩] := by decide
    rw [hleft, hadds] at hlen
    exact absurd hlen (by decide)

/-! ### The server string -/

/-- **Every response can be rendered exactly when the server string is a header value.**  It is the
string the object was made with, whatever was registered or run since; the responses the engine makes
itself are always small enough. -/
theorem render_of_app_iff (hX : X.Documented) (M : Matchit H) (serverName : Option Str)
    (calls : List (PyCall H)) (host : Option Str) (port : Option UInt16) (serdeJson : SerdeJson)
    (msg : Str) :
    (∀ resp : Response X,
      WithinLimit resp ((after X M serverName calls).runConfig host port) →
        ((∃ out, render resp ((after X M serverName calls).runConfig host port) = .ok out) ↔
          ValidHeaderValue (serverName.getD "rustapi/0.1".toList))) ∧
    (∀ make ∈ [Response.notFound, Response.methodNotAllowed, Response.internalError serdeJson msg],
      ∃ resp : Response X, make = .ok resp ∧
        WithinLimit resp ((after X M serverName calls).runConfig host port)) := by
  have hname : ((after X M serverName calls).runConfig host port).serverName =
      serverName.getD "rustapi/0.1".toList := by
    show (after X M serverName calls).config.serverName = _
    rw [after_config]
    rfl
  constructor
  · intro resp hfit
    rw [exists_render_iff hX hfit, hname]
  · intro make hmake
    have hnew : ∃ status body, make =
        Response.new status body "application/json; charset=utf-8".toList := by
      simp only [List.mem_cons, List.not_mem_nil, or_false] at hmake
      rcases hmake with rfl | rfl | rfl
      · exact ⟨_, _, rfl⟩
      · exact ⟨_, _, rfl⟩
      · exact ⟨_, _, rfl⟩
    obtain ⟨status, body, rfl⟩ := hnew
    obtain ⟨resp, hresp, hcarries⟩ := (Response.new_spec hX status body _).1 validHeaderValue_json
    exact ⟨resp, hresp, carries_withinLimit hX hcarries _⟩

theorem render_of_app_iff_default :
    (∀ resp : Response plainHttp,
      WithinLimit resp ((after plainHttp (routeList ℕ) none registerThenRun).runConfig none none) →
        ((∃ out, render resp ((after plainHttp (routeList ℕ) none registerThenRun).runConfig
            none none) = .ok out) ↔ ValidHeaderValue "rustapi/0.1".toList)) ∧
    (∀ make ∈ [Response.notFound, Response.methodNotAllowed,
        Response.internalError plainJson "handler failed".toList],
      ∃ resp : Response plainHttp, make = .ok resp ∧
        WithinLimit resp
          ((after plainHttp (routeList ℕ) none registerThenRun).runConfig none none)) :=
  render_of_app_iff plainHttp_documented (routeList ℕ) none registerThenRun none none plainJson
    "handler failed".toList

/-- A server string with a newline: not even a 404 can be rendered. -/
theorem render_fails_newline :
    plainHttp.Documented ∧
    ∃ resp : Response plainHttp, Response.notFound = .ok resp ∧
      WithinLimit resp ((new (routeList ℕ) (some "bad\nname".toList)).runConfig none none) ∧
      ¬ ∃ out, render resp
        ((new (routeList ℕ) (some "bad\nname".toList)).runConfig none none) = .ok out := by
  refine ⟨plainHttp_documented, ?_⟩
  obtain ⟨resp, hresp, hcarries⟩ :=
    (Response.new_spec plainHttp_documented .notFound _ _).1 validHeaderValue_json
  have hfit := carries_withinLimit plainHttp_documented hcarries
    ((new (routeList ℕ) (some "bad\nname".toList)).runConfig none none)
  refine ⟨resp, hresp, hfit, ?_⟩
  rw [exists_render_iff plainHttp_documented hfit]
  show ¬ ValidHeaderValue "bad\nname".toList
  decide

end PyApp

end RustApi
